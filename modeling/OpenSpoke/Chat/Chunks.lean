import OpenSpoke.GitHub.Edits

/-!
# Chunks of a topic

Paragraphs are collected in a buffer up to a target length, a paragraph beyond the maximum
is cut, and a chunk below the minimum is joined to the one before it. What holds of the
chunks is said of their parts: a part is a piece of a paragraph, under the paragraph's number.
-/

namespace OpenSpoke.Chat.Chunks

open Python (Text isSpace strip)
open GitHub (lines unlines)

def chunkTargetChars : ℕ := 500
def chunkMaxChars : ℕ := 800
def chunkMinChars : ℕ := 100
def embedContentCharLimit : ℕ := 2000

/-- `"\n\n".join`. -/
def join (parts : List Text) : Text := List.intercalate ['\n', '\n'] parts

/-- The paragraphs, with the lines of one that is still open. -/
def paragraphsFrom : List Text → List Text → List Text
  | current, [] => if current = [] then [] else [unlines current]
  | current, line :: rest =>
    if strip line = [] then
      (if current = [] then [] else [unlines current]) ++ paragraphsFrom [] rest
    else paragraphsFrom (current ++ [line]) rest

def paragraphs (text : Text) : List Text := paragraphsFrom [] (lines text)

/-- `para[i:i + CHUNK_TARGET_CHARS]` for `i` in `range(0, para_len, CHUNK_TARGET_CHARS)`. -/
def cut (para : Text) : List Text :=
  (List.range ((para.length + (chunkTargetChars - 1)) / chunkTargetChars)).map fun i =>
    (para.drop (i * chunkTargetChars)).take chunkTargetChars

def flush (buffer : List Text) : List Text := if buffer = [] then [] else [join buffer]

def chunksFrom : List Text → ℕ → List Text → List Text
  | buffer, _, [] => flush buffer
  | buffer, bufferLen, para :: rest =>
    if chunkMaxChars < para.length then
      flush buffer ++ cut para ++ chunksFrom [] (if buffer = [] then bufferLen else 0) rest
    else if chunkTargetChars < bufferLen + para.length ∧ buffer ≠ [] then
      flush buffer ++ chunksFrom [para] para.length rest
    else chunksFrom (buffer ++ [para]) (bufferLen + (para.length + 2)) rest

def mergeStep (merged : List Text) (c : Text) : List Text :=
  match merged.getLast? with
  | some last =>
    if c.length < chunkMinChars then merged.dropLast ++ [last ++ ['\n', '\n'] ++ c]
    else merged ++ [c]
  | none => merged ++ [c]

def splitIntoChunks (text : Text) : List Text :=
  if strip text = [] then [] else (chunksFrom [] 0 (paragraphs text)).foldl mergeStep []

/-! ## What is embedded -/

structure Topic where
  title : Text
  summary : Text
  content : Text
  deriving DecidableEq

/-- What stands before the first chunk. -/
def Topic.prefixed (t : Topic) : Text :=
  let parts := (if t.title = [] then [] else [['['] ++ t.title ++ [']']]) ++
    (if t.summary = [] then [] else [t.summary])
  if parts = [] then [] else List.intercalate [' '] parts ++ ['\n', '\n']

/-- The texts of a topic as `_refresh_topic_chunks_cache` keeps them. -/
def Topic.chunkTexts (t : Topic) : List Text :=
  let chunks := splitIntoChunks t.content
  let whole := strip (t.title ++ ['\n'] ++ t.summary)
  let texts := if chunks = [] then (if whole = [] then [] else [whole]) else chunks
  texts.modifyHead (t.prefixed ++ ·)

/-- The texts as they are embedded. -/
def Topic.embedded (t : Topic) : List Text := t.chunkTexts.map (·.take embedContentCharLimit)

/-! ## Joined texts -/

theorem intercalate_append (sep : Text) {as bs : List Text} (ha : as ≠ []) (hb : bs ≠ []) :
    List.intercalate sep (as ++ bs) = List.intercalate sep as ++ sep ++ List.intercalate sep bs := by
  induction as with
  | nil => exact absurd rfl ha
  | cons a as ih =>
    cases as with
    | nil =>
      obtain ⟨b, bs, rfl⟩ := List.exists_cons_of_ne_nil hb
      rw [List.singleton_append, List.intercalate_cons_cons, List.intercalate_singleton]
    | cons a' as =>
      rw [List.cons_append, List.cons_append, List.intercalate_cons_cons, ← List.cons_append,
        ih (List.cons_ne_nil _ _), List.intercalate_cons_cons]
      simp only [List.append_assoc]

theorem join_append {as bs : List Text} (ha : as ≠ []) (hb : bs ≠ []) :
    join (as ++ bs) = join as ++ ['\n', '\n'] ++ join bs :=
  intercalate_append ['\n', '\n'] ha hb

theorem join_singleton (a : Text) : join [a] = a := List.intercalate_singleton

def solid (text : Text) : Text := text.filter (!isSpace ·)

theorem solid_append (s t : Text) : solid (s ++ t) = solid s ++ solid t := List.filter_append s t

theorem solid_intercalate (sep : Text) (hSep : solid sep = []) (as : List Text) :
    solid (List.intercalate sep as) = (as.map solid).flatten := by
  induction as with
  | nil => rfl
  | cons a as ih =>
    cases as with
    | nil => simp [List.intercalate_singleton]
    | cons a' as =>
      rw [List.intercalate_cons_cons, solid_append, solid_append, hSep, List.append_nil, ih]
      rfl

theorem solid_flatten (as : List Text) : solid as.flatten = (as.map solid).flatten := by
  induction as with
  | nil => rfl
  | cons a as ih => rw [List.flatten_cons, solid_append, ih, List.map_cons, List.flatten_cons]

theorem solid_eq_nil {line : Text} (h : strip line = []) : solid line = [] := by
  apply List.filter_eq_nil_iff.mpr
  intro c hc
  rw [(Python.strip_eq_nil_iff line).mp h c hc]
  decide

/-! ## Paragraphs -/

/-- Groups of lines that are not blank, each between blank lines or the ends. -/
inductive Grouped : List Text → List (List Text) → Prop
  | none {gap : List Text} (hGap : ∀ line ∈ gap, strip line = []) : Grouped gap []
  | next {gap group rest : List Text} {groups : List (List Text)}
      (hGap : ∀ line ∈ gap, strip line = []) (hNe : group ≠ [])
      (hGroup : ∀ line ∈ group, strip line ≠ []) (hApart : ∀ line ∈ rest.head?, strip line = [])
      (hRest : Grouped rest groups) : Grouped (gap ++ (group ++ rest)) (group :: groups)

theorem Grouped.blank {line : Text} (hLine : strip line = []) {ls : List Text}
    {groups : List (List Text)} (h : Grouped ls groups) : Grouped (line :: ls) groups := by
  cases h with
  | none hGap => exact .none (List.forall_mem_cons.mpr ⟨hLine, hGap⟩)
  | next hGap hNe hGroup hApart hRest =>
    exact .next (List.forall_mem_cons.mpr ⟨hLine, hGap⟩) hNe hGroup hApart hRest

theorem Grouped.solid {ls : List Text} {groups : List (List Text)} (h : Grouped ls groups) :
    (ls.map solid).flatten = ((groups.map unlines).map Chunks.solid).flatten := by
  have hBlank : ∀ gap : List Text, (∀ line ∈ gap, strip line = []) →
      (gap.map Chunks.solid).flatten = [] := by
    intro gap hGap
    apply List.flatten_eq_nil_iff.mpr
    intro l hl
    obtain ⟨line, hMem, rfl⟩ := List.mem_map.mp hl
    exact solid_eq_nil (hGap line hMem)
  induction h with
  | none hGap => exact hBlank _ hGap
  | next hGap hNe hGroup hApart hRest ih =>
    rw [List.map_append, List.map_append, List.flatten_append, List.flatten_append, hBlank _ hGap,
      ih, List.nil_append, List.map_cons, List.map_cons, List.flatten_cons, unlines,
      solid_intercalate _ rfl]

/-- By induction on the lines that are left; the open group stands before them. -/
theorem paragraphsFrom_grouped (current ls : List Text)
    (hCurrent : ∀ line ∈ current, strip line ≠ []) :
    ∃ groups, Grouped (current ++ ls) groups ∧
      paragraphsFrom current ls = groups.map unlines := by
  induction ls generalizing current with
  | nil =>
    rw [paragraphsFrom, List.append_nil]
    split
    next hNil =>
      rw [hNil]
      exact ⟨[], .none (List.forall_mem_nil _), rfl⟩
    next hNe =>
      have hOne := Grouped.next (List.forall_mem_nil _) hNe hCurrent (by simp)
        (.none (List.forall_mem_nil _))
      rw [List.append_nil] at hOne
      exact ⟨[current], hOne, rfl⟩
  | cons line ls ih =>
    rw [paragraphsFrom]
    split
    next hBlank =>
      obtain ⟨groups, hGroups, hEq⟩ := ih [] (List.forall_mem_nil _)
      have hRest : Grouped (line :: ls) groups := hGroups.blank hBlank
      rw [hEq]
      split
      next hNil =>
        rw [hNil]
        exact ⟨groups, hRest, rfl⟩
      next hNe =>
        refine ⟨current :: groups, ?_, rfl⟩
        apply Grouped.next (List.forall_mem_nil _) hNe hCurrent _ hRest
        intro l hl
        obtain rfl := Option.some_inj.mp hl
        exact hBlank
    next hLine =>
      obtain ⟨groups, hGroups, hEq⟩ := ih (current ++ [line]) (by
        intro l hl
        obtain hl | hl := List.mem_append.mp hl
        · exact hCurrent l hl
        · obtain rfl := List.mem_singleton.mp hl
          exact hLine)
      rw [List.append_assoc] at hGroups
      exact ⟨groups, hGroups, hEq⟩

theorem paragraphs_grouped (text : Text) :
    ∃ groups, Grouped (lines text) groups ∧ paragraphs text = groups.map unlines :=
  paragraphsFrom_grouped [] (lines text) (List.forall_mem_nil _)

theorem solid_paragraphs (text : Text) : ((paragraphs text).map solid).flatten = solid text := by
  obtain ⟨groups, hGroups, hEq⟩ := paragraphs_grouped text
  rw [hEq, ← hGroups.solid, ← solid_intercalate ['\n'] rfl]
  exact congrArg solid (GitHub.unlines_lines text)

/-! ## Parts -/

/-- A piece of the paragraph with a number. -/
structure Part where
  paragraph : ℕ
  piece : Text

def Part.texts (parts : List Part) : List Text := parts.map piece

/-- What the parts hold of one paragraph. -/
def Part.of (j : ℕ) (parts : List Part) : Text :=
  (texts (parts.filter (·.paragraph = j))).flatten

/-- The parts of the paragraphs from a number on, each paragraph whole and after the last one. -/
inductive Divides : ℕ → List Text → List Part → Prop
  | done {k : ℕ} : Divides k [] []
  | next {k : ℕ} {para : Text} {pieces ps : List Text} {parts : List Part}
      (hWhole : pieces.flatten = para) (hRest : Divides (k + 1) ps parts) :
      Divides k (para :: ps) (pieces.map (Part.mk k) ++ parts)

theorem Part.texts_append (as bs : List Part) : texts (as ++ bs) = texts as ++ texts bs :=
  List.map_append

theorem Part.texts_mk (k : ℕ) (pieces : List Text) : texts (pieces.map (Part.mk k)) = pieces := by
  rw [texts, List.map_map]
  exact List.map_id pieces

theorem Part.of_append (j : ℕ) (as bs : List Part) : of j (as ++ bs) = of j as ++ of j bs := by
  simp [of, texts]

theorem Part.of_mk (k j : ℕ) (pieces : List Text) :
    of j (pieces.map (Part.mk k)) = if k = j then pieces.flatten else [] := by
  split
  next hEq =>
    have hAll : (pieces.map (Part.mk k)).filter (·.paragraph = j) = pieces.map (Part.mk k) := by
      apply List.filter_eq_self.mpr
      intro part hPart
      obtain ⟨piece, -, rfl⟩ := List.mem_map.mp hPart
      exact decide_eq_true hEq
    rw [of, hAll, texts_mk]
  next hNe =>
    have hNone : (pieces.map (Part.mk k)).filter (·.paragraph = j) = [] := by
      apply List.filter_eq_nil_iff.mpr
      intro part hPart
      obtain ⟨piece, -, rfl⟩ := List.mem_map.mp hPart
      simpa using hNe
    rw [of, hNone]
    rfl

theorem Divides.of_eq {k : ℕ} {ps : List Text} {parts : List Part} (h : Divides k ps parts)
    (j : ℕ) : Part.of j parts = if k ≤ j then ps.getD (j - k) [] else [] := by
  induction h with
  | done => simp [Part.of, Part.texts]
  | @next k para pieces ps parts hWhole hRest ih =>
    rw [Part.of_append, Part.of_mk, ih, hWhole]
    obtain hLt | rfl | hGt := lt_trichotomy j k
    · rw [if_neg (by omega), if_neg (by omega), if_neg (by omega)]
      rfl
    · rw [if_pos rfl, if_neg (by omega), if_pos le_rfl, Nat.sub_self, List.append_nil]
      rfl
    · have hIndex : j - k = j - (k + 1) + 1 := by omega
      rw [if_neg (by omega), if_pos (by omega), if_pos (by omega), hIndex]
      rfl

theorem Divides.ordered {k : ℕ} {ps : List Text} {parts : List Part} (h : Divides k ps parts) :
    (∀ part ∈ parts, k ≤ part.paragraph) ∧
      parts.Pairwise fun a b => a.paragraph ≤ b.paragraph := by
  induction h with
  | done => exact ⟨List.forall_mem_nil _, .nil⟩
  | @next k para pieces ps parts hWhole hRest ih =>
    have hHere : ∀ part ∈ pieces.map (Part.mk k), part.paragraph = k := by
      intro part hPart
      obtain ⟨piece, -, rfl⟩ := List.mem_map.mp hPart
      rfl
    constructor
    · intro part hPart
      obtain hPart | hPart := List.mem_append.mp hPart
      · exact (hHere part hPart).ge
      · exact (Nat.le_succ k).trans (ih.1 part hPart)
    · refine List.pairwise_append.mpr ⟨?_, ih.2, fun a ha b hb => ?_⟩
      · exact List.pairwise_of_forall_mem_list fun a ha b hb => by
          rw [hHere a ha, hHere b hb]
      · rw [hHere a ha]
        exact (Nat.le_succ k).trans (ih.1 b hb)

theorem Divides.flatten {k : ℕ} {ps : List Text} {parts : List Part} (h : Divides k ps parts) :
    (Part.texts parts).flatten = ps.flatten := by
  induction h with
  | done => rfl
  | next hWhole hRest ih =>
    rw [Part.texts_append, Part.texts_mk, List.flatten_append, ih, hWhole, List.flatten_cons]

/-- The buffer holds the paragraphs from a number on, each of them whole. -/
def whole (k : ℕ) (buffer : List Text) : List Part := buffer.zipIdx k |>.map fun p => ⟨p.2, p.1⟩

theorem texts_whole (k : ℕ) (buffer : List Text) : Part.texts (whole k buffer) = buffer := by
  rw [Part.texts, whole, List.map_map]
  exact List.zipIdx_map_fst k buffer

theorem Divides.whole (k : ℕ) (buffer : List Text) {ps : List Text} {parts : List Part}
    (h : Divides (k + buffer.length) ps parts) :
    Divides k (buffer ++ ps) (Chunks.whole k buffer ++ parts) := by
  induction buffer generalizing k with
  | nil => exact h
  | cons para buffer ih =>
    have hRest : Divides (k + 1) (buffer ++ ps) (Chunks.whole (k + 1) buffer ++ parts) := by
      apply ih
      rw [List.length_cons] at h
      rwa [Nat.add_assoc, Nat.add_comm 1]
    have hPara : [para].flatten = para := List.flatten_singleton
    exact .next hPara hRest

theorem cut_short {para : Text} (hNe : para ≠ []) (hLen : para.length ≤ chunkTargetChars) :
    cut para = [para] := by
  have hPos := List.length_pos_of_ne_nil hNe
  rw [chunkTargetChars] at hLen
  have hOne : (para.length + (chunkTargetChars - 1)) / chunkTargetChars = 1 := by
    rw [chunkTargetChars]
    omega
  rw [cut, hOne, List.range_one, List.map_singleton, Nat.zero_mul, List.drop_zero,
    List.take_of_length_le (by rw [chunkTargetChars]; omega)]

theorem cut_long {para : Text} (hLen : chunkTargetChars < para.length) :
    cut para = para.take chunkTargetChars :: cut (para.drop chunkTargetChars) := by
  have hCount : (para.length + (chunkTargetChars - 1)) / chunkTargetChars =
      ((para.drop chunkTargetChars).length + (chunkTargetChars - 1)) / chunkTargetChars + 1 := by
    rw [List.length_drop, chunkTargetChars] at *
    omega
  rw [cut, hCount, List.range_succ_eq_map, List.map_cons, List.map_map, Nat.zero_mul,
    List.drop_zero, cut]
  refine congrArg _ (List.map_congr_left fun i _ => ?_)
  rw [Function.comp_apply, List.drop_drop, Nat.succ_mul, Nat.add_comm]

/-- By induction on the length: a long text gives a first piece and what the rest gives. -/
theorem cut_flatten (para : Text) : (cut para).flatten = para := by
  induction hLen : para.length using Nat.strong_induction_on generalizing para with
  | _ n ih =>
    rcases Nat.lt_or_ge chunkTargetChars para.length with hLong | hShort
    · have hRest : (para.drop chunkTargetChars).length < n := by
        rw [List.length_drop, chunkTargetChars] at *
        omega
      rw [cut_long hLong, List.flatten_cons, ih _ hRest _ rfl, List.take_append_drop]
    · rcases eq_or_ne para [] with rfl | hNe
      · rfl
      · rw [cut_short hNe hShort, List.flatten_singleton]

/-- The chunks as joins of parts. -/
structure Parted (chunks : List Text) (parts : List (List Part)) : Prop where
  nonempty : ∀ ps ∈ parts, ps ≠ []
  joins : chunks = parts.map fun ps => join (Part.texts ps)

theorem Parted.nil : Parted [] [] := ⟨List.forall_mem_nil _, rfl⟩

theorem Parted.append {cs ds : List Text} {ps qs : List (List Part)} (h : Parted cs ps)
    (h' : Parted ds qs) : Parted (cs ++ ds) (ps ++ qs) := by
  constructor
  · exact List.forall_mem_append.mpr ⟨h.nonempty, h'.nonempty⟩
  · rw [h.joins, h'.joins, List.map_append]

theorem Parted.singleton {parts : List Part} (hNe : parts ≠ []) :
    Parted [join (Part.texts parts)] [parts] :=
  ⟨List.forall_mem_singleton.mpr hNe, rfl⟩

theorem flush_parted (k : ℕ) (buffer : List Text) :
    ∃ parts, Parted (flush buffer) parts ∧ parts.flatten = whole k buffer := by
  rw [flush]
  split
  next hNil =>
    rw [hNil]
    exact ⟨[], .nil, rfl⟩
  next hNe =>
    have hWhole : whole k buffer ≠ [] := by
      intro hNil
      rw [← texts_whole k buffer, hNil] at hNe
      exact hNe rfl
    refine ⟨[whole k buffer], ?_, List.flatten_singleton⟩
    have hOne := Parted.singleton hWhole
    rwa [texts_whole] at hOne

theorem pieces_parted (k : ℕ) (pieces : List Text) :
    Parted pieces (pieces.map fun piece => [Part.mk k piece]) := by
  constructor
  · intro ps hps
    obtain ⟨piece, -, rfl⟩ := List.mem_map.mp hps
    exact List.cons_ne_nil _ _
  · rw [List.map_map]
    have hJoin : ((fun ps => join (Part.texts ps)) ∘ fun piece => [Part.mk k piece]) = id := by
      funext piece
      exact join_singleton piece
    rw [hJoin, List.map_id]

/-- By induction on the paragraphs that are left; the buffer stands before them. -/
theorem chunksFrom_parted (k : ℕ) (buffer : List Text) (bufferLen : ℕ) (ps : List Text) :
    ∃ parts, Parted (chunksFrom buffer bufferLen ps) parts ∧
      Divides k (buffer ++ ps) parts.flatten := by
  induction ps generalizing k buffer bufferLen with
  | nil =>
    obtain ⟨parts, hParted, hFlat⟩ := flush_parted k buffer
    refine ⟨parts, hParted, ?_⟩
    have hDone := Divides.done.whole k buffer
    rwa [List.append_nil (whole k buffer), ← hFlat] at hDone
  | cons para ps ih =>
    obtain ⟨flushed, hFlushed, hFlat⟩ := flush_parted k buffer
    rw [chunksFrom]
    split
    next hLong =>
      obtain ⟨rest, hRest, hDivides⟩ :=
        ih (k + buffer.length + 1) [] (if buffer = [] then bufferLen else 0)
      refine ⟨flushed ++ (cut para).map (fun piece => [⟨k + buffer.length, piece⟩]) ++ rest,
        (hFlushed.append (pieces_parted _ _)).append hRest, ?_⟩
      have hCut : ((cut para).map fun piece => [Part.mk (k + buffer.length) piece]).flatten =
          (cut para).map (Part.mk (k + buffer.length)) := by
        rw [← List.flatMap_def, ← List.map_eq_flatMap]
      rw [List.flatten_append, List.flatten_append, hFlat, hCut, List.append_assoc]
      exact (Divides.next (cut_flatten para) hDivides).whole k buffer
    next =>
      split
      next =>
        obtain ⟨rest, hRest, hDivides⟩ := ih (k + buffer.length) [para] para.length
        refine ⟨flushed ++ rest, hFlushed.append hRest, ?_⟩
        rw [List.flatten_append, hFlat]
        exact hDivides.whole k buffer
      next =>
        obtain ⟨rest, hRest, hDivides⟩ := ih k (buffer ++ [para]) (bufferLen + (para.length + 2))
        rw [List.append_assoc] at hDivides
        exact ⟨rest, hRest, hDivides⟩

theorem mergeStep_parted {merged : List Text} {parts : List (List Part)} (h : Parted merged parts)
    {c : Text} {ps : List Part} (hPs : ps ≠ []) (hc : c = join (Part.texts ps)) :
    ∃ parts', Parted (mergeStep merged c) parts' ∧ parts'.flatten = parts.flatten ++ ps := by
  have hOne : Parted [c] [ps] := hc ▸ Parted.singleton hPs
  have hKept : ∃ parts', Parted (merged ++ [c]) parts' ∧ parts'.flatten = parts.flatten ++ ps :=
    ⟨parts ++ [ps], h.append hOne, by simp⟩
  rw [mergeStep]
  rcases List.eq_nil_or_concat' parts with rfl | ⟨front, last, rfl⟩
  · have hNil : merged = [] := h.joins
    rw [hNil] at hKept ⊢
    exact hKept
  · have hMerged : merged = (front.map fun ps => join (Part.texts ps)) ++ [join (Part.texts last)] := by
      rw [h.joins, List.map_append]
      rfl
    rw [hMerged, List.getLast?_concat]
    dsimp only
    split
    next hSmall =>
      have hLast : last ≠ [] := h.nonempty last (List.mem_append_right _ List.mem_cons_self)
      have hTexts : ∀ qs : List Part, qs ≠ [] → Part.texts qs ≠ [] :=
        fun qs hqs hNil => hqs (List.map_eq_nil_iff.mp hNil)
      have hJoined : join (Part.texts last) ++ ['\n', '\n'] ++ c = join (Part.texts (last ++ ps)) := by
        rw [hc, Part.texts_append, join_append (hTexts last hLast) (hTexts ps hPs)]
      have hFront : Parted (front.map fun ps => join (Part.texts ps)) front :=
        ⟨fun qs hqs => h.nonempty qs (List.mem_append_left _ hqs), rfl⟩
      refine ⟨front ++ [last ++ ps], ?_, by simp⟩
      rw [List.dropLast_concat, hJoined]
      exact hFront.append (.singleton (List.append_ne_nil_of_left_ne_nil hLast ps))
    next =>
      rw [hMerged] at hKept
      exact hKept

theorem merge_parted {chunks merged : List Text} {parts done : List (List Part)}
    (hDone : Parted merged done) (h : Parted chunks parts) :
    ∃ parts', Parted (chunks.foldl mergeStep merged) parts' ∧
      parts'.flatten = done.flatten ++ parts.flatten := by
  obtain ⟨hNe, rfl⟩ := h
  induction parts generalizing merged done with
  | nil => exact ⟨done, hDone, (List.append_nil _).symm⟩
  | cons ps parts ih =>
    obtain ⟨hPs, hRest⟩ := List.forall_mem_cons.mp hNe
    obtain ⟨step, hStep, hFlat⟩ := mergeStep_parted hDone hPs rfl
    obtain ⟨all, hAll, hFlat'⟩ := ih hStep hRest
    refine ⟨all, hAll, ?_⟩
    rw [hFlat', hFlat, List.append_assoc, List.flatten_cons]

/-! ## Bounds -/

def ceiling : ℕ := chunkMaxChars + chunkMinChars + 2

/-- The length of the last chunk after one more, when it had a length before. -/
def grown (l : ℕ) (c : Text) : ℕ := if c.length < chunkMinChars then l + (2 + c.length) else c.length

/-- The chunks go in after one of a length, none beyond the ceiling. -/
def Room : ℕ → List Text → Prop
  | _, [] => True
  | l, c :: cs => grown l c ≤ ceiling ∧ Room (grown l c) cs

theorem Room.mono {l l' : ℕ} {cs : List Text} (h : Room l cs) (hLe : l' ≤ l) : Room l' cs := by
  induction cs generalizing l l' with
  | nil => exact h
  | cons c cs ih =>
    have hGrown : grown l' c ≤ grown l c := by
      unfold grown
      split <;> omega
    exact ⟨hGrown.trans h.1, ih h.2 hGrown⟩

/-- What is in the buffer, with the length that is counted for it. -/
structure Filled (buffer : List Text) (bufferLen : ℕ) : Prop where
  empty : buffer = [] → bufferLen = 0
  short : buffer ≠ [] → (join buffer).length ≤ chunkMaxChars
  counted : buffer ≠ [] → (join buffer).length ≤ bufferLen ∧ bufferLen ≤ (join buffer).length + 2

theorem join_concat_length {buffer : List Text} (hNe : buffer ≠ []) (para : Text) :
    (join (buffer ++ [para])).length = (join buffer).length + (para.length + 2) := by
  rw [join_append hNe (List.cons_ne_nil _ _), join_singleton, List.length_append,
    List.length_append]
  simp only [List.length_cons, List.length_nil]
  omega

theorem Filled.single {para : Text} (h : para.length ≤ chunkMaxChars) :
    Filled [para] para.length := by
  refine ⟨by simp, fun _ => ?_, fun _ => ?_⟩ <;> rw [join_singleton]
  · exact h
  · omega

theorem Filled.append {buffer : List Text} {bufferLen : ℕ} (h : Filled buffer bufferLen)
    {para : Text} (hPara : para.length ≤ chunkMaxChars)
    (hFits : ¬(chunkTargetChars < bufferLen + para.length ∧ buffer ≠ [])) :
    Filled (buffer ++ [para]) (bufferLen + (para.length + 2)) := by
  rw [chunkMaxChars] at hPara
  rcases eq_or_ne buffer [] with rfl | hNe
  · rw [h.empty rfl]
    refine ⟨by simp, fun _ => ?_, fun _ => ?_⟩ <;> rw [List.nil_append, join_singleton]
    · exact hPara
    · omega
  · have hCounted := h.counted hNe
    have hLen : bufferLen + para.length ≤ chunkTargetChars := by
      by_contra hFar
      exact hFits ⟨Nat.lt_of_not_le hFar, hNe⟩
    rw [chunkTargetChars] at hLen
    refine ⟨by simp, fun _ => ?_, fun _ => ?_⟩ <;> rw [join_concat_length hNe]
    · rw [chunkMaxChars]
      omega
    · omega

theorem Room.cut {l : ℕ} {para : Text} {cs : List Text} (hNe : para ≠ [])
    (hLen : l ≤ chunkTargetChars ∨ chunkTargetChars < para.length)
    (h : ∀ l', l' ≤ chunkMaxChars → Room l' cs) : Room l (Chunks.cut para ++ cs) := by
  induction hn : para.length using Nat.strong_induction_on generalizing para l with
  | _ n ih =>
    rcases Nat.lt_or_ge chunkTargetChars para.length with hLong | hShort
    · have hTake : (para.take chunkTargetChars).length = chunkTargetChars :=
        List.length_take_of_le hLong.le
      have hGrown : grown l (para.take chunkTargetChars) = chunkTargetChars := by
        rw [grown, hTake]
        rfl
      have hDrop : (para.drop chunkTargetChars).length = para.length - chunkTargetChars :=
        List.length_drop
      rw [cut_long hLong, List.cons_append, Room, hGrown]
      refine ⟨by decide, ih _ ?_ ?_ (.inl le_rfl) rfl⟩
      · rw [hDrop, chunkTargetChars] at *
        omega
      · apply List.ne_nil_of_length_pos
        omega
    · rw [cut_short hNe hShort, List.singleton_append, Room]
      have hGrown : grown l para ≤ chunkMaxChars := by
        unfold grown
        simp only [chunkTargetChars] at *
        split
        next hSmall =>
          simp only [chunkMinChars, chunkMaxChars] at *
          omega
        next =>
          rw [chunkMaxChars]
          omega
      exact ⟨hGrown.trans (by decide), h _ hGrown⟩

theorem Room.flush {l bufferLen : ℕ} {buffer cs : List Text} (hBuffer : Filled buffer bufferLen)
    (hRoom : l < chunkMaxChars + chunkMinChars + 2)
    (hLast : l ≤ chunkMaxChars ∨ buffer ≠ [] ∧ chunkMinChars ≤ (join buffer).length)
    (h : ∀ l', l' < chunkMaxChars + chunkMinChars + 2 →
      l' ≤ chunkMaxChars ∨ buffer ≠ [] ∧ (join buffer).length < chunkMinChars → Room l' cs) :
    Room l (Chunks.flush buffer ++ cs) := by
  rw [Chunks.flush]
  split
  next hNil =>
    apply h l hRoom
    obtain hLast | ⟨hNe, -⟩ := hLast
    · exact .inl hLast
    · exact absurd hNil hNe
  next hNe =>
    have hShort := hBuffer.short hNe
    rw [List.singleton_append, Room]
    rcases Nat.lt_or_ge (join buffer).length chunkMinChars with hSmall | hLarge
    · have hLe : l ≤ chunkMaxChars := by
        obtain hLast | ⟨-, hLast⟩ := hLast
        · exact hLast
        · omega
      have hGrown : grown l (join buffer) < chunkMaxChars + chunkMinChars + 2 := by
        rw [grown, if_pos hSmall]
        omega
      exact ⟨hGrown.le, h _ hGrown (.inr ⟨hNe, hSmall⟩)⟩
    · have hGrown : grown l (join buffer) = (join buffer).length := if_neg (by omega)
      rw [hGrown]
      exact ⟨hShort.trans (by decide), h _ (hShort.trans_lt (by decide)) (.inl hShort)⟩

/-- By induction on the paragraphs. After a small chunk from the buffer comes a paragraph
that is too long for the rest of the target. -/
theorem chunksFrom_room {l bufferLen : ℕ} {buffer : List Text} (ps : List Text)
    (hBuffer : Filled buffer bufferLen) (hRoom : l < chunkMaxChars + chunkMinChars + 2)
    (hLast : l ≤ chunkMaxChars ∨ buffer ≠ [] ∧ chunkMinChars ≤ (join buffer).length) :
    Room l (chunksFrom buffer bufferLen ps) := by
  induction ps generalizing l buffer bufferLen with
  | nil =>
    have hNone : ∀ l', Room l' [] := fun _ => trivial
    have hEnd := Room.flush hBuffer hRoom hLast fun l' _ _ => hNone l'
    rwa [List.append_nil] at hEnd
  | cons para ps ih =>
    rw [chunksFrom]
    split
    next hLong =>
      have hEmpty : (if buffer = [] then bufferLen else 0) = 0 := by
        split
        next hNil => exact hBuffer.empty hNil
        next => rfl
      rw [hEmpty, List.append_assoc]
      refine Room.flush hBuffer hRoom hLast fun l' _ _ => Room.cut ?_ ?_ ?_
      · exact List.ne_nil_of_length_pos (by omega)
      · rw [chunkMaxChars, chunkTargetChars] at *
        omega
      · intro l'' hl''
        refine ih ⟨fun _ => rfl, fun hNe => absurd rfl hNe, fun hNe => absurd rfl hNe⟩ ?_ (.inl hl'')
        omega
    next hPara =>
      split
      next hFull =>
        refine Room.flush hBuffer hRoom hLast fun l' hl' hSmall => ?_
        refine ih (.single (by omega)) hl' ?_
        obtain hSmall | ⟨hNe, hSmall⟩ := hSmall
        · exact .inl hSmall
        · refine .inr ⟨List.cons_ne_nil _ _, ?_⟩
          have hCounted := (hBuffer.counted hNe).2
          rw [join_singleton]
          simp only [chunkMinChars, chunkTargetChars] at *
          omega
      next hFits =>
        refine ih (hBuffer.append (by omega) hFits) hRoom ?_
        obtain hLast | ⟨hNe, hLast⟩ := hLast
        · exact .inl hLast
        · refine .inr ⟨List.append_ne_nil_of_left_ne_nil hNe _, ?_⟩
          rw [join_concat_length hNe]
          omega

structure Bounded (chunks : List Text) : Prop where
  floor : ∀ c ∈ chunks.tail, chunkMinChars ≤ c.length
  ceiling : ∀ c ∈ chunks, c.length ≤ ceiling

theorem merge_bounded {front cs : List Text} {last : Text} (h : Bounded (front ++ [last]))
    (hRoom : Room last.length cs) : Bounded (cs.foldl mergeStep (front ++ [last])) := by
  induction cs generalizing front last with
  | nil => exact h
  | cons c cs ih =>
    obtain ⟨hGrown, hRest⟩ := hRoom
    obtain ⟨hFrontCeiling, hLastCeiling⟩ := List.forall_mem_append.mp h.ceiling
    rw [List.foldl_cons, mergeStep, List.getLast?_concat]
    dsimp only
    split
    next hSmall =>
      have hLen : (last ++ ['\n', '\n'] ++ c).length = grown last.length c := by
        rw [grown, if_pos hSmall, List.length_append, List.length_append]
        simp only [List.length_cons, List.length_nil]
        omega
      rw [List.dropLast_concat]
      refine ih ⟨?_, List.forall_mem_append.mpr ⟨hFrontCeiling, ?_⟩⟩ (hLen ▸ hRest)
      · cases front with
        | nil => exact List.forall_mem_nil _
        | cons first front =>
          obtain ⟨hFloor, hLast⟩ := List.forall_mem_append.mp h.floor
          refine List.forall_mem_append.mpr ⟨hFloor, List.forall_mem_singleton.mpr ?_⟩
          have hLastFloor := List.forall_mem_singleton.mp hLast
          rw [List.length_append, List.length_append]
          omega
      · exact List.forall_mem_singleton.mpr (hLen ▸ hGrown)
    next hLarge =>
      have hLen : grown last.length c = c.length := if_neg hLarge
      refine ih ⟨?_, List.forall_mem_append.mpr ⟨h.ceiling, ?_⟩⟩ (hLen ▸ hRest)
      · rw [List.tail_append_of_ne_nil (List.append_ne_nil_of_right_ne_nil _ (List.cons_ne_nil _ _))]
        refine List.forall_mem_append.mpr ⟨h.floor, List.forall_mem_singleton.mpr ?_⟩
        omega
      · exact List.forall_mem_singleton.mpr (hLen ▸ hGrown)

theorem split_bounded (text : Text) : Bounded (splitIntoChunks text) := by
  rw [splitIntoChunks]
  split
  · exact ⟨List.forall_mem_nil _, List.forall_mem_nil _⟩
  · have hRoom : Room 0 (chunksFrom [] 0 (paragraphs text)) :=
      chunksFrom_room _ ⟨fun _ => rfl, fun hNe => absurd rfl hNe, fun hNe => absurd rfl hNe⟩
        (by decide) (.inl (Nat.zero_le _))
    cases hChunks : chunksFrom [] 0 (paragraphs text) with
    | nil => exact ⟨List.forall_mem_nil _, List.forall_mem_nil _⟩
    | cons c cs =>
      rw [hChunks] at hRoom
      have hLe : c.length ≤ grown 0 c := by
        unfold grown
        split <;> omega
      have hFirst : Bounded ([] ++ [c]) :=
        ⟨List.forall_mem_nil _, List.forall_mem_singleton.mpr (hLe.trans hRoom.1)⟩
      exact merge_bounded hFirst (hRoom.2.mono hLe)

/-! ## Cover -/

theorem paragraphs_blank {text : Text} (h : strip text = []) : paragraphs text = [] := by
  have hLines : ∀ line ∈ lines text, strip line = [] := by
    intro line hLine
    have hInfix := GitHub.infix_unlines hLine
    rw [GitHub.unlines_lines] at hInfix
    exact (Python.strip_eq_nil_iff line).mpr fun c hc =>
      (Python.strip_eq_nil_iff text).mp h c (hInfix.subset hc)
  rw [paragraphs]
  generalize lines text = ls at hLines
  induction ls with
  | nil => rfl
  | cons line ls ih =>
    obtain ⟨hLine, hRest⟩ := List.forall_mem_cons.mp hLines
    rw [paragraphsFrom, if_pos hLine, if_pos rfl, List.nil_append, ih hRest]

theorem split_parted (text : Text) :
    ∃ parts, Parted (splitIntoChunks text) parts ∧ Divides 0 (paragraphs text) parts.flatten := by
  rw [splitIntoChunks]
  split
  next hBlank =>
    rw [paragraphs_blank hBlank]
    exact ⟨[], .nil, .done⟩
  next =>
    obtain ⟨parts, hParts, hDivides⟩ := chunksFrom_parted 0 [] 0 (paragraphs text)
    obtain ⟨merged, hMerged, hFlat⟩ := merge_parted .nil hParts
    rw [List.flatten_nil, List.nil_append] at hFlat
    exact ⟨merged, hMerged, hFlat ▸ hDivides⟩

theorem Parted.solid {chunks : List Text} {parts : List (List Part)} (h : Parted chunks parts) :
    solid chunks.flatten = solid (Part.texts parts.flatten).flatten := by
  obtain ⟨hNe, rfl⟩ := h
  rw [solid_flatten, solid_flatten]
  induction parts with
  | nil => rfl
  | cons ps parts ih =>
    have hRest := ih fun qs hqs => hNe qs (List.mem_cons_of_mem _ hqs)
    rw [List.map_cons, List.map_cons, List.flatten_cons, hRest, List.flatten_cons,
      Part.texts_append, List.map_append, List.flatten_append, join, solid_intercalate _ rfl]

structure Covers (text : Text) (chunks : List Text) : Prop where
  solid : solid chunks.flatten = solid text
  pieces : ∃ groups parts, Grouped (lines text) groups ∧ Parted chunks parts ∧
    (parts.flatten.Pairwise fun a b => a.paragraph ≤ b.paragraph) ∧
    ∀ j, Part.of j parts.flatten = (groups.map unlines).getD j [] ∧
      ∀ ps ∈ parts, Part.of j ps <:+: (groups.map unlines).getD j []
  bounded : Bounded chunks

theorem split_covers (text : Text) : Covers text (splitIntoChunks text) := by
  obtain ⟨groups, hGroups, hParagraphs⟩ := paragraphs_grouped text
  obtain ⟨parts, hParted, hDivides⟩ := split_parted text
  have hOf : ∀ j, Part.of j parts.flatten = (groups.map unlines).getD j [] := by
    intro j
    rw [hDivides.of_eq j, if_pos (Nat.zero_le j), hParagraphs]
    rfl
  refine ⟨?_, ⟨groups, parts, hGroups, hParted, hDivides.ordered.2, fun j => ⟨hOf j, ?_⟩⟩,
    split_bounded text⟩
  · rw [hParted.solid, hDivides.flatten, solid_flatten, solid_paragraphs]
  · intro ps hps
    obtain ⟨front, back, rfl⟩ := List.append_of_mem hps
    rw [← hOf j, List.flatten_append, List.flatten_cons, Part.of_append, Part.of_append,
      ← List.append_assoc]
    exact List.infix_append _ _ _

theorem Topic.prefixed_length_le (t : Topic) :
    t.prefixed.length ≤ t.title.length + t.summary.length + 5 := by
  rw [prefixed]
  by_cases hTitle : t.title = []
  · by_cases hSummary : t.summary = [] <;> simp [hTitle, hSummary, List.intercalate_singleton]
  · by_cases hSummary : t.summary = []
    · simp [hTitle, hSummary, List.intercalate_singleton]
    · simp [hTitle, hSummary, List.intercalate_cons_cons, List.intercalate_singleton]
      omega

theorem Topic.chunkTexts_cons {t : Topic} {c : Text} {cs : List Text}
    (h : splitIntoChunks t.content = c :: cs) : t.chunkTexts = (t.prefixed ++ c) :: cs := by
  simp only [chunkTexts, h, if_neg (List.cons_ne_nil c cs), List.modifyHead_cons]

theorem topic_chunks (t : Topic) :
    Covers t.content (splitIntoChunks t.content) ∧
      t.prefixed.length ≤ t.title.length + t.summary.length + 5 ∧
      ∀ c cs, splitIntoChunks t.content = c :: cs →
        t.prefixed.length + c.length ≤ embedContentCharLimit →
          t.embedded = (t.prefixed ++ c) :: cs := by
  refine ⟨split_covers t.content, t.prefixed_length_le, fun c cs hChunks hLen => ?_⟩
  have hBounded := (split_bounded t.content).ceiling
  rw [hChunks] at hBounded
  have hLimit : ceiling ≤ embedContentCharLimit := by decide
  rw [Topic.embedded, Topic.chunkTexts_cons hChunks, List.map_cons]
  congr 1
  · exact List.take_of_length_le (by rwa [List.length_append])
  · calc
      cs.map (·.take embedContentCharLimit) = cs.map id := by
        apply List.map_congr_left
        intro d hd
        exact List.take_of_length_le ((hBounded d (List.mem_cons_of_mem c hd)).trans hLimit)
      _ = cs := List.map_id cs

/-- Two paragraphs that do not go into one chunk. -/
def twoParagraphs : Text := List.replicate 400 'a' ++ ['\n', '\n'] ++ List.replicate 200 'b'

set_option maxRecDepth 20000 in
theorem topic_chunks_two : (Topic.mk ['t'] ['s'] twoParagraphs).embedded =
    [['[', 't', ']', ' ', 's', '\n', '\n'] ++ List.replicate 400 'a', List.replicate 200 'b'] :=
  (topic_chunks ⟨['t'], ['s'], twoParagraphs⟩).2.2 (List.replicate 400 'a') [List.replicate 200 'b']
    (by decide) (by decide)

end OpenSpoke.Chat.Chunks
