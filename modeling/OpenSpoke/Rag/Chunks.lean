import OpenSpoke.Python.Text

/-!
# Chunks of a text

A window goes over the text. It is cut short at a sentence break in its second half,
and the next one begins an overlap before its end. Each chunk is a window without the
blanks around it, so two windows that differ by blanks only begin their chunks at one
place.
-/

namespace OpenSpoke.Rag.Chunks

open Python (Text isSpace)

/-- `str.rfind` of one character. -/
def rfind (t : Text) (c : Char) : Int :=
  match t.reverse.findIdx? (· = c) with
  | some i => t.length - 1 - i
  | none => -1

/-- The window at a place, with its end. -/
def window (text : Text) (chunkSize start : ℕ) : Text × ℕ :=
  let fin := start + chunkSize
  let chunk := (text.drop start).take chunkSize
  if fin < text.length ∧ (text[fin]?).any (!isSpace ·) then
    let lastBreak := max (rfind chunk '。') (rfind chunk '\n')
    if (chunkSize / 2 : ℕ) < lastBreak then
      (chunk.take (lastBreak + 1).toNat, start + (lastBreak + 1).toNat)
    else (chunk, fin)
  else (chunk, fin)

/-- None if the rounds do not suffice. -/
def loop (text : Text) (chunkSize overlap : ℕ) : ℕ → ℕ → List Text → Option (List Text)
  | 0, start, chunks => if start < text.length then none else some chunks
  | rounds + 1, start, chunks =>
    if start < text.length then
      let (chunk, fin) := window text chunkSize start
      loop text chunkSize overlap rounds (fin - overlap) (chunks ++ [Python.strip chunk])
    else some chunks

def chunkText (rounds : ℕ) (text : Text) (chunkSize overlap : ℕ) : Option (List Text) :=
  (loop text chunkSize overlap rounds 0 []).map fun chunks => chunks.filter (· ≠ [])

/-! ## Windows -/

theorem rfind_lt (t : Text) (c : Char) : rfind t c < t.length := by
  unfold rfind
  split <;> omega

theorem window_spec (text : Text) {chunkSize : ℕ} (start : ℕ) (hSize : 1 ≤ chunkSize) :
    (window text chunkSize start).1 =
        (text.drop start).take ((window text chunkSize start).2 - start) ∧
      start + chunkSize / 2 < (window text chunkSize start).2 ∧
      (window text chunkSize start).2 ≤ start + chunkSize := by
  have hWhole : (text.drop start).take chunkSize =
      (text.drop start).take (start + chunkSize - start) := by
    rw [Nat.add_sub_cancel_left]
  rw [window]
  split
  · generalize hBreak : max (rfind ((text.drop start).take chunkSize) '。')
      (rfind ((text.drop start).take chunkSize) '\n') = lastBreak
    dsimp only
    split
    next hLate =>
      have hLen : ((text.drop start).take chunkSize).length ≤ chunkSize :=
        List.length_take_le _ _
      have hLt : lastBreak < chunkSize := by
        have hPeriod := rfind_lt ((text.drop start).take chunkSize) '。'
        have hNewline := rfind_lt ((text.drop start).take chunkSize) '\n'
        omega
      refine ⟨?_, by omega, by omega⟩
      have hCut : min (lastBreak + 1).toNat chunkSize = start + (lastBreak + 1).toNat - start := by
        omega
      rw [List.take_take, hCut]
    next => exact ⟨hWhole, by omega, le_rfl⟩
  · exact ⟨hWhole, by dsimp only; omega, le_rfl⟩

/-- The windows from a place on, each by its begin and its end. -/
inductive Windows (text : Text) (chunkSize : ℕ) : ℕ → List (ℕ × ℕ) → Prop
  | done {start : ℕ} (hEnd : text.length ≤ start) : Windows text chunkSize start []
  | next {start fin later : ℕ} {ws : List (ℕ × ℕ)} (hStart : start < text.length)
      (hFin : start < fin) (hSize : fin ≤ start + chunkSize) (hLater : start < later)
      (hMeets : later ≤ fin) (hRest : Windows text chunkSize later ws) :
      Windows text chunkSize start ((start, fin) :: ws)

def slice (text : Text) (w : ℕ × ℕ) : Text := (text.drop w.1).take (w.2 - w.1)

/-- Every round begins after the last one, so there are as many as characters at most. -/
theorem loop_windows (text : Text) {chunkSize overlap : ℕ} (hSize : 1 ≤ chunkSize)
    (hOverlap : overlap ≤ chunkSize / 2) (start : ℕ) :
    ∃ ws, Windows text chunkSize start ws ∧ ∀ rounds chunks, text.length - start ≤ rounds →
      loop text chunkSize overlap rounds start chunks =
        some (chunks ++ ws.map fun w => Python.strip (slice text w)) := by
  induction hLeft : text.length - start using Nat.strong_induction_on generalizing start with
  | _ left ih =>
    by_cases hStart : start < text.length
    · obtain ⟨hChunk, hFar, hNear⟩ := window_spec text start hSize
      generalize hFin : (window text chunkSize start).2 = fin at hChunk hFar hNear
      obtain ⟨ws, hWs, hLoop⟩ := ih (text.length - (fin - overlap)) (by omega) (fin - overlap) rfl
      refine ⟨(start, fin) :: ws, .next hStart (by omega) hNear (by omega) (by omega) hWs, ?_⟩
      intro rounds chunks hRounds
      cases rounds with
      | zero => omega
      | succ rounds =>
        rw [loop, if_pos hStart]
        dsimp only
        rw [hFin, hChunk, hLoop rounds _ (by omega)]
        simp [slice]
    · refine ⟨[], .done (by omega), ?_⟩
      intro rounds chunks _
      cases rounds <;> simp [loop, hStart]

theorem Windows.begin_le {text : Text} {chunkSize start : ℕ} {ws : List (ℕ × ℕ)}
    (h : Windows text chunkSize start ws) : ∀ w ∈ ws, start ≤ w.1 ∧ w.2 ≤ w.1 + chunkSize := by
  induction h with
  | done => exact fun w hw => nomatch hw
  | next hStart hFin hSize hLater hMeets hRest ih =>
    intro w hw
    obtain rfl | hw := List.mem_cons.mp hw
    · exact ⟨le_rfl, hSize⟩
    · have hRestW := ih w hw
      omega

theorem Windows.increasing {text : Text} {chunkSize start : ℕ} {ws : List (ℕ × ℕ)}
    (h : Windows text chunkSize start ws) : ws.Pairwise fun v w => v.1 < w.1 := by
  induction h with
  | done => exact .nil
  | next hStart hFin hSize hLater hMeets hRest ih =>
    refine List.pairwise_cons.mpr ⟨fun w hw => ?_, ih⟩
    have hBegin := (hRest.begin_le w hw).1
    dsimp only
    omega

theorem Windows.cover {text : Text} {chunkSize start : ℕ} {ws : List (ℕ × ℕ)}
    (h : Windows text chunkSize start ws) {i : ℕ} (hFrom : start ≤ i) (hTo : i < text.length) :
    ∃ w ∈ ws, w.1 ≤ i ∧ i < w.2 := by
  induction h with
  | done hEnd => omega
  | @next start fin later ws hStart hFin hSize hLater hMeets hRest ih =>
    by_cases hHere : i < fin
    · exact ⟨(start, fin), List.mem_cons_self, hFrom, hHere⟩
    · obtain ⟨w, hw, hIn⟩ := ih (by omega)
      exact ⟨w, List.mem_cons_of_mem _ hw, hIn⟩

/-! ## Chunks -/

/-- A chunk, the place where it begins and the place where its window does. -/
structure Piece where
  window : ℕ
  place : ℕ
  chunk : Text

def Blank (text : Text) (first last : ℕ) : Prop :=
  ∀ i c, first ≤ i → i < last → text[i]? = some c → isSpace c = true

structure Piece.Of (text : Text) (chunkSize : ℕ) (p : Piece) : Prop where
  nonempty : p.chunk ≠ []
  short : p.chunk.length ≤ chunkSize
  part : (text.drop p.place).take p.chunk.length = p.chunk
  within : p.window ≤ p.place
  front : Blank text p.window p.place
  head : ∀ c ∈ text[p.place]?, isSpace c = false

structure Chunked (text : Text) (chunkSize : ℕ) (pieces : List Piece) : Prop where
  parts : ∀ p ∈ pieces, p.Of text chunkSize
  ordered : pieces.Pairwise fun p q => p.window < q.window ∧ p.place ≤ q.place ∧
    (p.place = q.place ↔ Blank text p.window q.window)
  covered : ∀ i c, text[i]? = some c → isSpace c = false →
    ∃ p ∈ pieces, p.place ≤ i ∧ i < p.place + p.chunk.length

def pieceOf (text : Text) (w : ℕ × ℕ) : Piece where
  window := w.1
  place := w.1 + ((slice text w).takeWhile isSpace).length
  chunk := Python.strip (slice text w)

/-- What stands in the text from a window on: blanks, the chunk, blanks and the rest. -/
theorem drop_window (text : Text) (w : ℕ × ℕ) :
    ∃ back rest, text.drop w.1 =
        (slice text w).takeWhile isSpace ++ (Python.strip (slice text w) ++ (back ++ rest)) ∧
      slice text w =
        (slice text w).takeWhile isSpace ++ (Python.strip (slice text w) ++ back) ∧
      (∀ c ∈ back, isSpace c = true) ∧
      ∀ c ∈ (Python.strip (slice text w)).head?, isSpace c = false := by
  obtain ⟨back, hSplit, hBack, hHead⟩ := Python.stripIf_split isSpace (slice text w)
  refine ⟨back, (text.drop w.1).drop (w.2 - w.1), ?_, hSplit, hBack, hHead⟩
  calc
    text.drop w.1 = slice text w ++ (text.drop w.1).drop (w.2 - w.1) :=
      (List.take_append_drop _ _).symm
    _ = (slice text w).takeWhile isSpace ++ (Python.strip (slice text w) ++
          (back ++ (text.drop w.1).drop (w.2 - w.1))) := by
      rw [congrArg (· ++ (text.drop w.1).drop (w.2 - w.1)) hSplit, List.append_assoc,
        List.append_assoc]
      rfl

theorem drop_place (text : Text) (w : ℕ × ℕ) :
    ∃ rest, text.drop (pieceOf text w).place = (pieceOf text w).chunk ++ rest := by
  obtain ⟨back, rest, hDrop, -⟩ := drop_window text w
  refine ⟨back ++ rest, ?_⟩
  rw [pieceOf, ← List.drop_drop, hDrop, List.drop_left]

theorem pieceOf_of {text : Text} {chunkSize : ℕ} {w : ℕ × ℕ} (hSize : w.2 ≤ w.1 + chunkSize)
    (hChunk : Python.strip (slice text w) ≠ []) : (pieceOf text w).Of text chunkSize := by
  obtain ⟨back, rest, hDrop, hSlice, hBack, hHead⟩ := drop_window text w
  obtain ⟨rest', hPlace⟩ := drop_place text w
  refine ⟨hChunk, ?_, ?_, ?_, ?_, ?_⟩
  · have hLe : (slice text w).length ≤ w.2 - w.1 := List.length_take_le _ _
    have hLen := congrArg List.length hSlice
    rw [List.length_append, List.length_append] at hLen
    change (Python.strip (slice text w)).length ≤ chunkSize
    omega
  · rw [hPlace, List.take_left]
  · exact Nat.le_add_right _ _
  · intro i c hFirst hLast hc
    change w.1 ≤ i at hFirst
    change i < w.1 + _ at hLast
    have hIn : i - w.1 < ((slice text w).takeWhile isSpace).length := by omega
    have hAt : (text.drop w.1)[i - w.1]? = some c := by
      rw [List.getElem?_drop, Nat.add_sub_cancel' hFirst, hc]
    rw [hDrop, List.getElem?_append_left hIn] at hAt
    exact List.mem_takeWhile_imp (List.mem_of_getElem? hAt)
  · intro c hc
    apply hHead c
    have hFirst : (text.drop (pieceOf text w).place).head? = some c := by
      rw [List.head?_drop]
      exact hc
    have hNonempty : (pieceOf text w).chunk ≠ [] := hChunk
    rw [hPlace, List.head?_append_of_ne_nil _ hNonempty] at hFirst
    exact hFirst

theorem mem_pieceOf {text : Text} {w : ℕ × ℕ} {i : ℕ} {c : Char} (hc : text[i]? = some c)
    (hFirst : w.1 ≤ i) (hLast : i < w.2) (hNot : isSpace c = false) :
    (pieceOf text w).place ≤ i ∧ i < (pieceOf text w).place + (pieceOf text w).chunk.length := by
  obtain ⟨back, rest, -, hSlice, hBack, -⟩ := drop_window text w
  have hAt : (slice text w)[i - w.1]? = some c := by
    rw [slice, List.getElem?_take_of_lt (by omega), List.getElem?_drop, Nat.add_sub_cancel' hFirst, hc]
  rw [hSlice] at hAt
  change w.1 + _ ≤ i ∧ i < w.1 + _ + (Python.strip (slice text w)).length
  rcases Nat.lt_or_ge (i - w.1) ((slice text w).takeWhile isSpace).length with hIn | hPast
  · rw [List.getElem?_append_left hIn] at hAt
    have hBlank := List.mem_takeWhile_imp (List.mem_of_getElem? hAt)
    rw [hNot] at hBlank
    cases hBlank
  · rw [List.getElem?_append_right hPast] at hAt
    rcases Nat.lt_or_ge (i - w.1 - ((slice text w).takeWhile isSpace).length)
      (Python.strip (slice text w)).length with hIn | hPast'
    · omega
    · rw [List.getElem?_append_right hPast'] at hAt
      rw [hBack c (List.mem_of_getElem? hAt)] at hNot
      cases hNot

/-- Two chunks begin at one place if there are only blanks between their windows. -/
theorem Piece.Of.place_le {text : Text} {chunkSize : ℕ} {p q : Piece} (hp : p.Of text chunkSize)
    (hq : q.Of text chunkSize) (hWindow : p.window < q.window) :
    p.place ≤ q.place ∧ (p.place = q.place ↔ Blank text p.window q.window) := by
  have hFirst : ∀ r : Piece, r.Of text chunkSize → ∃ c, text[r.place]? = some c := by
    intro r hr
    rw [← Option.isSome_iff_exists, ← List.head?_drop]
    cases hDrop : text.drop r.place with
    | nil =>
      have hPart := hr.part
      rw [hDrop, List.take_nil] at hPart
      exact absurd hPart.symm hr.nonempty
    | cons => rfl
  obtain ⟨c, hc⟩ := hFirst p hp
  obtain ⟨d, hd⟩ := hFirst q hq
  have hcNot := hp.head c hc
  have hdNot := hq.head d hd
  have hpWithin := hp.within
  have hqWithin := hq.within
  have hLe : p.place ≤ q.place := by
    by_contra hLt
    have hBlank := hp.front q.place d (by omega) (by omega) hd
    rw [hdNot] at hBlank
    cases hBlank
  refine ⟨hLe, fun hEq i e hFrom hTo he => ?_, fun hBetween => ?_⟩
  · exact hp.front i e hFrom (by omega) he
  · by_contra hNe
    have hBlank : isSpace c = true := by
      rcases Nat.lt_or_ge p.place q.window with hBefore | hAfter
      · exact hBetween p.place c hpWithin hBefore hc
      · exact hq.front p.place c hAfter (by omega) hc
    rw [hcNot] at hBlank
    cases hBlank

theorem chunks_cover (text : Text) (chunkSize overlap : ℕ) (hSize : 1 ≤ chunkSize)
    (hOverlap : overlap ≤ chunkSize / 2) :
    ∃ pieces, (∀ rounds, text.length ≤ rounds →
        chunkText rounds text chunkSize overlap = some (pieces.map Piece.chunk)) ∧
      Chunked text chunkSize pieces := by
  obtain ⟨ws, hWs, hLoop⟩ := loop_windows text hSize hOverlap 0
  have hParts : ∀ w ∈ ws.filter (fun w => Python.strip (slice text w) ≠ []),
      (pieceOf text w).Of text chunkSize := by
    intro w hw
    obtain ⟨hMem, hChunk⟩ := List.mem_filter.mp hw
    exact pieceOf_of (hWs.begin_le w hMem).2 (of_decide_eq_true hChunk)
  refine ⟨(ws.filter fun w => Python.strip (slice text w) ≠ []).map (pieceOf text), ?_, ?_, ?_, ?_⟩
  · intro rounds hRounds
    rw [chunkText, hLoop rounds [] (by omega), Option.map_some, List.nil_append, List.filter_map,
      List.map_map]
    rfl
  · intro p hp
    obtain ⟨w, hw, rfl⟩ := List.mem_map.mp hp
    exact hParts w hw
  · rw [List.pairwise_map]
    refine (hWs.increasing.filter _).imp_of_mem fun {v w} hv hw hLt => ?_
    exact ⟨hLt, (hParts v hv).place_le (hParts w hw) hLt⟩
  · intro i c hc hNot
    obtain ⟨hTo, -⟩ := List.getElem?_eq_some_iff.mp hc
    obtain ⟨w, hw, hFirst, hLast⟩ := hWs.cover (Nat.zero_le i) hTo
    have hIn := mem_pieceOf hc hFirst hLast hNot
    refine ⟨pieceOf text w, List.mem_map_of_mem (List.mem_filter.mpr ⟨hw, ?_⟩), hIn⟩
    apply decide_eq_true
    intro hNil
    change Python.strip (slice text w) = [] at hNil
    have hLen : (pieceOf text w).chunk.length = 0 := congrArg List.length hNil
    omega

theorem words_cover : ∃ pieces, (∀ rounds, 5 ≤ rounds →
      chunkText rounds ['a', 'b', ' ', 'c', 'd'] 2 1 = some (pieces.map Piece.chunk)) ∧
    Chunked ['a', 'b', ' ', 'c', 'd'] 2 pieces :=
  chunks_cover ['a', 'b', ' ', 'c', 'd'] 2 1 (by decide) (by decide)

/-- A blank and a letter: both windows give the letter. -/
theorem letter_twice :
    chunkText 2 [' ', 'a'] 2 1 = some [['a'], ['a']] ∧
      ∀ p q : ℕ, ([' ', 'a'].drop p).take 1 = ['a'] → ([' ', 'a'].drop q).take 1 = ['a'] →
        ¬p < q := by
  refine ⟨by decide, fun p q hp hq hLt => ?_⟩
  have hQ : q ≤ 1 := by
    by_contra hFar
    rw [List.drop_eq_nil_of_le (by simp; omega)] at hq
    cases hq
  have hP : p = 0 := by omega
  subst hP
  cases hp

end OpenSpoke.Rag.Chunks
