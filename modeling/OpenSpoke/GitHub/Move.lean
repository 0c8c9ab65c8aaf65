import Mathlib.Logic.Function.Basic
import OpenSpoke.GitHub.Edits

/-!
# Moving a block

`github_move_block` puts a block of lines into one file and then takes it out of another,
with a commit each. It compares the two files by what the caller writes; the kernel strips
that, and GitHub finds the files.
-/

namespace OpenSpoke.GitHub

open Python (Text)

structure Place where
  owner : Text
  repo : Text
  path : Text
  deriving DecidableEq

namespace Place

def strip (p : Place) : Place := ⟨Python.strip p.owner, Python.strip p.repo, Python.strip p.path⟩

def complete (p : Place) : Prop := p.owner ≠ [] ∧ p.repo ≠ [] ∧ p.path ≠ []

instance (p : Place) : Decidable p.complete := inferInstanceAs (Decidable (_ ∧ _))

end Place

structure MoveRequest where
  src : Place
  dst : Place
  message : Text
  range : BlockRange
  anchor : Option (Text → Bool)
  atStart : Bool

def MoveRequest.moveBlock (m : MoveRequest) : MoveBlock :=
  ⟨m.src.path, m.dst.path, m.range, m.anchor, m.atStart⟩

structure Service (κ : Type*) where
  -- the file that a place is of
  file : Place → κ
  -- whether the contents API leaves the text out
  large : Text → Bool

/-- What a request comes to that is sent. -/
inductive Sent
  | done
  | failed (applied : Bool)

structure Outcomes where
  getSrc : Bool
  getDst : Bool
  putDst : Sent
  putSrc : Sent

inductive Got
  | failed
  | missing
  | content (text : Text)

inductive MoveReport
  | failed
  | completed
  deriving DecidableEq

section

variable {κ : Type*} [DecidableEq κ] (s : Service κ)

abbrev Store (κ : Type*) := κ → Option Text

def Service.fileOf (p : Place) : κ := s.file p.strip

def Service.shown (text : Text) : Text := if s.large text then [] else text

/-- `_gh_get_file`. -/
def Service.getFile (files : Store κ) (p : Place) (ok : Bool) : Got :=
  if ok = true ∧ p.strip.complete then
    match files (s.fileOf p) with
    | none => .missing
    | some text => .content (s.shown text)
  else .failed

/-- `_gh_put_file`. -/
def Service.putFile (files : Store κ) (p : Place) (content : Text) (sent : Sent) :
    Store κ × Bool :=
  if p.strip.complete then
    match sent with
    | .done => (Function.update files (s.fileOf p) (some content), true)
    | .failed applied =>
      (if applied then Function.update files (s.fileOf p) (some content) else files, false)
  else (files, false)

/-- The new texts of the source and of the destination. -/
def MoveRequest.plan (m : MoveRequest) (src : Text) (dst : Option Text) : Option (Text × Text) := do
  let block ← m.moveBlock.block src
  let newSrc ← m.moveBlock.edit src
  let newDst ← m.moveBlock.insert block dst
  some (newSrc, newDst)

def MoveRequest.valid (m : MoveRequest) : Prop :=
  m.src.complete ∧ m.dst.complete ∧ m.message ≠ [] ∧ m.src ≠ m.dst

instance (m : MoveRequest) : Decidable m.valid := inferInstanceAs (Decidable (_ ∧ _))

/-- The puts, the destination first. -/
def Service.putBoth (files : Store κ) (m : MoveRequest) (o : Outcomes) (newSrc newDst : Text) :
    Store κ × MoveReport :=
  let added := s.putFile files m.dst newDst o.putDst
  if added.2 then
    let removed := s.putFile added.1 m.src newSrc o.putSrc
    (removed.1, if removed.2 then .completed else .failed)
  else (added.1, .failed)

/-- `github_move_block`. -/
def Service.moveBlock (files : Store κ) (m : MoveRequest) (o : Outcomes) : Store κ × MoveReport :=
  if m.valid then
    match s.getFile files m.src o.getSrc with
    | .content src =>
      if (m.moveBlock.block src).isSome then
        let go (dst : Option Text) :=
          match m.plan src dst with
          | some (newSrc, newDst) => s.putBoth files m o newSrc newDst
          | none => (files, .failed)
        match s.getFile files m.dst o.getDst with
        | .failed => (files, .failed)
        | .missing => go none
        | .content dst => go (some dst)
      else (files, .failed)
    | _ => (files, .failed)
  else (files, .failed)

/-! ## What a move should do -/

def dstLines : Option Text → List Text
  | none => []
  | some text => lines text

/-- The lines without the empty ones at the end. -/
def kept (ls : List Text) : List Text := ls.rdropWhile fun l => l = []

/-- The lines of a destination that are to stay: all of them, but the empty ones at the end
when the block goes there. -/
def staying (anchor : Option (Text → Bool)) (atStart : Bool) (old : List Text) : List Text :=
  match anchor with
  | some _ => old
  | none => if atStart then old else kept old

/-- The lines of a destination with the block in the place that is asked for. -/
def Placed (anchor : Option (Text → Bool)) (atStart : Bool) (block old new : List Text) : Prop :=
  match anchor with
  | some rx => ∃ before line after, old = before ++ line :: after ∧ rx line = true ∧
      (∀ l ∈ before, rx l = false) ∧ new = before ++ line :: (block ++ after)
  | none =>
    if atStart then new = block ++ old
    else ∃ blanks : List Text, (∀ l ∈ blanks, l = []) ∧ new = kept old ++ (blanks ++ block)

/-- The block has come from the source to the destination. -/
def Moved (m : MoveRequest) (files files' : Store κ) : Prop :=
  ∃ src bi ei new, files (s.fileOf m.src) = some src ∧
    m.range.bounds (lines src) = some (bi, ei) ∧
    files' (s.fileOf m.src) = some (unlines ((lines src).take bi ++ (lines src).drop (ei + 1))) ∧
    Placed m.anchor m.atStart (((lines src).take (ei + 1)).drop bi)
      (dstLines (files (s.fileOf m.dst))) new ∧
    (files' (s.fileOf m.dst) = some (unlines new) ∨
      files' (s.fileOf m.dst) = some (unlines (new ++ [[]])))

/-- Nothing is lost when a move has failed. -/
structure Intact (m : MoveRequest) (files files' : Store κ) : Prop where
  block : ∀ src block, files (s.fileOf m.src) = some src → m.moveBlock.block src = some block →
    block <:+: dstLines (files' (s.fileOf m.src)) ∨ block <:+: dstLines (files' (s.fileOf m.dst))
  destination : (staying m.anchor m.atStart (dstLines (files (s.fileOf m.dst)))).Sublist
    (dstLines (files' (s.fileOf m.dst)))

structure Conserves (m : MoveRequest) (files : Store κ) (after : Store κ × MoveReport) : Prop where
  completed : after.2 = .completed → Moved s m files after.1 ∧ s.fileOf m.src ≠ s.fileOf m.dst
  failed : after.2 = .failed → Intact s m files after.1
  others : ∀ k, k ≠ s.fileOf m.src → k ≠ s.fileOf m.dst → after.1 k = files k

/-- The two files are not the same, and the destination is shown as it is, which is not empty
if a line of it is asked for. -/
structure Distinct (m : MoveRequest) (files : Store κ) : Prop where
  ne : s.fileOf m.src ≠ s.fileOf m.dst
  anchored : m.anchor.isSome = true → ((files (s.fileOf m.dst)).map s.shown).getD [] ≠ []
  started : m.anchor = none → m.atStart = true →
    (files (s.fileOf m.dst)).map s.shown = files (s.fileOf m.dst)
  ended : m.anchor = none → m.atStart = false →
    kept (dstLines ((files (s.fileOf m.dst)).map s.shown)) = kept (dstLines (files (s.fileOf m.dst)))

/-- Whether the request comes to the puts when GitHub answers. -/
def Reaches (m : MoveRequest) (files : Store κ) : Prop :=
  m.valid ∧ m.src.strip.complete ∧ m.dst.strip.complete ∧
    ∃ src, files (s.fileOf m.src) = some src ∧
      (m.plan (s.shown src) ((files (s.fileOf m.dst)).map s.shown)).isSome = true

end

/-! ## The new texts -/

theorem MoveBlock.block_eq_some {b : MoveBlock} {src : Text} {block : List Text}
    (h : b.block src = some block) :
    ∃ bi ei, b.range.bounds (lines src) = some (bi, ei) ∧
      block = ((lines src).take (ei + 1)).drop bi ∧ Python.strip (unlines block) ≠ [] := by
  simp only [MoveBlock.block, bind, Option.bind_eq_some_iff] at h
  obtain ⟨⟨bi, ei⟩, hBounds, h⟩ := h
  split at h
  · cases h
  · rename_i hBlank
    obtain rfl := Option.some.inj h
    exact ⟨bi, ei, hBounds, rfl, hBlank⟩

theorem MoveBlock.edit_eq_some {b : MoveBlock} {src newSrc : Text} {bi ei : Nat}
    (hBounds : b.range.bounds (lines src) = some (bi, ei)) (h : b.edit src = some newSrc) :
    newSrc = unlines ((lines src).take bi ++ (lines src).drop (ei + 1)) := by
  simp only [MoveBlock.edit, bind, Option.bind_eq_some_iff] at h
  obtain ⟨block, -, ⟨bi', ei'⟩, hBounds', h⟩ := h
  obtain ⟨rfl, rfl⟩ := Prod.mk.inj (Option.some.inj (hBounds.symm.trans hBounds'))
  exact (Option.some.inj h).symm

theorem MoveBlock.block_ne_nil {b : MoveBlock} {src : Text} {block : List Text}
    (h : b.block src = some block) : block ≠ [] := by
  rintro rfl
  obtain ⟨-, -, -, -, hBlank⟩ := MoveBlock.block_eq_some h
  exact hBlank rfl

theorem MoveBlock.block_nil (b : MoveBlock) : b.block [] = none := by
  rw [Option.eq_none_iff_forall_ne_some]
  intro block h
  obtain ⟨bi, ei, -, rfl, hBlank⟩ := MoveBlock.block_eq_some h
  have hOne : (lines []).take (ei + 1) = [[]] :=
    List.take_of_length_le (Nat.le_add_left 1 ei)
  rw [hOne] at hBlank
  cases bi with
  | zero => exact hBlank rfl
  | succ bi =>
    rw [List.drop_succ_cons, List.drop_nil] at hBlank
    exact hBlank rfl

theorem unlines_append {a b : List Text} (ha : a ≠ []) (hb : b ≠ []) :
    unlines (a ++ b) = unlines a ++ '\n' :: unlines b := by
  induction a with
  | nil => exact absurd rfl ha
  | cons l a ih =>
    cases a with
    | nil =>
      obtain ⟨l', b, rfl⟩ := List.exists_cons_of_ne_nil hb
      rw [List.singleton_append, unlines_cons_cons, unlines, unlines, List.intercalate_singleton]
    | cons l' a =>
      rw [List.cons_append, List.cons_append, unlines_cons_cons, unlines_cons_cons,
        ← List.cons_append, ih (List.cons_ne_nil _ _), List.append_assoc, List.cons_append]

theorem unlines_concat_nil {a : List Text} (ha : a ≠ []) : unlines (a ++ [[]]) = unlines a ++ ['\n'] := by
  rw [unlines_append ha (List.cons_ne_nil _ _)]
  rfl

theorem insertLines_ne_nil {b : MoveBlock} {block dst new : List Text} (hBlock : block ≠ [])
    (h : b.insertLines block dst = some new) : new ≠ [] := by
  rw [MoveBlock.insertLines] at h
  split at h
  · obtain ⟨ai, -, rfl⟩ := Option.map_eq_some_iff.mp h
    simp [hBlock]
  · split at h
    · obtain rfl := Option.some.inj h
      simp [hBlock]
    · obtain rfl := Option.some.inj h
      simp

theorem insertLines_placed {b : MoveBlock} {block dst new : List Text}
    (h : b.insertLines block dst = some new) : Placed b.anchor b.atStart block dst new := by
  rw [MoveBlock.insertLines] at h
  cases hAnchor : b.anchor with
  | some rx =>
    rw [hAnchor] at h
    obtain ⟨ai, hFind, rfl⟩ := Option.map_eq_some_iff.mp h
    obtain ⟨hLt, hHere, hBefore⟩ := List.findIdx?_eq_some_iff_getElem.mp hFind
    refine ⟨dst.take ai, dst[ai], dst.drop (ai + 1), ?_, hHere, ?_, ?_⟩
    · rw [← List.drop_eq_getElem_cons hLt, List.take_append_drop]
    · intro l hl
      obtain ⟨j, hj, rfl⟩ := List.getElem_of_mem hl
      rw [List.length_take] at hj
      rw [List.getElem_take]
      simpa using hBefore j (by omega)
    · rw [← List.take_concat_get' dst ai hLt, List.append_assoc, List.append_assoc]
      rfl
  | none =>
    simp only [hAnchor] at h
    rw [Placed]
    split at h
    · rename_i hStart
      rw [if_pos hStart]
      exact (Option.some.inj h).symm
    · rename_i hStart
      rw [if_neg hStart]
      refine ⟨[[]], by simp, ?_⟩
      rw [← List.append_assoc]
      exact (Option.some.inj h).symm

theorem kept_singleton_nil : kept [[]] = [] := rfl

theorem insert_of_empty {b : MoveBlock} {block : List Text} {dst : Option Text} {newDst : Text}
    (hDst : dst.getD [] = []) (h : b.insert block dst = some newDst) :
    newDst = unlines block ++ ['\n'] := by
  rw [MoveBlock.insert, if_pos hDst] at h
  exact (Option.some.inj h).symm

theorem insert_placed {b : MoveBlock} {block : List Text} {dst : Option Text} {newDst : Text}
    (hBlock : block ≠ []) (h : b.insert block dst = some newDst)
    (hAnchor : b.anchor.isSome = true → dst.getD [] ≠ []) :
    ∃ new, Placed b.anchor b.atStart block (dstLines dst) new ∧ new ≠ [] ∧
      (newDst = unlines new ∨ newDst = unlines (new ++ [[]])) := by
  by_cases hDst : dst.getD [] = []
  · have hNew := insert_of_empty hDst h
    rw [← unlines_concat_nil hBlock] at hNew
    have hNone : b.anchor = none := by
      rw [← Option.not_isSome_iff_eq_none]
      exact fun hSome => hAnchor hSome hDst
    rw [hNone]
    cases hStart : b.atStart with
    | true =>
      cases dst with
      | none =>
        refine ⟨block, ?_, hBlock, .inr hNew⟩
        exact (List.append_nil block).symm
      | some t =>
        obtain rfl : t = [] := hDst
        exact ⟨block ++ [[]], rfl, by simp, .inl hNew⟩
    | false =>
      have hKept : kept (dstLines dst) = [] := by
        cases dst with
        | none => rfl
        | some t =>
          obtain rfl : t = [] := hDst
          exact kept_singleton_nil
      exact ⟨block, ⟨[], by simp, by rw [hKept]; rfl⟩, hBlock, .inr hNew⟩
  · obtain ⟨t, rfl⟩ : ∃ t, dst = some t := by
      cases dst with
      | none => exact absurd rfl hDst
      | some t => exact ⟨t, rfl⟩
    rw [MoveBlock.insert, if_neg hDst, Option.map_eq_some_iff] at h
    obtain ⟨new, hLines, hEq⟩ := h
    have hNe := insertLines_ne_nil hBlock hLines
    refine ⟨new, insertLines_placed hLines, hNe, ?_⟩
    split at hEq
    · exact .inl hEq.symm
    · right
      rw [unlines_concat_nil hNe]
      exact hEq.symm

/-! ## A destination that is not shown -/

theorem length_unlines_right (a b : List Text) : (unlines b).length ≤ (unlines (a ++ b)).length := by
  cases a with
  | nil => rfl
  | cons l a =>
    cases b with
    | nil => exact Nat.zero_le _
    | cons l' b =>
      rw [unlines_append (List.cons_ne_nil _ _) (List.cons_ne_nil _ _), List.length_append,
        List.length_cons]
      omega

theorem unlines_append_left (a b : List Text) : unlines a <+: unlines (a ++ b) := by
  cases b with
  | nil => rw [List.append_nil]
  | cons l' b =>
    cases a with
    | nil => exact List.nil_prefix
    | cons l a =>
      rw [unlines_append (List.cons_ne_nil _ _) (List.cons_ne_nil _ _)]
      exact List.prefix_append _ _

theorem eq_newline_of_rotated {t : Text} (h : '\n' :: t = t ++ ['\n']) : ∀ c ∈ t, c = '\n' := by
  induction t with
  | nil => exact fun c hc => absurd hc List.not_mem_nil
  | cons c t ih =>
    obtain ⟨hHead, hTail⟩ := List.cons.inj h
    subst hHead
    intro d hd
    obtain rfl | hd := List.mem_cons.mp hd
    · rfl
    · exact ih hTail d hd

theorem placed_alone {anchor : Option (Text → Bool)} {atStart : Bool} {block new : List Text}
    {dst : Option Text} (hBlank : Python.strip (unlines block) ≠ [])
    (h : Placed anchor atStart block (dstLines dst) new)
    (hNew : unlines block ++ ['\n'] = unlines new ∨ unlines block ++ ['\n'] = unlines (new ++ [[]])) :
    anchor = none ∧ (atStart = true → dst.getD [] = []) ∧
      (atStart = false → kept (dstLines dst) = []) := by
  have hBlock : block ≠ [] := by
    rintro rfl
    exact hBlank rfl
  have hShort : (unlines new).length ≤ (unlines block).length + 1 := by
    obtain hEq | hEq := hNew
    · have hLen := congrArg List.length hEq
      rw [List.length_append, List.length_singleton] at hLen
      omega
    · have hLen := congrArg List.length hEq
      have hLe := (unlines_append_left new [[]]).length_le
      rw [List.length_append, List.length_singleton] at hLen
      omega
  cases anchor with
  | some rx =>
    exfalso
    obtain ⟨before, line, after, -, -, -, rfl⟩ := h
    have hSplit : before ++ line :: (block ++ after) = (before ++ [line]) ++ (block ++ after) := by simp
    have hText : unlines (before ++ line :: (block ++ after)) =
        unlines (before ++ [line]) ++ '\n' :: unlines (block ++ after) := by
      rw [hSplit, unlines_append (by simp) (by simp [hBlock])]
    have hPrefix := unlines_append_left block after
    have hLe := hPrefix.length_le
    rw [hText, List.length_append, List.length_cons] at hShort
    have hNil : unlines (before ++ [line]) = [] := List.length_eq_zero_iff.mp (by omega)
    have hSame := hPrefix.eq_of_length (by omega)
    rw [hNil, List.nil_append, ← hSame] at hText
    rw [hText, unlines_concat_nil (by simp), hText] at hNew
    obtain hEq | hEq := hNew
    · rw [ne_eq, Python.strip_eq_nil_iff] at hBlank
      refine hBlank fun c hc => ?_
      rw [eq_newline_of_rotated hEq.symm c hc]
      rfl
    · have hLen := congrArg List.length hEq
      simp at hLen
  | none =>
    refine ⟨rfl, fun hStart => ?_, fun hStart => ?_⟩
    · subst hStart
      obtain rfl : new = block ++ dstLines dst := h
      cases dst with
      | none => rfl
      | some t =>
        rw [dstLines, unlines_append hBlock (lines_ne_nil t), unlines_lines, List.length_append,
          List.length_cons] at hShort
        exact List.length_eq_zero_iff.mp (show t.length = 0 by omega)
    · subst hStart
      obtain ⟨blanks, -, rfl⟩ := h
      by_contra hKept
      have hLe := length_unlines_right blanks block
      rw [unlines_append hKept (by simp [hBlock]), List.length_append, List.length_cons] at hShort
      have hLast := List.rdropWhile_last_not (fun l => decide (l = [])) (dstLines dst) hKept
      have hInfix := (infix_unlines (List.getLast_mem hKept)).length_le
      refine hLast (decide_eq_true (List.length_eq_zero_iff.mp ?_))
      have hSame : (kept (dstLines dst)).getLast hKept =
          ((dstLines dst).rdropWhile fun l => decide (l = [])).getLast hKept := rfl
      rw [← hSame]
      omega

/-! ## The run -/

section

variable {κ : Type*} {s : Service κ} {m : MoveRequest} {files : Store κ}

theorem getFile_content {p : Place} {ok : Bool} {text : Text}
    (h : s.getFile files p ok = .content text) :
    p.strip.complete ∧ ∃ t, files (s.fileOf p) = some t ∧ text = s.shown t := by
  rw [Service.getFile] at h
  split at h
  · rename_i hOk
    split at h
    · cases h
    · rename_i t hFile
      exact ⟨hOk.2, t, hFile, (Got.content.inj h).symm⟩
  · cases h

theorem getFile_missing {p : Place} {ok : Bool} (h : s.getFile files p ok = .missing) :
    p.strip.complete ∧ files (s.fileOf p) = none := by
  rw [Service.getFile] at h
  split at h
  · rename_i hOk
    split at h
    · rename_i hFile
      exact ⟨hOk.2, hFile⟩
    · cases h
  · cases h

theorem shown_eq_of_ne_nil {t : Text} (h : s.shown t ≠ []) : s.shown t = t := by
  rw [Service.shown] at h ⊢
  split at h
  · exact absurd rfl h
  · rename_i hLarge
    rw [if_neg hLarge]

theorem plan_eq_some {src newSrc newDst : Text} {dst : Option Text}
    (h : m.plan (s.shown src) dst = some (newSrc, newDst)) :
    ∃ bi ei, s.shown src = src ∧ m.range.bounds (lines src) = some (bi, ei) ∧
      m.moveBlock.block src = some (((lines src).take (ei + 1)).drop bi) ∧
      newSrc = unlines ((lines src).take bi ++ (lines src).drop (ei + 1)) ∧
      m.moveBlock.insert (((lines src).take (ei + 1)).drop bi) dst = some newDst := by
  simp only [MoveRequest.plan, bind, Option.bind_eq_some_iff] at h
  obtain ⟨block, hBlock, newSrc', hEdit, newDst', hInsert, hEq⟩ := h
  obtain ⟨rfl, rfl⟩ := Prod.mk.inj (Option.some.inj hEq)
  have hShown : s.shown src = src := by
    rw [Service.shown] at hBlock ⊢
    split at hBlock
    · rw [MoveBlock.block_nil] at hBlock
      cases hBlock
    · rename_i hLarge
      rw [if_neg hLarge]
  rw [hShown] at hBlock hEdit
  obtain ⟨bi, ei, hBounds, rfl, -⟩ := MoveBlock.block_eq_some hBlock
  exact ⟨bi, ei, hShown, hBounds, hBlock, MoveBlock.edit_eq_some hBounds hEdit, hInsert⟩

variable [DecidableEq κ]

theorem moveBlock_of_not_reaches (h : ¬Reaches s m files) (o : Outcomes) :
    s.moveBlock files m o = (files, .failed) := by
  rw [Service.moveBlock]
  split
  · rename_i hValid
    split
    · rename_i src hSrc
      obtain ⟨hSrcComplete, t, hFile, rfl⟩ := getFile_content hSrc
      split
      · split
        · rfl
        · rename_i hDst
          obtain ⟨hDstComplete, hNone⟩ := getFile_missing hDst
          dsimp only
          split
          · rename_i newSrc newDst hPlan
            refine absurd ⟨hValid, hSrcComplete, hDstComplete, t, hFile, ?_⟩ h
            rw [hNone, Option.map_none, hPlan]
            rfl
          · rfl
        · rename_i dst hDst
          obtain ⟨hDstComplete, d, hSome, rfl⟩ := getFile_content hDst
          dsimp only
          split
          · rename_i newSrc newDst hPlan
            refine absurd ⟨hValid, hSrcComplete, hDstComplete, t, hFile, ?_⟩ h
            rw [hSome, Option.map_some, hPlan]
            rfl
          · rfl
      · rfl
    · rfl
  · rfl

theorem moveBlock_of_reaches (hValid : m.valid) (hSrc : m.src.strip.complete)
    (hDst : m.dst.strip.complete) {src newSrc newDst : Text}
    (hFile : files (s.fileOf m.src) = some src)
    (hPlan : m.plan (s.shown src) ((files (s.fileOf m.dst)).map s.shown) = some (newSrc, newDst))
    (o : Outcomes) :
    s.moveBlock files m o =
      if o.getSrc = true ∧ o.getDst = true then s.putBoth files m o newSrc newDst
      else (files, .failed) := by
  have hBlock : (m.moveBlock.block (s.shown src)).isSome = true := by
    simp only [MoveRequest.plan, bind, Option.bind_eq_some_iff] at hPlan
    obtain ⟨block, hBlock, -⟩ := hPlan
    rw [hBlock]
    rfl
  rw [Service.moveBlock, if_pos hValid]
  cases hGetSrc : o.getSrc with
  | false =>
    have hGet : s.getFile files m.src false = .failed := if_neg (by simp)
    rw [hGet]
    simp
  | true =>
    have hGet : s.getFile files m.src true = .content (s.shown src) := by
      rw [Service.getFile, if_pos ⟨rfl, hSrc⟩, hFile]
    rw [hGet]
    dsimp only
    rw [if_pos hBlock]
    cases hGetDst : o.getDst with
    | false =>
      have hGet : s.getFile files m.dst false = .failed := if_neg (by simp)
      rw [hGet]
      simp
    | true =>
      have hGet : s.getFile files m.dst true =
          match files (s.fileOf m.dst) with
          | none => .missing
          | some text => .content (s.shown text) := by
        rw [Service.getFile, if_pos ⟨rfl, hDst⟩]
      rw [hGet]
      cases hOld : files (s.fileOf m.dst) with
      | none =>
        rw [hOld] at hPlan
        dsimp only
        rw [Option.map_none] at hPlan
        rw [hPlan]
        simp
      | some d =>
        rw [hOld] at hPlan
        dsimp only
        rw [Option.map_some] at hPlan
        rw [hPlan]
        simp

end

/-! ## Where the lines are -/

section

variable {anchor : Option (Text → Bool)} {atStart : Bool} {block old new : List Text}

theorem kept_sublist (ls : List Text) : (kept ls).Sublist ls := (List.rdropWhile_prefix _ ls).sublist

theorem Placed.block_infix (h : Placed anchor atStart block old new) : block <:+: new := by
  cases anchor with
  | some rx =>
    obtain ⟨before, line, after, -, -, -, rfl⟩ := h
    exact ⟨before ++ [line], after, by simp⟩
  | none =>
    rw [Placed] at h
    split at h
    · exact ⟨[], old, h.symm⟩
    · obtain ⟨blanks, -, rfl⟩ := h
      exact ⟨kept old ++ blanks, [], by simp⟩

theorem staying_sublist (anchor : Option (Text → Bool)) (atStart : Bool) (old : List Text) :
    (staying anchor atStart old).Sublist old := by
  cases anchor with
  | some rx => exact .refl old
  | none =>
    rw [staying]
    split
    · exact .refl old
    · exact kept_sublist old

theorem Placed.staying_sublist (h : Placed anchor atStart block old new) :
    (staying anchor atStart old).Sublist new := by
  cases anchor with
  | some rx =>
    obtain ⟨before, line, after, rfl, -, -, rfl⟩ := h
    exact (List.Sublist.refl before).append ((List.sublist_append_right block after).cons_cons line)
  | none =>
    rw [Placed] at h
    rw [staying]
    by_cases hStart : atStart = true
    · rw [if_pos hStart] at h ⊢
      subst h
      exact List.sublist_append_right block old
    · rw [if_neg hStart] at h ⊢
      obtain ⟨blanks, -, rfl⟩ := h
      exact List.sublist_append_left _ _

theorem Placed.newline_not_mem (h : Placed anchor atStart block old new)
    (hBlock : ∀ l ∈ block, '\n' ∉ l) (hOld : ∀ l ∈ old, '\n' ∉ l) : ∀ l ∈ new, '\n' ∉ l := by
  intro l hl
  cases anchor with
  | some rx =>
    obtain ⟨before, line, after, rfl, -, -, rfl⟩ := h
    simp only [List.mem_append, List.mem_cons] at hl hOld
    rcases hl with hl | rfl | hl | hl
    · exact hOld l (.inl hl)
    · exact hOld l (.inr (.inl rfl))
    · exact hBlock l hl
    · exact hOld l (.inr (.inr hl))
  | none =>
    rw [Placed] at h
    split at h
    · subst h
      rcases List.mem_append.mp hl with hl | hl
      · exact hBlock l hl
      · exact hOld l hl
    · obtain ⟨blanks, hBlanks, rfl⟩ := h
      rcases List.mem_append.mp hl with hl | hl
      · exact hOld l ((kept_sublist old).subset hl)
      · rcases List.mem_append.mp hl with hl | hl
        · rw [hBlanks l hl]
          exact List.not_mem_nil
        · exact hBlock l hl

theorem lines_of_placed {text : Text} (hLines : ∀ l ∈ new, '\n' ∉ l) (hNe : new ≠ [])
    (h : text = unlines new ∨ text = unlines (new ++ [[]])) :
    lines text = new ∨ lines text = new ++ [[]] := by
  obtain rfl | rfl := h
  · exact .inl (lines_unlines hLines hNe)
  · right
    refine lines_unlines (fun l hl => ?_) (by simp)
    rcases List.mem_append.mp hl with hl | hl
    · exact hLines l hl
    · rw [List.mem_singleton.mp hl]
      exact List.not_mem_nil

end

/-! ## When a move conserves the lines -/

section

variable {κ : Type*} {s : Service κ} {m : MoveRequest} {files : Store κ}

theorem dstLines_newline (text : Option Text) : ∀ l ∈ dstLines text, '\n' ∉ l := by
  cases text with
  | none => exact fun l hl => absurd hl List.not_mem_nil
  | some t => exact fun l hl => newline_not_mem hl

theorem Intact.refl : Intact s m files files := by
  constructor
  · intro src block hFile hBlock
    obtain ⟨bi, ei, -, rfl, -⟩ := MoveBlock.block_eq_some hBlock
    rw [hFile]
    exact .inl ((List.drop_suffix _ _).isInfix.trans (List.take_prefix _ _).isInfix)
  · exact staying_sublist _ _ _

theorem Distinct.placed (h : Distinct s m files) {block : List Text} {newDst : Text}
    (hBlock : block ≠ [])
    (hInsert : m.moveBlock.insert block ((files (s.fileOf m.dst)).map s.shown) = some newDst) :
    ∃ new, Placed m.anchor m.atStart block (dstLines (files (s.fileOf m.dst))) new ∧ new ≠ [] ∧
      (newDst = unlines new ∨ newDst = unlines (new ++ [[]])) := by
  obtain ⟨new, hPlaced, hNe, hText⟩ := insert_placed hBlock hInsert h.anchored
  refine ⟨new, ?_, hNe, hText⟩
  have hMove : Placed m.anchor m.atStart block
      (dstLines ((files (s.fileOf m.dst)).map s.shown)) new := hPlaced
  cases hAnchor : m.anchor with
  | some rx =>
    have hShown := h.anchored (by rw [hAnchor]; rfl)
    rw [hAnchor] at hMove
    cases hOld : files (s.fileOf m.dst) with
    | none =>
      rw [hOld] at hShown
      exact absurd rfl hShown
    | some d =>
      rw [hOld] at hShown hMove
      rwa [Option.map_some, shown_eq_of_ne_nil hShown] at hMove
  | none =>
    rw [hAnchor] at hMove
    cases hStart : m.atStart with
    | true =>
      rw [hStart] at hMove
      rwa [h.started hAnchor hStart] at hMove
    | false =>
      rw [hStart] at hMove
      obtain ⟨blanks, hBlanks, hNew⟩ := hMove
      exact ⟨blanks, hBlanks, by rw [hNew, h.ended hAnchor hStart]⟩

theorem conserves_nothing : Conserves s m files (files, .failed) := by
  constructor
  · intro h
    cases h
  · exact fun _ => Intact.refl
  · exact fun k _ _ => rfl

theorem Distinct.of_shown (hNe : s.fileOf m.src ≠ s.fileOf m.dst)
    (hShown : ((files (s.fileOf m.dst)).map s.shown).getD [] ≠ []) : Distinct s m files := by
  have hSame : (files (s.fileOf m.dst)).map s.shown = files (s.fileOf m.dst) := by
    cases hOld : files (s.fileOf m.dst) with
    | none => rfl
    | some d =>
      rw [hOld] at hShown
      rw [Option.map_some, shown_eq_of_ne_nil hShown]
  exact ⟨hNe, fun _ => hShown, fun _ _ => hSame, fun _ _ => by rw [hSame]⟩

theorem Distinct.of_alone (hNe : s.fileOf m.src ≠ s.fileOf m.dst)
    (hShown : ((files (s.fileOf m.dst)).map s.shown).getD [] = []) (hAnchor : m.anchor = none)
    (hStart : m.atStart = true → (files (s.fileOf m.dst)).getD [] = [])
    (hEnd : m.atStart = false → kept (dstLines (files (s.fileOf m.dst))) = []) :
    Distinct s m files := by
  refine ⟨hNe, ?_, ?_, ?_⟩
  · intro hSome
    rw [hAnchor] at hSome
    cases hSome
  · intro _ hs
    have hNil := hStart hs
    cases hOld : files (s.fileOf m.dst) with
    | none => rfl
    | some d =>
      rw [hOld] at hNil hShown
      obtain rfl : d = [] := hNil
      exact congrArg some hShown
  · intro _ hs
    rw [hEnd hs]
    cases hOld : (files (s.fileOf m.dst)).map s.shown with
    | none => rfl
    | some d =>
      rw [hOld] at hShown
      obtain rfl : d = [] := hShown
      exact kept_singleton_nil

variable [DecidableEq κ]

theorem putBoth_eq (o : Outcomes) (newSrc newDst : Text) (hSrc : m.src.strip.complete)
    (hDst : m.dst.strip.complete) :
    s.putBoth files m o newSrc newDst =
      let added := Function.update files (s.fileOf m.dst) (some newDst)
      let both := Function.update added (s.fileOf m.src) (some newSrc)
      match o.putDst, o.putSrc with
      | .failed false, _ => (files, .failed)
      | .failed true, _ => (added, .failed)
      | .done, .failed false => (added, .failed)
      | .done, .failed true => (both, .failed)
      | .done, .done => (both, .completed) := by
  rw [Service.putBoth]
  simp only [Service.putFile, if_pos hSrc, if_pos hDst]
  cases o.putDst with
  | failed applied => cases applied <;> rfl
  | done =>
    cases o.putSrc with
    | failed applied => cases applied <;> rfl
    | done => rfl

theorem Distinct.conserves (h : Distinct s m files) {src newSrc newDst : Text}
    (hSrc : m.src.strip.complete) (hDst : m.dst.strip.complete)
    (hFile : files (s.fileOf m.src) = some src)
    (hPlan : m.plan (s.shown src) ((files (s.fileOf m.dst)).map s.shown) = some (newSrc, newDst))
    (o : Outcomes) : Conserves s m files (s.putBoth files m o newSrc newDst) := by
  obtain ⟨bi, ei, -, hBounds, hBlock, rfl, hInsert⟩ := plan_eq_some hPlan
  obtain ⟨new, hPlaced, hNe, hText⟩ := h.placed (MoveBlock.block_ne_nil hBlock) hInsert
  have hLines : lines newDst = new ∨ lines newDst = new ++ [[]] := by
    refine lines_of_placed (hPlaced.newline_not_mem (fun l hl => ?_) (dstLines_newline _)) hNe hText
    exact newline_not_mem (List.mem_of_mem_take (List.mem_of_mem_drop hl))
  have hInfix : ((lines src).take (ei + 1)).drop bi <:+: lines newDst := by
    obtain hEq | hEq := hLines
    · exact hEq ▸ hPlaced.block_infix
    · exact hEq ▸ hPlaced.block_infix.trans (List.prefix_append new [[]]).isInfix
  have hStaying : (staying m.anchor m.atStart (dstLines (files (s.fileOf m.dst)))).Sublist
      (lines newDst) := by
    obtain hEq | hEq := hLines
    · exact hEq ▸ hPlaced.staying_sublist
    · exact hEq ▸ hPlaced.staying_sublist.trans (List.sublist_append_left new [[]])
  have hOwn : ∀ src' block, files (s.fileOf m.src) = some src' →
      m.moveBlock.block src' = some block → block = ((lines src).take (ei + 1)).drop bi := by
    intro src' block hFile' hBlock'
    obtain rfl := Option.some.inj (hFile.symm.trans hFile')
    exact Option.some.inj (hBlock'.symm.trans hBlock)
  -- the destination has the new text, whatever becomes of the source
  have hIntact : ∀ files' : Store κ, files' (s.fileOf m.dst) = some newDst →
      Intact s m files files' := by
    intro files' hNew
    constructor
    · intro src' block hFile' hBlock'
      rw [hOwn src' block hFile' hBlock', hNew]
      exact .inr hInfix
    · rw [hNew]
      exact hStaying
  have hAfter : ∀ text, Function.update (Function.update files (s.fileOf m.dst) (some newDst))
      (s.fileOf m.src) (some text) (s.fileOf m.dst) = some newDst := by
    intro text
    rw [Function.update_of_ne h.ne.symm, Function.update_self]
  rw [putBoth_eq o _ newDst hSrc hDst]
  dsimp only
  split
  · exact conserves_nothing
  · refine ⟨by simp, fun _ => hIntact _ (Function.update_self _ _ _), fun k _ hk => ?_⟩
    exact Function.update_of_ne hk _ _
  · refine ⟨by simp, fun _ => hIntact _ (Function.update_self _ _ _), fun k _ hk => ?_⟩
    exact Function.update_of_ne hk _ _
  · refine ⟨by simp, fun _ => hIntact _ (hAfter _), fun k hkSrc hk => ?_⟩
    exact (Function.update_of_ne hkSrc _ _).trans (Function.update_of_ne hk _ _)
  · refine ⟨fun _ => ⟨?_, h.ne⟩, by simp, fun k hkSrc hk => ?_⟩
    · refine ⟨src, bi, ei, new, hFile, hBounds, Function.update_self _ _ _, hPlaced, ?_⟩
      dsimp only
      rw [hAfter]
      exact hText.imp (congrArg some) (congrArg some)
    · exact (Function.update_of_ne hkSrc _ _).trans (Function.update_of_ne hk _ _)

/-- A move that completes when all goes well was between files that are told apart. -/
theorem distinct_of_moved {src newSrc newDst : Text} (hNe : s.fileOf m.src ≠ s.fileOf m.dst)
    (hFile : files (s.fileOf m.src) = some src)
    (hPlan : m.plan (s.shown src) ((files (s.fileOf m.dst)).map s.shown) = some (newSrc, newDst))
    (hMoved : Moved s m files (Function.update (Function.update files (s.fileOf m.dst) (some newDst))
      (s.fileOf m.src) (some newSrc))) : Distinct s m files := by
  by_cases hShown : ((files (s.fileOf m.dst)).map s.shown).getD [] = []
  · obtain ⟨bi, ei, -, hBounds, hBlock, -, hInsert⟩ := plan_eq_some hPlan
    obtain ⟨-, -, -, -, hBlank⟩ := MoveBlock.block_eq_some hBlock
    obtain ⟨src', bi', ei', new, hFile', hBounds', -, hPlaced, hText⟩ := hMoved
    obtain rfl := Option.some.inj (hFile.symm.trans hFile')
    obtain ⟨rfl, rfl⟩ := Prod.mk.inj (Option.some.inj (hBounds.symm.trans hBounds'))
    rw [Function.update_of_ne hNe.symm, Function.update_self, insert_of_empty hShown hInsert,
      Option.some.injEq, Option.some.injEq] at hText
    obtain ⟨hAnchor, hStart, hEnd⟩ := placed_alone hBlank hPlaced hText
    exact Distinct.of_alone hNe hShown hAnchor hStart hEnd
  · exact Distinct.of_shown hNe hShown

/-- Whatever the requests come to, a move conserves the lines exactly if it does not reach the
puts or the files are told apart. -/
theorem move_conserves_iff (s : Service κ) (m : MoveRequest) (files : Store κ) :
    (∀ o, Conserves s m files (s.moveBlock files m o)) ↔
      (Reaches s m files → Distinct s m files) := by
  constructor
  · rintro h ⟨hValid, hSrc, hDst, src, hFile, hSome⟩
    obtain ⟨⟨newSrc, newDst⟩, hPlan⟩ := Option.isSome_iff_exists.mp hSome
    have hRun := h ⟨true, true, .done, .done⟩
    rw [moveBlock_of_reaches hValid hSrc hDst hFile hPlan, if_pos ⟨rfl, rfl⟩,
      putBoth_eq _ _ _ hSrc hDst] at hRun
    obtain ⟨hMoved, hNe⟩ := hRun.completed rfl
    exact distinct_of_moved hNe hFile hPlan hMoved
  · intro h o
    by_cases hReaches : Reaches s m files
    · obtain ⟨hValid, hSrc, hDst, src, hFile, hSome⟩ := hReaches
      obtain ⟨⟨newSrc, newDst⟩, hPlan⟩ := Option.isSome_iff_exists.mp hSome
      rw [moveBlock_of_reaches hValid hSrc hDst hFile hPlan]
      split
      · exact (h ⟨hValid, hSrc, hDst, src, hFile, hSome⟩).conserves hSrc hDst hFile hPlan o
      · exact conserves_nothing
    · rw [moveBlock_of_not_reaches hReaches]
      exact conserves_nothing

/-- Two names of a file, one with a blank behind it. -/
def aliased : MoveRequest where
  src := ⟨['o'], ['r'], ['a', ' ']⟩
  dst := ⟨['o'], ['r'], ['a']⟩
  message := ['m']
  range := .lines 1 1
  anchor := none
  atStart := false

theorem alias_loses_block :
    let s : Service Place := ⟨id, fun _ => false⟩
    let files : Store Place := Function.update (fun _ => none) ⟨['o'], ['r'], ['a']⟩
      (some "x\ny\n".toList)
    let after := s.moveBlock files aliased ⟨true, true, .done, .done⟩
    after.2 = .completed ∧ after.1 ⟨['o'], ['r'], ['a']⟩ = some "y\n".toList ∧
      s.fileOf aliased.src = s.fileOf aliased.dst ∧ ¬Conserves s aliased files after := by
  have hSame : (⟨id, fun _ => false⟩ : Service Place).fileOf aliased.src =
      (⟨id, fun _ => false⟩ : Service Place).fileOf aliased.dst := by decide
  refine ⟨by decide, by decide, hSame, fun h => ?_⟩
  exact (h.completed (by decide)).2 hSame

end

end OpenSpoke.GitHub
