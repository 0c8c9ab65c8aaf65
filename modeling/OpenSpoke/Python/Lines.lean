import OpenSpoke.Lib.Occurrences
import OpenSpoke.Python.Text

/-!
# Searches in a text, and its lines
-/

namespace OpenSpoke.Python

/-- `text.count(old)`. -/
def count (old text : Text) : Nat := (Occurrences.starts old 0 0 text).length

/-- `text.find(old, start)`. -/
def find (old text : Text) (start : Nat) : Option Nat := Occurrences.first old text start

/-- The occurrences that `text.replace(old, new, n)` replaces. -/
def replaced (old text : Text) (n : Int) : List Nat :=
  if n < 0 then Occurrences.starts old 0 0 text
  else (Occurrences.starts old 0 0 text).take n.toNat

/-- `text.replace(old, new, n)`. -/
def replace (old new text : Text) (n : Int) : Text :=
  new.intercalate (Occurrences.pieces text old.length 0 (replaced old text n))

/-- `text.count('\n', 0, idx) + 1`. -/
def lineAt (text : Text) (idx : Nat) : Nat := (text.take idx).count '\n' + 1

theorem none_of_all {p : Char → Bool} {t : Text} (h : t.all (fun c => !p c) = true) :
    ∀ c ∈ t, p c = false :=
  fun c hc => by simpa using List.all_eq_true.mp h c hc

/-- Where `str.splitlines` ends a line. -/
def isLineBreak (c : Char) : Bool :=
  let n := c.toNat
  (10 ≤ n && n ≤ 13) || (28 ≤ n && n ≤ 30) || n = 0x85 || n = 0x2028 || n = 0x2029

/-- `text.splitlines()`. -/
def splitlines : Text → List Text
  | [] => []
  | '\r' :: '\n' :: text => [] :: splitlines text
  | c :: text =>
    if isLineBreak c then [] :: splitlines text
    else
      match splitlines text with
      | [] => [[c]]
      | line :: rest => (c :: line) :: rest

theorem splitlines_crlf (t : Text) : splitlines ('\r' :: '\n' :: t) = [] :: splitlines t := rfl

theorem splitlines_of_not_crlf {c : Char} {t : Text} (h : c = '\r' → t.head? ≠ some '\n') :
    splitlines (c :: t) =
      if isLineBreak c then [] :: splitlines t
      else (c :: (splitlines t).headD []) :: (splitlines t).tail := by
  rw [splitlines]
  · cases splitlines t <;> rfl
  · rintro text hEq rfl
    exact h hEq rfl

theorem splitlines_cons_break {c : Char} (hc : isLineBreak c = true) {t : Text}
    (hCr : c = '\r' → t.head? ≠ some '\n') : splitlines (c :: t) = [] :: splitlines t := by
  rw [splitlines_of_not_crlf hCr, if_pos hc]

theorem splitlines_cons {c : Char} (hc : isLineBreak c = false) (t : Text) :
    splitlines (c :: t) =
      (c :: (splitlines t).headD []) :: (splitlines t).tail := by
  rw [splitlines_of_not_crlf, if_neg (by rw [hc]; exact Bool.false_ne_true)]
  rintro rfl
  exact absurd hc (by decide)

theorem splitlines_newline_cons (t : Text) : splitlines ('\n' :: t) = [] :: splitlines t :=
  splitlines_cons_break (by decide) fun h => absurd h (by decide)

theorem splitlines_head {t : Text} (h : t ≠ []) :
    splitlines t = t.takeWhile (!isLineBreak ·) :: (splitlines t).tail := by
  induction t with
  | nil => exact absurd rfl h
  | cons c t ih =>
    cases hc : isLineBreak c with
    | true =>
      rw [List.takeWhile_cons, hc]
      by_cases hCr : c = '\r' ∧ t.head? = some '\n'
      · obtain ⟨rfl, hHead⟩ := hCr
        obtain ⟨t, rfl⟩ := List.head?_eq_some_iff.mp hHead
        rw [splitlines_crlf]
        rfl
      · rw [splitlines_cons_break hc fun hEq hHead => hCr ⟨hEq, hHead⟩]
        rfl
    | false =>
      rw [List.takeWhile_cons, hc, splitlines_cons hc]
      cases t with
      | nil => rfl
      | cons d t =>
        rw [ih (List.cons_ne_nil d t)]
        rfl

theorem splitlines_ne_nil {t : Text} (h : t ≠ []) : splitlines t ≠ [] := by
  rw [splitlines_head h]
  exact List.cons_ne_nil _ _

theorem splitlines_newline (a b : Text) : ∃ gap : List Text, (∀ l ∈ gap, l = []) ∧
    splitlines (a ++ '\n' :: b) = splitlines a ++ (gap ++ splitlines b) := by
  fun_induction splitlines a with
  | case1 => exact ⟨[[]], by simp, splitlines_newline_cons b⟩
  | case2 text ih =>
    obtain ⟨gap, hGap, hEq⟩ := ih
    refine ⟨gap, hGap, ?_⟩
    rw [List.cons_append, List.cons_append, splitlines_crlf, hEq]
    rfl
  | case3 c text hNot hc ih =>
    obtain ⟨gap, hGap, hEq⟩ := ih
    by_cases hCr : c = '\r' ∧ text = []
    · obtain ⟨rfl, rfl⟩ := hCr
      exact ⟨[], by simp, splitlines_crlf b⟩
    · refine ⟨gap, hGap, ?_⟩
      rw [List.cons_append, splitlines_cons_break hc, hEq]
      · rfl
      · intro hEq' hHead
        cases text with
        | nil => exact hCr ⟨hEq', rfl⟩
        | cons d text =>
          obtain rfl := Option.some_inj.mp hHead
          exact hNot text hEq' rfl
  | case4 c text hNot hc hNil ih =>
    obtain rfl : text = [] := by_contra fun h => splitlines_ne_nil h hNil
    rw [Bool.not_eq_true] at hc
    refine ⟨[], by simp, ?_⟩
    rw [List.cons_append, splitlines_cons hc, List.nil_append, splitlines_newline_cons]
    rfl
  | case5 c text hNot hc line rest hLines ih =>
    obtain ⟨gap, hGap, hEq⟩ := ih
    rw [Bool.not_eq_true] at hc
    refine ⟨gap, hGap, ?_⟩
    rw [List.cons_append, splitlines_cons hc, hEq, hLines]
    rfl

theorem splitlines_eq_singleton {t : Text} (hne : t ≠ []) (h : ∀ c ∈ t, isLineBreak c = false) :
    splitlines t = [t] := by
  induction t with
  | nil => exact absurd rfl hne
  | cons c t ih =>
    rw [splitlines_cons (h c List.mem_cons_self)]
    cases t with
    | nil => rfl
    | cons d t =>
      rw [ih (List.cons_ne_nil d t) fun x hx => h x (List.mem_cons_of_mem c hx)]
      rfl

/-- Only the first line changes with text in front that has no break. -/
theorem splitlines_append {front : Text} (h : ∀ c ∈ front, isLineBreak c = false) (hne : front ≠ [])
    (t : Text) :
    splitlines (front ++ t) = (front ++ (splitlines t).headD []) :: (splitlines t).tail := by
  induction front with
  | nil => exact absurd rfl hne
  | cons c front ih =>
    rw [List.cons_append, splitlines_cons (h c List.mem_cons_self)]
    cases front with
    | nil => rfl
    | cons d front =>
      rw [ih (fun x hx => h x (List.mem_cons_of_mem c hx)) (List.cons_ne_nil d front)]
      rfl

/-- The lines of the text that are not empty. -/
def fullLines (t : Text) : List Text := (splitlines t).filter (· ≠ [])

theorem filterMap_fullLines {β : Type*} {f : Text → Option β} (hNil : f [] = none) (t : Text) :
    (fullLines t).filterMap f = (splitlines t).filterMap f := by
  rw [fullLines, List.filterMap_filter]
  refine congrArg (List.filterMap · _) (funext fun l => ?_)
  by_cases hl : l = []
  · subst hl
    exact hNil.symm
  · simp [hl]

theorem foldl_fullLines {β : Type*} {f : β → Text → β} (hNil : ∀ b, f b [] = b) (b : β)
    (t : Text) : (fullLines t).foldl f b = (splitlines t).foldl f b := by
  rw [fullLines, List.foldl_filter]
  refine congrArg (List.foldl · b _) (funext fun b => funext fun l => ?_)
  by_cases hl : l = []
  · subst hl
    exact (hNil b).symm
  · simp [hl]

theorem fullLines_newline (a b : Text) :
    fullLines (a ++ '\n' :: b) = fullLines a ++ fullLines b := by
  obtain ⟨gap, hGap, hEq⟩ := splitlines_newline a b
  have hNone : gap.filter (· ≠ []) = [] := by
    refine List.filter_eq_nil_iff.mpr fun l hl => ?_
    simp [hGap l hl]
  rw [fullLines, hEq, List.filter_append, List.filter_append, hNone, List.nil_append]
  rfl

theorem fullLines_title {title : Text} (hne : title ≠ [])
    (h : ∀ c ∈ title, isLineBreak c = false) : fullLines (title ++ ['\n']) = [title] := by
  rw [fullLines_newline, fullLines, splitlines_eq_singleton hne h]
  simp [fullLines, splitlines, hne]

/-- `"\n".join`. -/
def unlines (ls : List Text) : Text := ['\n'].intercalate ls

theorem fullLines_unlines (ls : List Text) : fullLines (unlines ls) = ls.flatMap fullLines := by
  induction ls with
  | nil => rfl
  | cons l ls ih =>
    cases ls with
    | nil => simp [unlines]
    | cons m ls =>
      have hJoin : unlines (l :: m :: ls) = l ++ '\n' :: unlines (m :: ls) := by
        simp [unlines, List.intercalate]
      rw [hJoin, fullLines_newline, ih]
      rfl

theorem replaced_count {old text : Text} {n : Int} (h : (count old text : Int) = n) :
    replaced old text n = Occurrences.starts old 0 0 text := by
  subst h
  rw [replaced, if_neg (by omega), Int.toNat_natCast]
  exact List.take_length

theorem replace_self {old : Text} (text : Text) {n : Int} (hOld : old ≠ [])
    (h : (count old text : Int) = n) : replace old old text n = text := by
  obtain ⟨-, hApart⟩ := Occurrences.starts_spec hOld text 0 0
  rw [replace, replaced_count h, Occurrences.intercalate_pieces _ hApart, List.drop_zero]
  exact fun i hi => ⟨Nat.zero_le i, Occurrences.at_of_mem_starts hOld hi⟩

theorem replace_eq_self_iff {old new text : Text} {n : Int} (hOld : old ≠ []) (hn : n ≠ 0)
    (h : (count old text : Int) = n) : replace old new text n = text ↔ new = old := by
  constructor
  · intro hEq
    have hLen := Occurrences.length_pieces text old.length 0 (replaced old text n)
    rw [replaced_count h] at hLen
    obtain ⟨p, q, ps, hPieces⟩ : ∃ p q ps,
        Occurrences.pieces text old.length 0 (replaced old text n) = p :: q :: ps := by
      rw [replaced_count h]
      match hMatch : Occurrences.pieces text old.length 0 (Occurrences.starts old 0 0 text) with
      | [] | [p] =>
        rw [hMatch] at hLen
        simp only [List.length_nil, List.length_singleton] at hLen
        rw [count] at h
        omega
      | p :: q :: ps => exact ⟨p, q, ps, rfl⟩
    have hBoth : replace old new text n = replace old old text n := by
      rw [hEq, replace_self text hOld h]
    rw [replace, replace, hPieces] at hBoth
    exact Occurrences.intercalate_inj hBoth
  · rintro rfl
    exact replace_self text hOld h

end OpenSpoke.Python
