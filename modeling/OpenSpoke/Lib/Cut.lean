import Mathlib.Data.List.Infix
import Mathlib.Data.List.Basic

/-!
# Cuts at the first occurrence

A text is cut at the first occurrence of a word. Text in front of it in which no occurrence
begins stays in front.
-/

namespace Cut

variable {α : Type*} [DecidableEq α]

/-- What stands before and behind the first occurrence. -/
def cut (w : List α) : List α → Option (List α × List α)
  | [] => if w = [] then some ([], []) else none
  | c :: t =>
    if w.isPrefixOf (c :: t) then some ([], (c :: t).drop w.length)
    else (cut w t).map fun p => (c :: p.1, p.2)

/-- The text up to the first occurrence, or all of it. -/
def before (w t : List α) : List α :=
  match cut w t with
  | some p => p.1
  | none => t

def after (w t : List α) : Option (List α) := (cut w t).map Prod.snd

variable {w front rest t : List α} {c : α}

theorem cut_nil (w : List α) : cut w [] = if w = [] then some ([], []) else none := rfl

theorem cut_cons (w t : List α) (c : α) :
    cut w (c :: t) = if w.isPrefixOf (c :: t) then some ([], (c :: t).drop w.length)
      else (cut w t).map fun p => (c :: p.1, p.2) := rfl

theorem eq_of_cut {p : List α × List α} (h : cut w t = some p) : t = p.1 ++ (w ++ p.2) := by
  induction t generalizing p with
  | nil =>
    rw [cut_nil] at h
    split at h
    next hw =>
      cases h
      simp [hw]
    · cases h
  | cons c t ih =>
    rw [cut_cons] at h
    split at h
    next hPrefix =>
      cases h
      obtain ⟨u, hu⟩ := List.isPrefixOf_iff_prefix.mp hPrefix
      rw [List.nil_append, ← hu, List.drop_left]
    · obtain ⟨q, hq, rfl⟩ := Option.map_eq_some_iff.mp h
      rw [List.cons_append, ← ih hq]

theorem cut_prefix (w t : List α) : cut w (w ++ t) = some ([], t) := by
  cases w with
  | nil => cases t <;> rfl
  | cons c w =>
    have hPrefix : (c :: w).isPrefixOf (c :: (w ++ t)) = true :=
      List.isPrefixOf_iff_prefix.mpr (List.prefix_append (c :: w) t)
    rw [List.cons_append, cut_cons, if_pos hPrefix, ← List.cons_append, List.drop_left]

theorem cut_append (h : ∀ l, l <:+ front → l ≠ [] → ¬w <+: l ++ rest) :
    cut w (front ++ rest) = (cut w rest).map fun p => (front ++ p.1, p.2) := by
  induction front with
  | nil => simp
  | cons c front ih =>
    have hHere : w.isPrefixOf (c :: (front ++ rest)) = false := by
      rw [Bool.eq_false_iff, ne_eq, List.isPrefixOf_iff_prefix]
      exact h (c :: front) List.suffix_rfl (List.cons_ne_nil c front)
    rw [List.cons_append, cut_cons, hHere, if_neg Bool.false_ne_true,
      ih fun l hl => h l (hl.trans (List.suffix_cons c front)), Option.map_map]
    rfl

theorem cut_eq_none_iff (hw : w ≠ []) : cut w t = none ↔ ¬w <:+: t := by
  induction t with
  | nil => simp [cut_nil, hw]
  | cons c t ih =>
    rw [cut_cons, List.infix_cons_iff, not_or]
    split
    next hPrefix => simp [List.isPrefixOf_iff_prefix.mp hPrefix]
    next hPrefix =>
      rw [List.isPrefixOf_iff_prefix] at hPrefix
      rw [Option.map_eq_none_iff, ih, and_iff_right hPrefix]

theorem cut_of_infix (h : w <:+: front) :
    cut w (front ++ rest) = (cut w front).map fun p => (p.1, p.2 ++ rest) := by
  induction front with
  | nil =>
    obtain rfl := List.eq_nil_of_infix_nil h
    cases rest <;> rfl
  | cons c front ih =>
    rw [List.cons_append, cut_cons, cut_cons]
    by_cases hPrefix : w <+: c :: front
    · have hMore : w <+: c :: (front ++ rest) :=
        hPrefix.trans (List.prefix_append (c :: front) rest)
      rw [if_pos (List.isPrefixOf_iff_prefix.mpr hPrefix),
        if_pos (List.isPrefixOf_iff_prefix.mpr hMore), Option.map_some, ← List.cons_append,
        List.drop_append_of_le_length hPrefix.length_le]
    · have hLater : w <:+: front := (List.infix_cons_iff.mp h).resolve_left hPrefix
      have hLength : w.length ≤ (c :: front).length :=
        hLater.length_le.trans (Nat.le_succ front.length)
      have hMore : ¬w <+: c :: (front ++ rest) := fun hMore => hPrefix
        (List.prefix_of_prefix_length_le hMore (List.prefix_append (c :: front) rest) hLength)
      rw [if_neg (mt List.isPrefixOf_iff_prefix.mp hPrefix),
        if_neg (mt List.isPrefixOf_iff_prefix.mp hMore), ih hLater, Option.map_map, Option.map_map]
      rfl

theorem cut_append_of_notMem {w : List α} (h : c ∉ front) :
    cut (c :: w) (front ++ rest) = (cut (c :: w) rest).map fun p => (front ++ p.1, p.2) := by
  refine cut_append fun l hl hne hPrefix => ?_
  obtain ⟨d, l, rfl⟩ := List.exists_cons_of_ne_nil hne
  obtain ⟨rfl, -⟩ := List.cons_prefix_cons.mp hPrefix
  exact h (hl.mem List.mem_cons_self)

omit [DecidableEq α] in
theorem not_prefix_of_first {w l : List α} (hc : c ∉ w) (hne : l ≠ []) (hNot : ¬c :: w <+: l) :
    ¬c :: w <+: l ++ c :: rest := by
  intro hPrefix
  obtain hIn | hOut := List.prefix_or_prefix_of_prefix hPrefix (List.prefix_append l (c :: rest))
  · exact hNot hIn
  · obtain ⟨u, hu⟩ := hOut
    obtain ⟨d, l, rfl⟩ := List.exists_cons_of_ne_nil hne
    rw [← hu, List.prefix_append_right_inj] at hPrefix
    cases u with
    | nil =>
      rw [List.append_nil] at hu
      exact hNot (hu ▸ List.prefix_rfl)
    | cons e u =>
      obtain ⟨rfl, -⟩ := List.cons_prefix_cons.mp hPrefix
      rw [List.cons_append] at hu
      obtain ⟨-, rfl⟩ := List.cons.inj hu
      exact hc (List.mem_append_right l List.mem_cons_self)

omit [DecidableEq α] in
/-- A word that ends with a letter that it has nowhere else reaches up to it at most. -/
theorem prefix_of_last {w l : List α} (hc : c ∉ w) (h : w ++ [c] <+: l ++ c :: rest) :
    w ++ [c] <+: l ++ [c] := by
  have hMore : l ++ [c] <+: l ++ c :: rest := by
    rw [List.prefix_append_right_inj]
    exact List.prefix_append [c] rest
  obtain hIn | ⟨u, hu⟩ := List.prefix_or_prefix_of_prefix h hMore
  · exact hIn
  · obtain rfl | ⟨v, d, rfl⟩ := List.eq_nil_or_concat u
    · rw [List.append_nil] at hu
      exact hu ▸ List.prefix_rfl
    · rw [List.concat_eq_append, ← List.append_assoc] at hu
      obtain ⟨hw, -⟩ := List.append_inj' hu rfl
      have hMem : c ∈ w := by
        rw [← hw]
        simp
      exact absurd hMem hc

/-- A word that occurs nowhere in front, and no other letter of which is its first one, does not
begin there either if the rest begins with that letter. -/
theorem cut_append_of_not_infix {w : List α} (v : List α) (hc : c ∉ w)
    (hNot : ¬c :: w <:+: front) :
    cut (c :: w ++ v) (front ++ c :: rest) =
      (cut (c :: w ++ v) (c :: rest)).map fun p => (front ++ p.1, p.2) := by
  refine cut_append fun l hl hne hPrefix => ?_
  have hIn : ¬c :: w <+: l := fun h => hNot (h.isInfix.trans hl.isInfix)
  exact not_prefix_of_first hc hne hIn ((List.prefix_append (c :: w) v).trans hPrefix)

theorem cut_append_of_apart (h : ∀ l ∈ front.tails, l ≠ [] → ¬l <+: w ∧ ¬w <+: l) :
    cut w (front ++ rest) = (cut w rest).map fun p => (front ++ p.1, p.2) := by
  refine cut_append fun l hl hne hPrefix => ?_
  obtain ⟨hOut, hIn⟩ := h l ((List.mem_tails _ _).mpr hl) hne
  exact (List.prefix_or_prefix_of_prefix hPrefix (List.prefix_append l rest)).elim hIn hOut

/-! ## Before and after -/

theorem after_of_cut (h : cut w (front ++ rest) = (cut w rest).map fun p => (front ++ p.1, p.2)) :
    after w (front ++ rest) = after w rest := by
  rw [after, h, Option.map_map, after]
  rfl

theorem before_of_cut (h : cut w (front ++ rest) = (cut w rest).map fun p => (front ++ p.1, p.2)) :
    before w (front ++ rest) = front ++ before w rest := by
  rw [before, h, before]
  cases cut w rest <;> rfl

theorem after_prefix (w t : List α) : after w (w ++ t) = some t := by rw [after, cut_prefix]; rfl

theorem before_of_not_infix (hw : w ≠ []) (h : ¬w <:+: t) : before w t = t := by
  rw [before, (cut_eq_none_iff hw).mpr h]

theorem after_of_not_infix (hw : w ≠ []) (h : ¬w <:+: t) : after w t = none := by
  rw [after, (cut_eq_none_iff hw).mpr h]
  rfl

theorem before_of_infix (h : w <:+: front) (hw : w ≠ []) (rest : List α) :
    ∃ later, front = before w front ++ (w ++ later) ∧
      before w (front ++ rest) = before w front := by
  have hSome : cut w front ≠ none := fun hNone => (cut_eq_none_iff hw).mp hNone h
  obtain ⟨p, hCut⟩ := Option.ne_none_iff_exists'.mp hSome
  have hBefore : before w front = p.1 := by rw [before, hCut]
  refine ⟨p.2, ?_, ?_⟩
  · rw [hBefore]
    exact eq_of_cut hCut
  · rw [hBefore, before, cut_of_infix h, hCut]
    rfl

end Cut

/-! ## Parts of lists put together

A part that does not meet what stands between two lists lies in one of them. -/

namespace Parts

variable {α : Type*} {w a b s : List α} {c : α}

theorem infix_append_cons (hc : c ∉ w) : w <:+: a ++ c :: b ↔ w <:+: a ∨ w <:+: b := by
  constructor
  · rintro ⟨x, y, h⟩
    rcases List.append_eq_append_iff.mp h with ⟨a', hA, -⟩ | ⟨z, hX, hZ⟩
    · exact .inl ⟨x, a', hA.symm⟩
    · cases z with
      | nil => exact .inl ⟨x, [], by simpa using hX⟩
      | cons d z =>
        obtain ⟨rfl, rfl⟩ := List.cons.inj hZ
        rcases List.append_eq_append_iff.mp hX with ⟨r, -, hW⟩ | ⟨r, -, hR⟩
        · refine absurd ?_ hc
          rw [hW]
          exact List.mem_append_right _ List.mem_cons_self
        · cases r with
          | nil =>
            refine absurd ?_ hc
            rw [← List.nil_append w, ← hR]
            exact List.mem_cons_self
          | cons e r =>
            obtain ⟨-, rfl⟩ := List.cons.inj hR
            exact .inr ⟨r, y, rfl⟩
  · rintro (h | h)
    · exact h.trans (List.prefix_append a _).isInfix
    · exact h.trans ((List.suffix_cons c b).isInfix.trans (List.suffix_append a _).isInfix)

/-- What lies in two lists around `s` lies in one of them. -/
def Separates (w s : List α) : Prop := ∀ a b, w <:+: a ++ s ++ b ↔ w <:+: a ∨ w <:+: b

theorem separates_of [DecidableEq α] (hFirst : (s.head?.any (· ∉ w)) = true)
    (hLast : (s.getLast?.any (· ∉ w)) = true) (hNot : ¬w <:+: s) : Separates w s := by
  intro a b
  cases s with
  | nil => cases hFirst
  | cons c s =>
    have hc : c ∉ w := by simpa using hFirst
    rw [List.append_assoc, List.cons_append, infix_append_cons hc]
    apply or_congr_right
    rcases List.eq_nil_or_concat s with rfl | ⟨m, d, rfl⟩
    · rfl
    · have hd : d ∉ w := by
        rw [List.concat_eq_append, ← List.cons_append, List.getLast?_concat] at hLast
        simpa using hLast
      have hm : ¬w <:+: m := by
        intro h
        apply hNot
        rw [List.concat_eq_append]
        exact h.trans ((List.prefix_append m [d]).isInfix.trans (List.suffix_cons c _).isInfix)
      rw [List.concat_eq_append, List.append_assoc, List.singleton_append, infix_append_cons hd]
      exact or_iff_right hm

theorem infix_intercalate {sep : List α} (h : Separates w sep) (hw : w ≠ []) (parts : List (List α)) :
    w <:+: sep.intercalate parts ↔ ∃ p ∈ parts, w <:+: p := by
  induction parts with
  | nil => simp [List.intercalate, hw]
  | cons p parts ih =>
    cases parts with
    | nil => simp [List.intercalate]
    | cons q parts =>
      have hJoin : sep.intercalate (p :: q :: parts) = p ++ sep ++ sep.intercalate (q :: parts) := by
        simp [List.intercalate, List.intersperse]
      rw [hJoin, h, ih]
      simp

end Parts
