import Mathlib.Data.List.Infix

/-!
# The leftmost match

A search tries a matcher at every place of a list, from the left. An occurrence
that holds all others has the leftmost match at its beginning.
-/

namespace Leftmost

variable {α β : Type*}

/-- What `at'` gives at the first place where it gives something. -/
def search (at' : List α → Option β) : List α → Option β
  | [] => at' []
  | c :: t => (at' (c :: t)).or (search at' t)

theorem search_nil (at' : List α → Option β) : search at' [] = at' [] := rfl

theorem search_cons (at' : List α → Option β) (c : α) (t : List α) :
    search at' (c :: t) = (at' (c :: t)).or (search at' t) := rfl

theorem search_eq_none_iff {at' : List α → Option β} {t : List α} :
    search at' t = none ↔ ∀ rest, rest <:+ t → at' rest = none := by
  induction t with
  | nil => simp [search_nil]
  | cons c t ih =>
    rw [search_cons, Option.or_eq_none_iff, ih]
    constructor
    · rintro ⟨hHere, hLater⟩ rest hRest
      obtain rfl | hRest := List.suffix_cons_iff.mp hRest
      · exact hHere
      · exact hLater rest hRest
    · intro h
      exact ⟨h _ List.suffix_rfl, fun rest hRest => h rest (hRest.trans (List.suffix_cons c t))⟩

theorem exists_of_search {at' : List α → Option β} {t : List α} {x : β} (h : search at' t = some x) :
    ∃ front rest, t = front ++ rest ∧ at' rest = some x := by
  induction t with
  | nil => exact ⟨[], [], rfl, h⟩
  | cons c t ih =>
    rw [search_cons, Option.or_eq_some_iff] at h
    obtain hHere | ⟨-, hLater⟩ := h
    · exact ⟨[], _, rfl, hHere⟩
    · obtain ⟨front, rest, rfl, hRest⟩ := ih hLater
      exact ⟨c :: front, rest, rfl, hRest⟩

theorem search_here {at' : List α → Option β} {t : List α} {x : β} (h : at' t = some x) :
    search at' t = some x := by
  cases t with
  | nil => exact h
  | cons c t => rw [search_cons, h, Option.some_or]

theorem search_append {at' : List α → Option β} {front rest : List α} {x : β}
    (hBefore : ∀ early late, front = early ++ late → late ≠ [] → at' (late ++ rest) = none)
    (h : at' rest = some x) : search at' (front ++ rest) = some x := by
  induction front with
  | nil => exact search_here h
  | cons c front ih =>
    have hHere : at' (c :: (front ++ rest)) = none := hBefore [] (c :: front) rfl (by simp)
    rw [List.cons_append, search_cons, hHere, Option.none_or]
    refine ih fun early late hEq hLate => ?_
    exact hBefore (c :: early) late (by rw [hEq, List.cons_append]) hLate

/-- What follows does not matter to the matches that begin in front of it. -/
theorem search_append_of_local {at' : List α → Option β} {front rest : List α} (hNil : at' [] = none)
    (h : ∀ l, l <:+ front → l ≠ [] → at' (l ++ rest) = at' l) :
    search at' (front ++ rest) = (search at' front).or (search at' rest) := by
  induction front with
  | nil => rw [List.nil_append, search_nil, hNil, Option.none_or]
  | cons c front ih =>
    have hHere : at' (c :: (front ++ rest)) = at' (c :: front) :=
      h (c :: front) List.suffix_rfl (List.cons_ne_nil c front)
    rw [List.cons_append, search_cons, search_cons, hHere, Option.or_assoc,
      ih fun l hl => h l (hl.trans (List.suffix_cons c front))]

theorem infix_of_within {a w b a' w' b' : List α} (hEq : a ++ (w ++ b) = a' ++ (w' ++ b'))
    (hFrom : a.length ≤ a'.length) (hTo : a'.length + w'.length ≤ a.length + w.length) :
    w' <:+: w := by
  obtain ⟨d, rfl⟩ : ∃ d, a' = a ++ d := by
    have hPrefix : a <+: a' :=
      List.prefix_of_prefix_length_le (List.prefix_append a (w ++ b)) (hEq ▸ List.prefix_append a' _)
        hFrom
    obtain ⟨d, hd⟩ := hPrefix
    exact ⟨d, hd.symm⟩
  rw [List.append_assoc] at hEq
  have hRest : w ++ b = d ++ w' ++ b' := by
    rw [List.append_assoc]
    exact List.append_cancel_left hEq
  have hLen : (d ++ w').length ≤ w.length := by
    rw [List.length_append] at hTo ⊢
    omega
  have hPrefix : d ++ w' <+: w :=
    List.prefix_of_prefix_length_le (hRest ▸ List.prefix_append _ _) (List.prefix_append w b) hLen
  exact (List.suffix_append d w').isInfix.trans hPrefix.isInfix

end Leftmost
