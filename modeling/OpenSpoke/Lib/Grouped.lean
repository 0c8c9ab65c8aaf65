import Mathlib.Data.List.Sort

/-!
# Lists grouped by a key

The groups stand in the order in which their keys come up first. To leave out keys before
or after grouping is the same, and so it is with sorting.
-/

namespace Grouped

variable {α β κ : Type*}

section Groups

variable [DecidableEq κ]

/-- The first element with each value of `f`. -/
def uniqueBy (f : α → κ) : List α → List α
  | [] => []
  | a :: l => a :: (uniqueBy f l).filter fun b => f b ≠ f a

theorem filter_uniqueBy (f : α → κ) (p : κ → Bool) (l : List α) :
    (uniqueBy f l).filter (fun a => p (f a)) = uniqueBy f (l.filter fun a => p (f a)) := by
  induction l with
  | nil => rfl
  | cons a l ih =>
    rw [uniqueBy]
    cases hp : p (f a) with
    | true =>
      simp only [List.filter_cons, hp, if_true, uniqueBy]
      rw [← ih, List.filter_filter, List.filter_filter]
      simp only [Bool.and_comm]
    | false =>
      simp only [List.filter_cons, hp, Bool.false_eq_true, if_false]
      rw [← ih, List.filter_filter]
      apply List.filter_congr
      intro b hb
      cases hpb : p (f b) with
      | false => rfl
      | true =>
        have hne : f b ≠ f a := by
          intro hEq
          rw [hEq, hp] at hpb
          cases hpb
        simp [hne]

def group (l : List (κ × β)) : List (κ × List β) :=
  (uniqueBy id (l.map Prod.fst)).map fun k => (k, (l.filter fun e => e.1 = k).map Prod.snd)

theorem filter_group (p : κ → Bool) (l : List (κ × β)) :
    (group l).filter (fun g => p g.1) = group (l.filter fun e => p e.1) := by
  have hKeys : (uniqueBy id (l.map Prod.fst)).filter p =
      uniqueBy id ((l.filter fun e => p e.1).map Prod.fst) := by
    have h := filter_uniqueBy id p (l.map Prod.fst)
    simp only [id] at h
    rw [h, List.filter_map]
    rfl
  unfold group
  rw [List.filter_map]
  change ((uniqueBy id (l.map Prod.fst)).filter p).map _ = _
  rw [← hKeys]
  apply List.map_congr_left
  intro k hk
  have hp : p k = true := (List.mem_filter.mp hk).2
  rw [List.filter_filter]
  congr 2
  apply List.filter_congr
  intro e _
  by_cases he : e.1 = k
  · simp [he, hp]
  · simp [he]

theorem find_filter {p : κ → Bool} {k : κ} (hk : p k = true) (l : List (κ × β)) :
    (l.filter fun e => p e.1).find? (fun e => e.1 = k) = l.find? fun e => e.1 = k := by
  rw [List.find?_filter]
  congr 1
  funext e
  by_cases he : e.1 = k
  · simp [he, hk]
  · simp [he]

end Groups

section Sorting

variable (r : α → α → Prop) [DecidableRel r] [IsTrans α r]

theorem filter_orderedInsert (p : α → Bool) (a : α) {l : List α} (hSorted : l.Pairwise r) :
    (l.orderedInsert r a).filter p =
      if p a then (l.filter p).orderedInsert r a else l.filter p := by
  induction l with
  | nil =>
    cases hp : p a <;> simp [hp]
  | cons b l ih =>
    rw [List.orderedInsert_cons]
    have ih := ih (List.pairwise_cons.mp hSorted).2
    by_cases hab : r a b
    · rw [if_pos hab]
      cases hp : p a with
      | false => simp [hp]
      | true =>
        rw [List.filter_cons_of_pos hp, if_pos rfl]
        have hAll : ∀ c ∈ (b :: l).filter p, r a c := by
          intro c hc
          rcases List.mem_cons.mp (List.mem_of_mem_filter hc) with rfl | hc
          · exact hab
          · exact IsTrans.trans _ _ _ hab ((List.pairwise_cons.mp hSorted).1 c hc)
        cases hFiltered : (b :: l).filter p with
        | nil => rfl
        | cons c rest =>
          rw [List.orderedInsert_cons, if_pos (hAll c (by simp [hFiltered]))]
    · rw [if_neg hab]
      cases hpb : p b with
      | false =>
        rw [List.filter_cons_of_neg (by simp [hpb]), List.filter_cons_of_neg (by simp [hpb]), ih]
      | true =>
        rw [List.filter_cons_of_pos hpb, List.filter_cons_of_pos hpb, ih]
        cases hp : p a with
        | false => rfl
        | true =>
          rw [if_pos rfl, if_pos rfl, List.orderedInsert_cons, if_neg hab]

theorem filter_insertionSort [Std.Total r] (p : α → Bool) (l : List α) :
    (l.insertionSort r).filter p = (l.filter p).insertionSort r := by
  induction l with
  | nil => rfl
  | cons a l ih =>
    rw [List.insertionSort_cons, filter_orderedInsert r p a (List.pairwise_insertionSort r l), ih]
    cases hp : p a with
    | false => rw [List.filter_cons_of_neg (by simp [hp])]; rfl
    | true => rw [List.filter_cons_of_pos hp, List.insertionSort_cons]; rfl

end Sorting

end Grouped
