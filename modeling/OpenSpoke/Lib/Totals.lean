import Mathlib.Algebra.BigOperators.Group.Finset.Basic
import Mathlib.Algebra.Order.BigOperators.Group.Finset

/-!
# Totals of labelled members

Each member of a finite population carries a label and holds a finite set. The
total of a label is the number of things its members hold.
-/

namespace Totals

variable {κ ι τ : Type*} [DecidableEq κ]

def total (members : Finset ι) (label : ι → κ) (held : ι → Finset τ) (k : κ) : Nat :=
  ∑ i ∈ members, if label i = k then (held i).card else 0

/-- The share of one member. -/
def share (label : ι → κ) (held : ι → Finset τ) (k : κ) (i : ι) : Nat :=
  if label i = k then (held i).card else 0

section

variable {members : Finset ι} {label label' : ι → κ} {held held' : ι → Finset τ} {k : κ}

theorem share_congr {i : ι} (hHeld : held' i = held i) (hLabel : label' i = label i ∨ held i = ∅) :
    share label' held' k i = share label held k i := by
  rcases hLabel with hLabel | hEmpty
  · rw [share, share, hHeld, hLabel]
  · simp [share, hHeld, hEmpty]

theorem total_congr (h : ∀ i ∈ members, share label' held' k i = share label held k i) :
    total members label' held' k = total members label held k := Finset.sum_congr rfl h

/-- When one member changes, the total changes by its share. -/
theorem total_update [DecidableEq ι] {i : ι} (hi : i ∈ members)
    (h : ∀ j ∈ members, j ≠ i → share label' held' k j = share label held k j) :
    total members label' held' k + share label held k i =
      total members label held k + share label' held' k i := by
  have hRest : ∑ j ∈ members.erase i, share label' held' k j =
      ∑ j ∈ members.erase i, share label held k j :=
    Finset.sum_congr rfl fun j hj => h j (Finset.mem_of_mem_erase hj) (Finset.ne_of_mem_erase hj)
  have hNew : total members label' held' k =
      share label' held' k i + ∑ j ∈ members.erase i, share label' held' k j :=
    (Finset.add_sum_erase members _ hi).symm
  have hOld : total members label held k =
      share label held k i + ∑ j ∈ members.erase i, share label held k j :=
    (Finset.add_sum_erase members _ hi).symm
  omega

theorem total_gain [DecidableEq ι] [DecidableEq τ] {i : ι} {x : τ} (hi : i ∈ members)
    (hLabel : label' i = label i) (hHeld : held' i = insert x (held i)) (hx : x ∉ held i)
    (h : ∀ j ∈ members, j ≠ i → share label' held' k j = share label held k j) :
    total members label' held' k = total members label held k + if label i = k then 1 else 0 := by
  have hUpdate := total_update hi h
  simp only [share, hLabel, hHeld, Finset.card_insert_of_notMem hx] at hUpdate
  split_ifs at hUpdate ⊢ <;> omega

theorem total_loss [DecidableEq ι] [DecidableEq τ] {i : ι} {x : τ} (hi : i ∈ members)
    (hLabel : label' i = label i) (hHeld : held' i = (held i).erase x) (hx : x ∈ held i)
    (h : ∀ j ∈ members, j ≠ i → share label' held' k j = share label held k j) :
    total members label' held' k + (if label i = k then 1 else 0) = total members label held k := by
  have hBack : held i = insert x (held' i) := by rw [hHeld, Finset.insert_erase hx]
  rw [total_gain hi hLabel.symm hBack (by simp [hHeld]) fun j hj hne => (h j hj hne).symm, hLabel]

theorem total_insert [DecidableEq ι] {i : ι} (hi : i ∉ members) (hEmpty : held i = ∅) :
    total (insert i members) label held k = total members label held k := by
  simp [total, Finset.sum_insert hi, hEmpty]

theorem total_eq_zero (h : ∀ i ∈ members, label i = k → held i = ∅) :
    total members label held k = 0 := by
  refine Finset.sum_eq_zero fun i hi => ?_
  split
  · next hLabel => rw [h i hi hLabel, Finset.card_empty]
  · rfl

theorem total_le_total {σ : Type*} {other : ι → Finset σ}
    (h : ∀ i ∈ members, (held i).card ≤ (other i).card) :
    total members label held k ≤ total members label other k := by
  refine Finset.sum_le_sum fun i hi => ?_
  split
  · exact h i hi
  · exact le_rfl

end

end Totals
