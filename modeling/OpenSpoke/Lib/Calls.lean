import Mathlib.Data.List.GetD
import Mathlib.Logic.Function.Basic

/-!
# Calls in the order of their begin

Where each call is, as a list. A call that has not begun is where a call ends.
-/

namespace Calls

variable {π : Type*} {calls : List π} {ended pc : π} {n : Nat}

theorem lt_of_ne (h : calls.getD n ended ≠ ended) : n < calls.length := by
  by_contra hLen
  exact h (List.getD_eq_default _ _ (Nat.not_lt.mp hLen))

theorem getD_set (h : n < calls.length) (pc ended : π) :
    (fun m => (calls.set n pc).getD m ended) = Function.update (calls.getD · ended) n pc := by
  funext m
  by_cases hm : m = n
  · subst hm
    simp [h]
  · simp [hm, Ne.symm hm]

theorem getD_append (calls : List π) (pc ended : π) :
    (fun m => (calls ++ [pc]).getD m ended) =
      Function.update (calls.getD · ended) calls.length pc := by
  funext m
  by_cases hm : m = calls.length
  · subst hm
    simp
  · rw [Function.update_of_ne hm]
    rcases Nat.lt_or_gt_of_ne hm with hLt | hGt
    · exact List.getD_append _ _ _ _ hLt
    · rw [List.getD_eq_default _ _ (Nat.le_of_lt hGt), List.getD_eq_default]
      rw [List.length_append, List.length_singleton]
      omega

theorem forall_iff {p : Nat → π → Prop} (hEnded : ∀ m, p m ended) :
    (∀ m < calls.length, p m (calls.getD m ended)) ↔ ∀ m, p m (calls.getD m ended) := by
  constructor
  · intro h m
    by_cases hm : m < calls.length
    · exact h m hm
    · rw [List.getD_eq_default _ _ (Nat.not_lt.mp hm)]
      exact hEnded m
  · intro h m _
    exact h m

theorem mem_of_lt (h : n < calls.length) : calls.getD n ended ∈ calls := by
  rw [List.getD_eq_getElem _ _ h]
  exact List.getElem_mem _

end Calls
