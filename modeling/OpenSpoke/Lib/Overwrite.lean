import Mathlib.Data.List.Basic
import Mathlib.Logic.Function.Basic

/-!
# A map that is overwritten

Entries are written to a map one after the other. The last one under a key counts.
-/

namespace Overwrite

variable {ε κ δ : Type*} [DecidableEq κ]

def writes (key : ε → κ) (val : ε → δ) (f : κ → δ) (es : List ε) : κ → δ :=
  es.foldl (fun f e => Function.update f (key e) (val e)) f

variable {key : ε → κ} {val : ε → δ} {f : κ → δ} {es : List ε} {k : κ}

theorem writes_of_notMem (h : k ∉ es.map key) : writes key val f es k = f k := by
  induction es generalizing f with
  | nil => rfl
  | cons e es ih =>
    rw [List.map_cons, List.mem_cons, not_or] at h
    have hRest := @ih (Function.update f (key e) (val e)) h.2
    rw [Function.update_of_ne h.1] at hRest
    exact hRest

theorem exists_writes (h : k ∈ es.map key) : ∃ e ∈ es, key e = k ∧ writes key val f es k = val e := by
  induction es generalizing f with
  | nil => cases h
  | cons e es ih =>
    by_cases hRest : k ∈ es.map key
    · obtain ⟨e', hMem, hKey, hVal⟩ := @ih (Function.update f (key e) (val e)) hRest
      exact ⟨e', List.mem_cons_of_mem e hMem, hKey, hVal⟩
    · obtain rfl : k = key e := (List.mem_cons.mp h).resolve_right hRest
      have hVal := @writes_of_notMem _ _ _ _ key val (Function.update f (key e) (val e)) _ _ hRest
      rw [Function.update_self] at hVal
      exact ⟨e, List.mem_cons_self, rfl, hVal⟩

theorem writes_self (h : ∀ e ∈ es, f (key e) = val e) : writes key val f es = f := by
  induction es with
  | nil => rfl
  | cons e es ih =>
    have hUpdate : Function.update f (key e) (val e) = f := by
      rw [← h e List.mem_cons_self]
      exact Function.update_eq_self (key e) f
    rw [writes, List.foldl_cons, hUpdate]
    exact ih fun e' hMem => h e' (List.mem_cons_of_mem e hMem)

end Overwrite
