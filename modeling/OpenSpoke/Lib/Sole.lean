import Mathlib.Logic.Function.Basic

/-!
# One flag in a group

The members of a group under their keys, each with a flag or without one. If there are any,
exactly one of them has the flag.
-/

namespace Sole

variable {κ : Type*}

/-- A flag exactly once, if there are members at all. -/
def One (v : κ → Option Bool) : Prop :=
  (∃ k b, v k = some b) → ∃ k, v k = some true ∧ ∀ l, v l = some true → l = k

variable {v : κ → Option Bool} {k : κ}

theorem one_top (hFlag : v k = some true) (hOthers : ∀ l, l ≠ k → v l ≠ some true) : One v := by
  intro _
  refine ⟨k, hFlag, fun l hl => ?_⟩
  exact not_imp_not.mp (hOthers l) hl

theorem One.others (h : One v) (hFlag : v k = some true) {l : κ} (hl : v l = some true) : l = k := by
  obtain ⟨m, -, hUnique⟩ := h ⟨k, true, hFlag⟩
  rw [hUnique l hl, hUnique k hFlag]

variable [DecidableEq κ]

theorem one_update_true (h : One v)
    (hOthers : v k = some true ∨ ∀ l, l ≠ k → v l = none) :
    One (Function.update v k (some true)) := by
  apply one_top (k := k) (Function.update_self _ _ _)
  intro l hl
  rw [Function.update_of_ne hl]
  intro hFlag
  rcases hOthers with hMine | hNone
  · exact hl (h.others hMine hFlag)
  · rw [hNone l hl] at hFlag
    cases hFlag

theorem exists_one_update {b : Option Bool} (hb : b ≠ some true) {m : κ} (hm : v m = some true)
    (hUnique : ∀ l, v l = some true → l = m) (hNe : m ≠ k) :
    ∃ m, Function.update v k b m = some true ∧ ∀ l, Function.update v k b l = some true → l = m := by
  refine ⟨m, ?_, fun l hl => ?_⟩
  · rw [Function.update_of_ne hNe]
    exact hm
  · by_cases hk : l = k
    · rw [hk, Function.update_self] at hl
      exact absurd hl hb
    · rw [Function.update_of_ne hk] at hl
      exact hUnique l hl

theorem one_update_false (h : One v) (hMine : v k ≠ some true)
    (hOther : ∃ l b, l ≠ k ∧ v l = some b) : One (Function.update v k (some false)) := by
  obtain ⟨l, b, hl, hb⟩ := hOther
  obtain ⟨m, hm, hUnique⟩ := h ⟨l, b, hb⟩
  have hNe : m ≠ k := by
    rintro rfl
    exact hMine hm
  exact fun _ => exists_one_update (by decide) hm hUnique hNe

theorem one_update_none (h : One v) (hMine : v k = some true → ∀ l, l ≠ k → v l = none) :
    One (Function.update v k none) := by
  rintro ⟨l, b, hb⟩
  have hl : l ≠ k := by
    rintro rfl
    rw [Function.update_self] at hb
    cases hb
  rw [Function.update_of_ne hl] at hb
  obtain ⟨m, hm, hUnique⟩ := h ⟨l, b, hb⟩
  have hNe : m ≠ k := by
    rintro rfl
    rw [hMine hm l hl] at hb
    cases hb
  exact exists_one_update (by decide) hm hUnique hNe

end Sole
