import Mathlib.Init

/-!
# A loop of at most so many rounds

A round gives the state for the next one or ends the loop. When the rounds are used up, the
loop ends by another way.
-/

namespace Rounds

variable {σ ω : Type*} (body : Nat → σ → σ ⊕ ω) (last : σ → ω)

/-- So many rounds, from the one with a number on. -/
def loop : Nat → Nat → σ → ω
  | 0, _, s => last s
  | n + 1, k, s =>
    match body k s with
    | .inl s => loop n (k + 1) s
    | .inr out => out

/-- The state after so many rounds, if the loop goes on as long. -/
def after (s : σ) : Nat → Option σ
  | 0 => some s
  | n + 1 =>
    match after s n with
    | some t => (body n t).getLeft?
    | none => none

variable {body last}

/-- An invariant of the rounds gives what holds of every end. -/
theorem loop_rule (inv : Nat → σ → Prop) (post : ω → Prop) {rounds : Nat}
    (hNext : ∀ k s t, k < rounds → inv k s → body k s = .inl t → inv (k + 1) t)
    (hEnd : ∀ k s out, k < rounds → inv k s → body k s = .inr out → post out)
    (hLast : ∀ s, inv rounds s → post (last s)) {n k : Nat} {s : σ} (hRounds : k + n = rounds)
    (h : inv k s) : post (loop body last n k s) := by
  induction n generalizing k s with
  | zero =>
    obtain rfl : k = rounds := by omega
    exact hLast s h
  | succ n ih =>
    rw [loop]
    cases hBody : body k s with
    | inl t => exact ih (by omega) (hNext k s t (by omega) h hBody)
    | inr out => exact hEnd k s out (by omega) h hBody

theorem after_succ {s t u : σ} {k : Nat} (h : after body s k = some t) (hBody : body k t = .inl u) :
    after body s (k + 1) = some u := by
  rw [after, h]
  exact congrArg Sum.getLeft? hBody

theorem loop_after (last : σ → ω) {s t : σ} {k : Nat} (h : after body s k = some t) (n : Nat) :
    loop body last (k + n) 0 s = loop body last n k t := by
  induction k generalizing t n with
  | zero =>
    rw [after, Option.some.injEq] at h
    rw [h, Nat.zero_add]
  | succ k ih =>
    rw [after] at h
    cases hBefore : after body s k with
    | none =>
      rw [hBefore] at h
      cases h
    | some u =>
      rw [hBefore] at h
      have hBody := Sum.getLeft?_eq_some_iff.mp h
      rw [Nat.add_assoc, Nat.add_comm 1 n, ih hBefore, loop, hBody]

end Rounds
