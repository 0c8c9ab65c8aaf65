import Mathlib.Logic.Function.Basic

/-!
# A pull of several stores

`opensearch_migrate_pull` and `knowledge_migrate_pull` take the names of their request one
after the other and file what they report under each. An error that they do not expect ends
them.
-/

namespace OpenSpoke.Migrate

/-- What is reported of one name. -/
structure Report (ε : Type*) where
  fetched : Nat
  upserted : Nat
  failed : Nat
  errors : List ε
  dryRun : Bool

namespace Report

variable {ε : Type*} (r : Report ε)

/-- At most five errors are kept. -/
def note (e : ε) : Report ε :=
  if r.errors.length < 5 then { r with errors := r.errors ++ [e] } else r

def fail (n : Nat) (e : ε) : Report ε := note { r with failed := r.failed + n } e

/-- Nothing has failed and there is no error. -/
structure Clean : Prop where
  failed : r.failed = 0
  errors : r.errors = []
  dryRun : r.dryRun = false

variable {r} {n : Nat} {e : ε}

theorem fail_not_clean (hn : 0 < n) : ¬(r.fail n e).Clean := by
  intro h
  have hFailed : (r.fail n e).failed = r.failed + n := by
    unfold fail note
    split <;> rfl
  have hZero := h.failed
  omega

end Report

variable {ν α σ ρ : Type*} [DecidableEq ν]

structure Pulled (ν σ ρ : Type*) where
  store : σ
  summary : ν → Option ρ
  ok : Bool

/-- The turn of a name has no result while it runs, and no report if it raises. -/
def pull (turn : ν → α → σ → Option (σ × Option ρ)) :
    List (ν × α) → σ → (ν → Option ρ) → Option (Pulled ν σ ρ)
  | [], s, summary => some ⟨s, summary, true⟩
  | (name, a) :: rest, s, summary =>
    match turn name a s with
    | none => none
    | some (t, none) => some ⟨t, summary, false⟩
    | some (t, some r) => pull turn rest t (Function.update summary name (some r))

variable {turn : ν → α → σ → Option (σ × Option ρ)} {l : List (ν × α)} {s : σ}
  {summary : ν → Option ρ} {p : Pulled ν σ ρ}

theorem pull_isSome (hTurn : ∀ c ∈ l, ∀ s, (turn c.1 c.2 s).isSome) :
    (pull turn l s summary).isSome := by
  induction l generalizing s summary with
  | nil => rfl
  | cons c rest ih =>
    have hHead := hTurn c List.mem_cons_self s
    simp only [pull]
    split
    next hNone =>
      rw [hNone] at hHead
      cases hHead
    · rfl
    · exact ih fun c' hMem => hTurn c' (List.mem_cons_of_mem c hMem)

end OpenSpoke.Migrate
