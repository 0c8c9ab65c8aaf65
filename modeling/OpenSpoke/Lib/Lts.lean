import Mathlib.Data.List.Basic
import Mathlib.Data.List.Induction
import Mathlib.Algebra.BigOperators.Group.List.Basic

/-!
# Runs of a labelled transition system

A system is its step function `step : σ → α → Option σ`. The label resolves
every choice of scheduling and environment, and `none` says that the label is
not enabled. Nothing here refers to a particular system.
-/

namespace Lts

variable {σ τ α β : Type*}

/-- The state after a list of labels, `none` as soon as one is not enabled. -/
def run (step : σ → α → Option σ) : σ → List α → Option σ
  | s, [] => some s
  | s, a :: acts => (step s a).bind (fun t => run step t acts)

@[simp] theorem run_nil (step : σ → α → Option σ) (s : σ) : run step s [] = some s := rfl

@[simp] theorem run_cons (step : σ → α → Option σ) (s : σ) (a : α) (acts : List α) :
    run step s (a :: acts) = (step s a).bind (fun t => run step t acts) := rfl

theorem run_append (step : σ → α → Option σ) (s : σ) (xs ys : List α) :
    run step s (xs ++ ys) = (run step s xs).bind (fun t => run step t ys) := by
  induction xs generalizing s with
  | nil => rfl
  | cons a xs ih => cases h : step s a <;> simp [h, ih]

theorem run_snoc (step : σ → α → Option σ) {s t u : σ} {acts : List α} {a : α}
    (h : run step s acts = some t) (ha : step t a = some u) :
    run step s (acts ++ [a]) = some u := by
  rw [run_append, h]
  simp [ha]

/-- States reached from `s` by steps that all meet `ok`, a condition on the
state before the step and the label taken. -/
inductive Reach (step : σ → α → Option σ) (ok : σ → α → Prop) (s : σ) : σ → Prop
  | refl : Reach step ok s s
  | tail {t u : σ} {a : α} (h : Reach step ok s t) (hOk : ok t a) (hStep : step t a = some u) :
      Reach step ok s u

/-- Every state of every run, whatever its steps. -/
abbrev Reachable (step : σ → α → Option σ) (s : σ) : σ → Prop := Reach step (fun _ _ => True) s

/-- Packaged induction: what holds at the start and survives each admitted step
holds in every state reached. -/
theorem Reach.invariant {step : σ → α → Option σ} {ok : σ → α → Prop} {inv : σ → Prop} {s t : σ}
    (hInit : inv s)
    (hStep : ∀ t a u, Reach step ok s t → inv t → ok t a → step t a = some u → inv u)
    (h : Reach step ok s t) : inv t := by
  induction h with
  | refl => exact hInit
  | tail h hOk hs ih => exact hStep _ _ _ h ih hOk hs

theorem Reach.trans {step : σ → α → Option σ} {ok : σ → α → Prop} {s t u : σ}
    (h : Reach step ok s t) (h' : Reach step ok t u) : Reach step ok s u := by
  induction h' with
  | refl => exact h
  | tail _ hOk hs ih => exact .tail ih hOk hs

/-- `P` holds at every step of the run of `acts` from `s`. -/
def Along (step : σ → α → Option σ) (P : σ → α → Prop) : σ → List α → Prop
  | _, [] => True
  | s, a :: acts => P s a ∧ ∀ t, step s a = some t → Along step P t acts

theorem along_snoc (step : σ → α → Option σ) (P : σ → α → Prop) {s t : σ} {acts : List α} (a : α)
    (h : run step s acts = some t) :
    Along step P s (acts ++ [a]) ↔ Along step P s acts ∧ P t a := by
  induction acts generalizing s with
  | nil =>
    cases h
    simp [Along]
  | cons b acts ih =>
    obtain ⟨u, hb, hu⟩ := Option.bind_eq_some_iff.mp h
    simp only [List.cons_append, Along, hb, Option.some.injEq, forall_eq', ih hu, and_assoc]

theorem Along.at {step : σ → α → Option σ} {P : σ → α → Prop} {s t : σ} {before after : List α}
    {a : α} (h : Along step P s (before ++ a :: after)) (hRun : run step s before = some t) :
    P t a := by
  induction before generalizing s with
  | nil => cases hRun; exact h.1
  | cons b before ih =>
    obtain ⟨u, hb, hu⟩ := Option.bind_eq_some_iff.mp hRun
    exact ih (h.2 u hb) hu

theorem Along.of_forall {step : σ → α → Option σ} {P : σ → α → Prop} {s : σ} {acts : List α}
    (h : ∀ a ∈ acts, ∀ t, P t a) : Along step P s acts := by
  induction acts generalizing s with
  | nil => trivial
  | cons a acts ih =>
    exact ⟨h a List.mem_cons_self s, fun t _ => ih fun b hb => h b (List.mem_cons_of_mem _ hb)⟩

instance decidableAlong (step : σ → α → Option σ) (P : σ → α → Prop) [∀ s a, Decidable (P s a)] :
    (s : σ) → (acts : List α) → Decidable (Along step P s acts)
  | _, [] => .isTrue trivial
  | s, a :: acts =>
    match h : step s a with
    | none => decidable_of_iff (P s a) (by simp [Along, h])
    | some t =>
      have := decidableAlong step P t acts
      decidable_of_iff (P s a ∧ Along step P t acts) (by simp [Along, h])

/-- A run checked by evaluation. -/
theorem exists_run_of_any (step : σ → α → Option σ) (s : σ) (acts : List α) (p : σ → Bool)
    (h : (run step s acts).any p = true) : ∃ t, run step s acts = some t ∧ p t = true := by
  cases hRun : run step s acts with
  | none => simp [hRun] at h
  | some t => exact ⟨t, rfl, by simpa [hRun] using h⟩

/-- The sum of `weight` over the steps of the run of `acts` from `s`. -/
def tally (step : σ → α → Option σ) (weight : σ → α → Nat) : σ → List α → Nat
  | _, [] => 0
  | s, a :: acts => weight s a + ((step s a).elim 0 fun t => tally step weight t acts)

theorem tally_snoc (step : σ → α → Option σ) (weight : σ → α → Nat) {s t : σ} {acts : List α}
    (a : α) (h : run step s acts = some t) :
    tally step weight s (acts ++ [a]) = tally step weight s acts + weight t a := by
  induction acts generalizing s with
  | nil =>
    cases h
    cases hs : step t a <;> simp [tally, hs]
  | cons b acts ih =>
    obtain ⟨u, hb, hu⟩ := Option.bind_eq_some_iff.mp h
    simp only [List.cons_append, tally, hb, Option.elim_some, ih hu, Nat.add_assoc]

/-- What `emit` puts out over the steps of the run of `acts` from `s`, oldest first. -/
def trace (step : σ → α → Option σ) (emit : σ → α → List β) : σ → List α → List β
  | _, [] => []
  | s, a :: acts => emit s a ++ ((step s a).elim [] fun t => trace step emit t acts)

theorem trace_snoc (step : σ → α → Option σ) (emit : σ → α → List β) {s t : σ} {acts : List α}
    (a : α) (h : run step s acts = some t) :
    trace step emit s (acts ++ [a]) = trace step emit s acts ++ emit t a := by
  induction acts generalizing s with
  | nil =>
    cases h
    cases hs : step t a <;> simp [trace, hs]
  | cons b acts ih =>
    obtain ⟨u, hb, hu⟩ := Option.bind_eq_some_iff.mp h
    simp only [List.cons_append, trace, hb, Option.elim_some, ih hu, List.append_assoc]

/-- Induction on a run from its end: the step taken last is split off. -/
theorem run_induction {step : σ → α → Option σ} {s t : σ} {acts : List α}
    {motive : List α → σ → Prop} (h : run step s acts = some t) (nil : motive [] s)
    (snoc : ∀ acts t a u, run step s acts = some t → motive acts t → step t a = some u →
      motive (acts ++ [a]) u) : motive acts t := by
  induction acts using List.reverseRecOn generalizing t with
  | nil => cases h; exact nil
  | append_singleton acts a ih =>
    rw [run_append] at h
    obtain ⟨u, hu, ha⟩ := Option.bind_eq_some_iff.mp h
    have ha : step u a = some t := by simpa using ha
    exact snoc acts u a t hu (ih hu) ha

theorem Reach.of_run {step : σ → α → Option σ} {ok : σ → α → Prop} {s t : σ} {acts : List α}
    (h : run step s acts = some t) (hAlong : Along step ok s acts) : Reach step ok s t := by
  refine run_induction (motive := fun acts t => Along step ok s acts → Reach step ok s t) h
    (fun _ => .refl) ?_ hAlong
  intro acts t a u hRun ih hs hAlong
  obtain ⟨hBefore, hOk⟩ := (along_snoc step ok a hRun).mp hAlong
  exact .tail (ih hBefore) hOk hs

/-- Two conditions that agree at every state met before either fails agree along
the whole run. -/
theorem along_congr {step : σ → α → Option σ} {P Q : σ → α → Prop} (inv : σ → Prop)
    (hIff : ∀ s a, inv s → (P s a ↔ Q s a))
    (hStep : ∀ s a t, inv s → Q s a → step s a = some t → inv t)
    {s : σ} (h : inv s) (acts : List α) : Along step P s acts ↔ Along step Q s acts := by
  induction acts generalizing s with
  | nil => exact Iff.rfl
  | cons a acts ih =>
    rw [Along, Along, hIff s a h]
    refine and_congr_right fun hQ => forall_congr' fun t => imp_congr_right fun hs => ?_
    exact ih (hStep s a t h hQ hs)

/-- Steps that meet `P` keep `inv`, and there every step meets `Q`. -/
theorem Along.of_invariant {step : σ → α → Option σ} {P Q : σ → α → Prop} (inv : σ → Prop)
    (hImp : ∀ s a, inv s → P s a → Q s a)
    (hStep : ∀ s a t, inv s → P s a → step s a = some t → inv t)
    {s : σ} (h : inv s) {acts : List α} (hAlong : Along step P s acts) : Along step Q s acts := by
  induction acts generalizing s with
  | nil => trivial
  | cons a acts ih =>
    exact ⟨hImp s a h hAlong.1, fun t hs => ih (hStep s a t h hAlong.1 hs) (hAlong.2 t hs)⟩

theorem Along.mono {step : σ → α → Option σ} {P Q : σ → α → Prop} (hImp : ∀ s a, P s a → Q s a)
    {s : σ} {acts : List α} (h : Along step P s acts) : Along step Q s acts :=
  h.of_invariant (fun _ => True) (fun s a _ => hImp s a) (fun _ _ _ _ _ _ => trivial) trivial

/-- Steps that a relation does not see can be left out of a run. -/
theorem run_filter {step : σ → α → Option σ} {ok : σ → α → Prop} {seen : α → Bool}
    {R : σ → σ → Prop}
    (hHidden : ∀ s s' a t, R s s' → ok s a → seen a = false → step s a = some t → R t s')
    (hSeen : ∀ s s' a t, R s s' → seen a = true → step s a = some t → ∃ t', step s' a = some t' ∧ R t t')
    {s s' t : σ} {acts : List α} (hR : R s s') (hRun : run step s acts = some t)
    (hOk : Along step ok s acts) : ∃ t', run step s' (acts.filter seen) = some t' ∧ R t t' := by
  induction acts generalizing s s' with
  | nil =>
    cases hRun
    exact ⟨s', rfl, hR⟩
  | cons a acts ih =>
    obtain ⟨u, ha, hu⟩ := Option.bind_eq_some_iff.mp hRun
    cases hSee : seen a with
    | false =>
      rw [List.filter_cons_of_neg (by simp [hSee])]
      exact ih (hHidden s s' a u hR hOk.1 hSee ha) hu (hOk.2 u ha)
    | true =>
      obtain ⟨u', ha', hR'⟩ := hSeen s s' a u hR hSee ha
      obtain ⟨t', hRun', hEnd⟩ := ih hR' hu (hOk.2 u ha)
      rw [List.filter_cons_of_pos hSee]
      exact ⟨t', by rw [run_cons, ha', Option.bind_some, hRun'], hEnd⟩

/-! ## Refinement with stutter steps -/

/-- `f` and `label` carry each step of `step` to a step of `abs`, or to none. -/
def Refines (step : σ → α → Option σ) (abs : τ → β → Option τ) (inv : σ → Prop) (f : σ → τ)
    (label : σ → α → Option β) : Prop :=
  ∀ s a t, inv s → step s a = some t →
    (label s a).elim (f t = f s) fun b => abs (f s) b = some (f t)

end Lts
