import Mathlib.Data.Finset.Card
import Mathlib.Data.List.AList
import Mathlib.Logic.Function.Basic
import OpenSpoke.Lib.Lts

/-!
# Registries with displacement

A registry holds at most one member for each key. A newcomer that finds a
holder shuts it first and then takes the slot; the two accesses to the slot are
separate steps, so other members can act between them. Members count themselves
in once they hold the slot, and a sweep takes a shut holder out and counts one
member off.
-/

namespace Registry

variable {κ ι : Type*}

inductive Stage (ι : Type*)
  | outside
  /-- knows its key and has not looked at the slot -/
  | arriving
  /-- found `old` in the slot, about to shut it -/
  | shutting (old : ι)
  /-- shut `old`, about to take the slot -/
  | entering (old : ι)
  /-- took the slot, not yet counted -/
  | pending
  | counted
  /-- shut itself, about to sweep its slot -/
  | closing
  | left
  deriving DecidableEq

/-- The member has taken the slot at some time. -/
def Stage.entered : Stage ι → Bool
  | .pending | .counted | .closing | .left => true
  | _ => false

structure State (κ ι : Type*) where
  slots : AList (fun _ : κ => ι)
  key : ι → κ
  stage : ι → Stage ι
  shut : ι → Bool
  gauge : Int

inductive Act (κ ι : Type*)
  | arrive (i : ι) (k : κ)
  | look (i : ι)
  | shutOld (i : ι)
  | enter (i : ι)
  | count (i : ι)
  | shutSelf (i : ι)
  | leave (i : ι)

structure Empty (s : State κ ι) : Prop where
  slots : s.slots = ∅
  outside : ∀ i, s.stage i = .outside
  gauge : s.gauge = 0

section Steps

variable [DecidableEq κ] [DecidableEq ι]

/-- Take the holder of `k` out if it is shut. -/
def sweep (s : State κ ι) (k : κ) : State κ ι :=
  match s.slots.lookup k with
  | some i => if s.shut i then { s with slots := s.slots.erase k, gauge := s.gauge - 1 } else s
  | none => s

omit [DecidableEq ι] in
@[simp] theorem sweep_stage (s : State κ ι) (k : κ) : (sweep s k).stage = s.stage := by
  unfold sweep
  split
  · split <;> rfl
  · rfl

def step (s : State κ ι) : Act κ ι → Option (State κ ι)
  | .arrive i k =>
    if s.stage i = .outside then
      some { s with
        key := Function.update s.key i k
        shut := Function.update s.shut i false
        stage := Function.update s.stage i .arriving }
    else none
  | .look i =>
    if s.stage i = .arriving then
      match s.slots.lookup (s.key i) with
      | some old => some { s with stage := Function.update s.stage i (.shutting old) }
      | none => some { s with
          slots := s.slots.insert (s.key i) i
          stage := Function.update s.stage i .pending }
    else none
  | .shutOld i =>
    match s.stage i with
    | .shutting old => some { s with
        shut := Function.update s.shut old true
        stage := Function.update s.stage i (.entering old) }
    | _ => none
  | .enter i =>
    match s.stage i with
    | .entering _ => some { s with
        slots := s.slots.insert (s.key i) i
        stage := Function.update s.stage i .pending }
    | _ => none
  | .count i =>
    if s.stage i = .pending then
      some { s with gauge := s.gauge + 1, stage := Function.update s.stage i .counted }
    else none
  | .shutSelf i =>
    if s.stage i = .counted then
      some { s with
        shut := Function.update s.shut i true
        stage := Function.update s.stage i .closing }
    else none
  | .leave i =>
    if s.stage i = .closing then
      some { sweep s (s.key i) with stage := Function.update s.stage i .left }
    else none

/-- What a step does. -/
inductive Move (s : State κ ι) : Act κ ι → State κ ι → Prop
  | arrive {i : ι} (k : κ) (hStage : s.stage i = .outside) :
    Move s (.arrive i k) { s with
      key := Function.update s.key i k
      shut := Function.update s.shut i false
      stage := Function.update s.stage i .arriving }
  | found {i old : ι} (hStage : s.stage i = .arriving) (hHeld : s.slots.lookup (s.key i) = some old) :
    Move s (.look i) { s with stage := Function.update s.stage i (.shutting old) }
  | take {i : ι} (hStage : s.stage i = .arriving) (hFree : s.slots.lookup (s.key i) = none) :
    Move s (.look i) { s with
      slots := s.slots.insert (s.key i) i
      stage := Function.update s.stage i .pending }
  | shutOld {i old : ι} (hStage : s.stage i = .shutting old) :
    Move s (.shutOld i) { s with
      shut := Function.update s.shut old true
      stage := Function.update s.stage i (.entering old) }
  | enter {i old : ι} (hStage : s.stage i = .entering old) :
    Move s (.enter i) { s with
      slots := s.slots.insert (s.key i) i
      stage := Function.update s.stage i .pending }
  | count {i : ι} (hStage : s.stage i = .pending) :
    Move s (.count i) { s with
      gauge := s.gauge + 1
      stage := Function.update s.stage i .counted }
  | shutSelf {i : ι} (hStage : s.stage i = .counted) :
    Move s (.shutSelf i) { s with
      shut := Function.update s.shut i true
      stage := Function.update s.stage i .closing }
  | leave {i : ι} (hStage : s.stage i = .closing) :
    Move s (.leave i) { sweep s (s.key i) with stage := Function.update s.stage i .left }

theorem step_move {s t : State κ ι} {a : Act κ ι} (h : step s a = some t) : Move s a t := by
  cases a with
  | look i =>
    simp only [step, Option.ite_none_right_eq_some] at h
    obtain ⟨hStage, h⟩ := h
    split at h
    next old hHeld =>
      cases h
      exact .found hStage hHeld
    next hFree =>
      cases h
      exact .take hStage hFree
  | shutOld i =>
    simp only [step] at h
    split at h
    next old hStage =>
      cases h
      exact .shutOld hStage
    · cases h
  | enter i =>
    simp only [step] at h
    split at h
    next old hStage =>
      cases h
      exact .enter hStage
    · cases h
  | _ =>
    simp only [step, Option.ite_none_right_eq_some, Option.some.injEq] at h
    obtain ⟨hStage, rfl⟩ := h
    constructor
    exact hStage

structure Wf (s : State κ ι) : Prop where
  holder : ∀ k i, s.slots.lookup k = some i → s.key i = k ∧ (s.stage i).entered = true
  shutting : ∀ i old, s.stage i = .shutting old →
    s.key old = s.key i ∧ (s.stage old).entered = true
  entering : ∀ i old, s.stage i = .entering old →
    s.key old = s.key i ∧ (s.stage old).entered = true ∧ s.shut old = true
  closing : ∀ i, s.stage i = .closing → s.shut i = true
  left : ∀ i, s.stage i = .left → s.shut i = true ∧ s.slots.lookup (s.key i) ≠ some i

/-- An entered member that is not shut holds its slot. -/
def OpenHolds (s : State κ ι) : Prop :=
  ∀ i, (s.stage i).entered = true → s.shut i = false → s.slots.lookup (s.key i) = some i

/-- When a member takes the slot after shutting `old`, the slot is empty or
holds `old` or some other member that is shut. -/
def EntersOverShut (s : State κ ι) : Act κ ι → Prop
  | .enter i => ∀ old, s.stage i = .entering old →
      ∀ j, s.slots.lookup (s.key i) = some j → j = old ∨ s.shut j = true
  | _ => True

/-- Whoever loses its slot in the step is shut. -/
def EvictsShut (s t : State κ ι) : Prop :=
  ∀ k i, s.slots.lookup k = some i → t.slots.lookup k ≠ some i → s.shut i = true

/-- The number of slots that the step takes from another holder. -/
def overwrites (s : State κ ι) : Act κ ι → Nat
  | .enter i => if (s.slots.lookup (s.key i)).isSome then 1 else 0
  | _ => 0

/-- The gauge is the number of taken slots, but for the members not yet counted
and the slots that were overwritten. -/
def Counts (s : State κ ι) (overwritten : Nat) : Prop :=
  ∃ pending : Finset ι, (∀ i, i ∈ pending ↔ s.stage i = .pending) ∧
    s.gauge + pending.card = s.slots.keys.length + overwritten

/-! ## Slots of the map -/

omit [DecidableEq ι] in
theorem lookup_insert_eq (m : AList (fun _ : κ => ι)) (k k' : κ) (i : ι) :
    (m.insert k i).lookup k' = if k' = k then some i else m.lookup k' := by
  split
  · next h => rw [h, AList.lookup_insert]
  · next h => exact AList.lookup_insert_ne h

omit [DecidableEq ι] in
theorem lookup_erase_eq (m : AList (fun _ : κ => ι)) (k k' : κ) :
    (m.erase k).lookup k' = if k' = k then none else m.lookup k' := by
  split
  · next h => rw [h, AList.lookup_erase]
  · next h => exact AList.lookup_erase_ne h

omit [DecidableEq ι] in
theorem length_insert (m : AList (fun _ : κ => ι)) (k : κ) (i : ι) :
    (m.insert k i).keys.length + (if (m.lookup k).isSome then 1 else 0) = m.keys.length + 1 := by
  rw [AList.keys_insert, List.length_cons]
  split
  · next h =>
    have hMem : k ∈ m.keys := AList.lookup_isSome.mp h
    have hPos := List.length_pos_of_mem hMem
    rw [List.length_erase_of_mem hMem]
    omega
  · next h => rw [List.erase_of_not_mem fun hMem => h (AList.lookup_isSome.mpr hMem)]

omit [DecidableEq ι] in
theorem length_erase (m : AList (fun _ : κ => ι)) (k : κ) (h : (m.lookup k).isSome) :
    (m.erase k).keys.length + 1 = m.keys.length := by
  have hMem : k ∈ m.keys := AList.lookup_isSome.mp h
  have hPos := List.length_pos_of_mem hMem
  rw [AList.keys_erase, List.length_erase_of_mem hMem]
  omega

/-! ## Invariants -/

omit [DecidableEq ι] in
theorem Empty.wf {s : State κ ι} (h : Empty s) : Wf s where
  holder k i hk := by simp [h.slots] at hk
  shutting i old hi := by simp [h.outside] at hi
  entering i old hi := by simp [h.outside] at hi
  closing i hi := by simp [h.outside] at hi
  left i hi := by simp [h.outside] at hi

omit [DecidableEq ι] in
theorem Empty.openHolds {s : State κ ι} (h : Empty s) : OpenHolds s := by
  intro i hi
  simp [h.outside, Stage.entered] at hi

omit [DecidableEq κ] [DecidableEq ι] in
theorem Empty.counts {s : State κ ι} (h : Empty s) : Counts s 0 :=
  ⟨∅, by simp [h.outside], by simp [h.slots, h.gauge]⟩

theorem entered_step {s t : State κ ι} {a : Act κ ι} {i : ι} (h : step s a = some t)
    (hi : (s.stage i).entered = true) : (t.stage i).entered = true ∧ t.key i = s.key i ∧
      (s.shut i = true → t.shut i = true) := by
  cases step_move h with
  | leave hStage => grind [sweep, Function.update_apply, Stage.entered]
  | _ => grind [Function.update_apply, Stage.entered]

theorem Wf.step {s t : State κ ι} {a : Act κ ι} (hWf : Wf s) (h : step s a = some t) : Wf t := by
  obtain ⟨hHolder, hShutting, hEntering, hClosing, hLeft⟩ := hWf
  cases step_move h with
  | take hStage hFree => constructor <;> grind [Function.update_apply, Stage.entered, lookup_insert_eq]
  | enter hStage => constructor <;> grind [Function.update_apply, Stage.entered, lookup_insert_eq]
  | leave hStage =>
    constructor <;> grind [sweep, Function.update_apply, Stage.entered, lookup_erase_eq]
  | _ => constructor <;> grind [Function.update_apply, Stage.entered]

/-- Only a member that enters can break the invariant, and only over an open
member that is not the one it shut. -/
theorem OpenHolds.step {s t : State κ ι} {a : Act κ ι} (hOpen : OpenHolds s) (hWf : Wf s)
    (hOver : EntersOverShut s a) (h : step s a = some t) : OpenHolds t := by
  obtain ⟨hHolder, hShutting, hEntering, hClosing, hLeft⟩ := hWf
  unfold OpenHolds at *
  cases step_move h with
  | take hStage hFree => grind [Function.update_apply, Stage.entered, lookup_insert_eq]
  | enter hStage => grind [EntersOverShut, Function.update_apply, Stage.entered, lookup_insert_eq]
  | leave hStage => grind [sweep, Function.update_apply, Stage.entered, lookup_erase_eq]
  | _ => grind [Function.update_apply, Stage.entered]

/-- A step evicts only shut members exactly if it meets the condition on entering. -/
theorem evictsShut_iff {s t : State κ ι} {a : Act κ ι} (hWf : Wf s) (h : step s a = some t) :
    EvictsShut s t ↔ EntersOverShut s a := by
  obtain ⟨hHolder, hShutting, hEntering, hClosing, hLeft⟩ := hWf
  cases step_move h with
  | take hStage hFree => grind [EvictsShut, EntersOverShut, lookup_insert_eq]
  | @enter i old hStage =>
    constructor
    · intro hEvicts old' hOld j hj
      have hij : j ≠ i := by
        rintro rfl
        simpa [hStage, Stage.entered] using (hHolder _ _ hj).2
      exact .inr (hEvicts _ j hj (by simp [Ne.symm hij]))
    · intro hOver k j hj hLost
      rw [lookup_insert_eq] at hLost
      grind [EntersOverShut]
  | leave hStage => grind [EvictsShut, EntersOverShut, sweep, lookup_erase_eq]
  | _ => grind [EvictsShut, EntersOverShut]

theorem Counts.step {s t : State κ ι} {a : Act κ ι} {n : Nat} (hCounts : Counts s n)
    (h : step s a = some t) : Counts t (n + overwrites s a) := by
  obtain ⟨pending, hMem, hGauge⟩ := hCounts
  cases step_move h with
  | @take i hStage hFree =>
    have hOut : i ∉ pending := by simp [hMem, hStage]
    have hLength := length_insert s.slots (s.key i) i
    refine ⟨insert i pending, by grind [Function.update_apply], ?_⟩
    rw [Finset.card_insert_of_notMem hOut]
    simp only [hFree, Option.isSome_none, Bool.false_eq_true, if_false, overwrites] at hLength ⊢
    omega
  | @enter i old hStage =>
    have hOut : i ∉ pending := by simp [hMem, hStage]
    have hLength := length_insert s.slots (s.key i) i
    refine ⟨insert i pending, by grind [Function.update_apply], ?_⟩
    rw [Finset.card_insert_of_notMem hOut]
    simp only [overwrites]
    omega
  | @count i hStage =>
    have hIn : i ∈ pending := (hMem i).mpr hStage
    have hPos := Finset.card_pos.mpr ⟨i, hIn⟩
    refine ⟨pending.erase i, by grind [Function.update_apply], ?_⟩
    rw [Finset.card_erase_of_mem hIn]
    simp only [overwrites]
    omega
  | @leave i hStage =>
    refine ⟨pending, by grind [Function.update_apply], ?_⟩
    simp only [overwrites, sweep]
    split
    · next j hj =>
      split
      · have hLength := length_erase s.slots (s.key i) (by simp [hj])
        simp only
        omega
      · exact hGauge
    · exact hGauge
  | _ => exact ⟨pending, by grind [Function.update_apply], hGauge⟩

end Steps

end Registry
