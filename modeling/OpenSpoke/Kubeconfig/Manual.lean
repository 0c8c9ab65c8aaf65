import OpenSpoke.Kubeconfig.Store

/-!
# Manual entries

Both automatic paths look at the source of the entry once and put later without a
condition. What they overwrite is what has been stored since they looked, or what
they could not see.
-/

namespace OpenSpoke.Kubeconfig

open Lts

/-- The call has passed its check and is to put an automatic entry. -/
def CallPc.automatic : CallPc → Bool
  | .fetching | .dating _ _ _ _ => true
  | .putting e => !e.isManual
  | _ => false

namespace World

/-- A manual entry stays one until it is deleted. -/
def Kept (s : World) (a : KubeAct) : Prop :=
  ∀ t e e', s.step a = some t → s.entry = some e → e.isManual = true → t.entry = some e' →
    e'.isManual = true

/-- The condition on a step: no automatic entry is put after a check that has not seen the
manual one. -/
def undisturbed (s : World) : KubeAct → Bool
  | .call n .write =>
    match (s.call n).pc with
    | .putting e => e.isManual || !s.missed n
    | _ => true
  | _ => true

/-- The history of the calls that are to put an automatic entry. -/
structure Watched (s : World) : Prop where
  missed : ∀ n, (s.call n).pc.automatic = true → s.missed n = s.entry.any Entry.isManual
  fresh : ∀ n, s.nextCall ≤ n → (s.call n).pc = .absent

theorem watched_init (entry : Option Entry) : (init entry).Watched :=
  ⟨fun _ h => (nomatch h), fun _ _ => rfl⟩

theorem callStep_lt {s t : World} (hs : s.Watched) {n : Nat} {e : CallEv}
    (h : s.callStep n e = some t) : n < s.nextCall := by
  by_contra hLe
  unfold callStep at h
  rw [hs.fresh n (Nat.le_of_not_lt hLe)] at h
  cases h

theorem Watched.callTo {s : World} (hs : s.Watched) {n : Nat} (hn : n < s.nextCall) {pc : CallPc}
    (hPc : pc.automatic = true → s.missed n = s.entry.any Entry.isManual) : (s.callTo n pc).Watched := by
  refine ⟨fun m hm => ?_, fun m hm => ?_⟩
  · rcases eq_or_ne m n with rfl | hne
    · exact hPc (by simpa using hm)
    · exact hs.missed m (by simpa [hne] using hm)
  · have hne : m ≠ n := fun hEq => Nat.not_lt.mpr hm (hEq ▸ hn)
    simpa [hne] using hs.fresh m hm

theorem Watched.check {s : World} (hs : s.Watched) (n : Nat) : (s.check n).Watched := by
  refine ⟨fun m hm => ?_, hs.fresh⟩
  rcases eq_or_ne m n with rfl | hne
  · simp
  · simpa [hne] using hs.missed m hm

theorem Watched.put {s : World} (hs : s.Watched) {e : Entry}
    (hEntry : e.isManual = true ∨ s.entry.any Entry.isManual = false) : (s.put e).Watched := by
  refine ⟨fun n hn => ?_, hs.fresh⟩
  have hWas := hs.missed n hn
  rcases hEntry with hManual | hNone
  · simp [hManual]
  · simp [hWas, hNone]

theorem Watched.drop {s : World} (hs : s.Watched) : s.drop.Watched :=
  ⟨fun _ _ => rfl, hs.fresh⟩

theorem Watched.step {s t : World} (hs : s.Watched) {a : KubeAct} (hKept : s.Kept a)
    (h : s.step a = some t) : t.Watched := by
  cases a with
  | request api now =>
    cases h
    refine ⟨fun m hm => ?_, fun m hm => ?_⟩
    · rcases eq_or_ne m s.nextCall with rfl | hne
      · simp only [Function.update_self] at hm
        cases api with
        | upsert u =>
          simp only [Api.begin] at hm
          split at hm <;> cases hm
        | _ => cases hm
      · exact hs.missed m (by simpa [hne] using hm)
    · have hm : s.nextCall + 1 ≤ m := hm
      have hne : m ≠ s.nextCall := by omega
      simpa [hne] using hs.fresh m (by omega)
  | call n e =>
    have hn := callStep_lt hs h
    have hStep : s.step (.call n e) = some t := h
    replace h : s.callStep n e = some t := h
    unfold callStep at h
    split at h
    next now p hPc =>
      cases h
      exact (hs.check n).callTo hn fun _ => by simp
    next nodes version now hPc =>
      cases h
      exact hs.callTo hn fun _ => hs.missed n (by rw [hPc]; rfl)
    next yaml version node now p hPc =>
      cases h
      exact hs.callTo hn fun _ => hs.missed n (by rw [hPc]; rfl)
    next entry hPc =>
      cases h
      refine (hs.put ?_).callTo hn (by simp [CallPc.automatic])
      by_contra hNot
      simp only [not_or, Bool.not_eq_true, Bool.not_eq_false] at hNot
      obtain ⟨hAuto, hManual⟩ := hNot
      obtain ⟨e, hEntry, hManual⟩ := (Option.any_eq_true_iff_get _ _).mp hManual |> fun ⟨h, h'⟩ =>
        (⟨_, (Option.some_get h).symm, h'⟩ : ∃ e, s.entry = some e ∧ e.isManual = true)
      have hNew := hKept _ e entry hStep hEntry hManual rfl
      rw [hAuto] at hNew
      cases hNew
    next hPc =>
      cases h
      exact hs.drop.callTo hn (by simp [CallPc.automatic])
    next hPc => cases h; exact hs.callTo hn (by simp [CallPc.automatic])
    next hPc => cases h; exact hs.callTo hn (by simp [CallPc.automatic])
    next => cases h

theorem kept_of_entry {s : World} {a : KubeAct}
    (h : ∀ t, s.step a = some t → t.entry = s.entry ∨ t.entry = none) : s.Kept a := by
  intro t e e' hStep hOld hManual hNew
  rcases h t hStep with hSame | hNone
  · rw [hSame, hOld] at hNew
    exact Option.some.inj hNew ▸ hManual
  · rw [hNone] at hNew
    cases hNew

theorem kept_put {s : World} {n : Nat} {entry : Entry} (hPc : (s.call n).pc = .putting entry) :
    s.Kept (.call n .write) ↔
      entry.isManual = true ∨ s.entry.any Entry.isManual = false := by
  have hStep : s.step (.call n .write) = some ((s.put entry).callTo n (.replied .ok)) := by
    change s.callStep n .write = _
    unfold callStep
    rw [hPc]
  constructor
  · intro hKept
    cases hOld : s.entry with
    | none => exact .inr rfl
    | some e =>
      cases hManual : e.isManual with
      | false => exact .inr (by simp [hManual])
      | true => exact .inl (hKept _ e entry hStep hOld hManual rfl)
  · intro h t e e' ht hOld hManual hNew
    rw [hStep] at ht
    cases ht
    cases hNew
    rcases h with h | h
    · exact h
    · rw [hOld, Option.any_some, hManual] at h
      cases h

/-- A step meets the condition exactly if it keeps a manual entry. -/
theorem stepKept_iff {s : World} (hs : s.Watched) (a : KubeAct) :
    s.undisturbed a = true ↔ s.Kept a := by
  cases a with
  | request api now =>
    refine iff_of_true rfl (kept_of_entry fun t h => ?_)
    cases h
    exact .inl rfl
  | call n e =>
    by_cases hPut : ∃ entry, (s.call n).pc = .putting entry ∧ e = .write
    · obtain ⟨entry, hPc, rfl⟩ := hPut
      rw [kept_put hPc]
      cases hManual : entry.isManual with
      | true => simp [undisturbed, hPc, hManual]
      | false =>
        have hMissed := hs.missed n (by simp [hPc, CallPc.automatic, hManual])
        simp [undisturbed, hPc, hManual, hMissed]
    · refine iff_of_true ?_ (kept_of_entry fun t h => ?_)
      · cases e with
        | write =>
          cases hPc : (s.call n).pc with
          | putting entry => exact absurd ⟨entry, hPc, rfl⟩ hPut
          | _ => simp [undisturbed, hPc]
        | _ => rfl
      · replace h : s.callStep n e = some t := h
        unfold callStep at h
        split at h
        next => cases h; exact .inl rfl
        next => cases h; exact .inl rfl
        next => cases h; exact .inl rfl
        next entry hPc => exact absurd ⟨entry, hPc, rfl⟩ hPut
        next => cases h; exact .inr rfl
        next => cases h; exact .inl rfl
        next => cases h; exact .inl rfl
        next => cases h

end World

/-- Along every run a manual entry stays one until it is deleted, exactly if every
automatic entry is put by a call whose check has seen whatever manual entry there is. -/
theorem manual_entry_kept (entry : Option Entry) (acts : List KubeAct) :
    Along World.step (fun s a => s.undisturbed a = true) (.init entry) acts ↔
      Along World.step World.Kept (.init entry) acts :=
  along_congr World.Watched (fun _ a hs => World.stepKept_iff hs a)
    (fun _ _ _ hs hKept h => hs.step hKept h) (World.watched_init entry) acts

/-- An upsert by hand while the nodes are read. -/
theorem storedMeanwhile_overwritten :
    ∃ s t, run World.step (.init none)
        [.request .autofetch ['1'], .call 0 (.get .answered),
          .request (.upsert ⟨[], ['m'], none, none, manual⟩) ['2'], .call 1 (.get .answered),
          .call 1 .write] = some s ∧
      s.entry.any Entry.isManual = true ∧
      run World.step s
        [.call 0 (.fetch (some [(['n'], some ⟨0, ['a']⟩)]) none ['3']), .call 0 (.get .answered),
          .call 0 .write] = some t ∧
      t.entry.any Entry.isManual = false ∧ t.entry.isSome = true := by
  obtain ⟨s, hRun, hs⟩ := exists_run_of_any World.step (.init none)
    [.request .autofetch ['1'], .call 0 (.get .answered),
      .request (.upsert ⟨[], ['m'], none, none, manual⟩) ['2'], .call 1 (.get .answered),
      .call 1 .write]
    (fun s => s.entry.any Entry.isManual &&
      (run World.step s
        [.call 0 (.fetch (some [(['n'], some ⟨0, ['a']⟩)]) none ['3']), .call 0 (.get .answered),
          .call 0 .write]).any fun t => !t.entry.any Entry.isManual && t.entry.isSome) (by decide)
  simp only [Bool.and_eq_true] at hs
  obtain ⟨hManual, hs⟩ := hs
  obtain ⟨t, hRest, ht⟩ := exists_run_of_any World.step s _ _ hs
  simp only [Bool.and_eq_true, Bool.not_eq_true'] at ht
  exact ⟨s, t, hRun, hManual, hRest, ht.1, ht.2⟩

end OpenSpoke.Kubeconfig
