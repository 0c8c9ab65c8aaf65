import OpenSpoke.Spawn.Terminal

/-!
# Cancelled spawns

A worker looks at the state of its spawn only while it waits for an answer. If a
cancellation is confirmed there, the worker ends the spawn as cancelled; a
worker in a turn does not see it and writes its own state over it.
-/

namespace OpenSpoke.Spawn

open Lts

/-- No worker's state is still to be written, other than cancelled. -/
def CallPc.harmless : CallPc → Bool
  | .update (.updateState u) _ _ _ => u.state.all (· = .cancelled)
  | _ => true

namespace World

/-- The worker waits for an answer, or there is none. -/
def Waiting (s : World) : Prop :=
  ∀ n < s.nextCall, (s.job n).pc.settled = true ∧ (s.call n).pc.harmless = true

instance (s : World) : Decidable s.Waiting :=
  inferInstanceAs (Decidable (∀ n < s.nextCall, _ ∧ _))

/-- Call `n` is about to confirm a cancellation. -/
def acksAt (s : World) (n : Nat) : Bool :=
  match (s.call n).pc with
  | .reply r => acks (s.call n) r
  | _ => false

/-- A Claude turn starts. -/
def startsTurn (s : World) : SpawnAct → Bool
  | .job n .tau => (s.job n).pc = .turn ∧ (s.job n).turnNum < (s.job n).maxTurns
  | _ => false

/-- A confirmed cancellation is honoured in this step. -/
structure Honoured (s : World) (a : SpawnAct) : Prop where
  active : s.acked = true → ∀ u ∈ s.lands a, ∀ st ∈ u.sets,
    st ≠ .running ∧ st ≠ .waitingUser ∧ st ≠ .done
  turns : s.called = true → s.startsTurn a = false
  ends : s.acked = true → ∀ u ∈ s.lands a, ∀ st ∈ u.sets, st.final = true →
    st = .cancelled ∨ u = .forceState .failed

instance (s : World) (a : SpawnAct) : Decidable (s.Honoured a) :=
  decidable_of_iff
    ((s.acked = true → ∀ u ∈ s.lands a, ∀ st ∈ u.sets,
        st ≠ .running ∧ st ≠ .waitingUser ∧ st ≠ .done) ∧
      (s.called = true → s.startsTurn a = false) ∧
      (s.acked = true → ∀ u ∈ s.lands a, ∀ st ∈ u.sets, st.final = true →
        st = .cancelled ∨ u = .forceState .failed))
    ⟨fun ⟨hActive, hTurns, hEnds⟩ => ⟨hActive, hTurns, hEnds⟩,
      fun h => ⟨h.active, h.turns, h.ends⟩⟩

/-- A cancellation is confirmed while the worker waits for an answer; then no
worker starts on the spawn, is handed an answer or waits out its time. -/
def heeded (s : World) : SpawnAct → Prop
  | .call n .ret => s.acksAt n = true → s.Waiting
  | .start _ | .job _ .deadline => s.acked = false
  | .job n .tau => s.acked = true → s.answered n = false
  | _ => True

instance (s : World) : (a : SpawnAct) → Decidable (s.heeded a)
  | .call n .ret => inferInstanceAs (Decidable (s.acksAt n = true → s.Waiting))
  | .start _ | .job _ .deadline => inferInstanceAs (Decidable (s.acked = false))
  | .job n .tau => inferInstanceAs (Decidable (s.acked = true → s.answered n = false))
  | .request _ | .call _ (.read _) | .call _ .fail | .call _ .land | .call _ .noop
  | .call _ .abandon | .job _ (.triaged _) | .job _ (.answered _) | .job _ (.streamed _)
  | .job _ .timeout | .job _ .raised => .isTrue trivial

theorem Fresh.waiting_iff {s : World} (h : s.Fresh) : s.Waiting ↔
    ∀ n, (s.job n).pc.settled = true ∧ (s.call n).pc.harmless = true := by
  refine ⟨fun hWait n => ?_, fun hWait n _ => hWait n⟩
  rcases Nat.lt_or_ge n s.nextCall with hn | hn
  · exact hWait n hn
  · obtain ⟨hCall, -, hJob⟩ := h n hn
    rw [hCall, hJob]
    exact ⟨rfl, rfl⟩

theorem harmless_begin {api : Api} (h : api.begin.unguarded = none) : api.begin.harmless = true := by
  cases api with
  | updateState u =>
    have hNone : u.state = none := h
    simp [Api.begin, CallPc.harmless, hNone]
  | forceState new | answer text =>
    simp only [Api.begin]
    split <;> rfl
  | _ => rfl

/-- A call writes no worker's state but the one it was made for. -/
theorem callStep_harmless {s t : World} (hs : s.Sound) {n : Nat} {e : CallEv}
    (h : s.callStep n e = some t) :
    t.job = s.job ∧ t.nextCall = s.nextCall ∧
      ∀ m, (s.call m).pc.harmless = true → (t.call m).pc.harmless = true := by
  have hSet : ∀ {c : Call}, ((s.call n).pc.harmless = true → c.pc.harmless = true) →
      ∀ m, (s.call m).pc.harmless = true → (Function.update s.call n c m).pc.harmless = true := by
    intro c hc m hm
    by_cases hEq : m = n
    · subst hEq
      simpa using hc hm
    · simpa [hEq] using hm
  have hOk := hs.calls n
  unfold callStep at h
  dsimp only at h
  split at h
  next i hPc =>
    split at h <;> cases h
    rw [hPc] at hOk
    refine ⟨rfl, rfl, hSet fun _ => ?_⟩
    cases hApi : (s.call n).api with
    | updateState u =>
      rw [hApi] at hOk
      cases hOk
    | finalize => rfl
    | _ =>
      simp only [Api.afterRead]
      split <;> rfl
  next => cases h; exact ⟨rfl, rfl, hSet fun _ => rfl⟩
  next => split at h <;> cases h <;> exact ⟨rfl, rfl, hSet fun _ => rfl⟩
  next => split at h <;> cases h; exact ⟨rfl, rfl, hSet fun _ => rfl⟩
  next => cases h; exact ⟨rfl, rfl, hSet fun _ => rfl⟩
  next => split at h <;> cases h; exact ⟨rfl, rfl, hSet id⟩
  next => cases h; exact ⟨rfl, rfl, hSet fun _ => rfl⟩
  next => cases h

/-- The step confirms a cancellation. -/
def confirms (s : World) : SpawnAct → Bool
  | .call n .ret => s.acksAt n
  | _ => false

theorem step_history {s t : World} {a : SpawnAct} (h : s.step a = some t) :
    t.acked = (s.acked || s.confirms a) ∧ (t.called = true → s.called = true ∨ s.acked = true) := by
  cases a with
  | request api =>
    simp only [step] at h
    split at h <;> cases h
    exact ⟨by simp [confirms], .inl⟩
  | call n e =>
    simp only [step, callStep] at h
    split at h <;> (try split at h) <;> cases h <;> refine ⟨?_, .inl⟩ <;>
      simp_all [confirms, acksAt]
  | start n =>
    simp only [step, startStep] at h
    split at h <;> (try split at h) <;> cases h <;> refine ⟨by simp [confirms], ?_⟩
    · simp
    · exact .inl
  | job n e =>
    cases jobStep_effect h with
    | go j => exact ⟨by simp [confirms], .inl⟩
    | call j | post api pc hApi => exact ⟨by simp [confirms], by simp⟩

/-- What holds all along a run in which cancellations are heeded. -/
structure Heeding (s : World) : Prop where
  sound : s.Sound
  fresh : s.Fresh
  called : s.called = true → s.acked = true
  waiting : s.acked = true → s.Waiting
  left : s.acked = true → s.state ≠ .queued

theorem heeding_init (isSupervisor : Bool) (mode : Mode) : (init isSupervisor mode).Heeding where
  sound := sound_init isSupervisor mode
  fresh := fresh_init isSupervisor mode
  called h := by cases h
  waiting h := by cases h
  left h := by cases h

/-- Once the workers wait they go on waiting, but for a call that is confirmed. -/
theorem waiting_step {s t : World} {a : SpawnAct} (hs : s.Sound) (hWait : ∀ n,
    (s.job n).pc.settled = true ∧ (s.call n).pc.harmless = true)
    (hAcked : s.acked = true ∨ s.confirms a = true) (hHeeded : s.heeded a)
    (h : s.step a = some t) :
    ∀ n, (t.job n).pc.settled = true ∧ (t.call n).pc.harmless = true := by
  have hNew : ∀ {api : Api} {n : Nat}, api.begin.harmless = true →
      ((s.request api).call n).pc.harmless = true := by
    intro api n hApi
    by_cases hn : n = s.nextCall
    · simpa [hn] using hApi
    · simpa [hn] using (hWait n).2
  cases a with
  | request api =>
    simp only [step] at h
    split at h <;> cases h
    next hPublic =>
    exact fun n => ⟨(hWait n).1, hNew (harmless_begin (Api.begin_unguarded hPublic))⟩
  | call n e =>
    obtain ⟨hJob, -, hCall⟩ := callStep_harmless hs h
    exact fun m => ⟨by rw [hJob]; exact (hWait m).1, hCall m (hWait m).2⟩
  | start n =>
    rcases hAcked with hAcked | hConfirm
    · exact absurd (hAcked.symm.trans hHeeded) (by simp)
    · cases hConfirm
  | job n e =>
    have hAck : s.acked = true := hAcked.resolve_right (by simp [confirms])
    have hSet : ∀ {pc : JobPc}, pc.settled = true → ∀ m,
        (Function.update s.job n { s.job n with pc := pc } m).pc.settled = true := by
      intro pc hPc m
      by_cases hm : m = n
      · simpa [hm] using hPc
      · simpa [hm] using (hWait m).1
    cases jobStep_settled (hWait n).1 h with
    | go e pc hPc => exact fun m => ⟨hSet hPc m, (hWait m).2⟩
    | post e api pc hPc hApi => exact fun m => ⟨hSet (hPc _) m, hNew (harmless_begin hApi)⟩
    | take t hAnswer => exact absurd (hHeeded hAck) (by simp [hAnswer])
    | cancelled hTold => exact fun m => ⟨hSet rfl m, hNew rfl⟩
    | deadline => exact absurd (hAck.symm.trans hHeeded) (by simp)

theorem heeding_step {s t : World} {a : SpawnAct} (hs : s.Heeding) (hHeeded : s.heeded a)
    (h : s.step a = some t) : t.Heeding := by
  have hFresh := fresh_step hs.fresh h
  obtain ⟨hAcked, hCalled⟩ := step_history h
  refine ⟨sound_step hs.sound h, hFresh, fun hCall => ?_, fun hAck => ?_, fun hAck => ?_⟩
  · rcases hCalled hCall with hCall | hAck
    · simp [hAcked, hs.called hCall]
    · simp [hAcked, hAck]
  · rw [hAcked, Bool.or_eq_true] at hAck
    have hWait : s.Waiting := by
      rcases hAck with hAck | hConfirm
      · exact hs.waiting hAck
      · unfold confirms at hConfirm
        split at hConfirm
        · exact hHeeded hConfirm
        · cases hConfirm
    rw [hFresh.waiting_iff]
    exact waiting_step hs.sound (hs.fresh.waiting_iff.mp hWait) hAck hHeeded h
  · rw [hAcked, Bool.or_eq_true] at hAck
    rw [step_state h]
    rcases hAck with hAck | hConfirm
    · cases hSets : (s.lands a).bind Update.sets with
      | none => exact hs.left hAck
      | some st =>
        obtain ⟨u, hLands, hu⟩ := Option.bind_eq_some_iff.mp hSets
        rintro rfl
        exact (hs.sound.lands_legal hLands).sets_ne hu
    · unfold confirms at hConfirm
      split at hConfirm
      · next n =>
        have hOk := hs.sound.calls n
        unfold acksAt at hConfirm
        split at hConfirm
        · next r hPc =>
          rw [hPc] at hOk
          cases r with
          | spawn st => exact hOk
          | _ => simp [acks] at hConfirm
        · cases hConfirm
      · cases hConfirm

theorem honoured_of_heeding {s : World} {a : SpawnAct} (hs : s.Heeding) : s.Honoured a := by
  -- after the confirmation only a cancel, a force_state or a worker's `cancelled` can land
  have hLands : s.acked = true → ∀ u ∈ s.lands a, ∀ st ∈ u.sets,
      st = .cancelled ∨ st = .cancelRequested ∨ u = .forceState .failed := by
    intro hAck u hu st hSets
    have hLegal := hs.sound.lands_legal hu
    obtain ⟨n, guard, done, conflict, rfl, hPc, hLand⟩ := lands_eq_some hu
    cases u with
    | cancel new =>
      cases hSets
      exact hLegal.imp_right .inl
    | forceState new =>
      cases hSets
      rcases hLegal with rfl | rfl
      · exact .inl rfl
      · exact .inr (.inr rfl)
    | pickup =>
      have hOk := hs.sound.calls n
      rw [hPc] at hOk
      obtain ⟨i, rfl⟩ := Option.ne_none_iff_exists'.mp (hOk.2.1 rfl)
      exact absurd (hs.sound.guarded hPc hLand (by simp [Update.sets])) (hs.left hAck)
    | updateState v =>
      have hHarmless := ((hs.fresh.waiting_iff.mp (hs.waiting hAck)) n).2
      rw [hPc] at hHarmless
      have hSets : v.state = some st := hSets
      rw [CallPc.harmless, hSets] at hHarmless
      exact .inl (by simpa using hHarmless)
    | _ => cases hSets
  refine ⟨fun hAck u hu st hSets => ?_, fun hCall => ?_, fun hAck u hu st hSets hEnd => ?_⟩
  · rcases hLands hAck u hu st hSets with rfl | rfl | rfl
    · simp
    · simp
    · cases hSets
      simp
  · have hWait := hs.fresh.waiting_iff.mp (hs.waiting (hs.called hCall))
    unfold startsTurn
    split
    · next n =>
      have hJob := (hWait n).1
      by_cases hPc : (s.job n).pc = .turn
      · rw [hPc] at hJob
        cases hJob
      · simp [hPc]
    · rfl
  · rcases hLands hAck u hu st hSets with rfl | rfl | rfl
    · exact .inl rfl
    · cases hEnd
    · exact .inr rfl

end World

/-- In a run in which every cancellation is confirmed to a waiting worker, which
then gets no answer and no timeout, every step honours it. -/
theorem cancellation_honoured (isSupervisor : Bool) (mode : Mode) (acts : List SpawnAct)
    (hHeeded : Along World.step World.heeded (.init isSupervisor mode) acts) :
    Along World.step World.Honoured (.init isSupervisor mode) acts :=
  Along.of_invariant World.Heeding (fun _ _ hs _ => World.honoured_of_heeding hs)
    (fun _ _ _ hs hStep h => World.heeding_step hs hStep h)
    (World.heeding_init isSupervisor mode) hHeeded

/-- The worker has asked its question when the cancellation comes. -/
def cancelWhileWaiting : List SpawnAct :=
  [.request .pickup, .call 0 (.read 0), .call 0 .land, .call 0 .ret, .start 0, .job 0 .tau,
    .job 0 (.streamed (some blockingTag)), .call 1 .land, .call 1 .ret, .job 0 .tau,
    .request .cancel, .call 2 (.read 2), .call 2 .land, .call 2 .ret, .job 0 .tau,
    .call 3 (.read 3), .call 3 .ret, .job 0 .tau, .call 4 .land]

theorem waiting_spawn_cancelled :
    Along World.step World.Honoured (.init false .claude) cancelWhileWaiting ∧
      (run World.step (.init false .claude) cancelWhileWaiting).map World.state = some .cancelled :=
  ⟨cancellation_honoured false .claude cancelWhileWaiting (by decide), by decide⟩

/-- A cancellation confirmed during a turn is overwritten when the turn ends. -/
theorem cancelled_turn_becomes_done : ¬Along World.step World.Honoured (.init false .claude)
    [.request .pickup, .call 0 (.read 0), .call 0 .land, .call 0 .ret, .start 0, .job 0 .tau,
      .request .cancel, .call 1 (.read 1), .call 1 .land, .call 1 .ret,
      .job 0 (.streamed (some [])), .call 2 .land] := by
  decide

end OpenSpoke.Spawn
