import OpenSpoke.Scheduler.Search

/-!
# Executions do not overlap

A loop that is granted an execution has pushed next_run_at a minute ahead, so
that for a minute no search that is not stale finds the task, and the claim of a
stale one is refused. The push is a lease that nobody renews: it says nothing
about how long the handler takes, and any other write of next_run_at ends it.
-/

namespace OpenSpoke.Scheduler

open Lts

def LoopPc.called : LoopPc → Bool
  | .handling _ _ | .responded _ _ | .recording _ _ => true
  | _ => false

namespace World

/-- The task has been created with a schedule of type once. -/
def isOnce (s : World) : Bool :=
  match s.doc.version 0 with
  | some task => task.schedule.once
  | none => false

/-- No loop has been granted an execution that it has not recorded. -/
def vacant (s : World) : Bool := ∀ p < s.replicas, (s.loop p).exec = none

/-- The condition on a step. -/
def punctual (s : World) : SchedAct → Bool
  -- an execution is recorded before its minute is over
  | .tick d => ∀ p < s.replicas, ∀ e ∈ (s.loop p).exec, s.now + d < e.advanceTo
  | .loop p (.land _) =>
    match s.loop p with
    | .advancing e => s.now < e.advanceTo
    | _ => true
  | .loop p .fail | .loop p .giveUp | .loop p .stop =>
    s.touched || !s.isOnce || !(s.loop p).called
  | .call n (.land _) =>
    match (s.call n).pc with
    | .write c _ _ => !c.reschedules || s.vacant
    | _ => true
  | .stray w _ => w.guard.isSome || !w.change.reschedules || s.vacant
  | _ => true

/-- What the loops promise for the task. -/
structure Exclusive (s : World) : Prop where
  alone : ∀ p q d d', (s.loop p).deadline = some d → (s.loop q).deadline = some d' → p = q
  once : s.touched = false → s.isOnce = true → s.fired ≤ 1

/-- The minute of the execution is not over and next_run_at is still its end. -/
structure Leased (s : World) (e : Exec) : Prop where
  time : s.now < e.advanceTo
  next : ∀ task, s.cur = some task → task.nextRunAt = e.advanceTo

/-- While the steps are punctual, at most one execution is under way, and it holds its lease. -/
structure Timed (s : World) : Prop where
  sought : s.Sought
  leases : ∀ p e, (s.loop p).exec = some e → s.Leased e
  running : ∀ p e, (s.loop p).exec = some e → p < s.replicas
  alone : ∀ p q e f, (s.loop p).exec = some e → (s.loop q).exec = some f → p = q

/-- A claim is refused while an execution is under way. -/
theorem Claims.vacant {s : World} (hs : s.Timed) {e : Exec} (h : s.Claims e)
    (hGuard : e.seqNo = s.doc.seqNo) (p : Nat) : (s.loop p).exec = none := by
  by_contra hExec
  obtain ⟨f, hf⟩ := Option.ne_none_iff_exists'.mp hExec
  have hLeased := hs.leases p f hf
  have hCur : s.cur = some e.task := by
    rw [← h.due.version, hGuard]
    rfl
  have := hLeased.next e.task hCur
  have := hLeased.time
  have := h.due.due
  omega

theorem apply_next {c : Change} (h : c.reschedules = false) {cur : Option Task} {task : Task}
    (hTask : c.apply cur = some task) : ∃ old, cur = some old ∧ task.nextRunAt = old.nextRunAt := by
  cases c with
  | advance next => cases h
  | record ok time next enabled =>
    obtain ⟨old, hOld, rfl⟩ := Option.map_eq_some_iff.mp hTask
    cases next with
    | none => exact ⟨old, hOld, rfl⟩
    | some next => cases h
  | patch p next time =>
    obtain ⟨old, hOld, rfl⟩ := Option.map_eq_some_iff.mp hTask
    cases next with
    | none => exact ⟨old, hOld, rfl⟩
    | some next => cases h
  | delete => cases hTask

theorem Timed.later {s t : World} (hs : s.Timed) (hSought : t.Sought)
    (hExec : ∀ p, (t.loop p).exec = (s.loop p).exec) (hReplicas : t.replicas = s.replicas)
    (hLeased : ∀ p e, (s.loop p).exec = some e → s.Leased e → t.Leased e) : t.Timed where
  sought := hSought
  leases p e he := by
    rw [hExec] at he
    exact hLeased p e he (hs.leases p e he)
  running p e he := by
    rw [hReplicas]
    rw [hExec] at he
    exact hs.running p e he
  alone p q e f he hf := by
    rw [hExec] at he hf
    exact hs.alone p q e f he hf

theorem Timed.still {s t : World} (hs : s.Timed) (hSought : t.Sought)
    (hExec : ∀ p, (t.loop p).exec = (s.loop p).exec) (hReplicas : t.replicas = s.replicas)
    (hNow : t.now = s.now) (hDoc : t.doc = s.doc) : t.Timed :=
  hs.later hSought hExec hReplicas fun _ _ _ hLeased =>
    ⟨hNow ▸ hLeased.time, fun task hTask => hLeased.next task (by rwa [cur, ← hDoc])⟩

theorem Timed.leave {s t : World} (hs : s.Timed) (hSought : t.Sought) {p : Nat} {pc : LoopPc}
    (hPc : pc.exec = none) (hLoop : t.loop = Function.update s.loop p pc)
    (hReplicas : t.replicas = s.replicas) (hNow : t.now = s.now)
    (hDoc : t.doc = s.doc ∨ ∃ e, (s.loop p).exec = some e) : t.Timed := by
  have hWas : ∀ q e, (t.loop q).exec = some e → q ≠ p ∧ (s.loop q).exec = some e := by
    intro q e he
    rw [hLoop] at he
    rcases eq_or_ne q p with rfl | hne
    · simp [hPc] at he
    · exact ⟨hne, by simpa [hne] using he⟩
  refine ⟨hSought, fun q e he => ?_, fun q e he => ?_, fun q r e f he hf => ?_⟩
  · obtain ⟨hne, he⟩ := hWas q e he
    have hLeased := hs.leases q e he
    rcases hDoc with hDoc | ⟨f, hf⟩
    · exact ⟨hNow ▸ hLeased.time, fun task hTask => hLeased.next task (by rwa [cur, ← hDoc])⟩
    · exact absurd (hs.alone q p e f he hf) hne
  · rw [hReplicas]
    exact hs.running q e (hWas q e he).2
  · exact hs.alone q r e f (hWas q e he).2 (hWas r f hf).2

/-- A write keeps the lease of an execution unless it changes next_run_at. -/
theorem Timed.write {s t : World} (hs : s.Timed) {w : Write} {noop : Bool}
    (h : s.write w noop = some t)
    (hVacant : w.change.reschedules = true → ∀ p, (s.loop p).exec = none) : t.Timed := by
  have hSought := hs.sought.write h
  obtain ⟨-, -, doc, rfl, hDoc⟩ := write_eq_some h
  refine hs.later hSought (by simp) (by simp) fun p e he hLeased => ⟨by simpa using hLeased.time, ?_⟩
  intro task hTask
  have hKeeps : w.change.reschedules = false := by
    refine Bool.eq_false_iff.mpr fun hSets => ?_
    simp [hVacant hSets p] at he
  rw [cur, noteWrite_doc, hDoc.cur] at hTask
  obtain ⟨old, hOld, hNext⟩ := apply_next hKeeps hTask
  rw [hNext]
  exact hLeased.next old hOld

theorem timed_init (replicas : Nat) (httpTimeout now : Int) (task : Task) :
    (init replicas httpTimeout now task).Timed :=
  ⟨sought_init _ _ _ _, fun _ _ he => (nomatch he), fun _ _ he => (nomatch he),
    fun _ _ _ _ he => (nomatch he)⟩

theorem vacant_iff {s : World} (hs : s.Timed) : s.vacant = true ↔ ∀ p, (s.loop p).exec = none := by
  simp only [vacant, decide_eq_true_eq]
  refine ⟨fun h p => ?_, fun h p _ => h p⟩
  by_contra hExec
  obtain ⟨e, he⟩ := Option.ne_none_iff_exists'.mp hExec
  exact hExec (h p (hs.running p e he))

theorem Timed.loop {s t : World} (hs : s.Timed) {p : Nat} {e : LoopEv} (hp : p < s.replicas)
    (hPunctual : s.punctual (.loop p e) = true) (h : s.loopStep p e = some t) (hSought : t.Sought) :
    t.Timed := by
  have hStay : ∀ {pc : LoopPc}, pc.exec = (s.loop p).exec → t.loop = Function.update s.loop p pc →
      t.replicas = s.replicas → t.now = s.now → t.doc = s.doc → t.Timed := by
    intro pc hPc hLoop
    refine hs.still hSought fun q => ?_
    rw [hLoop]
    rcases eq_or_ne q p with rfl | hne
    · simpa using hPc
    · simp [hne]
  cases loopStep_move h with
  | search hPc => exact hStay (by rw [hPc]; rfl) rfl rfl rfl rfl
  | miss nowIso hPc => exact hStay (by rw [hPc]; rfl) rfl rfl rfl rfl
  | hit nowIso i task hPc => exact hStay (by rw [hPc]; rfl) rfl rfl rfl rfl
  | claim i task hPc => exact hStay (by rw [hPc]; rfl) rfl rfl rfl rfl
  | raised e hPc => exact hStay (by rw [hPc]; rfl) rfl rfl rfl rfl
  | uncalled e hPc => exact hStay (by rw [hPc]; rfl) rfl rfl rfl rfl
  | call e timeout hPc =>
    exact @hStay (.handling e (s.now + timeout)) (by rw [hPc]; rfl) rfl rfl rfl rfl
  | respond e deadline ok hPc => exact hStay (by rw [hPc]; rfl) rfl rfl rfl rfl
  | record e ok hPc => exact hStay (by rw [hPc]; rfl) rfl rfl rfl rfl
  | detach e deadline hPc => exact hStay (by rw [hPc]; rfl) rfl rfl rfl rfl
  | refused e hPc => exact hs.leave hSought rfl rfl rfl rfl (.inl rfl)
  | unrecorded e c hPc => exact hs.leave hSought rfl rfl rfl rfl (.inl rfl)
  | ended e deadline ok hPc => exact hs.leave hSought rfl rfl rfl rfl (.inl rfl)
  | stop => exact hs.leave hSought rfl rfl rfl rfl (.inl rfl)
  | leaveClaim e ev pc hPc hNext =>
    exact hs.leave hSought (by rcases hNext with rfl | rfl <;> rfl) rfl rfl rfl (.inl rfl)
  | leaveRecord e c ev pc hPc hNext =>
    exact hs.leave hSought (by rcases hNext with rfl | rfl <;> rfl) rfl rfl rfl (.inl rfl)
  | recorded e c noop u hPc hWrite =>
    obtain ⟨-, -, doc, rfl, -⟩ := write_eq_some hWrite
    have hExec : (s.loop p).exec = some e := by rw [hPc]; rfl
    exact @Timed.leave _ _ hs hSought p .idle rfl (by simp) (by simp) (by simp) (.inr ⟨e, hExec⟩)
  | granted e noop u hPc hWrite =>
    have hTime : s.now < e.advanceTo := by simpa [punctual, hPc] using hPunctual
    have hClaims : s.Claims e := by
      have hSeeks := hs.sought.loops p
      rw [hPc] at hSeeks
      exact hSeeks
    obtain ⟨hGuard, -, doc, rfl, hDoc⟩ := write_eq_some hWrite
    have hVacant := hClaims.vacant hs (hGuard e.seqNo rfl)
    have hOnly : ∀ q f, (((s.noteWrite e.advance doc).setLoop p (.granted e)).loop q).exec = some f →
        q = p ∧ f = e := by
      intro q f hf
      rcases eq_or_ne q p with rfl | hne
      · exact ⟨rfl, by simpa [LoopPc.exec, eq_comm] using hf⟩
      · simp [hne, hVacant q] at hf
    refine ⟨hSought, fun q f hf => ?_, fun q f hf => ?_, fun q r f g hf hg => ?_⟩
    · obtain ⟨-, rfl⟩ := hOnly q f hf
      refine ⟨by simpa using hTime, fun task hTask => ?_⟩
      rw [cur, setLoop_doc, noteWrite_doc, hDoc.cur] at hTask
      obtain ⟨old, -, rfl⟩ := Option.map_eq_some_iff.mp hTask
      rfl
    · rw [(hOnly q f hf).1]
      simpa using hp
    · exact (hOnly q f hf).1.trans (hOnly r g hg).1.symm

theorem Timed.step {s t : World} (hs : s.Timed) {a : SchedAct} (hPunctual : s.punctual a = true)
    (h : s.step a = some t) : t.Timed := by
  have hSought := hs.sought.step h
  cases a with
  | tick d =>
    obtain ⟨-, h⟩ := Option.ite_none_right_eq_some.mp h
    cases h
    have hTicks : ∀ p < s.replicas, ∀ e ∈ (s.loop p).exec, s.now + d < e.advanceTo := by
      simpa [punctual] using hPunctual
    exact hs.later hSought (fun _ => rfl) rfl fun p e he hLeased =>
      ⟨hTicks p (hs.running p e he) e he, hLeased.next⟩
  | loop p e =>
    obtain ⟨hp, h⟩ := Option.ite_none_right_eq_some.mp h
    exact hs.loop hp hPunctual h hSought
  | request api =>
    cases h
    exact hs.still hSought (fun _ => rfl) rfl rfl rfl
  | call n e =>
    cases callStep_move h with
    | written c done failed noop u hPc hWrite =>
      have hu : u.Timed := hs.write hWrite fun hSets => (vacant_iff hs).mp (by
        have hSets : c.reschedules = true := hSets
        simpa [punctual, hPc, hSets] using hPunctual)
      exact hu.still hSought (fun _ => rfl) rfl rfl rfl
    | _ => exact hs.still hSought (fun _ => rfl) rfl rfl rfl
  | stray w noop =>
    obtain ⟨hMem, h⟩ := Option.ite_none_right_eq_some.mp h
    obtain ⟨u, hWrite, rfl⟩ := Option.map_eq_some_iff.mp h
    have hu : u.Timed := hs.write hWrite fun hSets => by
      rcases hs.sought.strays w hMem with hGuard | ⟨e, rfl, hClaims⟩
      · refine (vacant_iff hs).mp ?_
        simpa [punctual, hGuard, hSets] using hPunctual
      · exact hClaims.vacant hs ((write_eq_some hWrite).1 e.seqNo rfl)
    exact hu.still hSought (fun _ => rfl) rfl rfl rfl
  | vanish w =>
    obtain ⟨-, h⟩ := Option.ite_none_right_eq_some.mp h
    cases h
    exact hs.still hSought (fun _ => rfl) rfl rfl rfl

/-- The result that the loop is about to record disables the task. -/
def closes : LoopPc → Prop
  | .handling _ _ | .responded _ _ => True
  | .recording _ c => ∃ ok time next, c = .record ok time next (some false)
  | _ => False

/-- The change enables nothing, unless it is an update. -/
def Modest : Change → Prop
  | .record _ _ _ enabled => enabled ≠ some true
  | _ => True

/-- The executions of the loop are those of a task of type once. -/
def Onces (pc : LoopPc) : Prop :=
  (∀ i task, pc = .found i task → task.schedule.once = true) ∧
    ∀ e, pc = .advancing e ∨ pc.exec = some e → e.task.schedule.once = true

def Disabled (s : World) : Prop := ∃ task, s.cur = some task ∧ task.enabled = false

/-- What holds of a task with a schedule of type once that nobody has updated. -/
structure Single (s : World) : Prop where
  once : ∀ i ≤ s.doc.seqNo, ∃ task, s.doc.version i = some task ∧ task.schedule.once = true
  execs : ∀ p, Onces (s.loop p)
  fired : s.fired = 0 ∨ s.fired = 1 ∧ ((∃ p, closes (s.loop p)) ∨ s.Disabled)
  granted : ∀ p e, s.loop p = .granted e → s.fired = 0
  recording : ∀ p e c, s.loop p = .recording e c → Modest c
  strays : ∀ w ∈ s.strays, Modest w.change
  calls : ∀ n c done failed, (s.call n).pc = .write c done failed → Modest c

theorem once_record {schedule : Schedule} (h : schedule.once = true) (ok : Bool) (now : Int) :
    schedule.record ok now = .record ok now (some farFuture) (some false) := by
  have hNext : schedule.next now = some farFuture := by
    cases hRead : schedule.read with
    | none => simp [Schedule.once, hRead] at h
    | some d => simp [Schedule.next, hRead, h]
  simp only [Schedule.record, hNext, h, if_true]

theorem touched_write {s : World} {w : Write} {doc : Document (Option Task)}
    (h : (s.noteWrite w doc).touched = false) :
    s.touched = false ∧ w.change ≠ .delete ∧ ∀ p next time, w.change ≠ .patch p next time := by
  unfold noteWrite at h
  split at h
  next hc => exact ⟨h, by simp [hc], by simp [hc]⟩
  next hc => exact ⟨h, by simp [hc], by simp [hc]⟩
  next hc => exact ⟨h, by simp [hc], by simp [hc]⟩
  next => split at h <;> cases h
  next => cases h

theorem apply_single {c : Change} (task : Task) (hDelete : c ≠ .delete)
    (hPatch : ∀ p next time, c ≠ .patch p next time) :
    ∃ new, c.apply (some task) = some new ∧ new.schedule = task.schedule ∧
      (Modest c → task.enabled = false → new.enabled = false) ∧
      ∀ ok time next, c = .record ok time next (some false) → new.enabled = false := by
  cases c with
  | advance next => exact ⟨_, rfl, rfl, fun _ h => h, by simp⟩
  | record ok time next enabled =>
    refine ⟨_, rfl, rfl, fun hModest hOff => ?_, ?_⟩
    · cases enabled with
      | none => exact hOff
      | some b =>
        cases b with
        | false => rfl
        | true => exact absurd rfl hModest
    · rintro _ _ _ ⟨⟩
      rfl
  | patch p next time => exact absurd rfl (hPatch p next time)
  | delete => exact absurd rfl hDelete

theorem Single.write {s t : World} (hs : s.Single) {w : Write} {noop : Bool}
    (h : s.write w noop = some t) (hTouched : t.touched = false) (hModest : Modest w.change) :
    t.Single ∧ ∀ ok time next, w.change = .record ok time next (some false) → t.Disabled := by
  obtain ⟨-, -, doc, rfl, hDoc⟩ := write_eq_some h
  obtain ⟨-, hDelete, hPatch⟩ := touched_write hTouched
  obtain ⟨task, hTask, hOnce⟩ := hs.once s.doc.seqNo (Nat.le_refl _)
  obtain ⟨new, hNew, hSchedule, hStays, hOff⟩ := apply_single task hDelete hPatch
  have hCur : (s.noteWrite w doc).cur = some new := by
    rw [cur, noteWrite_doc, hDoc.cur, ← hNew]
    exact congrArg _ hTask
  refine ⟨⟨fun i hi => ?_, by simpa using hs.execs, ?_, by simpa using hs.granted,
    by simpa using hs.recording, by simpa using hs.strays, by simpa using hs.calls⟩,
    fun ok time next hc => ⟨new, hCur, hOff ok time next hc⟩⟩
  · rw [noteWrite_doc] at hi ⊢
    rcases hDoc.last i hi with hOld | hLast
    · rw [hDoc.kept i hOld]
      exact hs.once i hOld
    · refine ⟨new, ?_, by rwa [hSchedule]⟩
      rw [hLast, ← hNew]
      exact congrArg _ hTask
  · rw [noteWrite_fired, noteWrite_loop]
    refine hs.fired.imp_right (And.imp_right (Or.imp_right ?_))
    rintro ⟨task', hTask', hOff'⟩
    obtain rfl := Option.some.inj (hTask.symm.trans hTask')
    exact ⟨new, hCur, hStays hModest hOff'⟩

theorem Single.setLoop {s : World} (hs : s.Single) {p : Nat} {pc : LoopPc}
    (hCloses : closes (s.loop p) → closes pc ∨ s.Disabled) (hOnces : Onces pc)
    (hGranted : ∀ e, pc = .granted e → s.fired = 0) (hModest : ∀ e c, pc = .recording e c → Modest c) :
    (s.setLoop p pc).Single := by
  refine ⟨hs.once, fun q => ?_, ?_, fun q e hq => ?_, fun q e c hq => ?_, hs.strays, hs.calls⟩
  · rcases eq_or_ne q p with rfl | hne
    · simpa using hOnces
    · simpa [hne] using hs.execs q
  · refine hs.fired.imp_right (And.imp_right ?_)
    rintro (⟨q, hq⟩ | hOff)
    · rcases eq_or_ne q p with rfl | hne
      · exact (hCloses hq).imp (fun hNew => ⟨q, by simpa using hNew⟩) id
      · exact .inl ⟨q, by simpa [hne] using hq⟩
    · exact .inr hOff
  · rcases eq_or_ne q p with rfl | hne
    · exact hGranted e (by simpa using hq)
    · exact hs.granted q e (by simpa [hne] using hq)
  · rcases eq_or_ne q p with rfl | hne
    · exact hModest e c (by simpa using hq)
    · exact hs.recording q e c (by simpa [hne] using hq)

theorem Single.addStray {s : World} (hs : s.Single) {w : Write} (hModest : Modest w.change) :
    (s.addStray w).Single :=
  ⟨hs.once, hs.execs, hs.fired, hs.granted, hs.recording,
    fun w' hw' => (List.mem_cons.mp hw').elim (fun hEq => hEq ▸ hModest) (hs.strays w'), hs.calls⟩

theorem Single.setCall {s : World} (hs : s.Single) {n : Nat} {pc : CallPc}
    (hModest : ∀ c done failed, pc = .write c done failed → Modest c) : (s.setCall n pc).Single := by
  refine ⟨hs.once, hs.execs, hs.fired, hs.granted, hs.recording, hs.strays,
    fun m c done failed hm => ?_⟩
  rcases eq_or_ne m n with rfl | hne
  · exact hModest c done failed (by simpa using hm)
  · exact hs.calls m c done failed (by simpa [hne] using hm)

theorem Single.finish {s : World} (hs : s.Single) {p : Nat} {pc : LoopPc}
    (hPc : pc = .idle ∨ pc = .stopped) (hNot : ¬ closes (s.loop p)) : (s.setLoop p pc).Single := by
  refine hs.setLoop (fun hCloses => absurd hCloses hNot) ?_ ?_ ?_
  all_goals rcases hPc with rfl | rfl <;> simp [Onces, LoopPc.exec]

theorem Single.goOn {s : World} (hs : s.Single) {p : Nat} {pc : LoopPc} {e : Exec}
    (he : (s.loop p).exec = some e) (hpc : pc.exec = some e) (hGranted : ∀ e, pc ≠ .granted e)
    (hCloses : closes (s.loop p) → closes pc) (hModest : ∀ e c, pc = .recording e c → Modest c) :
    (s.setLoop p pc).Single := by
  refine hs.setLoop (fun hc => .inl (hCloses hc)) ⟨?_, ?_⟩ (fun e he => absurd he (hGranted e)) hModest
  · rintro i task rfl
    cases hpc
  · rintro f (rfl | hf)
    · cases hpc
    · obtain rfl := Option.some.inj (hf.symm.trans hpc)
      exact (hs.execs p).2 f (.inr he)

theorem Single.grant {s u : World} (hs : s.Single) (hTimed : s.Timed) {p : Nat} {e : Exec}
    {noop : Bool} (hPc : s.loop p = .advancing e) (hWrite : s.write e.advance noop = some u)
    (hTouched : u.touched = false) : (u.setLoop p (.granted e)).Single := by
  obtain ⟨hGuard, -, doc, hu, -⟩ := write_eq_some hWrite
  have hClaims : s.Claims e := by
    have hSeeks := hTimed.sought.loops p
    rw [hPc] at hSeeks
    exact hSeeks
  have hVacant := hClaims.vacant hTimed (hGuard e.seqNo rfl)
  have hNone : s.fired = 0 := by
    refine hs.fired.resolve_right ?_
    rintro ⟨-, ⟨q, hq⟩ | ⟨task, hTask, hOff⟩⟩
    · have hq' := hVacant q
      cases hLoop : s.loop q <;> simp_all [closes, LoopPc.exec]
    · have hCur : s.cur = some e.task := by
        rw [← hClaims.due.version, hGuard e.seqNo rfl]
        rfl
      obtain rfl := Option.some.inj (hCur.symm.trans hTask)
      rw [hClaims.due.enabled] at hOff
      cases hOff
  have hNew := (hs.write hWrite hTouched trivial).1
  refine hNew.setLoop (by simp [hu, hPc, closes]) ⟨by simp, ?_⟩ (fun _ _ => by simpa [hu] using hNone)
    (by simp)
  rintro f (hf | hf)
  · cases hf
  · obtain rfl := Option.some.inj hf
    exact (hs.execs p).2 e (.inl hPc)

theorem Single.callHandler {s : World} (hs : s.Single) (hTimed : s.Timed) {p : Nat} {e : Exec} {timeout : Int}
    (hPc : s.loop p = .granted e) :
    (s.fire.setLoop p (.handling e (s.now + timeout))).Single := by
  have hNew : (s.setLoop p (.handling e (s.now + timeout))).Single :=
    hs.goOn (by rw [hPc]; rfl) rfl (by simp) (fun _ => trivial) (by simp)
  have hNone := hs.granted p e hPc
  refine ⟨hNew.once, hNew.execs, .inr ⟨by simp [hNone], .inl ⟨p, by simp [closes]⟩⟩, fun q f hq => ?_,
    hNew.recording, hNew.strays, hNew.calls⟩
  rcases eq_or_ne q p with rfl | hne
  · simp at hq
  · have hq : s.loop q = .granted f := by simpa [hne] using hq
    exact absurd (hTimed.alone q p f e (by rw [hq]; rfl) (by rw [hPc]; rfl)) hne

theorem Single.loop {s t : World} (hs : s.Single) (hTimed : s.Timed) {p : Nat} {e : LoopEv}
    (hLeft : (e = .fail ∨ e = .giveUp ∨ e = .stop) → (s.loop p).called = false)
    (hTouched : t.touched = false) (h : s.loopStep p e = some t) : t.Single := by
  have hExecs := hs.execs p
  have hCalled : closes (s.loop p) → (s.loop p).called = true := by
    cases s.loop p <;> simp [closes, LoopPc.called]
  cases loopStep_move h with
  | search hPc =>
    exact hs.setLoop (by simp [hPc, closes]) (by simp [Onces, LoopPc.exec]) (by simp) (by simp)
  | miss nowIso hPc => exact hs.finish (.inl rfl) (by simp [hPc, closes])
  | hit nowIso i task hPc hi hTask hEnabled hDue =>
    refine hs.setLoop (by simp [hPc, closes]) ⟨?_, by simp [LoopPc.exec]⟩ (by simp) (by simp)
    rintro _ _ ⟨⟩
    obtain ⟨task', hTask', hOnce⟩ := hs.once i hi
    obtain rfl := Option.some.inj (hTask.symm.trans hTask')
    exact hOnce
  | claim i task hPc =>
    refine hs.setLoop (by simp [hPc, closes]) ⟨by simp, ?_⟩ (by simp) (by simp)
    rintro f (hf | hf)
    · obtain rfl := LoopPc.advancing.inj hf
      exact hExecs.1 i task hPc
    · cases hf
  | granted e noop u hPc hWrite => exact hs.grant hTimed hPc hWrite hTouched
  | refused e hPc => exact hs.finish (.inl rfl) (by simp [hPc, closes])
  | leaveClaim e ev pc hPc hNext =>
    exact (hs.finish hNext (by simp [hPc, closes])).addStray trivial
  | raised e hPc =>
    refine hs.goOn (by rw [hPc]; rfl) rfl (by simp) (by simp [hPc, closes]) ?_
    rintro _ _ ⟨⟩
    simp [Modest]
  | uncalled e hPc =>
    exact hs.goOn (by rw [hPc]; rfl) rfl (by simp) (by simp [hPc, closes]) (by simp)
  | call e timeout hPc => exact hs.callHandler hTimed hPc
  | respond e deadline ok hPc =>
    exact hs.goOn (by rw [hPc]; rfl) rfl (by simp) (fun _ => trivial) (by simp)
  | record e ok hPc =>
    have hRecord := once_record (hExecs.2 e (.inr (by rw [hPc]; rfl))) ok s.now
    refine hs.goOn (by rw [hPc]; rfl) rfl (by simp) (fun _ => ?_) ?_
    · exact ⟨ok, s.now, some farFuture, hRecord⟩
    · rintro _ _ ⟨⟩
      simp [hRecord, Modest]
  | recorded e c noop u hPc hWrite =>
    obtain ⟨hNew, hOff⟩ := hs.write hWrite hTouched (hs.recording p e c hPc)
    obtain ⟨-, -, doc, hu, -⟩ := write_eq_some hWrite
    refine hNew.setLoop ?_ (by simp [Onces, LoopPc.exec]) (by simp) (by simp)
    rw [hu, noteWrite_loop, hPc, ← hu]
    rintro ⟨ok, time, next, rfl⟩
    exact .inr (hOff ok time next rfl)
  | unrecorded e c hPc =>
    have := hLeft (.inl rfl)
    simp [hPc, LoopPc.called] at this
  | leaveRecord e c ev pc hPc hNext hEv =>
    have := hLeft (.inr hEv)
    simp [hPc, LoopPc.called] at this
  | detach e deadline hPc =>
    have := hLeft (.inr (.inr rfl))
    simp [hPc, LoopPc.called] at this
  | ended e deadline ok hPc => exact hs.finish (.inr rfl) (by simp [hPc, closes])
  | stop =>
    have hNot := hLeft (.inr (.inr rfl))
    exact hs.finish (.inr rfl) fun hCloses => by simp [hCalled hCloses] at hNot

theorem Single.call {s t : World} (hs : s.Single) {n : Nat} {e : CallEv} (hTouched : t.touched = false)
    (h : s.callStep n e = some t) : t.Single := by
  cases callStep_move h with
  | missing | unwritten => exact hs.setCall (by simp)
  | found i hPc =>
    refine hs.setCall fun c done failed hc => ?_
    cases hApi : (s.call n).api with
    | update p =>
      rw [hApi] at hc
      simp only [Api.found, Patch.change] at hc
      split at hc <;> cases hc
      trivial
    | runNow => simp [hApi, Api.found] at hc
    | delete => simp [hApi, Api.found] at hc
  | responded ok hPc =>
    refine hs.setCall ?_
    rintro _ _ _ ⟨⟩
    simp [Modest]
  | written c done failed noop u hPc hWrite =>
    exact (hs.write hWrite hTouched (hs.calls n c done failed hPc)).1.setCall (by simp)
  | leaveWrite c done failed hPc =>
    exact (hs.setCall (by simp)).addStray (hs.calls n c done failed hPc)

theorem isOnce_write {s t : World} {w : Write} {noop : Bool} (h : s.write w noop = some t) :
    t.isOnce = s.isOnce ∧ (t.touched = false → s.touched = false) := by
  obtain ⟨-, -, doc, rfl, hDoc⟩ := write_eq_some h
  refine ⟨?_, fun hTouched => (touched_write hTouched).1⟩
  simp only [isOnce, noteWrite_doc, hDoc.kept 0 (Nat.zero_le _)]

/-- Nobody undoes an update, and the task that was created stays what it was. -/
theorem isOnce_step {s t : World} {a : SchedAct} (h : s.step a = some t) :
    t.isOnce = s.isOnce ∧ (t.touched = false → s.touched = false) := by
  cases a with
  | tick d =>
    obtain ⟨-, h⟩ := Option.ite_none_right_eq_some.mp h
    cases h
    exact ⟨rfl, id⟩
  | loop p e =>
    obtain ⟨-, h⟩ := Option.ite_none_right_eq_some.mp h
    cases loopStep_move h with
    | granted e noop u hPc hWrite => exact isOnce_write (t := u) hWrite
    | recorded e c noop u hPc hWrite => exact isOnce_write (t := u) hWrite
    | _ => exact ⟨rfl, id⟩
  | request api =>
    cases h
    exact ⟨rfl, id⟩
  | call n e =>
    cases callStep_move h with
    | written c done failed noop u hPc hWrite => exact isOnce_write (t := u) hWrite
    | _ => exact ⟨rfl, id⟩
  | stray w noop =>
    obtain ⟨-, h⟩ := Option.ite_none_right_eq_some.mp h
    obtain ⟨u, hWrite, rfl⟩ := Option.map_eq_some_iff.mp h
    exact isOnce_write (t := u) hWrite
  | vanish w =>
    obtain ⟨-, h⟩ := Option.ite_none_right_eq_some.mp h
    cases h
    exact ⟨rfl, id⟩

theorem Single.step {s t : World} (hs : s.Single) (hTimed : s.Timed) {a : SchedAct}
    (hPunctual : s.punctual a = true) (hOnce : s.isOnce = true) (hTouched : t.touched = false)
    (h : s.step a = some t) : t.Single := by
  have hWas := (isOnce_step h).2 hTouched
  cases a with
  | tick d =>
    obtain ⟨-, h⟩ := Option.ite_none_right_eq_some.mp h
    cases h
    exact ⟨hs.once, hs.execs, hs.fired, hs.granted, hs.recording, hs.strays, hs.calls⟩
  | loop p e =>
    obtain ⟨-, h⟩ := Option.ite_none_right_eq_some.mp h
    refine hs.loop hTimed ?_ hTouched h
    rintro (rfl | rfl | rfl) <;> simpa [punctual, hWas, hOnce] using hPunctual
  | request api =>
    cases h
    refine ⟨hs.once, hs.execs, hs.fired, hs.granted, hs.recording, hs.strays,
      fun n c done failed hn => ?_⟩
    rcases eq_or_ne n s.nextCall with rfl | hne
    · simp only [request_call, Function.update_self] at hn
      cases api with
      | delete =>
        cases hn
        trivial
      | _ => cases hn
    · exact hs.calls n c done failed (by simpa [hne] using hn)
  | call n e => exact hs.call hTouched h
  | stray w noop =>
    obtain ⟨hMem, h⟩ := Option.ite_none_right_eq_some.mp h
    obtain ⟨u, hWrite, rfl⟩ := Option.map_eq_some_iff.mp h
    have hu := (hs.write hWrite hTouched (hs.strays w hMem)).1
    exact ⟨hu.once, hu.execs, hu.fired, hu.granted, hu.recording,
      fun w' hw' => hu.strays w' (List.mem_of_mem_erase hw'), hu.calls⟩
  | vanish w =>
    obtain ⟨-, h⟩ := Option.ite_none_right_eq_some.mp h
    cases h
    exact ⟨hs.once, hs.execs, hs.fired, hs.granted, hs.recording,
      fun w' hw' => hs.strays w' (List.mem_of_mem_erase hw'), hs.calls⟩

theorem single_init {replicas : Nat} {httpTimeout now : Int} {task : Task}
    (h : (init replicas httpTimeout now task).isOnce = true) :
    (init replicas httpTimeout now task).Single where
  once i _ := ⟨task, rfl, h⟩
  execs p := ⟨fun _ _ he => (nomatch he), fun _ he => by rcases he with he | he <;> cases he⟩
  fired := .inl rfl
  granted _ _ he := nomatch he
  recording _ _ _ he := nomatch he
  strays _ hw := nomatch hw
  calls _ _ _ _ hc := nomatch hc

end World

/-- In every run whose steps are punctual no two handler calls of the loops overlap,
and the loops call the handler of a task of type once that nobody updates at most once. -/
theorem handler_calls_exclusive (replicas : Nat) (httpTimeout now : Int) (task : Task)
    {acts : List SchedAct} {s : World}
    (hRun : run World.step (.init replicas httpTimeout now task) acts = some s)
    (hPunctual : Along World.step (fun s a => s.punctual a = true)
      (.init replicas httpTimeout now task) acts) : s.Exclusive := by
  have hKept : s.Timed ∧ (s.touched = false → s.isOnce = true → s.Single) := by
    refine @Reach.invariant _ _ _ _
      (fun s => s.Timed ∧ (s.touched = false → s.isOnce = true → s.Single)) _ _
      ⟨World.timed_init _ _ _ _, fun _ => World.single_init⟩ ?_ (Reach.of_run hRun hPunctual)
    rintro s a t - ⟨hTimed, hSingle⟩ hOk hStep
    obtain ⟨hOnce, hTouched⟩ := World.isOnce_step hStep
    refine ⟨hTimed.step hOk hStep, fun hNew hIs => ?_⟩
    rw [hOnce] at hIs
    exact (hSingle (hTouched hNew) hIs).step hTimed hOk hIs hNew hStep
  refine ⟨fun p q d d' hp hq => ?_, fun hTouched hOnce => ?_⟩
  · have hExec : ∀ {pc : LoopPc} {d : Int}, pc.deadline = some d → ∃ e, pc.exec = some e := by
      intro pc d h
      cases pc with
      | handling e _ | detached e _ => exact ⟨e, rfl⟩
      | _ => cases h
    obtain ⟨e, he⟩ := hExec hp
    obtain ⟨f, hf⟩ := hExec hq
    exact hKept.1.alone p q e f he hf
  · rcases (hKept.2 hTouched hOnce).fired with hNone | ⟨hOne, -⟩
    · rw [hNone]
      exact Nat.zero_le 1
    · exact Nat.le_of_eq hOne

def onceTask : Task :=
  ⟨true, .dict ⟨some .once, none, some (some 0)⟩, .dict ⟨none⟩, 0, none, none, none⟩

def oneGranted : List SchedAct :=
  [.loop 0 .search, .loop 1 .search, .loop 0 (.hit 0), .loop 1 (.hit 0), .loop 0 .claim,
    .loop 1 .claim, .loop 0 (.land false), .loop 1 .fail, .loop 0 .call, .tick 3000,
    .loop 0 (.respond true), .loop 0 .record, .loop 0 (.land false), .tick 60000, .loop 1 .search,
    .loop 1 .miss]

theorem oneGranted_exclusive :
    ∃ s, run World.step (.init 2 60000 0 onceTask) oneGranted = some s ∧ s.fired = 1 ∧
      s.Exclusive := by
  obtain ⟨s, hRun, hs⟩ := exists_run_of_any World.step (.init 2 60000 0 onceTask) oneGranted
    (fun s => s.fired = 1) (by decide)
  exact ⟨s, hRun, of_decide_eq_true hs,
    handler_calls_exclusive 2 60000 0 onceTask hRun (by decide)⟩

/-- With the default timeout a handler call may outlast the minute of its claim. -/
theorem slowHandler_overlaps :
    ∃ s, run World.step (.init 2 60000 0 onceTask) [.loop 0 .search, .loop 0 (.hit 0),
        .loop 0 .claim, .loop 0 (.land false), .tick 1, .loop 0 .call, .tick 59999, .loop 1 .search,
        .loop 1 (.hit 1), .loop 1 .claim, .loop 1 (.land false), .loop 1 .call] = some s ∧
      s.touched = false ∧ s.isOnce = true ∧ s.fired = 2 ∧ ¬ s.Exclusive := by
  obtain ⟨s, hRun, hs⟩ := exists_run_of_any World.step (.init 2 60000 0 onceTask)
    [.loop 0 .search, .loop 0 (.hit 0), .loop 0 .claim, .loop 0 (.land false), .tick 1, .loop 0 .call,
      .tick 59999, .loop 1 .search, .loop 1 (.hit 1), .loop 1 .claim, .loop 1 (.land false),
      .loop 1 .call]
    (fun s => !s.touched && s.isOnce && s.fired = 2 && (s.loop 0).deadline = some 60001 &&
      (s.loop 1).deadline = some 120000) (by decide)
  simp only [Bool.and_eq_true, Bool.not_eq_true', decide_eq_true_eq] at hs
  obtain ⟨⟨⟨⟨hTouched, hOnce⟩, hFired⟩, hFirst⟩, hSecond⟩ := hs
  exact ⟨s, hRun, hTouched, hOnce, hFired,
    fun hExclusive => absurd (hExclusive.alone 0 1 _ _ hFirst hSecond) (by decide)⟩

end OpenSpoke.Scheduler
