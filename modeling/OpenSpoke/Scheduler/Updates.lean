import OpenSpoke.Scheduler.Search

/-!
# Updates of the schedule

An execution works on the task as its search has returned it, and records
unconditionally. Its claim has named the version, so that the schedule is the
stored one when it begins; an update that comes while the handler runs is
recorded over.
-/

namespace OpenSpoke.Scheduler

open Lts

/-- A record with no next_run_at leaves enabled, and an update with no schedule next_run_at. -/
def Change.Plain : Change → Prop
  | .record _ _ none enabled => enabled = none
  | .patch p next _ => p.schedule = none → next = none
  | _ => True

namespace World

/-- What an update of the schedule has set stays until an execution that began after it
writes it, and a recorded next_run_at is that of the stored schedule. -/
structure Intact (s : World) : Prop where
  kept : ∀ plan, s.updated = some plan → s.own = false → s.cur.map Task.plan = some plan
  computed : ∀ time task, s.base = some time → s.cur = some task →
    task.schedule.next time = some task.nextRunAt
  late : s.late = false

/-- The condition on a step: no execution that began before the last update of the
schedule records. -/
def upToDate (s : World) : SchedAct → Bool
  | .loop p (.land _) =>
    match s.loop p with
    | .recording e c => !c.reschedules || s.current ⟨none, c, some e.seqNo⟩
    | _ => true
  | .stray w _ => w.guard.isSome || !w.change.reschedules || s.current w
  | _ => true

/-- The request, if it records a next_run_at, comes from an execution that has seen the stored
schedule or is older than it. -/
def Tracks (s : World) (w : Write) : Prop :=
  w.change.Plain ∧ ∀ ok time next enabled, w.change = .record ok time (some next) enabled →
    w.guard = none ∧ ∃ i, w.source = some i ∧ i < s.doc.seqNo ∧
      (s.schedSeq ≤ i → ∀ task, s.cur = some task → task.schedule.next time = some next)

/-- The execution has seen the stored schedule or is older than it. -/
def Knows (s : World) (e : Exec) : Prop :=
  e.seqNo < s.doc.seqNo ∧
    (s.schedSeq ≤ e.seqNo → ∀ task, s.cur = some task → task.schedule = e.task.schedule)

structure Tracked (s : World) : Prop where
  sought : s.Sought
  seq : s.schedSeq ≤ s.doc.seqNo
  execs : ∀ p e, (s.loop p).exec = some e → s.Knows e
  records : ∀ p e c, s.loop p = .recording e c → s.Tracks ⟨none, c, some e.seqNo⟩
  calls : ∀ n c done failed, (s.call n).pc = .write c done failed → s.Tracks ⟨none, c, none⟩
  strays : ∀ w ∈ s.strays, s.Tracks w
  intact : s.Intact

/-- What a step keeps of the stored schedule. -/
structure Newer (s t : World) : Prop where
  seq : s.doc.seqNo ≤ t.doc.seqNo
  sched : t.schedSeq = t.doc.seqNo ∨ t.schedSeq = s.schedSeq ∧ ∀ task, t.cur = some task →
    ∃ old, s.cur = some old ∧ task.schedule = old.schedule

theorem newer_of_eq {s t : World} (hDoc : t.doc = s.doc) (hSched : t.schedSeq = s.schedSeq) :
    Newer s t :=
  ⟨hDoc ▸ Nat.le_refl _, .inr ⟨hSched, fun task hTask => ⟨task, by rwa [cur, ← hDoc], rfl⟩⟩⟩

theorem Newer.kept {s t : World} (h : Newer s t) {i : Nat} (hi : i < s.doc.seqNo)
    (hSeq : t.schedSeq ≤ i) : s.schedSeq ≤ i ∧ ∀ task, t.cur = some task →
      ∃ old, s.cur = some old ∧ task.schedule = old.schedule := by
  obtain ⟨hSame, hTask⟩ := h.sched.resolve_left fun hNew => by
    have := h.seq
    omega
  exact ⟨hSame ▸ hSeq, hTask⟩

theorem Tracks.newer {s t : World} (h : Newer s t) {w : Write} (hw : s.Tracks w) : t.Tracks w := by
  refine ⟨hw.1, fun ok time next enabled hc => ?_⟩
  obtain ⟨hGuard, i, hSource, hi, hNext⟩ := hw.2 ok time next enabled hc
  refine ⟨hGuard, i, hSource, Nat.lt_of_lt_of_le hi h.seq, fun hSeq task hTask => ?_⟩
  obtain ⟨hSeq, hSame⟩ := h.kept hi hSeq
  obtain ⟨old, hOld, hSchedule⟩ := hSame task hTask
  rw [hSchedule]
  exact hNext hSeq old hOld

theorem Knows.newer {s t : World} (h : Newer s t) {e : Exec} (he : s.Knows e) : t.Knows e := by
  refine ⟨Nat.lt_of_lt_of_le he.1 h.seq, fun hSeq task hTask => ?_⟩
  obtain ⟨hSeq, hSame⟩ := h.kept he.1 hSeq
  obtain ⟨old, hOld, hSchedule⟩ := hSame task hTask
  rw [hSchedule]
  exact he.2 hSeq old hOld

theorem Patch.change_plain {p : Patch} {now : Int} {c : Change} (h : p.change now = some c) :
    c.Plain ∧ ∀ ok time next enabled, c ≠ .record ok time next enabled := by
  obtain ⟨-, h⟩ := Option.ite_none_left_eq_some.mp h
  cases h
  refine ⟨fun hNone => ?_, by simp⟩
  simp [hNone]

theorem Schedule.record_tracks (schedule : Schedule) (ok : Bool) (now : Int) :
    (schedule.record ok now).Plain ∧ ∀ ok' time next enabled,
      schedule.record ok now = .record ok' time (some next) enabled →
      schedule.next time = some next := by
  unfold Schedule.record
  split
  next hNext =>
    refine ⟨trivial, ?_⟩
    rintro _ _ _ _ ⟨⟩
    exact hNext
  next => exact ⟨rfl, by simp⟩

theorem newer_write {s t : World} {w : Write} {noop : Bool} (h : s.write w noop = some t) :
    Newer s t := by
  obtain ⟨-, -, doc, rfl, hDoc⟩ := write_eq_some h
  have hSeq : s.doc.seqNo ≤ (s.noteWrite w doc).doc.seqNo := by simpa using hDoc.le
  have hCur : (s.noteWrite w doc).cur = w.change.apply s.cur := by rw [cur, noteWrite_doc, hDoc.cur]
  refine ⟨hSeq, ?_⟩
  rw [hCur, noteWrite_doc]
  unfold noteWrite
  split
  next hc =>
    refine .inr ⟨rfl, fun task hTask => ?_⟩
    rw [hc] at hTask
    obtain ⟨old, hOld, rfl⟩ := Option.map_eq_some_iff.mp hTask
    exact ⟨old, hOld, rfl⟩
  next hc =>
    refine .inr ⟨rfl, fun task hTask => ?_⟩
    rw [hc] at hTask
    obtain ⟨old, hOld, rfl⟩ := Option.map_eq_some_iff.mp hTask
    exact ⟨old, hOld, rfl⟩
  next hc =>
    refine .inr ⟨rfl, fun task hTask => ?_⟩
    rw [hc] at hTask
    obtain ⟨old, hOld, rfl⟩ := Option.map_eq_some_iff.mp hTask
    exact ⟨old, hOld, rfl⟩
  next p next time hc =>
    split
    · exact .inl rfl
    · next hNone =>
      refine .inr ⟨rfl, fun task hTask => ?_⟩
      rw [hc] at hTask
      obtain ⟨old, hOld, rfl⟩ := Option.map_eq_some_iff.mp hTask
      exact ⟨old, hOld, by simp [Option.not_isSome_iff_eq_none.mp hNone]⟩
  next hc =>
    refine .inr ⟨rfl, fun task hTask => ?_⟩
    rw [hc] at hTask
    cases hTask

theorem Intact.write {s t : World} (hs : s.Intact) {w : Write} {noop : Bool} (hw : s.Tracks w)
    (hOk : ∀ ok time next enabled, w.change = .record ok time (some next) enabled →
      s.current w = true)
    (h : s.write w noop = some t) : t.Intact := by
  obtain ⟨-, -, doc, rfl, hDoc⟩ := write_eq_some h
  obtain ⟨hPlain, hTracks⟩ := hw
  have hCur : doc.cur = w.change.apply s.cur := hDoc.cur
  unfold noteWrite
  split
  next next hc => exact ⟨by simp, by simp, hs.late⟩
  next ok time enabled hc =>
    rw [hc] at hPlain hCur
    obtain rfl : enabled = none := hPlain
    refine ⟨fun plan hPlan hOwn => ?_, fun b task hBase hTask => ?_, hs.late⟩
    · rw [cur, hCur, Change.apply, Option.map_map]
      exact hs.kept plan hPlan hOwn
    · rw [cur, hCur] at hTask
      obtain ⟨old, hOld, rfl⟩ := Option.map_eq_some_iff.mp hTask
      exact hs.computed b old hBase hOld
  next ok time next enabled hc =>
    have hCurrent := hOk ok time next enabled hc
    obtain ⟨-, i, hSource, -, hNext⟩ := hTracks ok time next enabled hc
    have hSeq : s.schedSeq ≤ i := by
      simp only [current, decide_eq_true_eq] at hCurrent
      exact hCurrent i (by rw [hSource]; rfl)
    refine ⟨fun plan _ hOwn => ?_, fun b task hBase hTask => ?_, ?_⟩
    · simp [hCurrent] at hOwn
    · obtain rfl : time = b := by simpa using hBase
      rw [cur, hCur, hc] at hTask
      obtain ⟨old, hOld, rfl⟩ := Option.map_eq_some_iff.mp hTask
      exact hNext hSeq old hOld
    · simp [hCurrent, hs.late]
  next p next time hc =>
    split
    next => exact ⟨fun plan hPlan _ => by simpa using hPlan, by simp, hs.late⟩
    next hNone =>
      have hNone := Option.not_isSome_iff_eq_none.mp hNone
      rw [hc] at hPlain hCur
      obtain rfl : next = none := hPlain hNone
      refine ⟨fun plan hPlan hOwn => ?_, fun b task hBase hTask => ?_, hs.late⟩
      · obtain ⟨old, hOld, rfl⟩ := Option.map_eq_some_iff.mp hPlan
        obtain ⟨task, hTask, hSame⟩ := Option.map_eq_some_iff.mp (hs.kept old hOld hOwn)
        rw [cur, hCur, hTask, ← hSame]
        rfl
      · rw [cur, hCur] at hTask
        obtain ⟨old, hOld, rfl⟩ := Option.map_eq_some_iff.mp hTask
        simpa [hNone] using hs.computed b old hBase hOld
  next hc => exact ⟨by simp, by simp, hs.late⟩

theorem tracked_init (replicas : Nat) (httpTimeout now : Int) (task : Task) :
    (init replicas httpTimeout now task).Tracked where
  sought := sought_init _ _ _ _
  seq := Nat.le_refl _
  execs _ _ he := nomatch he
  records _ _ _ he := nomatch he
  calls _ _ _ _ hc := nomatch hc
  strays _ hw := nomatch hw
  intact := ⟨fun _ h => (nomatch h), fun _ _ h => (nomatch h), rfl⟩

theorem Tracked.still {s t : World} (hs : s.Tracked) (hSought : t.Sought) (hDoc : t.doc = s.doc)
    (hSched : t.schedSeq = s.schedSeq)
    (hExecs : ∀ p e, (t.loop p).exec = some e → (s.loop p).exec = some e)
    (hRecords : ∀ p e c, t.loop p = .recording e c → s.Tracks ⟨none, c, some e.seqNo⟩)
    (hCalls : ∀ n c done failed, (t.call n).pc = .write c done failed → s.Tracks ⟨none, c, none⟩)
    (hStrays : ∀ w ∈ t.strays, s.Tracks w)
    (hUpdated : t.updated = s.updated) (hOwn : t.own = s.own) (hBase : t.base = s.base)
    (hLate : t.late = s.late) : t.Tracked := by
  have hNewer := newer_of_eq hDoc hSched
  have hCur : t.cur = s.cur := by rw [cur, hDoc]
  exact
    { sought := hSought
      seq := by rw [hSched, hDoc]; exact hs.seq
      execs := fun p e he => (hs.execs p e (hExecs p e he)).newer hNewer
      records := fun p e c he => (hRecords p e c he).newer hNewer
      calls := fun n c done failed hc => (hCalls n c done failed hc).newer hNewer
      strays := fun w hw => (hStrays w hw).newer hNewer
      intact := by
        refine ⟨?_, ?_, hLate.trans hs.intact.late⟩
        · rw [hUpdated, hOwn, hCur]
          exact hs.intact.kept
        · rw [hBase, hCur]
          exact hs.intact.computed }

theorem Tracked.write {s t : World} (hs : s.Tracked) {w : Write} {noop : Bool} (hw : s.Tracks w)
    (hOk : ∀ ok time next enabled, w.change = .record ok time (some next) enabled →
      s.current w = true)
    (h : s.write w noop = some t) : t.Tracked := by
  have hNewer := newer_write h
  have hIntact := hs.intact.write hw hOk h
  have hSought := hs.sought.write h
  obtain ⟨-, -, doc, rfl, -⟩ := write_eq_some h
  refine ⟨hSought, ?_, fun p e he => ?_, fun p e c he => ?_, fun n c done failed hc => ?_,
    fun v hv => ?_, hIntact⟩
  · rcases hNewer.sched with hNew | ⟨hSame, -⟩
    · exact Nat.le_of_eq hNew
    · rw [hSame]
      exact Nat.le_trans hs.seq hNewer.seq
  · exact (hs.execs p e (by simpa using he)).newer hNewer
  · exact (hs.records p e c (by simpa using he)).newer hNewer
  · exact (hs.calls n c done failed (by simpa using hc)).newer hNewer
  · exact (hs.strays v (by simpa using hv)).newer hNewer

theorem Tracked.setLoop {s : World} (hs : s.Tracked) {p : Nat} {pc : LoopPc}
    (hSeeks : s.Seeks pc) (hExec : ∀ e, pc.exec = some e → s.Knows e)
    (hRecord : ∀ e c, pc = .recording e c → s.Tracks ⟨none, c, some e.seqNo⟩) :
    (s.setLoop p pc).Tracked := by
  have hNewer : Newer s (s.setLoop p pc) := newer_of_eq rfl rfl
  refine ⟨hs.sought.setLoop hSeeks, hs.seq, fun q e he => ?_, fun q e c hq => ?_,
    fun n c done failed hc => (hs.calls n c done failed hc).newer hNewer,
    fun w hw => (hs.strays w hw).newer hNewer, hs.intact.kept, hs.intact.computed, hs.intact.late⟩
  · rcases eq_or_ne q p with rfl | hne
    · exact (hExec e (by simpa using he)).newer hNewer
    · exact (hs.execs q e (by simpa [hne] using he)).newer hNewer
  · rcases eq_or_ne q p with rfl | hne
    · exact (hRecord e c (by simpa using hq)).newer hNewer
    · exact (hs.records q e c (by simpa [hne] using hq)).newer hNewer

theorem Tracked.setCall {s : World} (hs : s.Tracked) {n : Nat} {pc : CallPc}
    (hWrite : ∀ c done failed, pc = .write c done failed → s.Tracks ⟨none, c, none⟩) :
    (s.setCall n pc).Tracked := by
  have hLater : Later s (s.setCall n pc) := ⟨Int.le_refl _, Nat.le_refl _, fun _ _ => rfl⟩
  refine hs.still (hs.sought.later hLater rfl fun w hw => .inl hw) rfl rfl (fun _ _ he => he)
    hs.records (fun m c done failed hm => ?_) hs.strays rfl rfl rfl rfl
  rcases eq_or_ne m n with rfl | hne
  · exact hWrite c done failed (by simpa using hm)
  · exact hs.calls m c done failed (by simpa [hne] using hm)

theorem Tracked.addStray {s : World} (hs : s.Tracked) {w : Write} (hw : s.Tracks w)
    (hClaim : w.guard = none ∨ ∃ e, w = e.advance ∧ s.Claims e) : (s.addStray w).Tracked :=
  hs.still (hs.sought.addStray hClaim) rfl rfl (fun _ _ he => he) hs.records hs.calls
    (fun v hv => (List.mem_cons.mp hv).elim (fun hEq => hEq ▸ hw) (hs.strays v)) rfl rfl rfl rfl

theorem Tracked.dropStray {s : World} (hs : s.Tracked) (w : Write) : (s.dropStray w).Tracked := by
  have hLater : Later s (s.dropStray w) := ⟨Int.le_refl _, Nat.le_refl _, fun _ _ => rfl⟩
  exact hs.still (hs.sought.later hLater rfl fun v hv => .inl (List.mem_of_mem_erase hv)) rfl rfl
    (fun _ _ he => he) hs.records hs.calls (fun v hv => hs.strays v (List.mem_of_mem_erase hv)) rfl rfl
    rfl rfl

theorem tracks_advance (s : World) (e : Exec) : s.Tracks e.advance :=
  ⟨trivial, fun _ _ _ _ hc => (nomatch hc)⟩

theorem tracks_plain {s : World} {c : Change} (hPlain : c.Plain)
    (hNext : ∀ ok time next enabled, c ≠ .record ok time (some next) enabled) :
    s.Tracks ⟨none, c, none⟩ :=
  ⟨hPlain, fun ok time next enabled hc => absurd hc (hNext ok time next enabled)⟩

/-- A granted execution has seen the stored schedule. -/
theorem Claims.knows {s t : World} {e : Exec} (hClaims : s.Claims e) {noop : Bool}
    (h : s.write e.advance noop = some t) : t.Knows e := by
  obtain ⟨hGuard, -, doc, rfl, hDoc⟩ := write_eq_some h
  have hSeqNo : e.seqNo = s.doc.seqNo := hGuard e.seqNo rfl
  have hCur : s.cur = some e.task := by
    rw [← hClaims.due.version, hSeqNo]
    rfl
  have hNew : e.advance.change.apply s.cur = some { e.task with nextRunAt := e.advanceTo } := by
    rw [hCur]
    rfl
  refine ⟨?_, fun _ task hTask => ?_⟩
  · rw [noteWrite_doc, hSeqNo]
    refine hDoc.grows fun hSame => ?_
    rw [hNew, hCur] at hSame
    have := congrArg Task.nextRunAt (Option.some.inj hSame)
    have := hClaims.ahead
    simp only at *
    omega
  · rw [cur, noteWrite_doc, hDoc.cur, hNew] at hTask
    obtain rfl := Option.some.inj hTask
    rfl

theorem Tracked.loop {s t : World} (hs : s.Tracked) {p : Nat} {e : LoopEv}
    (hOk : s.upToDate (.loop p e) = true) (h : s.loopStep p e = some t) : t.Tracked := by
  have hSeeks := hs.sought.loops p
  -- an execution goes on
  have hGoOn : ∀ {pc : LoopPc} {e : Exec}, (s.loop p).exec = some e → s.Seeks pc →
      (∀ f, pc.exec = some f → f = e) →
      (∀ f c, pc = .recording f c → s.Tracks ⟨none, c, some f.seqNo⟩) → (s.setLoop p pc).Tracked := by
    intro pc e he hSeeks hpc hRecord
    exact hs.setLoop hSeeks (fun f hf => hpc f hf ▸ hs.execs p e he) hRecord
  cases loopStep_move h with
  | search => exact hs.setLoop (Int.le_refl _) (by simp [LoopPc.exec]) (by simp)
  | miss | refused | unrecorded | ended | stop =>
    exact hs.setLoop trivial (by simp [LoopPc.exec]) (by simp)
  | hit nowIso i task hPc hi hTask hEnabled hDue =>
    rw [hPc] at hSeeks
    exact hs.setLoop ⟨hi, hTask, hEnabled, Int.le_trans hDue hSeeks⟩ (by simp [LoopPc.exec]) (by simp)
  | claim i task hPc =>
    rw [hPc] at hSeeks
    have hAhead : task.nextRunAt < s.now + 60000 := by
      have := hSeeks.due
      omega
    exact hs.setLoop ⟨hSeeks, hAhead⟩ (by simp [LoopPc.exec]) (by simp)
  | granted e noop u hPc hWrite =>
    rw [hPc] at hSeeks
    have hu := hs.write (s.tracks_advance e) (fun _ _ _ _ hc => (nomatch hc)) hWrite
    refine hu.setLoop trivial ?_ (by simp)
    rintro _ ⟨⟩
    exact Claims.knows hSeeks hWrite
  | leaveClaim e ev pc hPc hNext =>
    rw [hPc] at hSeeks
    have hNew : (s.setLoop p pc).Tracked := by
      rcases hNext with rfl | rfl <;> exact hs.setLoop trivial (by simp [LoopPc.exec]) (by simp)
    have hLater : Later s (s.setLoop p pc) := ⟨Int.le_refl _, Nat.le_refl _, fun _ _ => rfl⟩
    exact hNew.addStray (tracks_advance _ e) (.inr ⟨e, rfl, Claims.later hLater hSeeks⟩)
  | raised e hPc =>
    refine hGoOn (e := e) (by rw [hPc]; rfl) trivial (by simp [LoopPc.exec, eq_comm]) ?_
    rintro _ _ ⟨⟩
    exact ⟨rfl, fun _ _ _ _ hc => (nomatch hc)⟩
  | uncalled e hPc =>
    exact hGoOn (e := e) (by rw [hPc]; rfl) trivial (by simp [LoopPc.exec, eq_comm]) (by simp)
  | call e timeout hPc =>
    have hNew : (s.setLoop p (.handling e (s.now + timeout))).Tracked :=
      hGoOn (e := e) (by rw [hPc]; rfl) trivial (by simp [LoopPc.exec, eq_comm]) (by simp)
    have hLater : Later (s.setLoop p (.handling e (s.now + timeout)))
        (s.fire.setLoop p (.handling e (s.now + timeout))) :=
      ⟨Int.le_refl _, Nat.le_refl _, fun _ _ => rfl⟩
    exact hNew.still (hNew.sought.later hLater rfl fun w hw => .inl hw) rfl rfl (fun _ _ he => he)
      hNew.records hNew.calls hNew.strays rfl rfl rfl rfl
  | respond e deadline ok hPc =>
    exact hGoOn (e := e) (by rw [hPc]; rfl) trivial (by simp [LoopPc.exec, eq_comm]) (by simp)
  | detach e deadline hPc =>
    exact hGoOn (e := e) (by rw [hPc]; rfl) trivial (by simp [LoopPc.exec, eq_comm]) (by simp)
  | record e ok hPc =>
    have hKnows := hs.execs p e (by rw [hPc]; rfl)
    refine hGoOn (e := e) (by rw [hPc]; rfl) trivial (by simp [LoopPc.exec, eq_comm]) ?_
    rintro _ _ ⟨⟩
    obtain ⟨hPlain, hNext⟩ := Schedule.record_tracks e.task.schedule ok s.now
    refine ⟨hPlain, fun ok' time next enabled hc => ⟨rfl, e.seqNo, rfl, hKnows.1, fun hSeq task hTask => ?_⟩⟩
    rw [hKnows.2 hSeq task hTask]
    exact hNext ok' time next enabled hc
  | recorded e c noop u hPc hWrite =>
    have hu := hs.write (hs.records p e c hPc) (fun ok time next enabled hc => by
      have hc : c = .record ok time (some next) enabled := hc
      simpa [upToDate, hPc, hc, Change.reschedules] using hOk) hWrite
    exact hu.setLoop trivial (by simp [LoopPc.exec]) (by simp)
  | leaveRecord e c ev pc hPc hNext =>
    have hNew : (s.setLoop p pc).Tracked := by
      rcases hNext with rfl | rfl <;> exact hs.setLoop trivial (by simp [LoopPc.exec]) (by simp)
    exact hNew.addStray ((hs.records p e c hPc).newer (newer_of_eq rfl rfl)) (.inl rfl)

theorem Tracked.step {s t : World} (hs : s.Tracked) {a : SchedAct} (hOk : s.upToDate a = true)
    (h : s.step a = some t) : t.Tracked := by
  have hSought := hs.sought.step h
  cases a with
  | tick d =>
    obtain ⟨-, h⟩ := Option.ite_none_right_eq_some.mp h
    cases h
    exact hs.still hSought rfl rfl (fun _ _ he => he) hs.records hs.calls hs.strays rfl rfl rfl rfl
  | loop p e =>
    obtain ⟨-, h⟩ := Option.ite_none_right_eq_some.mp h
    exact hs.loop hOk h
  | request api =>
    cases h
    refine hs.still hSought rfl rfl (fun _ _ he => he) hs.records (fun n c done failed hn => ?_)
      hs.strays rfl rfl rfl rfl
    rcases eq_or_ne n s.nextCall with rfl | hne
    · simp only [request_call, Function.update_self] at hn
      cases api with
      | delete =>
        cases hn
        exact tracks_plain trivial (by simp)
      | _ => cases hn
    · exact hs.calls n c done failed (by simpa [hne] using hn)
  | call n e =>
    cases callStep_move h with
    | missing | unwritten => exact hs.setCall (by simp)
    | found i hPc =>
      refine hs.setCall fun c done failed hc => ?_
      cases hApi : (s.call n).api with
      | update p =>
        rw [hApi] at hc
        cases hChange : p.change s.now with
        | none => simp [Api.found, hChange] at hc
        | some c' =>
          obtain ⟨rfl, -⟩ : c' = c ∧ _ := by simpa [Api.found, hChange] using hc
          obtain ⟨hPlain, hNot⟩ := Patch.change_plain hChange
          exact tracks_plain hPlain fun ok time next enabled => hNot ok time (some next) enabled
      | runNow => simp [hApi, Api.found] at hc
      | delete => simp [hApi, Api.found] at hc
    | responded ok hPc =>
      refine hs.setCall ?_
      rintro _ _ _ ⟨⟩
      exact tracks_plain rfl (by simp)
    | written c done failed noop u hPc hWrite =>
      have hTracks := hs.calls n c done failed hPc
      refine (hs.write hTracks (fun ok time next enabled hc => ?_) hWrite).setCall (by simp)
      obtain ⟨-, i, hSource, -⟩ := hTracks.2 ok time next enabled hc
      cases hSource
    | leaveWrite c done failed hPc =>
      exact (hs.setCall (by simp)).addStray ((hs.calls n c done failed hPc).newer (newer_of_eq rfl rfl))
        (.inl rfl)
  | stray w noop =>
    obtain ⟨hMem, h⟩ := Option.ite_none_right_eq_some.mp h
    obtain ⟨u, hWrite, rfl⟩ := Option.map_eq_some_iff.mp h
    have hTracks := hs.strays w hMem
    refine (hs.write hTracks (fun ok time next enabled hc => ?_) hWrite).dropStray w
    obtain ⟨hGuard, -⟩ := hTracks.2 ok time next enabled hc
    simpa [upToDate, hc, hGuard, Change.reschedules] using hOk
  | vanish w =>
    obtain ⟨-, h⟩ := Option.ite_none_right_eq_some.mp h
    cases h
    exact hs.dropStray w

end World

/-- In every run in which no execution records that began before the last update of the
schedule, that update is not lost. -/
theorem schedule_updates_kept (replicas : Nat) (httpTimeout now : Int) (task : Task)
    {acts : List SchedAct} {s : World}
    (hRun : run World.step (.init replicas httpTimeout now task) acts = some s)
    (hOk : Along World.step (fun s a => s.upToDate a = true) (.init replicas httpTimeout now task)
      acts) : s.Intact := by
  have hTracked : s.Tracked := (Reach.of_run hRun hOk).invariant (World.tracked_init _ _ _ _)
    fun _ _ _ _ hs hOk hStep => hs.step hOk hStep
  exact hTracked.intact

def dueTask : Task :=
  ⟨true, .dict ⟨some .once, none, some (some 0)⟩, .dict ⟨none⟩, 0, none, none, none⟩

/-- A schedule without a type keeps the stored one. -/
example : ((Change.patch ⟨none, some (.dict ⟨none, some (some 300), none⟩), none, false⟩ (some 0) 0).apply
    (some dueTask)).map (·.schedule.once) = some true := by decide

/-- The task is to run every five minutes from now on. -/
def reschedule : List SchedAct :=
  [.request (.update ⟨none, some (.dict ⟨some .interval, some (some 300), none⟩), none, false⟩),
    .call 0 (.read 0), .call 0 (.land false)]

/-- The update, and an execution after it. -/
def updatedFirst : List SchedAct :=
  reschedule ++ [.loop 0 .search, .loop 0 (.hit 1), .loop 0 .claim, .loop 0 (.land false),
    .loop 0 .call, .tick 2000, .loop 0 (.respond true), .loop 0 .record, .loop 0 (.land false)]

theorem updatedFirst_kept : ∃ s, run World.step (.init 1 60000 0 dueTask) updatedFirst = some s ∧
    s.cur.map Task.plan = some (302000, true) ∧ s.Intact := by
  obtain ⟨s, hRun, hs⟩ := exists_run_of_any World.step (.init 1 60000 0 dueTask) updatedFirst
    (fun s => s.cur.map Task.plan = some (302000, true)) (by decide)
  exact ⟨s, hRun, of_decide_eq_true hs, schedule_updates_kept 1 60000 0 dueTask hRun (by decide)⟩

/-- An execution that began before the update disables the task. -/
theorem updatedMeanwhile_lost :
    ∃ s, run World.step (.init 1 60000 0 dueTask) ([.loop 0 .search, .loop 0 (.hit 0),
        .loop 0 .claim, .loop 0 (.land false), .loop 0 .call] ++ reschedule ++
        [.loop 0 (.respond true), .loop 0 .record, .loop 0 (.land false)]) = some s ∧
      (s.call 0).pc = .replied true ∧ s.updated = some (0, true) ∧ s.own = false ∧
      s.cur.map Task.plan = some (farFuture, false) ∧ ¬ s.Intact := by
  obtain ⟨s, hRun, hs⟩ := exists_run_of_any World.step (.init 1 60000 0 dueTask)
    ([.loop 0 .search, .loop 0 (.hit 0), .loop 0 .claim, .loop 0 (.land false), .loop 0 .call] ++
      reschedule ++ [.loop 0 (.respond true), .loop 0 .record, .loop 0 (.land false)])
    (fun s => (s.call 0).pc = .replied true && s.updated = some (0, true) && !s.own &&
      s.cur.map Task.plan = some (farFuture, false)) (by decide)
  simp only [Bool.and_eq_true, Bool.not_eq_true', decide_eq_true_eq] at hs
  obtain ⟨⟨⟨hReplied, hUpdated⟩, hOwn⟩, hPlan⟩ := hs
  refine ⟨s, hRun, hReplied, hUpdated, hOwn, hPlan, fun hIntact => ?_⟩
  have hKept := hIntact.kept (0, true) hUpdated hOwn
  rw [hPlan] at hKept
  cases hKept

end OpenSpoke.Scheduler
