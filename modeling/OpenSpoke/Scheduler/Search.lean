import OpenSpoke.Scheduler.Step

/-!
# What the steps of a scheduled task can do

One lemma for a write, one for a step of a loop and one for a step of a task
endpoint. The invariants are derived from these.
-/

namespace OpenSpoke.Scheduler

open Lts

namespace World

/-- The document `doc` after a write of `task`, or after none that would change nothing. -/
structure Writes (s : World) (task : Option Task) (doc : Document (Option Task)) : Prop where
  cur : doc.cur = task
  le : s.doc.seqNo ≤ doc.seqNo
  kept : ∀ i ≤ s.doc.seqNo, doc.version i = s.doc.version i
  grows : task ≠ s.cur → s.doc.seqNo < doc.seqNo
  last : ∀ i ≤ doc.seqNo, i ≤ s.doc.seqNo ∨ doc.version i = task

theorem writes_put (s : World) (task : Option Task) : s.Writes task (s.doc.put task) where
  cur := Document.cur_put _ _
  le := Nat.le_succ _
  kept _ hi := s.doc.version_put _ hi
  grows _ := Nat.lt_succ_self _
  last i hi := by
    rcases Nat.lt_or_ge s.doc.seqNo i with hlt | hle
    · obtain rfl : i = s.doc.seqNo + 1 := by
        rw [Document.seqNo_put] at hi
        omega
      exact .inr (by simp [Document.put])
    · exact .inl hle

theorem writes_self (s : World) {task : Option Task} (h : task = s.cur) : s.Writes task s.doc where
  cur := h.symm
  le := Nat.le_refl _
  kept _ _ := rfl
  grows hne := absurd h hne
  last _ hi := .inl hi

theorem write_eq_some {s t : World} {w : Write} {noop : Bool} (h : s.write w noop = some t) :
    (∀ i ∈ w.guard, i = s.doc.seqNo) ∧ (w.change = .delete ∨ s.cur.isSome = true) ∧
      ∃ doc, t = s.noteWrite w doc ∧ s.Writes (w.change.apply s.cur) doc := by
  obtain ⟨⟨hGuard, hCur⟩, h⟩ := Option.ite_none_right_eq_some.mp h
  refine ⟨hGuard, hCur, ?_⟩
  cases noop with
  | false => exact ⟨_, (Option.some.inj h).symm, s.writes_put _⟩
  | true =>
    obtain ⟨hSame, h⟩ := Option.ite_none_right_eq_some.mp h
    exact ⟨_, (Option.some.inj h).symm, s.writes_self hSame⟩

section NoteWrite

variable (s : World) (w : Write) (doc : Document (Option Task))

theorem noteWrite_frame : (s.noteWrite w doc).doc = doc ∧ (s.noteWrite w doc).loop = s.loop ∧
    (s.noteWrite w doc).call = s.call ∧ (s.noteWrite w doc).strays = s.strays ∧
    (s.noteWrite w doc).now = s.now ∧ (s.noteWrite w doc).replicas = s.replicas ∧
    (s.noteWrite w doc).fired = s.fired ∧ (s.noteWrite w doc).nextCall = s.nextCall ∧
    (s.noteWrite w doc).httpTimeout = s.httpTimeout := by
  unfold noteWrite
  repeat' split
  all_goals exact ⟨rfl, rfl, rfl, rfl, rfl, rfl, rfl, rfl, rfl⟩

@[simp] theorem noteWrite_doc : (s.noteWrite w doc).doc = doc := (s.noteWrite_frame w doc).1
@[simp] theorem noteWrite_loop : (s.noteWrite w doc).loop = s.loop := (s.noteWrite_frame w doc).2.1
@[simp] theorem noteWrite_call : (s.noteWrite w doc).call = s.call :=
  (s.noteWrite_frame w doc).2.2.1
@[simp] theorem noteWrite_strays : (s.noteWrite w doc).strays = s.strays :=
  (s.noteWrite_frame w doc).2.2.2.1
@[simp] theorem noteWrite_now : (s.noteWrite w doc).now = s.now :=
  (s.noteWrite_frame w doc).2.2.2.2.1
@[simp] theorem noteWrite_replicas : (s.noteWrite w doc).replicas = s.replicas :=
  (s.noteWrite_frame w doc).2.2.2.2.2.1
@[simp] theorem noteWrite_fired : (s.noteWrite w doc).fired = s.fired :=
  (s.noteWrite_frame w doc).2.2.2.2.2.2.1

end NoteWrite

/-- What a loop can do. -/
inductive LoopMove (s : World) (p : Nat) : LoopEv → World → Prop
  | search (hPc : s.loop p = .idle) : LoopMove s p .search (s.setLoop p (.searching s.now))
  | miss (nowIso : Int) (hPc : s.loop p = .searching nowIso) :
      LoopMove s p .miss (s.setLoop p .idle)
  | hit (nowIso : Int) (i : Nat) (task : Task) (hPc : s.loop p = .searching nowIso)
      (hi : i ≤ s.doc.seqNo) (hTask : s.doc.version i = some task) (hEnabled : task.enabled = true)
      (hDue : task.nextRunAt ≤ nowIso) : LoopMove s p (.hit i) (s.setLoop p (.found i task))
  | claim (i : Nat) (task : Task) (hPc : s.loop p = .found i task) :
      LoopMove s p .claim (s.setLoop p (.advancing ⟨i, task, s.now + 60000⟩))
  | granted (e : Exec) (noop : Bool) (t : World) (hPc : s.loop p = .advancing e)
      (hWrite : s.write e.advance noop = some t) : LoopMove s p (.land noop) (t.setLoop p (.granted e))
  | refused (e : Exec) (hPc : s.loop p = .advancing e) : LoopMove s p .fail (s.setLoop p .idle)
  -- the request for the claim is left behind
  | leaveClaim (e : Exec) (ev : LoopEv) (pc : LoopPc) (hPc : s.loop p = .advancing e)
      (hNext : pc = .idle ∨ pc = .stopped) : LoopMove s p ev ((s.setLoop p pc).addStray e.advance)
  | raised (e : Exec) (hPc : s.loop p = .granted e) :
      LoopMove s p .call (s.setLoop p (.recording e (.record false s.now none none)))
  | uncalled (e : Exec) (hPc : s.loop p = .granted e) :
      LoopMove s p .call (s.setLoop p (.responded e false))
  | call (e : Exec) (timeout : Int) (hPc : s.loop p = .granted e) :
      LoopMove s p .call (s.fire.setLoop p (.handling e (s.now + timeout)))
  | respond (e : Exec) (deadline : Int) (ok : Bool) (hPc : s.loop p = .handling e deadline) :
      LoopMove s p (.respond ok) (s.setLoop p (.responded e ok))
  | record (e : Exec) (ok : Bool) (hPc : s.loop p = .responded e ok) :
      LoopMove s p .record (s.setLoop p (.recording e (e.task.schedule.record ok s.now)))
  | recorded (e : Exec) (c : Change) (noop : Bool) (t : World) (hPc : s.loop p = .recording e c)
      (hWrite : s.write ⟨none, c, some e.seqNo⟩ noop = some t) :
      LoopMove s p (.land noop) (t.setLoop p .idle)
  | unrecorded (e : Exec) (c : Change) (hPc : s.loop p = .recording e c) :
      LoopMove s p .fail (s.setLoop p .idle)
  | leaveRecord (e : Exec) (c : Change) (ev : LoopEv) (pc : LoopPc) (hPc : s.loop p = .recording e c)
      (hNext : pc = .idle ∨ pc = .stopped) (hEv : ev = .giveUp ∨ ev = .stop) :
      LoopMove s p ev ((s.setLoop p pc).addStray ⟨none, c, some e.seqNo⟩)
  | detach (e : Exec) (deadline : Int) (hPc : s.loop p = .handling e deadline) :
      LoopMove s p .stop (s.setLoop p (.detached e deadline))
  | ended (e : Exec) (deadline : Int) (ok : Bool) (hPc : s.loop p = .detached e deadline) :
      LoopMove s p (.respond ok) (s.setLoop p .stopped)
  | stop : LoopMove s p .stop (s.setLoop p .stopped)

theorem loopStep_move {s t : World} {p : Nat} {e : LoopEv} (h : s.loopStep p e = some t) :
    LoopMove s p e t := by
  unfold loopStep at h
  split at h
  next hPc => cases h; exact .search hPc
  next nowIso hPc => cases h; exact .miss nowIso hPc
  next nowIso i hPc =>
    split at h
    next task hTask =>
      obtain ⟨⟨hi, hEnabled, hDue⟩, h⟩ := Option.ite_none_right_eq_some.mp h
      cases h
      exact .hit nowIso i task hPc hi hTask hEnabled hDue
    next => cases h
  next i task hPc => cases h; exact .claim i task hPc
  next e noop hPc =>
    obtain ⟨u, hWrite, rfl⟩ := Option.map_eq_some_iff.mp h
    exact .granted e noop u hPc hWrite
  next e hPc => cases h; exact .refused e hPc
  next e hPc => cases h; exact .leaveClaim e _ _ hPc (.inl rfl)
  next e hPc =>
    split at h
    · cases h; exact .raised e hPc
    · split at h <;> cases h
      · exact .uncalled e hPc
      · exact .call e _ hPc
  next e deadline ok hPc => cases h; exact .respond e deadline ok hPc
  next e deadline ok hPc => cases h; exact .ended e deadline ok hPc
  next e ok hPc => cases h; exact .record e ok hPc
  next e c noop hPc =>
    obtain ⟨u, hWrite, rfl⟩ := Option.map_eq_some_iff.mp h
    exact .recorded e c noop u hPc hWrite
  next e c hPc => cases h; exact .unrecorded e c hPc
  next e c hPc => cases h; exact .leaveRecord e c _ _ hPc (.inl rfl) (.inl rfl)
  next e hPc => cases h; exact .leaveClaim e _ _ hPc (.inr rfl)
  next e c hPc => cases h; exact .leaveRecord e c _ _ hPc (.inr rfl) (.inr rfl)
  next e deadline hPc => cases h; exact .detach e deadline hPc
  next => cases h; exact .stop
  next => cases h; exact .stop
  next => cases h; exact .stop
  next => cases h; exact .stop
  next => cases h; exact .stop
  next => cases h

/-- What a task endpoint can do. -/
inductive CallMove (s : World) (n : Nat) : CallEv → World → Prop
  | missing (ev : CallEv) (hPc : (s.call n).pc = .read) : CallMove s n ev (s.setCall n (.replied false))
  | found (i : Nat) (hPc : (s.call n).pc = .read) :
      CallMove s n (.read i) (s.setCall n ((s.call n).api.found s.now))
  | responded (ok : Bool) (hPc : (s.call n).pc = .handling) :
      CallMove s n (.respond ok) (s.setCall n (.write (.record ok s.now none none) ok ok))
  | written (c : Change) (done failed noop : Bool) (t : World) (hPc : (s.call n).pc = .write c done failed)
      (hWrite : s.write ⟨none, c, none⟩ noop = some t) :
      CallMove s n (.land noop) (t.setCall n (.replied done))
  | unwritten (c : Change) (done failed : Bool) (hPc : (s.call n).pc = .write c done failed) :
      CallMove s n .fail (s.setCall n (.replied failed))
  | leaveWrite (c : Change) (done failed : Bool) (hPc : (s.call n).pc = .write c done failed) :
      CallMove s n .giveUp ((s.setCall n (.replied failed)).addStray ⟨none, c, none⟩)

theorem callStep_move {s t : World} {n : Nat} {e : CallEv} (h : s.callStep n e = some t) :
    CallMove s n e t := by
  unfold callStep at h
  split at h
  next i hPc =>
    split at h
    · split at h <;> cases h
      · exact .missing _ hPc
      · exact .found i hPc
    · cases h
  next hPc => cases h; exact .missing _ hPc
  next ok hPc => cases h; exact .responded ok hPc
  next c done failed noop hPc =>
    obtain ⟨u, hWrite, rfl⟩ := Option.map_eq_some_iff.mp h
    exact .written c done failed noop u hPc hWrite
  next c done failed hPc => cases h; exact .unwritten c done failed hPc
  next c done failed hPc => cases h; exact .leaveWrite c done failed hPc
  next => cases h

end World

end OpenSpoke.Scheduler

/-!
## What the searches have seen

A loop acts on a version of the task that was due and enabled when it was
searched, and its claim names that version.
-/

namespace OpenSpoke.Scheduler

namespace World

/-- A search could have returned version `i` by now. -/
structure Due (s : World) (i : Nat) (task : Task) : Prop where
  le : i ≤ s.doc.seqNo
  version : s.doc.version i = some task
  enabled : task.enabled = true
  due : task.nextRunAt ≤ s.now

/-- A claim that a loop makes or has given up on. -/
structure Claims (s : World) (e : Exec) : Prop where
  due : s.Due e.seqNo e.task
  ahead : e.task.nextRunAt < e.advanceTo

/-- What a step that is no claim keeps of the searches. -/
structure Later (s t : World) : Prop where
  now : s.now ≤ t.now
  le : s.doc.seqNo ≤ t.doc.seqNo
  kept : ∀ i ≤ s.doc.seqNo, t.doc.version i = s.doc.version i

theorem Due.later {s t : World} (h : Later s t) {i : Nat} {task : Task} (hDue : s.Due i task) :
    t.Due i task :=
  ⟨Nat.le_trans hDue.le h.le, (h.kept i hDue.le).trans hDue.version, hDue.enabled,
    Int.le_trans hDue.due h.now⟩

theorem Claims.later {s t : World} (h : Later s t) {e : Exec} (hClaims : s.Claims e) : t.Claims e :=
  ⟨hClaims.due.later h, hClaims.ahead⟩

/-- What a loop that has not been granted an execution knows. -/
def Seeks (s : World) : LoopPc → Prop
  | .searching nowIso => nowIso ≤ s.now
  | .found i task => s.Due i task
  | .advancing e => s.Claims e
  | _ => True

theorem Seeks.later {s t : World} (h : Later s t) {pc : LoopPc} (hSeeks : s.Seeks pc) : t.Seeks pc := by
  cases pc with
  | searching nowIso => exact Int.le_trans hSeeks h.now
  | found i task => exact Due.later h hSeeks
  | advancing e => exact Claims.later h hSeeks
  | _ => trivial

structure Sought (s : World) : Prop where
  loops : ∀ p, s.Seeks (s.loop p)
  strays : ∀ w ∈ s.strays, w.guard = none ∨ ∃ e, w = e.advance ∧ s.Claims e

theorem sought_init (replicas : Nat) (httpTimeout now : Int) (task : Task) :
    (init replicas httpTimeout now task).Sought := ⟨fun _ => trivial, fun _ hw => nomatch hw⟩

theorem Sought.later {s t : World} (hs : s.Sought) (h : Later s t) (hLoop : t.loop = s.loop)
    (hStrays : ∀ w ∈ t.strays, w ∈ s.strays ∨ w.guard = none ∨ ∃ e, w = e.advance ∧ s.Claims e) :
    t.Sought := by
  refine ⟨fun p => ?_, fun w hw => ?_⟩
  · rw [hLoop]
    exact (hs.loops p).later h
  · have hWas : w.guard = none ∨ ∃ e, w = e.advance ∧ s.Claims e :=
      (hStrays w hw).elim (hs.strays w) id
    exact hWas.imp_right fun ⟨e, he, hClaims⟩ => ⟨e, he, hClaims.later h⟩

theorem Sought.setLoop {s : World} (hs : s.Sought) {p : Nat} {pc : LoopPc} (hSeeks : s.Seeks pc) :
    (s.setLoop p pc).Sought := by
  have hLater : Later s (s.setLoop p pc) := ⟨Int.le_refl _, Nat.le_refl _, fun _ _ => rfl⟩
  refine ⟨fun q => ?_, fun w hw => ?_⟩
  · rcases eq_or_ne q p with rfl | hne
    · simpa using hSeeks.later hLater
    · simpa [hne] using (hs.loops q).later hLater
  · exact (hs.strays w hw).imp_right fun ⟨e, he, hClaims⟩ => ⟨e, he, hClaims.later hLater⟩

theorem Sought.addStray {s : World} (hs : s.Sought) {w : Write}
    (hw : w.guard = none ∨ ∃ e, w = e.advance ∧ s.Claims e) : (s.addStray w).Sought :=
  hs.later ⟨Int.le_refl _, Nat.le_refl _, fun _ _ => rfl⟩ rfl fun _ hw' =>
    (List.mem_cons.mp hw').elim (fun hEq => .inr (hEq ▸ hw)) .inl

theorem later_write {s t : World} {w : Write} {noop : Bool} (h : s.write w noop = some t) :
    Later s t := by
  obtain ⟨-, -, doc, rfl, hDoc⟩ := write_eq_some h
  exact ⟨by simp, by simpa using hDoc.le, by simpa using hDoc.kept⟩

theorem Sought.write {s t : World} (hs : s.Sought) {w : Write} {noop : Bool}
    (h : s.write w noop = some t) : t.Sought := by
  have hLater := later_write h
  obtain ⟨-, -, doc, rfl, -⟩ := write_eq_some h
  exact hs.later hLater (by simp) (by simpa using fun w hw => .inl hw)

theorem Sought.step {s t : World} (hs : s.Sought) {a : SchedAct} (h : s.step a = some t) :
    t.Sought := by
  cases a with
  | tick d =>
    obtain ⟨-, h⟩ := Option.ite_none_right_eq_some.mp h
    cases h
    exact hs.later ⟨by show s.now ≤ s.now + d; omega, Nat.le_refl _, fun _ _ => rfl⟩ rfl
      fun w hw => .inl hw
  | loop p e =>
    obtain ⟨-, h⟩ := Option.ite_none_right_eq_some.mp h
    have hSeeks := hs.loops p
    cases loopStep_move h with
    | search => exact hs.setLoop (Int.le_refl _)
    | hit nowIso i task hPc hi hTask hEnabled hDue =>
      rw [hPc] at hSeeks
      exact hs.setLoop ⟨hi, hTask, hEnabled, Int.le_trans hDue hSeeks⟩
    | claim i task hPc =>
      rw [hPc] at hSeeks
      have hAhead : task.nextRunAt < s.now + 60000 := by
        have := hSeeks.due
        omega
      exact hs.setLoop ⟨hSeeks, hAhead⟩
    | granted e noop u hPc hWrite => exact (hs.write hWrite).setLoop trivial
    | recorded e c noop u hPc hWrite => exact (hs.write hWrite).setLoop trivial
    | leaveClaim e ev pc hPc hNext =>
      rw [hPc] at hSeeks
      have hNew : (s.setLoop p pc).Sought := hs.setLoop (by rcases hNext with rfl | rfl <;> trivial)
      have hLater : Later s (s.setLoop p pc) := ⟨Int.le_refl _, Nat.le_refl _, fun _ _ => rfl⟩
      exact hNew.addStray (.inr ⟨e, rfl, Claims.later hLater hSeeks⟩)
    | leaveRecord e c ev pc hPc hNext =>
      have hNew : (s.setLoop p pc).Sought := hs.setLoop (by rcases hNext with rfl | rfl <;> trivial)
      exact hNew.addStray (.inl rfl)
    | call e timeout =>
      exact (hs.setLoop trivial : (s.setLoop p (.handling e (s.now + timeout))).Sought).later
        ⟨Int.le_refl _, Nat.le_refl _, fun _ _ => rfl⟩ rfl fun w hw => .inl hw
    | _ => exact hs.setLoop trivial
  | request api =>
    cases h
    exact hs.later ⟨Int.le_refl _, Nat.le_refl _, fun _ _ => rfl⟩ rfl fun w hw => .inl hw
  | call n e =>
    have hCall : ∀ (u : World) (pc : CallPc), u.Sought → (u.setCall n pc).Sought := fun u pc hu =>
      hu.later ⟨Int.le_refl _, Nat.le_refl _, fun _ _ => rfl⟩ rfl fun w hw => .inl hw
    cases callStep_move h with
    | written c done failed noop u hPc hWrite => exact hCall u _ (hs.write hWrite)
    | leaveWrite c done failed => exact (hCall s (.replied failed) hs).addStray (.inl rfl)
    | _ => exact hCall s _ hs
  | stray w noop =>
    obtain ⟨-, h⟩ := Option.ite_none_right_eq_some.mp h
    obtain ⟨u, hWrite, rfl⟩ := Option.map_eq_some_iff.mp h
    exact (hs.write hWrite).later ⟨Int.le_refl _, Nat.le_refl _, fun _ _ => rfl⟩ rfl
      fun w' hw' => .inl (List.mem_of_mem_erase hw')
  | vanish w =>
    obtain ⟨-, h⟩ := Option.ite_none_right_eq_some.mp h
    cases h
    exact hs.later ⟨Int.le_refl _, Nat.le_refl _, fun _ _ => rfl⟩ rfl
      fun w' hw' => .inl (List.mem_of_mem_erase hw')

end World

end OpenSpoke.Scheduler
