import Mathlib.Tactic.Simps.Basic
import OpenSpoke.Lib.Document
import OpenSpoke.Lib.Lts

/-!
# The state of a scheduled task

One document of the index `scheduled_tasks` with everything that acts on it: the
`_scheduler_loop` of every kernel replica and the calls of the task endpoints.
What a loop does for other tasks takes time and no more. Times are milliseconds.
The fields that no condition and no write depends on (owner, params, error
texts) are left out.
-/

namespace OpenSpoke.Scheduler

/-- The value of a field that is to be a dict. -/
inductive Field (α : Type)
  | dict (d : α)
  -- not a dict, and whether it counts as true
  | plain (truth : Bool)
  deriving DecidableEq

/-- What `_update` leaves of two values: it merges dicts key by key. -/
def Field.merge {α : Type} (keys : α → α → α) : Field α → Field α → Field α
  | .dict old, .dict new => .dict (keys old new)
  | _, new => new

/-- `value or {}`, none if that has no `get`. -/
def Field.orEmpty {α : Type} (empty : α) : Field α → Option α
  | .dict d => some d
  | .plain false => some empty
  | .plain true => none

inductive ScheduleType
  | interval
  | once
  -- cron, or one that is not known
  | other
  deriving DecidableEq

/-- The keys of a schedule, none where one is missing. -/
structure ScheduleDict where
  type : Option ScheduleType
  -- none if `int` rejects it
  intervalSec : Option (Option Int)
  -- none if it counts as false
  runAt : Option (Option Int)
  deriving DecidableEq

def ScheduleDict.merge (old new : ScheduleDict) : ScheduleDict :=
  ⟨new.type.or old.type, new.intervalSec.or old.intervalSec, new.runAt.or old.runAt⟩

abbrev Schedule := Field ScheduleDict

/-- The part of a handler that the loop looks at. -/
structure HandlerDict where
  -- in milliseconds, 0 if it counts as false and none if `float` rejects it
  timeoutSec : Option (Option Int)
  deriving DecidableEq

def HandlerDict.merge (old new : HandlerDict) : HandlerDict := ⟨new.timeoutSec.or old.timeoutSec⟩

abbrev Handler := Field HandlerDict

/-- "9999-12-31T23:59:59.000Z". -/
def farFuture : Int := 253402300799000

/-- The last time that a `datetime` can hold. -/
def endOfTime : Int := 253402300799999

/-- `_scheduler_compute_next_run` of a dict. -/
def computeNextRun (base now : Int) (schedule : ScheduleDict) : Int :=
  match schedule.type.getD .interval with
  | .interval =>
    match schedule.intervalSec.getD (some 60) with
    | some sec =>
      let next := base + 1000 * max sec 1
      if next ≤ endOfTime then next else farFuture
    | none => farFuture
  | .once => schedule.runAt.join.getD now
  | .other => farFuture

structure Task where
  enabled : Bool
  schedule : Schedule
  handler : Handler
  nextRunAt : Int
  lastRunAt : Option Int
  lastRunOk : Option Bool
  updatedAt : Option Int
  deriving DecidableEq

/-- What an update of the schedule sets. -/
def Task.plan (task : Task) : Int × Bool := (task.nextRunAt, task.enabled)

/-- The body of `core_scheduler_update_task`. -/
structure Patch where
  enabled : Option Bool
  schedule : Option Schedule
  handler : Option Handler
  -- params, task_type or user_id
  other : Bool
  deriving DecidableEq

inductive Change
  -- `_scheduler_optimistic_advance`
  | advance (next : Int)
  -- `_scheduler_record_run`
  | record (ok : Bool) (time : Int) (next : Option Int) (enabled : Option Bool)
  | patch (p : Patch) (next : Option Int) (time : Int)
  | delete
  deriving DecidableEq

def Change.apply : Change → Option Task → Option Task
  | .advance next, task => task.map fun d => { d with nextRunAt := next }
  | .record ok time next enabled, task => task.map fun d =>
    { d with
      lastRunAt := some time
      lastRunOk := some ok
      nextRunAt := next.getD d.nextRunAt
      enabled := enabled.getD d.enabled }
  | .patch p next time, task => task.map fun d =>
    { d with
      enabled := p.enabled.getD d.enabled
      schedule := p.schedule.elim d.schedule (d.schedule.merge ScheduleDict.merge)
      handler := p.handler.elim d.handler (d.handler.merge HandlerDict.merge)
      nextRunAt := next.getD d.nextRunAt
      updatedAt := some time }
  | .delete, _ => none

/-- The change writes next_run_at. -/
def Change.reschedules : Change → Bool
  | .advance _ | .record _ _ (some _) _ | .patch _ (some _) _ => true
  | _ => false

/-- A write request to OpenSearch. -/
structure Write where
  guard : Option Nat
  change : Change
  -- history: the version that the execution which sends it has read
  source : Option Nat
  deriving DecidableEq

/-- A task as the search has returned it, which the loop wants to execute. -/
structure Exec where
  seqNo : Nat
  task : Task
  -- what next_run_at is pushed to meanwhile
  advanceTo : Int
  deriving DecidableEq

inductive LoopPc
  -- asleep, or at the head of the loop
  | idle
  | searching (nowIso : Int)
  | found (seqNo : Nat) (task : Task)
  | advancing (e : Exec)
  -- `_scheduler_execute_one` is to be run
  | granted (e : Exec)
  -- the handler has been called and returns or times out by the deadline
  | handling (e : Exec) (deadline : Int)
  | responded (e : Exec) (ok : Bool)
  | recording (e : Exec) (c : Change)
  -- the loop is cancelled and the thread that has called the handler is not
  | detached (e : Exec) (deadline : Int)
  | stopped
  deriving DecidableEq

/-- The execution that the loop has been granted. -/
def LoopPc.exec : LoopPc → Option Exec
  | .granted e | .handling e _ | .responded e _ | .recording e _ | .detached e _ => some e
  | _ => none

def LoopPc.deadline : LoopPc → Option Int
  | .handling _ deadline | .detached _ deadline => some deadline
  | _ => none

inductive Api
  | update (p : Patch)
  | delete
  | runNow
  deriving DecidableEq

inductive CallPc
  | absent
  -- about to get the task
  | read
  -- `run-now` has called the handler
  | handling
  -- what to return once the write is applied, and what if it fails
  | write (c : Change) (done failed : Bool)
  | replied (ok : Bool)
  deriving DecidableEq

structure Call where
  api : Api
  pc : CallPc
  deriving DecidableEq

structure World where
  replicas : Nat
  -- `SCHEDULER_HTTP_TIMEOUT`
  httpTimeout : Int
  now : Int
  -- none once the task is deleted
  doc : Document (Option Task)
  loop : Nat → LoopPc
  nextCall : Nat
  call : Nat → Call
  -- requests that are under way though their sender has given up on them
  strays : List Write
  -- history: an update or a deletion has been applied
  touched : Bool
  -- history: the handler calls of the loops
  fired : Nat
  -- history: the version that the last update of the schedule has left
  schedSeq : Nat
  -- history: the next_run_at and enabled that it has left
  updated : Option (Int × Bool)
  -- history: an execution that began after it has written one of these
  own : Bool
  -- history: the time from which a record has computed the stored next_run_at
  base : Option Int
  -- history: an execution that began before it has changed next_run_at or enabled
  late : Bool

/-- The task as `core_scheduler_create_task` has stored it. -/
def World.init (replicas : Nat) (httpTimeout now : Int) (task : Task) : World where
  replicas := replicas
  httpTimeout := httpTimeout
  now := now
  doc := .new (some task)
  loop _ := .idle
  nextCall := 0
  call _ := ⟨.delete, .absent⟩
  strays := []
  touched := false
  fired := 0
  schedSeq := 0
  updated := none
  own := false
  base := none
  late := false

end OpenSpoke.Scheduler

/-!
## The steps of a scheduled task

`loopStep` is `_scheduler_loop` with `_scheduler_execute_one`, and `callStep` a
task endpoint, between two requests. A search and a get may return any version
up to the current one.
-/

namespace OpenSpoke.Scheduler

open Lts

/-- The schedule as an execution reads it, none if that raises. -/
def Schedule.read (schedule : Schedule) : Option ScheduleDict := schedule.orEmpty ⟨none, none, none⟩

def Schedule.once (schedule : Schedule) : Bool := schedule.read.any fun d => d.type = some .once

/-- The next_run_at that an execution writes which ends at `now`. -/
def Schedule.next (now : Int) (schedule : Schedule) : Option Int :=
  schedule.read.map fun d => if schedule.once then farFuture else computeNextRun now now d

/-- What `_scheduler_execute_one` records. -/
def Schedule.record (ok : Bool) (now : Int) (schedule : Schedule) : Change :=
  match schedule.next now with
  | some next => .record ok now (some next) (if schedule.once then some false else none)
  | none => .record false now none none

/-- The timeout of a handler call, none if it raises before the call. -/
def Task.callTimeout (httpTimeout : Int) (task : Task) : Option Int :=
  (task.handler.orEmpty ⟨none⟩).bind fun handler =>
    (handler.timeoutSec.getD (some 0)).map fun t => if t = 0 then httpTimeout else t

def Patch.empty (p : Patch) : Bool :=
  p.enabled.isNone && p.schedule.isNone && p.handler.isNone && !p.other

/-- What `core_scheduler_update_task` writes, none if no field is to be updated. -/
def Patch.change (now : Int) (p : Patch) : Option Change :=
  if p.empty then none
  else
    let next := match p.schedule with
      | some (.dict schedule) =>
        some (if schedule.type = some .once then schedule.runAt.join.getD now else now)
      | _ => none
    some (.patch p next now)

/-- The request by which a loop claims the execution. -/
def Exec.advance (e : Exec) : Write := ⟨some e.seqNo, .advance e.advanceTo, some e.seqNo⟩

def Api.begin : Api → CallPc
  | .delete => .write .delete true false
  | .update _ | .runNow => .read

/-- What the endpoint does once it has found the task. -/
def Api.found (now : Int) : Api → CallPc
  | .update p => (p.change now).elim (.replied false) (.write · true false)
  | .runNow => .handling
  | .delete => .replied false

inductive LoopEv
  | search
  -- the search fails, or does not return the task
  | miss
  | hit (i : Nat)
  | claim
  -- a request is applied, and writes nothing if nothing changes
  | land (noop : Bool)
  -- a request is refused, or fails
  | fail
  | giveUp
  | call
  | respond (ok : Bool)
  | record
  -- shutdown, or the end of the process
  | stop
  deriving DecidableEq

inductive CallEv
  | read (i : Nat)
  | respond (ok : Bool)
  | land (noop : Bool)
  | fail
  | giveUp
  deriving DecidableEq

inductive SchedAct
  | tick (d : Nat)
  | loop (p : Nat) (e : LoopEv)
  | request (api : Api)
  | call (n : Nat) (e : CallEv)
  -- a request that its sender has given up on is applied, or vanishes
  | stray (w : Write) (noop : Bool)
  | vanish (w : Write)
  deriving DecidableEq

namespace World

abbrev cur (s : World) : Option Task := s.doc.cur

@[simps -fullyApplied] def setLoop (s : World) (p : Nat) (pc : LoopPc) : World :=
  { s with loop := Function.update s.loop p pc }

@[simps -fullyApplied] def setCall (s : World) (n : Nat) (pc : CallPc) : World :=
  { s with call := Function.update s.call n { s.call n with pc := pc } }

@[simps -fullyApplied] def addStray (s : World) (w : Write) : World :=
  { s with strays := w :: s.strays }

@[simps -fullyApplied] def dropStray (s : World) (w : Write) : World :=
  { s with strays := s.strays.erase w }

@[simps -fullyApplied] def fire (s : World) : World := { s with fired := s.fired + 1 }

/-- The execution that sends `w` has begun after the last update of the schedule. -/
def current (s : World) (w : Write) : Bool := ∀ i ∈ w.source, s.schedSeq ≤ i

/-- The document changes by `w`. -/
def noteWrite (s : World) (w : Write) (doc : Document (Option Task)) : World :=
  match w.change with
  | .advance _ =>
    { s with
      doc := doc
      own := true
      base := none }
  | .record _ _ none _ => { s with doc := doc }
  | .record _ time (some _) _ =>
    { s with
      doc := doc
      own := s.own || s.current w
      base := some time
      late := s.late || (!s.current w && decide (doc.cur.map Task.plan ≠ s.cur.map Task.plan)) }
  | .patch p _ _ =>
    if p.schedule.isSome then
      { s with
        doc := doc
        touched := true
        schedSeq := doc.seqNo
        updated := doc.cur.map Task.plan
        own := false
        base := none }
    else
      { s with
        doc := doc
        touched := true
        updated := s.updated.map fun u => (u.1, p.enabled.getD u.2) }
  | .delete =>
    { s with
      doc := doc
      touched := true
      updated := none
      base := none }

/-- OpenSearch applies the request, none if it refuses it. An `_update` that would
change no field is not written. -/
def write (s : World) (w : Write) (noop : Bool) : Option World :=
  if (∀ i ∈ w.guard, i = s.doc.seqNo) ∧ (w.change = .delete ∨ s.cur.isSome) then
    if noop then
      if w.change.apply s.cur = s.cur then some (s.noteWrite w s.doc) else none
    else some (s.noteWrite w (s.doc.put (w.change.apply s.cur)))
  else none

def loopStep (s : World) (p : Nat) (e : LoopEv) : Option World :=
  match s.loop p, e with
  | .idle, .search => some (s.setLoop p (.searching s.now))
  | .searching _, .miss => some (s.setLoop p .idle)
  | .searching nowIso, .hit i =>
    match s.doc.version i with
    | some task =>
      if i ≤ s.doc.seqNo ∧ task.enabled = true ∧ task.nextRunAt ≤ nowIso then
        some (s.setLoop p (.found i task))
      else none
    | none => none
  | .found i task, .claim => some (s.setLoop p (.advancing ⟨i, task, s.now + 60000⟩))
  | .advancing e, .land noop => (s.write (Exec.advance e) noop).map (·.setLoop p (.granted e))
  | .advancing _, .fail => some (s.setLoop p .idle)
  | .advancing e, .giveUp => some ((s.setLoop p .idle).addStray (Exec.advance e))
  | .granted e, .call =>
    match e.task.callTimeout s.httpTimeout with
    | none => some (s.setLoop p (.recording e (.record false s.now none none)))
    | some timeout =>
      -- `requests` refuses such a timeout before it calls
      if timeout ≤ 0 then some (s.setLoop p (.responded e false))
      else some (s.fire.setLoop p (.handling e (s.now + timeout)))
  | .handling e _, .respond ok => some (s.setLoop p (.responded e ok))
  | .detached _ _, .respond _ => some (s.setLoop p .stopped)
  | .responded e ok, .record => some (s.setLoop p (.recording e (e.task.schedule.record ok s.now)))
  | .recording e c, .land noop => (s.write ⟨none, c, some e.seqNo⟩ noop).map (·.setLoop p .idle)
  | .recording _ _, .fail => some (s.setLoop p .idle)
  | .recording e c, .giveUp => some ((s.setLoop p .idle).addStray ⟨none, c, some e.seqNo⟩)
  | .advancing e, .stop => some ((s.setLoop p .stopped).addStray (Exec.advance e))
  | .recording e c, .stop => some ((s.setLoop p .stopped).addStray ⟨none, c, some e.seqNo⟩)
  | .handling e deadline, .stop => some (s.setLoop p (.detached e deadline))
  | .idle, .stop | .searching _, .stop | .found _ _, .stop | .granted _, .stop
  | .responded _ _, .stop => some (s.setLoop p .stopped)
  | _, _ => none

def callStep (s : World) (n : Nat) (e : CallEv) : Option World :=
  match (s.call n).pc, e with
  | .read, .read i =>
    if i ≤ s.doc.seqNo then
      match s.doc.version i with
      | none => some (s.setCall n (.replied false))
      | some _ => some (s.setCall n ((s.call n).api.found s.now))
    else none
  | .read, .fail => some (s.setCall n (.replied false))
  -- the outcome of the write of `run-now` is not looked at
  | .handling, .respond ok => some (s.setCall n (.write (.record ok s.now none none) ok ok))
  | .write c done _, .land noop => (s.write ⟨none, c, none⟩ noop).map (·.setCall n (.replied done))
  | .write _ _ failed, .fail => some (s.setCall n (.replied failed))
  | .write c _ failed, .giveUp =>
    some ((s.setCall n (.replied failed)).addStray ⟨none, c, none⟩)
  | _, _ => none

@[simps -fullyApplied] def request (s : World) (api : Api) : World :=
  { s with
    call := Function.update s.call s.nextCall ⟨api, api.begin⟩
    nextCall := s.nextCall + 1 }

def step (s : World) : SchedAct → Option World
  | .tick d =>
    if ∀ p < s.replicas, ∀ deadline ∈ (s.loop p).deadline, s.now + d ≤ deadline then
      some { s with now := s.now + d }
    else none
  | .loop p e => if p < s.replicas then s.loopStep p e else none
  | .request api => some (s.request api)
  | .call n e => s.callStep n e
  | .stray w noop => if w ∈ s.strays then (s.write w noop).map (·.dropStray w) else none
  | .vanish w => if w ∈ s.strays then some (s.dropStray w) else none

end World

end OpenSpoke.Scheduler
