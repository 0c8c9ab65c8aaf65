import Mathlib.Tactic.Simps.Basic
import OpenSpoke.Lib.Document
import OpenSpoke.Python.Text

/-!
# The state of a spawn

One spawn document with everything that acts on it: the calls of the kernel's
`/core/spawn` endpoints and the worker runs of `process_job`. The fields that
none of these reads (result, error text, timestamps, usage) are left out.
-/

namespace OpenSpoke.Spawn

open Python (Text)

inductive SpawnState
  | queued
  | running
  | waitingUser
  | cancelRequested
  | done
  | failed
  | cancelled
  deriving DecidableEq

/-- `current in ("done", "failed", "cancelled")`. -/
def SpawnState.final : SpawnState → Bool
  | .done | .failed | .cancelled => true
  | _ => false

inductive Mode
  | claude
  | orchestrator
  deriving DecidableEq

structure SpawnDoc where
  state : SpawnState
  question : Text
  answerQueue : List Text
  isSupervisor : Bool
  mode : Mode
  deriving DecidableEq

/-- The `updates` that a worker sends to `core_spawn_update_state`. -/
structure Updates where
  state : Option SpawnState
  question : Option Text
  deriving DecidableEq

/-- The bodies of the `_update` requests. -/
inductive Update
  | cancel (new : SpawnState)
  | forceState (new : SpawnState)
  | answer (entry : Text)
  | pickup
  | popAnswer
  | updateState (u : Updates)
  -- `finalize_gemma_usage`
  | usage
  deriving DecidableEq

def Update.apply : Update → SpawnDoc → SpawnDoc
  | .cancel new, d => { d with state := new }
  | .forceState new, d => { d with state := new, question := [], answerQueue := [] }
  | .answer entry, d => { d with answerQueue := d.answerQueue ++ [entry] }
  | .pickup, d => { d with state := .running }
  | .popAnswer, d => { d with answerQueue := d.answerQueue.tail }
  | .updateState u, d =>
    { d with state := u.state.getD d.state, question := u.question.getD d.question }
  | .usage, d => d

/-- The state that the update writes. -/
def Update.sets : Update → Option SpawnState
  | .cancel new | .forceState new => some new
  | .pickup => some .running
  | .updateState u => u.state
  | .answer _ | .popAnswer | .usage => none

/-- A partial document, which OpenSearch does not write if it changes nothing. -/
def Update.partialDoc : Update → Bool
  | .answer _ | .popAnswer => false
  | _ => true

theorem Update.apply_state (u : Update) (d : SpawnDoc) : (u.apply d).state = u.sets.getD d.state := by
  cases u <;> rfl

/-- The endpoints. -/
inductive Api
  | cancel
  | forceState (new : SpawnState)
  | answer (answer : Text)
  | pickup
  | popAnswer
  | updateState (u : Updates)
  | finalize
  deriving DecidableEq

inductive Reply
  -- `ok` is false
  | error
  | ok
  -- the bundle of a spawn in this state
  | spawn (state : SpawnState)
  | picked (payload : Option SpawnDoc)
  | entry (entry : Option Text) (state : SpawnState)
  deriving DecidableEq

inductive CallPc
  | absent
  -- about to get the document, or to search for it
  | read
  -- about to `_update`, under `if_seq_no` if there is a guard
  | update (u : Update) (guard : Option Nat) (done conflict : Reply)
  | reply (r : Reply)
  | over
  deriving DecidableEq

/-- A call of an endpoint. Its handler may have returned an error while its last
request is still under way. -/
structure Call where
  api : Api
  pc : CallPc
  reply : Option Reply
  deriving DecidableEq

/-- The program counter of `process_job`; a number is the kernel call it awaits. -/
inductive JobPc
  | absent
  -- awaits `/core/orchestrator/triage`
  | triage
  | verdict (n : Nat) (simple : Bool)
  -- awaits `/core/orchestrator/answer`
  | gemma
  -- at the head of the loop over the turns
  | turn
  -- awaits `/core/claude/stream-with-mcp`
  | stream
  | asking (n : Nat)
  -- in `_wait_for_answer`, about to look at the clock
  | poll
  | popping (n : Nat)
  | resuming (n : Nat)
  -- the last state is sent; `finalize` unless `worker_loop` has caught an exception
  | closing (n : Nat) (finalize : Bool)
  | finalizing (n : Nat)
  | ended
  deriving DecidableEq

structure Job where
  pc : JobPc
  turnNum : Nat
  isSupervisor : Bool
  deriving DecidableEq

def Job.maxTurns (j : Job) : Nat := if j.isSupervisor then 20 else 5

/-- The run of `process_job` on the spawn that pickup call `n` returned is `job n`. -/
structure World where
  doc : Document SpawnDoc
  nextCall : Nat
  call : Nat → Call
  job : Nat → Job
  -- history: a `core_spawn_cancel` has returned ok with cancel_requested or cancelled
  acked : Bool
  -- history: since then a worker has called the kernel
  called : Bool

abbrev World.state (s : World) : SpawnState := s.doc.cur.state

/-- The spawn as `core_spawn_submit` stores it. -/
def World.init (isSupervisor : Bool) (mode : Mode) : World where
  doc := .new ⟨.queued, [], [], isSupervisor, mode⟩
  nextCall := 0
  call _ := ⟨.cancel, .absent, none⟩
  job _ := ⟨.absent, 0, false⟩
  acked := false
  called := false

end OpenSpoke.Spawn

/-!
## The steps of a spawn

`callStep` is a handler of the kernel between two requests to OpenSearch, where
a get or a search may return any version of the document up to the current one.
`jobStep` is `process_job` between two requests to the kernel.
-/

namespace OpenSpoke.Spawn

open Python (Text)

/-- The checks of a request that come before the first access to the document. -/
def Api.begin : Api → CallPc
  | .forceState new => if new = .cancelled ∨ new = .failed then .read else .reply .error
  | .answer text => if text = [] then .reply .error else .read
  | .updateState u => .update (.updateState u) none .ok .error
  | .cancel | .pickup | .popAnswer | .finalize => .read

/-- What a handler does once it has read version `i`, which is `d`. -/
def Api.afterRead (i : Nat) (d : SpawnDoc) : Api → CallPc
  | .cancel =>
    if d.state.final then .reply (.spawn d.state)
    else
      let new := if d.state = .queued then .cancelled else .cancelRequested
      .update (.cancel new) none (.spawn new) .error
  | .forceState new =>
    if d.state.final then .reply (.spawn d.state)
    else .update (.forceState new) none (.spawn new) .error
  | .answer text =>
    if d.state = .waitingUser then .update (.answer text) none .ok .error else .reply .error
  | .pickup =>
    -- the search is for queued spawns
    if d.state = .queued then
      .update .pickup (some i) (.picked (some { d with state := .running })) (.picked none)
    else .reply (.picked none)
  | .popAnswer =>
    match d.answerQueue with
    | [] => .reply (.entry none d.state)
    | entry :: _ =>
      .update .popAnswer (some i) (.entry (some entry) d.state) (.entry none d.state)
  | .finalize => .update .usage none .ok .error
  | .updateState u => .update (.updateState u) none .ok .error

/-- The calls that clients other than a run of `process_job` make. -/
def Api.isPublic : Api → Bool
  | .updateState _ | .finalize => false
  | _ => true

inductive CallEv
  | read (i : Nat)
  -- the request to OpenSearch fails, or finds nothing
  | fail
  | land
  -- the update would change no field
  | noop
  -- the handler gives up on an update that is still under way
  | abandon
  | ret
  deriving DecidableEq

inductive JobEv
  | tau
  -- `some simple` is a verdict, which is or is not "A"
  | triaged (simple : Option Bool)
  | answered (ok : Bool)
  -- `none` is a stream error
  | streamed (text : Option Text)
  -- the worker gives up on a kernel call, whose handler goes on
  | timeout
  | deadline
  | raised
  deriving DecidableEq

inductive SpawnAct
  | request (api : Api)
  | call (n : Nat) (e : CallEv)
  | start (n : Nat)
  | job (n : Nat) (e : JobEv)
  deriving DecidableEq

def blockingTag : Text := ['[', 'B', 'L', 'O', 'C', 'K', 'I', 'N', 'G', ']']

def extractBlockingQuestion (text : Text) : Option Text :=
  if blockingTag <:+: text then some (Python.strip text) else none

namespace World

@[simps -fullyApplied] def setCall (s : World) (n : Nat) (c : Call) : World :=
  { s with call := Function.update s.call n c }

@[simps -fullyApplied] def setJob (s : World) (n : Nat) (j : Job) : World :=
  { s with job := Function.update s.job n j }

@[simps -fullyApplied] def setDoc (s : World) (d : Document SpawnDoc) : World := { s with doc := d }

@[simps -fullyApplied] def request (s : World) (api : Api) : World :=
  { s with
    call := Function.update s.call s.nextCall ⟨api, api.begin, none⟩
    nextCall := s.nextCall + 1 }

/-- A worker calls the kernel. -/
@[simps -fullyApplied] def note (s : World) : World := { s with called := s.called || s.acked }

@[simps! -fullyApplied] def callTo (s : World) (n : Nat) (pc : CallPc) : World :=
  s.setCall n { s.call n with pc := pc }

@[simps! -fullyApplied] def jobTo (s : World) (n : Nat) (pc : JobPc) : World :=
  s.setJob n { s.job n with pc := pc }

/-- Run `n` makes a kernel call and awaits it at `pc`. -/
@[simps! -fullyApplied] def post (s : World) (n : Nat) (api : Api) (pc : Nat → JobPc) : World :=
  ((s.request api).jobTo n (pc s.nextCall)).note

/-- Run `n` sends its last state. -/
def close (s : World) (n : Nat) (state : SpawnState) (finalize : Bool) : World :=
  s.post n (.updateState ⟨some state, none⟩) (.closing · finalize)

/-- `core_spawn_cancel` confirms the cancellation. -/
def acks (c : Call) (r : Reply) : Bool :=
  c.api = .cancel && c.reply.isNone && (r = .spawn .cancelRequested || r = .spawn .cancelled)

def callStep (s : World) (n : Nat) (e : CallEv) : Option World :=
  let c := s.call n
  match c.pc, e with
  | .read, .read i =>
    if i ≤ s.doc.seqNo then some (s.callTo n (c.api.afterRead i (s.doc.version i))) else none
  | .read, .fail => some (s.callTo n (.reply .error))
  | .update u guard done conflict, .land =>
    match s.doc.update guard u.apply with
    | some d => some ((s.setDoc d).callTo n (.reply done))
    | none => some (s.callTo n (.reply conflict))
  | .update u guard done _, .noop =>
    if u.partialDoc ∧ u.apply s.doc.cur = s.doc.cur ∧ ∀ i ∈ guard, i = s.doc.seqNo then
      some (s.callTo n (.reply done))
    else none
  | .update _ _ _ _, .fail => some (s.callTo n (.reply .error))
  | .update _ _ _ _, .abandon =>
    if c.reply = none then some (s.setCall n { c with reply := some .error }) else none
  | .reply r, .ret =>
    some { s.setCall n { c with pc := .over, reply := c.reply.or (some r) } with
      acked := s.acked || acks c r }
  | _, _ => none

/-- The worker goes on after call `m`, with a result or without one. -/
def resumes (s : World) (m : Nat) : JobEv → Bool
  | .tau => (s.call m).reply.isSome
  | .timeout => true
  | _ => false

def jobStep (s : World) (n : Nat) (e : JobEv) : Option World :=
  let j := s.job n
  match j.pc, e with
  | .triage, .triaged simple =>
    some (s.post n (.updateState ⟨none, none⟩) (.verdict · (simple = some true)))
  | .verdict m simple, e =>
    if s.resumes m e then
      if simple then some (s.jobTo n .gemma).note else some (s.jobTo n .turn)
    else none
  | .gemma, .answered true => some (s.close n .done true)
  | .gemma, .answered false => some (s.jobTo n .turn)
  | .turn, .tau =>
    if j.turnNum < j.maxTurns then
      some (s.setJob n { j with pc := .stream, turnNum := j.turnNum + 1 }).note
    else some (s.close n .done true)
  | .stream, .streamed none => some (s.close n .failed true)
  | .stream, .streamed (some text) =>
    match extractBlockingQuestion text with
    | none => some (s.close n .done true)
    | some question => some (s.post n (.updateState ⟨some .waitingUser, some question⟩) .asking)
  | .asking m, e => if s.resumes m e then some (s.jobTo n .poll) else none
  | .poll, .tau => some (s.post n .popAnswer .popping)
  | .poll, .deadline => some (s.close n .failed true)
  | .popping m, .tau =>
    match (s.call m).reply with
    | some (.entry (some _) _) =>
      some (s.post n (.updateState ⟨some .running, some []⟩) .resuming)
    | some (.entry none .cancelRequested) => some (s.close n .cancelled true)
    | some _ => some (s.jobTo n .poll)
    | none => none
  | .popping _, .timeout => some (s.jobTo n .poll)
  | .resuming m, e => if s.resumes m e then some (s.jobTo n .turn) else none
  | .closing m finalize, e =>
    if s.resumes m e then
      if finalize then some (s.post n .finalize .finalizing) else some (s.jobTo n .ended)
    else none
  | .finalizing m, e => if s.resumes m e then some (s.jobTo n .ended) else none
  | .triage, .raised | .gemma, .raised | .stream, .raised => some (s.close n .failed false)
  | _, _ => none

/-- `worker_loop` starts `process_job` on the spawn that pickup call `n` returned. -/
def startStep (s : World) (n : Nat) : Option World :=
  match (s.call n).api, (s.call n).reply, (s.job n).pc with
  | .pickup, some (.picked (some d)), .absent =>
    if d.mode = .orchestrator then some (s.setJob n ⟨.triage, 0, d.isSupervisor⟩).note
    else some (s.setJob n ⟨.turn, 0, d.isSupervisor⟩)
  | _, _, _ => none

def step (s : World) : SpawnAct → Option World
  | .request api => if api.isPublic then some (s.request api) else none
  | .call n e => s.callStep n e
  | .start n => s.startStep n
  | .job n e => s.jobStep n e

end World

end OpenSpoke.Spawn
