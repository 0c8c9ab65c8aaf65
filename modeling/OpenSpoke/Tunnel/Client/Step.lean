import Mathlib.Tactic.Simps.Basic
import OpenSpoke.Tunnel.Client.State

/-!
# The steps of the tunnel client

`mainStep` is `run_session` with the dispatch loop between two frames, `receive`
is the handling of one frame by the loop, `runStep` is `run_stream`, and
`callerStep` is `handle_http_proxy`.
-/

namespace OpenSpoke.Tunnel

inductive MainEv
  | tau
  -- `endpoint.connect` or the `Connect` call fails
  | failed
  -- `inbound.message()` returns an error or the end of the stream
  | lost
  deriving DecidableEq

inductive RunEv
  | tau
  | dialed (r : Except String Unit)
  | read (r : Except String Nat)
  | write (r : Except String Nat)
  deriving DecidableEq

inductive CallerEv
  | tau
  | timeout
  -- the runtime drops the handler at an await
  | drop
  deriving DecidableEq

inductive ClientEnvEv
  -- the transport drops the outgoing half of the call
  | dropOut (c : ConnId)
  | peerSend (c : ConnId) (sid : Nat) (b : Bytes)
  | peerClose (c : ConnId) (sid : Nat)
  -- a request arrives at the HTTP proxy
  | arrive (req : HttpRequest)

inductive ClientAct
  | main (e : MainEv)
  | run (c : ConnId) (sid : Nat) (e : RunEv)
  | caller (n : Nat) (e : CallerEv)
  | env (e : ClientEnvEv)

namespace Client

@[simps -fullyApplied] def goto (k : Client) (p : MainPc) : Client := { k with main := p }

@[simps -fullyApplied] def setOut (k : Client) (c : ConnId) (l : List ClientFrame) : Client :=
  { k with out := Function.update k.out c l }

@[simps -fullyApplied] def setStreams (k : Client) (c : ConnId) (m : Finset Nat) : Client :=
  { k with streams := Function.update k.streams c m }

@[simps -fullyApplied] def setRun (k : Client) (c : ConnId) (sid : Nat) (r : RunStream) : Client :=
  { k with run := Function.update k.run c (Function.update (k.run c) sid r) }

@[simps -fullyApplied] def setPending (k : Client) (m : AList (fun _ : Nat => Nat)) : Client :=
  { k with pending := m }

@[simps -fullyApplied] def setCaller (k : Client) (n : Nat) (x : Caller) : Client :=
  { k with caller := Function.update k.caller n x }

theorem setRun_apply (k : Client) (c d : ConnId) (sid sid' : Nat) (r : RunStream) :
    (k.setRun c sid r).run d sid' = if d = c ∧ sid' = sid then r else k.run d sid' := by
  by_cases hd : d = c
  · subst hd
    by_cases hs : sid' = sid <;> simp [hs]
  · simp [hd]

/-- `hub_tx.send`: `none` while the channel is full; else the state after it and
whether it succeeded, which it does unless the receiver is gone. -/
def send (E : ClientEnv) (k : Client) (c : ConnId) (f : ClientFrame) : Option (Client × Bool) :=
  if k.outOpen c then
    if (k.out c).length < frameCap + E.wire then some (k.setOut c (k.out c ++ [f]), true) else none
  else some (k, false)

theorem send_eq_some {E : ClientEnv} {k j : Client} {c : ConnId} {f : ClientFrame} {sent : Bool}
    (h : k.send E c f = some (j, sent)) :
    (sent = true ∧ k.outOpen c = true ∧ j = k.setOut c (k.out c ++ [f])) ∨
      (sent = false ∧ k.outOpen c = false ∧ j = k) := by
  unfold send at h
  split at h
  · next hOpen =>
    split at h <;> cases h
    exact .inl ⟨rfl, hOpen, rfl⟩
  · next hOpen =>
    cases h
    exact .inr ⟨rfl, Bool.eq_false_iff.mpr hOpen, rfl⟩

/-- A sender of the channel of `sid` exists: the map entry, or the clone that the
dispatch loop holds while it delivers. -/
def hasSender (k : Client) (c : ConnId) (sid : Nat) : Bool :=
  sid ∈ k.streams c ||
    match k.main with
    | .session d (.deliver sid' _) => d = c && sid' = sid
    | _ => false

/-- The oneshot sender of caller `n` was dropped unused. -/
def senderGone (k : Client) (n : Nat) : Bool :=
  k.pending.entries.all (fun e => e.2 ≠ n) &&
    match k.main with
    | .session _ (.hand m _) => m ≠ n
    | .release l => n ∉ l
    | _ => true

/-- `tx.send(r)` on the oneshot sender of caller `n`. -/
def resolve (k : Client) (n : Nat) (r : Reply) : Client :=
  if (k.caller n).pc.listening then
    { k.setCaller n { k.caller n with slot := some r } with handed := k.handed ++ [(n, r)] }
  else k

/-- `run_session`, where the dispatch loop does not wait for a frame. -/
def mainStep (E : ClientEnv) (k : Client) (e : MainEv) : Option Client :=
  match k.main, e with
  | .idle, .failed => some (k.goto .detach)
  | .session c .attach, .tau => some { k.goto (.session c .next) with hubTx := some c }
  | .session _ .next, .lost => some (k.goto .detach)
  | .session c (.send f fatal), .tau =>
    (k.send E c f).map fun r => r.1.goto (if fatal && !r.2 then .detach else .session c .next)
  | .session c (.deliver sid payload), .tau =>
    let r := k.run c sid
    if r.pc = .ended then some (k.goto (.session c .next))
    else if r.queue.length < streamCap then
      some ((k.setRun c sid { r with queue := r.queue ++ [payload] }).goto (.session c .next))
    else none
  | .session c (.hand n resp), .tau => some ((k.resolve n (.hub resp)).goto (.session c .next))
  | .detach, .tau => some { k.goto .flush with hubTx := none }
  | .flush, .tau => some ((k.setPending ∅).goto (.release (k.pending.entries.map Sigma.snd)))
  | .release (n :: l), .tau => some ((k.resolve n .flushed).goto (.release l))
  | .release [], .tau => some (k.goto .idle)
  | _, _ => none

/-- The dispatch loop of session `c` handles one frame. -/
def receive (E : ClientEnv) (k : Client) (c : ConnId) (f : ServerFrame) : Client :=
  match f.kind with
  | some (.challenge _ _) => k.goto (.session c (.send (clientHandshake E) true))
  | some (.openStream _ target) =>
    let name := if target = "" then "default" else target
    match E.cfg.targets.lookup name with
    | none =>
      (k.setRun c f.streamId ⟨"", .fresh, .refused, []⟩).goto (.session c
        (.send (clientClose f.streamId false ("unknown target " ++ E.debug name)) false))
    | some target =>
      (k.setStreams c (insert f.streamId (k.streams c))).setRun c f.streamId
        ⟨target, .fresh, .dial, []⟩
  | some (.data payload) =>
    if f.streamId ∈ k.streams c then k.goto (.session c (.deliver f.streamId payload))
    else k  -- data for unknown stream
  | some (.close _ _) => k.setStreams c ((k.streams c).erase f.streamId)
  | some (.ping sentAt) => k.goto (.session c (.send (clientPong sentAt) false))
  | some (.httpResponse resp) =>
    match k.pending.lookup f.streamId with
    | some n => (k.setPending (k.pending.erase f.streamId)).goto (.session c (.hand n resp))
    | none => k  -- response for unknown stream id
  | none => k

/-- `run_stream` of stream `sid` of session `c`. -/
def runStep (E : ClientEnv) (k : Client) (c : ConnId) (sid : Nat) (e : RunEv) : Option Client :=
  let r := k.run c sid
  match r.pc, e with
  | .dial, .dialed (.ok ()) => some (k.setRun c sid { r with pc := .select })
  | .dial, .dialed (.error reason) => some (k.setRun c sid { r with pc := .dialFailed reason })
  | .dialFailed reason, .tau =>
    (k.send E c (clientClose sid false reason)).map fun x => x.1.setRun c sid { r with pc := .forget }
  | .forget, .tau =>
    some ((k.setStreams c ((k.streams c).erase sid)).setRun c sid { r with pc := .ended })
  | .select, .read (.error _) => some (k.setRun c sid { r with pc := .sendEof })
  | .select, .read (.ok 0) =>
    if r.sock.atEof then some (k.setRun c sid { r with pc := .sendEof }) else none
  | .select, .read (.ok n) =>
    (r.sock.read n).map fun x => k.setRun c sid { r with sock := x.2, pc := .sendData x.1 }
  | .select, .tau =>
    match r.queue with
    | p :: q => some (k.setRun c sid { r with queue := q, pc := .write p })
    | [] => if k.hasSender c sid then none else some (k.setRun c sid { r with pc := .remove })
  | .sendData payload, .tau =>
    (k.send E c (clientData sid payload)).map fun x =>
      x.1.setRun c sid { r with pc := if x.2 then .select else .remove }
  | .sendEof, .tau =>
    (k.send E c (clientClose sid true "eof")).map fun x => x.1.setRun c sid { r with pc := .remove }
  | .write [], .tau => some (k.setRun c sid { r with pc := .select })
  | .write rest, .write (.ok n) =>
    if 0 < n ∧ n ≤ rest.length then
      some (k.setRun c sid { r with sock := r.sock.write (rest.take n), pc := .write (rest.drop n) })
    else none
  | .write _, .write (.error _) => some (k.setRun c sid { r with pc := .remove })
  -- the two halves of the connection are dropped
  | .remove, .tau =>
    some ((k.setStreams c ((k.streams c).erase sid)).setRun c sid
      { r with sock := r.sock.shutdown, pc := .ended })
  | _, _ => none

/-- `fetch_add` on an `AtomicU64`. -/
def fetchAdd (counter : Nat) : Nat := (counter + 1) % 2 ^ 64

/-- `handle_http_proxy` for caller `n`. -/
def callerStep (E : ClientEnv) (k : Client) (n : Nat) (e : CallerEv) : Option Client :=
  let x := k.caller n
  match x.pc, e with
  | .readHub, .tau =>
    match k.hubTx with
    | some c => some (k.setCaller n { x with conn := c, pc := .alloc })
    | none => some (k.setCaller n { x with pc := .returned .notConnected })
  | .alloc, .tau =>
    some { k.setCaller n { x with sid := k.streamIdCounter, pc := .register } with
      streamIdCounter := fetchAdd k.streamIdCounter }
  | .register, .tau =>
    some ((k.setPending (k.pending.insert x.sid n)).setCaller n { x with pc := .send })
  | .send, .tau =>
    (k.send E x.conn (clientHttpRequest x.sid x.req)).map fun r =>
      r.1.setCaller n { x with pc := if r.2 then .wait else .unsend }
  | .unsend, .tau =>
    some ((k.setPending (k.pending.erase x.sid)).setCaller n
      { x with pc := .returned .sendFailed })
  | .wait, .tau =>
    match x.slot with
    | some r => some (k.setCaller n { x with pc := .returned (.reply r) })
    | none =>
      if k.senderGone n then some (k.setCaller n { x with pc := .returned .channelClosed }) else none
  -- the channel is polled before the deadline
  | .wait, .timeout =>
    if x.slot = none ∧ k.senderGone n = false then some (k.setCaller n { x with pc := .expire })
    else none
  | .expire, .tau =>
    some ((k.setPending (k.pending.erase x.sid)).setCaller n { x with pc := .returned .timedOut })
  | .readHub, .drop | .register, .drop | .send, .drop | .unsend, .drop | .wait, .drop
  | .expire, .drop => some (k.setCaller n { x with pc := .dropped })
  | _, _ => none

def envStep (k : Client) : ClientEnvEv → Option Client
  | .dropOut c => some { k with outOpen := Function.update k.outOpen c false }
  | .peerSend c sid b =>
    ((k.run c sid).sock.peerSend b).map fun x => k.setRun c sid { k.run c sid with sock := x }
  | .peerClose c sid =>
    some (k.setRun c sid { k.run c sid with sock := (k.run c sid).sock.peerClose })
  | .arrive req =>
    some { k.setCaller k.nextCaller ⟨req, 0, 0, none, .readHub⟩ with nextCaller := k.nextCaller + 1 }

def step (E : ClientEnv) (k : Client) : ClientAct → Option Client
  | .main e => k.mainStep E e
  | .run c sid e => k.runStep E c sid e
  | .caller n e => k.callerStep E n e
  | .env e => k.envStep e

/-- The `Connect` call of a new session succeeds. -/
def connected (k : Client) (c : ConnId) : Client :=
  { k.goto (.session c .attach) with
    mine := Function.update k.mine c true, outOpen := Function.update k.outOpen c true }

end Client

end OpenSpoke.Tunnel
