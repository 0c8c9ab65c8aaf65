import Mathlib.Tactic.Simps.Basic
import OpenSpoke.Tunnel.Server.HttpRequest

/-!
# The steps of the tunnel server

`connStep` is `handle_connection` with `recv_loop` and `cleanup_session`,
`loopStep` is `accept_loop`, `upStep` and `downStep` are the two tasks it spawns
for a stream, and `httpStep` is `handle_http_request`. Each takes one task from
one program counter to the next. A label says which task moves and, at an await
on the environment, what the await returns.
-/

namespace OpenSpoke.Tunnel

/-- The parameters of the server process. `wire` is how many frames the gRPC
transport buffers beyond the channel in front of it. -/
structure Env where
  cfg : ServerConfig
  lib : HttpLib
  wire : Nat

/-- What `client_stream.next()` returns. -/
abbrev Incoming := Option (Except String ClientFrame)

inductive ConnEv
  | tau
  | frame (r : Incoming)
  | bind (r : Except String Unit)
  deriving DecidableEq

inductive LoopEv
  | tau
  | accept (r : Except String Unit)
  /-- the runtime drops the aborted task at an await -/
  | cancel
  deriving DecidableEq

inductive UpEv
  | tau
  | read (r : Except String Nat)
  deriving DecidableEq

inductive DownEv
  | tau
  | write (r : Except String Nat)
  deriving DecidableEq

inductive HttpEv
  | tau
  | response (r : Except String UpstreamResponse)
  /-- the client follows a redirect, inside `send()` -/
  | redirect (resp : UpstreamResponse)

/-- The world around the server's tasks. -/
inductive EnvEv
  /-- the transport hands the oldest frame over to the spoke -/
  | deliver (c : ConnId)
  /-- the response stream is dropped, and the receiver of `server_tx` with it -/
  | dropRx (c : ConnId)
  | peerSend (sid : Nat) (b : Bytes)
  | peerClose (sid : Nat)
  deriving DecidableEq

inductive ServerAct
  | connect (nonce : Bytes) (issuedAt : Int)
  | conn (c : ConnId) (e : ConnEv)
  | loop (c : ConnId) (k : Nat) (e : LoopEv)
  | up (sid : Nat) (e : UpEv)
  | down (sid : Nat) (e : DownEv)
  | http (t : Nat) (e : HttpEv)
  | env (e : EnvEv)

namespace Server

@[simps -fullyApplied] def goto (s : Server) (c : ConnId) (p : Phase) : Server :=
  { s with phase := Function.update s.phase c p }

@[simps -fullyApplied] def setSession (s : Server) (c : ConnId) (x : SpokeSession) : Server :=
  { s with session := Function.update s.session c x }

@[simps -fullyApplied] def setSessions (s : Server) (m : AList (fun _ : String => ConnId)) : Server :=
  { s with sessions := m }

@[simps -fullyApplied] def setMetrics (s : Server) (m : Metrics) : Server := { s with metrics := m }

@[simps -fullyApplied] def setLoop (s : Server) (c : ConnId) (k : Nat) (l : AcceptLoop) : Server :=
  { s with loop := Function.update s.loop c (Function.update (s.loop c) k l) }

@[simps -fullyApplied] def setStream (s : Server) (sid : Nat) (st : HubStream) : Server :=
  { s with stream := Function.update s.stream sid st }

@[simps -fullyApplied] def setOutbox (s : Server) (c : ConnId) (l : List ServerFrame) : Server :=
  { s with outbox := Function.update s.outbox c l }

@[simps -fullyApplied] def setTask (s : Server) (t : Nat) (x : HttpTask) : Server :=
  { s with task := Function.update s.task t x }

/-- An `HttpRequest` frame is read. -/
@[simps! -fullyApplied] def addTask (s : Server) (x : HttpTask) : Server :=
  { s.setTask s.nextTask x with nextTask := s.nextTask + 1 }

/-- The handling of request `n` ends with the result of sending its response. -/
@[simps! -fullyApplied] def answer (s : Server) (n : Nat) (resp : HttpResponse) (sent : Bool) : Server :=
  { s.setTask n { s.task n with pc := .ended } with
    answered := if sent then s.answered ++ [(n, resp)] else s.answered }

theorem setLoop_apply (s : Server) (c d : ConnId) (k j : Nat) (l : AcceptLoop) :
    (s.setLoop c k l).loop d j = if d = c ∧ j = k then l else s.loop d j := by
  by_cases hd : d = c
  · subst hd
    by_cases hj : j = k <;> simp [hj]
  · simp [hd]

/-- `self.closed.store(true)`, the first half of `SpokeSession::close`. -/
@[simps! -fullyApplied] def storeClosed (s : Server) (c : ConnId) : Server :=
  s.setSession c { s.session c with closed := true }

/-- `streams.clear()` under the lock, the second half of `SpokeSession::close`. -/
@[simps! -fullyApplied] def clearStreams (s : Server) (c : ConnId) : Server :=
  s.setSession c { s.session c with streams := ∅ }

@[simps! -fullyApplied] def addStream (s : Server) (c : ConnId) (sid : Nat) : Server :=
  s.setSession c { s.session c with streams := insert sid (s.session c).streams }

@[simps! -fullyApplied] def eraseStream (s : Server) (c : ConnId) (sid : Nat) : Server :=
  s.setSession c { s.session c with streams := (s.session c).streams.erase sid }

/-- `streams_open.with_label_values(&[&session.spoke_id]).dec()`. -/
@[simps! -fullyApplied] def decStreams (s : Server) (c : ConnId) : Server :=
  s.setMetrics (s.metrics.decStreams (s.session c).spokeId)

/-- `if streams.remove(&sid).is_some() { streams_open.dec() }` under the lock. -/
def removeStream (s : Server) (c : ConnId) (sid : Nat) : Server :=
  if sid ∈ (s.session c).streams then (s.eraseStream c sid).decStreams c else s

section RemoveStream

variable (s : Server) (c d : ConnId) (sid : Nat)

@[simp] theorem removeStream_sessions : (s.removeStream c sid).sessions = s.sessions := by
  unfold removeStream; split <;> rfl
@[simp] theorem removeStream_nextSid : (s.removeStream c sid).nextSid = s.nextSid := by
  unfold removeStream; split <;> rfl
@[simp] theorem removeStream_nextConn : (s.removeStream c sid).nextConn = s.nextConn := by
  unfold removeStream; split <;> rfl
@[simp] theorem removeStream_phase : (s.removeStream c sid).phase = s.phase := by
  unfold removeStream; split <;> rfl
@[simp] theorem removeStream_hs : (s.removeStream c sid).hs = s.hs := by
  unfold removeStream; split <;> rfl
@[simp] theorem removeStream_sc : (s.removeStream c sid).sc = s.sc := by
  unfold removeStream; split <;> rfl
@[simp] theorem removeStream_outbox : (s.removeStream c sid).outbox = s.outbox := by
  unfold removeStream; split <;> rfl
@[simp] theorem removeStream_rxOpen : (s.removeStream c sid).rxOpen = s.rxOpen := by
  unfold removeStream; split <;> rfl
@[simp] theorem removeStream_loop : (s.removeStream c sid).loop = s.loop := by
  unfold removeStream; split <;> rfl
@[simp] theorem removeStream_stream : (s.removeStream c sid).stream = s.stream := by
  unfold removeStream; split <;> rfl
@[simp] theorem removeStream_nextTask : (s.removeStream c sid).nextTask = s.nextTask := by
  unfold removeStream; split <;> rfl
@[simp] theorem removeStream_task : (s.removeStream c sid).task = s.task := by
  unfold removeStream; split <;> rfl
@[simp] theorem removeStream_issued : (s.removeStream c sid).issued = s.issued := by
  unfold removeStream; split <;> rfl
@[simp] theorem removeStream_answered : (s.removeStream c sid).answered = s.answered := by
  unfold removeStream; split <;> rfl

@[simp] theorem removeStream_spokeId :
    ((s.removeStream c sid).session d).spokeId = (s.session d).spokeId := by
  unfold removeStream
  split
  · by_cases hd : d = c <;> simp [hd]
  · rfl

@[simp] theorem removeStream_closed :
    ((s.removeStream c sid).session d).closed = (s.session d).closed := by
  unfold removeStream
  split
  · by_cases hd : d = c <;> simp [hd]
  · rfl

theorem removeStream_streams : ((s.removeStream c sid).session d).streams =
    if d = c then (s.session c).streams.erase sid else (s.session d).streams := by
  unfold removeStream
  split
  · by_cases hd : d = c <;> simp [hd]
  · next hOut => by_cases hd : d = c <;> simp [hd, hOut]

end RemoveStream

/-- `SpokeSession::send`: `none` while the channel is full; else the state after
it and whether it succeeded, which it does unless the receiver is gone. -/
def send (E : Env) (s : Server) (c : ConnId) (f : ServerFrame) : Option (Server × Bool) :=
  if s.rxOpen c then
    if (s.outbox c).length < frameCap + E.wire then
      some (s.setOutbox c (s.outbox c ++ [f]), true)
    else none
  else some (s, false)

theorem send_eq_some {E : Env} {s t : Server} {c : ConnId} {f : ServerFrame} {sent : Bool}
    (h : s.send E c f = some (t, sent)) :
    (sent = true ∧ s.rxOpen c = true ∧ t = s.setOutbox c (s.outbox c ++ [f])) ∨
      (sent = false ∧ s.rxOpen c = false ∧ t = s) := by
  unfold send at h
  split at h
  · next hOpen =>
    split at h <;> cases h
    exact .inl ⟨rfl, hOpen, rfl⟩
  · next hOpen =>
    cases h
    exact .inr ⟨rfl, Bool.eq_false_iff.mpr hOpen, rfl⟩

def cleanupSession (s : Server) (spokeId : String) : Server :=
  match s.sessions.lookup spokeId with
  | some cur =>
    if (s.session cur).closed then
      (s.setSessions (s.sessions.erase spokeId)).setMetrics s.metrics.decConnected
    else s
  | none => s

section CleanupSession

variable (s : Server) (id : String)

@[simp] theorem cleanupSession_nextConn : (s.cleanupSession id).nextConn = s.nextConn := by
  unfold cleanupSession; split <;> (try split) <;> rfl
@[simp] theorem cleanupSession_nextSid : (s.cleanupSession id).nextSid = s.nextSid := by
  unfold cleanupSession; split <;> (try split) <;> rfl
@[simp] theorem cleanupSession_phase : (s.cleanupSession id).phase = s.phase := by
  unfold cleanupSession; split <;> (try split) <;> rfl
@[simp] theorem cleanupSession_hs : (s.cleanupSession id).hs = s.hs := by
  unfold cleanupSession; split <;> (try split) <;> rfl
@[simp] theorem cleanupSession_sc : (s.cleanupSession id).sc = s.sc := by
  unfold cleanupSession; split <;> (try split) <;> rfl
@[simp] theorem cleanupSession_session : (s.cleanupSession id).session = s.session := by
  unfold cleanupSession; split <;> (try split) <;> rfl
@[simp] theorem cleanupSession_outbox : (s.cleanupSession id).outbox = s.outbox := by
  unfold cleanupSession; split <;> (try split) <;> rfl
@[simp] theorem cleanupSession_rxOpen : (s.cleanupSession id).rxOpen = s.rxOpen := by
  unfold cleanupSession; split <;> (try split) <;> rfl
@[simp] theorem cleanupSession_loop : (s.cleanupSession id).loop = s.loop := by
  unfold cleanupSession; split <;> (try split) <;> rfl
@[simp] theorem cleanupSession_stream : (s.cleanupSession id).stream = s.stream := by
  unfold cleanupSession; split <;> (try split) <;> rfl
@[simp] theorem cleanupSession_nextTask : (s.cleanupSession id).nextTask = s.nextTask := by
  unfold cleanupSession; split <;> (try split) <;> rfl
@[simp] theorem cleanupSession_task : (s.cleanupSession id).task = s.task := by
  unfold cleanupSession; split <;> (try split) <;> rfl
@[simp] theorem cleanupSession_issued : (s.cleanupSession id).issued = s.issued := by
  unfold cleanupSession; split <;> (try split) <;> rfl
@[simp] theorem cleanupSession_answered : (s.cleanupSession id).answered = s.answered := by
  unfold cleanupSession; split <;> (try split) <;> rfl
@[simp] theorem cleanupSession_streamsOpen :
    (s.cleanupSession id).metrics.streamsOpen = s.metrics.streamsOpen := by
  unfold cleanupSession; split <;> (try split) <;> rfl

end CleanupSession

/-- No live listener of the process is bound to the port. -/
def PortFree (s : Server) (port : Nat) : Prop :=
  ∀ c < s.nextConn, ∀ k < (s.sc c).ports.length,
    ¬((s.loop c k).live = true ∧ (s.loop c k).port = port)

instance (s : Server) (port : Nat) : Decidable (s.PortFree port) :=
  inferInstanceAs (Decidable (∀ c < s.nextConn, ∀ k < (s.sc c).ports.length,
    ¬((s.loop c k).live = true ∧ (s.loop c k).port = port)))

end Server

/-- Steps 1 and 2 of `handle_connection`. An error carries the label it is
counted under and the text returned. -/
def handshake (cfg : ServerConfig) :
    Incoming → Except (String × String) (HandshakeResponse × SpokeConfig)
  | some (.error e) => .error ("recv_first", "recv first: " ++ e)
  | none => .error ("recv_first", "recv first: stream closed")
  | some (.ok f) =>
    match f.kind with
    | some (.handshake hs) =>
      match cfg.spokes.lookup hs.spokeId with
      | none => .error ("unknown_spoke", "unknown spoke_id: " ++ hs.spokeId)
      | some sc =>
        if hs.signature ≠ asBytes sc.token then
          .error ("bad_token", "bad token for " ++ hs.spokeId)
        else .ok (hs, sc)
    | _ => .error ("no_handshake", "expected HandshakeResponse")

namespace Server

/-- `recv_loop` between two awaits. -/
def recvStep (E : Env) (s : Server) (c : ConnId) : RecvPc → ConnEv → Option Server
  | .next, .frame (some (.ok f)) =>
    match f.kind with
    | some (.data payload) =>
      if f.streamId ∈ (s.session c).streams then
        some ((s.setMetrics (s.metrics.addRecv (s.session c).spokeId payload.length)).goto c
          (.recv (.deliver f.streamId payload)))
      else some s  -- data for unknown stream
    | some (.close _ _) => some (s.removeStream c f.streamId)
    | some (.pong _) => some s
    | some (.httpRequest req) =>
      if (s.sc c).kind ≠ .application then
        some (((s.setMetrics (s.metrics.countHttp (s.session c).spokeId "rejected_kind")).addTask
          ⟨c, f.streamId, req, .inline⟩).goto c (.recv (.reject s.nextTask)))
      else some (s.addTask ⟨c, f.streamId, req, .start⟩)
    | some (.handshake _) => some s  -- unexpected handshake mid-stream
    | none => some s
  | .next, .frame _ => some (s.goto c .close)
  | .deliver sid payload, .tau =>
    if (s.stream sid).down = .ended then some (s.goto c (.recv (.undeliver sid)))
    else if (s.stream sid).queue.length < streamCap then
      some ((s.setStream sid { s.stream sid with queue := (s.stream sid).queue ++ [payload] }).goto c
        (.recv .next))
    else none
  | .undeliver sid, .tau => some ((s.removeStream c sid).goto c (.recv .next))
  | .reject n, .tau =>
    (s.send E c ⟨(s.task n).sid, some (.httpResponse rejectedKind)⟩).map fun r =>
      (r.1.answer n rejectedKind r.2).goto c (.recv .next)
  | _, _ => none

/-- `handle_connection`. -/
def connStep (E : Env) (s : Server) (c : ConnId) (e : ConnEv) : Option Server :=
  let id := (s.session c).spokeId
  match s.phase c, e with
  | .recvFirst, .frame r =>
    match handshake E.cfg r with
    | .error (reason, text) =>
      some ((s.setMetrics (s.metrics.failHandshake reason)).goto c (.refused text))
    | .ok (hs, sc) =>
      some { (s.setSession c ⟨hs.spokeId, ∅, false⟩).goto c .lookup with
        hs := Function.update s.hs c (some hs), sc := Function.update s.sc c sc }
  | .lookup, .tau =>
    match s.sessions.lookup id with
    | some old => some (s.goto c (.closeOld old))
    | none => some ((s.setSessions (s.sessions.insert id c)).goto c .inc)
  | .closeOld old, .tau => some ((s.storeClosed old).goto c (.clearOld old))
  | .clearOld old, .tau => some ((s.clearStreams old).goto c (.reinsert old))
  | .reinsert _, .tau => some ((s.setSessions (s.sessions.insert id c)).goto c .inc)
  | .inc, .tau => some ((s.setMetrics s.metrics.incConnected).goto c (.bind 0))
  | .bind k, e =>
    match (s.sc c).ports[k]?, e with
    | none, .tau => some (s.goto c (.recv .next))
    | some b, .bind (.ok ()) =>
      if s.PortFree b.port then
        some ((s.setLoop c k ⟨b.port, b.target, .check, false⟩).goto c (.bind (k + 1)))
      else none
    | some b, .bind (.error e) =>
      some (s.goto c (.failClose ("listen " ++ toString b.port ++ ": " ++ e)))
    | _, _ => none
  -- the handles of the listeners opened so far are dropped, not aborted
  | .failClose err, .tau => some ((s.storeClosed c).goto c (.failClear err))
  | .failClear err, .tau => some ((s.clearStreams c).goto c (.failCleanup err))
  | .failCleanup err, .tau => some ((s.cleanupSession id).goto c (.returned (.error err)))
  | .recv pc, e => s.recvStep E c pc e
  | .close, .tau => some ((s.storeClosed c).goto c .clear)
  | .clear, .tau => some ((s.clearStreams c).goto c .cleanup)
  | .cleanup, .tau => some ((s.cleanupSession id).goto c .abort)
  | .abort, .tau =>
    some { s.goto c .ret with
      loop := Function.update s.loop c fun k => { s.loop c k with aborted := true } }
  | .ret, .tau => some (s.goto c (.returned (.ok ())))
  | _, _ => none

/-- `accept_loop` on the `k`-th port of connection `c`. -/
def loopStep (E : Env) (s : Server) (c : ConnId) (k : Nat) (e : LoopEv) : Option Server :=
  let l := s.loop c k
  match l.pc, e with
  | .check, .tau =>
    some (s.setLoop c k { l with pc := if (s.session c).closed then .ended else .accept })
  | .accept, .accept (.error _) => some (s.setLoop c k { l with pc := .ended })
  | .accept, .accept (.ok ()) => some (s.setLoop c k { l with pc := .alloc })
  | .alloc, .tau =>
    let sid := s.nextSid + 1
    some { (s.setStream sid ⟨c, .fresh, .held, .held, []⟩).setLoop c k
      { l with pc := .register sid } with nextSid := sid }
  | .register sid, .tau => some ((s.addStream c sid).setLoop c k { l with pc := .inc sid })
  | .inc sid, .tau =>
    some ((s.setMetrics (s.metrics.incStreams (s.session c).spokeId)).setLoop c k
      { l with pc := .sendOpen sid })
  | .sendOpen sid, .tau =>
    (s.send E c ⟨sid, some (.openStream "tcp" l.target)⟩).map fun r =>
      r.1.setLoop c k { l with pc := if r.2 then .spawn sid else .rollback sid }
  | .rollback sid, .tau =>
    some ((((s.eraseStream c sid).decStreams c).setStream sid (s.stream sid).drop).setLoop c k
      { l with pc := .check })
  | .spawn sid, .tau =>
    some ((s.setStream sid { s.stream sid with up := .read, down := .recv }).setLoop c k
      { l with pc := .check })
  -- a task that was never polled can be dropped as well, hence `check`
  | .check, .cancel | .accept, .cancel =>
    if l.aborted then some (s.setLoop c k { l with pc := .ended }) else none
  | .register sid, .cancel | .sendOpen sid, .cancel | .rollback sid, .cancel =>
    if l.aborted then
      some ((s.setStream sid (s.stream sid).drop).setLoop c k { l with pc := .ended })
    else none
  | _, _ => none

def upStep (E : Env) (s : Server) (sid : Nat) (e : UpEv) : Option Server :=
  let st := s.stream sid
  let id := (s.session st.owner).spokeId
  match st.up, e with
  | .read, .read (.error _) => some (s.setStream sid { st with up := .remove })
  | .read, .read (.ok 0) =>
    if st.sock.atEof then some (s.setStream sid { st with up := .sendClose }) else none
  | .read, .read (.ok n) =>
    (st.sock.read n).map fun r =>
      (s.setStream sid { st with sock := r.2, up := .send r.1 }).setMetrics (s.metrics.addSent id n)
  | .send payload, .tau =>
    (s.send E st.owner ⟨sid, some (.data payload)⟩).map fun r =>
      r.1.setStream sid { st with up := if r.2 then .read else .remove }
  | .sendClose, .tau =>
    (s.send E st.owner ⟨sid, some (.close true "eof")⟩).map fun r =>
      r.1.setStream sid { st with up := .remove }
  | .remove, .tau => some ((s.removeStream st.owner sid).setStream sid { st with up := .ended })
  | _, _ => none

/-- Some sender of the writer channel of `sid` exists: the map entry, or the
clone `recv_loop` holds while it delivers. -/
def hasSender (s : Server) (sid : Nat) : Bool :=
  let c := (s.stream sid).owner
  sid ∈ (s.session c).streams ||
    match s.phase c with
    | .recv (.deliver sid' _) => sid' = sid
    | _ => false

def downStep (s : Server) (sid : Nat) (e : DownEv) : Option Server :=
  let st := s.stream sid
  match st.down, e with
  | .recv, .tau =>
    match st.queue with
    | p :: q => some (s.setStream sid { st with queue := q, down := .write p })
    | [] => if s.hasSender sid then none else some (s.setStream sid { st with down := .shutdown })
  | .write [], .tau => some (s.setStream sid { st with down := .recv })
  | .write rest, .write (.ok n) =>
    if 0 < n ∧ n ≤ rest.length then
      some (s.setStream sid
        { st with sock := st.sock.write (rest.take n), down := .write (rest.drop n) })
    else none
  | .write _, .write (.error _) => some (s.setStream sid { st with down := .shutdown })
  | .shutdown, .tau =>
    some (s.setStream sid { st with sock := st.sock.shutdown, down := .ended })
  | _, _ => none

/-- `handle_http_request` in the spawned task `t`, up to an await. -/
def httpTau (E : Env) (s : Server) (t : Nat) : Option Server :=
  let x := s.task t
  let id := (s.session x.conn).spokeId
  match x.pc with
  | .start =>
    if x.req.path ∉ E.cfg.allowedPaths then
      some ((s.setMetrics (s.metrics.countHttp id "rejected_path")).setTask t
        { x with pc := .reply (rejectedPath x.req.path) })
    else
      match forward E.lib E.cfg id x.req with
      | .error err => some (s.setTask t { x with pc := .send (.error err) })
      | .ok req =>
        some { s.setTask t { x with pc := .send (.ok req) } with issued := s.issued ++ [(t, req)] }
  | .send (.error err) =>
    some ((s.setMetrics (s.metrics.countHttp id "upstream_err")).setTask t
      { x with pc := .reply (upstreamError err) })
  | .reply resp =>
    (s.send E x.conn ⟨x.sid, some (.httpResponse resp)⟩).map fun r =>
      r.1.answer t resp r.2
  | _ => none

def httpStep (E : Env) (s : Server) (t : Nat) : HttpEv → Option Server
  | .tau => s.httpTau E t
  | .response r =>
    (s.task t).pc.awaits.bind fun a =>
      if E.lib.returns a.1 r then
        let (resp, label) := upstreamAnswer r
        let id := (s.session (s.task t).conn).spokeId
        some ((s.setMetrics (s.metrics.countHttp id label)).setTask t
          { s.task t with pc := .reply resp })
      else none
  | .redirect resp =>
    (s.task t).pc.awaits.bind fun a =>
      if a.2 < maxRedirects then
        (E.lib.follow a.1 resp).map fun req =>
          { s.setTask t { s.task t with pc := .following req (a.2 + 1) } with
            issued := s.issued ++ [(t, req)] }
      else none

def envStep (s : Server) : EnvEv → Option Server
  | .deliver c =>
    match s.outbox c with
    | _ :: rest => some (s.setOutbox c rest)
    | [] => none
  | .dropRx c => some { s with rxOpen := Function.update s.rxOpen c false }
  | .peerSend sid b =>
    ((s.stream sid).sock.peerSend b).map fun k => s.setStream sid { s.stream sid with sock := k }
  | .peerClose sid =>
    some (s.setStream sid { s.stream sid with sock := (s.stream sid).sock.peerClose })

/-- `Tunnel::connect` queues the challenge and spawns `handle_connection`. -/
def connect (s : Server) (nonce : Bytes) (issuedAt : Int) : Server :=
  let c := s.nextConn
  { (s.goto c .recvFirst).setOutbox c [⟨0, some (.challenge nonce issuedAt)⟩] with
    nextConn := c + 1, rxOpen := Function.update s.rxOpen c true }

def step (E : Env) (s : Server) : ServerAct → Option Server
  | .connect nonce issuedAt => some (s.connect nonce issuedAt)
  | .conn c e => s.connStep E c e
  | .loop c k e => s.loopStep E c k e
  | .up sid e => s.upStep E sid e
  | .down sid e => s.downStep sid e
  | .http t e => s.httpStep E t e
  | .env e => s.envStep e

end Server

end OpenSpoke.Tunnel
