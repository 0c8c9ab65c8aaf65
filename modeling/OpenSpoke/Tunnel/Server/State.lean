import Mathlib.Data.Finset.Card
import Mathlib.Logic.Function.Basic
import OpenSpoke.Tunnel.Frame

/-!
# The state of the tunnel server

One record for the process: the `sessions` map, the counters, and for every
connection, accept loop, virtual stream and proxied request the program counter
of its task with the local variables that are live there. Program counters
stand at the points where other tasks can run: awaits, lock acquisitions and
atomic operations. A critical section of a mutex is one step.
-/

namespace OpenSpoke.Tunnel

inductive RecvPc
  | next
  /-- holds a clone of the writer of `sid`, about to send `payload` into it -/
  | deliver (sid : Nat) (payload : Bytes)
  /-- that send failed; about to lock `streams` and remove `sid` -/
  | undeliver (sid : Nat)
  /-- about to answer request `n`, of a cluster spoke, with 403 -/
  | reject (n : Nat)
  deriving DecidableEq

/-- The program counter of `handle_connection`. -/
inductive Phase
  | absent
  | recvFirst
  /-- returned before any session was registered -/
  | refused (err : String)
  /-- 3. about to lock `sessions` and look for an older session -/
  | lookup
  /-- found `old` and released the map lock; `old_clone.close()` about to store the flag -/
  | closeOld (old : ConnId)
  /-- flag of `old` stored; about to lock its streams and clear them -/
  | clearOld (old : ConnId)
  /-- about to lock `sessions` again and insert -/
  | reinsert (old : ConnId)
  | inc
  /-- 4. about to bind the `k`-th configured port -/
  | bind (k : Nat)
  | failClose (err : String)
  | failClear (err : String)
  | failCleanup (err : String)
  | recv (pc : RecvPc)
  | close
  | clear
  | cleanup
  | abort
  /-- `h.abort()` called on every listener task; they are dropped at their next await -/
  | ret
  | returned (ret : Except String Unit)
  deriving DecidableEq

/-- The program counter of `accept_loop`. From `register` on the task holds the
accepted connection and the receiver of its writer channel. -/
inductive AcceptPc
  | absent
  | check
  | accept
  /-- about to run `next_sid.fetch_add(1)` -/
  | alloc
  | register (sid : Nat)
  | inc (sid : Nat)
  | sendOpen (sid : Nat)
  | rollback (sid : Nat)
  | spawn (sid : Nat)
  | ended
  deriving DecidableEq

structure AcceptLoop where
  port : Nat
  target : String
  pc : AcceptPc
  aborted : Bool
  deriving DecidableEq

/-- The task, and with it the listener, is alive. -/
def AcceptLoop.live (l : AcceptLoop) : Bool := l.pc ≠ .absent && l.pc ≠ .ended

/-- The upstream task (TCP -> spoke Data frame). -/
inductive UpPc
  | absent
  /-- the read half is still with the accept loop -/
  | held
  | read
  | send (payload : Bytes)
  | sendClose
  | remove
  | ended
  deriving DecidableEq

/-- The downstream task (spoke Data -> TCP). -/
inductive DownPc
  | absent
  | held
  | recv
  /-- inside `write_all`, `rest` not yet written -/
  | write (rest : Bytes)
  | shutdown
  | ended
  deriving DecidableEq

/-- The hub end of a virtual stream: the TCP connection that was given the
stream id, its writer channel and its two tasks. -/
structure HubStream where
  owner : ConnId
  sock : Socket
  up : UpPc
  down : DownPc
  queue : List Bytes
  deriving DecidableEq

/-- The accept loop drops the connection together with the channel's receiver. -/
def HubStream.drop (st : HubStream) : HubStream :=
  { st with up := .ended, down := .ended, sock := st.sock.shutdown }

structure UpstreamRequest where
  method : String
  url : String
  headers : List (String × String)
  body : Bytes
  deriving DecidableEq

/-- An answer of the hub kernel. A header value is `none` where `to_str` fails. -/
structure UpstreamResponse where
  status : Nat
  headers : List (String × Option String)
  body : Except String Bytes

/-- The program counter of `handle_http_request`. -/
inductive HttpPc
  | absent
  /-- no task: `recv_loop` answers the request itself -/
  | inline
  | start
  /-- awaits `builder.send()`; an `Except.error` builder fails without a request -/
  | send (builder : Except String UpstreamRequest)
  /-- still in `send()`, which has followed `hops` redirects and made this request -/
  | following (req : UpstreamRequest) (hops : Nat)
  | reply (resp : HttpResponse)
  | ended
  deriving DecidableEq

/-- The request of `send()` that is to be answered, and the redirects before it. -/
def HttpPc.awaits : HttpPc → Option (UpstreamRequest × Nat)
  | .send (.ok req) => some (req, 0)
  | .following req hops => some (req, hops)
  | _ => none

/-- An `HttpRequest` frame that `recv_loop` has read, and its handling. -/
structure HttpTask where
  conn : ConnId
  sid : Nat
  req : HttpRequest
  pc : HttpPc
  deriving DecidableEq

/-- The sessions themselves. The map sends a stream id to the sender of that
stream's writer channel, so its keys are all there is to record. -/
structure SpokeSession where
  spokeId : String
  streams : Finset Nat
  closed : Bool
  deriving DecidableEq

structure Metrics where
  connected : Int
  streamsOpen : String → Int
  bytesSent : String → Nat
  bytesRecv : String → Nat
  handshakeFail : String → Nat
  httpRequests : String → String → Nat

structure Server where
  sessions : AList (fun _ : String => ConnId)
  /-- an `AtomicU64`; no run of the process lasts until it wraps -/
  nextSid : Nat
  metrics : Metrics
  nextConn : Nat
  phase : ConnId → Phase
  hs : ConnId → Option HandshakeResponse
  sc : ConnId → SpokeConfig
  session : ConnId → SpokeSession
  /-- frames sent to the spoke and not yet received there -/
  outbox : ConnId → List ServerFrame
  /-- the receiving end of `server_tx` exists -/
  rxOpen : ConnId → Bool
  loop : ConnId → Nat → AcceptLoop
  stream : Nat → HubStream
  /-- `HttpRequest` frames are numbered in the order in which they are read -/
  nextTask : Nat
  task : Nat → HttpTask
  /-- history: the upstream requests put on the wire, oldest first -/
  issued : List (Nat × UpstreamRequest)
  /-- history: the responses queued for the spoke, oldest first -/
  answered : List (Nat × HttpResponse)

namespace Metrics

def zero : Metrics := ⟨0, fun _ => 0, fun _ => 0, fun _ => 0, fun _ => 0, fun _ _ => 0⟩

def incConnected (m : Metrics) : Metrics := { m with connected := m.connected + 1 }

def decConnected (m : Metrics) : Metrics := { m with connected := m.connected - 1 }

def incStreams (m : Metrics) (id : String) : Metrics :=
  { m with streamsOpen := Function.update m.streamsOpen id (m.streamsOpen id + 1) }

def decStreams (m : Metrics) (id : String) : Metrics :=
  { m with streamsOpen := Function.update m.streamsOpen id (m.streamsOpen id - 1) }

def addSent (m : Metrics) (id : String) (n : Nat) : Metrics :=
  { m with bytesSent := Function.update m.bytesSent id (m.bytesSent id + n) }

def addRecv (m : Metrics) (id : String) (n : Nat) : Metrics :=
  { m with bytesRecv := Function.update m.bytesRecv id (m.bytesRecv id + n) }

def failHandshake (m : Metrics) (reason : String) : Metrics :=
  { m with handshakeFail := Function.update m.handshakeFail reason (m.handshakeFail reason + 1) }

def countHttp (m : Metrics) (id result : String) : Metrics :=
  let results := Function.update (m.httpRequests id) result (m.httpRequests id result + 1)
  { m with httpRequests := Function.update m.httpRequests id results }

@[simp] theorem incConnected_connected (m : Metrics) :
    m.incConnected.connected = m.connected + 1 := rfl
@[simp] theorem decConnected_connected (m : Metrics) :
    m.decConnected.connected = m.connected - 1 := rfl
@[simp] theorem incStreams_connected (m : Metrics) (id : String) :
    (m.incStreams id).connected = m.connected := rfl
@[simp] theorem decStreams_connected (m : Metrics) (id : String) :
    (m.decStreams id).connected = m.connected := rfl
@[simp] theorem addSent_connected (m : Metrics) (id : String) (n : Nat) :
    (m.addSent id n).connected = m.connected := rfl
@[simp] theorem addRecv_connected (m : Metrics) (id : String) (n : Nat) :
    (m.addRecv id n).connected = m.connected := rfl
@[simp] theorem failHandshake_connected (m : Metrics) (reason : String) :
    (m.failHandshake reason).connected = m.connected := rfl
@[simp] theorem countHttp_connected (m : Metrics) (id result : String) :
    (m.countHttp id result).connected = m.connected := rfl

@[simp] theorem incConnected_streamsOpen (m : Metrics) :
    m.incConnected.streamsOpen = m.streamsOpen := rfl
@[simp] theorem decConnected_streamsOpen (m : Metrics) :
    m.decConnected.streamsOpen = m.streamsOpen := rfl
@[simp] theorem addSent_streamsOpen (m : Metrics) (id : String) (n : Nat) :
    (m.addSent id n).streamsOpen = m.streamsOpen := rfl
@[simp] theorem addRecv_streamsOpen (m : Metrics) (id : String) (n : Nat) :
    (m.addRecv id n).streamsOpen = m.streamsOpen := rfl
@[simp] theorem failHandshake_streamsOpen (m : Metrics) (reason : String) :
    (m.failHandshake reason).streamsOpen = m.streamsOpen := rfl
@[simp] theorem countHttp_streamsOpen (m : Metrics) (id result : String) :
    (m.countHttp id result).streamsOpen = m.streamsOpen := rfl

end Metrics

namespace Server

/-- `TunnelSvc` as `main` builds it, before the first call. -/
def init : Server where
  sessions := ∅
  nextSid := 0
  metrics := .zero
  nextConn := 0
  phase _ := .absent
  hs _ := none
  sc _ := ⟨"", .cluster, [], ""⟩
  session _ := ⟨"", ∅, false⟩
  outbox _ := []
  rxOpen _ := false
  loop _ _ := ⟨0, "", .absent, false⟩
  stream _ := ⟨0, .fresh, .absent, .absent, []⟩
  nextTask := 0
  task _ := ⟨0, 0, ⟨"", "", ∅, []⟩, .absent⟩
  issued := []
  answered := []

end Server

end OpenSpoke.Tunnel
