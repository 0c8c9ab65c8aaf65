import Mathlib.Algebra.Group.Nat.Defs
import Mathlib.Data.Finset.Basic
import Mathlib.Logic.Function.Basic
import OpenSpoke.Tunnel.Frame

/-!
# The state of a tunnel client

One record for the client process. The sessions of a process follow each other,
so the dispatch loop of `run_session_impl` is part of the program counter of
`main`; the tasks `run_stream` of a session outlive it, and the callers of the
HTTP proxy run beside all sessions.
-/

namespace OpenSpoke.Tunnel

structure ClientConfig where
  spokeId : String
  token : String
  targets : AList (fun _ : String => String)

/-- `CLIENT_VERSION` is set when the program is built, and `{:?}` is the
standard library's. -/
structure ClientEnv where
  cfg : ClientConfig
  version : String
  debug : String → String
  wire : Nat

def clientHandshake (E : ClientEnv) : ClientFrame :=
  ⟨0, some (.handshake ⟨E.cfg.spokeId, asBytes E.cfg.token, E.version⟩)⟩

def clientClose (sid : Nat) (half : Bool) (reason : String) : ClientFrame :=
  ⟨sid, some (.close half reason)⟩

def clientData (sid : Nat) (payload : Bytes) : ClientFrame := ⟨sid, some (.data payload)⟩

def clientPong (sentAt : Int) : ClientFrame := ⟨0, some (.pong sentAt)⟩

def clientHttpRequest (sid : Nat) (req : HttpRequest) : ClientFrame :=
  ⟨sid, some (.httpRequest req)⟩

/-- What `detach_hub_and_flush` sends to a waiting caller. -/
def sessionEnded : HttpResponse :=
  ⟨503, ∅, asBytes "tunnel session ended", "tunnel session ended"⟩

/-- The program counter of `run_stream`. -/
inductive RunPc
  | absent
  -- no task: the dispatch loop found the target unknown
  | refused
  | dial
  | dialFailed (reason : String)
  -- the dial failed and was reported; about to lock `streams` and remove the entry
  | forget
  -- in `select!`, waiting for the target or for the channel
  | select
  | sendData (payload : Bytes)
  | sendEof
  -- inside `write_all`, `rest` not yet written
  | write (rest : Bytes)
  -- left the loop; about to lock `streams` and remove the entry
  | remove
  | ended
  deriving DecidableEq

/-- The spoke end of a virtual stream: its task, the connection to the target and
the channel in front of it. -/
structure RunStream where
  target : String
  sock : Socket
  pc : RunPc
  queue : List Bytes
  deriving DecidableEq

/-- What a caller of the HTTP proxy can find in its oneshot channel. -/
inductive Reply
  | hub (resp : HttpResponse)
  | flushed
  deriving DecidableEq

def Reply.response : Reply → HttpResponse
  | .hub resp => resp
  | .flushed => sessionEnded

/-- What `handle_http_proxy` returns. -/
inductive ProxyResult
  | reply (r : Reply)
  | notConnected
  | sendFailed
  | channelClosed
  | timedOut
  deriving DecidableEq

/-- The program counter of `handle_http_proxy`, from the point where the request
has been read. -/
inductive CallerPc
  | absent
  -- about to clone `hub_tx` under its lock
  | readHub
  | alloc
  -- about to lock `pending` and insert
  | register
  | send
  -- the send failed; about to lock `pending` and remove
  | unsend
  | wait
  -- the wait timed out; about to lock `pending` and remove
  | expire
  | returned (r : ProxyResult)
  -- the handler was dropped because its caller went away
  | dropped
  deriving DecidableEq

/-- A caller of the HTTP proxy. `conn` names the session whose sender it cloned,
and `sid` is zero until one is allocated. -/
structure Caller where
  req : HttpRequest
  conn : ConnId
  sid : Nat
  slot : Option Reply
  pc : CallerPc
  deriving DecidableEq

/-- The receiver of the caller's oneshot channel exists. -/
def CallerPc.listening : CallerPc → Bool
  | .register | .send | .unsend | .wait => true
  | _ => false

/-- Inside the dispatch loop. -/
inductive DispatchPc
  -- the call is open; about to run `attach_hub`
  | attach
  | next
  -- awaits `hub_tx.send`; a failure ends the session if `fatal`
  | send (f : ClientFrame) (fatal : Bool)
  -- holds a clone of the sender of `sid`
  | deliver (sid : Nat) (payload : Bytes)
  -- holds the oneshot sender of caller `n`
  | hand (n : Nat) (resp : HttpResponse)
  deriving DecidableEq

/-- The program counter of `main`, in `run_session`. -/
inductive MainPc
  | idle
  | session (c : ConnId) (pc : DispatchPc)
  -- `detach_hub_and_flush`: about to clear `hub_tx`
  | detach
  | flush
  -- about to answer the callers drained from `pending`
  | release (callers : List Nat)
  deriving DecidableEq

structure Client where
  main : MainPc
  /-- the connections that this process has opened -/
  mine : ConnId → Bool
  /-- frames sent to the server and not yet received there -/
  out : ConnId → List ClientFrame
  /-- the receiving end of the session's `hub_tx` exists -/
  outOpen : ConnId → Bool
  streams : ConnId → Finset Nat
  run : ConnId → Nat → RunStream
  hubTx : Option ConnId
  /-- a oneshot sender is named by the caller that holds the receiver -/
  pending : AList (fun _ : Nat => Nat)
  streamIdCounter : Nat
  nextCaller : Nat
  caller : Nat → Caller
  /-- history: the replies that found their receiver, oldest first -/
  handed : List (Nat × Reply)

namespace Client

/-- The process as `main` starts it. -/
def init : Client where
  main := .idle
  mine _ := false
  out _ := []
  outOpen _ := false
  streams _ := ∅
  run _ _ := ⟨"", .fresh, .absent, []⟩
  hubTx := none
  pending := ∅
  streamIdCounter := 2 ^ 63
  nextCaller := 0
  caller _ := ⟨⟨"", "", ∅, []⟩, 0, 0, none, .absent⟩
  handed := []

end Client

end OpenSpoke.Tunnel
