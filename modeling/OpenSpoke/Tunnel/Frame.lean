import Mathlib.Data.Finset.Basic
import Mathlib.Data.List.AList

/-!
# Frames of the tunnel protocol

The messages of `tunnel.proto`. A spoke opens one `Connect` call, sends
`ClientFrame`s on it and receives `ServerFrame`s. Stream ids are natural
numbers here; only the spoke's own id counter is close enough to the end of the
64-bit range for its wrap-around to matter, and it is modelled there.
-/

namespace OpenSpoke.Tunnel

abbrev Bytes := List UInt8

/-- Connections are numbered in the order of their `Connect` calls. The number
also names the `Arc<SpokeSession>` of the connection. -/
abbrev ConnId := Nat

/-- `str::as_bytes`. -/
def asBytes (s : String) : Bytes := s.toUTF8.data.toList

/-- A `map<string, string>` field; the order of the entries is the order in
which the map is iterated. -/
abbrev Headers := AList (fun _ : String => String)

structure HttpRequest where
  method : String
  path : String
  headers : Headers
  body : Bytes
  deriving DecidableEq

structure HttpResponse where
  status : Int
  headers : Headers
  body : Bytes
  error : String
  deriving DecidableEq

structure HandshakeResponse where
  spokeId : String
  signature : Bytes
  tunnelClientVer : String
  deriving DecidableEq

inductive ClientKind
  | handshake (hs : HandshakeResponse)
  | data (payload : Bytes)
  | close (half : Bool) (reason : String)
  | pong (sentAt : Int)
  | httpRequest (req : HttpRequest)
  deriving DecidableEq

structure ClientFrame where
  streamId : Nat
  kind : Option ClientKind
  deriving DecidableEq

inductive ServerKind
  | challenge (nonce : Bytes) (issuedAt : Int)
  | openStream (protocol target : String)
  | data (payload : Bytes)
  | close (half : Bool) (reason : String)
  | ping (sentAt : Int)
  | httpResponse (resp : HttpResponse)
  deriving DecidableEq

structure ServerFrame where
  streamId : Nat
  kind : Option ServerKind
  deriving DecidableEq

/-- A TCP connection as one of its two ends sees it. The bytes the peer has
sent so far are `got ++ inbox`. -/
structure Socket where
  /-- sent by the peer and not yet read -/
  inbox : Bytes
  /-- the peer has closed its sending side -/
  fin : Bool
  /-- read so far -/
  got : Bytes
  /-- written so far -/
  put : Bytes
  /-- the sending side is shut down -/
  shut : Bool
  deriving DecidableEq

def Socket.fresh : Socket := ⟨[], false, [], [], false⟩

/-- The size of the read buffers, `vec![0u8; 32 * 1024]`. -/
def readBuf : Nat := 32 * 1024

/-- `read(&mut buf)` returning `n > 0` bytes, when so many are there. -/
def Socket.read (k : Socket) (n : Nat) : Option (Bytes × Socket) :=
  if 0 < n ∧ n ≤ readBuf ∧ n ≤ k.inbox.length then
    some (k.inbox.take n, { k with inbox := k.inbox.drop n, got := k.got ++ k.inbox.take n })
  else none

/-- `read(&mut buf)` returns zero: everything was read and the peer has closed. -/
def Socket.atEof (k : Socket) : Bool := k.inbox.isEmpty && k.fin

def Socket.write (k : Socket) (b : Bytes) : Socket := { k with put := k.put ++ b }

def Socket.shutdown (k : Socket) : Socket := { k with shut := true }

/-- The peer sends; after closing its side it sends no more. -/
def Socket.peerSend (k : Socket) (b : Bytes) : Option Socket :=
  if k.fin then none else some { k with inbox := k.inbox ++ b }

def Socket.peerClose (k : Socket) : Socket := { k with fin := true }

/-- The capacity of the per-stream channels, `mpsc::channel::<Vec<u8>>(64)`. -/
def streamCap : Nat := 64

/-- The capacity of the two frame channels, `mpsc::channel(256)`. -/
def frameCap : Nat := 256

end OpenSpoke.Tunnel

/-!
## Configuration of the tunnel server

The registry of spokes and what the HTTP proxy needs, as `handle_connection`,
`recv_loop` and `handle_http_request` read them.
-/

namespace OpenSpoke.Tunnel

structure SpokePortBinding where
  port : Nat
  target : String
  deriving DecidableEq

inductive SpokeKind
  | cluster
  | application
  deriving DecidableEq

structure SpokeConfig where
  spokeId : String
  kind : SpokeKind
  ports : List SpokePortBinding
  token : String
  deriving DecidableEq

structure ServerConfig where
  spokes : AList (fun _ : String => SpokeConfig)
  kernelUrl : String
  allowedPaths : Finset String

end OpenSpoke.Tunnel
