import OpenSpoke.Lib.Pipe
import OpenSpoke.Tunnel.System

/-!
# One virtual stream

The view that one stream id of one session has of the whole tunnel: its hub end,
its spoke end and the frames of the stream in the two queues between them. The
rules below are everything that can happen to a stream; which steps of the
tunnel they stand for is shown elsewhere.
-/

namespace OpenSpoke.Tunnel

abbrev StreamItem := Pipe.Item UInt8

@[ext] structure HubEnd where
  st : HubStream
  /-- the accept loop has registered the stream and not yet announced it -/
  registered : Bool
  /-- the Open frame is sent, the two tasks are not yet spawned -/
  announced : Bool
  /-- the stream id is in the session's `streams` -/
  entry : Bool
  /-- what `recv_loop` is about to send into the writer channel -/
  slot : Option Bytes
  /-- frames of the stream in the outbox of its session -/
  wire : List StreamItem
  /-- the session's `server_tx` has a receiver -/
  rx : Bool

@[ext] structure SpokeEnd where
  run : RunStream
  entry : Bool
  slot : Option Bytes
  wire : List StreamItem
  tx : Bool

structure VirtualStream where
  hub : HubEnd
  spoke : SpokeEnd

inductive StreamEv
  | connect
  | born
  | register
  | announce
  | spawn
  | dropHeld
  | up (e : UpEv)
  | down (e : DownEv)
  | clear
  | forget
  | deliver
  | run (e : RunEv)
  | dispatch
  | upFrame
  | downFrame
  | refuse
  | hubPeer (e : Option Bytes)
  | spokePeer (e : Option Bytes)
  | dropRx
  | dropTx

/-- The peer of a socket sends `b`, or closes its side. -/
def Socket.peer (k : Socket) : Option Bytes → Socket
  | some b => { k with inbox := k.inbox ++ b }
  | none => k.peerClose

@[simp] theorem Socket.peer_got (k : Socket) (e : Option Bytes) : (k.peer e).got = k.got := by
  cases e <;> rfl

@[simp] theorem Socket.peer_put (k : Socket) (e : Option Bytes) : (k.peer e).put = k.put := by
  cases e <;> rfl

/-- The owner's server takes a step at the hub end. -/
inductive HubStep (h : HubEnd) : StreamEv → HubEnd → Prop
  | born (c : ConnId) (hUp : h.st.up = .absent) (hDown : h.st.down = .absent) :
      HubStep h .born { h with st := ⟨c, .fresh, .held, .held, []⟩ }
  | register (hUp : h.st.up = .held) (hAnnounced : h.announced = false) :
      HubStep h .register { h with entry := true, registered := true }
  | announce (hUp : h.st.up = .held) (hAnnounced : h.announced = false)
      (hRegistered : h.registered = true) (hRx : h.rx = true) :
      HubStep h .announce
        { h with registered := false, announced := true, wire := h.wire ++ [.opn] }
  | spawn (hUp : h.st.up = .held) (hAnnounced : h.announced = true) :
      HubStep h .spawn { h with st := { h.st with up := .read, down := .recv }, announced := false }
  | dropHeld (entry : Bool) (hUp : h.st.up = .held) (hAnnounced : h.announced = false)
      (hEntry : entry = true → h.entry = true) :
      HubStep h .dropHeld { h with st := h.st.drop, entry := entry, registered := false }
  | upFailed (err : String) (hUp : h.st.up = .read) :
      HubStep h (.up (.read (.error err))) { h with st := { h.st with up := .remove } }
  | upEof (hUp : h.st.up = .read) (hEof : h.st.sock.atEof = true) :
      HubStep h (.up (.read (.ok 0))) { h with st := { h.st with up := .sendClose } }
  | upRead (n : Nat) (payload : Bytes) (sock : Socket) (hUp : h.st.up = .read)
      (hRead : h.st.sock.read n = some (payload, sock)) :
      HubStep h (.up (.read (.ok n))) { h with st := { h.st with sock := sock, up := .send payload } }
  | upSent (payload : Bytes) (hUp : h.st.up = .send payload) (hRx : h.rx = true) :
      HubStep h (.up .tau)
        { h with st := { h.st with up := .read }, wire := h.wire ++ [.data payload] }
  | upUnsent (payload : Bytes) (hUp : h.st.up = .send payload) (hRx : h.rx = false) :
      HubStep h (.up .tau) { h with st := { h.st with up := .remove } }
  | closeSent (hUp : h.st.up = .sendClose) (hRx : h.rx = true) :
      HubStep h (.up .tau) { h with st := { h.st with up := .remove }, wire := h.wire ++ [.eof] }
  | closeUnsent (hUp : h.st.up = .sendClose) (hRx : h.rx = false) :
      HubStep h (.up .tau) { h with st := { h.st with up := .remove } }
  | upRemoved (hUp : h.st.up = .remove) :
      HubStep h (.up .tau) { h with st := { h.st with up := .ended }, entry := false }
  | downRecv (p : Bytes) (q : List Bytes) (hDown : h.st.down = .recv) (hQueue : h.st.queue = p :: q) :
      HubStep h (.down .tau) { h with st := { h.st with queue := q, down := .write p } }
  | downDrained (hDown : h.st.down = .recv) (hQueue : h.st.queue = []) (hEntry : h.entry = false)
      (hSlot : h.slot = none) : HubStep h (.down .tau) { h with st := { h.st with down := .shutdown } }
  | downWritten (hDown : h.st.down = .write []) :
      HubStep h (.down .tau) { h with st := { h.st with down := .recv } }
  | downWrite (rest : Bytes) (n : Nat) (hDown : h.st.down = .write rest) :
      HubStep h (.down (.write (.ok n)))
        { h with st := { h.st with
            sock := h.st.sock.write (rest.take n), down := .write (rest.drop n) } }
  | downFailed (rest : Bytes) (err : String) (hDown : h.st.down = .write rest) :
      HubStep h (.down (.write (.error err))) { h with st := { h.st with down := .shutdown } }
  | downShutdown (hDown : h.st.down = .shutdown) :
      HubStep h (.down .tau) { h with st := { h.st with sock := h.st.sock.shutdown, down := .ended } }
  | clear : HubStep h .clear { h with entry := false }
  | forget (hDown : h.st.down = .ended) : HubStep h .forget { h with entry := false }
  | delivered (p : Bytes) (hSlot : h.slot = some p) (hDown : h.st.down ≠ .ended) :
      HubStep h .deliver { h with st := { h.st with queue := h.st.queue ++ [p] }, slot := none }
  | undelivered (p : Bytes) (hSlot : h.slot = some p) (hDown : h.st.down = .ended) :
      HubStep h .deliver { h with slot := none }
  | peer (e : Option Bytes) (hFin : e.isSome = true → h.st.sock.fin = false) :
      HubStep h (.hubPeer e) { h with st := { h.st with sock := h.st.sock.peer e } }
  | dropRx : HubStep h .dropRx { h with rx := false }

/-- `recv_loop` takes a frame of the stream. -/
inductive HubRecv (h : HubEnd) : StreamItem → HubEnd → Prop
  | data (p : Bytes) (hEntry : h.entry = true) (hSlot : h.slot = none) :
      HubRecv h (.data p) { h with slot := some p }
  | unknown (p : Bytes) (hEntry : h.entry = false) : HubRecv h (.data p) h
  | eof : HubRecv h .eof { h with entry := false }

/-- The owner's client takes a step at the spoke end. -/
inductive SpokeStep (k : SpokeEnd) : StreamEv → SpokeEnd → Prop
  | dialed (hPc : k.run.pc = .dial) :
      SpokeStep k (.run (.dialed (.ok ()))) { k with run := { k.run with pc := .select } }
  | undialed (reason : String) (hPc : k.run.pc = .dial) :
      SpokeStep k (.run (.dialed (.error reason)))
        { k with run := { k.run with pc := .dialFailed reason } }
  | reported (reason : String) (hPc : k.run.pc = .dialFailed reason) (hTx : k.tx = true) :
      SpokeStep k (.run .tau)
        { k with run := { k.run with pc := .forget }, wire := k.wire ++ [.eof] }
  | unreported (reason : String) (hPc : k.run.pc = .dialFailed reason) (hTx : k.tx = false) :
      SpokeStep k (.run .tau) { k with run := { k.run with pc := .forget } }
  | forgot (hPc : k.run.pc = .forget) :
      SpokeStep k (.run .tau) { k with run := { k.run with pc := .ended }, entry := false }
  | failed (err : String) (hPc : k.run.pc = .select) :
      SpokeStep k (.run (.read (.error err))) { k with run := { k.run with pc := .sendEof } }
  | eof (hPc : k.run.pc = .select) (hEof : k.run.sock.atEof = true) :
      SpokeStep k (.run (.read (.ok 0))) { k with run := { k.run with pc := .sendEof } }
  | read (n : Nat) (payload : Bytes) (sock : Socket) (hPc : k.run.pc = .select)
      (hRead : k.run.sock.read n = some (payload, sock)) :
      SpokeStep k (.run (.read (.ok n)))
        { k with run := { k.run with sock := sock, pc := .sendData payload } }
  | recv (p : Bytes) (q : List Bytes) (hPc : k.run.pc = .select) (hQueue : k.run.queue = p :: q) :
      SpokeStep k (.run .tau) { k with run := { k.run with queue := q, pc := .write p } }
  | drained (hPc : k.run.pc = .select) (hQueue : k.run.queue = []) (hEntry : k.entry = false)
      (hSlot : k.slot = none) : SpokeStep k (.run .tau) { k with run := { k.run with pc := .remove } }
  | sent (payload : Bytes) (hPc : k.run.pc = .sendData payload) (hTx : k.tx = true) :
      SpokeStep k (.run .tau)
        { k with run := { k.run with pc := .select }, wire := k.wire ++ [.data payload] }
  | unsent (payload : Bytes) (hPc : k.run.pc = .sendData payload) (hTx : k.tx = false) :
      SpokeStep k (.run .tau) { k with run := { k.run with pc := .remove } }
  | eofSent (hPc : k.run.pc = .sendEof) (hTx : k.tx = true) :
      SpokeStep k (.run .tau)
        { k with run := { k.run with pc := .remove }, wire := k.wire ++ [.eof] }
  | eofUnsent (hPc : k.run.pc = .sendEof) (hTx : k.tx = false) :
      SpokeStep k (.run .tau) { k with run := { k.run with pc := .remove } }
  | written (hPc : k.run.pc = .write []) :
      SpokeStep k (.run .tau) { k with run := { k.run with pc := .select } }
  | write (rest : Bytes) (n : Nat) (hPc : k.run.pc = .write rest) :
      SpokeStep k (.run (.write (.ok n)))
        { k with run := { k.run with
            sock := k.run.sock.write (rest.take n), pc := .write (rest.drop n) } }
  | writeFailed (rest : Bytes) (err : String) (hPc : k.run.pc = .write rest) :
      SpokeStep k (.run (.write (.error err))) { k with run := { k.run with pc := .remove } }
  | removed (hPc : k.run.pc = .remove) :
      SpokeStep k (.run .tau)
        { k with run := { k.run with sock := k.run.sock.shutdown, pc := .ended }, entry := false }
  | delivered (p : Bytes) (hSlot : k.slot = some p) (hPc : k.run.pc ≠ .ended) :
      SpokeStep k .dispatch
        { k with run := { k.run with queue := k.run.queue ++ [p] }, slot := none }
  | undelivered (p : Bytes) (hSlot : k.slot = some p) (hPc : k.run.pc = .ended) :
      SpokeStep k .dispatch { k with slot := none }
  | reportedUnknown (hPc : k.run.pc = .refused) (hTx : k.tx = true) :
      SpokeStep k .dispatch { k with wire := k.wire ++ [.eof] }
  | peer (e : Option Bytes) (hFin : e.isSome = true → k.run.sock.fin = false) :
      SpokeStep k (.spokePeer e) { k with run := { k.run with sock := k.run.sock.peer e } }
  | dropTx : SpokeStep k .dropTx { k with tx := false }

/-- The dispatch loop takes a frame of the stream. -/
inductive SpokeRecv (k : SpokeEnd) : StreamItem → SpokeEnd → Prop
  | opn (target : String) :
      SpokeRecv k .opn { k with run := ⟨target, .fresh, .dial, []⟩, entry := true }
  | data (p : Bytes) (hEntry : k.entry = true) (hSlot : k.slot = none) :
      SpokeRecv k (.data p) { k with slot := some p }
  | unknown (p : Bytes) (hEntry : k.entry = false) : SpokeRecv k (.data p) k
  | eof : SpokeRecv k .eof { k with entry := false }

inductive StreamStep : VirtualStream → StreamEv → VirtualStream → Prop
  | connect (h : HubEnd) (k : SpokeEnd) :
      StreamStep ⟨h, k⟩ .connect ⟨{ h with rx := true }, { k with tx := true }⟩
  | hub (h h' : HubEnd) (k : SpokeEnd) (e : StreamEv) (hStep : HubStep h e h') :
      StreamStep ⟨h, k⟩ e ⟨h', k⟩
  | spoke (h : HubEnd) (k k' : SpokeEnd) (e : StreamEv) (hStep : SpokeStep k e k') :
      StreamStep ⟨h, k⟩ e ⟨h, k'⟩
  | up (h h' : HubEnd) (k : SpokeEnd) (i : StreamItem) (w : List StreamItem) (hWire : k.wire = i :: w)
      (hRecv : HubRecv h i h') : StreamStep ⟨h, k⟩ .upFrame ⟨h', { k with wire := w }⟩
  | down (h : HubEnd) (k k' : SpokeEnd) (i : StreamItem) (w : List StreamItem)
      (hWire : h.wire = i :: w) (hRecv : SpokeRecv k i k') :
      StreamStep ⟨h, k⟩ .downFrame ⟨{ h with wire := w }, k'⟩
  -- an Open frame for a target that the client does not know
  | refuse (h : HubEnd) (k : SpokeEnd) (w : List StreamItem) (hWire : h.wire = .opn :: w) :
      StreamStep ⟨h, k⟩ .refuse
        ⟨{ h with wire := w }, { k with run := ⟨"", .fresh, .refused, []⟩ }⟩

end OpenSpoke.Tunnel
