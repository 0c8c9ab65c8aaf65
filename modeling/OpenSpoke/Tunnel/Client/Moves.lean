import OpenSpoke.Tunnel.Client.Step

/-!
# What a step of the client can do

The inversion lemmas of the client's tasks, in the form of the server's: an
enabled step is one of the named moves, with the guard it passed and the state
it leads to.
-/

namespace OpenSpoke.Tunnel

/-- The handler still uses the id it was given. -/
def CallerPc.live : CallerPc → Bool
  | .register | .send | .unsend | .wait | .expire => true
  | _ => false

namespace Client

variable {E : ClientEnv} {k j : Client}

/-! ## `run_stream` -/

/-- `run_stream` of stream `sid` of session `c` goes on at `pc`. -/
def runTo (k : Client) (c : ConnId) (sid : Nat) (pc : RunPc) : Client :=
  k.setRun c sid { k.run c sid with pc := pc }

/-- The entry of `sid` leaves the session's `streams`. -/
def eraseStream (k : Client) (c : ConnId) (sid : Nat) : Client :=
  k.setStreams c ((k.streams c).erase sid)

/-- A frame enters the channel of session `c`. -/
def push (k : Client) (c : ConnId) (f : ClientFrame) : Client := k.setOut c (k.out c ++ [f])

inductive RunMove (E : ClientEnv) (k : Client) (c : ConnId) (sid : Nat) : RunEv → Client → Prop
  | dialed (hPc : (k.run c sid).pc = .dial) :
      RunMove E k c sid (.dialed (.ok ())) (k.runTo c sid .select)
  | undialed (reason : String) (hPc : (k.run c sid).pc = .dial) :
      RunMove E k c sid (.dialed (.error reason)) (k.runTo c sid (.dialFailed reason))
  | reported (reason : String) (hPc : (k.run c sid).pc = .dialFailed reason)
      (hOpen : k.outOpen c = true) :
      RunMove E k c sid .tau ((k.push c (clientClose sid false reason)).runTo c sid .forget)
  | unreported (reason : String) (hPc : (k.run c sid).pc = .dialFailed reason)
      (hOpen : k.outOpen c = false) : RunMove E k c sid .tau (k.runTo c sid .forget)
  | forgot (hPc : (k.run c sid).pc = .forget) :
      RunMove E k c sid .tau ((k.eraseStream c sid).runTo c sid .ended)
  | failed (err : String) (hPc : (k.run c sid).pc = .select) :
      RunMove E k c sid (.read (.error err)) (k.runTo c sid .sendEof)
  | eof (hPc : (k.run c sid).pc = .select) (hEof : (k.run c sid).sock.atEof = true) :
      RunMove E k c sid (.read (.ok 0)) (k.runTo c sid .sendEof)
  | read (n : Nat) (payload : Bytes) (sock : Socket) (hPc : (k.run c sid).pc = .select)
      (hRead : (k.run c sid).sock.read n = some (payload, sock)) :
      RunMove E k c sid (.read (.ok n))
        (k.setRun c sid { k.run c sid with sock := sock, pc := .sendData payload })
  | recv (p : Bytes) (q : List Bytes) (hPc : (k.run c sid).pc = .select)
      (hQueue : (k.run c sid).queue = p :: q) :
      RunMove E k c sid .tau (k.setRun c sid { k.run c sid with queue := q, pc := .write p })
  | drained (hPc : (k.run c sid).pc = .select) (hQueue : (k.run c sid).queue = [])
      (hSender : k.hasSender c sid = false) : RunMove E k c sid .tau (k.runTo c sid .remove)
  | sent (payload : Bytes) (hPc : (k.run c sid).pc = .sendData payload)
      (hOpen : k.outOpen c = true) :
      RunMove E k c sid .tau ((k.push c (clientData sid payload)).runTo c sid .select)
  | unsent (payload : Bytes) (hPc : (k.run c sid).pc = .sendData payload)
      (hOpen : k.outOpen c = false) : RunMove E k c sid .tau (k.runTo c sid .remove)
  | eofSent (hPc : (k.run c sid).pc = .sendEof) (hOpen : k.outOpen c = true) :
      RunMove E k c sid .tau ((k.push c (clientClose sid true "eof")).runTo c sid .remove)
  | eofUnsent (hPc : (k.run c sid).pc = .sendEof) (hOpen : k.outOpen c = false) :
      RunMove E k c sid .tau (k.runTo c sid .remove)
  | written (hPc : (k.run c sid).pc = .write []) : RunMove E k c sid .tau (k.runTo c sid .select)
  | write (rest : Bytes) (n : Nat) (hPc : (k.run c sid).pc = .write rest) (hPos : 0 < n)
      (hLe : n ≤ rest.length) :
      RunMove E k c sid (.write (.ok n))
        (k.setRun c sid { k.run c sid with
          sock := (k.run c sid).sock.write (rest.take n), pc := .write (rest.drop n) })
  | writeFailed (rest : Bytes) (err : String) (hPc : (k.run c sid).pc = .write rest) :
      RunMove E k c sid (.write (.error err)) (k.runTo c sid .remove)
  | removed (hPc : (k.run c sid).pc = .remove) :
      RunMove E k c sid .tau
        ((k.eraseStream c sid).setRun c sid
          { k.run c sid with sock := (k.run c sid).sock.shutdown, pc := .ended })

theorem runStep_move {c : ConnId} {sid : Nat} {e : RunEv} (h : k.runStep E c sid e = some j) :
    RunMove E k c sid e j := by
  simp only [runStep] at h
  split at h
  next hPc => cases h; exact .dialed hPc
  next reason hPc => cases h; exact .undialed reason hPc
  next reason hPc =>
    obtain ⟨⟨i, sent⟩, hSend, rfl⟩ := Option.map_eq_some_iff.mp h
    rcases send_eq_some hSend with ⟨-, hOpen, rfl⟩ | ⟨-, hOpen, rfl⟩
    · exact .reported reason hPc hOpen
    · exact .unreported reason hPc hOpen
  next hPc => cases h; exact .forgot hPc
  next err hPc => cases h; exact .failed err hPc
  next hPc => split at h <;> cases h; exact .eof hPc ‹_›
  next n hn hPc =>
    obtain ⟨⟨payload, sock⟩, hRead, rfl⟩ := Option.map_eq_some_iff.mp h
    exact .read n payload sock hPc hRead
  next hPc =>
    split at h
    next p q hQueue => cases h; exact .recv p q hPc hQueue
    next hQueue =>
      split at h <;> cases h
      exact .drained hPc hQueue (Bool.eq_false_iff.mpr ‹_›)
  next payload hPc =>
    obtain ⟨⟨i, sent⟩, hSend, rfl⟩ := Option.map_eq_some_iff.mp h
    rcases send_eq_some hSend with ⟨rfl, hOpen, rfl⟩ | ⟨rfl, hOpen, rfl⟩
    · exact .sent payload hPc hOpen
    · exact .unsent payload hPc hOpen
  next hPc =>
    obtain ⟨⟨i, sent⟩, hSend, rfl⟩ := Option.map_eq_some_iff.mp h
    rcases send_eq_some hSend with ⟨-, hOpen, rfl⟩ | ⟨-, hOpen, rfl⟩
    · exact .eofSent hPc hOpen
    · exact .eofUnsent hPc hOpen
  next hPc => cases h; exact .written hPc
  next rest n hPc =>
    obtain ⟨⟨hPos, hLe⟩, hEq⟩ := Option.ite_none_right_eq_some.mp h
    cases hEq
    exact .write rest n hPc hPos hLe
  next rest err hPc => cases h; exact .writeFailed rest err hPc
  next hPc => cases h; exact .removed hPc
  next => cases h

/-! ## `run_session` -/

inductive MainMove (E : ClientEnv) (k : Client) : MainEv → Client → Prop
  | failed (hMain : k.main = .idle) : MainMove E k .failed (k.goto .detach)
  | attach (c : ConnId) (hMain : k.main = .session c .attach) :
      MainMove E k .tau { k.goto (.session c .next) with hubTx := some c }
  | lost (c : ConnId) (hMain : k.main = .session c .next) : MainMove E k .lost (k.goto .detach)
  | sent (c : ConnId) (f : ClientFrame) (fatal : Bool) (hMain : k.main = .session c (.send f fatal))
      (hOpen : k.outOpen c = true) :
      MainMove E k .tau ((k.push c f).goto (.session c .next))
  | unsent (c : ConnId) (f : ClientFrame) (fatal : Bool)
      (hMain : k.main = .session c (.send f fatal)) (hOpen : k.outOpen c = false) :
      MainMove E k .tau (k.goto (if fatal then .detach else .session c .next))
  | delivered (c : ConnId) (sid : Nat) (payload : Bytes)
      (hMain : k.main = .session c (.deliver sid payload)) (hPc : (k.run c sid).pc ≠ .ended)
      (hRoom : (k.run c sid).queue.length < streamCap) :
      MainMove E k .tau
        ((k.setRun c sid { k.run c sid with queue := (k.run c sid).queue ++ [payload] }).goto
          (.session c .next))
  | undelivered (c : ConnId) (sid : Nat) (payload : Bytes)
      (hMain : k.main = .session c (.deliver sid payload)) (hPc : (k.run c sid).pc = .ended) :
      MainMove E k .tau (k.goto (.session c .next))
  | hand (c : ConnId) (n : Nat) (resp : HttpResponse) (hMain : k.main = .session c (.hand n resp)) :
      MainMove E k .tau ((k.resolve n (.hub resp)).goto (.session c .next))
  | detach (hMain : k.main = .detach) : MainMove E k .tau { k.goto .flush with hubTx := none }
  | flush (hMain : k.main = .flush) :
      MainMove E k .tau ((k.setPending ∅).goto (.release (k.pending.entries.map Sigma.snd)))
  | release (n : Nat) (l : List Nat) (hMain : k.main = .release (n :: l)) :
      MainMove E k .tau ((k.resolve n .flushed).goto (.release l))
  | released (hMain : k.main = .release []) : MainMove E k .tau (k.goto .idle)

theorem mainStep_move {e : MainEv} (h : k.mainStep E e = some j) : MainMove E k e j := by
  simp only [mainStep] at h
  split at h
  next hMain => cases h; exact .failed hMain
  next c hMain => cases h; exact .attach c hMain
  next c hMain => cases h; exact .lost c hMain
  next c f fatal hMain =>
    obtain ⟨⟨i, sent⟩, hSend, rfl⟩ := Option.map_eq_some_iff.mp h
    rcases send_eq_some hSend with ⟨rfl, hOpen, rfl⟩ | ⟨rfl, hOpen, rfl⟩
    · simpa [push] using MainMove.sent c f fatal hMain hOpen
    · simpa using MainMove.unsent c f fatal hMain hOpen
  next c sid payload hMain =>
    split at h
    next hPc => cases h; exact .undelivered c sid payload hMain hPc
    next hPc =>
      split at h <;> cases h
      exact .delivered c sid payload hMain hPc ‹_›
  next c n resp hMain => cases h; exact .hand c n resp hMain
  next hMain => cases h; exact .detach hMain
  next hMain => cases h; exact .flush hMain
  next n l hMain => cases h; exact .release n l hMain
  next hMain => cases h; exact .released hMain
  next => cases h

/-! ## `handle_http_proxy` -/

inductive CallerMove (E : ClientEnv) (k : Client) (n : Nat) : CallerEv → Client → Prop
  | cloned (c : ConnId) (hPc : (k.caller n).pc = .readHub) (hHub : k.hubTx = some c) :
    CallerMove E k n .tau (k.setCaller n { k.caller n with conn := c, pc := .alloc })
  | unconnected (hPc : (k.caller n).pc = .readHub) :
    CallerMove E k n .tau (k.setCaller n { k.caller n with pc := .returned .notConnected })
  | alloc (hPc : (k.caller n).pc = .alloc) :
    CallerMove E k n .tau
      { k.setCaller n { k.caller n with sid := k.streamIdCounter, pc := .register } with
        streamIdCounter := fetchAdd k.streamIdCounter }
  | register (hPc : (k.caller n).pc = .register) :
    CallerMove E k n .tau
      ((k.setPending (k.pending.insert (k.caller n).sid n)).setCaller n
        { k.caller n with pc := .send })
  | sent (hPc : (k.caller n).pc = .send) (hOpen : k.outOpen (k.caller n).conn = true) :
    CallerMove E k n .tau
      ((k.setOut (k.caller n).conn (k.out (k.caller n).conn ++
        [clientHttpRequest (k.caller n).sid (k.caller n).req])).setCaller n
          { k.caller n with pc := .wait })
  | unsent (hPc : (k.caller n).pc = .send) (hOpen : k.outOpen (k.caller n).conn = false) :
    CallerMove E k n .tau (k.setCaller n { k.caller n with pc := .unsend })
  | unsend (hPc : (k.caller n).pc = .unsend) :
    CallerMove E k n .tau
      ((k.setPending (k.pending.erase (k.caller n).sid)).setCaller n
        { k.caller n with pc := .returned .sendFailed })
  | replied (r : Reply) (hPc : (k.caller n).pc = .wait) (hSlot : (k.caller n).slot = some r) :
    CallerMove E k n .tau (k.setCaller n { k.caller n with pc := .returned (.reply r) })
  | orphaned (hPc : (k.caller n).pc = .wait) (hSlot : (k.caller n).slot = none)
    (hGone : k.senderGone n = true) :
    CallerMove E k n .tau (k.setCaller n { k.caller n with pc := .returned .channelClosed })
  | timeout (hPc : (k.caller n).pc = .wait) (hSlot : (k.caller n).slot = none) :
    CallerMove E k n .timeout (k.setCaller n { k.caller n with pc := .expire })
  | expire (hPc : (k.caller n).pc = .expire) :
    CallerMove E k n .tau
      ((k.setPending (k.pending.erase (k.caller n).sid)).setCaller n
        { k.caller n with pc := .returned .timedOut })
  | drop (hPc : (k.caller n).pc = .readHub ∨ (k.caller n).pc.live = true) :
    CallerMove E k n .drop (k.setCaller n { k.caller n with pc := .dropped })

theorem callerStep_move {E : ClientEnv} {k j : Client} {n : Nat} {e : CallerEv}
    (h : k.callerStep E n e = some j) : CallerMove E k n e j := by
  cases e with
  | tau =>
    cases hPc : (k.caller n).pc with
    | readHub =>
      simp only [callerStep, hPc] at h
      split at h <;> cases h
      · exact .cloned _ hPc ‹_›
      · exact .unconnected hPc
    | alloc =>
      simp only [callerStep, hPc] at h
      cases h
      exact .alloc hPc
    | register =>
      simp only [callerStep, hPc] at h
      cases h
      exact .register hPc
    | send =>
      simp only [callerStep, hPc, Option.map_eq_some_iff] at h
      obtain ⟨⟨i, sent⟩, hSend, rfl⟩ := h
      rcases send_eq_some hSend with ⟨rfl, hOpen, rfl⟩ | ⟨rfl, hOpen, rfl⟩
      · exact .sent hPc hOpen
      · exact .unsent hPc hOpen
    | unsend =>
      simp only [callerStep, hPc] at h
      cases h
      exact .unsend hPc
    | wait =>
      simp only [callerStep, hPc] at h
      split at h
      · cases h
        exact .replied _ hPc ‹_›
      · split at h <;> cases h
        exact .orphaned hPc ‹_› ‹_›
    | expire =>
      simp only [callerStep, hPc] at h
      cases h
      exact .expire hPc
    | _ => simp [callerStep, hPc] at h
  | timeout =>
    cases hPc : (k.caller n).pc with
    | wait =>
      simp only [callerStep, hPc, Option.ite_none_right_eq_some] at h
      obtain ⟨⟨hSlot, -⟩, hEq⟩ := h
      cases hEq
      exact .timeout hPc hSlot
    | _ => simp [callerStep, hPc] at h
  | drop =>
    cases hPc : (k.caller n).pc with
    | readHub =>
      simp only [callerStep, hPc] at h
      cases h
      exact .drop (.inl hPc)
    | register | send | unsend | wait | expire =>
      simp only [callerStep, hPc] at h
      cases h
      exact .drop (.inr (by rw [hPc]; rfl))
    | _ => simp [callerStep, hPc] at h

end Client

end OpenSpoke.Tunnel
