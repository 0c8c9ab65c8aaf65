import OpenSpoke.Tunnel.Client.Moves
import OpenSpoke.Tunnel.System
import OpenSpoke.Tunnel.Stream.HubSide

/-!
# The spoke end in the client

Every step of the client process is a step of the spoke end of a stream, or
leaves it as it was. What the dispatch loop receives is the exception: there the
stream takes a frame.
-/

namespace OpenSpoke.Tunnel

open Lts

/-- The payload about to be delivered to `sid`. -/
def MainPc.slot (c : ConnId) (sid : Nat) : MainPc → Option Bytes
  | .session d (.deliver sid' payload) => if d = c ∧ sid' = sid then some payload else none
  | _ => none

structure SpokeEnd.Blank (k : SpokeEnd) : Prop where
  pc : k.run.pc = .absent
  put : k.run.sock.put = []
  got : k.run.sock.got = []
  queue : k.run.queue = []
  entry : k.entry = false
  slot : k.slot = none
  wire : k.wire = []

/-- Nothing but its peer and the call can touch an end that was not opened. -/
theorem SpokeEnd.Blank.step {k k' : SpokeEnd} {e : StreamEv} (h : k.Blank) (hStep : SpokeStep k e k') :
    k'.Blank := by
  obtain ⟨hPc, hPut, hGot, hQueue, hEntry, hSlot, hWire⟩ := h
  cases hStep with
  | peer e hFin => exact ⟨hPc, by simpa using hPut, by simpa using hGot, hQueue, hEntry, hSlot, hWire⟩
  | dropTx => exact ⟨hPc, hPut, hGot, hQueue, hEntry, hSlot, hWire⟩
  | _ => simp_all

namespace Client

variable {E : ClientEnv} {k j : Client} {c d : ConnId} {sid sid' : Nat}

/-- The spoke end of stream `sid` of session `c`. -/
def spokeEnd (k : Client) (c : ConnId) (sid : Nat) : SpokeEnd where
  run := k.run c sid
  entry := sid ∈ k.streams c
  slot := k.main.slot c sid
  wire := (k.out c).filterMap (ClientFrame.item sid)
  tx := k.outOpen c

theorem spokeEnd_congr (hRun : j.run c sid = k.run c sid)
    (hEntry : sid ∈ j.streams c ↔ sid ∈ k.streams c) (hSlot : j.main.slot c sid = k.main.slot c sid)
    (hWire : (j.out c).filterMap (ClientFrame.item sid) =
      (k.out c).filterMap (ClientFrame.item sid))
    (hTx : j.outOpen c = k.outOpen c) : j.spokeEnd c sid = k.spokeEnd c sid := by
  ext : 1
  case run => exact hRun
  case entry => simp only [spokeEnd, hEntry]
  case slot => exact hSlot
  case wire => exact hWire
  case tx => exact hTx

/-- What the spoke ends of a client rely on. -/
structure SpokesOk (k : Client) : Prop where
  mine : ∀ c pc, k.main = .session c pc → k.mine c = true
  report : ∀ c f fatal sid i, k.main = .session c (.send f fatal) → f.item sid = some i →
    i = .eof ∧ (k.run c sid).pc = .refused
  foreign : ∀ c sid, k.mine c = false → (k.spokeEnd c sid).Blank

/-- What a step of the client means for one stream. -/
def SpokeView (k : Client) (c : ConnId) (sid : Nat) (j : Client) (cause : StreamEv → Prop) : Prop :=
  j.spokeEnd c sid = k.spokeEnd c sid ∨
    ∃ e, cause e ∧ SpokeStep (k.spokeEnd c sid) e (j.spokeEnd c sid)

theorem spokeStep_of {k k' x : SpokeEnd} {e : StreamEv} (hStep : SpokeStep k e k') (hx : x = k') :
    SpokeStep k e x := hx ▸ hStep

theorem spokeEnd_foreign (hRun : ∀ b n, b ≠ d ∨ n ≠ sid' → j.run b n = k.run b n)
    (hOther : d ≠ c ∨ sid' ≠ sid) (hEntry : sid ∈ j.streams c ↔ sid ∈ k.streams c)
    (hMain : j.main = k.main)
    (hWire : (j.out c).filterMap (ClientFrame.item sid) =
      (k.out c).filterMap (ClientFrame.item sid))
    (hTx : j.outOpen = k.outOpen) : j.spokeEnd c sid = k.spokeEnd c sid :=
  spokeEnd_congr (hRun c sid (hOther.imp Ne.symm Ne.symm)) hEntry (by rw [hMain]) hWire (by rw [hTx])

theorem spokeView_runMove {e : RunEv} (hMove : RunMove E k d sid' e j) :
    SpokeView k c sid j fun b => (d = c ∧ sid' = sid) ∧ b = .run e := by
  by_cases hHit : d = c ∧ sid' = sid
  · obtain ⟨rfl, rfl⟩ := hHit
    refine .inr ⟨.run e, ⟨⟨rfl, rfl⟩, rfl⟩, ?_⟩
    cases hMove with
    | dialed hPc => exact spokeStep_of (.dialed hPc) (by ext : 1 <;> simp [spokeEnd, runTo])
    | undialed reason hPc =>
      exact spokeStep_of (.undialed reason hPc) (by ext : 1 <;> simp [spokeEnd, runTo])
    | reported reason hPc hOpen =>
      exact spokeStep_of (.reported reason hPc hOpen)
        (by ext : 1 <;> simp [spokeEnd, runTo, push, ClientFrame.item, clientClose])
    | unreported reason hPc hOpen =>
      exact spokeStep_of (.unreported reason hPc hOpen) (by ext : 1 <;> simp [spokeEnd, runTo])
    | forgot hPc =>
      exact spokeStep_of (.forgot hPc) (by ext : 1 <;> simp [spokeEnd, runTo, eraseStream])
    | failed err hPc => exact spokeStep_of (.failed err hPc) (by ext : 1 <;> simp [spokeEnd, runTo])
    | eof hPc hEof => exact spokeStep_of (.eof hPc hEof) (by ext : 1 <;> simp [spokeEnd, runTo])
    | read n payload sock hPc hRead =>
      exact spokeStep_of (.read n payload sock hPc hRead) (by ext : 1 <;> simp [spokeEnd])
    | recv p q hPc hQueue =>
      exact spokeStep_of (.recv p q hPc hQueue) (by ext : 1 <;> simp [spokeEnd])
    | drained hPc hQueue hSender =>
      simp only [hasSender, Bool.or_eq_false_iff, decide_eq_false_iff_not] at hSender
      refine spokeStep_of (.drained hPc hQueue (by simp [spokeEnd, hSender.1]) ?_)
        (by ext : 1 <;> simp [spokeEnd, runTo])
      simp only [spokeEnd, MainPc.slot]
      split
      · next d' sid'' payload hMain =>
        have hNot := hSender.2
        rw [hMain] at hNot
        exact if_neg (by simpa using hNot)
      · rfl
    | sent payload hPc hOpen =>
      exact spokeStep_of (.sent payload hPc hOpen)
        (by ext : 1 <;> simp [spokeEnd, runTo, push, ClientFrame.item, clientData])
    | unsent payload hPc hOpen =>
      exact spokeStep_of (.unsent payload hPc hOpen) (by ext : 1 <;> simp [spokeEnd, runTo])
    | eofSent hPc hOpen =>
      exact spokeStep_of (.eofSent hPc hOpen)
        (by ext : 1 <;> simp [spokeEnd, runTo, push, ClientFrame.item, clientClose])
    | eofUnsent hPc hOpen =>
      exact spokeStep_of (.eofUnsent hPc hOpen) (by ext : 1 <;> simp [spokeEnd, runTo])
    | written hPc => exact spokeStep_of (.written hPc) (by ext : 1 <;> simp [spokeEnd, runTo])
    | write rest n hPc => exact spokeStep_of (.write rest n hPc) (by ext : 1 <;> simp [spokeEnd])
    | writeFailed rest err hPc =>
      exact spokeStep_of (.writeFailed rest err hPc) (by ext : 1 <;> simp [spokeEnd, runTo])
    | removed hPc =>
      exact spokeStep_of (.removed hPc) (by ext : 1 <;> simp [spokeEnd, eraseStream])
  · refine .inl ?_
    have hOther := not_and_or.mp hHit
    have hRun : ∀ (r : RunStream) (b : ConnId) (n : Nat), b ≠ d ∨ n ≠ sid' →
        (k.setRun d sid' r).run b n = k.run b n := by
      intro r b n hne
      rw [setRun_apply, if_neg (not_and_or.mpr hne)]
    have hItem : ∀ kind, d = c → ClientFrame.item sid ⟨sid', kind⟩ = none :=
      fun kind hd => if_neg (hOther.resolve_left (not_not.mpr hd))
    have hErase : sid ∈ (k.eraseStream d sid').streams c ↔ sid ∈ k.streams c := by
      by_cases hd : c = d
      · subst hd
        have hne : sid ≠ sid' := fun h => hHit ⟨rfl, h.symm⟩
        simp [eraseStream, hne]
      · simp [eraseStream, hd]
    have hPush : ∀ kind, ((k.push d ⟨sid', kind⟩).out c).filterMap (ClientFrame.item sid) =
        (k.out c).filterMap (ClientFrame.item sid) := by
      intro kind
      by_cases hd : c = d
      · subst hd
        simp [push, hItem kind rfl]
      · simp [push, hd]
    refine spokeEnd_foreign (fun b n hne => by cases hMove <;> exact hRun _ b n hne) hOther ?_
      (by cases hMove <;> rfl) ?_ (by cases hMove <;> rfl)
    · cases hMove with
      | forgot | removed => exact hErase
      | _ => exact Iff.rfl
    · cases hMove with
      | reported | sent | eofSent => exact hPush _
      | _ => rfl

theorem resolve_spokeEnd (n : Nat) (r : Reply) : (k.resolve n r).spokeEnd c sid = k.spokeEnd c sid := by
  unfold resolve
  split <;> rfl

theorem spokeEnd_goto {p : MainPc} (h : p.slot c sid = k.main.slot c sid) :
    (k.goto p).spokeEnd c sid = k.spokeEnd c sid :=
  spokeEnd_congr rfl Iff.rfl h rfl rfl

theorem spokeView_mainMove {e : MainEv} (hOk : SpokesOk k) (hMove : MainMove E k e j) :
    SpokeView k c sid j fun b => b = .dispatch ∧ k.main ≠ .session c .next := by
  cases hMove with
  | failed hMain | lost d hMain | released hMain =>
    exact .inl (spokeEnd_goto (by simp [hMain, MainPc.slot]))
  | attach d hMain | detach hMain | flush hMain =>
    exact .inl (spokeEnd_congr rfl Iff.rfl (by simp [hMain, MainPc.slot]) rfl rfl)
  | hand d n resp hMain | release n l hMain =>
    refine .inl ((spokeEnd_goto ?_).trans (resolve_spokeEnd _ _))
    have hSame : ∀ r, (k.resolve n r).main = k.main := fun r => by
      unfold resolve
      split <;> rfl
    simp [hSame, hMain, MainPc.slot]
  | sent d f fatal hMain hOpen =>
    by_cases hHit : d = c ∧ ∃ i, f.item sid = some i
    · obtain ⟨rfl, i, hItem⟩ := hHit
      obtain ⟨rfl, hPc⟩ := hOk.report d f fatal sid i hMain hItem
      refine .inr ⟨.dispatch, ⟨rfl, by simp [hMain]⟩,
        spokeStep_of (.reportedUnknown hPc hOpen) ?_⟩
      ext : 1 <;> simp [spokeEnd, push, hItem, hMain, MainPc.slot]
    · refine .inl (spokeEnd_congr rfl Iff.rfl (by simp [hMain, MainPc.slot]) ?_ rfl)
      by_cases hd : c = d
      · subst hd
        have hItem : f.item sid = none := by
          cases hItem : f.item sid with
          | none => rfl
          | some i => exact absurd ⟨rfl, i, hItem⟩ hHit
        simp [push, hItem]
      · simp [push, hd]
  | unsent d f fatal hMain hOpen =>
    refine .inl (spokeEnd_goto ?_)
    cases fatal <;> simp [hMain, MainPc.slot]
  | delivered d sid' payload hMain hPc hRoom =>
    by_cases hHit : d = c ∧ sid' = sid
    · obtain ⟨rfl, rfl⟩ := hHit
      refine .inr ⟨.dispatch, ⟨rfl, by simp [hMain]⟩,
        spokeStep_of (.delivered payload (by simp [spokeEnd, hMain, MainPc.slot]) hPc) ?_⟩
      ext : 1 <;> simp [spokeEnd, MainPc.slot]
    · refine .inl (spokeEnd_congr ?_ Iff.rfl (by simp [hMain, MainPc.slot, hHit]) rfl rfl)
      rw [goto_run, setRun_apply, if_neg fun h => hHit ⟨h.1.symm, h.2.symm⟩]
  | undelivered d sid' payload hMain hPc =>
    by_cases hHit : d = c ∧ sid' = sid
    · obtain ⟨rfl, rfl⟩ := hHit
      refine .inr ⟨.dispatch, ⟨rfl, by simp [hMain]⟩,
        spokeStep_of (.undelivered payload (by simp [spokeEnd, hMain, MainPc.slot]) hPc) ?_⟩
      ext : 1 <;> simp [spokeEnd, MainPc.slot]
    · exact .inl (spokeEnd_goto (by simp [hMain, MainPc.slot, hHit]))

theorem spokeEnd_callerMove {n : Nat} {e : CallerEv} (hMove : CallerMove E k n e j) :
    j.spokeEnd c sid = k.spokeEnd c sid := by
  cases hMove with
  | sent hPc hOpen =>
    refine spokeEnd_congr rfl Iff.rfl rfl ?_ rfl
    by_cases hc : c = (k.caller n).conn
    · simp [hc, ClientFrame.item, clientHttpRequest]
    · simp [hc]
  | _ => rfl

/-- What the world can do to the spoke end of a stream. -/
def SpokeCause (c : ConnId) (sid : Nat) : ClientEnvEv → StreamEv → Prop
  | .peerSend d sid' b, .spokePeer (some b') => (d = c ∧ sid' = sid) ∧ b' = b
  | .peerClose d sid', .spokePeer none => d = c ∧ sid' = sid
  | .dropOut d, .dropTx => d = c
  | _, _ => False

theorem spokeView_envStep {e : ClientEnvEv} (h : k.envStep e = some j) :
    SpokeView k c sid j (SpokeCause c sid e) := by
  have hPeer : ∀ (d : ConnId) (sid' : Nat) (b : Option Bytes) (hFin : b.isSome = true →
      (k.run d sid').sock.fin = false), (d = c ∧ sid' = sid → SpokeCause c sid e (.spokePeer b)) →
      SpokeView k c sid (k.setRun d sid' { k.run d sid' with sock := (k.run d sid').sock.peer b })
        (SpokeCause c sid e) := by
    intro d sid' b hFin hCause
    by_cases hHit : d = c ∧ sid' = sid
    · obtain ⟨rfl, rfl⟩ := hHit
      refine .inr ⟨.spokePeer b, hCause ⟨rfl, rfl⟩, spokeStep_of (.peer b hFin) ?_⟩
      ext : 1 <;> simp [spokeEnd]
    · refine .inl (spokeEnd_congr ?_ Iff.rfl rfl rfl rfl)
      rw [setRun_apply, if_neg fun h => hHit ⟨h.1.symm, h.2.symm⟩]
  cases e with
  | dropOut d =>
    cases h
    by_cases hd : c = d
    · subst hd
      refine .inr ⟨.dropTx, rfl, spokeStep_of .dropTx ?_⟩
      ext : 1 <;> simp [spokeEnd]
    · exact .inl (spokeEnd_congr rfl Iff.rfl rfl rfl (by simp [hd]))
  | peerSend d sid' b =>
    obtain ⟨sock, hSend, rfl⟩ := Option.map_eq_some_iff.mp h
    simp only [Socket.peerSend] at hSend
    split at hSend <;> cases hSend
    next hFin => exact hPeer d sid' (some b) (fun _ => Bool.eq_false_iff.mpr hFin) fun h => ⟨h, rfl⟩
  | peerClose d sid' =>
    cases h
    exact hPeer d sid' none (by simp) fun h => h
  | arrive req =>
    cases h
    exact .inl rfl

/-- A frame that the dispatch loop receives is taken by the stream it is for. -/
theorem spoke_receive (hMain : k.main = .session d .next) (f : ServerFrame) :
    (∃ i, d = c ∧ f.item sid = some i ∧
      (SpokeRecv (k.spokeEnd c sid) i ((k.receive E d f).spokeEnd c sid) ∨
        i = .opn ∧ (k.receive E d f).spokeEnd c sid =
          { k.spokeEnd c sid with run := ⟨"", .fresh, .refused, []⟩ })) ∨
      (k.receive E d f).spokeEnd c sid = k.spokeEnd c sid ∧ (d = c → f.item sid = none) := by
  have hSlot : k.main.slot c sid = none := by rw [hMain]; rfl
  have hOther : ¬(d = c ∧ f.streamId = sid) → d = c → f.item sid = none :=
    fun hHit hd => if_neg fun h => hHit ⟨hd, h⟩
  have hNot : ¬(d = c ∧ f.streamId = sid) → ¬(c = d ∧ sid = f.streamId) :=
    fun hHit h => hHit ⟨h.1.symm, h.2.symm⟩
  have hGoto : ∀ {p : MainPc}, p.slot c sid = none → (k.goto p).spokeEnd c sid = k.spokeEnd c sid :=
    fun hp => spokeEnd_goto (hp.trans hSlot.symm)
  cases hKind : f.kind with
  | none => exact .inr ⟨by simp [receive, hKind], fun _ => by simp [ServerFrame.item, hKind]⟩
  | some kind =>
    cases kind with
    | challenge nonce issuedAt =>
      refine .inr ⟨?_, fun _ => by simp [ServerFrame.item, hKind]⟩
      simp only [receive, hKind]
      exact hGoto rfl
    | ping sentAt =>
      refine .inr ⟨?_, fun _ => by simp [ServerFrame.item, hKind]⟩
      simp only [receive, hKind]
      exact hGoto rfl
    | httpResponse resp =>
      refine .inr ⟨?_, fun _ => by simp [ServerFrame.item, hKind]⟩
      simp only [receive, hKind]
      split
      · exact spokeEnd_congr rfl Iff.rfl hSlot.symm rfl rfl
      · rfl
    | openStream protocol target =>
      by_cases hHit : d = c ∧ f.streamId = sid
      · obtain ⟨rfl, rfl⟩ := hHit
        refine .inl ⟨.opn, rfl, by simp [ServerFrame.item, hKind], ?_⟩
        simp only [receive, hKind]
        split
        · refine .inr ⟨trivial, ?_⟩
          ext : 1 <;> simp [spokeEnd, MainPc.slot, hMain]
        · next target' hTarget =>
          refine .inl ?_
          convert SpokeRecv.opn (k := k.spokeEnd d f.streamId) target' using 1
          ext : 1 <;> simp [spokeEnd]
      · refine .inr ⟨?_, hOther hHit⟩
        simp only [receive, hKind]
        split
        · refine spokeEnd_congr ?_ Iff.rfl hSlot.symm rfl rfl
          rw [goto_run, setRun_apply, if_neg (hNot hHit)]
        · refine spokeEnd_congr ?_ ?_ rfl rfl rfl
          · rw [setRun_apply, if_neg (hNot hHit)]
            rfl
          · by_cases hd : c = d
            · subst hd
              have hne : sid ≠ f.streamId := fun h => hHit ⟨rfl, h.symm⟩
              simp [hne]
            · simp [hd]
    | data payload =>
      by_cases hHit : d = c ∧ f.streamId = sid
      · obtain ⟨rfl, rfl⟩ := hHit
        refine .inl ⟨.data payload, rfl, by simp [ServerFrame.item, hKind], .inl ?_⟩
        simp only [receive, hKind]
        split
        · next hEntry =>
          convert SpokeRecv.data (k := k.spokeEnd d f.streamId) payload (by simpa [spokeEnd] using hEntry)
            hSlot using 1
          ext : 1 <;> simp [spokeEnd, MainPc.slot]
        · next hEntry => exact .unknown payload (by simpa [spokeEnd] using hEntry)
      · refine .inr ⟨?_, hOther hHit⟩
        simp only [receive, hKind]
        split
        · exact hGoto (if_neg hHit)
        · rfl
    | close half reason =>
      by_cases hHit : d = c ∧ f.streamId = sid
      · obtain ⟨rfl, rfl⟩ := hHit
        refine .inl ⟨.eof, rfl, by simp [ServerFrame.item, hKind], .inl ?_⟩
        simp only [receive, hKind]
        convert SpokeRecv.eof (k := k.spokeEnd d f.streamId) using 1
        ext : 1 <;> simp [spokeEnd]
      · refine .inr ⟨?_, hOther hHit⟩
        simp only [receive, hKind]
        refine spokeEnd_congr rfl ?_ rfl rfl rfl
        by_cases hd : c = d
        · subst hd
          have hne : sid ≠ f.streamId := fun h => hHit ⟨rfl, h.symm⟩
          simp [hne]
        · simp [hd]

theorem spokeEnd_connected (hMain : k.main = .idle) :
    (k.connected d).spokeEnd c sid =
      if c = d then { k.spokeEnd c sid with tx := true } else k.spokeEnd c sid := by
  split
  · next hd => ext : 1 <;> simp [spokeEnd, connected, hd, hMain, MainPc.slot]
  · next hd => ext : 1 <;> simp [spokeEnd, connected, hd, hMain, MainPc.slot]

/-! ## What the ends rely on -/

theorem spokesOk_init : SpokesOk init where
  mine c pc h := by simp [init] at h
  report c f fatal sid i h := by simp [init] at h
  foreign c sid _ := ⟨rfl, rfl, rfl, rfl, rfl, rfl, rfl⟩

/-- What a step of the client itself can do to a spoke end. -/
def ClientCause (k : Client) (c : ConnId) (sid : Nat) : ClientAct → StreamEv → Prop
  | .main _, b => b = .dispatch ∧ k.main ≠ .session c .next
  | .run d sid' e, b => (d = c ∧ sid' = sid) ∧ b = .run e
  | .caller _ _, _ => False
  | .env e, b => SpokeCause c sid e b

theorem spokeView_step {a : ClientAct} (hOk : SpokesOk k) (h : k.step E a = some j) :
    SpokeView k c sid j (ClientCause k c sid a) := by
  cases a with
  | main e => exact spokeView_mainMove hOk (mainStep_move h)
  | run d sid' e => exact spokeView_runMove (runStep_move h)
  | caller n e => exact .inl (spokeEnd_callerMove (callerStep_move h))
  | env e => exact spokeView_envStep h

theorem mainMove_session {e : MainEv} (hMove : MainMove E k e j) {pc : DispatchPc}
    (hMain : j.main = .session c pc) : (∃ pc', k.main = .session c pc') ∧ pc = .next := by
  have hResolve : ∀ (n : Nat) (r : Reply) (p : MainPc), ((k.resolve n r).goto p).main = p :=
    fun _ _ _ => rfl
  cases hMove with
  | attach d hAt | sent d f fatal hAt | delivered d sid payload hAt | undelivered d sid payload hAt =>
    cases hMain
    exact ⟨⟨_, hAt⟩, rfl⟩
  | hand d n resp hAt =>
    cases hMain
    exact ⟨⟨_, hAt⟩, rfl⟩
  | unsent d f fatal hAt =>
    cases fatal <;> cases hMain
    exact ⟨⟨_, hAt⟩, rfl⟩
  | _ => cases hMain

theorem step_report {a : ClientAct} (h : k.step E a = some j) (hMain : ∀ e, a ≠ .main e) :
    j.main = k.main ∧
      ((k.run c sid).pc = .refused → (j.run c sid).pc = .refused) := by
  cases a with
  | main e => exact absurd rfl (hMain e)
  | caller n e => cases callerStep_move h <;> exact ⟨rfl, id⟩
  | run d sid' e =>
    refine ⟨by cases runStep_move h <;> rfl, fun hPc => ?_⟩
    by_cases hHit : c = d ∧ sid = sid'
    · obtain ⟨rfl, rfl⟩ := hHit
      cases runStep_move h <;> simp_all
    · have hSame : j.run c sid = k.run c sid := by
        cases runStep_move h <;> exact (setRun_apply _ _ _ _ _ _).trans (if_neg hHit)
      rwa [hSame]
  | env e =>
    cases e with
    | peerSend d sid' b =>
      obtain ⟨sock, -, rfl⟩ := Option.map_eq_some_iff.mp h
      refine ⟨rfl, fun hPc => ?_⟩
      rw [setRun_apply]
      split
      · next hHit => exact hHit.1 ▸ hHit.2 ▸ hPc
      · exact hPc
    | peerClose d sid' =>
      cases h
      refine ⟨rfl, fun hPc => ?_⟩
      rw [setRun_apply]
      split
      · next hHit => exact hHit.1 ▸ hHit.2 ▸ hPc
      · exact hPc
    | dropOut d | arrive req =>
      cases h
      exact ⟨rfl, id⟩

theorem spokesOk_step {a : ClientAct} (hOk : SpokesOk k) (h : k.step E a = some j) : SpokesOk j := by
  have hKept : j.mine = k.mine := System.clientStep_mine h
  refine ⟨fun c pc hMain => ?_, fun c f fatal sid i hMain hItem => ?_, fun c sid hMine => ?_⟩
  · rw [hKept]
    by_cases ha : ∃ e, a = .main e
    · obtain ⟨e, rfl⟩ := ha
      obtain ⟨⟨pc', hAt⟩, -⟩ := mainMove_session (mainStep_move h) hMain
      exact hOk.mine c pc' hAt
    · rw [(@step_report _ _ _ 0 0 _ h fun e he => ha ⟨e, he⟩).1] at hMain
      exact hOk.mine c pc hMain
  · by_cases ha : ∃ e, a = .main e
    · obtain ⟨e, rfl⟩ := ha
      cases (mainMove_session (mainStep_move h) hMain).2
    · obtain ⟨hSame, hRefused⟩ := @step_report _ _ _ c sid _ h fun e he => ha ⟨e, he⟩
      obtain ⟨hEof, hPc⟩ := hOk.report c f fatal sid i (hSame ▸ hMain) hItem
      exact ⟨hEof, hRefused hPc⟩
  · have hBlank := hOk.foreign c sid (hKept ▸ hMine)
    rcases spokeView_step hOk h with hSame | ⟨e, -, hStep⟩
    · rwa [hSame]
    · exact hBlank.step hStep

/-- Of its own the dispatch loop sends no frame of a stream but this one. -/
theorem item_clientClose {half : Bool} {reason : String} {i : StreamItem}
    (h : (clientClose sid' half reason).item sid = some i) : sid' = sid ∧ i = .eof := by
  obtain ⟨hSid, hEq⟩ := Option.ite_none_right_eq_some.mp h
  exact ⟨hSid, (Option.some.inj hEq).symm⟩

theorem item_of_kind {kind : Option ClientKind} {i : StreamItem} {n : Nat}
    (h : ClientFrame.item sid ⟨n, kind⟩ = some i) :
    (∃ payload, kind = some (.data payload)) ∨ ∃ half reason, kind = some (.close half reason) := by
  obtain ⟨-, hEq⟩ := Option.ite_none_right_eq_some.mp h
  split at hEq
  · next payload hKind => exact .inl ⟨payload, hKind⟩
  · next half reason hKind => exact .inr ⟨half, reason, hKind⟩
  · cases hEq

theorem receive_session (hMain : k.main = .session d .next) (f : ServerFrame) :
    ∃ pc, (k.receive E d f).main = .session d pc ∧ ∀ f' fatal sid i, pc = .send f' fatal →
      f'.item sid = some i → i = .eof ∧ ((k.receive E d f).run d sid).pc = .refused := by
  unfold receive
  split
  · exact ⟨_, rfl, fun f' fatal sid i hPc hItem => by
      cases hPc
      simpa using item_of_kind hItem⟩
  · dsimp only
    split
    · refine ⟨_, rfl, fun f' fatal sid i hPc hItem => ?_⟩
      cases hPc
      obtain ⟨rfl, rfl⟩ := item_clientClose hItem
      exact ⟨rfl, by simp⟩
    · exact ⟨.next, hMain, fun f' fatal sid i hPc => by cases hPc⟩
  · split
    · exact ⟨_, rfl, fun f' fatal sid i hPc => by cases hPc⟩
    · exact ⟨.next, hMain, fun f' fatal sid i hPc => by cases hPc⟩
  · exact ⟨.next, hMain, fun f' fatal sid i hPc => by cases hPc⟩
  · exact ⟨_, rfl, fun f' fatal sid i hPc hItem => by
      cases hPc
      simpa using item_of_kind hItem⟩
  · split
    · exact ⟨_, rfl, fun f' fatal sid i hPc => by cases hPc⟩
    · exact ⟨.next, hMain, fun f' fatal sid i hPc => by cases hPc⟩
  · exact ⟨.next, hMain, fun f' fatal sid i hPc => by cases hPc⟩

theorem spokesOk_receive (hOk : SpokesOk k) (hMain : k.main = .session d .next) (f : ServerFrame) :
    SpokesOk (k.receive E d f) := by
  have hKept : (k.receive E d f).mine = k.mine := System.receive_mine E k d f
  obtain ⟨pc, hSession, hReport⟩ := receive_session hMain f
  refine ⟨fun c pc' hAt => ?_, fun c f' fatal sid i hAt hItem => ?_, fun c sid hMine => ?_⟩
  · rw [hSession] at hAt
    cases hAt
    rw [hKept]
    exact hOk.mine d .next hMain
  · rw [hSession] at hAt
    cases hAt
    exact hReport f' fatal sid i rfl hItem
  · rw [hKept] at hMine
    have hd : d ≠ c := fun hd => by
      rw [← hd, hOk.mine d .next hMain] at hMine
      cases hMine
    rcases spoke_receive hMain f with ⟨i, hEq, -⟩ | ⟨hSame, -⟩
    · exact absurd hEq hd
    · rw [hSame]
      exact hOk.foreign c sid hMine

theorem spokesOk_connected (hOk : SpokesOk k) (hMain : k.main = .idle) : SpokesOk (k.connected d) := by
  refine ⟨fun c pc hAt => ?_, fun c f fatal sid i hAt => ?_, fun c sid hMine => ?_⟩
  · cases hAt
    simp [connected]
  · cases hAt
  · have hd : c ≠ d := fun hd => by simp [connected, hd] at hMine
    rw [spokeEnd_connected hMain, if_neg hd]
    exact hOk.foreign c sid (by simpa [connected, hd] using hMine)

end Client

end OpenSpoke.Tunnel
