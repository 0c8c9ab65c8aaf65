import OpenSpoke.Tunnel.Stream.Queued

/-!
# Where virtual streams lose bytes

The steps of the tunnel at which bytes of a stream can be lost, in either
direction. In a run without such steps every byte that was read is written or
still on its way, and a connection is shut down after the last one is written.
-/

namespace OpenSpoke.Tunnel

open Lts Pipe

def RunPc.dialFailing : RunPc → Bool
  | .dialFailed _ => true
  | _ => false

/-- The frame opens `sid` for a target that the client does not know. -/
def ClientEnv.refuses (E : ClientEnv) (sid : Nat) (f : ServerFrame) : Bool :=
  f.streamId = sid &&
    match f.kind with
    | some (.openStream _ target) =>
      (E.cfg.targets.lookup (if target = "" then "default" else target)).isNone
    | _ => false

namespace Client

/-- Nothing for the target is left in the client, and nothing more is let in. -/
def drained (k : Client) (c : ConnId) (sid : Nat) : Bool :=
  (k.run c sid).pc ≠ .absent && sid ∉ k.streams c &&
    (k.run c sid).pc.rest ++ (k.run c sid).queue.flatten ++ (k.main.slot c sid).getD [] = []

/-- Nothing of what the target sent is left in the client. -/
def emptied (k : Client) (c : ConnId) (sid : Nat) : Bool :=
  (k.run c sid).pc.src = .done && bytes ((k.out c).filterMap (ClientFrame.item sid)) = []

/-- The steps of `run_stream` at which bytes for the target are lost. -/
def losesDown (k : Client) (c : ConnId) (sid : Nat) : RunEv → Bool
  | .dialed (.error _) | .write (.error _) => true
  | .read (.error _) | .read (.ok 0) => !k.drained c sid
  | .tau => !k.outOpen c && (k.run c sid).pc.sending && !k.drained c sid
  | _ => false

end Client

namespace Server

/-- A handler is about to clear the streams of session `c`: its own, or that of the session
which takes its place. -/
def clears (s : Server) (c d : ConnId) : Bool :=
  match s.phase d with
  | .clearOld old => old = c
  | .clear | .failClear _ => d = c
  | _ => false

/-- An accept loop drops the connection of `sid`, or opens it on a session whose streams were
cleared. -/
def losesOpening (s : Server) (c : ConnId) (k sid : Nat) (e : LoopEv) : Bool :=
  match (s.loop c k).pc with
  | .register sid' => sid' = sid && e = .cancel
  | .sendOpen sid' => sid' = sid && (e = .cancel || sid ∉ (s.session c).streams)
  | .rollback sid' => sid' = sid
  | _ => false

end Server

namespace System

/-- Bytes for the target that were read and are not yet written, the oldest first. -/
def onWayDown (s : System) (c : ConnId) (sid : Nat) : Bytes :=
  (s.cli.run c sid).pc.rest ++ (s.cli.run c sid).queue.flatten ++ (s.cli.main.slot c sid).getD [] ++
    (if s.receivesDown c then s.queuedDown c sid else []) ++ (s.srv.stream sid).up.src.held

/-- Bytes of the target that were read and are not yet written, the oldest first. -/
def onWayUp (s : System) (c : ConnId) (sid : Nat) : Bytes :=
  (s.srv.stream sid).down.rest ++ (s.srv.stream sid).queue.flatten ++
    ((s.srv.phase c).slot sid).getD [] ++ (if s.receivesUp c then s.queuedUp c sid else []) ++
    (s.cli.run c sid).pc.src.held

/-- The step loses bytes that stream `sid` of session `c` carries to the target: queued ones, or
those of an end of the stream. -/
def losesDown (E : SystemEnv) (c : ConnId) (sid : Nat) (s : System) (a : SystemAct) : Bool :=
  s.strandsDown E c sid a ||
    match a with
    | .hub (.up sid' .tau) => sid' = sid && !s.srv.rxOpen c && (s.srv.stream sid).up.sending
    | .down d => d = c && (s.srv.outbox c).head?.any (E.cli.refuses sid)
    | .spoke (.run d sid' e) => d = c && sid' = sid && s.cli.losesDown c sid e
    | _ => false

/-- The step loses bytes that stream `sid` of session `c` carries from the target: queued ones, or
those of an end of the stream. -/
def losesUp (E : SystemEnv) (c : ConnId) (sid : Nat) (s : System) (a : SystemAct) : Bool :=
  s.strandsUp E c sid a ||
    match a with
    | .hub (.conn d _) =>
      s.srv.clears c d && sid ∈ (s.srv.session c).streams && !s.cli.emptied c sid
    | .hub (.loop d k e) => d = c && s.srv.losesOpening c k sid e
    | .hub (.up sid' .tau) =>
      sid' = sid && (s.srv.stream sid).up = .remove && sid ∈ (s.srv.session c).streams &&
        !s.cli.emptied c sid
    | .hub (.down sid' (.write (.error _))) => sid' = sid
    | .down d => d = c && (s.srv.outbox c).head?.any (E.cli.refuses sid)
    | .spoke (.run d sid' .tau) =>
      d = c && sid' = sid && (!s.cli.outOpen c && (s.cli.run c sid).pc.sending ||
        (s.cli.run c sid).pc.dialFailing)
    | _ => false

end System

/-! ## The steps in question -/

namespace Server

variable {E : Env} {s t : Server} {c d : ConnId} {k sid : Nat} {e : LoopEv}

/-- Only the loop that announces the stream sends its Open frame. -/
theorem announcing (hMove : LoopMove E s d k e t) (hNot : (s.hubEnd c sid).announced = false)
    (hAnn : (t.hubEnd c sid).announced = true) : d = c ∧ (s.loop c k).pc = .sendOpen sid := by
  simp only [hubEnd, decide_eq_true_eq, decide_eq_false_iff_not, not_exists] at hNot hAnn
  obtain ⟨j, hj⟩ := hAnn
  obtain ⟨-, pc, hLoop, -⟩ := loopMove_loop hMove
  by_cases hHit : c = d ∧ j = k
  · obtain ⟨rfl, rfl⟩ := hHit
    refine ⟨rfl, ?_⟩
    cases hMove <;> simp_all [loopTo]
  · rw [hLoop, if_neg hHit] at hj
    exact absurd hj (hNot j)

theorem dropping (hIds : StreamIds s) (hMove : LoopMove E s d k e t)
    (hHeld : (s.hubEnd c sid).st.up = .held) (hEnded : (t.hubEnd c sid).st.up = .ended) :
    d = c ∧ (s.losesOpening c k sid e = true) := by
  have hOwn : (s.stream sid).owner = c ∧ sid ≤ s.nextSid := by
    by_contra hNot
    simp [hubEnd, hNot] at hHeld
  have hUp : (s.stream sid).up = .held := by simpa [hubEnd, hOwn] using hHeld
  have hAfter : (t.stream sid).up = .ended := by
    by_contra hNot
    simp only [hubEnd] at hEnded
    split at hEnded
    · exact hNot hEnded
    · cases hEnded
  have hOwner : ∀ sid', sid' = sid → (s.loop d k).pc.sid = some sid' → d = c := by
    rintro sid' rfl hSid
    rw [← hOwn.1, (hIds.held d k sid' hSid).2.1]
  cases hMove with
  | alloc hPc =>
    have hOld : sid ≠ s.nextSid + 1 := by omega
    simp [loopTo, hOld, hUp] at hAfter
  | rollback sid' hPc =>
    by_cases hSid : sid' = sid
    · obtain rfl := hOwner sid' hSid (by simp [hPc, AcceptPc.sid])
      exact ⟨rfl, by simp [losesOpening, hPc, hSid]⟩
    · simp [loopTo, Ne.symm hSid, hUp] at hAfter
  | spawn sid' hPc =>
    by_cases hSid : sid = sid'
    · simp [loopTo, hSid] at hAfter
    · simp [loopTo, hSid, hUp] at hAfter
  | cancelHeld sid' hAbort hPc =>
    by_cases hSid : sid' = sid
    · obtain rfl := hOwner sid' hSid (by rcases hPc with hPc | hPc | hPc <;> simp [hPc, AcceptPc.sid])
      refine ⟨rfl, ?_⟩
      rcases hPc with hPc | hPc | hPc <;> simp [losesOpening, hPc, hSid]
    · simp [loopTo, Ne.symm hSid, hUp] at hAfter
  | _ => simp [loopTo, hUp] at hAfter

end Server

theorem Client.receive_refused {E : ClientEnv} {k : Client} {c : ConnId} {sid : Nat} {f : ServerFrame}
    (hBefore : (k.run c sid).pc ≠ .refused) (h : ((k.receive E c f).run c sid).pc = .refused) :
    E.refuses sid f = true := by
  unfold receive at h
  split at h
  case h_2 protocol target hKind =>
    dsimp only at h
    split at h
    next hNone =>
      by_cases hSid : sid = f.streamId
      · simp [ClientEnv.refuses, hKind, hSid, hNone]
      · rw [goto_run, setRun_apply, if_neg (by simp [hSid])] at h
        exact absurd h hBefore
    next =>
      rw [setRun_apply] at h
      split at h
      · cases h
      · exact absurd h hBefore
  case h_3 | h_6 => split at h <;> exact absurd h hBefore
  all_goals exact absurd h hBefore

/-- A stream is refused when its Open frame is received, and at no other step. -/
theorem StreamStep.accepted {v w : VirtualStream} {e : StreamEv} (hStep : StreamStep v e w)
    (he : e ≠ .refuse) (h : v.spoke.run.pc ≠ .refused) : w.spoke.run.pc ≠ .refused := by
  cases hStep with
  | connect | hub | up => exact h
  | spoke h' k k' e hStep => cases hStep <;> simp_all
  | down h' k k' i w hWire hRecv => cases hRecv <;> simp_all
  | refuse => exact absurd rfl he

theorem StreamStep.announced {v w : VirtualStream} (hStep : StreamStep v .announce w) :
    v.hub.announced = false ∧ w.hub.announced = true := by
  cases hStep with
  | hub h h' k e hHub => cases hHub; exact ⟨‹_›, rfl⟩
  | spoke h k k' e hSpoke => cases hSpoke

theorem StreamStep.dropped {v w : VirtualStream} (hStep : StreamStep v .dropHeld w) :
    v.hub.st.up = .held ∧ w.hub.st.up = .ended := by
  cases hStep with
  | hub h h' k e hHub => cases hHub; exact ⟨‹_›, rfl⟩
  | spoke h k k' e hSpoke => cases hSpoke

namespace System

variable {E : SystemEnv} {s t : System} {c : ConnId} {sid : Nat} {a : SystemAct}

theorem refusing (hOk : StreamsOk s) (hMine : s.cli.mine c = true) (h : step E s a = some t)
    (hCause : s.StreamCause c sid a .refuse)
    (hStep : StreamStep (s.stream c sid) .refuse (t.stream c sid)) :
    a = .down c ∧ (s.srv.outbox c).head?.any (E.cli.refuses sid) = true := by
  have hWf := (hOk.ok c sid hMine).wf
  have hAfter : (t.cli.run c sid).pc = .refused ∧ (s.cli.run c sid).pc = .absent := by
    generalize hv : s.stream c sid = v at hStep hWf
    generalize hw : t.stream c sid = w at hStep
    cases hStep with
    | refuse h' k w' hWire =>
      refine ⟨congrArg (fun v => v.spoke.run.pc) hw, ?_⟩
      have hPc : k.run.pc = .absent := hWf.opn (by simp [hWire])
      rw [← hPc]
      exact congrArg (fun v => v.spoke.run.pc) hv
    | hub h' h'' k e hHub => cases hHub
    | spoke h' k k' e hSpoke => cases hSpoke
  cases a with
  | down d =>
    obtain ⟨rfl, -⟩ := hCause
    refine ⟨rfl, ?_⟩
    simp only [step] at h
    split at h
    next f rest hOut =>
      simp only [Option.ite_none_right_eq_some, Option.map_eq_some_iff] at h
      obtain ⟨-, u, -, rfl⟩ := h
      rw [hOut, List.head?_cons, Option.any_some]
      exact Client.receive_refused (by simp [hAfter.2]) hAfter.1
    next => cases h
  | hub b => cases b with
    | env e => cases e <;> simp_all [StreamCause, Server.EnvCause]
    | _ => simp_all [StreamCause, Server.ConnCause, Server.LoopCause]
  | spoke b => cases b with
    | env e => cases e <;> simp_all [StreamCause, Client.ClientCause, Client.SpokeCause]
    | _ => simp_all [StreamCause, Client.ClientCause]
  | _ => simp_all [StreamCause]

theorem drained_iff : s.cli.drained c sid = true ↔ (s.stream c sid).downEnded := by
  by_cases hEntry : sid ∈ s.cli.streams c <;> by_cases hPc : (s.cli.run c sid).pc = .absent <;>
    simp [Client.drained, VirtualStream.downEnded, VirtualStream.down, State.arrived, stream,
      Client.spokeEnd, hEntry, hPc]

theorem emptied_iff : s.cli.emptied c sid = true ↔ (s.stream c sid).upPassed := by
  simp [Client.emptied, VirtualStream.upPassed, VirtualStream.up, stream, Client.spokeEnd]

theorem stream_st (hBorn : (s.stream c sid).hub.st.up ≠ .absent) :
    (s.stream c sid).hub.st = s.srv.stream sid := by
  simp only [stream, Server.hubEnd] at hBorn ⊢
  split
  · rfl
  next hNot => simp [hNot] at hBorn

theorem losesDown_run {e : RunEv} (hLost : (s.stream c sid).LosesDown (.run e)) :
    s.cli.losesDown c sid e = true := by
  have hDrained : ¬ (s.stream c sid).downEnded → s.cli.drained c sid = false := fun hNot =>
    Bool.eq_false_iff.mpr (drained_iff.not.mpr hNot)
  cases e with
  | tau =>
    obtain ⟨hTx, ⟨p, hPc⟩, hNot⟩ := hLost
    have hTx : s.cli.outOpen c = false := hTx
    have hPc : (s.cli.run c sid).pc = .sendData p := hPc
    simp [Client.losesDown, hTx, hPc, RunPc.sending, hDrained hNot]
  | dialed r =>
    cases r with
    | error err => rfl
    | ok u => exact hLost.elim
  | read r =>
    cases r with
    | error err => simpa [Client.losesDown] using hDrained hLost
    | ok n =>
      cases n with
      | zero => simpa [Client.losesDown] using hDrained hLost
      | succ n => exact hLost.elim
  | write r =>
    cases r with
    | error err => rfl
    | ok n => exact hLost.elim

theorem not_losesDown {e : StreamEv} (hLoses : s.losesDown E c sid a = false)
    (hCause : s.StreamCause c sid a e) (he : e ≠ .refuse) : ¬ (s.stream c sid).LosesDown e := by
  intro hLost
  cases a with
  | hub b =>
    cases b with
    | up sid' e' =>
      obtain ⟨rfl, rfl⟩ := hCause
      cases e' with
      | tau =>
        obtain ⟨hRx, p, hUp⟩ := hLost
        have hSt : (s.stream c sid').hub.st = s.srv.stream sid' := stream_st (by simp [hUp])
        rw [hSt] at hUp
        have hRx : s.srv.rxOpen c = false := hRx
        simp [losesDown, hRx, hUp, UpPc.sending] at hLoses
      | read r => exact hLost
    | conn d e' => cases e <;> first | exact hLost | exact hCause
    | loop d k e' => cases e <;> first | exact hLost | exact hCause
    | down sid' e' =>
      obtain ⟨-, rfl⟩ := hCause
      exact hLost
    | env e' => cases e' <;> cases e <;> first | exact hLost | exact hCause
    | _ => exact hCause
  | spoke b =>
    cases b with
    | main e' =>
      obtain ⟨rfl, -⟩ := hCause
      exact hLost
    | run d sid' e' =>
      obtain ⟨⟨rfl, rfl⟩, rfl⟩ := hCause
      simp [losesDown, losesDown_run hLost] at hLoses
    | caller n e' => exact hCause
    | env e' => cases e' <;> cases e <;> first | exact hLost | exact hCause
  | up d =>
    obtain ⟨-, rfl⟩ := hCause
    exact hLost
  | down d =>
    obtain ⟨-, rfl | rfl⟩ := hCause
    · exact hLost
    · exact he rfl
  | connect nonce issuedAt => exact hCause

theorem not_losesUp {e : StreamEv} (hOk : StreamsOk s) (hStep : step E s a = some t)
    (hLoses : s.losesUp E c sid a = false) (hPc : (s.cli.run c sid).pc ≠ .refused)
    (hCause : s.StreamCause c sid a e) (hView : StreamStep (s.stream c sid) e (t.stream c sid)) :
    ¬ (s.stream c sid).LosesUp e := by
  intro hLost
  have hEmptied : ¬ (s.stream c sid).upPassed → s.cli.emptied c sid = false := fun hNot =>
    Bool.eq_false_iff.mpr (emptied_iff.not.mpr hNot)
  cases a with
  | hub b =>
    simp only [step, Option.ite_none_right_eq_some, Option.map_eq_some_iff] at hStep
    obtain ⟨-, u, hSrv, rfl⟩ := hStep
    cases b with
    | up sid' e' =>
      obtain ⟨rfl, rfl⟩ := hCause
      cases e' with
      | tau =>
        obtain ⟨hUp, hEntry, hNot⟩ := hLost
        have hSt : (s.stream c sid').hub.st = s.srv.stream sid' := stream_st (by simp [hUp])
        rw [hSt] at hUp
        have hEntry : sid' ∈ (s.srv.session c).streams := by simpa [stream, Server.hubEnd] using hEntry
        simp [losesUp, hUp, hEntry, hEmptied hNot] at hLoses
      | read r => exact hLost
    | conn d e' =>
      cases e with
      | clear =>
        obtain ⟨hEntry, hNot⟩ := hLost
        have hEntry : sid ∈ (s.srv.session c).streams := by simpa [stream, Server.hubEnd] using hEntry
        have hClears : s.srv.clears c d = true := by
          rcases hCause with hPhase | ⟨rfl, hPhase | ⟨err, hPhase⟩⟩ <;> simp [Server.clears, hPhase]
        simp [losesUp, hClears, hEntry, hEmptied hNot] at hLoses
      | _ => first | exact hLost | exact hCause
    | loop d k e' =>
      have hMove : Server.LoopMove E.srv s.srv d k e' u := Server.loopStep_move hSrv
      cases e with
      | announce =>
        obtain ⟨hNot, hAnn⟩ := hView.announced
        obtain ⟨rfl, hPc⟩ := Server.announcing hMove hNot hAnn
        have hEntry : sid ∉ (s.srv.session d).streams := by
          simpa [VirtualStream.LosesUp, stream, Server.hubEnd] using hLost
        simp [losesUp, Server.losesOpening, hPc, hEntry] at hLoses
      | dropHeld =>
        obtain ⟨hHeld, hEnded⟩ := hView.dropped
        obtain ⟨rfl, hDrop⟩ := Server.dropping hOk.hubs.ids hMove hHeld hEnded
        simp [losesUp, hDrop] at hLoses
      | _ => first | exact hLost | exact hCause
    | down sid' e' =>
      obtain ⟨rfl, rfl⟩ := hCause
      cases e' with
      | tau => exact hLost
      | write r =>
        cases r with
        | error err => simp [losesUp] at hLoses
        | ok n => exact hLost
    | env e' => cases e' <;> cases e <;> first | exact hLost | exact hCause
    | _ => exact hCause
  | spoke b =>
    cases b with
    | main e' =>
      obtain ⟨rfl, -⟩ := hCause
      exact hPc hLost
    | run d sid' e' =>
      obtain ⟨⟨rfl, rfl⟩, rfl⟩ := hCause
      cases e' with
      | tau =>
        rcases hLost with ⟨hTx, p, hSend⟩ | ⟨reason, hFail⟩
        · have hTx : s.cli.outOpen d = false := hTx
          have hSend : (s.cli.run d sid').pc = .sendData p := hSend
          simp [losesUp, hTx, hSend, RunPc.sending] at hLoses
        · have hFail : (s.cli.run d sid').pc = .dialFailed reason := hFail
          simp [losesUp, hFail, RunPc.dialFailing] at hLoses
      | _ => exact hLost
    | caller n e' => exact hCause
    | env e' => cases e' <;> cases e <;> first | exact hLost | exact hCause
  | up d =>
    obtain ⟨-, rfl⟩ := hCause
    exact hLost
  | down d => obtain ⟨-, rfl | rfl⟩ := hCause <;> exact hLost
  | connect nonce issuedAt => exact hCause

/-! ## Runs without them -/

theorem whole_of_blank {v : VirtualStream} (hHub : v.hub.Blank) (hSpoke : v.spoke.Blank) :
    Whole v.down ∧ Whole v.up := by
  obtain ⟨⟨hUp, hDown, hQueue, hPut, hGot⟩, hReg, hAnn, hEntry, hSlot, hWire⟩ := hHub
  obtain ⟨hPc, hPut', hGot', hQueue', hEntry', hSlot', hWire'⟩ := hSpoke
  have hFresh : v.hub.fresh = true := by simp [HubEnd.fresh, hUp]
  refine ⟨?_, ?_⟩
  · constructor <;> simp [VirtualStream.down, State.arrived, State.inTransit, hUp, UpPc.src, hGot,
      hWire, hPc, hPut', hQueue', hEntry', hSlot', RunPc.open, RunPc.rest]
  · constructor <;> simp [VirtualStream.up, State.arrived, State.inTransit, hFresh, hDown, hQueue,
      hPut, hEntry, hSlot, hPc, hGot', hWire', RunPc.src, DownPc.open, DownPc.rest]

/-- A direction that refines a relay, strictly but for steps that `loses` lists, stays whole as
long as `flag` sees none of these. -/
theorem whole_run {dir : VirtualStream → State UInt8} {loses : VirtualStream → StreamEv → Prop}
    {flag : System → SystemAct → Bool}
    (hBlank : ∀ v : VirtualStream, v.hub.Blank → v.spoke.Blank → Whole (dir v))
    (hDir : ∀ v w e, VirtualStream.Ok v → StreamStep v e w → Steps (¬ loses v e) (dir v) (dir w))
    (hFlag : ∀ s a t e, StreamsOk s → step E s a = some t → flag s a = false →
      (s.cli.run c sid).pc ≠ .refused → s.StreamCause c sid a e → e ≠ .refuse →
      StreamStep (s.stream c sid) e (t.stream c sid) → ¬ loses (s.stream c sid) e)
    (hRefused : ∀ s : System, flag s (.down c) = false →
      (s.srv.outbox c).head?.any (E.cli.refuses sid) = false)
    {acts : List SystemAct} (hRun : run (step E) init acts = some s)
    (hKept : Along (step E) (fun s a => flag s a = false) init acts) (hMine : s.cli.mine c = true) :
    Whole (dir (s.stream c sid)) ∧ (s.cli.run c sid).pc ≠ .refused := by
  refine run_induction (motive := fun acts s =>
    Along (step E) (fun s a => flag s a = false) init acts → s.cli.mine c = true →
      Whole (dir (s.stream c sid)) ∧ (s.cli.run c sid).pc ≠ .refused) hRun ?_ ?_ hKept hMine
  · intro _ hMine
    simp [init, Client.init] at hMine
  · intro acts s a t hBefore ih hStep hKept hMine
    obtain ⟨hKept, hHere⟩ := (along_snoc _ _ a hBefore).mp hKept
    have hOk := streamsOk_run hBefore
    by_cases hOld : s.cli.mine c = true
    · obtain ⟨hWhole, hPc⟩ := ih hKept hOld
      rcases streamView_step sid hOk hOld hStep with hSame | ⟨e, hCause, hView⟩
      · have hRunSame : t.cli.run c sid = s.cli.run c sid :=
          congrArg (fun v => v.spoke.run) hSame
        rw [hSame, hRunSame]
        exact ⟨hWhole, hPc⟩
      · have he : e ≠ .refuse := by
          rintro rfl
          obtain ⟨rfl, hRefuses⟩ := refusing hOk hOld hStep hCause hView
          simp [hRefused s hHere] at hRefuses
        refine ⟨hWhole.steps ?_ (hDir _ _ e (hOk.ok c sid hOld) hView), hView.accepted he hPc⟩
        exact hFlag s a t e hOk hStep hHere hPc hCause he hView
    · obtain ⟨hHub, hSpoke⟩ := blank_of_new hOk hStep hOld hMine
      exact ⟨hBlank _ hHub hSpoke, by simp [show (t.cli.run c sid).pc = .absent from hSpoke.pc]⟩

/-- A sink that is gone has been written everything. -/
theorem nothing_left {p : State UInt8} (h : Whole p) (hSink : p.sink = false) :
    p.arrived = [] ∧ p.inTransit = [] := by
  obtain ⟨hGate, hArrived⟩ := h.dead hSink
  obtain ⟨hSrc, hWire⟩ := h.shut hGate
  exact ⟨hArrived, by simp [State.inTransit, hWire, hSrc]⟩

/-- Every byte read from the hub-side connection is written to the target or on its way there, and
`run_stream` leaves its loop when nothing is left, unless a step of the run lost some. -/
theorem target_gets_all {acts : List SystemAct} (hRun : run (step E) init acts = some s)
    (hOwn : (s.srv.stream sid).owner = c ∧ sid ≤ s.srv.nextSid) (hMine : s.cli.mine c = true)
    (hKept : Along (step E) (fun s a => s.losesDown E c sid a = false) init acts) :
    (s.cli.run c sid).sock.put ++ s.onWayDown c sid = (s.srv.stream sid).sock.got ∧
      ((s.cli.run c sid).pc.open = false → s.onWayDown c sid = []) := by
  have hWhole : Whole (s.stream c sid).down := (whole_run (fun v hHub hSpoke =>
      (whole_of_blank hHub hSpoke).1)
    (fun v w e hOk hStep => VirtualStream.down_refines hOk.wf hOk.down hStep)
    (fun s a t e _ _ hFlag _ hCause he _ => not_losesDown hFlag hCause he)
    (fun s hFlag => by simpa [losesDown, strandsDown] using hFlag) hRun hKept hMine).1
  have hSt : (s.srv.hubEnd c sid).st = s.srv.stream sid := if_pos hOwn
  have hQueued : (if s.receivesDown c then s.queuedDown c sid else []) = s.queuedDown c sid := by
    split
    next => rfl
    next hOver =>
      refine (queuedDown_unreceived hRun ?_ hMine (Bool.eq_false_iff.mpr hOver)).symm
      exact hKept.mono fun s a hNone => (Bool.or_eq_false_iff.mp hNone).1
  have hWay : s.onWayDown c sid = (s.stream c sid).down.arrived ++ (s.stream c sid).down.inTransit := by
    rw [onWayDown, hQueued]
    simp [VirtualStream.down, State.arrived, State.inTransit, stream, Client.spokeEnd, hSt]
    rfl
  refine ⟨?_, fun hOpen => ?_⟩
  · rw [hWay, ← hSt, ← List.append_assoc]
    exact hWhole.all
  · obtain ⟨hArrived, hTransit⟩ := nothing_left hWhole hOpen
    rw [hWay, hArrived, hTransit, List.append_nil]

/-- `firstByte` goes on: the second byte is written, the target answers with one, and the peer
closes. -/
def bothWays : List SystemAct :=
  firstByte ++ [.spoke (.run 0 1 (.write (.ok 1))), .spoke (.run 0 1 .tau),
    .spoke (.env (.peerSend 0 1 [9])), .spoke (.run 0 1 (.read (.ok 1))), .spoke (.run 0 1 .tau),
    .up 0, .hub (.conn 0 .tau), .hub (.down 1 .tau), .hub (.down 1 (.write (.ok 1))),
    .hub (.down 1 .tau), .hub (.env (.peerClose 1)), .hub (.up 1 (.read (.ok 0))), .hub (.up 1 .tau),
    .down 0, .spoke (.run 0 1 .tau), .spoke (.run 0 1 .tau), .hub (.up 1 .tau), .hub (.down 1 .tau)]

theorem bothWays_gets_all : ∃ s, run (step edgePair) init bothWays = some s ∧
    (s.cli.run 0 1).sock.put = [7, 8] ∧ s.onWayDown 0 1 = [] ∧ (s.srv.stream 1).sock.got = [7, 8] := by
  obtain ⟨s, hRun, hEnd⟩ := exists_run_of_any (step edgePair) init bothWays
    (fun s => (s.srv.stream 1).owner = 0 ∧ 1 ≤ s.srv.nextSid ∧ s.cli.mine 0 = true ∧
      (s.cli.run 0 1).pc.open = false ∧ (s.cli.run 0 1).sock.put = [7, 8])
    (by decide +kernel)
  obtain ⟨hOwn, hLe, hMine, hOpen, hPut⟩ := of_decide_eq_true hEnd
  obtain ⟨hAll, hNone⟩ := target_gets_all hRun ⟨hOwn, hLe⟩ hMine (by decide +kernel)
  rw [hNone hOpen, hPut, List.append_nil] at hAll
  exact ⟨s, hRun, hPut, hNone hOpen, hAll.symm⟩

/-- Every byte read from the target is written to the hub-side connection or on its way there, and
its downstream task leaves its loop when nothing is left, unless a step of the run lost some. -/
theorem peer_gets_all {acts : List SystemAct} (hRun : run (step E) init acts = some s)
    (hOwn : (s.srv.stream sid).owner = c ∧ sid ≤ s.srv.nextSid) (hMine : s.cli.mine c = true)
    (hKept : Along (step E) (fun s a => s.losesUp E c sid a = false) init acts) :
    (s.srv.stream sid).sock.put ++ s.onWayUp c sid = (s.cli.run c sid).sock.got ∧
      ((s.srv.stream sid).down.open = false → s.onWayUp c sid = []) := by
  have hWhole : Whole (s.stream c sid).up := (whole_run (fun v hHub hSpoke =>
      (whole_of_blank hHub hSpoke).2)
    (fun v w e hOk hStep => VirtualStream.up_refines hOk.wf hOk.down hStep)
    (fun s a t e hOk hStep hFlag hPc hCause _ hView =>
      not_losesUp hOk hStep hFlag hPc hCause hView)
    (fun s hFlag => (Bool.and_eq_false_imp.mp (Bool.or_eq_false_iff.mp hFlag).2) (by simp)) hRun hKept hMine).1
  have hSt : (s.srv.hubEnd c sid).st = s.srv.stream sid := if_pos hOwn
  have hQueued : (if s.receivesUp c then s.queuedUp c sid else []) = s.queuedUp c sid := by
    split
    next => rfl
    next hOver =>
      refine (queuedUp_unreceived hRun ?_ hMine (Bool.eq_false_iff.mpr hOver)).symm
      exact hKept.mono fun s a hNone => (Bool.or_eq_false_iff.mp hNone).1
  have hWay : s.onWayUp c sid = (s.stream c sid).up.arrived ++ (s.stream c sid).up.inTransit := by
    rw [onWayUp, hQueued]
    simp [VirtualStream.up, State.arrived, State.inTransit, stream, Client.spokeEnd, hSt]
    rfl
  refine ⟨?_, fun hOpen => ?_⟩
  · rw [hWay, ← hSt, ← List.append_assoc]
    exact hWhole.all
  · obtain ⟨hArrived, hTransit⟩ := nothing_left hWhole (by
      change (s.srv.hubEnd c sid).st.down.open = false
      rw [hSt, hOpen])
    rw [hWay, hArrived, hTransit, List.append_nil]

theorem bothWays_answered : ∃ s, run (step edgePair) init bothWays = some s ∧
    (s.srv.stream 1).sock.put = [9] ∧ s.onWayUp 0 1 = [] ∧ (s.cli.run 0 1).sock.got = [9] := by
  obtain ⟨s, hRun, hEnd⟩ := exists_run_of_any (step edgePair) init bothWays
    (fun s => (s.srv.stream 1).owner = 0 ∧ 1 ≤ s.srv.nextSid ∧ s.cli.mine 0 = true ∧
      (s.srv.stream 1).down.open = false ∧ (s.srv.stream 1).sock.put = [9])
    (by decide +kernel)
  obtain ⟨hOwn, hLe, hMine, hOpen, hPut⟩ := of_decide_eq_true hEnd
  obtain ⟨hAll, hNone⟩ := peer_gets_all hRun ⟨hOwn, hLe⟩ hMine (by decide +kernel)
  rw [hNone hOpen, hPut, List.append_nil] at hAll
  exact ⟨s, hRun, hPut, hNone hOpen, hAll.symm⟩

end System

end OpenSpoke.Tunnel
