import OpenSpoke.Tunnel.Stream.Bytes

/-!
# Frames that are still received

A frame stands in a queue of its session until the other end receives it. When the
session is over for that end, what is left in the queue is lost. The steps at which an
end is lost with bytes of a stream still queued, and the steps that queue more of them
afterwards, are listed; without these a queue that nobody receives has none.
-/

namespace OpenSpoke.Tunnel

open Lts Pipe

def MainPc.inSession (c : ConnId) : MainPc → Bool
  | .session d _ => d = c
  | _ => false

/-- `recv_loop` runs or is still to come. -/
def Phase.receiving : Phase → Bool
  | .recvFirst | .lookup | .closeOld _ | .clearOld _ | .reinsert _ | .inc | .bind _ | .recv _ => true
  | _ => false

/-- The upstream task holds bytes that it has read. -/
def UpPc.sending : UpPc → Bool
  | .send _ => true
  | _ => false

/-- `run_stream` holds bytes that it has read. -/
def RunPc.sending : RunPc → Bool
  | .sendData _ => true
  | _ => false

/-- Only the upstream task puts bytes into the outbox of its session. -/
theorem StreamStep.hub_wire {v w : VirtualStream} {e : StreamEv} (hStep : StreamStep v e w) :
    bytes w.hub.wire <:+ bytes v.hub.wire ∨ e = .up .tau ∧ v.hub.st.up.sending = true := by
  cases hStep with
  | hub h h' k e hHub =>
    cases hHub with
    | upSent payload hUp hRx => exact .inr ⟨rfl, by simp [hUp, UpPc.sending]⟩
    | _ => exact .inl (by simp [Item.payload])
  | up h h' k i w hWire hRecv => cases hRecv <;> exact .inl (List.suffix_refl _)
  | down h k k' i w hWire hRecv => exact .inl (by simp [hWire])
  | refuse h k w hWire => exact .inl (by simp [hWire])
  | _ => exact .inl (List.suffix_refl _)

/-- Only `run_stream` puts bytes into the queue to the server. -/
theorem StreamStep.spoke_wire {v w : VirtualStream} {e : StreamEv} (hStep : StreamStep v e w) :
    bytes w.spoke.wire <:+ bytes v.spoke.wire ∨
      e = .run .tau ∧ v.spoke.run.pc.sending = true := by
  cases hStep with
  | spoke h k k' e hSpoke =>
    cases hSpoke with
    | sent payload hPc hTx => exact .inr ⟨rfl, by simp [hPc, RunPc.sending]⟩
    | _ => exact .inl (by simp [Item.payload])
  | up h h' k i w hWire hRecv => exact .inl (by simp [hWire])
  | down h k k' i w hWire hRecv => cases hRecv <;> exact .inl (List.suffix_refl _)
  | _ => exact .inl (List.suffix_refl _)

namespace Server

/-- The connection stops receiving at this step. -/
def hangsUp (E : Env) (s : Server) (c : ConnId) (e : ConnEv) : Bool :=
  (s.phase c).receiving && (s.connStep E c e).any fun t => !(t.phase c).receiving

theorem rx_kept {E : Env} {s t : Server} {a : ServerAct} {c : ConnId} (h : step E s a = some t)
    (hNot : a ≠ .env (.dropRx c)) (hRx : s.rxOpen c = true) : t.rxOpen c = true := by
  cases a with
  | connect nonce issuedAt =>
    cases h
    by_cases hc : c = s.nextConn <;> simp [connect, hc, hRx]
  | conn d e => rw [connMove_rxOpen (connStep_move h), hRx]
  | loop d k e => cases loopStep_move h <;> simpa [loopTo] using hRx
  | up sid e => cases upStep_move h <;> simpa using hRx
  | down sid e => cases downStep_move h <;> simpa using hRx
  | http n e => cases httpStep_move h <;> simpa [taskTo, countTask] using hRx
  | env e =>
    cases envStep_move h with
    | dropRx d =>
      have hd : c ≠ d := by
        rintro rfl
        exact hNot rfl
      simpa [hd] using hRx
    | _ => simpa using hRx

end Server

namespace Client

/-- The dispatch loop of session `c` ends at this step. -/
def leaves (E : ClientEnv) (k : Client) (c : ConnId) (e : MainEv) : Bool :=
  k.main.inSession c && (k.mainStep E e).any fun j => !j.main.inSession c

theorem out_kept {E : ClientEnv} {k j : Client} {a : ClientAct} {c : ConnId}
    (h : k.step E a = some j) (hNot : a ≠ .env (.dropOut c)) (hOpen : k.outOpen c = true) :
    j.outOpen c = true := by
  have hResolve : ∀ (n : Nat) (r : Reply), (k.resolve n r).outOpen = k.outOpen := by
    intro n r
    unfold resolve
    split <;> rfl
  cases a with
  | main e => cases mainStep_move h <;> simp [hResolve, push, hOpen]
  | run d sid e => cases runStep_move h <;> exact hOpen
  | caller n e => cases callerStep_move h <;> exact hOpen
  | env e =>
    cases e with
    | dropOut d =>
      cases h
      have hd : c ≠ d := by
        rintro rfl
        exact hNot rfl
      simpa [hd] using hOpen
    | peerSend d sid b =>
      obtain ⟨sock, -, rfl⟩ := Option.map_eq_some_iff.mp h
      exact hOpen
    | _ => cases h; exact hOpen

theorem receive_outOpen (E : ClientEnv) (k : Client) (c : ConnId) (f : ServerFrame) :
    (k.receive E c f).outOpen = k.outOpen := by
  unfold receive
  split
  · rfl
  · dsimp only
    split <;> rfl
  · split <;> rfl
  · rfl
  · rfl
  · split <;> rfl
  · rfl

end Client

namespace System

/-- What the server sends on session `c` still comes to the dispatch loop. -/
def receivesDown (s : System) (c : ConnId) : Bool := s.srv.rxOpen c && s.cli.main.inSession c

/-- What the client sends on session `c` still comes to `recv_loop`. -/
def receivesUp (s : System) (c : ConnId) : Bool := s.cli.outOpen c && (s.srv.phase c).receiving

def queuedDown (s : System) (c : ConnId) (sid : Nat) : Bytes :=
  bytes ((s.srv.outbox c).filterMap (ServerFrame.item sid))

def queuedUp (s : System) (c : ConnId) (sid : Nat) : Bytes :=
  bytes ((s.cli.out c).filterMap (ClientFrame.item sid))

/-- The step loses bytes for the target that are queued in session `c`. -/
def strandsDown (E : SystemEnv) (c : ConnId) (sid : Nat) (s : System) : SystemAct → Bool
  | .hub (.up sid' .tau) => sid' = sid && !s.receivesDown c && (s.srv.stream sid).up.sending
  | .hub (.env (.dropRx d)) => d = c && s.queuedDown c sid ≠ []
  | .spoke (.main e) => s.cli.leaves E.cli c e && s.queuedDown c sid ≠ []
  | _ => false

/-- The step loses bytes of the target that are queued in session `c`. -/
def strandsUp (E : SystemEnv) (c : ConnId) (sid : Nat) (s : System) : SystemAct → Bool
  | .spoke (.run d sid' .tau) =>
    d = c && sid' = sid && !s.receivesUp c && (s.cli.run c sid).pc.sending
  | .spoke (.env (.dropOut d)) => d = c && s.queuedUp c sid ≠ []
  | .hub (.conn d e) => d = c && s.srv.hangsUp E.srv c e && s.queuedUp c sid ≠ []
  | .up d => d = c && (s.cli.out c).head?.any (fun f => s.srv.hangsUp E.srv c (.frame (some (.ok f)))) &&
      s.queuedUp c sid ≠ []
  | _ => false

variable {E : SystemEnv} {s t : System} {c : ConnId} {sid : Nat} {a : SystemAct}

theorem receivesDown_lost (h : step E s a = some t) (hBefore : s.receivesDown c = true)
    (hAfter : t.receivesDown c = false) :
    a = .hub (.env (.dropRx c)) ∨ ∃ e, a = .spoke (.main e) ∧ s.cli.leaves E.cli c e = true := by
  obtain ⟨hRx, hMain⟩ := Bool.and_eq_true_iff.mp hBefore
  have hHub : ∀ {b : ServerAct}, s.srv.step E.srv b = some t.srv →
      t.cli.main.inSession c = true → b = .env (.dropRx c) := by
    intro b hSrv hSame
    by_contra hNot
    simp [receivesDown, hSame, Server.rx_kept hSrv hNot hRx] at hAfter
  cases a with
  | hub b =>
    simp only [step, Option.ite_none_right_eq_some, Option.map_eq_some_iff] at h
    obtain ⟨-, u, hSrv, rfl⟩ := h
    exact .inl (by rw [hHub hSrv hMain])
  | spoke b =>
    obtain ⟨k, hCli, rfl⟩ := Option.map_eq_some_iff.mp h
    have hLeft : k.main.inSession c = false := by simpa [receivesDown, hRx] using hAfter
    by_cases hb : ∃ e, b = .main e
    · obtain ⟨e, rfl⟩ := hb
      have hStep : s.cli.mainStep E.cli e = some k := hCli
      exact .inr ⟨e, rfl, by simp [Client.leaves, hMain, hStep, hLeft]⟩
    · have hSame := (@Client.step_report _ _ _ 0 0 _ hCli fun e he => hb ⟨e, he⟩).1
      rw [hSame, hMain] at hLeft
      cases hLeft
  | connect nonce issuedAt =>
    simp only [step, Option.ite_none_right_eq_some] at h
    simp [h.1, MainPc.inSession] at hMain
  | up d =>
    simp only [step] at h
    split at h
    next f rest hOut =>
      simp only [Option.ite_none_right_eq_some, Option.map_eq_some_iff] at h
      obtain ⟨-, u, hSrv, rfl⟩ := h
      cases hHub hSrv hMain
    next => cases h
  | down d =>
    simp only [step] at h
    split at h
    next f rest hOut =>
      simp only [Option.ite_none_right_eq_some, Option.map_eq_some_iff] at h
      obtain ⟨hAt, u, hSrv, rfl⟩ := h
      obtain ⟨pc, hSession, -⟩ := Client.receive_session (E := E.cli) hAt f
      have hStays : (s.cli.receive E.cli d f).main.inSession c = true := by
        rw [hSession]
        rwa [hAt] at hMain
      cases hHub hSrv hStays
    next => cases h

theorem receivesUp_lost (h : step E s a = some t) (hBefore : s.receivesUp c = true)
    (hAfter : t.receivesUp c = false) :
    a = .spoke (.env (.dropOut c)) ∨
      (∃ e, a = .hub (.conn c e) ∧ s.srv.hangsUp E.srv c e = true) ∨
      a = .up c ∧ (s.cli.out c).head?.any
        (fun f => s.srv.hangsUp E.srv c (.frame (some (.ok f)))) = true := by
  obtain ⟨hOut, hPhase⟩ := Bool.and_eq_true_iff.mp hBefore
  have hHub : ∀ {b : ServerAct}, s.srv.step E.srv b = some t.srv → t.cli.outOpen c = true →
      ∃ e, b = .conn c e ∧ s.srv.hangsUp E.srv c e = true := by
    intro b hSrv hOpen
    have hGone : (t.srv.phase c).receiving = false := by simpa [receivesUp, hOpen] using hAfter
    rcases Server.step_phase hSrv c with ⟨e, rfl, -⟩ | ⟨-, -, hSame | ⟨-, hSame⟩⟩
    · have hStep : s.srv.connStep E.srv c e = some t.srv := hSrv
      exact ⟨e, rfl, by simp [Server.hangsUp, hPhase, hStep, hGone]⟩
    · rw [hSame, hPhase] at hGone
      cases hGone
    · simp [hSame, Phase.receiving] at hGone
  cases a with
  | hub b =>
    simp only [step, Option.ite_none_right_eq_some, Option.map_eq_some_iff] at h
    obtain ⟨-, u, hSrv, rfl⟩ := h
    obtain ⟨e, rfl, hHangs⟩ := hHub hSrv hOut
    exact .inr (.inl ⟨e, rfl, hHangs⟩)
  | spoke b =>
    obtain ⟨k, hCli, rfl⟩ := Option.map_eq_some_iff.mp h
    by_contra hNot
    have hb : b ≠ .env (.dropOut c) := by
      rintro rfl
      exact hNot (.inl rfl)
    simp [receivesUp, Client.out_kept hCli hb hOut, hPhase] at hAfter
  | connect nonce issuedAt =>
    simp only [step, Option.ite_none_right_eq_some, Option.map_eq_some_iff] at h
    obtain ⟨-, u, hSrv, rfl⟩ := h
    have hOpen : (s.cli.connected s.srv.nextConn).outOpen c = true := by
      by_cases hc : c = s.srv.nextConn <;> simp [Client.connected, hc, hOut]
    obtain ⟨e, hEq, -⟩ := hHub hSrv hOpen
    cases hEq
  | up d =>
    simp only [step] at h
    split at h
    next f rest hQueue =>
      simp only [Option.ite_none_right_eq_some, Option.map_eq_some_iff] at h
      obtain ⟨-, u, hSrv, rfl⟩ := h
      obtain ⟨e, hEq, hHangs⟩ := hHub hSrv hOut
      cases hEq
      exact .inr (.inr ⟨rfl, by simpa [hQueue] using hHangs⟩)
    next => cases h
  | down d =>
    simp only [step] at h
    split at h
    next f rest hQueue =>
      simp only [Option.ite_none_right_eq_some, Option.map_eq_some_iff] at h
      obtain ⟨-, u, hSrv, rfl⟩ := h
      obtain ⟨e, hEq, -⟩ := hHub hSrv (by rw [Client.receive_outOpen]; exact hOut)
      cases hEq
    next => cases h

variable (sid) in
theorem queuedDown_step (hOk : StreamsOk s) (hMine : s.cli.mine c = true) (h : step E s a = some t) :
    t.queuedDown c sid <:+ s.queuedDown c sid ∨
      a = .hub (.up sid .tau) ∧ (s.srv.stream sid).up.sending = true := by
  rcases streamView_step sid hOk hMine h with hSame | ⟨e, hCause, hView⟩
  · have hQueued : t.queuedDown c sid = s.queuedDown c sid :=
      congrArg (fun v : VirtualStream => bytes v.hub.wire) hSame
    exact .inl (hQueued ▸ List.suffix_refl _)
  rcases hView.hub_wire with hLess | ⟨rfl, hSending⟩
  · exact .inl hLess
  refine .inr ?_
  have hBorn : (s.stream c sid).hub.st = s.srv.stream sid := by
    simp only [stream, Server.hubEnd] at hSending ⊢
    split
    · rfl
    next hNot => simp [hNot, UpPc.sending] at hSending
  rw [hBorn] at hSending
  cases a with
  | hub b =>
    cases b with
    | env e => cases e <;> simp_all [StreamCause, Server.EnvCause]
    | _ => simp_all [StreamCause, Server.ConnCause, Server.LoopCause]
  | spoke b =>
    cases b with
    | env e => cases e <;> simp_all [StreamCause, Client.ClientCause, Client.SpokeCause]
    | _ => simp_all [StreamCause, Client.ClientCause]
  | _ => simp_all [StreamCause]

variable (sid) in
theorem queuedUp_step (hOk : StreamsOk s) (hMine : s.cli.mine c = true) (h : step E s a = some t) :
    t.queuedUp c sid <:+ s.queuedUp c sid ∨
      a = .spoke (.run c sid .tau) ∧ (s.cli.run c sid).pc.sending = true := by
  rcases streamView_step sid hOk hMine h with hSame | ⟨e, hCause, hView⟩
  · have hQueued : t.queuedUp c sid = s.queuedUp c sid :=
      congrArg (fun v : VirtualStream => bytes v.spoke.wire) hSame
    exact .inl (hQueued ▸ List.suffix_refl _)
  rcases hView.spoke_wire with hLess | ⟨rfl, hSending⟩
  · exact .inl hLess
  refine .inr ⟨?_, hSending⟩
  cases a with
  | hub b =>
    cases b with
    | env e => cases e <;> simp_all [StreamCause, Server.EnvCause]
    | _ => simp_all [StreamCause, Server.ConnCause, Server.LoopCause]
  | spoke b =>
    cases b with
    | env e => cases e <;> simp_all [StreamCause, Client.ClientCause, Client.SpokeCause]
    | _ => simp_all [StreamCause, Client.ClientCause]
  | _ => simp_all [StreamCause]

/-! ## Runs without these steps -/

/-- A queue that begins empty and gets nothing while nobody receives it. -/
theorem unreceived_run {live : System → Bool} {queue : System → Bytes}
    {flag : System → SystemAct → Bool}
    (hNew : ∀ s : System, (s.stream c sid).hub.Blank → (s.stream c sid).spoke.Blank → queue s = [])
    (hStep : ∀ s a t, StreamsOk s → s.cli.mine c = true → step E s a = some t →
      flag s a = false → (live s = false → queue s = []) → live t = false → queue t = [])
    {acts : List SystemAct} (hRun : run (step E) init acts = some s)
    (hKept : Along (step E) (fun s a => flag s a = false) init acts) (hMine : s.cli.mine c = true)
    (hOver : live s = false) : queue s = [] := by
  refine run_induction (motive := fun acts s => Along (step E) (fun s a => flag s a = false) init acts →
    s.cli.mine c = true → live s = false → queue s = []) hRun ?_ ?_ hKept hMine hOver
  · intro _ hMine
    simp [init, Client.init] at hMine
  · intro acts s a t hBefore ih hNext hKept hMine hOver
    obtain ⟨hKept, hHere⟩ := (along_snoc _ _ a hBefore).mp hKept
    have hOk := streamsOk_run hBefore
    by_cases hOld : s.cli.mine c = true
    · exact hStep s a t hOk hOld hNext hHere (ih hKept hOld) hOver
    · obtain ⟨hHub, hSpoke⟩ := blank_of_new hOk hNext hOld hMine
      exact hNew t hHub hSpoke

theorem queuedDown_unreceived {acts : List SystemAct} (hRun : run (step E) init acts = some s)
    (hKept : Along (step E) (fun s a => s.strandsDown E c sid a = false) init acts)
    (hMine : s.cli.mine c = true) (hOver : s.receivesDown c = false) : s.queuedDown c sid = [] := by
  refine @unreceived_run E s c sid (fun s => s.receivesDown c) (fun s => s.queuedDown c sid) _ ?_ ?_
    acts hRun hKept hMine hOver
  · intro s hHub _
    exact congrArg bytes hHub.wire
  · intro s a t hOk hOld hNext hFlag hBefore hAfter
    rcases queuedDown_step sid hOk hOld hNext with hLess | ⟨rfl, hSending⟩
    · refine List.suffix_nil.mp (hLess.trans ?_)
      rw [List.suffix_nil]
      by_cases hLive : s.receivesDown c = true
      · rcases receivesDown_lost hNext hLive hAfter with rfl | ⟨e, rfl, hLeaves⟩
        · simpa [strandsDown] using hFlag
        · simpa [strandsDown, hLeaves] using hFlag
      · exact hBefore (Bool.eq_false_iff.mpr hLive)
    · have hLive : s.receivesDown c = true := by simpa [strandsDown, hSending] using hFlag
      rcases receivesDown_lost hNext hLive hAfter with hEq | ⟨e, hEq, -⟩ <;> cases hEq

theorem queuedUp_unreceived {acts : List SystemAct} (hRun : run (step E) init acts = some s)
    (hKept : Along (step E) (fun s a => s.strandsUp E c sid a = false) init acts)
    (hMine : s.cli.mine c = true) (hOver : s.receivesUp c = false) : s.queuedUp c sid = [] := by
  refine @unreceived_run E s c sid (fun s => s.receivesUp c) (fun s => s.queuedUp c sid) _ ?_ ?_
    acts hRun hKept hMine hOver
  · intro s _ hSpoke
    exact congrArg bytes hSpoke.wire
  · intro s a t hOk hOld hNext hFlag hBefore hAfter
    rcases queuedUp_step sid hOk hOld hNext with hLess | ⟨rfl, hSending⟩
    · refine List.suffix_nil.mp (hLess.trans ?_)
      rw [List.suffix_nil]
      by_cases hLive : s.receivesUp c = true
      · rcases receivesUp_lost hNext hLive hAfter with rfl | ⟨e, rfl, hHangs⟩ | ⟨rfl, hHangs⟩
        · simpa [strandsUp] using hFlag
        · simpa [strandsUp, hHangs] using hFlag
        · simpa [strandsUp, hHangs] using hFlag
      · exact hBefore (Bool.eq_false_iff.mpr hLive)
    · have hLive : s.receivesUp c = true := by simpa [strandsUp, hSending] using hFlag
      rcases receivesUp_lost hNext hLive hAfter with hEq | ⟨e, hEq, -⟩ | ⟨hEq, -⟩ <;> cases hEq

end System

end OpenSpoke.Tunnel
