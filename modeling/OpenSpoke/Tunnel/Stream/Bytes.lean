import OpenSpoke.Tunnel.Stream.Directions
import OpenSpoke.Tunnel.Stream.HubConn
import OpenSpoke.Tunnel.Stream.SpokeSide

/-!
# The bytes of virtual streams

A virtual stream as the tunnel has it. Each step of the tunnel is a step of the
stream or leaves it alone, so what comes out at one end is a prefix of what went
in at the other.
-/

namespace OpenSpoke.Tunnel.System

open Lts

variable {E : SystemEnv} {s t : System} {c : ConnId} {sid : Nat}

/-- Stream `sid` of session `c`. -/
noncomputable def stream (s : System) (c : ConnId) (sid : Nat) : VirtualStream :=
  ⟨s.srv.hubEnd c sid, s.cli.spokeEnd c sid⟩

/-- What a step of the tunnel can be for a stream. -/
def StreamCause (s : System) (c : ConnId) (sid : Nat) : SystemAct → StreamEv → Prop
  | .hub (.conn d _), b => s.srv.ConnCause d c b
  | .hub (.loop d k _), b => s.srv.LoopCause d k b
  | .hub (.up sid' e), b => sid' = sid ∧ b = .up e
  | .hub (.down sid' e), b => sid' = sid ∧ b = .down e
  | .hub (.env e), b => Server.EnvCause c sid e b
  | .spoke a, b => s.cli.ClientCause c sid a b
  | .up d, b => d = c ∧ b = .upFrame
  | .down d, b => d = c ∧ (b = .downFrame ∨ b = .refuse)
  | _, _ => False

structure StreamsOk (s : System) : Prop where
  known : Known s
  hubs : s.srv.HubsOk
  spokes : s.cli.SpokesOk
  ok : ∀ c sid, s.cli.mine c = true → (s.stream c sid).Ok

/-- What a step of the tunnel means for one stream. -/
def StreamView (s : System) (c : ConnId) (sid : Nat) (a : SystemAct) (t : System) : Prop :=
  t.stream c sid = s.stream c sid ∨
    ∃ e, s.StreamCause c sid a e ∧ StreamStep (s.stream c sid) e (t.stream c sid)

theorem streamView_of_hub {a : SystemAct} {cause : StreamEv → Prop}
    (h : s.srv.HubView c sid t.srv cause) (hCli : t.cli = s.cli)
    (hCause : ∀ e, cause e → s.StreamCause c sid a e) : StreamView s c sid a t := by
  rcases h with hSame | ⟨e, he, hStep⟩
  · exact .inl (by rw [stream, stream, hSame, hCli])
  · refine .inr ⟨e, hCause e he, ?_⟩
    rw [stream, stream, hCli]
    exact .hub _ _ _ e hStep

theorem streamView_server {a : ServerAct} (hOk : StreamsOk s) (hMine : s.cli.mine c = true)
    (hFree : s.free a = true) (h : s.srv.step E.srv a = some t.srv) (hCli : t.cli = s.cli) :
    StreamView s c sid (.hub a) t := by
  cases a with
  | connect nonce issuedAt =>
    have hc : c ≠ s.srv.nextConn := (hOk.known.mine c hMine).ne
    refine .inl ?_
    rw [stream, stream, ← Option.some.inj h, Server.hubEnd_connect hc, hCli]
  | conn d e =>
    have hMove := Server.connStep_move h
    by_cases hFrame : ∃ f, e = .frame (some (.ok f))
    · obtain ⟨f, rfl⟩ := hFrame
      have hd : d ≠ c := by
        rintro rfl
        simp [free, hMine] at hFree
      rcases Server.hub_frame sid hOk.hubs hMove with ⟨i, hEq, -⟩ | ⟨hSame, -⟩
      · exact absurd hEq hd
      · exact .inl (by rw [stream, stream, hSame, hCli])
    · exact streamView_of_hub
        (Server.hubView_connMove hOk.hubs hMove fun f hf => hFrame ⟨f, hf⟩) hCli fun _ h => h
  | loop d k e =>
    have hIds' := (Server.hubsOk_step hOk.hubs h).ids
    exact streamView_of_hub (Server.hubView_loopMove hOk.hubs.ids hIds' (Server.loopStep_move h)) hCli
      fun _ h => h
  | up sid' e =>
    exact streamView_of_hub (Server.hubView_upMove hOk.hubs.ids (Server.upStep_move h)) hCli
      fun _ h => h
  | down sid' e =>
    exact streamView_of_hub (Server.hubView_downMove hOk.hubs.ids (Server.downStep_move h)) hCli
      fun _ h => h
  | http n e =>
    exact .inl (by rw [stream, stream, Server.hubEnd_httpMove (Server.httpStep_move h), hCli])
  | env e =>
    refine streamView_of_hub (Server.hubView_envMove sid (Server.envStep_move h) ?_) hCli fun _ h => h
    rintro rfl
    simp [free, hMine] at hFree

theorem streamView_up {f : ClientFrame} {rest : List ClientFrame} {d : ConnId} {u : Server}
    (hOk : StreamsOk s) (hMine : s.cli.mine c = true) (hOut : s.cli.out d = f :: rest)
    (h : s.srv.step E.srv (.conn d (.frame (some (.ok f)))) = some u) :
    StreamView s c sid (.up d) ⟨u, s.cli.setOut d rest⟩ := by
  have hSpoke : d ≠ c → (s.cli.setOut d rest).spokeEnd c sid = s.cli.spokeEnd c sid := fun hd =>
    Client.spokeEnd_congr rfl Iff.rfl rfl (by simp [Ne.symm hd]) rfl
  have hTake : d = c → s.cli.spokeEnd c sid = { (s.cli.setOut d rest).spokeEnd c sid with
      wire := (f.item sid).toList ++ ((s.cli.setOut d rest).spokeEnd c sid).wire } := by
    rintro rfl
    ext : 1
    case wire => cases hItem : f.item sid <;> simp [Client.spokeEnd, hOut, hItem]
    all_goals simp [Client.spokeEnd]
  rcases Server.hub_frame (c := c) sid hOk.hubs (Server.connStep_move h) with
    ⟨i, rfl, hItem, hRecv⟩ | ⟨hSame, hNone⟩
  · refine .inr ⟨.upFrame, ⟨rfl, rfl⟩, ?_⟩
    rw [stream, hTake rfl]
    exact .up _ _ _ i _ (by rw [hItem]; rfl) hRecv
  · refine .inl ?_
    by_cases hd : d = c
    · subst hd
      have hItem : f.item sid = none := by
        rcases hNone rfl with hItem | hUp
        · exact hItem
        · -- no stream has this id, so the client has sent nothing for it
          have hWf := (hOk.ok d sid hMine).wf
          have hWire := (hWf.absent (hWf.fresh (by simp [HubEnd.fresh, stream, hUp])).1).2.2.2.2.2
          rw [stream, hTake rfl] at hWire
          exact Option.toList_eq_nil_iff.mp (List.append_eq_nil_iff.mp hWire).1
      rw [stream, stream, hSame, hTake rfl, hItem]
      rfl
    · rw [stream, stream, hSame, hSpoke hd]

theorem streamView_down {f : ServerFrame} {rest : List ServerFrame} {d : ConnId} {u : Server}
    (hMain : s.cli.main = .session d .next) (hOut : s.srv.outbox d = f :: rest)
    (h : s.srv.step E.srv (.env (.deliver d)) = some u) :
    StreamView s c sid (.down d) ⟨u, s.cli.receive E.cli d f⟩ := by
  have hu : u = s.srv.setOutbox d rest := by
    simp only [Server.step, Server.envStep, hOut, Option.some.injEq] at h
    exact h.symm
  by_cases hd : d = c
  · subst hd
    have hTake := Server.hubEnd_deliver sid hOut
    rcases Client.spoke_receive hMain f with ⟨i, -, hItem, hRecv⟩ | ⟨hSame, hNone⟩
    · rw [hItem] at hTake
      rcases hRecv with hRecv | ⟨rfl, hRefused⟩
      · refine .inr ⟨.downFrame, ⟨rfl, .inl rfl⟩, ?_⟩
        rw [stream, stream, hu, hTake]
        exact .down _ _ _ i _ rfl hRecv
      · refine .inr ⟨.refuse, ⟨rfl, .inr rfl⟩, ?_⟩
        rw [stream, stream, hu, hRefused, hTake]
        exact .refuse _ _ _ rfl
    · rw [hNone rfl] at hTake
      exact .inl (by rw [stream, stream, hu, hSame, hTake]; rfl)
  · have hHub : u.hubEnd c sid = s.srv.hubEnd c sid := by
      have hMove : Server.EnvMove s.srv (.deliver d) u := Server.envStep_move h
      rcases Server.hubView_envMove sid hMove (by simpa using hd) with hSame | ⟨e, hCause, -⟩
      · exact hSame
      · cases hCause
    rcases Client.spoke_receive hMain f with ⟨i, hEq, -⟩ | ⟨hSame, -⟩
    · exact absurd hEq hd
    · exact .inl (by rw [stream, stream, hHub, hSame])

variable (sid) in
/-- A step of the tunnel is a step of a stream, or the stream does not see it. -/
theorem streamView_step {a : SystemAct} (hOk : StreamsOk s) (hMine : s.cli.mine c = true)
    (h : step E s a = some t) : StreamView s c sid a t := by
  cases a with
  | hub a =>
    simp only [step, Option.ite_none_right_eq_some, Option.map_eq_some_iff] at h
    obtain ⟨hFree, u, hSrv, rfl⟩ := h
    exact streamView_server hOk hMine hFree hSrv rfl
  | spoke a =>
    obtain ⟨k, hCli, rfl⟩ := Option.map_eq_some_iff.mp h
    rcases Client.spokeView_step hOk.spokes hCli with hSame | ⟨e, hCause, hStep⟩
    · exact .inl (by rw [stream, stream, hSame])
    · exact .inr ⟨e, hCause, .spoke _ _ _ e hStep⟩
  | connect nonce issuedAt =>
    simp only [step, Option.ite_none_right_eq_some, Option.map_eq_some_iff] at h
    obtain ⟨hMain, u, hSrv, rfl⟩ := h
    have hc : c ≠ s.srv.nextConn := (hOk.known.mine c hMine).ne
    refine .inl ?_
    rw [stream, stream, ← Option.some.inj hSrv, Server.hubEnd_connect hc,
      Client.spokeEnd_connected hMain, if_neg hc]
  | up d =>
    simp only [step] at h
    split at h
    next f rest hOut =>
      simp only [Option.ite_none_right_eq_some, Option.map_eq_some_iff] at h
      obtain ⟨-, u, hSrv, rfl⟩ := h
      exact streamView_up hOk hMine hOut hSrv
    next => cases h
  | down d =>
    simp only [step] at h
    split at h
    next f rest hOut =>
      simp only [Option.ite_none_right_eq_some, Option.map_eq_some_iff] at h
      obtain ⟨hMain, u, hSrv, rfl⟩ := h
      exact streamView_down hMain hOut hSrv
    next => cases h

/-! ## Every stream of every session -/

theorem ok_of_blank {v : VirtualStream} (hHub : v.hub.Blank) (hSpoke : v.spoke.Blank) : v.Ok := by
  obtain ⟨⟨hUp, hDown, hQueue, hPut, hGot⟩, hReg, hAnn, hEntry, hSlot, hWire⟩ := hHub
  obtain ⟨hPc, hPut', hGot', hQueue', hEntry', hSlot', hWire'⟩ := hSpoke
  have hFresh : v.hub.fresh = true := by simp [HubEnd.fresh, hUp]
  refine ⟨?_, ?_, ?_⟩
  · constructor <;> simp [hUp, hDown, hQueue, hPut, hAnn, hSlot, hWire, hPc, hPut', hGot', hQueue',
      hEntry', hSlot', hWire']
  · constructor <;> simp [VirtualStream.down, Pipe.State.line, Pipe.State.arrived,
      Pipe.State.inTransit, hUp, UpPc.src, hGot, hWire, hPc, hPut', hQueue', hEntry', hSlot',
      RunPc.open, RunPc.rest]
  · constructor <;> simp [VirtualStream.up, Pipe.State.line, Pipe.State.arrived,
      Pipe.State.inTransit, hFresh, hDown, hQueue, hPut, hEntry, hSlot, hPc, hGot', hWire', RunPc.src,
      DownPc.open, DownPc.rest]

theorem streamsOk_init : StreamsOk init where
  known := known_init
  hubs := Server.hubsOk_init
  spokes := Client.spokesOk_init
  ok c sid hMine := by simp [init, Client.init] at hMine

theorem hubsOk_step {a : SystemAct} (hOk : StreamsOk s) (h : step E s a = some t) : t.srv.HubsOk := by
  cases a with
  | hub a =>
    simp only [step, Option.ite_none_right_eq_some, Option.map_eq_some_iff] at h
    obtain ⟨-, u, hSrv, rfl⟩ := h
    exact Server.hubsOk_step hOk.hubs hSrv
  | spoke a =>
    obtain ⟨k, -, rfl⟩ := Option.map_eq_some_iff.mp h
    exact hOk.hubs
  | connect nonce issuedAt =>
    simp only [step, Option.ite_none_right_eq_some, Option.map_eq_some_iff] at h
    obtain ⟨-, u, hSrv, rfl⟩ := h
    exact Server.hubsOk_step hOk.hubs hSrv
  | up d | down d =>
    simp only [step] at h
    split at h
    next =>
      simp only [Option.ite_none_right_eq_some, Option.map_eq_some_iff] at h
      obtain ⟨-, u, hSrv, rfl⟩ := h
      exact Server.hubsOk_step hOk.hubs hSrv
    next => cases h

theorem spokesOk_step {a : SystemAct} (hOk : StreamsOk s) (h : step E s a = some t) :
    t.cli.SpokesOk := by
  cases a with
  | hub a =>
    simp only [step, Option.ite_none_right_eq_some, Option.map_eq_some_iff] at h
    obtain ⟨-, u, -, rfl⟩ := h
    exact hOk.spokes
  | spoke a =>
    obtain ⟨k, hCli, rfl⟩ := Option.map_eq_some_iff.mp h
    exact Client.spokesOk_step hOk.spokes hCli
  | connect nonce issuedAt =>
    simp only [step, Option.ite_none_right_eq_some, Option.map_eq_some_iff] at h
    obtain ⟨hMain, u, -, rfl⟩ := h
    exact Client.spokesOk_connected hOk.spokes hMain
  | up d =>
    simp only [step] at h
    split at h
    next f rest hOut =>
      simp only [Option.ite_none_right_eq_some, Option.map_eq_some_iff] at h
      obtain ⟨hMine, u, -, rfl⟩ := h
      refine ⟨hOk.spokes.mine, hOk.spokes.report, fun c sid hc => ?_⟩
      have hd : c ≠ d := fun hd => by
        rw [hd] at hc
        simp [hMine] at hc
      have hSame : (s.cli.setOut d rest).spokeEnd c sid = s.cli.spokeEnd c sid :=
        Client.spokeEnd_congr rfl Iff.rfl rfl (by simp [hd]) rfl
      rw [hSame]
      exact hOk.spokes.foreign c sid hc
    next => cases h
  | down d =>
    simp only [step] at h
    split at h
    next f rest hOut =>
      simp only [Option.ite_none_right_eq_some, Option.map_eq_some_iff] at h
      obtain ⟨hMain, u, -, rfl⟩ := h
      exact Client.spokesOk_receive hOk.spokes hMain f
    next => cases h

theorem mine_step {a : SystemAct} (h : step E s a = some t) (hMine : t.cli.mine c = true) :
    s.cli.mine c = true ∨ c = s.srv.nextConn ∧ s.cli.main = .idle ∧
      ∃ nonce issuedAt, t = ⟨s.srv.connect nonce issuedAt, s.cli.connected c⟩ := by
  cases a with
  | hub a =>
    simp only [step, Option.ite_none_right_eq_some, Option.map_eq_some_iff] at h
    obtain ⟨-, u, -, rfl⟩ := h
    exact .inl hMine
  | spoke a =>
    obtain ⟨k, hCli, rfl⟩ := Option.map_eq_some_iff.mp h
    exact .inl (clientStep_mine hCli ▸ hMine)
  | connect nonce issuedAt =>
    simp only [step, Option.ite_none_right_eq_some, Option.map_eq_some_iff] at h
    obtain ⟨hMain, u, hSrv, rfl⟩ := h
    by_cases hc : c = s.srv.nextConn
    · exact .inr ⟨hc, hMain, nonce, issuedAt, by rw [← Option.some.inj hSrv, hc]⟩
    · exact .inl (by simpa [Client.connected, hc] using hMine)
  | up d =>
    simp only [step] at h
    split at h
    next f rest hOut =>
      simp only [Option.ite_none_right_eq_some, Option.map_eq_some_iff] at h
      obtain ⟨-, u, -, rfl⟩ := h
      exact .inl hMine
    next => cases h
  | down d =>
    simp only [step] at h
    split at h
    next f rest hOut =>
      simp only [Option.ite_none_right_eq_some, Option.map_eq_some_iff] at h
      obtain ⟨-, u, -, rfl⟩ := h
      exact .inl (receive_mine _ _ _ _ ▸ hMine)
    next => cases h

theorem blank_of_new {a : SystemAct} (hOk : StreamsOk s) (h : step E s a = some t)
    (hNew : s.cli.mine c ≠ true) (hMine : t.cli.mine c = true) :
    (t.stream c sid).hub.Blank ∧ (t.stream c sid).spoke.Blank := by
  obtain ⟨rfl, hMain, nonce, issuedAt, rfl⟩ := (mine_step h hMine).resolve_left hNew
  refine ⟨Server.blank_connect hOk.hubs, ?_⟩
  have hBlank := hOk.spokes.foreign s.srv.nextConn sid (Bool.eq_false_iff.mpr hNew)
  have hEnd : (s.cli.connected s.srv.nextConn).spokeEnd s.srv.nextConn sid =
      { s.cli.spokeEnd s.srv.nextConn sid with tx := true } := by
    rw [Client.spokeEnd_connected hMain, if_pos rfl]
  change ((s.cli.connected s.srv.nextConn).spokeEnd s.srv.nextConn sid).Blank
  rw [hEnd]
  exact ⟨hBlank.pc, hBlank.put, hBlank.got, hBlank.queue, hBlank.entry, hBlank.slot, hBlank.wire⟩

theorem streamsOk_step {a : SystemAct} (hOk : StreamsOk s) (h : step E s a = some t) :
    StreamsOk t := by
  refine ⟨known_step hOk.known h, hubsOk_step hOk h, spokesOk_step hOk h, fun c sid hMine => ?_⟩
  by_cases hOld : s.cli.mine c = true
  · rcases streamView_step sid hOk hOld h with hSame | ⟨e, -, hStep⟩
    · rw [hSame]
      exact hOk.ok c sid hOld
    · exact (hOk.ok c sid hOld).step hStep
  · obtain ⟨hHub, hSpoke⟩ := blank_of_new hOk h hOld hMine
    exact ok_of_blank hHub hSpoke

theorem streamsOk_run {acts : List SystemAct} (hRun : run (step E) init acts = some s) :
    StreamsOk s :=
  run_induction (motive := fun _ s => StreamsOk s) hRun streamsOk_init
    fun _ _ _ _ _ hOk h => streamsOk_step hOk h

/-- What a target is written was read from the connection that was given the stream id,
by the session of the target, and what such a connection is written from the target: in
order, with nothing twice, between or from elsewhere. -/
theorem bytes_in_order {acts : List SystemAct} (hRun : run (step E) init acts = some s) :
    (∀ c sid, (s.cli.run c sid).sock.put <+:
      if (s.srv.stream sid).owner = c ∧ sid ≤ s.srv.nextSid then (s.srv.stream sid).sock.got
      else []) ∧
    ∀ sid ≤ s.srv.nextSid, s.cli.mine (s.srv.stream sid).owner = true →
      (s.srv.stream sid).sock.put <+: (s.cli.run (s.srv.stream sid).owner sid).sock.got := by
  have hOk := streamsOk_run hRun
  refine ⟨fun c sid => ?_, fun sid hLe hMine => ?_⟩
  · cases hMine : s.cli.mine c with
    | true =>
      have hDown : (s.cli.run c sid).sock.put <+: (s.srv.hubEnd c sid).st.sock.got :=
        (hOk.ok c sid hMine).down.put_prefix
      by_cases hOwn : (s.srv.stream sid).owner = c ∧ sid ≤ s.srv.nextSid
      · have hSt : (s.srv.hubEnd c sid).st = s.srv.stream sid := if_pos hOwn
        rwa [if_pos hOwn, ← hSt]
      · have hSt : (s.srv.hubEnd c sid).st = ⟨c, .fresh, .absent, .absent, []⟩ := if_neg hOwn
        rw [hSt] at hDown
        rwa [if_neg hOwn]
    | false =>
      have hNone : (s.cli.run c sid).sock.put = [] := (hOk.spokes.foreign c sid hMine).put
      rw [hNone]
      exact List.nil_prefix
  · have hUp : (s.srv.hubEnd (s.srv.stream sid).owner sid).st.sock.put <+:
        (s.cli.run (s.srv.stream sid).owner sid).sock.got :=
      (hOk.ok _ sid hMine).up.put_prefix
    have hSt : (s.srv.hubEnd (s.srv.stream sid).owner sid).st = s.srv.stream sid :=
      if_pos ⟨rfl, hLe⟩
    rwa [hSt] at hUp

def edgePair : SystemEnv :=
  ⟨Server.edgeEnv, ⟨⟨"edge", "secret", (∅ : AList _).insert "default" "127.0.0.1:80"⟩, "tc", id, 0⟩⟩

/-- A connection is opened through the tunnel, and the first of two bytes is written. -/
def firstByte : List SystemAct :=
  [.connect [] 0, .spoke (.main .tau), .down 0, .spoke (.main .tau), .up 0, .hub (.conn 0 .tau),
    .hub (.conn 0 .tau), .hub (.conn 0 (.bind (.ok ()))), .hub (.conn 0 .tau),
    .hub (.loop 0 0 .tau), .hub (.loop 0 0 (.accept (.ok ()))), .hub (.loop 0 0 .tau),
    .hub (.loop 0 0 .tau), .hub (.loop 0 0 .tau), .hub (.loop 0 0 .tau), .hub (.loop 0 0 .tau),
    .down 0, .spoke (.run 0 1 (.dialed (.ok ()))), .hub (.env (.peerSend 1 [7, 8])),
    .hub (.up 1 (.read (.ok 2))), .hub (.up 1 .tau), .down 0, .spoke (.main .tau),
    .spoke (.run 0 1 .tau), .spoke (.run 0 1 (.write (.ok 1)))]

theorem firstByte_in_order : ∃ s, run (step edgePair) init firstByte = some s ∧
    (s.cli.run 0 1).sock.put = [7] ∧
    (s.cli.run 0 1).sock.put <+: if (s.srv.stream 1).owner = 0 ∧ 1 ≤ s.srv.nextSid then
      (s.srv.stream 1).sock.got else [] := by
  obtain ⟨s, hRun, hPut⟩ := exists_run_of_any (step edgePair) init firstByte
    (fun s => (s.cli.run 0 1).sock.put = [7]) (by decide)
  exact ⟨s, hRun, of_decide_eq_true hPut, (bytes_in_order hRun).1 0 1⟩

end OpenSpoke.Tunnel.System
