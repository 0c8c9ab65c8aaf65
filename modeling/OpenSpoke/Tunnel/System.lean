import OpenSpoke.Tunnel.Client.Flush
import OpenSpoke.Tunnel.Client.Step
import OpenSpoke.Tunnel.Server.Accounting
import OpenSpoke.Tunnel.Server.Step

/-!
# The tunnel: one server, one client process and everybody else

The server takes every step it can take. The connections of one client process
are driven by the modelled client, through two queues of frames that lose,
repeat and reorder nothing; a call can break at any time at either end. All
other connections are driven by anything at all.
-/

namespace OpenSpoke.Tunnel

structure SystemEnv where
  srv : Env
  cli : ClientEnv

structure System where
  srv : Server
  cli : Client

inductive SystemAct
  | hub (a : ServerAct)
  | spoke (a : ClientAct)
  /-- the client process opens the call of its next session -/
  | connect (nonce : Bytes) (issuedAt : Int)
  /-- the server receives the next frame of the client -/
  | up (c : ConnId)
  /-- the dispatch loop receives the next frame of the server -/
  | down (c : ConnId)

namespace System

def init : System := ⟨.init, .init⟩

/-- The steps of the server that do not move frames of the client's connections. -/
def free (s : System) : ServerAct → Bool
  | .conn c (.frame (some (.ok _))) => !s.cli.mine c
  | .env (.deliver c) => !s.cli.mine c
  | _ => true

def step (E : SystemEnv) (s : System) : SystemAct → Option System
  | .hub a => if s.free a then (s.srv.step E.srv a).map fun t => ⟨t, s.cli⟩ else none
  | .spoke a => (s.cli.step E.cli a).map fun k => ⟨s.srv, k⟩
  | .connect nonce issuedAt =>
    if s.cli.main = .idle then
      (s.srv.step E.srv (.connect nonce issuedAt)).map fun t => ⟨t, s.cli.connected s.srv.nextConn⟩
    else none
  | .up c =>
    match s.cli.out c with
    | f :: rest =>
      if s.cli.mine c then
        (s.srv.step E.srv (.conn c (.frame (some (.ok f))))).map fun t => ⟨t, s.cli.setOut c rest⟩
      else none
    | [] => none
  | .down c =>
    match s.srv.outbox c with
    | f :: _ =>
      if s.cli.main = .session c .next then
        (s.srv.step E.srv (.env (.deliver c))).map fun t => ⟨t, s.cli.receive E.cli c f⟩
      else none
    | [] => none

end System

end OpenSpoke.Tunnel

/-!
## The client of the tunnel is a client against any server

Each step of the whole tunnel is one event of the client process or leaves it
alone, so what every step of `Client.eventStep` keeps is kept by the tunnel.
-/

namespace OpenSpoke.Tunnel.System

open Lts

/-- What a step of the tunnel is for the client. -/
def clientEvent (s : System) : SystemAct → Option ClientEvent
  | .hub _ => none
  | .spoke a => some (.act a)
  | .connect _ _ => some (.connect s.srv.nextConn)
  | .up c => some (.up c)
  | .down c => (s.srv.outbox c).head?.map (.down c)

/-- The connections that the client has opened are the server's. -/
structure Known (s : System) : Prop where
  fresh : s.srv.FreshConns
  mine : ∀ c, s.cli.mine c = true → c < s.srv.nextConn

theorem known_init : Known init := ⟨Server.freshConns_init, by simp [init, Client.init]⟩

theorem resolve_mine (k : Client) (n : Nat) (r : Reply) : (k.resolve n r).mine = k.mine := by
  unfold Client.resolve
  split <;> rfl

theorem clientStep_mine {E : ClientEnv} {k j : Client} {a : ClientAct} (h : k.step E a = some j) :
    j.mine = k.mine := by
  cases a with
  | main e => cases Client.mainStep_move h <;> first | rfl | exact resolve_mine _ _ _
  | run c sid e => cases Client.runStep_move h <;> rfl
  | caller n e => cases Client.callerStep_move h <;> rfl
  | env e =>
    cases e with
    | peerSend c sid b =>
      obtain ⟨sock, -, rfl⟩ := Option.map_eq_some_iff.mp h
      rfl
    | _ => cases h; rfl

theorem receive_mine (E : ClientEnv) (k : Client) (c : ConnId) (f : ServerFrame) :
    (k.receive E c f).mine = k.mine := by
  unfold Client.receive
  split
  · rfl
  · dsimp only
    split <;> rfl
  · split <;> rfl
  · rfl
  · rfl
  · split <;> rfl
  · rfl

variable {E : SystemEnv} {s t : System} {a : SystemAct}

theorem Known.server (h : Known s) {b : ServerAct} {u : Server} (hStep : s.srv.step E.srv b = some u) :
    u.FreshConns ∧ ∀ c, s.cli.mine c = true → c < u.nextConn := by
  refine ⟨Server.freshConns_step h.fresh hStep, fun c hc => (h.mine c hc).trans_le ?_⟩
  rcases (Server.nextConn_step h.fresh hStep).2 with hNext | hNext
  · exact hNext.ge
  · exact hNext ▸ Nat.le_succ _

theorem known_step (h : Known s) (hStep : step E s a = some t) : Known t := by
  cases a with
  | hub b =>
    simp only [step, Option.ite_none_right_eq_some, Option.map_eq_some_iff] at hStep
    obtain ⟨-, u, hSrv, rfl⟩ := hStep
    exact ⟨(h.server hSrv).1, (h.server hSrv).2⟩
  | spoke b =>
    obtain ⟨k, hCli, rfl⟩ := Option.map_eq_some_iff.mp hStep
    exact ⟨h.fresh, by rw [clientStep_mine hCli]; exact h.mine⟩
  | connect nonce issuedAt =>
    simp only [step, Option.ite_none_right_eq_some, Option.map_eq_some_iff] at hStep
    obtain ⟨-, u, hSrv, rfl⟩ := hStep
    refine ⟨(h.server hSrv).1, fun c hc => ?_⟩
    rcases eq_or_ne c s.srv.nextConn with rfl | hNe
    · cases hSrv
      exact Nat.lt_succ_self _
    · exact (h.server hSrv).2 c (by simpa [Client.connected, hNe] using hc)
  | up c =>
    simp only [step] at hStep
    split at hStep
    · simp only [Option.ite_none_right_eq_some, Option.map_eq_some_iff] at hStep
      obtain ⟨-, u, hSrv, rfl⟩ := hStep
      exact ⟨(h.server hSrv).1, (h.server hSrv).2⟩
    · cases hStep
  | down c =>
    simp only [step] at hStep
    split at hStep
    · simp only [Option.ite_none_right_eq_some, Option.map_eq_some_iff] at hStep
      obtain ⟨-, u, hSrv, rfl⟩ := hStep
      refine ⟨(h.server hSrv).1, ?_⟩
      rw [receive_mine]
      exact (h.server hSrv).2
    · cases hStep

/-- The client's part of the tunnel is the client by itself. -/
theorem client_refines (E : SystemEnv) :
    Refines (step E) (Client.eventStep E.cli) Known cli clientEvent := by
  intro s a t hKnown hStep
  cases a with
  | hub b =>
    simp only [step, Option.ite_none_right_eq_some, Option.map_eq_some_iff] at hStep
    obtain ⟨-, u, -, rfl⟩ := hStep
    rfl
  | spoke b =>
    obtain ⟨k, hCli, rfl⟩ := Option.map_eq_some_iff.mp hStep
    exact hCli
  | connect nonce issuedAt =>
    simp only [step, Option.ite_none_right_eq_some, Option.map_eq_some_iff] at hStep
    obtain ⟨hMain, u, -, rfl⟩ := hStep
    have hNew : s.cli.mine s.srv.nextConn = false :=
      Bool.eq_false_iff.mpr fun hMine => Nat.lt_irrefl _ (hKnown.mine _ hMine)
    simp [clientEvent, Client.eventStep, hMain, hNew]
  | up c =>
    simp only [step] at hStep
    split at hStep
    next f rest hOut =>
      simp only [Option.ite_none_right_eq_some, Option.map_eq_some_iff] at hStep
      obtain ⟨hMine, u, -, rfl⟩ := hStep
      simp [clientEvent, Client.eventStep, hOut, hMine]
    next => cases hStep
  | down c =>
    simp only [step] at hStep
    split at hStep
    next f rest hOutbox =>
      simp only [Option.ite_none_right_eq_some, Option.map_eq_some_iff] at hStep
      obtain ⟨hMain, u, -, rfl⟩ := hStep
      simp [clientEvent, Client.eventStep, hOutbox, hMain]
    next => cases hStep

end OpenSpoke.Tunnel.System
