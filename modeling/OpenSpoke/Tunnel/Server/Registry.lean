import OpenSpoke.Lib.Registry
import OpenSpoke.Tunnel.Server.Moves

/-!
# The sessions map as a registry with displacement

The `sessions` map, the closed flags, the `connected` gauge and the program
counters of `handle_connection` refine `Registry`.
-/

namespace OpenSpoke.Tunnel

open Lts

def Phase.stage : Phase → Registry.Stage ConnId
  | .absent | .recvFirst | .refused _ => .outside
  | .lookup => .arriving
  | .closeOld old => .shutting old
  | .clearOld old | .reinsert old => .entering old
  | .inc => .pending
  | .bind _ | .failClose _ | .recv _ | .close => .counted
  | .failClear _ | .failCleanup _ | .clear | .cleanup => .closing
  | .abort | .ret | .returned _ => .left

namespace Server

def registry (s : Server) : Registry.State String ConnId where
  slots := s.sessions
  key c := (s.session c).spokeId
  stage c := (s.phase c).stage
  shut c := (s.session c).closed
  gauge := s.metrics.connected

/-- The registry step of a server step. -/
def registryAct (E : Env) (s : Server) : ServerAct → Option (Registry.Act String ConnId)
  | .conn c .tau =>
    match s.phase c with
    | .lookup => some (.look c)
    | .closeOld _ => some (.shutOld c)
    | .reinsert _ => some (.enter c)
    | .inc => some (.count c)
    | .failClose _ | .close => some (.shutSelf c)
    | .failCleanup _ | .cleanup => some (.leave c)
    | _ => none
  | .conn c (.frame r) =>
    match s.phase c, handshake E.cfg r with
    | .recvFirst, .ok (hs, _) => some (.arrive c hs.spokeId)
    | _, _ => none
  | _ => none

/-- Numbers not yet given out belong to no connection. -/
def FreshConns (s : Server) : Prop := ∀ c, s.nextConn ≤ c → s.phase c = .absent

theorem registry_eq {s t : Server} (hSessions : t.sessions = s.sessions)
    (hKey : ∀ c, (t.session c).spokeId = (s.session c).spokeId)
    (hStage : ∀ c, (t.phase c).stage = (s.phase c).stage)
    (hShut : ∀ c, (t.session c).closed = (s.session c).closed)
    (hGauge : t.metrics.connected = s.metrics.connected) : t.registry = s.registry := by
  simp only [registry, hSessions, hKey, hStage, hShut, hGauge]

theorem registry_goto (s : Server) (c : ConnId) (p : Phase) : (s.goto c p).registry =
    { s.registry with stage := Function.update s.registry.stage c p.stage } := by
  simp only [registry, goto, Registry.State.mk.injEq, true_and, and_true]
  funext d
  by_cases hd : d = c <;> simp [hd]

theorem registry_goto_same {s t : Server} {c : ConnId} {p : Phase} (ht : t.registry = s.registry)
    (h : p.stage = (s.phase c).stage) : (t.goto c p).registry = s.registry := by
  rw [registry_goto, ht, h, show (s.phase c).stage = s.registry.stage c from rfl,
    Function.update_eq_self]

theorem registry_storeClosed (s : Server) (c : ConnId) : (s.storeClosed c).registry =
    { s.registry with shut := Function.update s.registry.shut c true } := by
  simp only [registry, storeClosed, setSession, Registry.State.mk.injEq, true_and, and_true]
  constructor <;> funext d <;> by_cases hd : d = c <;> simp [hd]

theorem registry_cleanupSession (s : Server) (id : String) :
    (s.cleanupSession id).registry = Registry.sweep s.registry id := by
  unfold cleanupSession Registry.sweep
  cases h : s.sessions.lookup id with
  | none => simp [registry, h]
  | some cur => by_cases hc : (s.session cur).closed = true <;> simp [registry, h, hc]

theorem registry_streams (s : Server) (c : ConnId) (streams : Finset Nat) :
    (s.setSession c { s.session c with streams := streams }).registry = s.registry := by
  refine registry_eq rfl (fun d => ?_) (fun _ => rfl) (fun d => ?_) rfl <;>
    by_cases hd : d = c <;> simp [hd]

theorem registry_removeStream (s : Server) (c : ConnId) (sid : Nat) :
    (s.removeStream c sid).registry = s.registry := by
  unfold removeStream
  split
  · exact registry_streams s c _
  · rfl

theorem registry_loopMove {E : Env} {s t : Server} {c : ConnId} {k : Nat} {e : LoopEv}
    (h : LoopMove E s c k e t) : t.registry = s.registry := by
  cases h with
  | register | rollback => exact registry_streams s c _
  | _ => rfl

theorem registry_upMove {E : Env} {s t : Server} {sid : Nat} {e : UpEv}
    (h : UpMove E s sid e t) : t.registry = s.registry := by
  cases h with
  | remove => exact registry_removeStream s _ sid
  | _ => rfl

theorem registry_downMove {s t : Server} {sid : Nat} {e : DownEv} (h : DownMove s sid e t) :
    t.registry = s.registry := by
  cases h <;> rfl

theorem registry_httpMove {E : Env} {s t : Server} {n : Nat} {e : HttpEv}
    (h : HttpMove E s n e t) : t.registry = s.registry := by
  cases h <;> rfl

theorem registry_envMove {s t : Server} {e : EnvEv} (h : EnvMove s e t) :
    t.registry = s.registry := by
  cases h <;> rfl

theorem registry_recvMove {E : Env} {s t : Server} {c : ConnId} {pc : RecvPc} {e : ConnEv}
    (hPhase : s.phase c = .recv pc) (h : RecvMove E s c pc e t) : t.registry = s.registry := by
  cases h with
  | unknown | ignored | request => rfl
  | close => exact registry_removeStream s c _
  | undeliver sid => exact registry_goto_same (registry_removeStream s c sid) (by rw [hPhase]; rfl)
  | _ => exact registry_goto_same rfl (by rw [hPhase]; rfl)

/-- The server refines the registry. Only `handle_connection` moves it. -/
theorem refines_registry (E : Env) :
    Refines (step E) Registry.step FreshConns registry (registryAct E) := by
  intro s a t hFresh hStep
  cases a with
  | connect nonce issuedAt =>
    cases hStep
    change (s.goto s.nextConn .recvFirst).registry = s.registry
    exact registry_goto_same rfl (by rw [hFresh s.nextConn le_rfl]; rfl)
  | loop c k e => exact registry_loopMove (loopStep_move hStep)
  | up sid e => exact registry_upMove (upStep_move hStep)
  | down sid e => exact registry_downMove (downStep_move hStep)
  | http n e => exact registry_httpMove (httpStep_move hStep)
  | env e => exact registry_envMove (envStep_move hStep)
  | conn c e =>
    have hStage : s.registry.stage c = (s.phase c).stage := rfl
    cases connStep_move hStep with
    | recv pc e t hPhase hMove =>
      have hNone : registryAct E s (.conn c e) = none := by cases e <;> simp [registryAct, hPhase]
      rw [hNone]
      exact registry_recvMove hPhase hMove
    | refused r reason text hPhase hFirst =>
      simp only [registryAct, hPhase, hFirst]
      exact registry_goto_same rfl (by rw [hPhase]; rfl)
    | welcomed r hs sc hPhase hFirst =>
      simp only [registryAct, hPhase, hFirst, Option.elim_some, Registry.step, hStage]
      simp only [Phase.stage, if_true, Option.some.injEq]
      simp only [registry, goto, setSession, Registry.State.mk.injEq, true_and, and_true]
      refine ⟨?_, ?_, ?_⟩ <;> funext d <;> by_cases hd : d = c <;> simp [hd, Phase.stage]
    | ret hPhase | connected k hPhase | unbound k b err hPhase =>
      simp only [registryAct, hPhase]
      exact registry_goto_same rfl (by rw [hPhase]; rfl)
    | bound k b hPhase => exact registry_goto_same rfl (by rw [hPhase]; rfl)
    | abort hPhase =>
      simp only [registryAct, hPhase]
      change (s.goto c .ret).registry = s.registry
      exact registry_goto_same rfl (by rw [hPhase]; rfl)
    | clearOld old hPhase =>
      simp only [registryAct, hPhase]
      exact registry_goto_same (registry_streams s old ∅) (by rw [hPhase]; rfl)
    | failClear err hPhase | clear hPhase =>
      simp only [registryAct, hPhase]
      exact registry_goto_same (registry_streams s c ∅) (by rw [hPhase]; rfl)
    | found old hPhase hOld =>
      simp only [registryAct, hPhase, Option.elim_some, Registry.step, hStage, registry_goto]
      simp [registry, hOld, Phase.stage]
    | insert hPhase hNone =>
      simp only [registryAct, hPhase, Option.elim_some, Registry.step, hStage, registry_goto]
      simp [registry, hNone, Phase.stage]
    | closeOld old hPhase =>
      simp only [registryAct, hPhase, Option.elim_some, Registry.step, hStage, registry_goto,
        registry_storeClosed, Phase.stage]
    | reinsert old hPhase | inc hPhase =>
      simp only [registryAct, hPhase, Option.elim_some, Registry.step, hStage, registry_goto]
      simp [registry, Phase.stage]
    | failClose err hPhase | close hPhase =>
      simp only [registryAct, hPhase, Option.elim_some, Registry.step, hStage, registry_goto,
        registry_storeClosed, Phase.stage, if_true]
    | failCleanup err hPhase | cleanup hPhase =>
      simp only [registryAct, hPhase, Option.elim_some, Registry.step, hStage, registry_goto,
        registry_cleanupSession, Phase.stage, if_true, Registry.sweep_stage]
      rfl

theorem freshConns_init : FreshConns init := fun _ _ => rfl

theorem recvMove_frame {E : Env} {s t : Server} {c : ConnId} {pc : RecvPc} {e : ConnEv}
    (h : RecvMove E s c pc e t) :
    t.nextConn = s.nextConn ∧ ∀ d, d ≠ c → t.phase d = s.phase d := by
  cases h <;> simp +contextual

theorem connMove_frame {E : Env} {s t : Server} {c : ConnId} {e : ConnEv}
    (h : ConnMove E s c e t) :
    s.phase c ≠ .absent ∧ t.nextConn = s.nextConn ∧ ∀ d, d ≠ c → t.phase d = s.phase d := by
  cases h with
  | recv pc e t hPhase hMove => exact ⟨by simp [hPhase], recvMove_frame hMove⟩
  | _ => simp +contextual [*]

theorem phase_eq_of_not_conn {E : Env} {s t : Server} {a : ServerAct} (h : step E s a = some t)
    (hConn : ∀ c e, a ≠ .conn c e) (hConnect : ∀ nonce at', a ≠ .connect nonce at') :
    t.nextConn = s.nextConn ∧ t.phase = s.phase := by
  cases a with
  | connect nonce issuedAt => exact absurd rfl (hConnect nonce issuedAt)
  | conn c e => exact absurd rfl (hConn c e)
  | loop c k e => cases loopStep_move h <;> exact ⟨rfl, rfl⟩
  | up sid e => cases upStep_move h <;> simp
  | down sid e => cases downStep_move h <;> exact ⟨rfl, rfl⟩
  | http n e => cases httpStep_move h <;> exact ⟨rfl, rfl⟩
  | env e => cases envStep_move h <;> exact ⟨rfl, rfl⟩

theorem freshConns_step {E : Env} {s t : Server} {a : ServerAct} (hFresh : FreshConns s)
    (h : step E s a = some t) : FreshConns t := by
  intro d hd
  cases a with
  | connect nonce issuedAt =>
    cases h
    have hd : s.nextConn + 1 ≤ d := hd
    have hne : d ≠ s.nextConn := by omega
    simpa [connect, hne] using hFresh d (by omega)
  | conn c e =>
    obtain ⟨hc, hNext, hPhase⟩ := connMove_frame (connStep_move h)
    have hdc : d ≠ c := by
      rintro rfl
      exact hc (hFresh d (hNext ▸ hd))
    rw [hPhase d hdc]
    exact hFresh d (hNext ▸ hd)
  | _ =>
    obtain ⟨hNext, hPhase⟩ := phase_eq_of_not_conn h (by simp) (by simp)
    rw [hPhase]
    exact hFresh d (hNext ▸ hd)

/-! ## Displacement -/

def Registered (s : Server) (c : ConnId) : Prop := (s.phase c).stage.entered = true

/-- Sessions overwritten in or removed from the map are closed. -/
def EvictsClosed (s t : Server) : Prop :=
  ∀ id c, s.sessions.lookup id = some c → t.sessions.lookup id ≠ some c →
    (s.session c).closed = true

def AtMostOneOpen (s : Server) : Prop :=
  ∀ c d, s.Registered c → s.Registered d → (s.session c).closed = false →
    (s.session d).closed = false → s.idOf c = s.idOf d → c = d

def OpenIsHeld (s : Server) : Prop :=
  ∀ c, s.Registered c → (s.session c).closed = false → s.sessions.lookup (s.idOf c) = some c

/-- A connection that takes the map lock again after closing `old` finds no
entry there, or `old`, or another session that is closed. -/
def InsertsOverClosed (s : Server) : ServerAct → Prop
  | .conn c .tau => ∀ old, s.phase c = .reinsert old →
      ∀ cur, s.sessions.lookup (s.idOf c) = some cur → cur = old ∨ (s.session cur).closed = true
  | _ => True

theorem insertsOverClosed_iff (E : Env) (s : Server) (a : ServerAct) :
    InsertsOverClosed s a ↔
      ∀ b, registryAct E s a = some b → Registry.EntersOverShut s.registry b := by
  constructor
  · intro h b hb
    cases b with
    | enter c =>
      cases a with
      | conn d e =>
        cases e with
        | tau =>
          intro old hOld cur hCur
          have hd : d = c ∧ ∃ o, s.phase c = .reinsert o := by
            cases hp : s.phase d <;> simp [registryAct, hp] at hb
            next o => exact ⟨hb, o, hb ▸ hp⟩
          obtain ⟨rfl, o, hPhase⟩ := hd
          have ho : o = old := by simpa [registry, hPhase, Phase.stage] using hOld
          exact h old (ho ▸ hPhase) cur hCur
        | frame r => simp only [registryAct] at hb; split at hb <;> simp at hb
        | bind r => simp [registryAct] at hb
      | _ => simp [registryAct] at hb
    | _ => trivial
  · intro h
    cases a with
    | conn c e =>
      cases e with
      | tau =>
        intro old hPhase cur hCur
        exact h (.enter c) (by simp [registryAct, hPhase]) old
          (by simp [registry, hPhase, Phase.stage]) cur hCur
      | _ => trivial
    | _ => trivial

theorem evictsClosed_iff {E : Env} {s t : Server} {a : ServerAct} (hFresh : FreshConns s)
    (hWf : Registry.Wf s.registry) (h : step E s a = some t) :
    EvictsClosed s t ↔ InsertsOverClosed s a := by
  rw [insertsOverClosed_iff E]
  have hRef := refines_registry E s a t hFresh h
  change Registry.EvictsShut s.registry t.registry ↔ _
  cases hb : registryAct E s a with
  | none =>
    rw [hb, Option.elim_none] at hRef
    simp only [hRef, reduceCtorEq, false_imp_iff, implies_true, iff_true]
    exact fun k c hHeld hLost => absurd hHeld hLost
  | some b =>
    rw [hb, Option.elim_some] at hRef
    simpa using Registry.evictsShut_iff hWf hRef

theorem wf_step {E : Env} {s t : Server} {a : ServerAct} (hFresh : FreshConns s)
    (hWf : Registry.Wf s.registry) (h : step E s a = some t) : Registry.Wf t.registry := by
  have hRef := refines_registry E s a t hFresh h
  cases hb : registryAct E s a with
  | none =>
    rw [hb, Option.elim_none] at hRef
    rwa [hRef]
  | some b =>
    rw [hb, Option.elim_some] at hRef
    exact hWf.step hRef

theorem openHolds_step {E : Env} {s t : Server} {a : ServerAct} (hFresh : FreshConns s)
    (hWf : Registry.Wf s.registry) (hOpen : Registry.OpenHolds s.registry)
    (hOver : InsertsOverClosed s a) (h : step E s a = some t) :
    Registry.OpenHolds t.registry := by
  have hRef := refines_registry E s a t hFresh h
  cases hb : registryAct E s a with
  | none =>
    rw [hb, Option.elim_none] at hRef
    rwa [hRef]
  | some b =>
    rw [hb, Option.elim_some] at hRef
    exact hOpen.step hWf ((insertsOverClosed_iff E s a).mp hOver b hb) hRef

theorem registered_step {E : Env} {s t : Server} {a : ServerAct} (hFresh : FreshConns s)
    (h : step E s a = some t) {c : ConnId} (hReg : s.Registered c) :
    t.Registered c ∧ t.idOf c = s.idOf c ∧
      ((s.session c).closed = true → (t.session c).closed = true) := by
  have hRef := refines_registry E s a t hFresh h
  change (t.registry.stage c).entered = true ∧ t.registry.key c = s.registry.key c ∧
    (s.registry.shut c = true → t.registry.shut c = true)
  cases hb : registryAct E s a with
  | none =>
    rw [hb, Option.elim_none] at hRef
    rw [hRef]
    exact ⟨hReg, rfl, id⟩
  | some b =>
    rw [hb, Option.elim_some] at hRef
    exact Registry.entered_step hRef hReg

theorem registered_lt {s : Server} (hFresh : FreshConns s) {c : ConnId} (hReg : s.Registered c) :
    c < s.nextConn := by
  by_contra hge
  rw [Registered, hFresh c (Nat.not_lt.mp hge)] at hReg
  cases hReg

theorem atMostOneOpen_of_openIsHeld {s : Server} (h : OpenIsHeld s) : AtMostOneOpen s := by
  intro c d hc hd hcOpen hdOpen hId
  have hHeld := h c hc hcOpen
  rw [hId, h d hd hdOpen] at hHeld
  exact (Option.some.inj hHeld).symm

theorem registry_empty : Registry.Empty init.registry := ⟨rfl, fun _ => rfl, rfl⟩

/-- Along a run of the server every session that leaves the map is closed, and
the map holds the one open registered session of each spoke, exactly if no
insert after a displacement hits an open session that was registered meanwhile. -/
theorem displacement_safe_iff (E : Env) (acts : List ServerAct) :
    Along (step E) (fun s a => ∀ t, step E s a = some t →
        EvictsClosed s t ∧ AtMostOneOpen t ∧ OpenIsHeld t) init acts ↔
      Along (step E) InsertsOverClosed init acts := by
  refine along_congr (fun s => FreshConns s ∧ Registry.Wf s.registry ∧
    Registry.OpenHolds s.registry) ?_ ?_
    ⟨freshConns_init, registry_empty.wf, registry_empty.openHolds⟩ acts
  · rintro s a ⟨hFresh, hWf, hOpen⟩
    constructor
    · intro hSafe
      cases hStep : step E s a with
      | some t => exact (evictsClosed_iff hFresh hWf hStep).mp (hSafe t hStep).1
      | none =>
        cases a with
        | conn c e =>
          cases e with
          | tau =>
            intro old hPhase
            simp [step, connStep, hPhase] at hStep
          | _ => trivial
        | _ => trivial
    · intro hOver t hStep
      have hHeld : OpenIsHeld t := openHolds_step hFresh hWf hOpen hOver hStep
      exact ⟨(evictsClosed_iff hFresh hWf hStep).mpr hOver, atMostOneOpen_of_openIsHeld hHeld, hHeld⟩
  · rintro s a t ⟨hFresh, hWf, hOpen⟩ hOver hStep
    exact ⟨freshConns_step hFresh hStep, wf_step hFresh hWf hStep,
      openHolds_step hFresh hWf hOpen hOver hStep⟩

def edgeEnv : Env where
  cfg :=
    { spokes := (∅ : AList _).insert "edge" ⟨"edge", .cluster, [⟨10001, "default"⟩], "secret"⟩
      kernelUrl := "http://kernel:8000"
      allowedPaths := ∅ }
  lib := ⟨some, some, fun _ => true, fun _ => .ok (), fun _ _ => none, fun _ _ => none⟩
  wire := 0

def edgeHello (c : ConnId) : ServerAct :=
  .conn c (.frame (some (.ok ⟨0, some (.handshake ⟨"edge", asBytes "secret", "tc"⟩)⟩)))

/-- Connection 0 registers, then 1 and 2 both look it up and close it; 1 inserts. -/
def lookupRace : List ServerAct :=
  [.connect [] 0, edgeHello 0, .conn 0 .tau, .conn 0 .tau, .conn 0 (.bind (.ok ())), .conn 0 .tau,
    .connect [] 0, edgeHello 1, .conn 1 .tau, .connect [] 0, edgeHello 2, .conn 2 .tau,
    .conn 1 .tau, .conn 1 .tau, .conn 1 .tau, .conn 2 .tau, .conn 2 .tau]

/-- The insert of connection 2 then throws out the open session of connection 1. -/
theorem lookupRace_evicts_open :
    ¬ Along (step edgeEnv) (fun s a => ∀ t, step edgeEnv s a = some t →
        EvictsClosed s t ∧ AtMostOneOpen t ∧ OpenIsHeld t) init (lookupRace ++ [.conn 2 .tau]) := by
  intro h
  obtain ⟨s, hRun, hs⟩ := exists_run_of_any (step edgeEnv) init lookupRace
    (fun s => s.sessions.lookup "edge" = some 1 &&
      (s.session 1).closed = false && s.phase 2 = .reinsert 0 && s.idOf 2 = "edge") (by decide)
  simp only [Bool.and_eq_true, decide_eq_true_eq] at hs
  obtain ⟨⟨⟨hHeld, hOpen⟩, hPhase⟩, hId⟩ := hs
  have hStep : step edgeEnv s (.conn 2 .tau) =
      some ((s.setSessions (s.sessions.insert "edge" 2)).goto 2 .inc) := by
    simp only [step, connStep, hPhase, hId]
  have hEvicts := (h.at hRun _ hStep).1 "edge" 1 hHeld (by simp)
  rw [hOpen] at hEvicts
  cases hEvicts

end Server

end OpenSpoke.Tunnel
