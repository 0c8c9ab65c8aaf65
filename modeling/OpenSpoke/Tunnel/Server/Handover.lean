import OpenSpoke.Tunnel.Server.Closing

/-!
# Handing the ports over

A newer connection binds the ports of its spoke while the listeners of the
session it displaced may still hold them. In runs where each bind finds its port
free the newer connection is admitted after a bounded number of its own steps,
and it alone serves the ports as long as its session is open. A failed bind has
no other cause than a live listener.
-/

namespace OpenSpoke.Tunnel

open Lts

/-- After the handshake and before `recv_loop`. -/
def Phase.settingUp : Phase → Bool
  | .lookup | .closeOld _ | .clearOld _ | .reinsert _ | .inc | .bind _ => true
  | _ => false

/-- A bound on the steps left before `recv_loop`. -/
def Phase.setupLeft (ports : Nat) : Phase → Nat
  | .lookup => ports + 6
  | .closeOld _ => ports + 5
  | .clearOld _ => ports + 4
  | .reinsert _ => ports + 3
  | .inc => ports + 2
  | .bind k => ports + 1 - k
  | _ => 0

def Phase.isRefused : Phase → Bool
  | .failClose _ | .failClear _ | .failCleanup _ | .returned (.error _) => true
  | _ => false

/-- The session of which a listener ends with an error of `accept()`. -/
def acceptFails : ServerAct → Option ConnId
  | .loop c _ (.accept (.error _)) => some c
  | _ => none

namespace Server

/-- The port on which the step attempts a bind. -/
def binds (s : Server) : ServerAct → Option Nat
  | .conn c (.bind _) =>
    match s.phase c with
    | .bind k => (s.sc c).ports[k]?.map (·.port)
    | _ => none
  | _ => none

/-- A bind fails only on a port that a live listener of the process holds. -/
def BindHonest (s : Server) (a : ServerAct) : Prop :=
  ∀ c ∈ bindFails a, ∃ p ∈ s.binds a, ¬ s.PortFree p

/-- The listeners of earlier sessions are gone when a connection binds, an insert
after a displacement hits no open session, and no `accept()` fails. -/
structure CleanHandover (s : Server) (a : ServerAct) : Prop where
  free : ∀ p ∈ s.binds a, s.PortFree p
  insert : InsertsOverClosed s a
  accept : acceptFails a = none

/-- One for a step of connection `c`. -/
def ownStep (c : ConnId) (_ : Server) : ServerAct → Nat
  | .conn d _ => if d = c then 1 else 0
  | _ => 0

/-- What displacement promises; `own` counts the steps of each connection. -/
structure HandedOver (E : Env) (s : Server) (own : ConnId → Nat) : Prop where
  admitted : ∀ c, (s.phase c).isRefused = false
  bounded : ∀ c, (s.phase c).settingUp = true →
    own c + (s.phase c).setupLeft (s.sc c).ports.length ≤ (s.sc c).ports.length + 7
  enabled : ∀ c, (s.phase c).settingUp = true →
    ∃ e, BindHonest s (.conn c e) ∧ (step E s (.conn c e)).isSome = true
  registered : ∀ c pc, s.phase c = .recv pc → (s.session c).closed = false →
    s.sessions.lookup (s.idOf c) = some c
  serves : ∀ c pc, s.phase c = .recv pc → (s.session c).closed = false →
    ∀ k b, (s.sc c).ports[k]? = some b → (s.loop c k).live = true ∧ (s.loop c k).port = b.port ∧
      ∀ d j, (s.loop d j).live = true → (s.loop d j).port = b.port → d = c ∧ j = k

/-- The loops of an open session run, and only those of closed ones are aborted. -/
structure Serving (s : Server) : Prop where
  listening : ∀ c k, (s.session c).closed = false → (s.loop c k).pc ≠ .ended
  aborted : ∀ c k, (s.loop c k).aborted = true → (s.session c).closed = true ∧ s.Registered c
  refused : ∀ c, (s.phase c).isRefused = false

theorem serving_init : Serving init := by
  constructor <;> simp [init, Phase.isRefused]

theorem no_bindFails {s : Server} {a : ServerAct} (hHonest : BindHonest s a)
    (hClean : CleanHandover s a) (c : ConnId) : c ∉ bindFails a := by
  intro hc
  obtain ⟨p, hp, hHeld⟩ := hHonest c hc
  exact hHeld (hClean.free p hp)

theorem refused_step {E : Env} {s t : Server} {a : ServerAct} (h : step E s a = some t)
    (hBind : ∀ c, c ∉ bindFails a) {c : ConnId} (hBefore : (s.phase c).isRefused = false) :
    (t.phase c).isRefused = false := by
  rcases step_phase h c with ⟨e, rfl, hMove⟩ | ⟨-, -, hSame | ⟨-, hNew⟩⟩
  · cases hMove with
    | recv pc e t hPhase hMove => cases hMove <;> simp_all [Phase.isRefused]
    | unbound => exact absurd rfl (hBind c)
    | _ => simp_all [Phase.isRefused]
  · rw [hSame]
    exact hBefore
  · rw [hNew]
    rfl

theorem aborted_step {E : Env} {s t : Server} {a : ServerAct} (h : step E s a = some t) {c : ConnId}
    {k : Nat} (hAbort : (t.loop c k).aborted = true) :
    (s.loop c k).aborted = true ∨ s.phase c = .abort := by
  cases a with
  | connect nonce issuedAt => cases h; exact .inl hAbort
  | loop d j e =>
    obtain ⟨-, pc, hLoop, -⟩ := loopMove_loop (loopStep_move h)
    rw [hLoop] at hAbort
    split at hAbort
    · next hHit => exact .inl (by rw [hHit.1, hHit.2]; exact hAbort)
    · exact .inl hAbort
  | conn d e =>
    cases connStep_move h with
    | recv pc e t hPhase hMove => cases hMove <;> exact .inl (by simpa using hAbort)
    | bound j b hPhase =>
      rw [goto_loop, setLoop_apply] at hAbort
      split at hAbort
      · cases hAbort
      · exact .inl hAbort
    | abort hPhase =>
      by_cases hc : c = d
      · exact .inr (hc ▸ hPhase)
      · exact .inl (by simpa [hc] using hAbort)
    | _ => exact .inl (by simpa using hAbort)
  | _ =>
    rw [(data_control h (by simp) (by simp) (by simp)).2] at hAbort
    exact .inl hAbort

theorem Serving.step {E : Env} {s t : Server} {a : ServerAct} (hServing : Serving s)
    (hFresh : FreshConns s) (hWf : Registry.Wf s.registry) (hLoops : LoopsOk s)
    (hHonest : BindHonest s a) (hClean : CleanHandover s a) (h : step E s a = some t) :
    Serving t := by
  constructor
  · intro c k hOpen hEnded
    suffices (s.loop c k).pc ≠ .absent ∧ (s.session c).closed = true by
      obtain ⟨-, -, hStays⟩ := registered_step hFresh h (hLoops.registered this.1)
      rw [hStays this.2] at hOpen
      cases hOpen
    rcases step_loop h c k with hSame | ⟨e, rfl, hMove, hLive⟩ | ⟨e, rfl, -, hCheck⟩
    · rw [hSame] at hEnded
      refine ⟨by simp [hEnded], ?_⟩
      by_contra hNot
      exact hServing.listening c k (Bool.eq_false_iff.mpr hNot) hEnded
    · refine ⟨by intro hAbsent; simp [AcceptLoop.live, hAbsent] at hLive, ?_⟩
      cases hMove with
      | stop hPc hClosed => exact hClosed
      | failed err hPc => cases hClean.accept
      | cancel hAbort | cancelHeld sid hAbort => exact (hServing.aborted c k hAbort).1
      | _ => simp [loopTo] at hEnded
    · rw [hCheck] at hEnded
      cases hEnded
  · intro c k hAbort
    have hBefore : (s.session c).closed = true ∧ s.Registered c := by
      rcases aborted_step h hAbort with hBefore | hPhase
      · exact hServing.aborted c k hBefore
      · obtain ⟨hShut, -⟩ := hWf.left c (by simp only [registry, hPhase]; rfl)
        exact ⟨hShut, by rw [Registered, hPhase]; rfl⟩
    obtain ⟨hReg, -, hStays⟩ := registered_step hFresh h hBefore.2
    exact ⟨hStays hBefore.1, hReg⟩
  · exact fun c => refused_step h (no_bindFails hHonest hClean) (hServing.refused c)

/-- The setup of a connection is bounded in its own steps. -/
structure Paced (s : Server) (own : ConnId → Nat) : Prop where
  fresh : ∀ c, s.phase c = .absent ∨ s.phase c = .recvFirst → own c = 0
  bounded : ∀ c, (s.phase c).settingUp = true →
    own c + (s.phase c).setupLeft (s.sc c).ports.length ≤ (s.sc c).ports.length + 7

theorem paced_init : Paced init (fun _ => 0) := by
  constructor <;> simp [init, Phase.settingUp]

/-- Each of its own steps brings a connection closer to `recv_loop`. -/
theorem setup_decreases {E : Env} {s t : Server} {c : ConnId} {e : ConnEv}
    (h : ConnMove E s c e t) (hSetup : (t.phase c).settingUp = true) :
    s.phase c = .recvFirst ∧ (t.phase c).setupLeft (t.sc c).ports.length =
        (t.sc c).ports.length + 6 ∨
      (s.phase c).settingUp = true ∧ t.sc = s.sc ∧
        (t.phase c).setupLeft (s.sc c).ports.length < (s.phase c).setupLeft (s.sc c).ports.length := by
  cases h with
  | recv pc e t hPhase hMove => cases hMove <;> simp_all [Phase.settingUp]
  | welcomed r hs sc hPhase => exact .inl ⟨hPhase, by simp [Phase.setupLeft]⟩
  | bound k b hPhase hPort =>
    have hk := (List.getElem?_eq_some_iff.mp hPort).1
    refine .inr ⟨by rw [hPhase]; rfl, rfl, ?_⟩
    simp only [goto_phase, Function.update_self, hPhase, Phase.setupLeft]
    omega
  | found | insert | closeOld | clearOld | reinsert | inc =>
    refine .inr ⟨by simp [*, Phase.settingUp], rfl, ?_⟩
    simp [*, Phase.setupLeft]
  | _ => simp [Phase.settingUp] at hSetup

theorem Paced.step {E : Env} {s t : Server} {a : ServerAct} {own : ConnId → Nat}
    (hPaced : Paced s own) (hFresh : FreshConns s) (h : step E s a = some t) :
    Paced t (fun c => own c + ownStep c s a) := by
  have hOther : ∀ c, (∀ e, a ≠ .conn c e) → ownStep c s a = 0 := by
    intro c hNot
    unfold ownStep
    split
    · next d e => exact if_neg fun hd => hNot e (by rw [hd])
    · rfl
  constructor
  · intro c hPhase
    rcases step_phase h c with ⟨e, rfl, hMove⟩ | ⟨hNot, -, hSame | ⟨rfl, -⟩⟩
    · cases hMove with
      | recv pc e t hPc hMove => cases hMove <;> simp_all
      | _ => simp at hPhase
    · rw [hOther c hNot, hPaced.fresh c (hSame ▸ hPhase)]
    · rw [hOther _ hNot, hPaced.fresh _ (.inl (hFresh _ le_rfl))]
  · intro c hSetup
    rcases step_phase h c with ⟨e, rfl, hMove⟩ | ⟨hNot, hSc, hSame | ⟨rfl, hNew⟩⟩
    · have hOne : ownStep c s (.conn c e) = 1 := if_pos rfl
      rcases setup_decreases hMove hSetup with ⟨hFirst, hLeft⟩ | ⟨hBefore, hSc, hLess⟩
      · rw [hOne, hLeft, hPaced.fresh c (.inr hFirst)]
        omega
      · have hBound := hPaced.bounded c hBefore
        rw [hOne, hSc]
        omega
    · rw [hOther c hNot, hSame, hSc]
      exact hPaced.bounded c (hSame ▸ hSetup)
    · simp [hNew, Phase.settingUp] at hSetup

theorem setup_enabled (E : Env) {s : Server} {c : ConnId} (h : (s.phase c).settingUp = true) :
    ∃ e, BindHonest s (.conn c e) ∧ (step E s (.conn c e)).isSome = true := by
  have hTau : BindHonest s (.conn c .tau) := fun _ hd => absurd hd (by simp [bindFails])
  cases hPhase : s.phase c with
  | bind k =>
    cases hPort : (s.sc c).ports[k]? with
    | none => exact ⟨.tau, hTau, by simp [step, connStep, hPhase, hPort]⟩
    | some b =>
      by_cases hFree : s.PortFree b.port
      · exact ⟨.bind (.ok ()), fun _ hd => absurd hd (by simp [bindFails]), by
          simp [step, connStep, hPhase, hPort, hFree]⟩
      · exact ⟨.bind (.error "address in use"),
          fun _ _ => ⟨b.port, by simp [binds, hPhase, hPort], hFree⟩, by
          simp [step, connStep, hPhase, hPort]⟩
  | lookup =>
    cases hOld : s.sessions.lookup (s.idOf c) <;>
      exact ⟨.tau, hTau, by simp only [step, connStep, hPhase, hOld, Option.isSome_some]⟩
  | closeOld | clearOld | reinsert | inc => exact ⟨.tau, hTau, by simp [step, connStep, hPhase]⟩
  | _ => simp [hPhase, Phase.settingUp] at h

theorem handover_run {E : Env} {s : Server} {acts : List ServerAct}
    (h : run (step E) init acts = some s) (hHonest : Along (step E) BindHonest init acts)
    (hClean : Along (step E) CleanHandover init acts) :
    Registry.OpenHolds s.registry ∧ LoopsOk s ∧ Serving s ∧
      Paced s (fun c => tally (step E) (ownStep c) init acts) := by
  refine (run_induction (motive := fun acts s => Along (step E) BindHonest init acts →
    Along (step E) CleanHandover init acts → FreshConns s ∧ Registry.Wf s.registry ∧
      Registry.OpenHolds s.registry ∧ LoopsOk s ∧ Serving s ∧
      Paced s (fun c => tally (step E) (ownStep c) init acts)) h
    (fun _ _ => ⟨freshConns_init, registry_empty.wf, registry_empty.openHolds, loopsOk_init,
      serving_init, paced_init⟩) ?_ hHonest hClean).2.2
  intro acts s a t hRun ih hStep hHonest hClean
  obtain ⟨hHonest, hBind⟩ := (along_snoc _ _ a hRun).mp hHonest
  obtain ⟨hClean, hLast⟩ := (along_snoc _ _ a hRun).mp hClean
  obtain ⟨hFresh, hWf, hHolds, hLoops, hServing, hPaced⟩ := ih hHonest hClean
  refine ⟨freshConns_step hFresh hStep, wf_step hFresh hWf hStep,
    openHolds_step hFresh hWf hHolds hLast.insert hStep, loopsOk_step hFresh hLoops hStep,
    hServing.step hFresh hWf hLoops hBind hLast hStep, ?_⟩
  simpa only [tally_snoc _ _ a hRun] using hPaced.step hFresh hStep

/-- In a run of clean handovers no connection is refused its ports, each is set up
within a bounded number of its own steps, and while its session is open it is
registered and its accept loops are the only ones on its ports. -/
theorem displacement_hands_over (E : Env) {s : Server} {acts : List ServerAct}
    (hRun : run (step E) init acts = some s) (hHonest : Along (step E) BindHonest init acts)
    (hClean : Along (step E) CleanHandover init acts) :
    HandedOver E s (fun c => tally (step E) (ownStep c) init acts) := by
  obtain ⟨hHolds, hLoops, hServing, hPaced⟩ := handover_run hRun hHonest hClean
  refine ⟨hServing.refused, hPaced.bounded, fun c => setup_enabled E, ?_, ?_⟩
  · intro c pc hPhase hOpen
    exact hHolds c (by simp only [registry, hPhase]; rfl) hOpen
  · intro c pc hPhase hOpen k b hPort
    have hk := (List.getElem?_eq_some_iff.mp hPort).1
    have hSpawned := hLoops.spawned c k (by rw [hPhase]; exact hk)
    have hLive : (s.loop c k).live = true := by
      simp [AcceptLoop.live, hSpawned, hServing.listening c k hOpen]
    obtain ⟨-, -, b', hb', hPort'⟩ := hLoops.owner c k hSpawned
    have hSame : b' = b := by simpa [hPort] using hb'.symm
    subst hSame
    exact ⟨hLive, hPort', fun d j hOther hAt => hLoops.exclusive d j c k hOther hLive (hAt.trans hPort'.symm)⟩

instance (s : Server) (a : ServerAct) : Decidable (BindHonest s a) :=
  inferInstanceAs (Decidable (∀ c ∈ bindFails a, ∃ p ∈ s.binds a, ¬ s.PortFree p))

instance (s : Server) : (a : ServerAct) → Decidable (InsertsOverClosed s a)
  | .conn c .tau =>
    match h : s.phase c with
    | .reinsert old =>
      decidable_of_iff (∀ cur ∈ s.sessions.lookup (s.idOf c),
        cur = old ∨ (s.session cur).closed = true) (by simp [InsertsOverClosed, h])
    | .absent | .recvFirst | .refused _ | .lookup | .closeOld _ | .clearOld _ | .inc | .bind _
    | .failClose _ | .failClear _ | .failCleanup _ | .recv _ | .close | .clear | .cleanup | .abort
    | .ret | .returned _ => .isTrue (by simp [InsertsOverClosed, h])
  | .conn _ (.frame _) | .conn _ (.bind _) | .connect _ _ | .loop _ _ _ | .up _ _ | .down _ _
  | .http _ _ | .env _ => .isTrue trivial

instance (s : Server) (a : ServerAct) : Decidable (CleanHandover s a) :=
  decidable_of_iff ((∀ p ∈ s.binds a, s.PortFree p) ∧ InsertsOverClosed s a ∧ acceptFails a = none)
    ⟨fun h => ⟨h.1, h.2.1, h.2.2⟩, fun h => ⟨h.free, h.insert, h.accept⟩⟩

/-- The listener of connection 0 has seen the flag before connection 1 binds. -/
def cleanHandover : List ServerAct :=
  oneSpoke ++ [.connect [] 0, edgeHello 1, .conn 1 .tau, .conn 1 .tau, .conn 1 .tau, .loop 0 0 .tau,
    .conn 1 .tau, .conn 1 .tau, .conn 1 (.bind (.ok ())), .conn 1 .tau]

theorem cleanHandover_serves : ∃ s, run (step edgeEnv) init cleanHandover = some s ∧
    s.sessions.lookup "edge" = some 1 ∧ (s.loop 1 0).live = true ∧ (s.loop 1 0).port = 10001 := by
  obtain ⟨s, hRun, hs⟩ := exists_run_of_any (step edgeEnv) init cleanHandover
    (fun s => s.phase 1 = .recv .next && !(s.session 1).closed &&
      s.idOf 1 = "edge" && (s.sc 1).ports[0]? = some ⟨10001, "default"⟩) (by decide)
  simp only [Bool.and_eq_true, decide_eq_true_eq, Bool.not_eq_true'] at hs
  obtain ⟨⟨⟨hPhase, hOpen⟩, hId⟩, hPort⟩ := hs
  have h := displacement_hands_over edgeEnv hRun (by decide) (by decide)
  obtain ⟨hLive, hAt, -⟩ := h.serves 1 .next hPhase hOpen 0 _ hPort
  exact ⟨s, hRun, hId ▸ h.registered 1 .next hPhase hOpen, hLive, hAt⟩

/-- The listener of connection 0 waits in `accept` and holds the port when
connection 1, with a valid token, displaces it and binds. -/
def refusedHandover : List ServerAct :=
  oneSpoke ++ [.loop 0 0 .tau, .connect [] 0, edgeHello 1, .conn 1 .tau, .conn 1 .tau, .conn 1 .tau,
    .conn 1 .tau, .conn 1 .tau, .conn 1 (.bind (.error "address in use")), .conn 1 .tau,
    .conn 1 .tau, .conn 1 .tau]

/-- Connection 1 is refused, and the spoke is left without a session although the
listener of connection 0 is still there. -/
theorem refusedHandover_refuses : ∃ s, run (step edgeEnv) init refusedHandover = some s ∧
    Along (step edgeEnv) BindHonest init refusedHandover ∧
    s.phase 1 = .returned (.error "listen 10001: address in use") ∧
    s.sessions.lookup "edge" = none ∧ (s.loop 0 0).live = true ∧
    ¬ HandedOver edgeEnv s (fun c => tally (step edgeEnv) (ownStep c) init refusedHandover) := by
  obtain ⟨s, hRun, hs⟩ := exists_run_of_any (step edgeEnv) init refusedHandover
    (fun s => s.phase 1 = .returned (.error "listen 10001: address in use") &&
      s.sessions.lookup "edge" = none && (s.loop 0 0).live) (by decide)
  simp only [Bool.and_eq_true, decide_eq_true_eq] at hs
  obtain ⟨⟨hPhase, hNone⟩, hLive⟩ := hs
  refine ⟨s, hRun, by decide, hPhase, hNone, hLive, fun h => ?_⟩
  have hAdmitted := h.admitted 1
  rw [hPhase] at hAdmitted
  cases hAdmitted

end Server

end OpenSpoke.Tunnel
