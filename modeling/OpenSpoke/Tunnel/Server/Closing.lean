import OpenSpoke.Tunnel.Server.Listeners

/-!
# What a closed session still does

`SpokeSession::close` raises a flag and clears the map. An accept loop tests the
flag before it waits for a connection and not afterwards, and a connection that
cannot bind a later port drops the handles of the listeners it opened. Under the
conditions of `QuietClose` neither matters.
-/

namespace OpenSpoke.Tunnel

open Lts

/-- Between `ln.accept()` and the Open frame. -/
def AcceptPc.opening : AcceptPc → Bool
  | .alloc | .register _ | .inc _ | .sendOpen _ => true
  | _ => false

/-- Leaves because a port could not be bound. -/
def Phase.failing : Phase → Bool
  | .failClose _ | .failClear _ | .failCleanup _ => true
  | _ => false

def Phase.hasReturned : Phase → Bool
  | .returned _ => true
  | _ => false

/-- The session for which a listener returns a connection. -/
def acceptsOn : ServerAct → Option ConnId
  | .loop c _ (.accept (.ok ())) => some c
  | _ => none

/-- The connection for which a bind fails. -/
def bindFails : ServerAct → Option ConnId
  | .conn c (.bind (.error _)) => some c
  | _ => none

namespace Server

/-- The step registers a stream id of session `c`, or sends the Open frame for one. -/
def Opens (s : Server) (c : ConnId) : ServerAct → Prop
  | .loop d k .tau =>
    d = c ∧ ∃ sid, (s.loop d k).pc = .register sid ∨ (s.loop d k).pc = .sendOpen sid
  | _ => False

/-- The session of which the step completes a `close()`. -/
def completes (s : Server) : ServerAct → Option ConnId
  | .conn d .tau =>
    match s.phase d with
    | .clearOld old => some old
    | .failClear _ | .clear => some d
    | _ => none
  | _ => none

/-- The connection that returns from `recv_loop` and its clean-up. -/
def leaves (s : Server) : ServerAct → Option ConnId
  | .conn d .tau =>
    match s.phase d with
    | .ret => some d
    | _ => none
  | _ => none

def NoneOpening (s : Server) (c : ConnId) : Prop :=
  ∀ k < (s.sc c).ports.length, (s.loop c k).pc.opening = false

def NoListener (s : Server) (c : ConnId) : Prop :=
  ∀ k < (s.sc c).ports.length, (s.loop c k).live = false

instance (s : Server) (c : ConnId) : Decidable (s.NoneOpening c) :=
  inferInstanceAs (Decidable (∀ k < (s.sc c).ports.length, (s.loop c k).pc.opening = false))

instance (s : Server) (c : ConnId) : Decidable (s.NoListener c) :=
  inferInstanceAs (Decidable (∀ k < (s.sc c).ports.length, (s.loop c k).live = false))

structure QuietClose (s : Server) (a : ServerAct) : Prop where
  /-- a listener returns a connection only while its session is open -/
  accept : ∀ c ∈ acceptsOn a, (s.session c).closed = false
  /-- no accept loop is about to register or to send an Open frame -/
  clear : ∀ c ∈ s.completes a, s.NoneOpening c
  /-- a bind fails only while the connection holds no other port -/
  bind : ∀ c ∈ bindFails a, s.NoListener c
  /-- the runtime has dropped the aborted tasks -/
  ret : ∀ c ∈ s.leaves a, s.NoListener c

theorem quietClose_iff (s : Server) (a : ServerAct) : QuietClose s a ↔
    (∀ c ∈ acceptsOn a, (s.session c).closed = false) ∧ (∀ c ∈ s.completes a, s.NoneOpening c) ∧
      (∀ c ∈ bindFails a, s.NoListener c) ∧ ∀ c ∈ s.leaves a, s.NoListener c :=
  ⟨fun h => ⟨h.accept, h.clear, h.bind, h.ret⟩, fun h => ⟨h.1, h.2.1, h.2.2.1, h.2.2.2⟩⟩

instance (s : Server) (a : ServerAct) : Decidable (QuietClose s a) :=
  decidable_of_iff' _ (quietClose_iff s a)

/-- One for a step that completes a `close()` of session `c`. -/
def closes (c : ConnId) (s : Server) (a : ServerAct) : Nat := if s.completes a = some c then 1 else 0

/-- The invariant of quiet runs; `closed c` counts the completed `close()` calls. -/
structure Quiet (s : Server) (closed : ConnId → Nat) : Prop where
  shut : ∀ c, 0 < closed c → (s.session c).closed = true ∧ s.Registered c
  still : ∀ c, 0 < closed c → ∀ k, (s.loop c k).pc.opening = false
  failing : ∀ c, (s.phase c).failing = true → ∀ k, (s.loop c k).live = false
  returned : ∀ c, (s.phase c).hasReturned = true → ∀ k, (s.loop c k).live = false

theorem quiet_init : Quiet init (fun _ => 0) := by
  constructor <;> simp [init, Phase.failing, Phase.hasReturned]

theorem LoopsOk.none_opening {s : Server} (h : LoopsOk s) {c : ConnId} (hNone : s.NoneOpening c)
    (k : Nat) : (s.loop c k).pc.opening = false := by
  by_cases hPc : (s.loop c k).pc = .absent
  · simp [hPc, AcceptPc.opening]
  · obtain ⟨-, -, b, hb, -⟩ := h.owner c k hPc
    exact hNone k (List.getElem?_eq_some_iff.mp hb).1

theorem LoopsOk.no_listener {s : Server} (h : LoopsOk s) {c : ConnId} (hNone : s.NoListener c)
    (k : Nat) : (s.loop c k).live = false := by
  by_cases hPc : (s.loop c k).pc = .absent
  · simp [hPc, AcceptLoop.live]
  · obtain ⟨-, -, b, hb, -⟩ := h.owner c k hPc
    exact hNone k (List.getElem?_eq_some_iff.mp hb).1

/-- The session whose `close()` a step completes has raised its flag before, and
the step moves no accept loop. -/
theorem completes_spec {E : Env} {s t : Server} (hWf : Registry.Wf s.registry) {c : ConnId}
    {a : ServerAct} (hDone : s.completes a = some c) (h : step E s a = some t) :
    (s.session c).closed = true ∧ s.Registered c ∧ t.loop = s.loop := by
  have hEntering := hWf.entering
  have hClosing := hWf.closing
  simp only [registry] at hEntering hClosing
  cases a with
  | conn d e =>
    cases e with
    | tau =>
      simp only [completes] at hDone
      cases connStep_move h with
      | clearOld old hPhase =>
        simp only [hPhase, Option.some.injEq] at hDone
        subst hDone
        obtain ⟨-, hReg, hShut⟩ := hEntering d old (by rw [hPhase]; rfl)
        exact ⟨hShut, hReg, rfl⟩
      | failClear err hPhase | clear hPhase =>
        simp only [hPhase, Option.some.injEq] at hDone
        subst hDone
        exact ⟨hClosing d (by rw [hPhase]; rfl), by rw [Registered, hPhase]; rfl, rfl⟩
      | _ => simp_all
    | _ => cases hDone
  | _ => cases hDone

theorem failing_step {E : Env} {s t : Server} {a : ServerAct} (h : step E s a = some t)
    {c : ConnId} (hFail : (t.phase c).failing = true) :
    (s.phase c).failing = true ∨ c ∈ bindFails a ∧ t.loop = s.loop := by
  rcases step_phase h c with ⟨e, rfl, hMove⟩ | ⟨-, -, hSame | ⟨-, hNew⟩⟩
  · cases hMove with
    | recv pc e t hPhase hMove => cases hMove <;> simp_all [Phase.failing]
    | unbound => exact .inr ⟨rfl, rfl⟩
    | _ => simp_all [Phase.failing]
  · exact .inl (hSame ▸ hFail)
  · simp [hNew, Phase.failing] at hFail

theorem returned_step {E : Env} {s t : Server} {a : ServerAct} (h : step E s a = some t)
    {c : ConnId} (hRet : (t.phase c).hasReturned = true) :
    (s.phase c).hasReturned = true ∨ (s.phase c).failing = true ∨
      c ∈ s.leaves a ∧ s.phase c = .ret := by
  rcases step_phase h c with ⟨e, rfl, hMove⟩ | ⟨-, -, hSame | ⟨-, hNew⟩⟩
  · cases hMove with
    | recv pc e t hPhase hMove => cases hMove <;> simp_all [Phase.hasReturned]
    | ret hPhase => exact .inr (.inr ⟨by simp [leaves, hPhase], hPhase⟩)
    | _ => simp_all [Phase.hasReturned, Phase.failing]
  · exact .inl (hSame ▸ hRet)
  · simp [hNew, Phase.hasReturned] at hRet

theorem dead_step {E : Env} {s t : Server} {a : ServerAct} (h : step E s a = some t) {c : ConnId}
    {k : Nat} (hBind : s.phase c ≠ .bind k) (hDead : (s.loop c k).live = false) :
    (t.loop c k).live = false := by
  rcases step_loop h c k with hSame | ⟨e, rfl, -, hLive⟩ | ⟨e, rfl, hPhase, -⟩
  · simpa only [AcceptLoop.live, hSame] using hDead
  · rw [hDead] at hLive
    cases hLive
  · exact absurd hPhase hBind

theorem Quiet.step {E : Env} {s t : Server} {a : ServerAct} {closed : ConnId → Nat}
    (hQuiet : Quiet s closed) (hFresh : FreshConns s) (hWf : Registry.Wf s.registry)
    (hLoops : LoopsOk s) (hOk : QuietClose s a) (h : step E s a = some t) :
    Quiet t (fun c => closed c + closes c s a) := by
  have hBefore : ∀ c, 0 < closed c + closes c s a → (s.session c).closed = true ∧
      s.Registered c ∧ ∀ k, (s.loop c k).pc.opening = false := by
    intro c hc
    by_cases hDone : s.completes a = some c
    · obtain ⟨hShut, hReg, -⟩ := completes_spec hWf hDone h
      exact ⟨hShut, hReg, hLoops.none_opening (hOk.clear c hDone)⟩
    · have hc : 0 < closed c := by simpa [closes, hDone] using hc
      exact ⟨(hQuiet.shut c hc).1, (hQuiet.shut c hc).2, hQuiet.still c hc⟩
  constructor
  · intro c hc
    obtain ⟨hShut, hReg, -⟩ := hBefore c hc
    obtain ⟨hReg', -, hStays⟩ := registered_step hFresh h hReg
    exact ⟨hStays hShut, hReg'⟩
  · intro c hc k
    obtain ⟨hShut, -, hStill⟩ := hBefore c hc
    rcases step_loop h c k with hSame | ⟨e, rfl, hMove, -⟩ | ⟨e, rfl, -, hCheck⟩
    · rw [hSame]
      exact hStill k
    · have hPc := hStill k
      cases hMove with
      | accepted =>
        have hOpen := hOk.accept c rfl
        rw [hShut] at hOpen
        cases hOpen
      | alloc hAt | register sid hAt | inc sid hAt | opened sid hAt | unopened sid hAt =>
        rw [hAt] at hPc
        cases hPc
      | _ => simp [loopTo, AcceptPc.opening]
    · rw [hCheck]
      rfl
  · intro c hFail k
    rcases failing_step h hFail with hBefore | ⟨hBind, hSame⟩
    · exact dead_step h (by rintro hPhase; rw [hPhase] at hBefore; cases hBefore)
        (hQuiet.failing c hBefore k)
    · rw [hSame]
      exact hLoops.no_listener (hOk.bind c hBind) k
  · intro c hRet k
    rcases returned_step h hRet with hBefore | hBefore | ⟨hLeaves, hPhase⟩
    · exact dead_step h (by rintro hPhase; rw [hPhase] at hBefore; cases hBefore)
        (hQuiet.returned c hBefore k)
    · exact dead_step h (by rintro hPhase; rw [hPhase] at hBefore; cases hBefore)
        (hQuiet.failing c hBefore k)
    · exact dead_step h (by simp [hPhase]) (hLoops.no_listener (hOk.ret c hLeaves) k)

theorem quiet_run {E : Env} {s : Server} {acts : List ServerAct}
    (h : run (step E) init acts = some s) (hOk : Along (step E) QuietClose init acts) :
    LoopsOk s ∧ Quiet s (fun c => tally (step E) (closes c) init acts) := by
  refine (run_induction (motive := fun acts s => Along (step E) QuietClose init acts →
    FreshConns s ∧ Registry.Wf s.registry ∧ LoopsOk s ∧
      Quiet s (fun c => tally (step E) (closes c) init acts)) h
    (fun _ => ⟨freshConns_init, registry_empty.wf, loopsOk_init, quiet_init⟩) ?_ hOk).2.2
  intro acts s a t hRun ih hStep hOk
  obtain ⟨hBefore, hLast⟩ := (along_snoc _ _ a hRun).mp hOk
  obtain ⟨hFresh, hWf, hLoops, hQuiet⟩ := ih hBefore
  refine ⟨freshConns_step hFresh hStep, wf_step hFresh hWf hStep, loopsOk_step hFresh hLoops hStep, ?_⟩
  simpa only [tally_snoc _ _ a hRun] using hQuiet.step hFresh hWf hLoops hLast hStep

/-- In a quiet run a session whose `close()` has completed opens no further
stream, and a connection that has returned holds no port. -/
theorem closed_session_is_quiet (E : Env) {s : Server} {acts : List ServerAct}
    (hRun : run (step E) init acts = some s) (hOk : Along (step E) QuietClose init acts) (c : ConnId) :
    (0 < tally (step E) (closes c) init acts → ∀ a, ¬ Opens s c a) ∧
      ((s.phase c).hasReturned = true → ∀ k, (s.loop c k).live = false) := by
  obtain ⟨hLoops, hQuiet⟩ := quiet_run hRun hOk
  refine ⟨fun hDone a hOpens => ?_, hQuiet.returned c⟩
  cases a with
  | loop d k e =>
    cases e with
    | tau =>
      obtain ⟨rfl, sid, hPc⟩ := hOpens
      have hStill := hQuiet.still d hDone k
      rcases hPc with hPc | hPc <;> simp [hPc, AcceptPc.opening] at hStill
    | _ => exact hOpens
  | _ => exact hOpens

/-- Connection 0 registers, its stream ends, and it returns once its listener is gone. -/
def quietEnd : List ServerAct :=
  oneSpoke ++ [.loop 0 0 .tau, .conn 0 (.frame none), .conn 0 .tau, .conn 0 .tau, .conn 0 .tau,
    .conn 0 .tau, .loop 0 0 .cancel, .conn 0 .tau]

theorem quietEnd_is_quiet : ∃ s, run (step edgeEnv) init quietEnd = some s ∧
    (∀ a, ¬ Opens s 0 a) ∧ ∀ k, (s.loop 0 k).live = false := by
  obtain ⟨s, hRun, hs⟩ := exists_run_of_any (step edgeEnv) init quietEnd
    (fun s => (s.phase 0).hasReturned) (by decide)
  obtain ⟨hOpens, hLive⟩ := closed_session_is_quiet edgeEnv hRun (by decide) 0
  exact ⟨s, hRun, hOpens (by decide), hLive hs⟩

def threePortEnv : Env :=
  { edgeEnv with
    cfg := { edgeEnv.cfg with
      spokes := (∅ : AList _).insert "edge"
        ⟨"edge", .cluster, [⟨10001, "default"⟩, ⟨10002, "apiserver"⟩, ⟨10003, "metrics"⟩],
          "secret"⟩ } }

/-- The third port cannot be bound; the connection returns, and afterwards its
first listener accepts a connection. -/
def leftListening : List ServerAct :=
  [.connect [] 0, edgeHello 0, .conn 0 .tau, .conn 0 .tau, .conn 0 (.bind (.ok ())), .loop 0 0 .tau,
    .conn 0 (.bind (.ok ())), .conn 0 (.bind (.error "address in use")), .conn 0 .tau, .conn 0 .tau,
    .conn 0 .tau, .loop 0 0 (.accept (.ok ())), .loop 0 0 .tau]

/-- `close()` has completed and the connection has returned, its listener holds
the first port, and its next step registers a stream id in the closed session. -/
theorem leftListening_opens : ∃ s t, run (step threePortEnv) init leftListening = some s ∧
    0 < tally (step threePortEnv) (closes 0) init leftListening ∧
    (s.phase 0).hasReturned = true ∧ (s.loop 0 0).live = true ∧ (s.loop 0 0).port = 10001 ∧
    Opens s 0 (.loop 0 0 .tau) ∧ step threePortEnv s (.loop 0 0 .tau) = some t ∧
    (t.session 0).closed = true ∧ 1 ∈ (t.session 0).streams := by
  obtain ⟨s, hRun, hs⟩ := exists_run_of_any (step threePortEnv) init leftListening
    (fun s => (s.phase 0).hasReturned && (s.loop 0 0).live &&
      (s.loop 0 0).port = 10001 && (s.loop 0 0).pc = .register 1 && (s.session 0).closed) (by decide)
  simp only [Bool.and_eq_true, decide_eq_true_eq] at hs
  obtain ⟨⟨⟨⟨hRet, hLive⟩, hPort⟩, hPc⟩, hClosed⟩ := hs
  refine ⟨s, (s.addStream 0 1).loopTo 0 0 (.inc 1), hRun, by decide, hRet, hLive, hPort,
    ⟨rfl, 1, .inl hPc⟩, ?_, ?_, ?_⟩
  · simp only [step, loopStep, hPc, loopTo, addStream_loop]
  · simp [loopTo, hClosed]
  · simp [loopTo]

end Server

end OpenSpoke.Tunnel
