import OpenSpoke.Tunnel.Server.Registry

/-!
# The gauge of connected spokes

Each registration counts one up and each removal from the map counts one off,
but an insert that overwrites the entry of a displaced session removes without
counting. The gauge is off by exactly the number of such inserts.
-/

namespace OpenSpoke.Tunnel

open Lts

def Phase.ended : Phase → Bool
  | .absent | .refused _ | .returned _ => true
  | _ => false

namespace Server

/-- No connection is between its insert and `connected.inc()`. Those inside
`cleanup_session` need no exception: removal and decrement share a critical section. -/
def Settled (s : Server) : Prop := ∀ c < s.nextConn, s.phase c ≠ .inc

instance (s : Server) : Decidable s.Settled :=
  inferInstanceAs (Decidable (∀ c < s.nextConn, s.phase c ≠ .inc))

/-- What the gauge promises in a settled state. -/
structure GaugeRight (s : Server) : Prop where
  exact : s.metrics.connected = s.sessions.keys.length
  nonneg : 0 ≤ s.metrics.connected
  ended : (∀ c < s.nextConn, (s.phase c).ended = true) → s.metrics.connected = 0

/-- One for an insert after a displacement that still finds an entry. -/
def overwrites (s : Server) : ServerAct → Nat
  | .conn c .tau =>
    match s.phase c with
    | .reinsert _ => if (s.sessions.lookup (s.idOf c)).isSome then 1 else 0
    | _ => 0
  | _ => 0

theorem overwrites_eq (E : Env) (s : Server) (a : ServerAct) :
    overwrites s a = (registryAct E s a).elim 0 (Registry.overwrites s.registry) := by
  cases a with
  | conn c e =>
    cases e with
    | tau => cases hp : s.phase c <;> simp [overwrites, registryAct, Registry.overwrites, hp, registry]
    | frame r => simp only [overwrites, registryAct]; split <;> rfl
    | bind r => rfl
  | _ => rfl

theorem counts_step {E : Env} {s t : Server} {a : ServerAct} {n : Nat} (hFresh : FreshConns s)
    (hCounts : Registry.Counts s.registry n) (h : step E s a = some t) :
    Registry.Counts t.registry (n + overwrites s a) := by
  have hRef := refines_registry E s a t hFresh h
  rw [overwrites_eq E]
  cases hb : registryAct E s a with
  | none =>
    rw [hb, Option.elim_none] at hRef
    rwa [hRef]
  | some b =>
    rw [hb, Option.elim_some] at hRef
    exact hCounts.step hRef

/-- What a run keeps of the registry, with the overwrites counted. -/
theorem counts_run {E : Env} {s : Server} {acts : List ServerAct}
    (h : run (step E) init acts = some s) :
    FreshConns s ∧ Registry.Wf s.registry ∧
      Registry.Counts s.registry (tally (step E) overwrites init acts) := by
  refine run_induction (motive := fun acts s => FreshConns s ∧ Registry.Wf s.registry ∧
    Registry.Counts s.registry (tally (step E) overwrites init acts)) h
    ⟨freshConns_init, registry_empty.wf, registry_empty.counts⟩ ?_
  rintro acts s a t hRun ⟨hFresh, hWf, hCounts⟩ hStep
  rw [tally_snoc _ _ _ hRun]
  exact ⟨freshConns_step hFresh hStep, wf_step hFresh hWf hStep, counts_step hFresh hCounts hStep⟩

theorem no_entries_of_ended {s : Server} (hFresh : FreshConns s) (hWf : Registry.Wf s.registry)
    (hEnded : ∀ c < s.nextConn, (s.phase c).ended = true) : s.sessions.keys.length = 0 := by
  rw [List.length_eq_zero_iff, List.eq_nil_iff_forall_not_mem]
  intro id hId
  obtain ⟨c, hc⟩ := Option.isSome_iff_exists.mp (AList.lookup_isSome.mpr hId)
  obtain ⟨hKey, hEntered⟩ := hWf.holder id c hc
  have hLt : c < s.nextConn := by
    by_contra hge
    have hAbsent := hFresh c (Nat.not_lt.mp hge)
    simp [registry, hAbsent, Phase.stage, Registry.Stage.entered] at hEntered
  have hLeft : s.registry.stage c = .left := by
    have hEnd := hEnded c hLt
    cases hp : s.phase c <;>
      simp [registry, hp, Phase.ended, Phase.stage, Registry.Stage.entered] at hEnd hEntered ⊢
  exact (hWf.left c hLeft).2 (hKey ▸ hc)

/-- After any run to a settled state the gauge is right exactly if no insert of
the run overwrote an entry. -/
theorem gaugeRight_iff (E : Env) {s : Server} {acts : List ServerAct}
    (hRun : run (step E) init acts = some s) (hSettled : s.Settled) :
    GaugeRight s ↔ tally (step E) overwrites init acts = 0 := by
  obtain ⟨hFresh, hWf, pending, hPending, hGauge⟩ := counts_run hRun
  have hNone : pending = ∅ := by
    rw [Finset.eq_empty_iff_forall_notMem]
    intro c hc
    have hStage := (hPending c).mp hc
    by_cases hLt : c < s.nextConn
    · have hNot := hSettled c hLt
      cases hp : s.phase c <;> simp [registry, hp, Phase.stage] at hStage hNot
    · simp [registry, hFresh c (Nat.not_lt.mp hLt), Phase.stage] at hStage
  have hGauge : s.metrics.connected =
      s.sessions.keys.length + (tally (step E) overwrites init acts : Nat) := by
    simpa [hNone, registry] using hGauge
  constructor
  · intro hRight
    have hExact := hRight.exact
    omega
  · intro hTally
    refine ⟨by omega, by omega, fun hEnded => ?_⟩
    have hEmpty := no_entries_of_ended hFresh hWf hEnded
    omega

def oneSpoke : List ServerAct :=
  [.connect [] 0, edgeHello 0, .conn 0 .tau, .conn 0 .tau, .conn 0 (.bind (.ok ())), .conn 0 .tau]

theorem gaugeRight_oneSpoke :
    ∃ s, run (step edgeEnv) init oneSpoke = some s ∧ GaugeRight s := by
  obtain ⟨s, hRun, hs⟩ := exists_run_of_any (step edgeEnv) init oneSpoke
    (fun s => s.Settled) (by decide)
  exact ⟨s, hRun, (gaugeRight_iff edgeEnv hRun (of_decide_eq_true hs)).mpr (by decide)⟩

/-- Connection 1 displaces connection 0, cannot bind the port connection 0 still
holds, and returns; then the stream of connection 0 ends too. -/
def displacement : List ServerAct :=
  oneSpoke ++ [.connect [] 0, edgeHello 1, .conn 1 .tau, .conn 1 .tau, .conn 1 .tau, .conn 1 .tau,
    .conn 1 .tau, .conn 1 (.bind (.error "address in use")), .conn 1 .tau, .conn 1 .tau,
    .conn 1 .tau, .conn 0 (.frame none), .conn 0 .tau, .conn 0 .tau, .conn 0 .tau, .conn 0 .tau,
    .conn 0 .tau]

/-- Every connection has ended and the gauge still shows one. -/
theorem displacement_leaks :
    ∃ s, run (step edgeEnv) init displacement = some s ∧ s.Settled ∧
      s.metrics.connected = 1 ∧ s.sessions.keys.length = 0 ∧ ¬ GaugeRight s := by
  obtain ⟨s, hRun, hs⟩ := exists_run_of_any (step edgeEnv) init displacement
    (fun s => decide s.Settled &&
      s.metrics.connected = 1 && s.sessions.keys.length = 0) (by decide)
  simp only [Bool.and_eq_true, decide_eq_true_eq] at hs
  obtain ⟨⟨hSettled, hGauge⟩, hEmpty⟩ := hs
  refine ⟨s, hRun, hSettled, hGauge, hEmpty, fun hRight => ?_⟩
  have hExact := hRight.exact
  omega

end Server

end OpenSpoke.Tunnel
