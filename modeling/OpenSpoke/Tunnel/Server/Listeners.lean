import OpenSpoke.Tunnel.Server.Connected

/-!
# Listeners and their accept loops

Which accept loops exist in each phase of their connection, and that no two
live ones share a port. The lifetime of a listener is that of its loop, and
neither a closed session nor the return of `handle_connection` ends a loop.
-/

namespace OpenSpoke.Tunnel

open Lts

/-- In this phase the loop on the `k`-th port may exist. -/
def Phase.maySpawn (k : Nat) : Phase → Bool
  | .absent | .recvFirst | .refused _ | .lookup | .closeOld _ | .clearOld _ | .reinsert _ | .inc => false
  | .bind j => k < j
  | _ => true

/-- In this phase the loops below the given index have been spawned. -/
def Phase.bound (ports : Nat) : Phase → Nat
  | .bind j => j
  | .recv _ | .close | .clear | .cleanup | .abort | .ret | .returned (.ok ()) => ports
  | _ => 0

namespace Server

/-- Which fields a step outside `handle_connection` and `accept_loop` leaves alone. -/
structure SameControl (s t : Server) : Prop where
  nextConn : t.nextConn = s.nextConn
  phase : t.phase = s.phase
  sc : t.sc = s.sc
  sessions : t.sessions = s.sessions
  spokeId : ∀ c, (t.session c).spokeId = (s.session c).spokeId
  closed : ∀ c, (t.session c).closed = (s.session c).closed

theorem loopMove_control {E : Env} {s t : Server} {c : ConnId} {k : Nat} {e : LoopEv}
    (h : LoopMove E s c k e t) : SameControl s t := by
  cases h with
  | register | rollback =>
    constructor <;> try rfl
    all_goals
      intro d
      by_cases hd : d = c <;> simp [loopTo, hd]
  | _ => constructor <;> intros <;> rfl

theorem loopMove_loop {E : Env} {s t : Server} {c : ConnId} {k : Nat} {e : LoopEv}
    (h : LoopMove E s c k e t) : (s.loop c k).live = true ∧ ∃ pc,
      (∀ d j, t.loop d j = if d = c ∧ j = k then { s.loop c k with pc := pc } else s.loop d j) ∧
      pc ≠ .absent := by
  cases h with
  | cancel hAbort hPc =>
    refine ⟨?_, _, fun d j => setLoop_apply _ c d k j _, by simp⟩
    rcases hPc with hPc | hPc <;> simp [AcceptLoop.live, hPc]
  | cancelHeld sid hAbort hPc =>
    refine ⟨?_, _, fun d j => setLoop_apply _ c d k j _, by simp⟩
    rcases hPc with hPc | hPc | hPc <;> simp [AcceptLoop.live, hPc]
  | _ =>
    exact ⟨by simp [AcceptLoop.live, *], _, fun d j => setLoop_apply _ c d k j _, by simp⟩

theorem data_control {E : Env} {s t : Server} {a : ServerAct} (h : step E s a = some t)
    (hConn : ∀ c e, a ≠ .conn c e) (hLoop : ∀ c k e, a ≠ .loop c k e)
    (hConnect : ∀ nonce at', a ≠ .connect nonce at') :
    SameControl s t ∧ t.loop = s.loop := by
  cases a with
  | connect nonce issuedAt => exact absurd rfl (hConnect nonce issuedAt)
  | conn c e => exact absurd rfl (hConn c e)
  | loop c k e => exact absurd rfl (hLoop c k e)
  | up sid e =>
    cases upStep_move h with
    | remove => exact ⟨by constructor <;> simp, by simp⟩
    | _ => exact ⟨by constructor <;> intros <;> rfl, rfl⟩
  | down sid e => cases downStep_move h <;> exact ⟨by constructor <;> intros <;> rfl, rfl⟩
  | http n e => cases httpStep_move h <;> exact ⟨by constructor <;> intros <;> rfl, rfl⟩
  | env e => cases envStep_move h <;> exact ⟨by constructor <;> intros <;> rfl, rfl⟩

/-- What every reachable state has of its accept loops. -/
structure LoopsOk (s : Server) : Prop where
  owner : ∀ c k, (s.loop c k).pc ≠ .absent → c < s.nextConn ∧ (s.phase c).maySpawn k = true ∧
    ∃ b, (s.sc c).ports[k]? = some b ∧ (s.loop c k).port = b.port
  spawned : ∀ c k, k < (s.phase c).bound (s.sc c).ports.length → (s.loop c k).pc ≠ .absent
  exclusive : ∀ c k d j, (s.loop c k).live = true → (s.loop d j).live = true →
    (s.loop c k).port = (s.loop d j).port → c = d ∧ k = j

theorem loopsOk_init : LoopsOk init := by
  constructor <;> simp [init, Phase.bound, AcceptLoop.live]

theorem LoopsOk.of_control {s t : Server} (h : LoopsOk s) (hSame : SameControl s t)
    (hLoop : t.loop = s.loop) : LoopsOk t := by
  obtain ⟨hOwner, hSpawned, hExclusive⟩ := h
  constructor
  · rw [hLoop, hSame.nextConn, hSame.phase, hSame.sc]
    exact hOwner
  · rw [hLoop, hSame.phase, hSame.sc]
    exact hSpawned
  · rw [hLoop]
    exact hExclusive

theorem LoopsOk.loopMove {E : Env} {s t : Server} {c : ConnId} {k : Nat} {e : LoopEv}
    (h : LoopsOk s) (hMove : LoopMove E s c k e t) : LoopsOk t := by
  obtain ⟨hOwner, hSpawned, hExclusive⟩ := h
  have hSame := loopMove_control hMove
  obtain ⟨hLive, pc, hLoop, hPc⟩ := loopMove_loop hMove
  have hOld : (s.loop c k).pc ≠ .absent := by
    intro hAbsent
    simp [AcceptLoop.live, hAbsent] at hLive
  constructor
  · rw [hSame.nextConn, hSame.phase, hSame.sc]
    grind
  · rw [hSame.phase, hSame.sc]
    grind
  · grind [AcceptLoop.live]

theorem LoopsOk.goto {s u : Server} {c : ConnId} {p : Phase} (h : LoopsOk s)
    (hNext : u.nextConn = s.nextConn) (hPhase : u.phase = s.phase) (hSc : u.sc = s.sc)
    (hLoop : u.loop = s.loop) (hMay : ∀ k, (s.phase c).maySpawn k = true → p.maySpawn k = true)
    (hBound : p.bound (s.sc c).ports.length ≤ (s.phase c).bound (s.sc c).ports.length) :
    LoopsOk (u.goto c p) := by
  obtain ⟨hOwner, hSpawned, hExclusive⟩ := h
  constructor
  · rw [goto_loop, goto_nextConn, goto_sc, goto_phase, hLoop, hNext, hSc, hPhase]
    grind [Function.update_apply]
  · rw [goto_loop, goto_sc, goto_phase, hLoop, hSc, hPhase]
    grind [Function.update_apply]
  · rw [goto_loop, hLoop]
    exact hExclusive

theorem LoopsOk.recvMove {E : Env} {s t : Server} {c : ConnId} {pc : RecvPc} {e : ConnEv}
    (h : LoopsOk s) (hPhase : s.phase c = .recv pc) (hMove : RecvMove E s c pc e t) :
    LoopsOk t := by
  cases hMove with
  | unknown | ignored => exact h
  | request => exact h.of_control (by constructor <;> intros <;> rfl) rfl
  | close => exact h.of_control (by constructor <;> simp) (by simp)
  | _ => apply h.goto <;> simp [hPhase, Phase.maySpawn, Phase.bound]

theorem LoopsOk.connMove {E : Env} {s t : Server} {c : ConnId} {e : ConnEv} (h : LoopsOk s)
    (hFresh : FreshConns s) (hMove : ConnMove E s c e t) : LoopsOk t := by
  cases hMove with
  | recv pc e t hPhase hMove => exact h.recvMove hPhase hMove
  | welcomed r hs sc hPhase hFirst =>
    have hNone : ∀ k, (s.loop c k).pc = .absent := by
      intro k
      by_contra hk
      simpa [hPhase, Phase.maySpawn] using (h.owner c k hk).2.1
    obtain ⟨hOwner, hSpawned, hExclusive⟩ := h
    constructor
    · simp only [goto_loop, setSession_loop, goto_nextConn, setSession_nextConn, goto_phase,
        setSession_phase]
      grind [Function.update_apply]
    · simp only [goto_loop, setSession_loop, goto_phase, setSession_phase]
      grind [Function.update_apply, Phase.bound]
    · exact hExclusive
  | bound k b hPhase hPort hFree =>
    have hc : c < s.nextConn := by
      by_contra hge
      simp [hFresh c (Nat.not_lt.mp hge)] at hPhase
    have hOther : ∀ d j, (s.loop d j).live = true → (s.loop d j).port ≠ b.port := by
      intro d j hLive hPort'
      obtain ⟨hd, -, b', hb', -⟩ := h.owner d j (by rintro hAbsent; simp [AcceptLoop.live, hAbsent] at hLive)
      exact hFree d hd j (List.getElem?_eq_some_iff.mp hb').1 ⟨hLive, hPort'⟩
    obtain ⟨hOwner, hSpawned, hExclusive⟩ := h
    constructor
    · simp only [goto_loop, setLoop_apply, goto_nextConn, setLoop_nextConn, goto_phase,
        setLoop_phase, goto_sc, setLoop_sc]
      grind [Function.update_apply, Phase.maySpawn]
    · simp only [goto_loop, setLoop_apply, goto_phase, setLoop_phase, goto_sc, setLoop_sc]
      grind [Function.update_apply, Phase.bound]
    · simp only [goto_loop, setLoop_apply]
      grind
  | connected k hPhase hLast =>
    have hk := List.getElem?_eq_none_iff.mp hLast
    apply h.goto <;> simp [hPhase, Phase.maySpawn, Phase.bound, hk]
  | abort hPhase =>
    have hLoop : ∀ d j, (Function.update s.loop c fun k => { s.loop c k with aborted := true }) d j =
        { s.loop d j with aborted := if d = c then true else (s.loop d j).aborted } := by
      intro d j
      by_cases hd : d = c
      · subst hd; simp
      · simp [hd]
    obtain ⟨hOwner, hSpawned, hExclusive⟩ := h
    constructor
    · simp only [hLoop, goto_phase, goto_nextConn, goto_sc]
      grind [Function.update_apply, Phase.maySpawn]
    · simp only [hLoop, goto_phase, goto_sc]
      grind [Function.update_apply, Phase.bound]
    · simp only [hLoop, AcceptLoop.live]
      exact hExclusive
  | _ => apply h.goto <;> simp [*, Phase.maySpawn, Phase.bound]

theorem loopsOk_step {E : Env} {s t : Server} {a : ServerAct} (hFresh : FreshConns s)
    (hLoops : LoopsOk s) (h : step E s a = some t) : LoopsOk t := by
  cases a with
  | connect nonce issuedAt =>
    cases h
    have hNew := hFresh s.nextConn le_rfl
    obtain ⟨hOwner, hSpawned, hExclusive⟩ := hLoops
    constructor
    · intro c k hPc
      obtain ⟨hc, hMay, hPort⟩ := hOwner c k hPc
      have hne : c ≠ s.nextConn := Nat.ne_of_lt hc
      exact ⟨Nat.lt_succ_of_lt hc, by simpa [connect, hne] using hMay, hPort⟩
    · intro c k hk
      refine hSpawned c k ?_
      by_cases hc : c = s.nextConn
      · simp [connect, hc, Phase.bound] at hk
      · simpa [connect, hc] using hk
    · exact hExclusive
  | conn c e => exact hLoops.connMove hFresh (connStep_move h)
  | loop c k e => exact hLoops.loopMove (loopStep_move h)
  | _ =>
    obtain ⟨hSame, hLoop⟩ := data_control h (by simp) (by simp) (by simp)
    exact hLoops.of_control hSame hLoop

/-! ## What a step does to the loops and the flags -/

theorem connMove_loop {E : Env} {s t : Server} {c : ConnId} {e : ConnEv} (h : ConnMove E s c e t)
    (d : ConnId) (j : Nat) : (t.loop d j).pc = (s.loop d j).pc ∨
      d = c ∧ s.phase c = .bind j ∧ (t.loop d j).pc = .check := by
  cases h with
  | recv pc e t hPhase hMove => cases hMove <;> exact .inl (by simp)
  | bound k b hPhase =>
    rw [goto_loop, setLoop_apply]
    split
    · next hHit => exact .inr ⟨hHit.1, hHit.2 ▸ hPhase, rfl⟩
    · exact .inl rfl
  | abort =>
    by_cases hd : d = c
    · subst hd; simp
    · simp [hd]
  | _ => exact .inl (by simp)

theorem loopMove_pc {E : Env} {s t : Server} {c : ConnId} {k : Nat} {e : LoopEv}
    (h : LoopMove E s c k e t) (d : ConnId) (j : Nat) :
    (t.loop d j).pc = (s.loop d j).pc ∨ d = c ∧ j = k ∧ (s.loop d j).live = true := by
  obtain ⟨hLive, pc, hLoop, -⟩ := loopMove_loop h
  rw [hLoop]
  split
  · next hHit => exact .inr ⟨hHit.1, hHit.2, by rw [hHit.1, hHit.2]; exact hLive⟩
  · exact .inl rfl

/-- A step moves an accept loop, or spawns it, or leaves it where it is. -/
theorem step_loop {E : Env} {s t : Server} {a : ServerAct} (h : step E s a = some t) (c : ConnId)
    (k : Nat) : (t.loop c k).pc = (s.loop c k).pc ∨
      (∃ e, a = .loop c k e ∧ LoopMove E s c k e t ∧ (s.loop c k).live = true) ∨
      (∃ e, a = .conn c e ∧ s.phase c = .bind k ∧ (t.loop c k).pc = .check) := by
  cases a with
  | connect nonce issuedAt => cases h; exact .inl rfl
  | loop d j e =>
    rcases loopMove_pc (loopStep_move h) c k with hSame | ⟨rfl, rfl, hLive⟩
    · exact .inl hSame
    · exact .inr (.inl ⟨e, rfl, loopStep_move h, hLive⟩)
  | conn d e =>
    rcases connMove_loop (connStep_move h) c k with hSame | ⟨rfl, hPhase, hCheck⟩
    · exact .inl hSame
    · exact .inr (.inr ⟨e, rfl, hPhase, hCheck⟩)
  | _ => exact .inl (by rw [(data_control h (by simp) (by simp) (by simp)).2])

theorem step_phase {E : Env} {s t : Server} {a : ServerAct} (h : step E s a = some t) (c : ConnId) :
    (∃ e, a = .conn c e ∧ ConnMove E s c e t) ∨
      (∀ e, a ≠ .conn c e) ∧ t.sc c = s.sc c ∧
        (t.phase c = s.phase c ∨ c = s.nextConn ∧ t.phase c = .recvFirst) := by
  cases a with
  | connect nonce issuedAt =>
    cases h
    refine .inr ⟨by simp, rfl, ?_⟩
    by_cases hc : c = s.nextConn
    · exact .inr ⟨hc, by simp [connect, hc]⟩
    · exact .inl (by simp [connect, hc])
  | conn d e =>
    by_cases hc : c = d
    · subst hc
      exact .inl ⟨e, rfl, connStep_move h⟩
    · have hMove := connStep_move h
      refine .inr ⟨by simpa using fun hd => absurd hd.symm hc, ?_,
        .inl ((connMove_frame hMove).2.2 c hc)⟩
      cases hMove with
      | recv pc e t hPhase hMove => cases hMove <;> simp
      | welcomed => simp [hc]
      | _ => simp
  | loop d k e =>
    have hSame := loopMove_control (loopStep_move h)
    exact .inr ⟨by simp, by rw [hSame.sc], .inl (by rw [hSame.phase])⟩
  | _ =>
    obtain ⟨hSame, -⟩ := data_control h (by simp) (by simp) (by simp)
    exact .inr ⟨by simp, by rw [hSame.sc], .inl (by rw [hSame.phase])⟩

theorem registered_of_maySpawn {s : Server} {c : ConnId} {k : Nat}
    (h : (s.phase c).maySpawn k = true) : s.Registered c := by
  unfold Registered
  cases hPhase : s.phase c <;> simp_all [Phase.maySpawn, Phase.stage, Registry.Stage.entered]

theorem LoopsOk.registered {s : Server} (h : LoopsOk s) {c : ConnId} {k : Nat}
    (hPc : (s.loop c k).pc ≠ .absent) : s.Registered c :=
  registered_of_maySpawn (h.owner c k hPc).2.1

end Server

end OpenSpoke.Tunnel
