import OpenSpoke.Tunnel.Server.Proxy
import OpenSpoke.Tunnel.Server.StreamIds
import OpenSpoke.Tunnel.Server.Without

/-!
# Connections that fail the handshake

Such a connection leaves no trace but in the counter of failed handshakes, and
what a port of a spoke takes in goes to connections that presented its token.
-/

namespace OpenSpoke.Tunnel.Server

open Lts

variable {E : Env} {s t : Server} {a : ServerAct} {acts : List ServerAct} {c d : ConnId}

/-! ## What ports take in -/

/-- The stream id that a step gives to a TCP connection, with the port that took it in. -/
def takesIn (s : Server) : ServerAct → List (Nat × Nat)
  | .loop c k .tau =>
    if (s.loop c k).pc = .alloc then [(s.nextSid + 1, (s.loop c k).port)] else []
  | _ => []

def takenIn (E : Env) (acts : List ServerAct) : List (Nat × Nat) :=
  trace (step E) takesIn init acts

/-- The frames sent on connection `c`, received or still on their way. -/
def sentOn (E : Env) (acts : List ServerAct) (s : Server) (c : ConnId) : List ServerFrame :=
  received E c acts ++ s.outbox c

/-- The frames that carry what a port takes in. -/
def carries (f : ServerFrame) : Bool :=
  match f.kind with
  | some (.openStream _ _) | some (.data _) => true
  | _ => false

def Born (s : Server) (sid : Nat) : Prop :=
  (s.stream sid).up ≠ .absent ∨ (s.stream sid).down ≠ .absent

/-- The streams of a run, by the ports that took them in. -/
structure Traffic (E : Env) (acts : List ServerAct) (s : Server) : Prop where
  taken : ∀ sid port, (sid, port) ∈ takenIn E acts → sid ≤ s.nextSid ∧
    s.Registered (s.stream sid).owner ∧ ∃ b ∈ (s.sc (s.stream sid).owner).ports, b.port = port
  held : ∀ c k sid, (s.loop c k).pc.sid = some sid → ∃ port, (sid, port) ∈ takenIn E acts
  born : ∀ sid, s.Born sid → ∃ port, (sid, port) ∈ takenIn E acts
  frames : ∀ c, ∀ f ∈ sentOn E acts s c, carries f = true →
    (s.stream f.streamId).owner = c ∧ ∃ port, (f.streamId, port) ∈ takenIn E acts

theorem traffic_init (E : Env) : Traffic E [] init := by
  constructor <;> simp [takenIn, sentOn, received, trace, init, AcceptPc.sid, Born]

/-- A step gives no stream id and keeps those there are, or gives the next one. -/
theorem step_takesIn (hIds : StreamIds s) (h : step E s a = some t) :
    (takesIn s a = [] ∧ KeepsIds s t) ∨ ∃ c k, a = .loop c k .tau ∧ (s.loop c k).pc = .alloc ∧
      t = { (s.setStream (s.nextSid + 1) ⟨c, .fresh, .held, .held, []⟩).loopTo c k
        (.register (s.nextSid + 1)) with nextSid := s.nextSid + 1 } := by
  rcases step_keepsIds hIds h with hKeeps | ⟨d, j, hAlloc⟩
  · refine .inl ⟨?_, hKeeps⟩
    unfold takesIn
    split
    · next c k =>
      refine if_neg fun hPc => ?_
      simp only [step, loopStep, hPc, Option.some.injEq] at h
      have hNext := hKeeps.nextSid
      rw [← h] at hNext
      exact Nat.succ_ne_self _ hNext
    · rfl
  · have hNext : t.nextSid ≠ s.nextSid := by
      rw [hAlloc]
      exact Nat.succ_ne_self _
    cases a with
    | loop c k e =>
      cases loopStep_move h with
      | alloc hPc => exact .inr ⟨c, k, rfl, hPc, rfl⟩
      | _ => exact absurd (by simp [loopTo]) hNext
    | connect nonce issuedAt =>
      cases h
      exact absurd rfl hNext
    | conn c e => exact absurd (keepsIds_connMove (connStep_move h)).nextSid hNext
    | up sid e => exact absurd (keepsIds_upMove hIds (upStep_move h)).nextSid hNext
    | down sid e => exact absurd (keepsIds_downMove hIds (downStep_move h)).nextSid hNext
    | http n e => exact absurd (keepsIds_httpMove (httpStep_move h)).nextSid hNext
    | env e => exact absurd (keepsIds_envMove (envStep_move h)).nextSid hNext

theorem takenIn_snoc (hRun : run (step E) init acts = some s) :
    takenIn E (acts ++ [a]) = takenIn E acts ++ takesIn s a :=
  trace_snoc _ _ _ hRun

theorem sentOn_step (hRun : run (step E) init acts = some s) (hOk : OutboxOk E s)
    (h : step E s a = some t) (c : ConnId) : sentOn E (acts ++ [a]) t c = sentOn E acts s c ∨
      ∃ f, sentOn E (acts ++ [a]) t c = sentOn E acts s c ++ [f] ∧ (Sends s c a f t ∨
        c = s.nextConn ∧ ∃ nonce issuedAt, a = .connect nonce issuedAt ∧
          f = ⟨0, some (.challenge nonce issuedAt)⟩) := by
  rw [sentOn, sentOn, received, trace_snoc _ _ _ hRun, ← received]
  cases step_outbox hOk.requests h c with
  | same hOut hAct =>
    rw [handedOver_eq_nil hAct, hOut, List.append_nil]
    exact .inl rfl
  | deliver g hAct hOut =>
    subst hAct
    rw [hOut]
    exact .inl (by simp [handedOver, hOut])
  | send g hRx hSends hOut =>
    have hNone : handedOver c s a = [] := by
      refine handedOver_eq_nil ?_
      rintro rfl
      have hMove : EnvMove s (.deliver c) t := envStep_move h
      cases hMove with
      | deliver _ f rest hOld =>
        have hLength := congrArg List.length hOut
        simp [hOld] at hLength
        omega
    exact .inr ⟨g, by rw [hNone, hOut]; simp, .inl hSends⟩
  | connect nonce issuedAt hAct hConn hOut =>
    subst hAct
    have hNone := (hOk.unsent c hConn.ge).2
    exact .inr ⟨_, by rw [hOut, hNone]; simp [handedOver], .inr ⟨hConn, nonce, issuedAt, rfl, rfl⟩⟩

/-- What the invariants of the server say at each state of a run. -/
structure Standing (E : Env) (acts : List ServerAct) (s : Server) : Prop where
  proxy : ProxyOk E acts s
  wf : Registry.Wf s.registry
  loops : LoopsOk s
  ids : StreamIds s

theorem Standing.fresh (hs : Standing E acts s) : FreshConns s := hs.proxy.outbox.fresh

theorem standing_init (E : Env) : Standing E [] init :=
  ⟨⟨outboxOk_init E, framesOk_init E⟩, registry_empty.wf, loopsOk_init, streamIds_init⟩

theorem Standing.step (hs : Standing E acts s) (h : step E s a = some t) :
    Standing E (acts ++ [a]) t :=
  ⟨⟨outboxOk_step hs.proxy.outbox h, framesOk_step hs.fresh hs.proxy.frames h⟩,
    wf_step hs.fresh hs.wf h, loopsOk_step hs.fresh hs.loops h,
    streamIds_step hs.fresh hs.loops hs.ids h⟩

theorem Traffic.of_keepsIds (hTraffic : Traffic E acts s) (hs : Standing E acts s)
    (hRun : run (Server.step E) init acts = some s) (h : Server.step E s a = some t)
    (hNone : takesIn s a = []) (hKeeps : KeepsIds s t) : Traffic E (acts ++ [a]) t := by
  have hTaken : takenIn E (acts ++ [a]) = takenIn E acts := by
    rw [takenIn_snoc hRun, hNone, List.append_nil]
  constructor
  · intro sid port hMem
    rw [hTaken] at hMem
    obtain ⟨hLe, hReg, hPort⟩ := hTraffic.taken sid port hMem
    have hStays := registered_keeps hs.fresh h hReg
    rw [hKeeps.nextSid, hKeeps.owner, hStays.sc]
    exact ⟨hLe, hStays.registered, hPort⟩
  · intro c k sid hSid
    rw [hTaken]
    exact hTraffic.held c k sid (hKeeps.sid c k sid hSid)
  · intro sid hBorn
    rw [hTaken]
    refine hTraffic.born sid ?_
    by_contra hNot
    obtain ⟨hUp, hDown⟩ := not_or.mp hNot
    have hAbsent := (hKeeps.tasks sid).2 (not_not.mp hUp) (not_not.mp hDown)
    exact hBorn.elim (absurd hAbsent.1) (absurd hAbsent.2)
  · intro c f hf hCarries
    rw [hTaken, hKeeps.owner]
    rcases sentOn_step hRun hs.proxy.outbox h c with hSame | ⟨g, hNew, hWhy⟩
    · exact hTraffic.frames c f (hSame ▸ hf) hCarries
    · rw [hNew] at hf
      rcases List.mem_append.mp hf with hf | hf
      · exact hTraffic.frames c f hf hCarries
      · obtain rfl := List.mem_singleton.mp hf
        rcases hWhy with hSends | ⟨-, nonce, issuedAt, -, rfl⟩
        · cases hSends with
          | openStream k sid _ hPc =>
            have hSid : (s.loop c k).pc.sid = some sid := by simp [hPc, AcceptPc.sid]
            exact ⟨(hs.ids.held c k sid hSid).2.1, hTraffic.held c k sid hSid⟩
          | data sid payload _ hOwner hPc => exact ⟨hOwner, hTraffic.born sid (.inl (by simp [hPc]))⟩
          | close sid => cases hCarries
          | response _ n resp => cases hCarries
        · cases hCarries

theorem Traffic.alloc (hTraffic : Traffic E acts s) (hs : Standing E acts s)
    (hRun : run (Server.step E) init acts = some s) {c : ConnId} {k : Nat}
    (h : Server.step E s (.loop c k .tau) = some t) (hPc : (s.loop c k).pc = .alloc)
    (hAlloc : t = { (s.setStream (s.nextSid + 1) ⟨c, .fresh, .held, .held, []⟩).loopTo c k
      (.register (s.nextSid + 1)) with nextSid := s.nextSid + 1 }) :
    Traffic E (acts ++ [.loop c k .tau]) t := by
  have hTaken : takenIn E (acts ++ [.loop c k .tau]) =
      takenIn E acts ++ [(s.nextSid + 1, (s.loop c k).port)] := by
    rw [takenIn_snoc hRun, takesIn, if_pos hPc]
  have hReg : s.Registered c := hs.loops.registered (by simp [hPc] : (s.loop c k).pc ≠ .absent)
  obtain ⟨-, -, b, hb, hPort⟩ := hs.loops.owner c k (by simp [hPc])
  have hSent : ∀ d, sentOn E (acts ++ [.loop c k .tau]) t d = sentOn E acts s d := by
    intro d
    rw [sentOn, sentOn, received, trace_snoc _ _ _ hRun, hAlloc]
    simp [handedOver, loopTo, received]
  subst hAlloc
  constructor
  · intro sid port hMem
    rw [hTaken] at hMem
    rcases List.mem_append.mp hMem with hMem | hMem
    · obtain ⟨hLe, hOld⟩ := hTraffic.taken sid port hMem
      have hne : sid ≠ s.nextSid + 1 := by omega
      simpa [loopTo, hne, Registered] using ⟨Nat.le_succ_of_le hLe, hOld⟩
    · obtain ⟨rfl, rfl⟩ := Prod.mk.inj (List.mem_singleton.mp hMem)
      refine ⟨le_rfl, by simpa [loopTo, Registered] using hReg, b, ?_, hPort.symm⟩
      simpa [loopTo] using List.mem_of_getElem? hb
  · intro d j sid hSid
    rw [hTaken]
    by_cases hHit : d = c ∧ j = k
    · obtain ⟨rfl, rfl⟩ := hHit
      obtain rfl : s.nextSid + 1 = sid := by simpa [loopTo, AcceptPc.sid] using hSid
      exact ⟨_, List.mem_append_right _ (List.mem_singleton_self _)⟩
    · rw [loopTo] at hSid
      simp only [setLoop_apply, if_neg hHit] at hSid
      obtain ⟨port, hMem⟩ := hTraffic.held d j sid hSid
      exact ⟨port, List.mem_append_left _ hMem⟩
  · intro sid hBorn
    rw [hTaken]
    by_cases hNew : sid = s.nextSid + 1
    · subst hNew
      exact ⟨_, List.mem_append_right _ (List.mem_singleton_self _)⟩
    · obtain ⟨port, hMem⟩ := hTraffic.born sid (by simpa [Born, loopTo, hNew] using hBorn)
      exact ⟨port, List.mem_append_left _ hMem⟩
  · intro d f hf hCarries
    obtain ⟨hOwner, port, hMem⟩ := hTraffic.frames d f (hSent d ▸ hf) hCarries
    have hLe := (hTraffic.taken _ _ hMem).1
    have hne : f.streamId ≠ s.nextSid + 1 := by omega
    rw [hTaken]
    exact ⟨by simpa [loopTo, hne] using hOwner, port, List.mem_append_left _ hMem⟩

theorem standing_run (hRun : run (Server.step E) init acts = some s) :
    Standing E acts s ∧ Traffic E acts s := by
  refine (run_induction (motive := fun acts s => run (Server.step E) init acts = some s ∧
    Standing E acts s ∧ Traffic E acts s) hRun ⟨rfl, standing_init E, traffic_init E⟩ ?_).2
  rintro acts s a t hRun ⟨-, hs, hTraffic⟩ hStep
  refine ⟨run_snoc _ hRun hStep, hs.step hStep, ?_⟩
  rcases step_takesIn hs.ids hStep with ⟨hNone, hKeeps⟩ | ⟨c, k, rfl, hPc, hAlloc⟩
  · exact hTraffic.of_keepsIds hs hRun hStep hNone hKeeps
  · exact hTraffic.alloc hs hRun hStep hPc hAlloc

/-! ## Connections outside -/

/-- The first frame of connection `c` has not come or has failed. -/
def TurnedAway (s : Server) (c : ConnId) : Prop :=
  s.phase c = .recvFirst ∨ ∃ err, s.phase c = .refused err

theorem TurnedAway.outside (h : s.TurnedAway c) : (s.phase c).stage = .outside := by
  rcases h with h | ⟨err, h⟩ <;> rw [h] <;> rfl

theorem not_registered_of_outside (h : (s.phase c).stage = .outside) : ¬s.Registered c :=
  fun hReg => stage_of_registered hReg h

theorem outside_step (hFresh : FreshConns s) (h : step E s a = some t)
    (hOut : (t.phase c).stage = .outside) : (s.phase c).stage = .outside := by
  rcases step_phase h c with ⟨e, rfl, hMove⟩ | ⟨-, -, hSame | ⟨rfl, hNew⟩⟩
  · by_contra hIn
    have hFirst : s.phase c ≠ .recvFirst := fun hAt => hIn (by rw [hAt]; rfl)
    exact (connMove_inside hMove hFirst).2.1 hOut
  · rwa [← hSame]
  · rw [hFresh s.nextConn le_rfl]
    rfl

/-- The acts of a run but for those of connection `c`. -/
def actsWithout (E : Env) (c : ConnId) (acts : List ServerAct) : List ServerAct :=
  trace (step E) (fun s a => (elsewhere c s a).toList) init acts

section Outside

variable (hs : Standing E acts s) (hOut : (s.phase c).stage = .outside)
include hOut

theorem Traffic.owner_ne (hTraffic : Traffic E acts s) {sid : Nat} (hBorn : s.Born sid) :
    (s.stream sid).owner ≠ c := by
  rintro rfl
  obtain ⟨port, hMem⟩ := hTraffic.born sid hBorn
  exact not_registered_of_outside hOut (hTraffic.taken sid port hMem).2.1

include hs

theorem Standing.loop_absent (k : Nat) : (s.loop c k).pc = .absent := by
  by_contra hPc
  exact not_registered_of_outside hOut (hs.loops.registered hPc)

theorem Standing.apart (d : ConnId) : s.Apart c d := by
  have hNot := not_registered_of_outside hOut
  refine ⟨fun cur hCur => ?_, fun old hOld => ?_, fun old hOld => ?_, fun k => ?_⟩
  · rintro rfl
    exact hNot (hs.wf.holder _ _ hCur).2
  · rintro rfl
    exact hNot (hs.wf.shutting d old (by simp [registry, hOld, Phase.stage])).2
  · rintro rfl
    have hStage : s.registry.stage d = .entering old := by
      rcases hOld with hOld | hOld <;> simp [registry, hOld, Phase.stage]
    exact hNot (hs.wf.entering d old hStage).2.1
  · simp [AcceptLoop.live, hs.loop_absent hOut k]

theorem Standing.conn_ne {n : Nat} (hPc : (s.task n).pc ≠ .absent) : (s.task n).conn ≠ c := by
  rintro rfl
  have hLt : n < s.nextTask := by
    by_contra hLe
    exact hPc (hs.proxy.outbox.requests.fresh n (Nat.le_of_not_lt hLe))
  exact not_registered_of_outside hOut (hs.proxy.outbox.requests.read n hLt).2

end Outside

/-- The step of a connection that stays outside. -/
theorem without_own_step {e : ConnEv} (hOut : (t.phase c).stage = .outside)
    (hMove : ConnMove E s c e t) (fails : String → Nat) : t.without c fails = s.without c fails := by
  have hFirst : s.phase c = .recvFirst := by
    by_contra hNot
    exact (connMove_inside hMove hNot).2.1 hOut
  cases hMove with
  | refused r reason text =>
    simp [without, goto, setMetrics, update_comp_skip_self, Metrics.withFails, Metrics.failHandshake]
  | welcomed => simp [Phase.stage] at hOut
  | recv pc e u hPhase => simp [hFirst] at hPhase
  | _ => simp_all

/-- A step is the same step without a connection outside, or one of its own. -/
theorem Standing.without_step (hs : Standing E acts s) (hTraffic : Traffic E acts s)
    (h : Server.step E s a = some t) (hOut : (t.phase c).stage = .outside) (fails : String → Nat) :
    (elsewhere c s a = none ∧ t.without c fails = s.without c fails) ∨
      ∃ b fails', elsewhere c s a = some b ∧
        Server.step E (s.without c fails) b = some (t.without c fails') := by
  have hWas := outside_step hs.fresh h hOut
  cases a with
  | connect nonce issuedAt =>
    cases h
    by_cases hc : s.nextConn = c
    · exact .inl ⟨if_pos hc, without_connect_self hc nonce issuedAt⟩
    · exact .inr ⟨_, fails, if_neg hc, congrArg some (without_connect hc nonce issuedAt).symm⟩
  | conn d e =>
    by_cases hd : d = c
    · subst hd
      exact .inl ⟨if_pos rfl, without_own_step hOut (connStep_move h) fails⟩
    · obtain ⟨fails', hStep⟩ := without_connStep hd (hs.apart hWas d) h
      exact .inr ⟨_, fails', if_neg hd, hStep⟩
  | loop d k e =>
    by_cases hd : d = c
    · subst hd
      have hMove : LoopMove E s d k e t := loopStep_move h
      have hAbsent := hs.loop_absent hWas k
      cases hMove <;> simp_all
    · refine .inr ⟨_, fails, if_neg hd, ?_⟩
      rw [Server.step, without_loopStep hd]
      exact Option.map_eq_some_iff.mpr ⟨t, h, rfl⟩
  | up sid e =>
    have hBorn : s.Born sid := .inl fun hAbsent => by simp [Server.step, upStep, hAbsent] at h
    refine .inr ⟨_, fails, rfl, ?_⟩
    rw [Server.step, without_upStep (hTraffic.owner_ne hWas hBorn)]
    exact Option.map_eq_some_iff.mpr ⟨t, h, rfl⟩
  | down sid e =>
    have hBorn : s.Born sid := .inr fun hAbsent => by simp [Server.step, downStep, hAbsent] at h
    refine .inr ⟨_, fails, rfl, ?_⟩
    rw [Server.step, without_downStep (hTraffic.owner_ne hWas hBorn)]
    exact Option.map_eq_some_iff.mpr ⟨t, h, rfl⟩
  | http n e =>
    have hPc : (s.task n).pc ≠ .absent := fun hAbsent => by
      cases e <;> simp [Server.step, httpStep, httpTau, HttpPc.awaits, hAbsent] at h
    refine .inr ⟨_, fails, rfl, ?_⟩
    rw [Server.step, without_httpStep (hs.conn_ne hWas hPc)]
    exact Option.map_eq_some_iff.mpr ⟨t, h, rfl⟩
  | env e =>
    cases hElse : elsewhere c s (.env e) with
    | none =>
      exact .inl ⟨rfl, without_envStep_self hElse h⟩
    | some b =>
      obtain ⟨e', rfl, hStep⟩ := @without_envStep c fails s e b hElse
      refine .inr ⟨_, fails, rfl, ?_⟩
      rw [Server.step, hStep]
      exact Option.map_eq_some_iff.mpr ⟨t, h, rfl⟩

theorem without_init (c : ConnId) : init.without c (fun _ => 0) = init := by
  simp [without, init, countSkip, unskip, sessionsWithout, Metrics.withFails, Metrics.zero,
    Function.comp_def, Phase.without, HubStream.without, HttpTask.without]
  rfl

/-- The run without a connection outside leads to the state without it. -/
theorem without_run (hRun : run (step E) init acts = some s)
    (hOut : (s.phase c).stage = .outside) :
    ∃ fails, run (step E) init (actsWithout E c acts) = some (s.without c fails) := by
  refine run_induction (motive := fun acts s => (s.phase c).stage = .outside →
    ∃ fails, run (step E) init (actsWithout E c acts) = some (s.without c fails)) hRun
    (fun _ => ⟨fun _ => 0, congrArg some (without_init c).symm⟩) ?_ hOut
  intro acts s a t hBefore ih hStep hOut
  obtain ⟨hs, hTraffic⟩ := standing_run hBefore
  obtain ⟨fails, hRest⟩ := ih (outside_step hs.fresh hStep hOut)
  rw [actsWithout, trace_snoc _ _ _ hBefore]
  rcases hs.without_step hTraffic hStep hOut fails with ⟨hNone, hSame⟩ | ⟨b, fails', hSome, hNew⟩
  · rw [hNone, Option.toList_none, List.append_nil]
    exact ⟨fails, by rw [hSame]; exact hRest⟩
  · rw [hSome]
    exact ⟨fails', run_snoc _ hRest hNew⟩

/-- A live accept loop holds the port. -/
def Listening (s : Server) (port : Nat) : Prop :=
  ∃ c k, (s.loop c k).live = true ∧ (s.loop c k).port = port

/-- The two states have the same of everything that connection `c` could have changed. -/
structure SameWithout (c : ConnId) (s t : Server) : Prop where
  sessions : ∀ id, s.sessions.lookup id = (t.sessions.lookup id).map (skip c)
  session : ∀ d, s.session (skip c d) = t.session d
  listening : ∀ port, s.Listening port ↔ t.Listening port
  connected : s.metrics.connected = t.metrics.connected

theorem Standing.sameWithout (hs : Standing E acts s) (hOut : (s.phase c).stage = .outside)
    (fails : String → Nat) : SameWithout c s (s.without c fails) where
  sessions id := by
    rw [without_lookup]
    cases hCur : s.sessions.lookup id with
    | none => rfl
    | some cur =>
      have hne : cur ≠ c := by
        rintro rfl
        exact not_registered_of_outside hOut (hs.wf.holder _ _ hCur).2
      simp [skip_unskip hne]
  session _ := rfl
  listening port := by
    constructor
    · rintro ⟨d, k, hLive, hPort⟩
      have hne : d ≠ c := by
        rintro rfl
        simp [AcceptLoop.live, hs.loop_absent hOut k] at hLive
      exact ⟨unskip c d, k, by rw [without_loop s hne]; exact ⟨hLive, hPort⟩⟩
    · rintro ⟨d, k, hLive, hPort⟩
      exact ⟨skip c d, k, hLive, hPort⟩
  connected := rfl

theorem step_nextConn (h : step E s a = some t) :
    t.nextConn = s.nextConn ∨ ∃ nonce issuedAt, a = .connect nonce issuedAt := by
  cases a with
  | connect nonce issuedAt => exact .inr ⟨nonce, issuedAt, rfl⟩
  | conn d e => exact .inl (connMove_frame (connStep_move h)).2.1
  | loop d k e => exact .inl (loopMove_control (loopStep_move h)).nextConn
  | _ => exact .inl (data_control h (by simp) (by simp) (by simp)).1.nextConn

theorem sentOn_outside (hRun : run (step E) init acts = some s) :
    ∀ c, (s.phase c).stage = .outside → (s.nextConn ≤ c → sentOn E acts s c = []) ∧
      (c < s.nextConn →
        ∃ nonce issuedAt, sentOn E acts s c = [⟨0, some (.challenge nonce issuedAt)⟩]) := by
  refine run_induction (motive := fun acts s => ∀ c, (s.phase c).stage = .outside →
    (s.nextConn ≤ c → sentOn E acts s c = []) ∧ (c < s.nextConn →
      ∃ nonce issuedAt, sentOn E acts s c = [⟨0, some (.challenge nonce issuedAt)⟩])) hRun
    (fun c _ => by simp [sentOn, received, trace, init]) ?_
  intro acts s a t hBefore ih hStep c hOut
  obtain ⟨hs, hTraffic⟩ := standing_run hBefore
  have hWas := outside_step hs.fresh hStep hOut
  obtain ⟨hNone, hSome⟩ := ih c hWas
  have hSends : ∀ f, ¬Sends s c a f t := by
    intro f hSends
    cases hSends with
    | openStream k sid _ hPc => simp [hs.loop_absent hWas k] at hPc
    | data sid payload _ hOwner hPc =>
      exact hTraffic.owner_ne hWas (.inl (by simp [hPc])) hOwner
    | close sid _ hOwner hPc => exact hTraffic.owner_ne hWas (.inl (by simp [hPc])) hOwner
    | response _ n resp _ hConn hPc =>
      refine hs.conn_ne hWas (fun hAbsent => ?_) hConn
      rcases hPc with hPc | ⟨hPc, -⟩ <;> simp [hAbsent] at hPc
  by_cases hAccept : c = s.nextConn ∧ ∃ nonce issuedAt, a = .connect nonce issuedAt
  · obtain ⟨rfl, nonce, issuedAt, rfl⟩ := hAccept
    have hOld := hNone le_rfl
    rw [sentOn, List.append_eq_nil_iff] at hOld
    cases hStep
    refine ⟨fun hLe => absurd hLe (Nat.not_succ_le_self _), fun _ => ⟨nonce, issuedAt, ?_⟩⟩
    rw [sentOn, received, trace_snoc _ _ _ hBefore, ← received, hOld.1]
    simp [handedOver, connect]
  · have hCount : t.nextConn ≤ c ↔ s.nextConn ≤ c := by
      rcases step_nextConn hStep with hNext | ⟨nonce, issuedAt, rfl⟩
      · rw [hNext]
      · have hne : c ≠ s.nextConn := fun hEq => hAccept ⟨hEq, nonce, issuedAt, rfl⟩
        cases hStep
        exact Nat.succ_le_iff.trans (Nat.lt_iff_le_and_ne.trans (and_iff_left hne.symm))
    have hSame : sentOn E (acts ++ [a]) t c = sentOn E acts s c := by
      refine (sentOn_step hBefore hs.proxy.outbox hStep c).resolve_right ?_
      rintro ⟨f, -, hSent | ⟨hConn, nonce, issuedAt, hAct, -⟩⟩
      · exact hSends f hSent
      · exact hAccept ⟨hConn, nonce, issuedAt, hAct⟩
    rw [hSame, hCount, ← Nat.not_le, hCount, Nat.not_le]
    exact ⟨hNone, hSome⟩

/-- A connection whose handshake fails or does not come changes nothing of the sessions, the
ports and the gauge and gets nothing but the challenge; and what a port takes in goes to
connections whose first frame had the token of a spoke with that port. -/
theorem refused_connection_unnoticed (E : Env) {acts : List ServerAct} {s : Server}
    (hRun : run (step E) init acts = some s) :
    (∀ c, s.TurnedAway c →
      (∃ t, run (step E) init (actsWithout E c acts) = some t ∧ SameWithout c s t) ∧
      ∃ nonce issuedAt, sentOn E acts s c = [⟨0, some (.challenge nonce issuedAt)⟩]) ∧
    ∀ c, ∀ f ∈ sentOn E acts s c, carries f = true →
      (∃ port, (f.streamId, port) ∈ takenIn E acts) ∧
      ∃ hs sc, Authenticated E acts c hs sc ∧
        ∀ port, (f.streamId, port) ∈ takenIn E acts → ∃ b ∈ sc.ports, b.port = port := by
  obtain ⟨hs, hTraffic⟩ := standing_run hRun
  refine ⟨fun c hAway => ⟨?_, ?_⟩, fun c f hf hCarries => ?_⟩
  · obtain ⟨fails, hRest⟩ := without_run hRun hAway.outside
    exact ⟨_, hRest, hs.sameWithout hAway.outside fails⟩
  · have hLt : c < s.nextConn := by
      by_contra hLe
      have hAbsent := hs.fresh c (Nat.le_of_not_lt hLe)
      rcases hAway with hAt | ⟨err, hAt⟩ <;> simp [hAbsent] at hAt
    exact (sentOn_outside hRun c hAway.outside).2 hLt
  · obtain ⟨rfl, port, hMem⟩ := hTraffic.frames c f hf hCarries
    obtain ⟨-, hReg, -⟩ := hTraffic.taken _ _ hMem
    obtain ⟨hello, hAuth, -⟩ := hs.proxy.frames.inside _ (stage_of_registered hReg)
    exact ⟨⟨port, hMem⟩, hello, _, hAuth, fun port hPort => (hTraffic.taken _ _ hPort).2.2⟩

/-- A stranger guesses the token, and then the port of the spoke takes in a connection. -/
def strangerRefused : List ServerAct :=
  oneSpoke ++ [.connect [] 0,
    .conn 1 (.frame (some (.ok ⟨0, some (.handshake ⟨"edge", asBytes "guess", "tc"⟩)⟩))),
    .loop 0 0 .tau, .loop 0 0 (.accept (.ok ())), .loop 0 0 .tau, .loop 0 0 .tau, .loop 0 0 .tau,
    .loop 0 0 .tau]

theorem strangerRefused_unnoticed :
    ∃ s, run (step edgeEnv) init strangerRefused = some s ∧
      (∃ t, run (step edgeEnv) init (actsWithout edgeEnv 1 strangerRefused) = some t ∧
        SameWithout 1 s t) ∧
      ∃ hs sc, Authenticated edgeEnv strangerRefused 0 hs sc ∧ ∃ b ∈ sc.ports, b.port = 10001 := by
  obtain ⟨s, hRun, hs⟩ := exists_run_of_any (step edgeEnv) init strangerRefused
    (fun s => s.phase 1 = .refused "bad token for edge" &&
      (s.outbox 0).getLast? = some ⟨1, some (.openStream "tcp" "default")⟩) (by decide)
  simp only [Bool.and_eq_true, decide_eq_true_eq] at hs
  obtain ⟨hRefused, hOpened⟩ := hs
  have hTaken : takenIn edgeEnv strangerRefused = [(1, 10001)] := by decide
  obtain ⟨hAway, hCarried⟩ := refused_connection_unnoticed edgeEnv hRun
  obtain ⟨-, hs, sc, hAuth, hPort⟩ := hCarried 0 ⟨1, some (.openStream "tcp" "default")⟩
    (List.mem_append_right _ (List.mem_of_getLast? hOpened)) rfl
  exact ⟨s, hRun, (hAway 1 (.inr ⟨_, hRefused⟩)).1, hs, sc, hAuth,
    hPort 10001 (by rw [hTaken]; exact List.mem_singleton_self _)⟩

end OpenSpoke.Tunnel.Server
