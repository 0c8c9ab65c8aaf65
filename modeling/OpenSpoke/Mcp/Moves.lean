import OpenSpoke.Mcp.Manager

/-!
# What a step of the session manager does

The branches of `step` as a relation, and what they do to transports and to the
requests that are being handled.
-/

namespace OpenSpoke.Mcp

open Lts

inductive Move (E : Server) (s : Manager) : ManagerAct → Manager → Prop
  | arrive (n : Nat) (sid : Option Nat) (method : Method) (headers : Headers) (r : Request)
      (hPc : s.pc n = .absent) (hSid : r.sid = sid) (hMethod : r.method = method)
      (hNew : r.pc = .entered ∧ E.auth.authenticate r.headers = some r.payload ∨
        r.pc = .done false) :
      Move E s (.arrive n sid method headers) { s with req := Function.update s.req n r }
  | acquire (n : Nat)
      (hPc : s.pc n = .entered ∧ (s.req n).sid = none ∨ s.pc n = .checking ∧
        ∃ sid, (s.req n).sid = some sid ∧ s.known E.sessionTtl sid = true) :
      Move E s (.go n) (s.acquire n)
  | serve (n : Nat) (i : Instance)
      (hPc : s.pc n = .entered ∨ s.pc n = .checking ∧ s.known E.sessionTtl i.sid = false)
      (hSid : (s.req n).sid = some i.sid) (hFind : s.instanceOf i.sid = some i) :
      Move E s (.go n) (s.serve n i false)
  | serveLocked (n : Nat) (i : Instance) (hPc : s.pc n = .locked)
      (hSid : (s.req n).sid = some i.sid) (hFind : s.instanceOf i.sid = some i) :
      Move E s (.go n) (s.serve n i true)
  | check (n sid : Nat) (hPc : s.pc n = .entered) (hSid : (s.req n).sid = some sid)
      (hNone : s.instanceOf sid = none) : Move E s (.go n) (s.goto n .checking)
  | refuse (n sid : Nat) (hPc : s.pc n = .checking) (hSid : (s.req n).sid = some sid)
      (hUnknown : s.known E.sessionTtl sid = false) (hNone : s.instanceOf sid = none) :
      Move E s (.go n) (s.goto n (.done false))
  | create (n : Nat) (hPc : s.pc n = .locked) (hSid : (s.req n).sid = none) :
      Move E s (.go n) (s.create E.lockedCreation n)
  | rehydrate (n sid : Nat) (hPc : s.pc n = .locked) (hSid : (s.req n).sid = some sid)
      (hNone : s.instanceOf sid = none) : Move E s (.go n) (s.rehydrate n sid)
  | register (n sid : Nat) (rest : List Nat) (hPc : s.pc n = .registering (sid :: rest)) :
      Move E s (.go n) { s.goto n (.registering rest) with
        registry := Function.update s.registry sid (some s.now) }
  | registered (n : Nat) (hPc : s.pc n = .registering []) :
      Move E s (.go n) (s.goto n (.done true))
  | answer (a : ManagerAct) (n sid starter : Nat) (ctx : Payload) (locked : Bool)
      (hPc : s.pc n = .handling sid starter ctx locked)
      (hAct : a = .finish n ∧ (s.req n).method ≠ .get ∨ a = .disconnect n ∧
        (s.req n).method = .get) : Move E s a (s.answer n sid starter locked)
  | tick (d : Nat) : Move E s (.tick d) { s with now := s.now + d }
  | gone (sid : Nat) :
      Move E s (.gone sid) { s with instances := Keyed.remove Instance.sid sid s.instances }
  | restart : Move E s .restart { s with
      instances := []
      lock := .free
      req := fun n => { s.req n with pc := if s.pc n = .absent then .absent else .done false } }

variable {E : Server} {s t : Manager} {a : ManagerAct} {n m : Nat}

theorem sid_of_instanceOf {sid : Nat} {i : Instance} (h : s.instanceOf sid = some i) :
    i.sid = sid := Keyed.key_of_find h

theorem goStep_move (h : s.goStep E n = some t) : Move E s (.go n) t := by
  unfold Manager.goStep at h
  cases hPc : s.pc n <;> cases hSid : (s.req n).sid <;> simp only [hPc, hSid] at h
  case entered.none =>
    cases h
    exact .acquire n (.inl ⟨hPc, hSid⟩)
  case entered.some sid =>
    cases hFind : s.instanceOf sid with
    | none =>
      simp only [hFind] at h
      cases h
      exact .check n sid hPc hSid hFind
    | some i =>
      simp only [hFind] at h
      cases h
      obtain rfl := sid_of_instanceOf hFind
      exact .serve n i (.inl hPc) hSid hFind
  case checking.some sid =>
    cases hKnown : s.known E.sessionTtl sid with
    | true =>
      simp only [hKnown, if_true] at h
      cases h
      exact .acquire n (.inr ⟨hPc, sid, hSid, hKnown⟩)
    | false =>
      simp only [hKnown, Bool.false_eq_true, if_false] at h
      cases hFind : s.instanceOf sid with
      | none =>
        simp only [hFind] at h
        cases h
        exact .refuse n sid hPc hSid hKnown hFind
      | some i =>
        simp only [hFind] at h
        cases h
        obtain rfl := sid_of_instanceOf hFind
        exact .serve n i (.inr ⟨hPc, hKnown⟩) hSid hFind
  case locked.none =>
    cases h
    exact .create n hPc hSid
  case locked.some sid =>
    cases hFind : s.instanceOf sid with
    | none =>
      simp only [hFind] at h
      cases h
      exact .rehydrate n sid hPc hSid hFind
    | some i =>
      simp only [hFind] at h
      cases h
      obtain rfl := sid_of_instanceOf hFind
      exact .serveLocked n i hPc hSid hFind
  case registering.none rest =>
    cases rest with
    | nil =>
      cases h
      exact .registered n hPc
    | cons sid rest =>
      cases h
      exact .register n sid rest hPc
  case registering.some rest _ =>
    cases rest with
    | nil =>
      cases h
      exact .registered n hPc
    | cons sid rest =>
      cases h
      exact .register n sid rest hPc
  all_goals cases h

theorem step_move (h : Manager.step E s a = some t) : Move E s a t := by
  cases a with
  | arrive n sid method headers =>
    simp only [Manager.step, Option.ite_none_right_eq_some, Option.some.injEq] at h
    obtain ⟨hPc, rfl⟩ := h
    cases hAuth : E.auth.authenticate headers with
    | none => exact .arrive n sid method headers _ hPc rfl rfl (.inr rfl)
    | some p => exact .arrive n sid method headers _ hPc rfl rfl (.inl ⟨rfl, hAuth⟩)
  | go n => exact goStep_move h
  | finish n =>
    simp only [Manager.step] at h
    cases hPc : s.pc n <;> simp only [hPc] at h
    case handling sid starter ctx locked =>
      simp only [Option.ite_none_left_eq_some, Option.some.injEq] at h
      obtain ⟨hMethod, rfl⟩ := h
      exact .answer _ n sid starter ctx locked hPc (.inl ⟨rfl, hMethod⟩)
    all_goals cases h
  | disconnect n =>
    simp only [Manager.step] at h
    cases hPc : s.pc n <;> simp only [hPc] at h
    case handling sid starter ctx locked =>
      simp only [Option.ite_none_right_eq_some, Option.some.injEq] at h
      obtain ⟨hMethod, rfl⟩ := h
      exact .answer _ n sid starter ctx locked hPc (.inr ⟨rfl, hMethod⟩)
    all_goals cases h
  | tick d =>
    cases h
    exact .tick d
  | gone sid =>
    cases h
    exact .gone sid
  | restart =>
    cases h
    exact .restart

/-! ## Requests -/

theorem create_eq (s : Manager) (locked : Bool) (n : Nat) : ∃ x : Sessions,
    (x.instances = s.instances ++ [⟨s.nextSid, n, (s.req n).payload, false⟩] ∧
      x.registry = s.registry ∧ x.nextSid = s.nextSid + 1 ∧ x.deleted = s.deleted) ∧
    s.create locked n = ({ s with toSessions := x }.goto n
      (.handling s.nextSid n (s.req n).payload locked)).releaseIf !locked := by
  refine ⟨_, ?_, rfl⟩
  exact ⟨rfl, rfl, rfl, rfl⟩

theorem rehydrate_eq (s : Manager) (n sid : Nat) : ∃ x : Sessions,
    (x.instances = s.instances ++ [⟨sid, n, (s.req n).payload, false⟩] ∧
      x.registry = s.registry ∧ x.nextSid = s.nextSid ∧ x.deleted = s.deleted) ∧
    s.rehydrate n sid =
      { s with toSessions := x }.goto n (.handling sid n (s.req n).payload true) := by
  refine ⟨_, ?_, rfl⟩
  exact ⟨rfl, rfl, rfl, rfl⟩

theorem data_serve (i : Instance) (locked : Bool) :
    ((s.serve n i locked).req m).data = (s.req m).data := by
  unfold Manager.serve
  split
  · rw [Manager.releaseIf_data, Manager.goto_data]
  · exact Manager.goto_data

theorem data_answer (sid starter : Nat) (locked : Bool) :
    ((s.answer n sid starter locked).req m).data = (s.req m).data := by
  simp only [Manager.answer]
  rw [Manager.releaseIf_data, Manager.goto_data]

theorem data_eq {r r' : Request} (h : r'.data = r.data) :
    r'.sid = r.sid ∧ r'.method = r.method ∧ r'.headers = r.headers ∧ r'.payload = r.payload := by
  simpa [Request.data] using h

theorem Move.data_or (h : Move E s a t) : (t.req m).data = (s.req m).data ∨
    s.pc m = .absent ∧ ∃ sid headers, a = .arrive m sid (t.req m).method headers := by
  cases h with
  | arrive n sid method headers r hPc hSid hMethod =>
    by_cases hmn : m = n
    · subst hmn
      exact .inr ⟨hPc, sid, headers, by simp [hMethod]⟩
    · exact .inl (by simp [hmn])
  | acquire => exact .inl Manager.acquire_data
  | serve n i | serveLocked n i => exact .inl (data_serve i _)
  | check | refuse | registered => exact .inl Manager.goto_data
  | create n =>
    obtain ⟨x, -, hEq⟩ := create_eq s E.lockedCreation n
    rw [hEq, Manager.releaseIf_data, Manager.goto_data]
    exact .inl rfl
  | rehydrate n sid => exact .inl (data_serve (s := s.start n sid) _ _)
  | register => exact .inl Manager.goto_data
  | answer => exact .inl (data_answer _ _ _)
  | tick | gone | restart => exact .inl rfl

theorem Move.data (h : Move E s a t) (hm : s.pc m ≠ .absent) :
    (t.req m).data = (s.req m).data :=
  h.data_or.resolve_right fun hNew => hm hNew.1

theorem pc_of_release {pc : Pc} (h : s.release.pc m = pc) (hne : pc ≠ .locked) : s.pc m = pc := by
  by_cases hNext : s.lock.waiting.head? = some m
  · rw [Manager.pc_release_next hNext] at h
    exact absurd h.symm hne
  · rwa [Manager.pc_release_of_ne hNext] at h

theorem pc_of_releaseIf {pc : Pc} {locked : Bool} (h : (s.releaseIf locked).pc m = pc)
    (hne : pc ≠ .locked) : s.pc m = pc := by
  unfold Manager.releaseIf at h
  split at h
  · exact pc_of_release h hne
  · exact h

theorem pc_of_goto {pc new : Pc} (h : (s.goto n new).pc m = pc) (hne : pc ≠ new) : s.pc m = pc := by
  by_cases hmn : m = n
  · subst hmn
    rw [Manager.pc_goto_self] at h
    exact absurd h.symm hne
  · rwa [Manager.pc_goto_of_ne hmn] at h

theorem pc_of_acquire {pc : Pc} (h : (s.acquire n).pc m = pc) (hLocked : pc ≠ .locked)
    (hWaiting : pc ≠ .waiting) : s.pc m = pc := by
  refine pc_of_goto (n := n) h ?_
  split
  · exact hLocked
  · exact hWaiting

theorem pc_of_serve {i : Instance} {locked : Bool} {pc : Pc} (h : (s.serve n i locked).pc m = pc)
    (hLocked : pc ≠ .locked) (hDone : pc ≠ .done false)
    (hHandling : pc ≠ .handling i.sid i.starter i.ctx locked) : s.pc m = pc := by
  unfold Manager.serve at h
  split at h
  · exact pc_of_goto (pc_of_releaseIf h hLocked) hDone
  · exact pc_of_goto (n := n) h hHandling

theorem Move.absent (h : Move E s a t) (hm : t.pc m = .absent) : s.pc m = .absent := by
  cases h with
  | arrive n sid' method headers r hPc hSid hMethod hNew =>
    by_cases hmn : m = n
    · exact hmn ▸ hPc
    · simpa [Manager.pc, hmn] using hm
  | acquire => exact pc_of_acquire hm (by simp) (by simp)
  | serve | serveLocked => exact pc_of_serve hm (by simp) (by simp) (by simp)
  | check | refuse | registered => exact pc_of_goto hm (by simp)
  | create =>
    have hOld := pc_of_serve (pc_of_releaseIf hm (by simp)) (by simp) (by simp) (by simp)
    exact hOld
  | rehydrate n sid => exact pc_of_serve (s := s.start n sid) hm (by simp) (by simp) (by simp)
  | register n sid rest => exact @pc_of_goto s n m _ (.registering rest) hm (by simp)
  | answer =>
    have hOld := pc_of_goto (pc_of_releaseIf hm (by simp)) (by split <;> simp)
    exact hOld
  | tick | gone => exact hm
  | restart =>
    by_contra hOld
    have hDone : (if s.pc m = .absent then Pc.absent else .done false) = .absent := hm
    rw [if_neg hOld] at hDone
    cases hDone

theorem Move.checking (h : Move E s a t) (hm : t.pc m = .checking) :
    s.pc m = .checking ∨ s.pc m ≠ .absent ∧ (s.req m).sid.isSome = true := by
  cases h with
  | arrive n sid' method headers r hPc hSid hMethod hNew =>
    by_cases hmn : m = n
    · subst hmn
      have hEq : r.pc = .checking := by simpa [Manager.pc] using hm
      rcases hNew with ⟨hNew, -⟩ | hNew <;> rw [hNew] at hEq <;> cases hEq
    · exact .inl (by simpa [Manager.pc, hmn] using hm)
  | acquire => exact .inl (pc_of_acquire hm (by simp) (by simp))
  | serve n i | serveLocked n i => exact .inl (pc_of_serve hm (by simp) (by simp) (by simp))
  | check n sid hPc hSid =>
    by_cases hmn : m = n
    · subst hmn
      exact .inr ⟨by rw [hPc]; exact Pc.noConfusion, by rw [hSid]; rfl⟩
    · exact .inl ((Manager.pc_goto_of_ne hmn).symm.trans hm)
  | refuse | registered => exact .inl (pc_of_goto hm (by simp))
  | create =>
    have hOld := pc_of_serve (pc_of_releaseIf hm (by simp)) (by simp) (by simp) (by simp)
    exact .inl hOld
  | rehydrate n sid =>
    exact .inl (pc_of_serve (s := s.start n sid) hm (by simp) (by simp) (by simp))
  | register n sid rest => exact .inl (@pc_of_goto s n m _ (.registering rest) hm (by simp))
  | answer =>
    have hOld := pc_of_goto (pc_of_releaseIf hm (by simp)) (by split <;> simp)
    exact .inl hOld
  | tick | gone => exact .inl hm
  | restart =>
    have hDone : (if s.pc m = .absent then Pc.absent else .done false) = .checking := hm
    split at hDone <;> cases hDone

/-! ## Transports that take a request in -/

/-- Request `n` is about to enter transport `i`, which is there and live. -/
structure Enters (E : Server) (s : Manager) (n : Nat) (i : Instance) : Prop where
  pc : s.pc n = .entered ∨ s.pc n = .checking ∧ s.known E.sessionTtl i.sid = false ∨
    s.pc n = .locked
  sid : (s.req n).sid = some i.sid
  find : s.instanceOf i.sid = some i
  live : i.terminated = false

/-- Request `n` is about to start transport `i`. -/
structure Starts (s : Manager) (n : Nat) (i : Instance) : Prop where
  pc : s.pc n = .locked
  sid : (s.req n).sid = none ∧ i.sid = s.nextSid ∨
    (s.req n).sid = some i.sid ∧ s.instanceOf i.sid = none
  starter : i.starter = n
  ctx : i.ctx = (s.req n).payload
  live : i.terminated = false

theorem serve_handling {i : Instance} {locked l : Bool} {sid starter : Nat} {ctx : Payload}
    (h : (s.serve n i locked).pc m = .handling sid starter ctx l) :
    s.pc m = .handling sid starter ctx l ∨
      m = n ∧ i = ⟨sid, starter, ctx, false⟩ ∧ l = locked := by
  unfold Manager.serve at h
  split at h
  next => exact .inl (pc_of_goto (pc_of_releaseIf h (by simp)) (by simp))
  next hLive =>
    by_cases hmn : m = n
    · subst hmn
      have hPc : Pc.handling i.sid i.starter i.ctx locked = .handling sid starter ctx l :=
        Manager.pc_goto_self.symm.trans h
      cases hPc
      have hFalse : i.terminated = false := by simpa using hLive
      exact .inr ⟨rfl, by rw [← hFalse], rfl⟩
    · exact .inl ((Manager.pc_goto_of_ne hmn).symm.trans h)

theorem Move.handling (h : Move E s a t) {sid starter : Nat} {ctx : Payload} {locked : Bool}
    (hm : t.pc m = .handling sid starter ctx locked) :
    s.pc m = .handling sid starter ctx locked ∨
      a = .go m ∧ (locked = true → (s.req m).sid.isSome = true ∨ E.lockedCreation = true) ∧
        (Enters E s m ⟨sid, starter, ctx, false⟩ ∨ Starts s m ⟨sid, starter, ctx, false⟩) := by
  cases h with
  | arrive n sid' method headers r hPc hSid hMethod hNew =>
    by_cases hmn : m = n
    · subst hmn
      have hEq : r.pc = .handling sid starter ctx locked := by simpa [Manager.pc] using hm
      rcases hNew with ⟨hNew, -⟩ | hNew <;> rw [hNew] at hEq <;> cases hEq
    · exact .inl (by simpa [Manager.pc, hmn] using hm)
  | acquire => exact .inl (pc_of_acquire hm (by simp) (by simp))
  | serve n i hPc hSid hFind =>
    rcases serve_handling hm with hOld | ⟨rfl, rfl, rfl⟩
    · exact .inl hOld
    · exact .inr ⟨rfl, fun hLocked => absurd hLocked Bool.false_ne_true,
        .inl ⟨hPc.imp_right .inl, hSid, hFind, rfl⟩⟩
  | serveLocked n i hPc hSid hFind =>
    rcases serve_handling hm with hOld | ⟨rfl, rfl, rfl⟩
    · exact .inl hOld
    · exact .inr ⟨rfl, fun _ => .inl (hSid ▸ rfl), .inl ⟨.inr (.inr hPc), hSid, hFind, rfl⟩⟩
  | check | refuse | registered => exact .inl (pc_of_goto hm (by simp))
  | create n hPc hSid =>
    rcases serve_handling (pc_of_releaseIf hm (by simp)) with hOld | ⟨rfl, hNew, hLocked⟩
    · exact .inl hOld
    · cases hNew
      exact .inr ⟨rfl, fun hTrue => .inr (hLocked.symm.trans hTrue),
        .inr ⟨hPc, .inl ⟨hSid, rfl⟩, rfl, rfl, rfl⟩⟩
  | rehydrate n sid' hPc hSid hNone =>
    rcases serve_handling hm with hOld | ⟨rfl, hNew, -⟩
    · exact .inl hOld
    · cases hNew
      exact .inr ⟨rfl, fun _ => .inl (hSid ▸ rfl), .inr ⟨hPc, .inr ⟨hSid, hNone⟩, rfl, rfl, rfl⟩⟩
  | register n sid₁ rest => exact .inl (@pc_of_goto s n m _ (.registering rest) hm (by simp))
  | answer a n sid₁ starter₁ ctx₁ locked₁ hPc hAct =>
    have hOld := pc_of_goto (pc_of_releaseIf hm (by simp)) (by split <;> simp)
    exact .inl hOld
  | tick | gone => exact .inl hm
  | restart =>
    have hDone : (if s.pc m = .absent then Pc.absent else .done false) =
      .handling sid starter ctx locked := hm
    split at hDone <;> cases hDone

/-! ## Transports -/

theorem instances_serve {i : Instance} {locked : Bool} :
    (s.serve n i locked).instances = s.instances := by
  unfold Manager.serve
  split
  · rw [Manager.releaseIf_toSessions, Manager.goto_toSessions]
  · rfl

theorem mem_terminate {x : Sessions} {sid starter : Nat} {i : Instance}
    (hi : i ∈ (x.terminate sid starter).instances) :
    i ∈ x.instances ∧ ¬(i.sid = sid ∧ i.starter = starter) ∨
      ∃ i₀ ∈ x.instances, i₀.sid = sid ∧ i = { i₀ with terminated := true } := by
  obtain ⟨i₀, hMem, rfl⟩ := List.mem_map.mp hi
  split
  next hSame => exact .inr ⟨i₀, hMem, hSame.1, rfl⟩
  next hOther => exact .inl ⟨hMem, hOther⟩

theorem Move.instances (h : Move E s a t) {i : Instance} (hi : i ∈ t.instances) :
    i ∈ s.instances ∨
      (∃ i₀ ∈ s.instances, i = { i₀ with terminated := true } ∧ t.deleted i₀.sid = true ∧
        ∃ n, s.pc n ≠ .absent ∧ s.deletes n = true) ∨
      ∃ n, a = .go n ∧ Starts s n i := by
  cases h with
  | arrive | tick | register | check | refuse | registered => exact .inl hi
  | acquire =>
    rw [Manager.acquire_toSessions] at hi
    exact .inl hi
  | serve n i | serveLocked n i =>
    rw [instances_serve] at hi
    exact .inl hi
  | create n hPc hSid =>
    obtain ⟨x, ⟨hInstances, -⟩, hEq⟩ := create_eq s E.lockedCreation n
    rw [hEq, Manager.releaseIf_toSessions, Manager.goto_toSessions, hInstances] at hi
    rcases List.mem_append.mp hi with hOld | hNew
    · exact .inl hOld
    · obtain rfl := List.mem_singleton.mp hNew
      exact .inr (.inr ⟨n, rfl, hPc, .inl ⟨hSid, rfl⟩, rfl, rfl, rfl⟩)
  | rehydrate n sid hPc hSid hNone =>
    obtain ⟨x, ⟨hInstances, -⟩, hEq⟩ := rehydrate_eq s n sid
    rw [hEq, Manager.goto_toSessions, hInstances] at hi
    rcases List.mem_append.mp hi with hOld | hNew
    · exact .inl hOld
    · obtain rfl := List.mem_singleton.mp hNew
      exact .inr (.inr ⟨n, rfl, hPc, .inr ⟨hSid, hNone⟩, rfl, rfl, rfl⟩)
  | answer a n sid starter ctx locked hPc =>
    rw [Manager.answer, Manager.releaseIf_toSessions] at hi ⊢
    cases hDeletes : s.deletes n with
    | false => exact .inl (by simpa [Manager.answered, hDeletes] using hi)
    | true =>
      have hMem : i ∈ (s.terminate sid starter).instances := by
        simpa [Manager.answered, hDeletes] using hi
      rcases mem_terminate hMem with ⟨hOld, -⟩ | ⟨i₀, hOld, hSid, rfl⟩
      · exact .inl hOld
      · have hPresent : s.pc n ≠ .absent := by
          rw [hPc]
          exact Pc.noConfusion
        refine .inr (.inl ⟨i₀, hOld, rfl, ?_, n, hPresent, hDeletes⟩)
        simp [Manager.answered, hDeletes, Sessions.terminate, hSid]
  | gone sid => exact .inl (List.mem_of_mem_filter hi)
  | restart => cases hi

end OpenSpoke.Mcp
