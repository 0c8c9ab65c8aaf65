import OpenSpoke.Mcp.Blocking

/-!
# How long a session lives

A session goes on after a restart as long as Valkey has its registration. The
registrations are renewed when a session is created, and no DELETE takes one out.
-/

namespace OpenSpoke.Mcp

open Lts

/-- The session ids of a request that is past the lookup are below `k`. -/
def Pc.Below (k : Nat) (own : Option Nat) : Pc → Prop
  | .waiting | .locked => ∀ sid, own = some sid → sid < k
  | .handling sid _ _ _ => sid < k
  | .registering rest => ∀ sid ∈ rest, sid < k
  | _ => True

namespace Manager

variable (E : Server) (s : Manager)

def Entitled (sid : Nat) : Prop :=
  sid < s.nextSid ∧ s.deleted sid = false ∧ s.now < s.used sid + E.sessionTtl

/-- The registration of a session that is looked up lasts as long as the session, one that was
found registered is not deleted when the request has the lock, and a DELETE ends the transport in
the dictionary. -/
def Lasting : ManagerAct → Prop
  | .go n => ∀ sid, (s.req n).sid = some sid → s.instanceOf sid = none →
      (s.pc n = .checking → s.Entitled E sid → s.known E.sessionTtl sid = true) ∧
      (s.pc n = .locked → s.deleted sid = false)
  | .finish n => s.deletes n = true → ∀ sid starter ctx l, s.pc n = .handling sid starter ctx l →
      ∀ i ∈ s.instances, i.sid = sid → i.starter = starter
  | _ => True

instance decidableEntitled (sid : Nat) : Decidable (s.Entitled E sid) :=
  inferInstanceAs (Decidable (_ ∧ _ ∧ _))

instance decidableLasting : (a : ManagerAct) → Decidable (s.Lasting E a)
  | .go n =>
    match hSid : (s.req n).sid with
    | none => .isTrue fun sid h => by cases hSid.symm.trans h
    | some sid =>
      decidable_of_iff (s.instanceOf sid = none →
        (s.pc n = .checking → s.Entitled E sid → s.known E.sessionTtl sid = true) ∧
        (s.pc n = .locked → s.deleted sid = false)) (by simp [Lasting, hSid])
  | .finish n =>
    match hPc : s.pc n with
    | .handling sid starter _ _ =>
      decidable_of_iff (s.deletes n = true → ∀ i ∈ s.instances, i.sid = sid → i.starter = starter)
        ⟨fun h hDeletes _ _ _ _ hSame => by cases hPc.symm.trans hSame; exact h hDeletes,
          fun h hDeletes => h hDeletes _ _ _ _ hPc⟩
    | .absent | .entered | .checking | .waiting | .locked | .registering _ | .done _ =>
      .isTrue fun _ sid starter ctx l h => by cases hPc.symm.trans h
  | .arrive _ _ _ _ | .disconnect _ | .tick _ | .gone _ | .restart => .isTrue trivial

/-- Transports of a session are terminated if and only if it has been deleted. -/
def Ended : Prop := ∀ i ∈ s.instances, i.terminated = true ↔ s.deleted i.sid = true

/-- Every session id that is anywhere has been given out. -/
structure Numbered : Prop where
  instances : ∀ i ∈ s.instances, i.sid < s.nextSid
  registry : ∀ sid, (s.registry sid).isSome = true → sid < s.nextSid
  deleted : ∀ sid, s.deleted sid = true → sid < s.nextSid
  request : ∀ n, (s.pc n).Below s.nextSid (s.req n).sid

variable {E s} {t : Manager} {a : ManagerAct} {n m : Nat}

theorem deleted_serve {i : Instance} {locked : Bool} :
    (s.serve n i locked).deleted = s.deleted := by
  unfold serve
  split
  · rw [releaseIf_toSessions, goto_toSessions]
  · rfl

theorem deleted_move (hMove : Move E s a t) : t.deleted = s.deleted ∨
    ∃ n sid starter ctx l, a = .finish n ∧ s.deletes n = true ∧
      s.pc n = .handling sid starter ctx l ∧ t.deleted = Function.update s.deleted sid true ∧
      t.instances = (s.terminate sid starter).instances := by
  cases hMove with
  | arrive | tick | gone | restart | check | refuse | register | registered => exact .inl rfl
  | acquire => exact .inl rfl
  | serve | serveLocked => exact .inl deleted_serve
  | create n =>
    rw [create, releaseIf_toSessions]
    exact .inl deleted_serve
  | rehydrate n sid => exact .inl (deleted_serve (s := s.start n sid))
  | answer a n sid starter ctx locked hPc hAct =>
    rw [answer, releaseIf_toSessions, goto_toSessions]
    cases hDeletes : s.deletes n with
    | false => exact .inl (by simp [answered, hDeletes])
    | true =>
      have hMethod : (s.req n).method = .delete := by
        simp only [deletes, decide_eq_true_eq] at hDeletes
        exact hDeletes.1
      refine .inr ⟨n, sid, starter, ctx, locked, ?_, hDeletes, hPc, ?_, ?_⟩
      · rcases hAct with ⟨rfl, -⟩ | ⟨-, hGet⟩
        · rfl
        · cases hMethod.symm.trans hGet
      · simp [answered, hDeletes, Sessions.terminate]
      · simp [answered, hDeletes, Sessions.terminate]

/-! ## Session ids -/

theorem below_mono {k k' : Nat} {own : Option Nat} {pc : Pc} (h : pc.Below k own) (hk : k ≤ k') :
    pc.Below k' own := by
  cases pc with
  | waiting | locked => exact fun sid hSid => (h sid hSid).trans_le hk
  | handling sid => exact Nat.lt_of_lt_of_le h hk
  | registering rest => exact fun sid hSid => (h sid hSid).trans_le hk
  | _ => trivial

theorem Numbered.init : Numbered .init where
  instances i hi := by cases hi
  registry sid hSid := by cases hSid
  deleted sid hSid := by cases hSid
  request n := trivial

theorem Numbered.goto {pc : Pc} (h : Numbered s) (hPc : pc.Below s.nextSid (s.req n).sid) :
    Numbered (s.goto n pc) where
  instances := h.instances
  registry := h.registry
  deleted := h.deleted
  request m := by
    rw [(data_eq goto_data).1]
    by_cases hmn : m = n
    · rw [hmn, pc_goto_self]
      exact hPc
    · rw [pc_goto_of_ne hmn]
      exact h.request m

theorem Numbered.release (h : Numbered s) (hWaiting : ∀ m ∈ s.lock.waiting, s.pc m = .waiting) :
    Numbered s.release where
  instances := by
    rw [release_toSessions]
    exact h.instances
  registry := by
    rw [release_toSessions]
    exact h.registry
  deleted := by
    rw [release_toSessions]
    exact h.deleted
  request m := by
    rw [release_toSessions, (data_eq release_data).1]
    by_cases hNext : s.lock.waiting.head? = some m
    · have hBelow := h.request m
      rw [hWaiting m (List.mem_of_mem_head? hNext)] at hBelow
      rw [pc_release_next hNext]
      exact hBelow
    · rw [pc_release_of_ne hNext]
      exact h.request m

theorem Numbered.goto_releaseIf {pc : Pc} {locked : Bool} (h : Numbered s) (hLined : s.Lined)
    (hPc : s.pc n ≠ .waiting) (hBelow : pc.Below s.nextSid (s.req n).sid) :
    Numbered ((s.goto n pc).releaseIf locked) := by
  unfold releaseIf
  split
  · refine (h.goto hBelow).release fun m hm => ?_
    have hWaiting := Lined.pc_of_waiting hLined hm
    have hmn : m ≠ n := fun hEq => hPc (hEq ▸ hWaiting)
    rwa [pc_goto_of_ne hmn]
  · exact h.goto hBelow

theorem Numbered.sessions (h : Numbered s) (x : Sessions) (hNext : s.nextSid ≤ x.nextSid)
    (hInstances : ∀ i ∈ x.instances, i.sid < x.nextSid)
    (hRegistry : ∀ sid, (x.registry sid).isSome = true → sid < x.nextSid)
    (hDeleted : ∀ sid, x.deleted sid = true → sid < x.nextSid) :
    Numbered { s with toSessions := x } where
  instances := hInstances
  registry := hRegistry
  deleted := hDeleted
  request n := below_mono (h.request n) hNext

theorem Numbered.serve {i : Instance} {locked : Bool} (h : Numbered s) (hLined : s.Lined)
    (hPc : s.pc n ≠ .waiting) (hFind : s.instanceOf i.sid = some i) :
    Numbered (s.serve n i locked) := by
  unfold Manager.serve
  split
  · exact h.goto_releaseIf hLined hPc trivial
  · have hGoto : Numbered (s.goto n (.handling i.sid i.starter i.ctx locked)) :=
      h.goto (h.instances i (Keyed.mem_of_find hFind))
    exact ⟨hGoto.instances, hGoto.registry, hGoto.deleted, hGoto.request⟩

theorem mem_update_true {f : Nat → Bool} {sid sid' : Nat}
    (h : Function.update f sid true sid' = true) : sid' = sid ∨ f sid' = true := by
  by_cases hEq : sid' = sid
  · exact .inl hEq
  · exact .inr (by rwa [Function.update_of_ne hEq] at h)

theorem Numbered.terminate (h : Numbered s) {sid starter : Nat} (hSid : sid < s.nextSid) :
    Numbered { s with toSessions := s.terminate sid starter } := by
  refine h.sessions _ le_rfl (fun i hi => ?_) h.registry fun sid' hDeleted => ?_
  · rcases mem_terminate hi with ⟨hOld, -⟩ | ⟨i₀, hOld, -, rfl⟩
    · exact h.instances i hOld
    · exact h.instances i₀ hOld
  · rcases mem_update_true hDeleted with rfl | hOld
    · exact hSid
    · exact h.deleted sid' hOld

theorem Numbered.answer {sid starter : Nat} {ctx : Payload} {locked : Bool} (h : Numbered s)
    (hLined : s.Lined) (hPc : s.pc n = .handling sid starter ctx locked) :
    Numbered (s.answer n sid starter locked) := by
  have hSid : sid < s.nextSid := by
    have hBelow := h.request n
    rwa [hPc] at hBelow
  have hAnswered : Numbered { s with toSessions := s.answered n sid starter } := by
    unfold answered
    split
    · have hTerminated : Numbered { s with toSessions := s.terminate sid starter } :=
        h.terminate hSid
      exact ⟨hTerminated.instances, hTerminated.registry, hTerminated.deleted, hTerminated.request⟩
    · exact ⟨h.instances, h.registry, h.deleted, h.request⟩
  have hNotWaiting : s.pc n ≠ .waiting := by
    rw [hPc]
    exact Pc.noConfusion
  refine hAnswered.goto_releaseIf hLined hNotWaiting ?_
  split
  · intro sid' hMem
    obtain ⟨i, hi, rfl⟩ := List.mem_map.mp hMem
    exact hAnswered.instances i hi
  · trivial

theorem Numbered.move (h : Numbered s) (hLined : s.Lined) (hMove : Move E s a t) : Numbered t := by
  cases hMove with
  | arrive n sid method headers r hPc hSid hMethod hNew =>
    refine ⟨h.instances, h.registry, h.deleted, fun m => ?_⟩
    by_cases hmn : m = n
    · subst hmn
      rcases hNew with ⟨hNew, -⟩ | hNew <;> simp [Manager.pc, hNew, Pc.Below]
    · have hOld := h.request m
      simpa [Manager.pc, hmn] using hOld
  | acquire n hPc =>
    have hOwn : ∀ sid, (s.req n).sid = some sid → sid < s.nextSid := fun sid hSid => by
      rcases hPc with ⟨-, hNone⟩ | ⟨-, sid', hSid', hKnown⟩
      · cases hNone.symm.trans hSid
      · obtain rfl : sid' = sid := Option.some.inj (hSid'.symm.trans hSid)
        refine h.registry sid' ?_
        cases hReg : s.registry sid' <;> simp_all [known]
    have hGoto : Numbered (s.goto n (if s.lock.holder.isNone then .locked else .waiting)) := by
      refine h.goto ?_
      split <;> exact hOwn
    exact ⟨hGoto.instances, hGoto.registry, hGoto.deleted, hGoto.request⟩
  | serve n i hPc hSid hFind =>
    refine h.serve hLined ?_ hFind
    rcases hPc with hPc | ⟨hPc, -⟩ <;> rw [hPc] <;> exact Pc.noConfusion
  | serveLocked n i hPc hSid hFind =>
    exact h.serve hLined (by rw [hPc]; exact Pc.noConfusion) hFind
  | check | refuse | registered => exact h.goto trivial
  | create n hPc hSid =>
    obtain ⟨x, ⟨hInstances, hRegistry, hNext, hDeleted⟩, hEq⟩ := create_eq s E.lockedCreation n
    rw [hEq]
    have hNotWaiting : s.pc n ≠ .waiting := by
      rw [hPc]
      exact Pc.noConfusion
    have hCreated : Numbered { s with toSessions := x } := by
      refine h.sessions x (hNext ▸ Nat.le_succ _) (fun i hi => ?_) ?_ ?_ <;> rw [hNext]
      · rw [hInstances] at hi
        rcases List.mem_append.mp hi with hOld | hNew
        · exact (h.instances i hOld).trans (Nat.lt_succ_self _)
        · rw [List.mem_singleton.mp hNew]
          exact Nat.lt_succ_self _
      · rw [hRegistry]
        exact fun sid hSid => (h.registry sid hSid).trans (Nat.lt_succ_self _)
      · rw [hDeleted]
        exact fun sid hSid => (h.deleted sid hSid).trans (Nat.lt_succ_self _)
    refine hCreated.goto_releaseIf hLined hNotWaiting ?_
    exact lt_of_lt_of_eq (Nat.lt_succ_self _) hNext.symm
  | rehydrate n sid hPc hSid =>
    obtain ⟨x, ⟨hInstances, hRegistry, hNext, hDeleted⟩, hEq⟩ := rehydrate_eq s n sid
    rw [hEq]
    have hOwn : sid < s.nextSid := by
      have hBelow := h.request n
      rw [hPc] at hBelow
      exact hBelow sid hSid
    have hStarted : Numbered { s with toSessions := x } := by
      refine h.sessions x hNext.ge (fun i hi => ?_) ?_ ?_ <;> rw [hNext]
      · rw [hInstances] at hi
        rcases List.mem_append.mp hi with hOld | hNew
        · exact h.instances i hOld
        · rw [List.mem_singleton.mp hNew]
          exact hOwn
      · rw [hRegistry]
        exact h.registry
      · rw [hDeleted]
        exact h.deleted
    exact hStarted.goto (lt_of_lt_of_eq hOwn hNext.symm)
  | register n sid rest hPc =>
    have hRest : ∀ x ∈ sid :: rest, x < s.nextSid := by
      have hBelow := h.request n
      rwa [hPc] at hBelow
    have hGoto : Numbered (s.goto n (.registering rest)) :=
      h.goto fun x hx => hRest x (List.mem_cons_of_mem _ hx)
    refine ⟨hGoto.instances, fun sid' hSome => ?_, hGoto.deleted, hGoto.request⟩
    by_cases hEq : sid' = sid
    · exact hEq ▸ hRest sid List.mem_cons_self
    · exact h.registry sid' (by simpa [Function.update_of_ne hEq] using hSome)
  | answer a n sid starter ctx locked hPc => exact h.answer hLined hPc
  | tick => exact ⟨h.instances, h.registry, h.deleted, h.request⟩
  | gone sid =>
    exact ⟨fun i hi => h.instances i (List.mem_of_mem_filter hi), h.registry, h.deleted, h.request⟩
  | restart =>
    refine ⟨fun i hi => absurd hi List.not_mem_nil, h.registry, h.deleted, fun n => ?_⟩
    change (if s.pc n = .absent then Pc.absent else .done false).Below _ _
    split <;> trivial

/-! ## Deletions -/

theorem Ended.terminate (h : s.Ended) {sid starter : Nat}
    (hOwn : ∀ i ∈ s.instances, i.sid = sid → i.starter = starter) {i : Instance}
    (hi : i ∈ (s.terminate sid starter).instances) :
    i.terminated = true ↔ Function.update s.deleted sid true i.sid = true := by
  rcases mem_terminate hi with ⟨hOld, hOther⟩ | ⟨i₀, -, hSid, rfl⟩
  · have hne : i.sid ≠ sid := fun hEq => hOther ⟨hEq, hOwn i hOld hEq⟩
    rw [Function.update_of_ne hne]
    exact h i hOld
  · simp [hSid]

theorem Ended.move (h : s.Ended) (hNumbered : Numbered s) (hMove : Move E s a t)
    (hLasting : s.Lasting E a) : t.Ended := by
  intro i hi
  rcases deleted_move hMove with hSame | ⟨n, sid, starter, ctx, l, rfl, hDeletes, hPc, hNew, hInst⟩
  · rw [hSame]
    rcases hMove.instances hi with hOld | ⟨i₀, hOld, rfl, hDeleted, -⟩ | ⟨n, rfl, hStarts⟩
    · exact h i hOld
    · exact iff_of_true rfl (hSame ▸ hDeleted)
    · rw [hStarts.live]
      refine iff_of_false Bool.false_ne_true fun hDeleted => ?_
      rcases hStarts.sid with ⟨-, hFresh⟩ | ⟨hSid, hNone⟩
      · exact absurd (hNumbered.deleted _ hDeleted) (hFresh ▸ lt_irrefl _)
      · have hKept := (hLasting _ hSid hNone).2 hStarts.pc
        cases hKept.symm.trans hDeleted
  · rw [hNew]
    rw [hInst] at hi
    exact h.terminate (hLasting hDeletes sid starter ctx l hPc) hi

/-- What holds in the states that steps which keep sessions lead to. -/
structure Kept (E : Server) (s : Manager) : Prop where
  orderly : s.Orderly E
  numbered : Numbered s
  ended : s.Ended

theorem Kept.init : Kept E .init := ⟨.init, .init, fun i hi => by cases hi⟩

theorem Kept.move (h : Kept E s) (hMove : Move E s a t) (hLasting : s.Lasting E a) : Kept E t :=
  ⟨h.orderly.move hMove, h.numbered.move h.orderly.lined hMove,
    h.ended.move h.numbered hMove hLasting⟩

theorem Kept.not_refused (h : Kept E s) {sid : Nat} (hSid : (s.req n).sid = some sid)
    (hEntitled : s.Entitled E sid) (hMove : Move E s (.go n) t) (hLasting : s.Lasting E (.go n)) :
    t.pc n ≠ .done false := by
  have hServe : ∀ i l, s.instanceOf i.sid = some i → (s.req n).sid = some i.sid →
      (s.serve n i l).pc n ≠ .done false := fun i l hFind hOwn => by
    have hNotDeleted : s.deleted i.sid = false := by
      rw [← Option.some.inj (hSid.symm.trans hOwn)]
      exact hEntitled.2.1
    have hLive : i.terminated = false := by
      rw [← Bool.not_eq_true, h.ended i (Keyed.mem_of_find hFind), hNotDeleted]
      exact Bool.false_ne_true
    rw [serve_live hLive]
    exact fun hDone => Pc.noConfusion (pc_goto_self.symm.trans hDone)
  cases hMove with
  | acquire =>
    rw [pc_acquire_self]
    split <;> exact Pc.noConfusion
  | serve n i hPc hOwn hFind => exact hServe i false hFind hOwn
  | serveLocked n i hPc hOwn hFind => exact hServe i true hFind hOwn
  | check =>
    rw [pc_goto_self]
    exact Pc.noConfusion
  | refuse n sid' hPc hOwn hUnknown hNone =>
    obtain rfl := Option.some.inj (hSid.symm.trans hOwn)
    have hKnown := (hLasting sid hSid hNone).1 hPc hEntitled
    cases hKnown.symm.trans hUnknown
  | create n hPc hNone => cases hNone.symm.trans hSid
  | rehydrate n sid' =>
    obtain ⟨x, -, hEq⟩ := rehydrate_eq s n sid'
    rw [hEq, pc_goto_self]
    exact Pc.noConfusion
  | register n sid' rest =>
    exact fun hDone => Pc.noConfusion ((pc_goto_self (s := s) (n := n)).symm.trans hDone)
  | registered =>
    rw [pc_goto_self]
    exact fun hDone => Bool.noConfusion (Pc.done.inj hDone)
  | answer a n sid' starter ctx l hPc hAct =>
    rcases hAct with ⟨hAct, -⟩ | ⟨hAct, -⟩ <;> cases hAct

theorem deleted_of_move (hMove : Move E s a t) {sid : Nat} (hDeleted : s.deleted sid = true) :
    t.deleted sid = true := by
  rcases deleted_move hMove with hSame | ⟨-, sid', -, -, -, -, -, -, hNew, -⟩
  · rw [hSame]
    exact hDeleted
  · rw [hNew]
    by_cases hEq : sid = sid'
    · rw [hEq, Function.update_self]
    · rw [Function.update_of_ne hEq, hDeleted]

theorem Kept.not_taken (h : Kept E s) {sid sid' starter : Nat} {ctx : Payload} {l : Bool}
    (hDeleted : s.deleted sid = true) (hMove : Move E s a t) (hLasting : s.Lasting E a)
    (hSid : (t.req n).sid = some sid) (hPc : t.pc n = .handling sid' starter ctx l) :
    (s.req n).sid = some sid ∧ s.pc n = .handling sid' starter ctx l := by
  have hData : s.pc n ≠ .absent → (s.req n).sid = some sid := fun hPresent => by
    rw [← hSid, (data_eq (hMove.data hPresent)).1]
  rcases hMove.handling hPc with hOld | ⟨rfl, -, hEnters | hStarts⟩
  · exact ⟨hData (by rw [hOld]; exact Pc.noConfusion), hOld⟩
  · have hOwn : (s.req n).sid = some sid := by
      refine hData ?_
      rcases hEnters.pc with hPc | ⟨hPc, -⟩ | hPc <;> rw [hPc] <;> exact Pc.noConfusion
    obtain rfl : sid' = sid := Option.some.inj (hEnters.sid.symm.trans hOwn)
    have hEnded := (h.ended _ (Keyed.mem_of_find hEnters.find)).mpr hDeleted
    cases hEnters.live.symm.trans hEnded
  · have hOwn := hData (by rw [hStarts.pc]; exact Pc.noConfusion)
    rcases hStarts.sid with ⟨hNone, -⟩ | ⟨hSame, hFind⟩
    · cases hNone.symm.trans hOwn
    · obtain rfl : sid' = sid := Option.some.inj (hSame.symm.trans hOwn)
      cases ((hLasting sid' hOwn hFind).2 hStarts.pc).symm.trans hDeleted

theorem Kept.reach (h : Kept E s) (hReach : Reach (Manager.step E) (fun s a => s.Lasting E a) s t) :
    Kept E t :=
  hReach.invariant h fun _ _ _ _ hInv hLasting hs => hInv.move (step_move hs) hLasting

/-- In a run whose steps keep sessions, a request of a session that is to be handled is not
refused, and the server can get to it unless it is stuck behind an event stream; once a
session has been deleted no request of it that comes in is handled. -/
theorem sessions_last {E : Server} {s : Manager}
    (h : Reach (Manager.step E) (fun s a => s.Lasting E a) .init s) :
    (∀ n sid t, (s.req n).sid = some sid → s.Entitled E sid → s.Lasting E (.go n) →
      Manager.step E s (.go n) = some t → t.pc n ≠ .done false) ∧
    (∀ n, s.pc n ≠ .absent → (s.NeedsLock E n → ∀ m ∈ s.ahead n, ¬s.Keeps E m) →
      s.CanAttend E n) ∧
    (∀ n sid t, s.deleted sid = true → s.pc n = .absent →
      Reach (Manager.step E) (fun s a => s.Lasting E a) s t → (t.req n).sid = some sid →
      ∀ sid' starter ctx l, t.pc n ≠ .handling sid' starter ctx l) := by
  have hs : Kept E s := Kept.init.reach h
  refine ⟨fun n sid t hSid hEntitled hLasting hStep =>
    hs.not_refused hSid hEntitled (step_move hStep) hLasting,
    fun n hPresent hNone => Orderly.canAttend hs.orderly hPresent hNone,
    fun n sid t hDeleted hAbsent hReach => ?_⟩
  -- the invariant: the session stays deleted, and the request is not handled
  refine (@Reach.invariant _ _ _ _ (fun t => Kept E t ∧ t.deleted sid = true ∧
      ((t.req n).sid = some sid → ∀ sid' starter ctx l, t.pc n ≠ .handling sid' starter ctx l)) _ _
    ⟨hs, hDeleted, fun _ _ _ _ _ hPc => ?_⟩ (fun t a u _ hInv hLasting hStep => ?_) hReach).2.2
  · cases hAbsent.symm.trans hPc
  · obtain ⟨hKept, hDeleted, hNot⟩ := hInv
    have hMove := step_move hStep
    refine ⟨hKept.move hMove hLasting, deleted_of_move hMove hDeleted,
      fun hSid sid' starter ctx l hPc => ?_⟩
    obtain ⟨hOwn, hOld⟩ := hKept.not_taken hDeleted hMove hLasting hSid hPc
    exact hNot hOwn sid' starter ctx l hOld

end Manager

/-! ## Sessions that end too early, or not at all -/

/-- A session is created and registered. -/
def createdSession : List ManagerAct :=
  [.arrive 0 none .post ⟨['k'], []⟩, .go 0, .go 0, .finish 0, .go 0, .go 0]

/-- A request of the session comes in, and is looked up. -/
def laterRequest : List ManagerAct := [.arrive 2 (some 0) .post ⟨['k'], []⟩, .go 2]

theorem restarted_lasts : ∃ s t,
    run (Manager.step oneKey) .init (createdSession ++ [.tick 40, .restart] ++ laterRequest) = some s ∧
      Manager.step oneKey s (.go 2) = some t ∧ t.pc 2 ≠ .done false := by
  let acts := createdSession ++ [.tick 40, .restart] ++ laterRequest
  obtain ⟨s, hRun, hs⟩ := exists_run_of_any (Manager.step oneKey) .init acts
    (fun s => decide ((s.req 2).sid = some 0 ∧ s.Entitled oneKey 0 ∧ s.Lasting oneKey (.go 2) ∧
      (Manager.step oneKey s (.go 2)).isSome)) (by decide)
  obtain ⟨hSid, hEntitled, hLasting, hSome⟩ := of_decide_eq_true hs
  obtain ⟨t, hStep⟩ := Option.isSome_iff_exists.mp hSome
  have hAlong : Along (Manager.step oneKey) (fun s a => s.Lasting oneKey a) .init acts := by decide
  exact ⟨s, t, hRun, hStep,
    (Manager.sessions_last (.of_run hRun hAlong)).1 2 0 t hSid hEntitled hLasting hStep⟩

/-- A session that is used after its registration does not outlive a restart, and one that
is deleted does. -/
theorem restarted_forgets : (∃ s t, run (Manager.step oneKey) .init (createdSession ++ [.tick 40,
      .arrive 1 (some 0) .post ⟨['k'], []⟩, .go 1, .finish 1, .tick 30, .restart] ++
      laterRequest) = some s ∧
      s.Entitled oneKey 0 ∧ Manager.step oneKey s (.go 2) = some t ∧ t.pc 2 = .done false) ∧
    ∃ s t, run (Manager.step oneKey) .init (createdSession ++
      [.arrive 1 (some 0) .delete ⟨['k'], []⟩, .go 1, .finish 1, .restart]) = some s ∧
      s.deleted 0 = true ∧ s.pc 2 = .absent ∧
      run (Manager.step oneKey) s (laterRequest ++ [.go 2, .go 2]) = some t ∧
      ∃ ctx, t.pc 2 = .handling 0 2 ctx true := by
  constructor
  · obtain ⟨s, hRun, hs⟩ := exists_run_of_any (Manager.step oneKey) .init (createdSession ++
      [.tick 40, .arrive 1 (some 0) .post ⟨['k'], []⟩, .go 1, .finish 1, .tick 30, .restart] ++
      laterRequest) (fun s => decide (s.Entitled oneKey 0) &&
        (Manager.step oneKey s (.go 2)).any fun t => t.pc 2 = .done false) (by decide)
    rw [Bool.and_eq_true, decide_eq_true_eq, Option.any_eq_true] at hs
    obtain ⟨hEntitled, t, hStep, hPc⟩ := hs
    exact ⟨s, t, hRun, hEntitled, hStep, of_decide_eq_true hPc⟩
  · obtain ⟨s, hRun, hs⟩ := exists_run_of_any (Manager.step oneKey) .init (createdSession ++
      [.arrive 1 (some 0) .delete ⟨['k'], []⟩, .go 1, .finish 1, .restart])
      (fun s => decide (s.deleted 0 = true ∧ s.pc 2 = .absent) &&
        (run (Manager.step oneKey) s (laterRequest ++ [.go 2, .go 2])).any fun t =>
          t.pc 2 = .handling 0 2 internalService true) (by decide)
    rw [Bool.and_eq_true, decide_eq_true_eq, Option.any_eq_true] at hs
    obtain ⟨⟨hDeleted, hAbsent⟩, t, hLater, hPc⟩ := hs
    exact ⟨s, t, hRun, hDeleted, hAbsent, hLater, internalService, of_decide_eq_true hPc⟩

end OpenSpoke.Mcp
