import Mathlib.Data.List.TakeWhile
import OpenSpoke.Mcp.Turns

/-!
# Requests that wait for the session creation lock

A request that rehydrates a session is handled under the lock. The next in line gets on
once the server has completed it, which for an event stream takes its client.
-/

namespace OpenSpoke.Mcp

open Lts
open Lock (Place)

def Pc.attended : Pc → Bool
  | .handling _ _ _ _ | .registering _ | .done _ => true
  | _ => false

/-- All but a DELETE that comes in. -/
def ManagerAct.getOrPost : ManagerAct → Bool
  | .arrive _ _ method _ => method ≠ .delete
  | _ => true

def ManagerAct.byServer : ManagerAct → Bool
  | .go _ | .finish _ => true
  | _ => false

namespace Manager

variable (E : Server) (s : Manager)

/-- The server can get to request `n`. -/
def CanAttend (n : Nat) : Prop :=
  ∃ t, Reach (Manager.step E) (fun _ a => a.byServer = true) s t ∧ (t.pc n).attended = true

/-- Who has the lock and who waits for it. -/
def line : List Nat := s.lock.holder.toList ++ s.lock.waiting

/-- Those in the line that come before request `n`. -/
def ahead (n : Nat) : List Nat := s.line.takeWhile (· ≠ n)

/-- An event stream whose handling is under the lock, if it goes there. -/
def Keeps (m : Nat) : Prop :=
  (s.req m).method = .get ∧ ((s.req m).sid.isSome = true ∨ E.lockedCreation = true)

/-- Request `n` waits for the lock, or will ask for it next. -/
def NeedsLock (n : Nat) : Prop :=
  match s.pc n, (s.req n).sid with
  | .waiting, _ => True
  | .entered, none => True
  | .entered, some sid => s.instanceOf sid = none ∧ s.known E.sessionTtl sid = true
  | .checking, some sid => s.known E.sessionTtl sid = true
  | _, _ => False

/-! ## Passing the lock on -/

/-- Request `h` has given the lock to the next in line, and nothing else has happened. -/
structure PassedOn (h : Nat) (s t : Manager) : Prop where
  lock : t.lock = s.lock.release
  next : ∀ m, s.lock.waiting.head? = some m → t.pc m = .locked
  others : ∀ m, m ≠ h → s.lock.waiting.head? ≠ some m → t.pc m = s.pc m
  data : ∀ m, (t.req m).data = (s.req m).data

/-- What holds in every state reached: only requests of a session are looked up, and only
these and new sessions are handled under the lock. -/
structure Orderly : Prop where
  lined : s.Lined
  checking : ∀ n, s.pc n = .checking → (s.req n).sid.isSome = true
  underLock : ∀ n sid starter ctx, s.pc n = .handling sid starter ctx true →
    (s.req n).sid.isSome = true ∨ E.lockedCreation = true

variable {E s} {t : Manager} {a : ManagerAct} {n m h : Nat} {pc : Pc}

theorem Orderly.init : Orderly E .init where
  lined := .init
  checking n hPc := by cases hPc
  underLock n sid starter ctx hPc := by cases hPc

theorem Orderly.move (hs : s.Orderly E) (hMove : Move E s a t) : t.Orderly E where
  lined := hs.lined.move hMove
  checking n hPc := by
    have hKept : s.pc n ≠ .absent ∧ (s.req n).sid.isSome = true := by
      rcases hMove.checking hPc with hOld | hNew
      · exact ⟨by rw [hOld]; exact Pc.noConfusion, hs.checking n hOld⟩
      · exact hNew
    rw [(data_eq (hMove.data hKept.1)).1]
    exact hKept.2
  underLock n sid starter ctx hPc := by
    have hKept : s.pc n ≠ .absent ∧ ((s.req n).sid.isSome = true ∨ E.lockedCreation = true) := by
      rcases hMove.handling hPc with hOld | ⟨-, hLocked, hTakes⟩
      · exact ⟨by rw [hOld]; exact Pc.noConfusion, hs.underLock n sid starter ctx hOld⟩
      · refine ⟨?_, hLocked rfl⟩
        rcases hTakes with hEnters | hStarts
        · rcases hEnters.pc with hPc | ⟨hPc, -⟩ | hPc <;> rw [hPc] <;> exact Pc.noConfusion
        · rw [hStarts.pc]
          exact Pc.noConfusion
    rw [(data_eq (hMove.data hKept.1)).1]
    exact hKept.2

theorem Orderly.reach (hs : s.Orderly E) {ok : Manager → ManagerAct → Prop}
    (h : Reach (Manager.step E) ok s t) : t.Orderly E :=
  h.invariant hs fun _ _ _ _ hInv _ hStep => hInv.move (step_move hStep)

theorem keeps_congr (hData : (t.req m).data = (s.req m).data) : t.Keeps E m ↔ s.Keeps E m := by
  obtain ⟨hSid, hMethod, -⟩ := data_eq hData
  rw [Keeps, Keeps, hSid, hMethod]

theorem passedOn_release (s : Manager) (h : Nat) (pc : Pc) : PassedOn h s (s.goto h pc).release where
  lock := release_lock
  next m hNext := pc_release_next (s := s.goto h pc) hNext
  others m hmh hNext := by
    rw [pc_release_of_ne (s := s.goto h pc) hNext, pc_goto_of_ne hmh]
  data m := by rw [release_data, goto_data]

theorem PassedOn.of_goto {x : Sessions} (hPassed : PassedOn h { s.goto h pc with toSessions := x } t) :
    PassedOn h s t where
  lock := hPassed.lock
  next := hPassed.next
  others m hmh hNext := (hPassed.others m hmh hNext).trans (pc_goto_of_ne hmh)
  data m := (hPassed.data m).trans goto_data

theorem passedOn_of_sessions {x : Sessions} (hPassed : PassedOn h { s with toSessions := x } t) :
    PassedOn h s t := ⟨hPassed.lock, hPassed.next, hPassed.others, hPassed.data⟩

theorem byServer_step {a : ManagerAct} (hs : Manager.step E s a = some t)
    (ha : a.byServer = true) : Reach (Manager.step E) (fun _ a => a.byServer = true) s t :=
  .tail .refl ha hs

theorem finishes {sid starter : Nat} {ctx : Payload} (hPc : s.pc h = .handling sid starter ctx true)
    (hMethod : (s.req h).method ≠ .get) :
    ∃ t, Manager.step E s (.finish h) = some t ∧ PassedOn h s t := by
  refine ⟨s.answer h sid starter true, by simp [Manager.step, hPc, hMethod], ?_⟩
  exact passedOn_of_sessions (passedOn_release { s with toSessions := s.answered h sid starter } h _)

theorem takes_finishes {x : Sessions} {sid starter : Nat} {ctx : Payload}
    (hs : Manager.step E s (.go h) =
      some { s.goto h (.handling sid starter ctx true) with toSessions := x })
    (hMethod : (s.req h).method ≠ .get) :
    ∃ t, Reach (Manager.step E) (fun _ a => a.byServer = true) s t ∧ PassedOn h s t := by
  have hMethod : ((s.goto h (.handling sid starter ctx true)).req h).method ≠ .get := by
    rwa [(data_eq goto_data).2.1]
  obtain ⟨t, hFinish, hPassed⟩ := finishes (E := E)
    (s := { s.goto h (.handling sid starter ctx true) with toSessions := x }) pc_goto_self hMethod
  exact ⟨t, .tail (byServer_step hs rfl) rfl hFinish, hPassed.of_goto⟩

theorem serve_live {i : Instance} {locked : Bool} (hLive : i.terminated = false) :
    s.serve n i locked = { s.goto n (.handling i.sid i.starter i.ctx locked) with
      used := Function.update s.used i.sid s.now } := by
  rw [serve, if_neg (by simp [hLive])]

theorem Orderly.passes (hs : s.Orderly E) (hHolder : s.lock.holder = some h)
    (hKeeps : ¬s.Keeps E h) :
    ∃ t, Reach (Manager.step E) (fun _ a => a.byServer = true) s t ∧ PassedOn h s t := by
  have hInside := (hs.lined.holder h).mp hHolder
  cases hPc : s.pc h <;> simp only [hPc, Pc.place] at hInside
  case handling sid starter ctx l =>
    cases l with
    | false => cases hInside
    | true =>
      obtain ⟨t, hStep, hPassed⟩ := finishes (E := E) hPc
        fun hGet => hKeeps ⟨hGet, hs.underLock h sid starter ctx hPc⟩
      exact ⟨t, byServer_step hStep rfl, hPassed⟩
  case locked =>
    cases hSid : (s.req h).sid with
    | some sid =>
      have hMethod : (s.req h).method ≠ .get := fun hGet =>
        hKeeps ⟨hGet, .inl (by rw [hSid]; rfl)⟩
      cases hFind : s.instanceOf sid with
      | some i =>
        have hs : Manager.step E s (.go h) = some (s.serve h i true) := by
          simp [Manager.step, goStep, hPc, hSid, hFind]
        cases hLive : i.terminated with
        | true =>
          rw [Manager.serve, if_pos hLive] at hs
          exact ⟨_, byServer_step hs rfl, passedOn_release s h _⟩
        | false =>
          rw [serve_live hLive] at hs
          exact takes_finishes hs hMethod
      | none =>
        obtain ⟨x, -, hEq⟩ := rehydrate_eq s h sid
        have hs : Manager.step E s (.go h) = some (s.rehydrate h sid) := by
          simp [Manager.step, goStep, hPc, hSid, hFind]
        rw [hEq] at hs
        exact takes_finishes hs hMethod
    | none =>
      obtain ⟨x, -, hEq⟩ := create_eq s E.lockedCreation h
      have hs : Manager.step E s (.go h) = some (s.create E.lockedCreation h) := by
        simp [Manager.step, goStep, hPc, hSid]
      cases hLocked : E.lockedCreation with
      | true =>
        rw [hEq, hLocked] at hs
        exact takes_finishes hs fun hGet => hKeeps ⟨hGet, .inr hLocked⟩
      | false =>
        rw [hEq, hLocked] at hs
        refine ⟨_, byServer_step hs rfl, passedOn_of_sessions (x := x) ?_⟩
        exact passedOn_release { s with toSessions := x } h _
  all_goals cases hInside

/-! ## Getting on -/

theorem CanAttend.of_reach (h : Reach (Manager.step E) (fun _ a => a.byServer = true) s t)
    (hCan : t.CanAttend E n) : s.CanAttend E n := by
  obtain ⟨u, hReach, hAttended⟩ := hCan
  exact ⟨u, h.trans hReach, hAttended⟩

theorem Lined.not_next (hLined : s.Lined) (hWaiting : s.pc n ≠ .waiting) :
    s.lock.waiting.head? ≠ some n :=
  fun hNext => hWaiting (Lined.pc_of_waiting hLined (List.mem_of_mem_head? hNext))

theorem pc_releaseIf_self {locked : Bool} (hNext : s.lock.waiting.head? ≠ some n) :
    ((s.goto n pc).releaseIf locked).pc n = pc := by
  unfold releaseIf
  split
  · rw [pc_release_of_ne (s := s.goto n pc) hNext, pc_goto_self]
  · exact pc_goto_self

theorem attended_serve {i : Instance} {locked : Bool} (hNext : s.lock.waiting.head? ≠ some n) :
    ((s.serve n i locked).pc n).attended = true := by
  unfold serve
  split
  · rw [pc_releaseIf_self hNext]
    rfl
  · exact congrArg Pc.attended pc_goto_self

theorem canAttend_of_step {a : ManagerAct} (hs : Manager.step E s a = some t)
    (ha : a.byServer = true) (hAttended : (t.pc n).attended = true) : s.CanAttend E n :=
  ⟨t, byServer_step hs ha, hAttended⟩

theorem Lined.canAttend_locked (hLined : s.Lined) (hPc : s.pc n = .locked) : s.CanAttend E n := by
  have hNext : s.lock.waiting.head? ≠ some n :=
    Lined.not_next hLined (by rw [hPc]; exact Pc.noConfusion)
  cases hSid : (s.req n).sid with
  | none =>
    have hs : Manager.step E s (.go n) = some (s.create E.lockedCreation n) := by
      simp [Manager.step, goStep, hPc, hSid]
    refine canAttend_of_step hs rfl ?_
    obtain ⟨x, -, hEq⟩ := create_eq s E.lockedCreation n
    rw [hEq, pc_releaseIf_self (s := { s with toSessions := x }) hNext]
    rfl
  | some sid =>
    cases hFind : s.instanceOf sid with
    | some i =>
      have hs : Manager.step E s (.go n) = some (s.serve n i true) := by
        simp [Manager.step, goStep, hPc, hSid, hFind]
      exact canAttend_of_step hs rfl (attended_serve hNext)
    | none =>
      have hs : Manager.step E s (.go n) = some (s.rehydrate n sid) := by
        simp [Manager.step, goStep, hPc, hSid, hFind]
      exact canAttend_of_step hs rfl (attended_serve (s := s.start n sid) hNext)

/-- Who waits behind requests that do not keep the lock gets it; by induction on those. -/
theorem Orderly.canAttend_behind {before after : List Nat} (hs : s.Orderly E)
    (hHolder : s.lock.holder = some h) (hLine : s.lock.waiting = before ++ n :: after)
    (hNone : ∀ m ∈ h :: before, ¬s.Keeps E m) : s.CanAttend E n := by
  induction before generalizing s h with
  | nil =>
    obtain ⟨t, hReach, hPassed⟩ := Orderly.passes hs hHolder (hNone h List.mem_cons_self)
    refine .of_reach hReach (Lined.canAttend_locked (Orderly.reach hs hReach).lined ?_)
    exact hPassed.next n (by rw [hLine]; rfl)
  | cons m before ih =>
    obtain ⟨t, hReach, hPassed⟩ := Orderly.passes hs hHolder (hNone h List.mem_cons_self)
    refine .of_reach hReach (ih (h := m) (Orderly.reach hs hReach) ?_ ?_ fun k hk hKeeps => ?_)
    · rw [hPassed.lock, Lock.release, hLine]
      rfl
    · rw [hPassed.lock, Lock.release, hLine]
      rfl
    · exact hNone k (List.mem_cons_of_mem _ hk) ((keeps_congr (hPassed.data k)).mp hKeeps)

theorem Lined.not_mem_line (hLined : s.Lined) (hPlace : (s.pc n).place = .outside) :
    n ∉ s.line := by
  intro hn
  rcases List.mem_append.mp hn with hn | hn
  · cases hPlace.symm.trans ((hLined.holder n).mp (Option.mem_toList.mp hn))
  · cases hPlace.symm.trans ((hLined.waiting n).mp hn)

theorem ahead_eq_line (hn : n ∉ s.line) : s.ahead n = s.line := by
  refine List.takeWhile_eq_self_iff.mpr fun m hm => ?_
  exact decide_eq_true fun hEq => hn (hEq ▸ hm)

theorem Orderly.canAttend_acquire (hAcquire : (s.acquire n).Orderly E)
    (hNone : ∀ m ∈ s.line, ¬s.Keeps E m) : (s.acquire n).CanAttend E n := by
  cases hHolder : s.lock.holder with
  | none =>
    refine Lined.canAttend_locked hAcquire.lined ?_
    rw [pc_acquire_self, hHolder]
    rfl
  | some h =>
    have hLock : (s.acquire n).lock = { s.lock with waiting := s.lock.waiting ++ [n] } := by
      simp [Manager.acquire, Lock.acquire, hHolder]
    refine @Orderly.canAttend_behind E _ n h s.lock.waiting [] hAcquire ?_ ?_ fun m hm hKeeps => ?_
    · rw [hLock, hHolder]
    · rw [hLock]
    · refine hNone m ?_ ((keeps_congr acquire_data).mp hKeeps)
      rwa [line, hHolder]

theorem Orderly.canAttend_waiting (hs : s.Orderly E) (hPc : s.pc n = .waiting)
    (hNone : ∀ m ∈ s.ahead n, ¬s.Keeps E m) : s.CanAttend E n := by
  have hn : n ∈ s.lock.waiting := (hs.lined.waiting n).mpr (congrArg Pc.place hPc)
  obtain ⟨before, after, hLine⟩ := List.append_of_mem hn
  cases hHolder : s.lock.holder with
  | none =>
    rw [hs.lined.free hHolder] at hn
    cases hn
  | some h =>
    refine Orderly.canAttend_behind hs hHolder hLine fun m hm => hNone m ?_
    have hFirst : ∀ m ∈ h :: before, m ≠ n := fun m hm hEq => by
      rcases List.mem_cons.mp hm with hmh | hm
      · have hPlace := (hs.lined.holder h).mp hHolder
        rw [← hmh, hEq, hPc] at hPlace
        cases hPlace
      · have hNodup := hs.lined.nodup
        rw [hLine, List.nodup_append] at hNodup
        exact hNodup.2.2 m hm n List.mem_cons_self hEq
    have hSplit : s.line = (h :: before) ++ n :: after := by rw [line, hHolder, hLine]; rfl
    rw [ahead, hSplit, List.takeWhile_append_of_pos fun m hm => decide_eq_true (hFirst m hm)]
    exact List.mem_append_left _ hm

theorem Orderly.canAttend_checking {sid : Nat} (hs : s.Orderly E) (hPc : s.pc n = .checking)
    (hId : (s.req n).sid = some sid)
    (hNone : s.known E.sessionTtl sid = true → ∀ m ∈ s.line, ¬s.Keeps E m) : s.CanAttend E n := by
  cases hKnown : s.known E.sessionTtl sid with
  | true =>
    have hStep : Manager.step E s (.go n) = some (s.acquire n) := by
      simp [Manager.step, goStep, hPc, hId, hKnown]
    refine .of_reach (byServer_step hStep rfl) ?_
    exact Orderly.canAttend_acquire (hs.move (step_move hStep)) (hNone hKnown)
  | false =>
    cases hFind : s.instanceOf sid with
    | some i =>
      have hStep : Manager.step E s (.go n) = some (s.serve n i false) := by
        simp [Manager.step, goStep, hPc, hId, hKnown, hFind]
      refine canAttend_of_step hStep rfl (attended_serve (Lined.not_next hs.lined ?_))
      rw [hPc]
      exact Pc.noConfusion
    | none =>
      have hStep : Manager.step E s (.go n) = some (s.goto n (.done false)) := by
        simp [Manager.step, goStep, hPc, hId, hKnown, hFind]
      exact canAttend_of_step hStep rfl (by rw [pc_goto_self]; rfl)

theorem Orderly.canAttend_entered (hs : s.Orderly E) (hPc : s.pc n = .entered)
    (hNone : s.NeedsLock E n → ∀ m ∈ s.line, ¬s.Keeps E m) : s.CanAttend E n := by
  cases hId : (s.req n).sid with
  | none =>
    have hStep : Manager.step E s (.go n) = some (s.acquire n) := by
      simp [Manager.step, goStep, hPc, hId]
    refine .of_reach (byServer_step hStep rfl) ?_
    refine Orderly.canAttend_acquire (hs.move (step_move hStep)) (hNone ?_)
    simp [NeedsLock, hPc, hId]
  | some sid =>
    cases hFind : s.instanceOf sid with
    | some i =>
      have hStep : Manager.step E s (.go n) = some (s.serve n i false) := by
        simp [Manager.step, goStep, hPc, hId, hFind]
      refine canAttend_of_step hStep rfl (attended_serve (Lined.not_next hs.lined ?_))
      rw [hPc]
      exact Pc.noConfusion
    | none =>
      have hStep : Manager.step E s (.go n) = some (s.goto n .checking) := by
        simp [Manager.step, goStep, hPc, hId, hFind]
      have hSid : ((s.goto n .checking).req n).sid = some sid := (data_eq goto_data).1.trans hId
      refine .of_reach (byServer_step hStep rfl)
        (Orderly.canAttend_checking (hs.move (step_move hStep)) pc_goto_self hSid
          fun hKnown m hm hKeeps => hNone ?_ m hm ((keeps_congr goto_data).mp hKeeps))
      have hKnown : s.known E.sessionTtl sid = true := hKnown
      simpa [NeedsLock, hPc, hId, hFind] using hKnown

/-- Unless a request that needs the lock has one before it that keeps it, the server can
get to it. -/
theorem Orderly.canAttend (hs : s.Orderly E) (hPresent : s.pc n ≠ .absent)
    (hNone : s.NeedsLock E n → ∀ m ∈ s.ahead n, ¬s.Keeps E m) : s.CanAttend E n := by
  have hAhead : (s.pc n).place = .outside → s.ahead n = s.line := fun hPlace =>
    ahead_eq_line (Lined.not_mem_line hs.lined hPlace)
  cases hPc : s.pc n
  case absent => exact absurd hPc hPresent
  case entered =>
    rw [hAhead (by rw [hPc]; rfl)] at hNone
    exact Orderly.canAttend_entered hs hPc hNone
  case checking =>
    rw [hAhead (by rw [hPc]; rfl)] at hNone
    obtain ⟨sid, hId⟩ := Option.isSome_iff_exists.mp (hs.checking n hPc)
    refine Orderly.canAttend_checking hs hPc hId fun hKnown => hNone ?_
    simpa [NeedsLock, hPc, hId] using hKnown
  case waiting => exact Orderly.canAttend_waiting hs hPc (hNone (by simp [NeedsLock, hPc]))
  case locked => exact Lined.canAttend_locked hs.lined hPc
  all_goals exact ⟨s, .refl, by rw [hPc]; rfl⟩

/-! ## Staying behind -/

structure Quiet (s : Manager) : Prop where
  live : ∀ i ∈ s.instances, i.terminated = false
  method : ∀ n, (s.req n).method ≠ .delete

/-- What a step of request `k` does to the line. -/
inductive Turn (E : Server) (s : Manager) (k : Nat) : Manager → Prop
  | asks (hPc : s.pc k = .entered ∨ s.pc k = .checking) : Turn E s k (s.acquire k)
  | goes (x : Sessions) (pc : Pc) (hPc : s.pc k ≠ .waiting)
      (hSid : s.pc k = .entered → (s.req k).sid.isSome = true) :
      Turn E s k ({ s with toSessions := x }.goto k pc)
  | leaves (x : Sessions) (pc : Pc) (hInside : (s.pc k).place = .inside) (hKeeps : ¬s.Keeps E k) :
      Turn E s k ({ s with toSessions := x }.goto k pc).release

/-- Request `n` is behind request `b`, which keeps the lock once it has it. -/
structure Behind (E : Server) (s : Manager) (b n : Nat) : Prop where
  keeps : s.Keeps E b
  line : s.pc n = .entered ∧ (s.req n).sid = none ∧ b ∈ s.line ∨
    s.pc n = .waiting ∧ [b, n].Sublist s.line

theorem Quiet.init : Quiet .init where
  live i hi := by cases hi
  method n hMethod := by cases hMethod

theorem Quiet.move (hQuiet : Quiet s) (hMove : Move E s a t) (ha : a.getOrPost = true) :
    Quiet t where
  live i hi := by
    rcases hMove.instances hi with hOld | ⟨_, -, -, -, n, -, hDeletes⟩ | ⟨n, -, hStarts⟩
    · exact hQuiet.live i hOld
    · have hDelete : (s.req n).method = .delete := by
        simp only [deletes, decide_eq_true_eq] at hDeletes
        exact hDeletes.1
      exact absurd hDelete (hQuiet.method n)
    · exact hStarts.live
  method n := by
    rcases hMove.data_or (m := n) with hData | ⟨-, sid, headers, rfl⟩
    · rw [(data_eq hData).2.1]
      exact hQuiet.method n
    · simpa [ManagerAct.getOrPost] using ha

theorem Quiet.goes {i : Instance} {locked : Bool} (hQuiet : Quiet s)
    (hFind : s.instanceOf i.sid = some i) (hPc : s.pc n ≠ .waiting)
    (hSid : s.pc n = .entered → (s.req n).sid.isSome = true) :
    Turn E s n (s.serve n i locked) := by
  rw [serve_live (hQuiet.live i (Keyed.mem_of_find hFind))]
  exact Turn.goes { s.toSessions with used := Function.update s.used i.sid s.now } _ hPc hSid

theorem Quiet.turn (hQuiet : Quiet s) (hMove : Move E s a t) (ha : a.byServer = true) :
    ∃ k, Turn E s k t := by
  cases hMove with
  | arrive | tick | gone | restart => cases ha
  | acquire n hPc =>
    exact ⟨n, .asks (hPc.imp And.left And.left)⟩
  | serve n i hPc hSid hFind =>
    refine ⟨n, hQuiet.goes hFind ?_ fun _ => hSid ▸ rfl⟩
    rcases hPc with hPc | ⟨hPc, -⟩ <;> rw [hPc] <;> exact Pc.noConfusion
  | serveLocked n i hPc hSid hFind =>
    exact ⟨n, hQuiet.goes hFind (by rw [hPc]; exact Pc.noConfusion) fun _ => hSid ▸ rfl⟩
  | check n sid hPc hSid =>
    exact ⟨n, .goes s.toSessions _ (by rw [hPc]; exact Pc.noConfusion) fun _ => hSid ▸ rfl⟩
  | refuse n sid hPc hSid =>
    exact ⟨n, .goes s.toSessions _ (by rw [hPc]; exact Pc.noConfusion) fun _ => hSid ▸ rfl⟩
  | create n hPc hSid =>
    obtain ⟨x, -, hEq⟩ := create_eq s E.lockedCreation n
    rw [hEq]
    cases hLocked : E.lockedCreation with
    | true =>
      refine ⟨n, .goes x _ (by rw [hPc]; exact Pc.noConfusion) fun hEntered => ?_⟩
      cases hPc.symm.trans hEntered
    | false =>
      refine ⟨n, .leaves x _ (by rw [hPc]; rfl) ?_⟩
      rintro ⟨-, hKeeps⟩
      simp [hSid, hLocked] at hKeeps
  | rehydrate n sid hPc hSid =>
    obtain ⟨x, -, hEq⟩ := rehydrate_eq s n sid
    rw [hEq]
    exact ⟨n, .goes x _ (by rw [hPc]; exact Pc.noConfusion) fun _ => hSid ▸ rfl⟩
  | register n sid rest hPc =>
    refine ⟨n, .goes { s.toSessions with registry := Function.update s.registry sid (some s.now) }
      (.registering rest) (by rw [hPc]; exact Pc.noConfusion) fun hEntered => ?_⟩
    cases hPc.symm.trans hEntered
  | registered n hPc =>
    refine ⟨n, .goes s.toSessions _ (by rw [hPc]; exact Pc.noConfusion) fun hEntered => ?_⟩
    cases hPc.symm.trans hEntered
  | answer a n sid starter ctx locked hPc hAct =>
    cases locked with
    | false =>
      refine ⟨n, .goes (s.answered n sid starter) _ (by rw [hPc]; exact Pc.noConfusion)
        fun hEntered => ?_⟩
      cases hPc.symm.trans hEntered
    | true =>
      refine ⟨n, .leaves (s.answered n sid starter) _ (by rw [hPc]; rfl) fun hKeeps => ?_⟩
      rcases hAct with ⟨-, hMethod⟩ | ⟨rfl, -⟩
      · exact hMethod hKeeps.1
      · cases ha

theorem line_acquire (hLined : s.Lined) : (s.acquire n).line = s.line ++ [n] := by
  cases hHolder : s.lock.holder with
  | none => simp [line, Manager.acquire, Lock.acquire, hHolder, hLined.free hHolder]
  | some h => simp [line, Manager.acquire, Lock.acquire, hHolder]

theorem Lined.line_eq (hLined : s.Lined) (hInside : (s.pc h).place = .inside) :
    s.line = h :: s.lock.waiting := by
  rw [line, (hLined.holder h).mpr hInside]
  rfl

theorem PassedOn.line (hPassed : PassedOn h s t) : t.line = s.lock.waiting := by
  rw [Manager.line, hPassed.lock, Lock.release]
  cases s.lock.waiting <;> rfl

theorem Behind.place {b : Nat} (hBehind : Behind E s b n) : (s.pc n).place ≠ .inside := by
  rcases hBehind.line with ⟨hPc, -⟩ | ⟨hPc, -⟩ <;> rw [hPc] <;> exact Place.noConfusion

theorem Behind.asks {b k : Nat} (hLined : s.Lined) (hBehind : Behind E s b n)
    (hPc : s.pc k = .entered ∨ s.pc k = .checking) : Behind E (s.acquire k) b n where
  keeps := (keeps_congr acquire_data).mpr hBehind.keeps
  line := by
    rw [line_acquire hLined, (data_eq acquire_data).1]
    rcases hBehind.line with ⟨hEntered, hSid, hMem⟩ | ⟨hWaiting, hSub⟩
    · by_cases hnk : n = k
      · subst hnk
        refine .inr ⟨?_, (List.singleton_sublist.mpr hMem).append (List.Sublist.refl [n])⟩
        rw [pc_acquire_self]
        cases hHolder : s.lock.holder with
        | none => simp [Manager.line, hHolder, hLined.free hHolder] at hMem
        | some h => rfl
      · rw [pc_acquire_of_ne hnk]
        exact .inl ⟨hEntered, hSid, List.mem_append_left _ hMem⟩
    · have hnk : n ≠ k := fun hEq => by
        rcases hPc with hPc | hPc <;> cases hWaiting.symm.trans (hEq ▸ hPc)
      rw [pc_acquire_of_ne hnk]
      exact .inr ⟨hWaiting, hSub.trans (List.sublist_append_left _ _)⟩

theorem Behind.goes {b k : Nat} (hBehind : Behind E s b n) (x : Sessions) (hPc : s.pc k ≠ .waiting)
    (hSid : s.pc k = .entered → (s.req k).sid.isSome = true) :
    Behind E ({ s with toSessions := x }.goto k pc) b n where
  keeps := (keeps_congr (s := s) goto_data).mpr hBehind.keeps
  line := by
    have hnk : n ≠ k := fun hEq => by
      rcases hBehind.line with ⟨hEntered, hNone, -⟩ | ⟨hWaiting, -⟩
      · have hSome := hSid (hEq ▸ hEntered)
        rw [← hEq, hNone] at hSome
        cases hSome
      · exact hPc (hEq ▸ hWaiting)
    rw [pc_goto_of_ne hnk, (data_eq goto_data).1]
    exact hBehind.line

theorem Behind.leaves {b k : Nat} (hLined : s.Lined) (hBehind : Behind E s b n) (x : Sessions)
    (hInside : (s.pc k).place = .inside) (hKeeps : ¬s.Keeps E k) :
    Behind E ({ s with toSessions := x }.goto k pc).release b n := by
  have hnk : n ≠ k := fun hEq => hBehind.place (hEq ▸ hInside)
  have hbk : b ≠ k := fun hEq => hKeeps (hEq ▸ hBehind.keeps)
  have hLine := Lined.line_eq hLined hInside
  have hNodup := hLined.nodup
  have hRest : s.pc n = .entered ∧ (s.req n).sid = none ∧ b ∈ s.lock.waiting ∨
      s.pc n = .waiting ∧ [b, n].Sublist s.lock.waiting := by
    rcases hBehind.line with ⟨hEntered, hSid, hMem⟩ | ⟨hWaiting, hSub⟩
    · rw [hLine] at hMem
      exact .inl ⟨hEntered, hSid, (List.mem_cons.mp hMem).resolve_left hbk⟩
    · rw [hLine] at hSub
      exact .inr ⟨hWaiting, hSub.of_cons_of_ne hbk⟩
  have hNext : s.lock.waiting.head? ≠ some n := fun hNext => by
    rcases hRest with ⟨hEntered, -⟩ | ⟨-, hSub⟩
    · have hWaiting := Lined.pc_of_waiting hLined (List.mem_of_mem_head? hNext)
      cases hEntered.symm.trans hWaiting
    · obtain ⟨rest, hEq⟩ := List.head?_eq_some_iff.mp hNext
      rw [hEq] at hSub hNodup
      have hNotMem := (List.nodup_cons.mp hNodup).1
      by_cases hbn : b = n
      · subst hbn
        exact hNotMem (List.singleton_sublist.mp (List.Sublist.of_cons_cons hSub))
      · exact hNotMem ((hSub.of_cons_of_ne hbn).subset (by simp))
  have hPassed := passedOn_of_sessions (passedOn_release { s with toSessions := x } k pc)
  refine ⟨(keeps_congr (hPassed.data b)).mpr hBehind.keeps, ?_⟩
  rw [hPassed.line, hPassed.others n hnk hNext, (data_eq (hPassed.data n)).1]
  exact hRest

theorem Behind.turn {b k : Nat} (hLined : s.Lined) (hBehind : Behind E s b n)
    (hTurn : Turn E s k t) : Behind E t b n := by
  cases hTurn with
  | asks hPc => exact hBehind.asks hLined hPc
  | goes x pc hPc hSid => exact hBehind.goes x hPc hSid
  | leaves x pc hInside hKeeps => exact hBehind.leaves hLined x hInside hKeeps

theorem Behind.reach {b : Nat} (hs : s.Orderly E) (hQuiet : Quiet s) (hBehind : Behind E s b n)
    (h : Reach (Manager.step E) (fun _ a => a.byServer = true) s t) : Behind E t b n := by
  refine (@Reach.invariant _ _ _ _ (fun t => t.Lined ∧ Quiet t ∧ Behind E t b n) _ _
    ⟨hs.lined, hQuiet, hBehind⟩ (fun t a u _ hInv ha hStep => ?_) h).2.2
  obtain ⟨hLined, hQuiet, hBehind⟩ := hInv
  have hMove := step_move hStep
  obtain ⟨k, hTurn⟩ := hQuiet.turn hMove ha
  refine ⟨hLined.move hMove, hQuiet.move hMove ?_, hBehind.turn hLined hTurn⟩
  cases a with
  | arrive => cases ha
  | _ => rfl

theorem Behind.not_attended {b : Nat} (hBehind : Behind E s b n) : (s.pc n).attended = false := by
  rcases hBehind.line with ⟨hPc, -⟩ | ⟨hPc, -⟩ <;> rw [hPc] <;> rfl

theorem sublist_of_mem_takeWhile {l : List Nat} {b : Nat} (hb : b ∈ l.takeWhile (· ≠ n))
    (hn : n ∈ l) : [b, n].Sublist l := by
  have hRest : n ∈ l.dropWhile (· ≠ n) := by
    rw [← List.takeWhile_append_dropWhile (p := (· ≠ n)) (l := l)] at hn
    refine (List.mem_append.mp hn).resolve_left fun hIn => ?_
    simpa using List.mem_takeWhile_imp hIn
  rw [← List.takeWhile_append_dropWhile (p := (· ≠ n)) (l := l)]
  exact (List.singleton_sublist.mpr hb).append (List.singleton_sublist.mpr hRest)

theorem Behind.not_canAttend {b : Nat} (hs : s.Orderly E) (hQuiet : Quiet s)
    (hBehind : Behind E s b n) : ¬s.CanAttend E n := by
  rintro ⟨t, hReach, hAttended⟩
  rw [(hBehind.reach hs hQuiet hReach).not_attended] at hAttended
  cases hAttended

theorem Orderly.behind {b : Nat} (hs : s.Orderly E)
    (hPc : s.pc n = .waiting ∨ s.pc n = .entered ∧ (s.req n).sid = none) (hb : b ∈ s.ahead n)
    (hKeeps : s.Keeps E b) : Behind E s b n := by
  refine ⟨hKeeps, ?_⟩
  rcases hPc with hPc | ⟨hPc, hSid⟩
  · have hn : n ∈ s.line :=
      List.mem_append_right _ ((hs.lined.waiting n).mpr (congrArg Pc.place hPc))
    exact .inr ⟨hPc, sublist_of_mem_takeWhile hb hn⟩
  · exact .inl ⟨hPc, hSid, (List.takeWhile_sublist _).subset hb⟩

theorem Quiet.reach (h : Reach (Manager.step E) (fun _ a => a.getOrPost = true) .init s) :
    Quiet s :=
  h.invariant Quiet.init fun _ _ _ _ hInv ha hStep => hInv.move (step_move hStep) ha

/-- In a run of GET and POST requests the server can get to every request, unless it needs
the lock and an event stream that is handled under it is before it in the line. Of the
requests that wait, or bring no session, it can get to no others. -/
theorem attended_unless_behind {E : Server} {s : Manager}
    (h : Reach (Manager.step E) (fun _ a => a.getOrPost = true) .init s) {n : Nat}
    (hPresent : s.pc n ≠ .absent) :
    ((s.NeedsLock E n → ∀ m ∈ s.ahead n, ¬s.Keeps E m) → s.CanAttend E n) ∧
      (s.pc n = .waiting ∨ s.pc n = .entered ∧ (s.req n).sid = none → s.CanAttend E n →
        ∀ m ∈ s.ahead n, ¬s.Keeps E m) := by
  have hs : s.Orderly E := Orderly.init.reach h
  exact ⟨Orderly.canAttend hs hPresent, fun hPc hCan m hm hKeeps =>
    (Orderly.behind hs hPc hm hKeeps).not_canAttend hs (.reach h) hCan⟩

end Manager

/-! ## A session that comes back after a restart -/

def oneKey : Server where
  auth := {
    apiKey := ['k']
    decode := fun _ => none
    bootstrap := []
  }
  sessionTtl := 60
  lockedCreation := false

/-- Request 0 creates a session, which request 1 rehydrates after a restart; then request 2
comes in for a session of its own. -/
def resumed (method : Method) : List ManagerAct :=
  [.arrive 0 none .post ⟨['k'], []⟩, .go 0, .go 0, .finish 0, .go 0, .go 0, .restart,
    .arrive 1 (some 0) method ⟨['k'], []⟩, .go 1, .go 1, .go 1,
    .arrive 2 none .post ⟨['k'], []⟩, .go 2]

theorem resumed_reach {method : Method} (hMethod : method ≠ .delete) {t : Manager}
    (hRun : run (Manager.step oneKey) .init (resumed method) = some t) :
    Reach (Manager.step oneKey) (fun _ a => a.getOrPost = true) .init t := by
  refine .of_run hRun ?_
  cases method with
  | delete => exact absurd rfl hMethod
  | get | post => decide

theorem resumedPost_attended : ∃ t, run (Manager.step oneKey) .init (resumed .post) = some t ∧
    t.pc 2 = .waiting ∧ t.CanAttend oneKey 2 := by
  obtain ⟨t, hRun, ht⟩ := exists_run_of_any (Manager.step oneKey) .init (resumed .post)
    (fun t => decide (t.pc 2 = .waiting ∧ t.ahead 2 = [1] ∧ (t.req 1).method = .post)) (by decide)
  obtain ⟨hPc, hAhead, hMethod⟩ := of_decide_eq_true ht
  refine ⟨t, hRun, hPc, (Manager.attended_unless_behind (resumed_reach (by decide) hRun) ?_).1 ?_⟩
  · rw [hPc]
    exact Pc.noConfusion
  · rintro - m hm ⟨hGet, -⟩
    rw [hAhead, List.mem_singleton] at hm
    rw [hm, hMethod] at hGet
    cases hGet

theorem resumedGet_blocks : ∃ t, run (Manager.step oneKey) .init (resumed .get) = some t ∧
    t.pc 2 = .waiting ∧ ¬t.CanAttend oneKey 2 := by
  obtain ⟨t, hRun, ht⟩ := exists_run_of_any (Manager.step oneKey) .init (resumed .get)
    (fun t => decide (t.pc 2 = .waiting ∧ 1 ∈ t.ahead 2 ∧ (t.req 1).method = .get ∧
      (t.req 1).sid.isSome = true)) (by decide)
  obtain ⟨hPc, hAhead, hMethod, hSid⟩ := of_decide_eq_true ht
  have hReach := resumed_reach (by decide) hRun
  have hs : t.Orderly oneKey := Manager.Orderly.init.reach hReach
  exact ⟨t, hRun, hPc, (Manager.Orderly.behind hs (.inl hPc) hAhead
    ⟨hMethod, .inl hSid⟩).not_canAttend hs (.reach hReach)⟩

end OpenSpoke.Mcp
