import OpenSpoke.Tunnel.Client.Flush

/-!
# The ids of the requests of the local proxy

The callers of the local proxy are given ids in the order in which they ask, and
an id comes back after 2^64 of them. Until then every id names one caller, which
is handed one response at most.
-/

namespace OpenSpoke.Tunnel

open Lts

/-- The handler uses, or returned with, an id. -/
def CallerPc.numbered : CallerPc → Bool
  | .register | .send | .unsend | .wait | .expire => true
  | .returned .notConnected => false
  | .returned _ => true
  | _ => false

/-- The handler has not been given an id. -/
def CallerPc.unnumbered : CallerPc → Bool
  | .absent | .readHub | .alloc => true
  | _ => false

/-- The handler is past the point where it sends its request. -/
def CallerPc.posted : CallerPc → Bool
  | .absent | .readHub | .alloc | .register | .send => false
  | _ => true

/-- The request that a frame carries. -/
def ClientFrame.request (f : ClientFrame) : Option HttpRequest :=
  match f.kind with
  | some (.httpRequest req) => some req
  | _ => none

/-- The response that a frame carries. -/
def ServerFrame.response (f : ServerFrame) : Option HttpResponse :=
  match f.kind with
  | some (.httpResponse resp) => some resp
  | _ => none

namespace Client

variable {E : ClientEnv} {k j : Client} {l : List Nat}

/-! ## Ids -/

/-- The id that the handler asking after `i` others is given. -/
def idAt (i : Nat) : Nat := (2 ^ 63 + i) % 2 ^ 64

theorem idAt_inj {i j : Nat} (hi : i < 2 ^ 64) (hj : j < 2 ^ 64) (h : idAt i = idAt j) : i = j := by
  unfold idAt at h
  omega

theorem fetchAdd_idAt (i : Nat) : fetchAdd (idAt i) = idAt (i + 1) := by
  unfold fetchAdd idAt
  omega

/-- `l` are the handlers that were given an id, in this order. -/
structure Numbered (k : Client) (l : List Nat) : Prop where
  counter : k.streamIdCounter = idAt l.length
  nodup : l.Nodup
  known : ∀ n ∈ l, n < k.nextCaller ∧ (k.caller n).pc.unnumbered = false
  sid : ∀ i n, l[i]? = some n → (k.caller n).sid = idAt i
  mem : ∀ n, (k.caller n).pc.numbered = true → n ∈ l
  listed : ∀ sid n, k.pending.lookup sid = some n → n ∈ l

theorem numbered_init : Numbered init [] := by
  constructor <;> simp [init, idAt, CallerPc.numbered]

theorem Numbered.length_le (h : Numbered k l) : l.length ≤ k.nextCaller := by
  have hSub : l ⊆ List.range k.nextCaller := fun n hn => List.mem_range.mpr (h.known n hn).1
  simpa using (List.subperm_of_subset h.nodup hSub).length_le

theorem Numbered.sid_inj (h : Numbered k l) (hFew : k.nextCaller ≤ 2 ^ 64) {n m : Nat} (hn : n ∈ l)
    (hm : m ∈ l) (hSid : (k.caller n).sid = (k.caller m).sid) : n = m := by
  obtain ⟨i, hi⟩ := List.mem_iff_getElem?.mp hn
  obtain ⟨i', hi'⟩ := List.mem_iff_getElem?.mp hm
  have hLt : ∀ {i n}, l[i]? = some n → i < 2 ^ 64 := fun hAt =>
    ((List.getElem?_eq_some_iff.mp hAt).1.trans_le h.length_le).trans_le hFew
  rw [h.sid i n hi, h.sid i' m hi'] at hSid
  obtain rfl := idAt_inj (hLt hi) (hLt hi') hSid
  exact Option.some.inj (hi.symm.trans hi')

/-- What a step leaves of a handler that has an id. -/
structure SameRequest (k j : Client) (n : Nat) : Prop where
  conn : (j.caller n).conn = (k.caller n).conn
  sid : (j.caller n).sid = (k.caller n).sid
  req : (j.caller n).req = (k.caller n).req
  late : (j.caller n).pc.unnumbered = false
  posted : (k.caller n).pc.posted = true → (j.caller n).pc.posted = true

theorem Numbered.frame (h : Numbered k l) (hCounter : j.streamIdCounter = k.streamIdCounter)
    (hNext : k.nextCaller ≤ j.nextCaller) (hSame : ∀ n ∈ l, SameRequest k j n)
    (hMem : ∀ n, (j.caller n).pc.numbered = true → (k.caller n).pc.numbered = true)
    (hListed : ∀ sid n, j.pending.lookup sid = some n → k.pending.lookup sid = some n ∨
      (k.caller n).pc = .register) : Numbered j l where
  counter := hCounter.trans h.counter
  nodup := h.nodup
  known n hn := ⟨(h.known n hn).1.trans_le hNext, (hSame n hn).late⟩
  sid i n hi := ((hSame n (List.mem_of_getElem? hi)).sid).trans (h.sid i n hi)
  mem n hn := h.mem n (hMem n hn)
  listed sid n hFind := by
    rcases hListed sid n hFind with hOld | hPc
    · exact h.listed sid n hOld
    · exact h.mem n (by rw [hPc]; rfl)

theorem SameRequest.of_eq {n : Nat} (h : j.caller n = k.caller n)
    (hLate : (k.caller n).pc.unnumbered = false) : SameRequest k j n := by
  constructor <;> simp [h, hLate]

theorem counter_step {a : ClientEvent} (h : k.eventStep E a = some j) (hAlloc : k.allocates a = false) :
    j.streamIdCounter = k.streamIdCounter := by
  have hResolve : ∀ n r, (k.resolve n r).streamIdCounter = k.streamIdCounter := by
    intro n r
    unfold resolve
    split <;> rfl
  cases a with
  | act a =>
    cases a with
    | main e => cases mainStep_move h <;> first | rfl | exact hResolve _ _
    | run c sid e => cases runStep_move h <;> rfl
    | caller n e =>
      cases callerStep_move h with
      | alloc hPc => simp [allocates, hPc] at hAlloc
      | _ => rfl
    | env e =>
      cases e with
      | peerSend c sid b =>
        obtain ⟨sock, -, rfl⟩ := Option.map_eq_some_iff.mp h
        rfl
      | _ => cases h; rfl
  | connect c =>
    simp only [eventStep, Option.ite_none_right_eq_some] at h
    obtain ⟨-, hEq⟩ := h
    cases hEq
    rfl
  | up c =>
    simp only [eventStep] at h
    split at h
    · split at h <;> cases h
      rfl
    · cases h
  | down c f =>
    simp only [eventStep, Option.ite_none_right_eq_some] at h
    obtain ⟨-, hEq⟩ := h
    cases hEq
    unfold receive
    split
    · rfl
    · dsimp only
      split <;> rfl
    · split <;> rfl
    · rfl
    · rfl
    · split <;> rfl
    · rfl

theorem SameRequest.callerTo {n m : Nat} {x : Caller}
    (hCaller : j.caller = Function.update k.caller n x)
    (hLate : (k.caller m).pc.unnumbered = false)
    (hSelf : m = n → x.conn = (k.caller n).conn ∧ x.sid = (k.caller n).sid ∧
      x.req = (k.caller n).req ∧ x.pc.unnumbered = false ∧
      ((k.caller n).pc.posted = true → x.pc.posted = true)) : SameRequest k j m := by
  by_cases hm : m = n
  · subst hm
    obtain ⟨hConn, hSid, hReq, hPc, hPosted⟩ := hSelf rfl
    constructor <;> simpa [hCaller]
  · exact .of_eq (by simp [hCaller, hm]) hLate

theorem Numbered.callerTo (h : Numbered k l) {n : Nat} {x : Caller}
    (hCounter : j.streamIdCounter = k.streamIdCounter) (hNext : j.nextCaller = k.nextCaller)
    (hCaller : j.caller = Function.update k.caller n x)
    (hSelf : n ∈ l → x.conn = (k.caller n).conn ∧ x.sid = (k.caller n).sid ∧
      x.req = (k.caller n).req ∧ x.pc.unnumbered = false ∧
      ((k.caller n).pc.posted = true → x.pc.posted = true))
    (hMem : x.pc.numbered = true → (k.caller n).pc.numbered = true)
    (hListed : ∀ sid m, j.pending.lookup sid = some m → k.pending.lookup sid = some m ∨
      (k.caller m).pc = .register) :
    Numbered j l ∧ ∀ m ∈ l, SameRequest k j m := by
  have hSame : ∀ m ∈ l, SameRequest k j m := fun m hm =>
    .callerTo hCaller (h.known m hm).2 fun hmn => hSelf (hmn ▸ hm)
  refine ⟨h.frame hCounter hNext.ge hSame (fun m hm => ?_) hListed, hSame⟩
  rw [hCaller, Function.update_apply] at hm
  split at hm
  next hmn =>
    subst hmn
    exact hMem hm
  next => exact hm

theorem none_new (h : Numbered j l ∧ ∀ m ∈ l, SameRequest k j m) :
    ∃ new, Numbered j (l ++ new) ∧ ∀ m ∈ l, SameRequest k j m := ⟨[], by simpa using h⟩

theorem Numbered.callerMove (h : Numbered k l) (hOwned : k.Owned) {n : Nat} {e : CallerEv}
    (hMove : CallerMove E k n e j) :
    ∃ new, Numbered j (l ++ new) ∧ ∀ m ∈ l, SameRequest k j m := by
  have hNot : (k.caller n).pc.unnumbered = true → n ∉ l := fun hPc hn => by
    simp [(h.known n hn).2] at hPc
  have hLess : ∀ sid m, (k.pending.erase (k.caller n).sid).lookup sid = some m →
      k.pending.lookup sid = some m := by
    intro sid m hFind
    rcases eq_or_ne sid (k.caller n).sid with rfl | hNe
    · simp at hFind
    · rwa [AList.lookup_erase_ne hNe] at hFind
  cases hMove with
  | alloc hPc =>
    have hOut := hNot (by simp [hPc, CallerPc.unnumbered])
    have hOther : ∀ m ∈ l, m ≠ n := fun m hm hmn => hOut (hmn ▸ hm)
    refine ⟨[n], ?_, fun m hm => .of_eq (by simp [hOther m hm]) (h.known m hm).2⟩
    constructor
    · simp [h.counter, fetchAdd_idAt]
    · exact List.nodup_append.mpr ⟨h.nodup, by simp, by simpa using hOther⟩
    · intro m hm
      rcases List.mem_append.mp hm with hm | hm
      · simpa [hOther m hm] using h.known m hm
      · obtain rfl := List.mem_singleton.mp hm
        exact ⟨hOwned.known (by simp [hPc]), by simp [CallerPc.unnumbered]⟩
    · intro i m hi
      rcases Nat.lt_or_ge i l.length with hLt | hGe
      · rw [List.getElem?_append_left hLt] at hi
        simpa [hOther m (List.mem_of_getElem? hi)] using h.sid i m hi
      · have hEnd := (List.getElem?_eq_some_iff.mp hi).1
        obtain rfl : i = l.length := by
          rw [List.length_append, List.length_singleton] at hEnd
          omega
        obtain rfl : n = m := by simpa using hi
        simp [h.counter]
    · intro m hm
      rcases eq_or_ne m n with rfl | hmn
      · simp
      · exact List.mem_append_left _ (h.mem m (by simpa [hmn] using hm))
    · exact fun sid m hFind => List.mem_append_left _ (h.listed sid m hFind)
  | cloned c hPc hHub =>
    refine none_new (h.callerTo rfl rfl rfl ?_ ?_ fun _ _ h => .inl h)
    · exact fun hn => absurd hn (hNot (by simp [hPc, CallerPc.unnumbered]))
    · simp [CallerPc.numbered]
  | unconnected hPc =>
    refine none_new (h.callerTo rfl rfl rfl ?_ ?_ fun _ _ h => .inl h)
    · exact fun hn => absurd hn (hNot (by simp [hPc, CallerPc.unnumbered]))
    · simp [CallerPc.numbered]
  | register hPc =>
    refine none_new (h.callerTo rfl rfl rfl ?_ ?_ fun sid m hFind => ?_)
    · simp [hPc, CallerPc.unnumbered, CallerPc.posted]
    · simp [hPc, CallerPc.numbered]
    · rcases eq_or_ne sid (k.caller n).sid with rfl | hNe
      · obtain rfl : n = m := by simpa using hFind
        exact .inr hPc
      · exact .inl (by simpa [AList.lookup_insert_ne hNe] using hFind)
  | sent hPc hOpen | unsent hPc hOpen =>
    refine none_new (h.callerTo rfl rfl rfl ?_ ?_ fun _ _ h => .inl h) <;>
      simp [hPc, CallerPc.unnumbered, CallerPc.posted, CallerPc.numbered]
  | unsend hPc | expire hPc =>
    refine none_new (h.callerTo rfl rfl rfl ?_ ?_ fun sid m hFind => .inl (hLess sid m hFind)) <;>
      simp [hPc, CallerPc.unnumbered, CallerPc.posted, CallerPc.numbered]
  | replied r hPc hSlot | orphaned hPc hSlot hGone | timeout hPc hSlot =>
    refine none_new (h.callerTo rfl rfl rfl ?_ ?_ fun _ _ h => .inl h) <;>
      simp [hPc, CallerPc.unnumbered, CallerPc.posted, CallerPc.numbered]
  | drop hPc =>
    refine none_new (h.callerTo rfl rfl rfl ?_ ?_ fun _ _ h => .inl h) <;>
      simp [CallerPc.unnumbered, CallerPc.posted, CallerPc.numbered]

@[simp] theorem resolve_req (n m : Nat) (r : Reply) :
    ((k.resolve n r).caller m).req = (k.caller m).req := by
  rw [resolve_caller]
  split
  next h => rw [h.1]
  next => rfl

theorem Numbered.resolved (h : Numbered k l) (n : Nat) (r : Reply) {p : MainPc}
    (hCounter : ((k.resolve n r).goto p).streamIdCounter = k.streamIdCounter) :
    Numbered ((k.resolve n r).goto p) l ∧ ∀ m ∈ l, SameRequest k ((k.resolve n r).goto p) m := by
  have hSame : ∀ m ∈ l, SameRequest k ((k.resolve n r).goto p) m := by
    intro m hm
    constructor <;> simp [(h.known m hm).2]
  exact ⟨h.frame hCounter (by simp) hSame (by simp) fun sid m hFind => .inl (by simpa using hFind),
    hSame⟩

theorem Numbered.unchanged (h : Numbered k l) (hCounter : j.streamIdCounter = k.streamIdCounter)
    (hNext : k.nextCaller ≤ j.nextCaller) (hCaller : ∀ n < k.nextCaller, j.caller n = k.caller n)
    (hNew : ∀ n, k.nextCaller ≤ n → (j.caller n).pc.numbered = false)
    (hListed : ∀ sid n, j.pending.lookup sid = some n → k.pending.lookup sid = some n) :
    Numbered j l ∧ ∀ n ∈ l, SameRequest k j n := by
  have hSame : ∀ n ∈ l, SameRequest k j n := fun n hn =>
    .of_eq (hCaller n (h.known n hn).1) (h.known n hn).2
  refine ⟨h.frame hCounter hNext hSame (fun n hn => ?_) fun sid n hFind =>
    .inl (hListed sid n hFind), hSame⟩
  rcases Nat.lt_or_ge n k.nextCaller with hLt | hGe
  · rwa [← hCaller n hLt]
  · simp [hNew n hGe] at hn

/-- Ids are handed out one after the other, and nobody's request changes after that. -/
theorem Numbered.step (h : Numbered k l) (hOwned : k.Owned) {a : ClientEvent}
    (hStep : k.eventStep E a = some j) :
    ∃ new, Numbered j (l ++ new) ∧ ∀ n ∈ l, SameRequest k j n := by
  have hAbsent : ∀ n, k.nextCaller ≤ n → (k.caller n).pc.numbered = false := fun n hn => by
    simp [hOwned.absent n hn, CallerPc.numbered]
  have hCounter := counter_step hStep
  cases eventStep_move hStep with
  | caller n e j hMove => exact h.callerMove hOwned hMove
  | other a j hPlain hSame hMain =>
    obtain ⟨hPending, -, hCaller, hNext⟩ := hSame
    have hAlloc : k.allocates a = false := by
      cases a with
      | act a => cases a <;> first | rfl | exact hPlain.elim
      | _ => rfl
    refine none_new (h.unchanged (hCounter hAlloc) hNext.ge ?_ ?_ ?_)
    · exact fun n _ => congrFun hCaller n
    · exact fun n hn => by rw [hCaller]; exact hAbsent n hn
    · exact fun sid n hFind => hPending ▸ hFind
  | connect c hMain =>
    exact none_new (h.unchanged rfl le_rfl (fun _ _ => rfl) hAbsent fun _ _ h => h)
  | arrive req =>
    refine none_new (h.unchanged rfl (Nat.le_succ _) (fun n hn => ?_) (fun n hn => ?_)
      fun _ _ h => h)
    · simp [Nat.ne_of_lt hn]
    · rcases eq_or_ne n k.nextCaller with rfl | hNe
      · simp [CallerPc.numbered]
      · simpa [hNe] using hAbsent n hn
  | taken c f n resp hMain hFind =>
    refine none_new (h.unchanged rfl le_rfl (fun _ _ => rfl) hAbsent fun sid m hFind => ?_)
    rcases eq_or_ne sid f.streamId with rfl | hNe
    · simp at hFind
    · simpa [AList.lookup_erase_ne hNe] using hFind
  | handed c n resp hMain =>
    exact none_new (h.resolved n (.hub resp) (hCounter rfl))
  | answered n q hMain => exact none_new (h.resolved n .flushed (hCounter rfl))
  | released hMain =>
    exact none_new (h.unchanged rfl le_rfl (fun _ _ => rfl) hAbsent fun _ _ h => h)
  | flush hMain =>
    exact none_new (h.unchanged rfl le_rfl (fun _ _ => rfl) hAbsent (by simp))

/-- While ids are not used up, one that is handed out is new. -/
theorem Numbered.freshId (h : Numbered k l) (hOwned : k.Owned) (hFew : k.nextCaller ≤ 2 ^ 64)
    (a : ClientEvent) : k.FreshId a := by
  intro hAlloc m hm hLive hSid
  have hMem : m ∈ l := h.mem m (by
    cases hPc : (k.caller m).pc <;> simp_all [CallerPc.live, CallerPc.numbered])
  obtain ⟨i, hi⟩ := List.mem_iff_getElem?.mp hMem
  have hLt := (List.getElem?_eq_some_iff.mp hi).1
  -- the handler that asks is not in the list yet
  have hRoom : l.length < k.nextCaller := by
    obtain ⟨n, hPc⟩ : ∃ n, (k.caller n).pc = .alloc := by
      unfold allocates at hAlloc
      split at hAlloc
      next n => exact ⟨n, by simpa using hAlloc⟩
      next => cases hAlloc
    have hNot : n ∉ l := fun hn => by simpa [hPc, CallerPc.unnumbered] using (h.known n hn).2
    have hSub : n :: l ⊆ List.range k.nextCaller := by
      intro i hi
      rcases List.mem_cons.mp hi with rfl | hi
      · exact List.mem_range.mpr (hOwned.known (by simp [hPc]))
      · exact List.mem_range.mpr (h.known i hi).1
    have hLe := (List.subperm_of_subset (List.nodup_cons.mpr ⟨hNot, h.nodup⟩) hSub).length_le
    rwa [List.length_cons, List.length_range] at hLe
  rw [h.sid i m hi, h.counter] at hSid
  have hEq := idAt_inj (by omega) (by omega) hSid
  omega

/-! ## Requests on their way out, replies on their way back -/

theorem resolve_handed (n : Nat) (r : Reply) : (k.resolve n r).handed = k.handed ∨
    (k.resolve n r).handed = k.handed ++ [(n, r)] := by
  unfold resolve
  split
  · exact .inr rfl
  · exact .inl rfl

/-- The dispatch loop answers pings and challenges, reports dials, and sends no request. -/
def Plainly (k : Client) : Prop :=
  ∀ c f fatal, k.main = .session c (.send f fatal) → f.request = none

/-- What `main` can come to hold. -/
structure MainKept (k : Client) (a : ClientEvent) (j : Client) : Prop where
  send : ∀ c f fatal, j.main = .session c (.send f fatal) →
    k.main = .session c (.send f fatal) ∨ f.request = none
  hand : ∀ c n resp, j.main = .session c (.hand n resp) → k.main = .session c (.hand n resp) ∨
    ∃ f, a = .down c f ∧ k.main = .session c .next ∧ f.response = some resp ∧
      k.pending.lookup f.streamId = some n

theorem MainKept.of_eq {a : ClientEvent} (h : j.main = k.main) : MainKept k a j :=
  ⟨fun _ _ _ hAt => .inl (h ▸ hAt), fun _ _ _ hAt => .inl (h ▸ hAt)⟩

theorem receive_main {c : ConnId} {f : ServerFrame} (hMain : k.main = .session c .next) :
    MainKept k (.down c f) (k.receive E c f) := by
  unfold receive
  split
  · constructor <;> simp [clientHandshake, ClientFrame.request]
  · dsimp only
    split
    · constructor <;> simp [clientClose, ClientFrame.request]
    · exact .of_eq rfl
  · split
    · constructor <;> simp
    · exact .of_eq rfl
  · exact .of_eq rfl
  · constructor <;> simp [clientPong, ClientFrame.request]
  next resp hKind =>
    split
    next n hFind =>
      refine ⟨by simp, fun d m resp' hAt => .inr ⟨f, ?_⟩⟩
      simp only [goto_main, MainPc.session.injEq, DispatchPc.hand.injEq] at hAt
      obtain ⟨rfl, rfl, rfl⟩ := hAt
      exact ⟨rfl, hMain, by simp [ServerFrame.response, hKind], hFind⟩
    next => exact .of_eq rfl
  · exact .of_eq rfl

theorem main_step {a : ClientEvent} (h : k.eventStep E a = some j) : MainKept k a j := by
  cases a with
  | act a =>
    cases a with
    | main e =>
      cases mainStep_move h with
      | unsent c f fatal hMain hOpen => cases fatal <;> constructor <;> simp
      | _ => constructor <;> simp
    | run c sid e => cases runStep_move h <;> exact .of_eq rfl
    | caller n e => cases callerStep_move h <;> exact .of_eq rfl
    | env e =>
      cases e with
      | peerSend c sid b =>
        obtain ⟨sock, -, rfl⟩ := Option.map_eq_some_iff.mp h
        exact .of_eq rfl
      | _ => cases h; exact .of_eq rfl
  | connect c =>
    simp only [eventStep, Option.ite_none_right_eq_some] at h
    obtain ⟨-, hEq⟩ := h
    cases hEq
    constructor <;> simp [connected]
  | up c =>
    simp only [eventStep] at h
    split at h
    · split at h <;> cases h
      exact .of_eq rfl
    · cases h
  | down c f =>
    simp only [eventStep, Option.ite_none_right_eq_some] at h
    obtain ⟨hMain, hEq⟩ := h
    cases hEq
    exact receive_main hMain

/-- The replies that have found their receiver. -/
inductive HandedStep (k j : Client) : Prop
  | same (h : j.handed = k.handed)
  | hub (c : ConnId) (n : Nat) (resp : HttpResponse) (hMain : k.main = .session c (.hand n resp))
      (h : j.handed = k.handed ++ [(n, .hub resp)]) (hRest : j.senders = k.pending.vals)
  | flushed (n : Nat) (l : List Nat) (hMain : k.main = .release (n :: l))
      (h : j.handed = k.handed ++ [(n, .flushed)]) (hRest : j.senders = k.pending.vals ++ l)

theorem receive_handed (E : ClientEnv) (k : Client) (c : ConnId) (f : ServerFrame) :
    (k.receive E c f).handed = k.handed ∧ (k.receive E c f).caller = k.caller ∧
      (k.receive E c f).out = k.out := by
  unfold receive
  split
  · exact ⟨rfl, rfl, rfl⟩
  · dsimp only
    split <;> exact ⟨rfl, rfl, rfl⟩
  · split <;> exact ⟨rfl, rfl, rfl⟩
  · exact ⟨rfl, rfl, rfl⟩
  · exact ⟨rfl, rfl, rfl⟩
  · split <;> exact ⟨rfl, rfl, rfl⟩
  · exact ⟨rfl, rfl, rfl⟩

theorem handed_step {a : ClientEvent} (h : k.eventStep E a = some j) : HandedStep k j := by
  cases a with
  | act a =>
    cases a with
    | main e =>
      cases mainStep_move h with
      | hand c n resp hMain =>
        rcases resolve_handed (k := k) n (.hub resp) with hSame | hNew
        · exact .same hSame
        · exact .hub c n resp hMain hNew (by rw [senders_answered]; exact List.append_nil _)
      | release n l hMain =>
        rcases resolve_handed (k := k) n .flushed with hSame | hNew
        · exact .same hSame
        · exact .flushed n l hMain hNew (senders_answered n .flushed (.release l))
      | _ => exact .same rfl
    | run c sid e => cases runStep_move h <;> exact .same rfl
    | caller n e => cases callerStep_move h <;> exact .same rfl
    | env e =>
      cases e with
      | peerSend c sid b =>
        obtain ⟨sock, -, rfl⟩ := Option.map_eq_some_iff.mp h
        exact .same rfl
      | _ => cases h; exact .same rfl
  | connect c =>
    simp only [eventStep, Option.ite_none_right_eq_some] at h
    obtain ⟨-, hEq⟩ := h
    cases hEq
    exact .same rfl
  | up c =>
    simp only [eventStep] at h
    split at h
    · split at h <;> cases h
      exact .same rfl
    · cases h
  | down c f =>
    simp only [eventStep, Option.ite_none_right_eq_some] at h
    obtain ⟨-, hEq⟩ := h
    cases hEq
    exact .same (receive_handed E k c f).1

/-- Response `resp` of the server is with caller `n`, or about to be. -/
def Got (k : Client) (n : Nat) (resp : HttpResponse) : Prop :=
  (n, Reply.hub resp) ∈ k.handed ∨ (k.caller n).slot = some (.hub resp) ∨
    (k.caller n).pc = .returned (.reply (.hub resp)) ∨ ∃ c, k.main = .session c (.hand n resp)

theorem Got.of_slot {n : Nat} {resp : HttpResponse} (h : (k.caller n).slot = some (.hub resp)) :
    k.Got n resp := .inr (.inl h)

theorem Got.of_returned {n : Nat} {resp : HttpResponse}
    (h : (k.caller n).pc = .returned (.reply (.hub resp))) : k.Got n resp := .inr (.inr (.inl h))

theorem Got.of_hand {n : Nat} {resp : HttpResponse} {c : ConnId}
    (h : k.main = .session c (.hand n resp)) : k.Got n resp := .inr (.inr (.inr ⟨c, h⟩))

theorem caller_got {n m : Nat} {resp : HttpResponse} {e : CallerEv} (hMove : CallerMove E k m e j)
    (h : (j.caller n).slot = some (.hub resp) ∨ (j.caller n).pc = .returned (.reply (.hub resp))) :
    k.Got n resp := by
  by_cases hn : n = m
  · subst hn
    cases hMove with
    | replied r hPc hSlot =>
      rcases h with h | h
      · exact .of_slot (by simpa using h)
      · refine .of_slot ?_
        rw [hSlot]
        simpa using h
    | _ =>
      rcases h with h | h
      · exact .of_slot (by simpa using h)
      · simp at h
  · rcases h with h | h
    · exact .of_slot (by cases hMove <;> simpa [hn] using h)
    · exact .of_returned (by cases hMove <;> simpa [hn] using h)

theorem caller_pending {n : Nat} {resp : HttpResponse} {a : ClientEvent} (hMove : PendingMove E k a j)
    (h : (j.caller n).slot = some (.hub resp) ∨ (j.caller n).pc = .returned (.reply (.hub resp))) :
    k.Got n resp := by
  have hSame : (k.caller n).slot = some (.hub resp) ∨
      (k.caller n).pc = .returned (.reply (.hub resp)) → k.Got n resp :=
    fun h => h.elim .of_slot .of_returned
  cases hMove with
  | other a j hPlain hSame' => exact hSame (by rwa [hSame'.2.2.1] at h)
  | caller m e j hMove => exact caller_got hMove h
  | arrive req =>
    by_cases hn : n = k.nextCaller
    · subst hn
      simp at h
    · exact hSame (by simpa [hn] using h)
  | handed c m resp' hMain =>
    rcases h with h | h
    · rw [goto_caller, resolve_caller] at h
      split at h
      next hHit =>
        obtain ⟨rfl, -⟩ := hHit
        obtain rfl : resp' = resp := by simpa using h
        exact .of_hand hMain
      next => exact .of_slot h
    · exact .of_returned (by simpa using h)
  | answered m l hMain =>
    rcases h with h | h
    · rw [goto_caller, resolve_caller] at h
      split at h
      next => simp at h
      next => exact .of_slot h
    · exact .of_returned (by simpa using h)
  | connect | taken | released | flush => exact hSame h

/-- A response comes from the frame that the dispatch loop receives. -/
theorem got_step {n : Nat} {resp : HttpResponse} {a : ClientEvent} (h : k.eventStep E a = some j)
    (hGot : j.Got n resp) : k.Got n resp ∨ ∃ c f, a = .down c f ∧ k.main = .session c .next ∧
      f.response = some resp ∧ k.pending.lookup f.streamId = some n := by
  rcases hGot with hIn | hSlot | hPc | ⟨c, hMain⟩
  · cases handed_step h with
    | same hSame => exact .inl (.inl (hSame ▸ hIn))
    | hub c m resp' hMain hNew hRest =>
      rw [hNew, List.mem_append, List.mem_singleton] at hIn
      rcases hIn with hIn | hIn
      · exact .inl (.inl hIn)
      · cases hIn
        exact .inl (.of_hand hMain)
    | flushed m l hMain hNew hRest =>
      rw [hNew, List.mem_append, List.mem_singleton] at hIn
      rcases hIn with hIn | hIn
      · exact .inl (.inl hIn)
      · cases hIn
  · exact .inl (caller_pending (eventStep_move h) (.inl hSlot))
  · exact .inl (caller_pending (eventStep_move h) (.inr hPc))
  · rcases (main_step h).hand c n resp hMain with hMain | ⟨f, hEvent, hNext, hResp, hFind⟩
    · exact .inl (.of_hand hMain)
    · exact .inr ⟨c, f, hEvent, hNext, hResp, hFind⟩

/-- Nobody has been handed two replies, and whoever was handed one has no sender left. -/
structure HandedOnce (k : Client) : Prop where
  nodup : (k.handed.map Prod.fst).Nodup
  past : ∀ n ∈ k.handed.map Prod.fst, n ∉ k.senders ∧ (k.caller n).pc.early = false

theorem handedOnce_init : HandedOnce init := by constructor <;> simp [init]

theorem senders_insert (k : Client) (sid n : Nat) : (k.setPending (k.pending.insert sid n)).senders =
    n :: (k.setPending (k.pending.erase sid)).senders := by
  simp only [senders, setPending_pending, AList.vals_insert, List.cons_append]
  rfl

theorem senders_step {n : Nat} {a : ClientEvent} (hMove : PendingMove E k a j)
    (hMem : n ∈ j.senders) : n ∈ k.senders ∨ (k.caller n).pc = .register := by
  cases hMove with
  | other a j hPlain hSame => exact .inl (hSame.senders ▸ hMem)
  | connect c hMain => exact .inl (by simpa [senders, held, hMain, connected] using hMem)
  | caller m e j hMove =>
    cases hMove with
    | register hPc =>
      rw [setCaller_senders, senders_insert] at hMem
      rcases List.mem_cons.mp hMem with rfl | hMem
      · exact .inr hPc
      · exact .inl ((senders_erase k _).subset hMem)
    | unsend hPc | expire hPc => exact .inl ((senders_erase k _).subset hMem)
    | _ => exact .inl hMem
  | arrive req => exact .inl hMem
  | taken c f m resp hMain hFind => exact .inl ((senders_taken resp hMain hFind).mem_iff.mpr hMem)
  | handed c m resp hMain =>
    rw [senders_answered] at hMem
    exact .inl (List.mem_append.mpr ((List.mem_append.mp hMem).imp_right fun h => by simp [held] at h))
  | answered m l hMain =>
    rw [senders_answered] at hMem
    refine .inl (List.mem_append.mpr ((List.mem_append.mp hMem).imp_right fun h => ?_))
    rw [held, hMain]
    exact List.mem_cons_of_mem m (by simpa [held] using h)
  | released hMain => exact .inl (by simpa [senders, held, hMain] using hMem)
  | flush hMain => exact .inl (by simpa [senders, held, hMain, AList.vals] using hMem)

theorem early_step {n : Nat} {a : ClientEvent} (hOwned : k.Owned) (hMove : PendingMove E k a j)
    (hPast : (k.caller n).pc.early = false) : (j.caller n).pc.early = false := by
  cases hMove with
  | other a j hPlain hSame => rwa [hSame.2.2.1]
  | caller m e j hMove =>
    by_cases hn : n = m
    · subst hn
      cases hMove <;> simp_all [CallerPc.early]
    · cases hMove <;> simpa [hn] using hPast
  | arrive req =>
    have hn : n ≠ k.nextCaller := by
      rintro rfl
      simp [hOwned.absent _ le_rfl, CallerPc.early] at hPast
    simpa [hn] using hPast
  | handed c m resp hMain => simpa using hPast
  | answered m l hMain => simpa using hPast
  | connect | taken | released | flush => exact hPast

theorem HandedOnce.step (h : HandedOnce k) (hOwned : k.Owned) {a : ClientEvent}
    (hStep : k.eventStep E a = some j) : HandedOnce j := by
  have hMove := eventStep_move hStep
  have hOld : ∀ n ∈ k.handed.map Prod.fst, n ∉ j.senders ∧ (j.caller n).pc.early = false := by
    intro n hn
    obtain ⟨hOut, hPast⟩ := h.past n hn
    refine ⟨fun hMem => ?_, early_step hOwned hMove hPast⟩
    rcases senders_step hMove hMem with hMem | hPc
    · exact hOut hMem
    · simp [hPc, CallerPc.early] at hPast
  -- whoever is handed a reply now had its sender with `main`
  have hNew : ∀ n r, n ∈ k.held → n ∉ j.senders → j.handed = k.handed ++ [(n, r)] → HandedOnce j := by
    intro n r hHeld hGone hEq
    have hMem : n ∈ k.senders := List.mem_append_right _ hHeld
    refine ⟨?_, fun m hm => ?_⟩
    · rw [hEq, List.map_append, List.nodup_append]
      refine ⟨h.nodup, by simp, ?_⟩
      rintro m hm m' hm' rfl
      obtain rfl : m = n := by simpa using hm'
      exact (h.past m hm).1 hMem
    · rw [hEq, List.map_append, List.mem_append] at hm
      rcases hm with hm | hm
      · exact hOld m hm
      · obtain rfl : m = n := by simpa using hm
        exact ⟨hGone, early_step hOwned hMove (hOwned.unused m hMem).1⟩
  cases handed_step hStep with
  | same hSame => exact ⟨hSame ▸ h.nodup, by rw [hSame]; exact hOld⟩
  | hub c n resp hMain hEq hRest =>
    refine hNew n _ (by simp [held, hMain]) ?_ hEq
    have hNodup := hOwned.nodup
    rw [senders, held, hMain, List.nodup_append] at hNodup
    rw [hRest]
    exact fun hn => hNodup.2.2 n hn n List.mem_cons_self rfl
  | flushed n l hMain hEq hRest =>
    refine hNew n _ (by simp [held, hMain]) ?_ hEq
    have hNodup := hOwned.nodup
    rw [senders, held, hMain] at hNodup
    rw [hRest]
    exact (List.nodup_middle.mp hNodup).notMem

/-- What a step does to the frames of session `c` that the server has not received. -/
inductive OutStep (k : Client) (c : ConnId) (a : ClientEvent) (j : Client) : Prop
  | plain (fs : List ClientFrame) (hPlain : ∀ f ∈ fs, f.request = none)
      (h : j.out c = k.out c ++ fs)
  | request (n : Nat) (hPc : (k.caller n).pc = .send) (hConn : (k.caller n).conn = c)
      (hNext : (j.caller n).pc = .wait)
      (h : j.out c = k.out c ++ [clientHttpRequest (k.caller n).sid (k.caller n).req])
  | up (f : ClientFrame) (hAct : a = .up c) (h : k.out c = f :: j.out c)

theorem OutStep.of_eq {c : ConnId} {a : ClientEvent} (h : j.out = k.out) : OutStep k c a j :=
  .plain [] (by simp) (by simp [h])

theorem OutStep.push {c d : ConnId} {f : ClientFrame} {a : ClientEvent}
    (hOut : j.out = Function.update k.out d (k.out d ++ [f])) (hPlain : f.request = none) :
    OutStep k c a j := by
  by_cases hc : c = d
  · subst hc
    exact .plain [f] (by simpa using hPlain) (by simp [hOut])
  · exact .plain [] (by simp) (by simp [hOut, hc])

theorem out_step {a : ClientEvent} (hPlain : k.Plainly) (h : k.eventStep E a = some j) (c : ConnId) :
    OutStep k c a j := by
  have hResolve : ∀ n r, (k.resolve n r).out = k.out := by
    intro n r
    unfold resolve
    split <;> rfl
  cases a with
  | act a =>
    cases a with
    | main e =>
      cases mainStep_move h with
      | sent d f fatal hMain hOpen => exact .push rfl (hPlain d f fatal hMain)
      | hand d n resp hMain => exact .of_eq (hResolve n _)
      | release n l hMain => exact .of_eq (hResolve n _)
      | _ => exact .of_eq rfl
    | run d sid e =>
      cases runStep_move h with
      | reported reason hPc hOpen | sent payload hPc hOpen | eofSent hPc hOpen =>
        exact .push rfl rfl
      | _ => exact .of_eq rfl
    | caller n e =>
      cases callerStep_move h with
      | sent hPc hOpen =>
        by_cases hc : (k.caller n).conn = c
        · exact .request n hPc hc (by simp) (by simp [← hc])
        · exact .plain [] (by simp) (by simp [Ne.symm hc])
      | _ => exact .of_eq rfl
    | env e =>
      cases e with
      | peerSend c sid b =>
        obtain ⟨sock, -, rfl⟩ := Option.map_eq_some_iff.mp h
        exact .of_eq rfl
      | _ => cases h; exact .of_eq rfl
  | connect d =>
    simp only [eventStep, Option.ite_none_right_eq_some] at h
    obtain ⟨-, hEq⟩ := h
    cases hEq
    exact .of_eq rfl
  | up d =>
    simp only [eventStep] at h
    split at h
    next f rest hOut =>
      split at h <;> cases h
      by_cases hc : c = d
      · subst hc
        exact .up f rfl (by simp [hOut])
      · exact .plain [] (by simp) (by simp [hc])
    next => cases h
  | down d f =>
    simp only [eventStep, Option.ite_none_right_eq_some] at h
    obtain ⟨-, hEq⟩ := h
    cases hEq
    exact .of_eq (receive_handed E k d f).2.2

/-- What the client keeps by itself, as long as ids are not used up. -/
structure Orderly (k : Client) (l : List Nat) : Prop where
  owned : k.Owned
  numbered : k.Numbered l
  plainly : k.Plainly
  once : k.HandedOnce

theorem orderly_init : Orderly init [] :=
  ⟨owned_init, numbered_init, by simp [Plainly, init], handedOnce_init⟩

theorem nextCaller_step {a : ClientEvent} (h : k.eventStep E a = some j) :
    k.nextCaller ≤ j.nextCaller := by
  cases eventStep_move h with
  | other a j hPlain hSame => exact hSame.2.2.2.ge
  | caller n e j hMove => cases hMove <;> exact le_rfl
  | arrive req => exact Nat.le_succ _
  | handed c n resp hMain => simp
  | answered n l hMain => simp
  | connect | taken | released | flush => exact le_rfl

theorem Orderly.step (h : Orderly k l) (hFew : j.nextCaller ≤ 2 ^ 64) {a : ClientEvent}
    (hStep : k.eventStep E a = some j) :
    ∃ new, Orderly j (l ++ new) ∧ ∀ n ∈ l, SameRequest k j n := by
  have hFresh := h.numbered.freshId h.owned ((nextCaller_step hStep).trans hFew) a
  obtain ⟨new, hNumbered, hSame⟩ := h.numbered.step h.owned hStep
  refine ⟨new, ⟨h.owned.step hFresh hStep, hNumbered, ?_, h.once.step h.owned hStep⟩, hSame⟩
  intro c f fatal hMain
  exact ((main_step hStep).send c f fatal hMain).elim (h.plainly c f fatal) id

end Client

end OpenSpoke.Tunnel
