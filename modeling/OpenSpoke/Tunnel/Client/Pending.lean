import Mathlib.Data.List.AList
import Mathlib.Data.List.Nodup
import OpenSpoke.Tunnel.Client.Moves

/-!
# Who holds the oneshot sender of a caller

The client process against any server at all. The sender that answers caller `n`
is made when the caller registers. It is in `pending`, or with the dispatch loop,
or in the list that `detach_hub_and_flush` has drained, and in one place only.
-/

namespace AList

variable {α β : Type*} [DecidableEq α]

def vals (m : AList (fun _ : α => β)) : List β := m.entries.map Sigma.snd

theorem mem_vals {m : AList (fun _ : α => β)} {b : β} : b ∈ m.vals ↔ ∃ a, m.lookup a = some b := by
  constructor
  · intro h
    obtain ⟨⟨a, b'⟩, hMem, rfl⟩ := List.mem_map.mp h
    exact ⟨a, mem_lookup_iff.mpr hMem⟩
  · rintro ⟨a, h⟩
    exact List.mem_map.mpr ⟨⟨a, b⟩, mem_lookup_iff.mp h, rfl⟩

theorem vals_erase_sublist (m : AList (fun _ : α => β)) (a : α) :
    (m.erase a).vals.Sublist m.vals := by
  have hEntries : (m.erase a).entries.Sublist m.entries := List.kerase_sublist a m.entries
  exact hEntries.map Sigma.snd

theorem vals_insert (m : AList (fun _ : α => β)) (a : α) (b : β) :
    (m.insert a b).vals = b :: (m.erase a).vals := by
  simp only [vals, entries_insert, List.map_cons]
  rfl

theorem vals_erase_perm {m : AList (fun _ : α => β)} {a : α} {b : β} (h : m.lookup a = some b) :
    List.Perm m.vals (b :: (m.erase a).vals) := by
  have hInsert : List.Perm (m.insert a b).entries m.entries := by
    refine List.lookup_ext (m.insert a b).nodupKeys m.nodupKeys fun x y => ?_
    change y ∈ (m.insert a b).lookup x ↔ y ∈ m.lookup x
    rcases eq_or_ne x a with rfl | hx
    · rw [lookup_insert, h]
    · rw [lookup_insert_ne hx]
  rw [← vals_insert]
  exact (hInsert.map Sigma.snd).symm

end AList

namespace OpenSpoke.Tunnel

/-- What happens to a client process whose server may send anything. -/
inductive ClientEvent
  | act (a : ClientAct)
  -- the `Connect` call of the next session succeeds
  | connect (c : ConnId)
  -- the server receives the next frame of session `c`
  | up (c : ConnId)
  -- the dispatch loop receives a frame
  | down (c : ConnId) (f : ServerFrame)

/-- The handler has not inserted its sender. -/
def CallerPc.early : CallerPc → Bool
  | .absent | .readHub | .alloc | .register => true
  | _ => false

namespace Client

def eventStep (E : ClientEnv) (k : Client) : ClientEvent → Option Client
  | .act a => k.step E a
  | .connect c => if k.main = .idle ∧ k.mine c = false then some (k.connected c) else none
  | .up c =>
    match k.out c with
    | _ :: rest => if k.mine c then some (k.setOut c rest) else none
    | [] => none
  | .down c f => if k.main = .session c .next then some (k.receive E c f) else none

/-- The callers whose oneshot sender is with `main`. -/
def held (k : Client) : List Nat :=
  match k.main with
  | .session _ (.hand n _) => [n]
  | .release l => l
  | _ => []

/-- The callers whose oneshot sender exists. -/
def senders (k : Client) : List Nat := k.pending.vals ++ k.held

theorem senderGone_iff (k : Client) (n : Nat) : k.senderGone n = true ↔ n ∉ k.senders := by
  have hVals : (k.pending.entries.all fun e => e.2 ≠ n) = true ↔ n ∉ k.pending.vals := by
    simp only [AList.vals, List.all_eq_true, decide_eq_true_eq, List.mem_map, not_exists, not_and,
      ne_eq]
  rw [senderGone, Bool.and_eq_true, hVals, senders, List.mem_append, not_or]
  refine and_congr_right fun _ => ?_
  cases hMain : k.main with
  | session c pc =>
    cases pc with
    | hand m resp => simpa [held, hMain] using ne_comm
    | _ => simp [held, hMain]
  | release l => simp [held, hMain]
  | _ => simp [held, hMain]

/-! ## What a step does to the senders -/

/-- What an event leaves alone when it touches no oneshot sender. -/
def SameCallers (k j : Client) : Prop :=
  j.pending = k.pending ∧ j.held = k.held ∧ j.caller = k.caller ∧ j.nextCaller = k.nextCaller

/-- The event is no handler's, and it neither opens nor ends a session. -/
def Plain (k : Client) : ClientEvent → Prop
  | .act (.main _) => k.main ≠ .flush ∧ k.main ≠ .release []
  | .act (.caller _ _) | .connect _ => False
  | _ => True

/-- What an event does to the callers and their senders. -/
inductive PendingMove (E : ClientEnv) (k : Client) : ClientEvent → Client → Prop
  | other (a : ClientEvent) (j : Client) (hPlain : k.Plain a) (hSame : SameCallers k j)
      (hMain : ∀ l, j.main = .release l → k.main = .release l) : PendingMove E k a j
  | connect (c : ConnId) (hMain : k.main = .idle) : PendingMove E k (.connect c) (k.connected c)
  | caller (n : Nat) (e : CallerEv) (j : Client) (hMove : CallerMove E k n e j) :
      PendingMove E k (.act (.caller n e)) j
  | arrive (req : HttpRequest) :
      PendingMove E k (.act (.env (.arrive req)))
        { k.setCaller k.nextCaller ⟨req, 0, 0, none, .readHub⟩ with nextCaller := k.nextCaller + 1 }
  | taken (c : ConnId) (f : ServerFrame) (n : Nat) (resp : HttpResponse)
      (hMain : k.main = .session c .next) (hFind : k.pending.lookup f.streamId = some n) :
      PendingMove E k (.down c f)
        ((k.setPending (k.pending.erase f.streamId)).goto (.session c (.hand n resp)))
  | handed (c : ConnId) (n : Nat) (resp : HttpResponse) (hMain : k.main = .session c (.hand n resp)) :
      PendingMove E k (.act (.main .tau)) ((k.resolve n (.hub resp)).goto (.session c .next))
  | answered (n : Nat) (l : List Nat) (hMain : k.main = .release (n :: l)) :
      PendingMove E k (.act (.main .tau)) ((k.resolve n .flushed).goto (.release l))
  | released (hMain : k.main = .release []) : PendingMove E k (.act (.main .tau)) (k.goto .idle)
  | flush (hMain : k.main = .flush) :
      PendingMove E k (.act (.main .tau)) ((k.setPending ∅).goto (.release k.pending.vals))

variable {E : ClientEnv} {k j : Client}

theorem mainStep_pending {e : MainEv} (h : k.mainStep E e = some j) :
    PendingMove E k (.act (.main e)) j := by
  cases mainStep_move h with
  | hand c n resp hMain => exact .handed c n resp hMain
  | release n l hMain => exact .answered n l hMain
  | flush hMain => exact .flush hMain
  | released hMain => exact .released hMain
  | unsent c f fatal hMain =>
    refine .other _ _ (by simp [Plain, hMain]) ⟨rfl, ?_, rfl, rfl⟩ (by cases fatal <;> simp)
    cases fatal <;> simp [held, hMain]
  | failed hMain | attach c hMain | lost c hMain | sent c f fatal hMain | delivered c sid p hMain
  | undelivered c sid p hMain | detach hMain =>
    exact .other _ _ (by simp [Plain, hMain]) ⟨rfl, by simp [held, hMain], rfl, rfl⟩ (by simp)

theorem receive_pending {c : ConnId} {f : ServerFrame} (hMain : k.main = .session c .next) :
    PendingMove E k (.down c f) (k.receive E c f) := by
  have hHeld : k.held = [] := by simp [held, hMain]
  have hGoto : ∀ (i : Client) (pc : DispatchPc), SameCallers k (i.goto (.session c pc)) →
      PendingMove E k (.down c f) (i.goto (.session c pc)) :=
    fun i pc hSame => .other _ _ trivial hSame (by simp)
  have hStay : ∀ i : Client, i.main = k.main → SameCallers k i → PendingMove E k (.down c f) i :=
    fun i hi hSame => .other _ _ trivial hSame (by simp [hi])
  unfold receive
  split
  · exact hGoto _ _ ⟨rfl, hHeld.symm, rfl, rfl⟩
  · dsimp only
    split
    · exact hGoto _ _ ⟨rfl, hHeld.symm, rfl, rfl⟩
    · exact hStay _ rfl ⟨rfl, rfl, rfl, rfl⟩
  · split
    · exact hGoto _ _ ⟨rfl, hHeld.symm, rfl, rfl⟩
    · exact hStay _ rfl ⟨rfl, rfl, rfl, rfl⟩
  · exact hStay _ rfl ⟨rfl, rfl, rfl, rfl⟩
  · exact hGoto _ _ ⟨rfl, hHeld.symm, rfl, rfl⟩
  · split
    next n hFind => exact .taken c f n _ hMain hFind
    next => exact hStay _ rfl ⟨rfl, rfl, rfl, rfl⟩
  · exact hStay _ rfl ⟨rfl, rfl, rfl, rfl⟩

theorem eventStep_move {a : ClientEvent} (h : k.eventStep E a = some j) : PendingMove E k a j := by
  have hSame : ∀ (a : ClientEvent) (i : Client), k.Plain a → i.main = k.main →
      i.pending = k.pending → i.caller = k.caller → i.nextCaller = k.nextCaller →
      PendingMove E k a i := by
    intro a i hPlain hMain hPending hCaller hNext
    exact .other _ _ hPlain ⟨hPending, by rw [held, hMain, held], hCaller, hNext⟩ (by simp [hMain])
  cases a with
  | act a =>
    cases a with
    | main e => exact mainStep_pending h
    | run c sid e => cases runStep_move h <;> exact hSame _ _ trivial rfl rfl rfl rfl
    | caller n e => exact .caller n e j (callerStep_move h)
    | env e =>
      cases e with
      | dropOut c => cases h; exact hSame _ _ trivial rfl rfl rfl rfl
      | peerSend c sid b =>
        obtain ⟨sock, -, rfl⟩ := Option.map_eq_some_iff.mp h
        exact hSame _ _ trivial rfl rfl rfl rfl
      | peerClose c sid => cases h; exact hSame _ _ trivial rfl rfl rfl rfl
      | arrive req => cases h; exact .arrive req
  | connect c =>
    simp only [eventStep, Option.ite_none_right_eq_some] at h
    obtain ⟨⟨hMain, -⟩, hEq⟩ := h
    cases hEq
    exact .connect c hMain
  | up c =>
    simp only [eventStep] at h
    split at h
    · split at h <;> cases h
      exact hSame _ _ trivial rfl rfl rfl rfl
    · cases h
  | down c f =>
    simp only [eventStep, Option.ite_none_right_eq_some] at h
    obtain ⟨hMain, hEq⟩ := h
    cases hEq
    exact receive_pending hMain

/-! ## One place for each sender -/

/-- The event hands out an id. -/
def allocates (k : Client) : ClientEvent → Bool
  | .act (.caller n .tau) => (k.caller n).pc = .alloc
  | _ => false

/-- The event hands out an id only if no handler still uses it. -/
def FreshId (k : Client) (a : ClientEvent) : Prop :=
  k.allocates a = true →
    ∀ m < k.nextCaller, (k.caller m).pc.live = true → (k.caller m).sid ≠ k.streamIdCounter

instance (k : Client) (a : ClientEvent) : Decidable (k.FreshId a) :=
  inferInstanceAs (Decidable (k.allocates a = true →
    ∀ m < k.nextCaller, (k.caller m).pc.live = true → (k.caller m).sid ≠ k.streamIdCounter))

structure Owned (k : Client) : Prop where
  nodup : k.senders.Nodup
  empty : ∀ n, (k.caller n).pc.early = true → (k.caller n).slot = none
  unused : ∀ n ∈ k.senders, (k.caller n).pc.early = false ∧ (k.caller n).slot = none
  keyed : ∀ sid n, k.pending.lookup sid = some n → (k.caller n).sid = sid
  distinct : ∀ n m, (k.caller n).pc.live = true → (k.caller m).pc.live = true →
    (k.caller n).sid = (k.caller m).sid → n = m
  waiting : ∀ n, (k.caller n).pc = .send ∨ (k.caller n).pc = .wait →
    (k.caller n).slot ≠ none ∨ n ∈ k.senders
  replied : ∀ n, (k.caller n).pc ≠ .returned .channelClosed
  absent : ∀ n, k.nextCaller ≤ n → (k.caller n).pc = .absent

theorem owned_init : Owned init := by
  constructor <;> simp [init, senders, held, AList.vals, CallerPc.live]

theorem mem_senders {n : Nat} :
    n ∈ k.senders ↔ (∃ sid, k.pending.lookup sid = some n) ∨ n ∈ k.held := by
  rw [senders, List.mem_append, AList.mem_vals]

theorem Owned.mem_erase (hOwned : Owned k) {sid n : Nat} (hMem : n ∈ k.senders)
    (hNe : (k.caller n).sid ≠ sid) : n ∈ (k.setPending (k.pending.erase sid)).senders := by
  rcases mem_senders.mp hMem with ⟨sid', hFind⟩ | hHeld
  · have hKey := hOwned.keyed sid' n hFind
    refine mem_senders.mpr (.inl ⟨sid', ?_⟩)
    rwa [setPending_pending, AList.lookup_erase_ne (hKey ▸ hNe)]
  · exact mem_senders.mpr (.inr hHeld)

theorem senders_erase (k : Client) (sid : Nat) :
    (k.setPending (k.pending.erase sid)).senders.Sublist k.senders :=
  (k.pending.vals_erase_sublist sid).append_right k.held

@[simp] theorem setCaller_senders (k : Client) (n : Nat) (x : Caller) :
    (k.setCaller n x).senders = k.senders := rfl

theorem senders_taken {f : ServerFrame} {c : ConnId} {n : Nat} (resp : HttpResponse)
    (hMain : k.main = .session c .next) (hFind : k.pending.lookup f.streamId = some n) :
    List.Perm k.senders
      ((k.setPending (k.pending.erase f.streamId)).goto (.session c (.hand n resp))).senders := by
  simp only [senders, held, hMain, goto_main, goto_pending, setPending_pending, List.append_nil]
  exact (AList.vals_erase_perm hFind).trans (List.perm_append_singleton n _).symm

theorem senders_answered (n : Nat) (r : Reply) (p : MainPc) :
    ((k.resolve n r).goto p).senders = k.pending.vals ++ (k.goto p).held := by
  have hPending : ((k.resolve n r).goto p).pending = k.pending := by
    unfold resolve
    split <;> rfl
  rw [senders, hPending]
  rfl

theorem resolve_caller (n m : Nat) (r : Reply) :
    (k.resolve n r).caller m =
      if m = n ∧ (k.caller n).pc.listening = true then { k.caller n with slot := some r }
      else k.caller m := by
  unfold resolve
  split <;> by_cases hm : m = n <;> simp_all

@[simp] theorem resolve_pc (n m : Nat) (r : Reply) :
    ((k.resolve n r).caller m).pc = (k.caller m).pc := by
  rw [resolve_caller]
  split
  next h => rw [h.1]
  next => rfl

@[simp] theorem resolve_sid (n m : Nat) (r : Reply) :
    ((k.resolve n r).caller m).sid = (k.caller m).sid := by
  rw [resolve_caller]
  split
  next h => rw [h.1]
  next => rfl

@[simp] theorem resolve_conn (n m : Nat) (r : Reply) :
    ((k.resolve n r).caller m).conn = (k.caller m).conn := by
  rw [resolve_caller]
  split
  next h => rw [h.1]
  next => rfl

@[simp] theorem resolve_nextCaller (n : Nat) (r : Reply) : (k.resolve n r).nextCaller = k.nextCaller := by
  unfold resolve
  split <;> rfl

@[simp] theorem resolve_pending (n : Nat) (r : Reply) : (k.resolve n r).pending = k.pending := by
  unfold resolve
  split <;> rfl

theorem SameCallers.senders (h : SameCallers k j) : j.senders = k.senders := by
  obtain ⟨hPending, hHeld, -⟩ := h
  rw [Client.senders, hPending, hHeld, Client.senders]

theorem Owned.same (hOwned : Owned k) (hSame : SameCallers k j) : Owned j := by
  have hSenders := hSame.senders
  obtain ⟨hPending, -, hCaller, hNext⟩ := hSame
  obtain ⟨hNodup, hEmpty, hUnused, hKeyed, hDistinct, hWaiting, hOld, hAbsent⟩ := hOwned
  constructor
  all_goals simpa only [hSenders, hPending, hCaller, hNext]

theorem Owned.known (hOwned : Owned k) {n : Nat} (hPc : (k.caller n).pc ≠ .absent) :
    n < k.nextCaller :=
  Nat.lt_of_not_le fun hLe => hPc (hOwned.absent n hLe)

/-- Caller `n` goes on as `x`; it keeps what others know of it, and an id that
it newly uses is nobody else's. -/
theorem Owned.setCaller (hOwned : Owned k) {n : Nat} {x : Caller} (hKnown : (k.caller n).pc ≠ .absent)
    (hSlot : x.slot = (k.caller n).slot)
    (hEarly : (k.caller n).pc.early = false → x.pc.early = false ∧ x.sid = (k.caller n).sid)
    (hLive : x.pc.live = true → ∀ m ≠ n, (k.caller m).pc.live = true → (k.caller m).sid ≠ x.sid)
    (hWait : x.pc = .send ∨ x.pc = .wait → (k.caller n).pc = .send)
    (hReplied : x.pc ≠ .returned .channelClosed) : Owned (k.setCaller n x) := by
  have hLt := hOwned.known hKnown
  obtain ⟨hNodup, hEmpty, hUnused, hKeyed, hDistinct, hWaiting, hOld, hAbsent⟩ := hOwned
  constructor
  · exact hNodup
  all_goals
    simp only [setCaller_caller, Function.update_apply, setCaller_senders, setCaller_pending,
      setCaller_nextCaller]
  · intro m hPc
    rcases eq_or_ne m n with rfl | hm
    · simp only [if_true] at hPc ⊢
      refine hSlot.trans (hEmpty m ?_)
      cases hOldEarly : (k.caller m).pc.early with
      | true => rfl
      | false => rw [(hEarly hOldEarly).1] at hPc; cases hPc
    · simp only [hm, if_false] at hPc ⊢
      exact hEmpty m hPc
  · intro m hMem
    split
    next hm =>
      subst hm
      obtain ⟨hOldEarly, hNone⟩ := hUnused m hMem
      exact ⟨(hEarly hOldEarly).1, hSlot.trans hNone⟩
    next => exact hUnused m hMem
  · intro sid m hFind
    have hMem := (hUnused m (mem_senders.mpr (.inl ⟨sid, hFind⟩))).1
    split
    next hm =>
      subst hm
      exact (hEarly hMem).2.trans (hKeyed sid m hFind)
    next => exact hKeyed sid m hFind
  · grind
  · grind [CallerPc.early]
  · grind
  · grind

theorem Owned.callerTo (hOwned : Owned k) {n : Nat} (pc : CallerPc) (hKnown : (k.caller n).pc ≠ .absent)
    (hEarly : (k.caller n).pc.early = false → pc.early = false)
    (hLive : pc.live = true → (k.caller n).pc.live = true)
    (hWait : pc = .send ∨ pc = .wait → (k.caller n).pc = .send)
    (hReplied : pc ≠ .returned .channelClosed) :
    Owned (k.setCaller n { k.caller n with pc := pc }) := by
  refine hOwned.setCaller hKnown rfl (fun h => ⟨hEarly h, rfl⟩) ?_ hWait hReplied
  intro hNew m hm hLive' hEq
  exact hm (hOwned.distinct m n hLive' (hLive hNew) hEq)

theorem Owned.erase (hOwned : Owned k) {n : Nat} (r : ProxyResult) (hLive : (k.caller n).pc.live = true)
    (hReplied : r ≠ .channelClosed) :
    Owned ((k.setPending (k.pending.erase (k.caller n).sid)).setCaller n
      { k.caller n with pc := .returned r }) := by
  have hKnown := hOwned.known (n := n) (by rintro hAbsent; simp [hAbsent, CallerPc.live] at hLive)
  have hSub := senders_erase k (k.caller n).sid
  constructor
  · exact hOwned.nodup.sublist hSub
  all_goals
    simp only [setCaller_caller, setPending_caller, Function.update_apply, setCaller_senders,
      setCaller_pending, setCaller_nextCaller, setPending_pending, setPending_nextCaller]
  · have hEmpty := hOwned.empty
    grind [CallerPc.early]
  · intro m hMem
    have hUnused := hOwned.unused m (hSub.subset hMem)
    grind [CallerPc.early]
  · intro sid m hFind
    have hKeyed := hOwned.keyed sid m
    have hFound : k.pending.lookup sid = some m := by
      rcases eq_or_ne sid (k.caller n).sid with rfl | hNe
      · simp at hFind
      · rwa [AList.lookup_erase_ne hNe] at hFind
    grind
  · have hDistinct := hOwned.distinct
    grind [CallerPc.live]
  · intro m hPc
    have hm : m ≠ n := by rintro rfl; simp at hPc
    simp only [hm, if_false] at hPc ⊢
    -- the entry of another caller has another key
    refine (hOwned.waiting m hPc).imp_right fun hMem => hOwned.mem_erase hMem fun hSid => hm ?_
    exact hOwned.distinct m n (by rcases hPc with hPc | hPc <;> simp [hPc, CallerPc.live]) hLive hSid
  · have hOld := hOwned.replied
    grind
  · have hAbsent := hOwned.absent
    grind

theorem Owned.register (hOwned : Owned k) {n : Nat} (hPc : (k.caller n).pc = .register) :
    Owned ((k.setPending (k.pending.insert (k.caller n).sid n)).setCaller n
      { k.caller n with pc := .send }) := by
  have hKnown := hOwned.known (n := n) (by simp [hPc])
  have hNew : n ∉ k.senders := fun hMem => by simpa [hPc, CallerPc.early] using (hOwned.unused n hMem).1
  have hSub := senders_erase k (k.caller n).sid
  have hSenders : (k.setPending (k.pending.insert (k.caller n).sid n)).senders =
      n :: (k.setPending (k.pending.erase (k.caller n).sid)).senders := by
    simp only [senders, setPending_pending, AList.vals_insert, List.cons_append]
    rfl
  constructor
  all_goals
    simp only [setCaller_caller, setPending_caller, Function.update_apply, setCaller_senders,
      setCaller_pending, setCaller_nextCaller, setPending_pending, setPending_nextCaller, hSenders,
      List.mem_cons]
  · exact List.nodup_cons.mpr ⟨fun hMem => hNew (hSub.subset hMem), hOwned.nodup.sublist hSub⟩
  · have hEmpty := hOwned.empty
    grind [CallerPc.early]
  · intro m hMem
    rcases eq_or_ne m n with rfl | hm
    · simp only [if_true]
      exact ⟨rfl, hOwned.empty m (by simp [hPc, CallerPc.early])⟩
    · simp only [hm, false_or, if_false] at hMem ⊢
      exact hOwned.unused m (hSub.subset hMem)
  · intro sid m hFind
    rcases eq_or_ne sid (k.caller n).sid with rfl | hNe
    · obtain rfl : n = m := by simpa using hFind
      simp
    · rw [AList.lookup_insert_ne hNe] at hFind
      have hm : m ≠ n := by
        rintro rfl
        exact hNew (mem_senders.mpr (.inl ⟨sid, hFind⟩))
      simpa only [hm, if_false] using hOwned.keyed sid m hFind
  · have hDistinct := hOwned.distinct
    grind [CallerPc.live]
  · intro m hWait
    rcases eq_or_ne m n with rfl | hm
    · exact .inr (.inl rfl)
    · simp only [hm, if_false, false_or] at hWait ⊢
      refine (hOwned.waiting m hWait).imp_right fun hMem => hOwned.mem_erase hMem fun hSid => hm ?_
      exact hOwned.distinct m n (by rcases hWait with hWait | hWait <;> simp [hWait, CallerPc.live])
        (by simp [hPc, CallerPc.live]) hSid
  · have hOld := hOwned.replied
    grind
  · have hAbsent := hOwned.absent
    grind

theorem Owned.callerMove (hOwned : Owned k) {n : Nat} {e : CallerEv}
    (hFresh : FreshId k (.act (.caller n e))) (h : CallerMove E k n e j) : Owned j := by
  cases h with
  | cloned c hPc hHub =>
    refine hOwned.setCaller ?_ ?_ ?_ ?_ ?_ ?_ <;> simp [hPc, CallerPc.early, CallerPc.live]
  | unconnected hPc =>
    refine hOwned.callerTo _ ?_ ?_ ?_ ?_ ?_ <;> simp [hPc, CallerPc.early, CallerPc.live]
  | alloc hPc =>
    have hIds := hFresh (by simp [allocates, hPc])
    have hNew : Owned (k.setCaller n { k.caller n with sid := k.streamIdCounter, pc := .register }) := by
      refine hOwned.setCaller (by simp [hPc]) rfl ?_ ?_ ?_ ?_ <;> simp [hPc, CallerPc.early]
      intro _ m _ hLive
      exact hIds m (hOwned.known (by rintro hAbsent; simp [hAbsent, CallerPc.live] at hLive)) hLive
    exact hNew.same ⟨rfl, rfl, rfl, rfl⟩
  | register hPc => exact hOwned.register hPc
  | sent hPc hOpen =>
    have hSame : SameCallers k (k.setOut (k.caller n).conn (k.out (k.caller n).conn ++
        [clientHttpRequest (k.caller n).sid (k.caller n).req])) := ⟨rfl, rfl, rfl, rfl⟩
    refine (hOwned.same hSame).callerTo _ ?_ ?_ ?_ ?_ ?_ <;>
      simp [hPc, CallerPc.early, CallerPc.live]
  | unsent hPc hOpen | replied r hPc hSlot | timeout hPc hSlot =>
    refine hOwned.callerTo _ ?_ ?_ ?_ ?_ ?_ <;> simp [hPc, CallerPc.early, CallerPc.live]
  | unsend hPc | expire hPc => exact hOwned.erase _ (by simp [hPc, CallerPc.live]) (by simp)
  | orphaned hPc hSlot hGone =>
    -- a waiting caller without a reply has its sender somewhere
    rcases hOwned.waiting n (.inr hPc) with hReply | hMem
    · exact absurd hSlot hReply
    · exact absurd hMem ((senderGone_iff k n).mp hGone)
  | drop hPc =>
    refine hOwned.callerTo _ ?_ ?_ ?_ ?_ ?_ <;> rcases hPc with hPc | hPc <;>
      simp_all [CallerPc.early, CallerPc.live]
    rintro hAbsent
    simp [hAbsent] at hPc

theorem Owned.taken (hOwned : Owned k) {c : ConnId} {f : ServerFrame} {n : Nat} (resp : HttpResponse)
    (hMain : k.main = .session c .next) (hFind : k.pending.lookup f.streamId = some n) :
    Owned ((k.setPending (k.pending.erase f.streamId)).goto (.session c (.hand n resp))) := by
  have hPerm := senders_taken resp hMain hFind
  obtain ⟨hNodup, hEmpty, hUnused, hKeyed, hDistinct, hWaiting, hOld, hAbsent⟩ := hOwned
  refine ⟨hPerm.nodup_iff.mp hNodup, hEmpty, fun m hMem => hUnused m (hPerm.mem_iff.mpr hMem),
    fun sid m hFind' => ?_, hDistinct, fun m hPc => (hWaiting m hPc).imp_right hPerm.mem_iff.mp,
    hOld, hAbsent⟩
  rcases eq_or_ne sid f.streamId with rfl | hNe
  · simp at hFind'
  · refine hKeyed sid m ?_
    rwa [goto_pending, setPending_pending, AList.lookup_erase_ne hNe] at hFind'

theorem Owned.answered (hOwned : Owned k) {n : Nat} (r : Reply) {p : MainPc}
    (hHeld : k.held = n :: (k.goto p).held) : Owned ((k.resolve n r).goto p) := by
  have hSenders := senders_answered (k := k) n r p
  have hPerm : List.Perm k.senders (n :: ((k.resolve n r).goto p).senders) := by
    rw [hSenders, senders, hHeld]
    exact List.perm_middle
  obtain ⟨hOut, hNodup⟩ := List.nodup_cons.mp (hPerm.nodup_iff.mp hOwned.nodup)
  have hSub : ∀ m ∈ ((k.resolve n r).goto p).senders, m ≠ n ∧ m ∈ k.senders := fun m hMem =>
    ⟨fun hm => hOut (hm ▸ hMem), hPerm.mem_iff.mpr (List.mem_cons_of_mem n hMem)⟩
  have hLate := (hOwned.unused n (hPerm.mem_iff.mpr List.mem_cons_self)).1
  have hOther : ∀ m ≠ n, (k.resolve n r).caller m = k.caller m := by
    intro m hm
    rw [resolve_caller, if_neg fun h => hm h.1]
  refine ⟨hNodup, fun m hEarly => ?_, fun m hMem => ?_, fun sid m hFind => ?_, fun m m' => ?_,
    fun m hWait => ?_, fun m => ?_, fun m hLe => ?_⟩
  · rw [goto_caller, resolve_pc] at hEarly
    rw [goto_caller, hOther m (by rintro rfl; rw [hLate] at hEarly; cases hEarly)]
    exact hOwned.empty m hEarly
  · obtain ⟨hm, hMem⟩ := hSub m hMem
    rw [goto_caller, hOther m hm]
    exact hOwned.unused m hMem
  · rw [goto_caller, resolve_sid]
    rw [goto_pending, resolve_pending] at hFind
    exact hOwned.keyed sid m hFind
  · rw [goto_caller, resolve_pc, resolve_pc, resolve_sid, resolve_sid]
    exact hOwned.distinct m m'
  · rw [goto_caller, resolve_pc] at hWait
    rcases eq_or_ne m n with rfl | hm
    · -- the reply has reached its caller
      refine .inl ?_
      rw [goto_caller, resolve_caller, if_pos ⟨rfl, by rcases hWait with h | h <;> rw [h] <;> rfl⟩]
      exact Option.some_ne_none r
    · rw [goto_caller, hOther m hm]
      exact (hOwned.waiting m hWait).imp_right fun hMem =>
        (List.mem_cons.mp (hPerm.mem_iff.mp hMem)).resolve_left hm
  · rw [goto_caller, resolve_pc]
    exact hOwned.replied m
  · rw [goto_caller, resolve_pc]
    exact hOwned.absent m (by simpa using hLe)

theorem Owned.flush (hOwned : Owned k) (hMain : k.main = .flush) :
    Owned ((k.setPending ∅).goto (.release k.pending.vals)) := by
  have hSenders : ((k.setPending ∅).goto (.release k.pending.vals)).senders = k.senders := by
    simp [senders, held, hMain, AList.vals]
  obtain ⟨hNodup, hEmpty, hUnused, hKeyed, hDistinct, hWaiting, hOld, hAbsent⟩ := hOwned
  exact ⟨hSenders ▸ hNodup, hEmpty, fun n hMem => hUnused n (hSenders ▸ hMem), by simp, hDistinct,
    fun n hPc => (hWaiting n hPc).imp_right fun hMem => hSenders ▸ hMem, hOld, hAbsent⟩

theorem Owned.arrive (hOwned : Owned k) (req : HttpRequest) :
    Owned { k.setCaller k.nextCaller ⟨req, 0, 0, none, .readHub⟩ with
      nextCaller := k.nextCaller + 1 } := by
  have hNew := hOwned.absent k.nextCaller le_rfl
  have hNot : k.nextCaller ∉ k.senders := fun hMem => by
    simpa [hNew, CallerPc.early] using (hOwned.unused _ hMem).1
  obtain ⟨hNodup, hEmpty, hUnused, hKeyed, hDistinct, hWaiting, hOld, hAbsent⟩ := hOwned
  refine ⟨hNodup, ?_, ?_, ?_, ?_, ?_, ?_, ?_⟩
  all_goals simp only [setCaller_caller, Function.update_apply]
  · grind
  · intro m hMem
    rw [if_neg (by rintro rfl; exact hNot hMem)]
    exact hUnused m hMem
  · intro sid m hFind
    rw [if_neg (by rintro rfl; exact hNot (mem_senders.mpr (.inl ⟨sid, hFind⟩)))]
    exact hKeyed sid m hFind
  · grind [CallerPc.live]
  · intro m hPc
    have hm : m ≠ k.nextCaller := by rintro rfl; simp at hPc
    simp only [hm, if_false] at hPc ⊢
    exact hWaiting m hPc
  · grind
  · intro m hLe
    rw [if_neg (by omega)]
    exact hAbsent m (by omega)

theorem Owned.step (hOwned : Owned k) {a : ClientEvent} (hFresh : FreshId k a)
    (h : k.eventStep E a = some j) : Owned j := by
  cases eventStep_move h with
  | other a j hPlain hSame => exact hOwned.same hSame
  | connect c hMain => exact hOwned.same ⟨rfl, by simp [held, hMain, connected], rfl, rfl⟩
  | caller n e j hMove => exact hOwned.callerMove hFresh hMove
  | arrive req => exact hOwned.arrive req
  | taken c f n resp hMain hFind => exact hOwned.taken resp hMain hFind
  | handed c n resp hMain => exact hOwned.answered (.hub resp) (by simp [held, hMain])
  | answered n l hMain => exact hOwned.answered .flushed (by simp [held, hMain])
  | released hMain => exact hOwned.same ⟨rfl, by simp [held, hMain], rfl, rfl⟩
  | flush hMain => exact hOwned.flush hMain

end Client

end OpenSpoke.Tunnel
