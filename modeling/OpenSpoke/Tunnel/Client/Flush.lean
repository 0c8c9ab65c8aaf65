import OpenSpoke.Lib.Lts
import OpenSpoke.Tunnel.Client.Pending

/-!
# What the end of a session does to its callers

`detach_hub_and_flush` clears `hub_tx` and then empties `pending`. A handler that
cloned the sender before inserts its entry whenever it gets there, and its send
succeeds for as long as the transport holds the receiver. If that happens after
`pending` was emptied, nobody answers the caller before its timeout.
-/

namespace OpenSpoke.Tunnel

open Lts

/-- The client with the history of its sessions. -/
structure Watched where
  client : Client
  -- the session opened last
  last : Option ConnId
  -- `detach_hub_and_flush` of the session has emptied `pending`
  drained : ConnId → Bool
  -- `detach_hub_and_flush` of the session has returned
  ended : ConnId → Bool
  -- the handler inserted its entry when its session was drained already
  late : Nat → Bool

/-- The handler has cloned the sender of a session. -/
def CallerPc.cloned : CallerPc → Bool
  | .absent | .readHub | .returned .notConnected => false
  | _ => true

def CallerPc.answered : CallerPc → Bool
  | .returned .channelClosed => false
  | .returned _ | .dropped => true
  | _ => false

def Client.Cloned (k : Client) (n : Nat) (c : ConnId) : Prop :=
  (k.caller n).conn = c ∧ (k.caller n).pc.cloned = true

theorem Client.Owned.cloned_lt {k : Client} (hOwned : k.Owned) {n : Nat} {c : ConnId}
    (h : k.Cloned n c) : n < k.nextCaller :=
  hOwned.known fun hAbsent => by simp [Client.Cloned, hAbsent, CallerPc.cloned] at h

namespace Watched

def init : Watched := ⟨.init, none, fun _ => false, fun _ => false, fun _ => false⟩

/-- The history after an event. -/
def record (w : Watched) : ClientEvent → Watched
  | .connect c => { w with last := some c }
  | .act (.main .tau) =>
    match w.client.main with
    | .flush => { w with drained := fun c => w.drained c || w.last = some c }
    | .release [] => { w with ended := fun c => w.ended c || w.last = some c }
    | _ => w
  | .act (.caller n .tau) =>
    if (w.client.caller n).pc = .register then
      { w with late := Function.update w.late n (w.drained (w.client.caller n).conn) }
    else w
  | _ => w

def step (E : ClientEnv) (w : Watched) (a : ClientEvent) : Option Watched :=
  (w.client.eventStep E a).map fun k => { w.record a with client := k }

/-- A late handler that nobody has answered finds the receiver still there, or is
dropped and leaves its entry. -/
def strands (w : Watched) : ClientEvent → Bool
  | .act (.caller n .tau) => (w.client.caller n).pc = .send && w.late n &&
      (w.client.caller n).slot.isNone && w.client.outOpen (w.client.caller n).conn
  | .act (.caller n .drop) => w.late n && w.client.pending.lookup (w.client.caller n).sid = some n
  | _ => false

/-- The condition on an event: it strands no handler, and it hands out no id that
another handler still uses. -/
def Timely (w : Watched) (a : ClientEvent) : Prop := w.strands a = false ∧ w.client.FreshId a

instance (w : Watched) (a : ClientEvent) : Decidable (w.Timely a) :=
  inferInstanceAs (Decidable (_ ∧ _))

/-- Session `c` is over, and its handlers have done what they can. -/
structure Over (E : ClientEnv) (w : Watched) (c : ConnId) : Prop where
  ended : w.ended c = true
  gone : w.client.outOpen c = false
  quiet : ∀ n, w.client.Cloned n c → w.client.callerStep E n .tau = none

/-- No entry of session `c` is left, and each of its callers is answered. -/
structure Released (w : Watched) (c : ConnId) : Prop where
  entries : ∀ sid n, w.client.pending.lookup sid = some n → ¬ w.client.Cloned n c
  answered : ∀ n, w.client.Cloned n c → (w.client.caller n).pc.answered = true

/-- The invariant of timely runs. -/
structure Settling (w : Watched) : Prop where
  owned : w.client.Owned
  kept : ∀ sid n, w.client.pending.lookup sid = some n →
    w.drained (w.client.caller n).conn = true →
    w.late n = true ∧ ((w.client.caller n).pc = .send ∨ (w.client.caller n).pc = .unsend)
  handing : ∀ n ∈ w.client.held, w.ended (w.client.caller n).conn = true →
    w.late n = true ∧ (w.client.caller n).pc ≠ .wait
  finished : ∀ c, w.ended c = true → w.drained c = true
  releasing : ∀ l, w.client.main = .release l → ∀ c, w.last = some c → w.drained c = true

theorem settling_init : Settling init :=
  ⟨Client.owned_init, by simp [init, Client.init], by simp [init, Client.init, Client.held],
    by simp [init], by simp [init, Client.init]⟩

variable {E : ClientEnv} {w : Watched} {k : Client}

theorem callerMove_other {n : Nat} {e : CallerEv} (h : Client.CallerMove E w.client n e k) :
    k.held = w.client.held ∧ k.main = w.client.main ∧
      ∀ m ≠ n, k.caller m = w.client.caller m ∧
        (w.record (.act (.caller n e))).late m = w.late m ∧
        ∀ sid, k.pending.lookup sid = some m → w.client.pending.lookup sid = some m := by
  have hLate : ∀ m ≠ n, (w.record (.act (.caller n e))).late m = w.late m := by
    intro m hm
    cases e with
    | tau =>
      simp only [record]
      split
      · exact Function.update_of_ne hm _ _
      · rfl
    | _ => rfl
  have hErase : ∀ m sid, (w.client.pending.erase (w.client.caller n).sid).lookup sid = some m →
      w.client.pending.lookup sid = some m := by
    intro m sid hFind
    rcases eq_or_ne sid (w.client.caller n).sid with rfl | hNe
    · simp at hFind
    · rwa [AList.lookup_erase_ne hNe] at hFind
  refine ⟨by cases h <;> rfl, by cases h <;> rfl, fun m hm => ⟨?_, hLate m hm, fun sid hFind => ?_⟩⟩
  · cases h <;> exact Function.update_of_ne hm _ _
  · cases h with
    | unsend hPc | expire hPc => exact hErase m sid hFind
    | register hPc =>
      simp only [Client.setCaller_pending, Client.setPending_pending] at hFind
      rcases eq_or_ne sid (w.client.caller n).sid with rfl | hNe
      · exact absurd (by simpa using hFind) (Ne.symm hm)
      · rwa [AList.lookup_insert_ne hNe] at hFind
    | _ => exact hFind

theorem record_caller (n : Nat) (e : CallerEv) :
    (w.record (.act (.caller n e))).drained = w.drained ∧
      (w.record (.act (.caller n e))).ended = w.ended ∧
      (w.record (.act (.caller n e))).last = w.last := by
  cases e with
  | tau =>
    simp only [record]
    split <;> exact ⟨rfl, rfl, rfl⟩
  | _ => exact ⟨rfl, rfl, rfl⟩

/-- What the invariant says of handler `n` after its own step. -/
structure SettledCaller (w : Watched) (n : Nat) : Prop where
  kept : ∀ sid, w.client.pending.lookup sid = some n →
    w.drained (w.client.caller n).conn = true →
    w.late n = true ∧ ((w.client.caller n).pc = .send ∨ (w.client.caller n).pc = .unsend)
  handing : n ∈ w.client.held → w.ended (w.client.caller n).conn = true →
    w.late n = true ∧ (w.client.caller n).pc ≠ .wait

theorem Settling.caller (h : Settling w) (n : Nat) : SettledCaller w n :=
  ⟨fun sid => h.kept sid n, h.handing n⟩

theorem SettledCaller.of_unknown {v : Watched} {n : Nat} (hNot : n ∉ v.client.senders) :
    SettledCaller v n :=
  ⟨fun sid hFind => absurd (Client.mem_senders.mpr (.inl ⟨sid, hFind⟩)) hNot,
    fun hHeld => absurd (Client.mem_senders.mpr (.inr hHeld)) hNot⟩

theorem record_eq {n : Nat} (e : CallerEv) (hPc : (w.client.caller n).pc ≠ .register) :
    w.record (.act (.caller n e)) = w := by
  cases e with
  | tau => exact if_neg hPc
  | _ => rfl

theorem Settling.self (h : Settling w) {n : Nat} {e : CallerEv} (hOk : w.Timely (.act (.caller n e)))
    (hMove : Client.CallerMove E w.client n e k) :
    SettledCaller { w.record (.act (.caller n e)) with client := k } n := by
  have hEarly : (w.client.caller n).pc.early = true → n ∉ w.client.senders := by
    intro hPc hMem
    rw [(h.owned.unused n hMem).1] at hPc
    cases hPc
  obtain ⟨hKept, hHanding⟩ := h.caller n
  have hStrands := hOk.1
  cases hMove with
  | cloned c hPc | unconnected hPc | alloc hPc =>
    exact .of_unknown (hEarly (by simp [hPc, CallerPc.early]))
  | register hPc =>
    have hNot := hEarly (by simp [hPc, CallerPc.early])
    refine ⟨fun sid hFind hConn => ?_, fun hHeld => ?_⟩
    · simp_all [record]
    · exact absurd (Client.mem_senders.mpr (.inr (show n ∈ w.client.held from hHeld))) hNot
  | sent hPc hOpen =>
    rw [record_eq _ (by simp [hPc])]
    -- the send of a late handler without a reply would strand it
    have hNot : n ∈ w.client.senders → w.late n = true → False := by
      intro hMem hLate
      simp [strands, hPc, hLate, (h.owned.unused n hMem).2, hOpen] at hStrands
    refine ⟨fun sid hFind hConn => ?_, fun hHeld hConn => ?_⟩
    · simp only [Client.setCaller_caller, Function.update_self] at hConn
      exact (hNot (Client.mem_senders.mpr (.inl ⟨sid, hFind⟩)) (hKept sid hFind hConn).1).elim
    · simp only [Client.setCaller_caller, Function.update_self] at hConn
      exact (hNot (Client.mem_senders.mpr (.inr hHeld)) (hHanding hHeld hConn).1).elim
  | unsent hPc hOpen =>
    rw [record_eq _ (by simp [hPc])]
    refine ⟨fun sid hFind hConn => ?_, fun hHeld hConn => ?_⟩ <;>
      simp only [Client.setCaller_caller, Function.update_self] at hConn ⊢
    · exact ⟨(hKept sid hFind hConn).1, .inr trivial⟩
    · exact ⟨(hHanding hHeld hConn).1, by simp⟩
  | unsend hPc | expire hPc =>
    rw [record_eq _ (by simp [hPc])]
    refine ⟨fun sid hFind => ?_, fun hHeld hConn => ?_⟩
    · simp only [Client.setCaller_pending, Client.setPending_pending] at hFind
      rcases eq_or_ne sid (w.client.caller n).sid with rfl | hNe
      · simp at hFind
      · rw [AList.lookup_erase_ne hNe] at hFind
        exact absurd (h.owned.keyed sid n hFind).symm hNe
    · simp only [Client.setCaller_caller, Function.update_self] at hConn ⊢
      exact ⟨(hHanding hHeld hConn).1, by simp⟩
  | replied r hPc hSlot | orphaned hPc hSlot hGone | timeout hPc hSlot =>
    rw [record_eq _ (by simp [hPc])]
    refine ⟨fun sid hFind hConn => ?_, fun hHeld hConn => ?_⟩ <;>
      simp only [Client.setCaller_caller, Function.update_self] at hConn
    · simpa [hPc] using (hKept sid hFind hConn).2
    · exact absurd hPc (hHanding hHeld hConn).2
  | drop hPc =>
    have hRecord : w.record (.act (.caller n .drop)) = w := rfl
    rw [hRecord]
    refine ⟨fun sid hFind hConn => ?_, fun hHeld hConn => ?_⟩ <;>
      simp only [Client.setCaller_caller, Function.update_self] at hConn ⊢
    · have hFound : w.client.pending.lookup (w.client.caller n).sid = some n :=
        (h.owned.keyed sid n hFind).symm ▸ hFind
      simp [strands, (hKept sid hFind hConn).1, hFound] at hStrands
    · exact ⟨(hHanding hHeld hConn).1, by simp⟩

theorem Settling.of_callers {v : Watched} (hOwned : v.client.Owned) (hCaller : ∀ n, SettledCaller v n)
    (hOver : ∀ c, v.ended c = true → v.drained c = true)
    (hReleasing : ∀ l, v.client.main = .release l → ∀ c, v.last = some c → v.drained c = true) :
    Settling v :=
  ⟨hOwned, fun sid n => (hCaller n).kept sid, fun n => (hCaller n).handing, hOver, hReleasing⟩

/-- A step of `main` or of the transport: the senders move towards `main`, and
their callers stay where they are. -/
theorem Settling.frame (h : Settling w) {v : Watched} (hOwned : v.client.Owned) (hLate : v.late = w.late)
    (hCaller : ∀ n ∈ w.client.senders, (v.client.caller n).conn = (w.client.caller n).conn ∧
      (v.client.caller n).pc = (w.client.caller n).pc)
    (hKept : ∀ sid n, v.client.pending.lookup sid = some n →
      w.client.pending.lookup sid = some n ∧ v.drained = w.drained)
    (hHeld : ∀ n ∈ v.client.held, v.ended = w.ended ∧ n ∈ w.client.senders)
    (hOver : ∀ c, v.ended c = true → v.drained c = true)
    (hReleasing : ∀ l, v.client.main = .release l → ∀ c, v.last = some c → v.drained c = true) :
    Settling v := by
  refine ⟨hOwned, fun sid n hFind hConn => ?_, fun n hMem hConn => ?_, hOver, hReleasing⟩
  · obtain ⟨hFound, hDrained⟩ := hKept sid n hFind
    obtain ⟨hSame, hPc⟩ := hCaller n (Client.mem_senders.mpr (.inl ⟨sid, hFound⟩))
    rw [hPc, hLate]
    exact h.kept sid n hFound (by rwa [← hSame, ← hDrained])
  · obtain ⟨hEnded, hBefore⟩ := hHeld n hMem
    obtain ⟨hSame, hPc⟩ := hCaller n hBefore
    rw [hSame, hEnded] at hConn
    rw [hPc, hLate]
    rcases Client.mem_senders.mp hBefore with ⟨sid, hFound⟩ | hWas
    · obtain ⟨hIsLate, hAt⟩ := h.kept sid n hFound (h.finished _ hConn)
      exact ⟨hIsLate, by rcases hAt with hAt | hAt <;> simp [hAt]⟩
    · exact h.handing n hWas hConn

theorem record_plain {a : ClientEvent} (h : w.client.Plain a) : w.record a = w := by
  cases a with
  | act a =>
    cases a with
    | main e =>
      cases e with
      | tau =>
        simp only [record]
        split
        next hMain => exact absurd hMain h.1
        next hMain => exact absurd hMain h.2
        next => rfl
      | _ => rfl
    | caller n e => exact h.elim
    | _ => rfl
  | connect c => exact h.elim
  | _ => rfl

theorem Settling.step (h : Settling w) {v : Watched} {a : ClientEvent} (hOk : w.Timely a)
    (hStep : step E w a = some v) : Settling v := by
  obtain ⟨k, hEvent, rfl⟩ := Option.map_eq_some_iff.mp hStep
  have hOwned := h.owned.step hOk.2 hEvent
  cases Client.eventStep_move hEvent with
  | caller n e j hMove =>
    obtain ⟨hHeld, hMain, hOther⟩ := callerMove_other hMove
    obtain ⟨hDrained, hEnded, hLast⟩ := record_caller (w := w) n e
    refine .of_callers hOwned (fun m => ?_) ?_ ?_
    · rcases eq_or_ne m n with rfl | hm
      · exact h.self hOk hMove
      · obtain ⟨hCaller, hLate, hFind⟩ := hOther m hm
        obtain ⟨hKept, hHanding⟩ := h.caller m
        refine ⟨fun sid hFound => ?_, fun hMem => ?_⟩
        · simp only [hDrained, hLate, hCaller]
          exact hKept sid (hFind sid hFound)
        · simp only [hEnded, hLate, hCaller]
          exact hHanding (hHeld ▸ hMem)
    · simpa only [hEnded, hDrained] using h.finished
    · simpa only [hMain, hLast, hDrained] using h.releasing
  | other a j hPlain hSame hMain =>
    have hSenders := hSame.senders
    obtain ⟨hPending, hHeld, hCaller, -⟩ := hSame
    rw [record_plain hPlain]
    refine h.frame hOwned rfl (fun n _ => by simp [hCaller]) (fun sid n hFind => ⟨hPending ▸ hFind, rfl⟩)
      (fun n hMem => ⟨rfl, Client.mem_senders.mpr (.inr (hHeld ▸ hMem))⟩) h.finished ?_
    exact fun l hRel => h.releasing l (hMain l hRel)
  | connect c hMain =>
    exact h.frame hOwned rfl (fun _ _ => ⟨rfl, rfl⟩) (fun sid n hFind => ⟨hFind, rfl⟩)
      (by simp [Client.held, Client.connected]) h.finished (by simp [Client.connected])
  | arrive req =>
    refine h.frame hOwned rfl (fun n hMem => ?_) (fun sid n hFind => ⟨hFind, rfl⟩)
      (fun n hMem => ⟨rfl, Client.mem_senders.mpr (.inr hMem)⟩) h.finished h.releasing
    have hNew := h.owned.absent w.client.nextCaller le_rfl
    have hn : n ≠ w.client.nextCaller := by
      rintro rfl
      simpa [hNew, CallerPc.early] using (h.owned.unused _ hMem).1
    simp [hn]
  | taken c f n resp hMain hFind =>
    refine h.frame hOwned rfl (fun _ _ => ⟨rfl, rfl⟩) (fun sid m hFound => ⟨?_, rfl⟩)
      (fun m hMem => ⟨rfl, ?_⟩) h.finished (by simp)
    · rcases eq_or_ne sid f.streamId with rfl | hNe
      · simp at hFound
      · rwa [Client.goto_pending, Client.setPending_pending, AList.lookup_erase_ne hNe] at hFound
    · obtain rfl : m = n := by simpa [Client.held] using hMem
      exact Client.mem_senders.mpr (.inl ⟨f.streamId, hFind⟩)
  | handed c n resp hMain =>
    have hRecord : w.record (.act (.main .tau)) = w := by simp [record, hMain]
    rw [hRecord]
    refine h.frame hOwned rfl (fun m _ => ?_) (fun sid m hFind => ⟨by simpa using hFind, rfl⟩)
      (by simp [Client.held]) h.finished (by simp)
    exact ⟨Client.resolve_conn n m _, Client.resolve_pc n m _⟩
  | answered n l hMain =>
    have hRecord : w.record (.act (.main .tau)) = w := by simp [record, hMain]
    rw [hRecord]
    refine h.frame hOwned rfl (fun m _ => ?_) (fun sid m hFind => ⟨by simpa using hFind, rfl⟩)
      (fun m hMem => ⟨rfl, ?_⟩) h.finished (fun l' _ => h.releasing _ hMain)
    · exact ⟨Client.resolve_conn n m _, Client.resolve_pc n m _⟩
    · have hMem : m ∈ l := by simpa [Client.held] using hMem
      exact Client.mem_senders.mpr (.inr (by simp [Client.held, hMain, hMem]))
  | released hMain =>
    refine h.frame hOwned (by simp [record, hMain]) (fun _ _ => ⟨rfl, rfl⟩)
      (fun sid n hFind => ⟨hFind, by simp [record, hMain]⟩) (by simp [Client.held]) ?_ (by simp)
    intro c hEnded
    simp only [record, hMain, Bool.or_eq_true, decide_eq_true_eq] at hEnded ⊢
    exact hEnded.elim (h.finished c) (h.releasing [] hMain c)
  | flush hMain =>
    refine h.frame hOwned (by simp [record, hMain]) (fun _ _ => ⟨rfl, rfl⟩) (by simp)
      (fun n hMem => ⟨by simp [record, hMain], ?_⟩) ?_ ?_
    · have hMem : n ∈ w.client.pending.vals := by simpa [Client.held] using hMem
      exact List.mem_append_left _ hMem
    · intro c hEnded
      simp only [record, hMain, Bool.or_eq_true] at hEnded ⊢
      exact .inl (h.finished c hEnded)
    · intro l _ c hLast
      simp only [record, hMain, Bool.or_eq_true, decide_eq_true_eq] at hLast ⊢
      exact .inr hLast

theorem owned_run {acts : List ClientEvent} (hRun : run (step E) init acts = some w)
    (hOk : Along (step E) (fun w a => w.client.FreshId a) init acts) : w.client.Owned := by
  have hReach := Reach.of_run hRun hOk
  clear hRun
  induction hReach with
  | refl => exact Client.owned_init
  | tail _ hFresh hStep ih =>
    obtain ⟨k, hEvent, rfl⟩ := Option.map_eq_some_iff.mp hStep
    exact ih.step hFresh hEvent

theorem settling_run {acts : List ClientEvent} (hRun : run (step E) init acts = some w)
    (hOk : Along (step E) Timely init acts) : Settling w :=
  (Reach.of_run hRun hOk).invariant settling_init fun _ _ _ _ h hOk hStep => h.step hOk hStep

/-- In a timely run the end of a session releases every caller that cloned its
sender, and after it none of them can run into its timeout. -/
theorem no_request_stranded (E : ClientEnv) {w : Watched} {acts : List ClientEvent}
    (hRun : run (step E) init acts = some w) (hOk : Along (step E) Timely init acts) (c : ConnId)
    (hEnded : w.ended c = true) :
    (∀ n, w.client.Cloned n c → w.client.callerStep E n .timeout = none) ∧
      (w.Over E c → w.Released c) := by
  have h := settling_run hRun hOk
  -- a waiting caller of the session has found its reply
  have hWait : ∀ n, w.client.Cloned n c → (w.client.caller n).pc = .wait →
      (w.client.caller n).slot ≠ none := by
    intro n hCloned hPc
    rcases h.owned.waiting n (.inr hPc) with hSlot | hMem
    · exact hSlot
    · rcases Client.mem_senders.mp hMem with ⟨sid, hFind⟩ | hHeld
      · have hAt := (h.kept sid n hFind (h.finished _ (hCloned.1 ▸ hEnded))).2
        simp [hPc] at hAt
      · exact absurd hPc (h.handing n hHeld (hCloned.1 ▸ hEnded)).2
  refine ⟨fun n hCloned => ?_, fun hOver => ⟨fun sid n hFind hCloned => ?_, fun n hCloned => ?_⟩⟩
  · cases hPc : (w.client.caller n).pc with
    | wait => simp [Client.callerStep, hPc, hWait n hCloned hPc]
    | _ => simp [Client.callerStep, hPc]
  · have hStuck := hOver.quiet n hCloned
    have hGone : w.client.outOpen (w.client.caller n).conn = false := hCloned.1 ▸ hOver.gone
    rcases (h.kept sid n hFind (h.finished _ (hCloned.1 ▸ hEnded))).2 with hPc | hPc <;>
      simp [Client.callerStep, hPc, Client.send, hGone] at hStuck
  · have hStuck := hOver.quiet n hCloned
    have hGone : w.client.outOpen (w.client.caller n).conn = false := hCloned.1 ▸ hOver.gone
    cases hPc : (w.client.caller n).pc with
    | absent | readHub => simp [Client.Cloned, hPc, CallerPc.cloned] at hCloned
    | alloc | register | unsend | expire => simp [Client.callerStep, hPc] at hStuck
    | send => simp [Client.callerStep, hPc, Client.send, hGone] at hStuck
    | wait =>
      obtain ⟨r, hSlot⟩ := Option.ne_none_iff_exists'.mp (hWait n hCloned hPc)
      simp [Client.callerStep, hPc, hSlot] at hStuck
    | dropped => rfl
    | returned r =>
      cases r with
      | channelClosed => exact absurd hPc (h.owned.replied n)
      | _ => rfl

/-- A client with no targets. -/
def plainEnv : ClientEnv := ⟨⟨"edge", "secret", ∅⟩, "0", fun s => s, 0⟩

/-- A request is under way when the session ends, and the flush answers it. -/
def flushedInTime : List ClientEvent :=
  [.connect 0, .act (.main .tau), .act (.env (.arrive ⟨"GET", "/", ∅, []⟩)), .act (.caller 0 .tau),
    .act (.caller 0 .tau), .act (.caller 0 .tau), .act (.caller 0 .tau), .act (.main .lost),
    .act (.main .tau), .act (.main .tau), .act (.main .tau), .act (.main .tau),
    .act (.env (.dropOut 0)), .act (.caller 0 .tau)]

theorem flushedInTime_released : ∃ w, run (step plainEnv) init flushedInTime = some w ∧
    (w.client.caller 0).conn = 0 ∧
    (w.client.caller 0).pc = .returned (.reply .flushed) ∧ w.Released 0 := by
  obtain ⟨w, hRun, hw⟩ := exists_run_of_any (step plainEnv) init flushedInTime
    (fun w => w.ended 0 && !w.client.outOpen 0 && w.client.nextCaller = 1 &&
      (w.client.caller 0).conn = 0 && (w.client.caller 0).pc = .returned (.reply .flushed)) (by decide)
  simp only [Bool.and_eq_true, Bool.not_eq_true', decide_eq_true_eq] at hw
  obtain ⟨⟨⟨⟨hEnded, hGone⟩, hNext⟩, hConn⟩, hPc⟩ := hw
  have hTimely : Along (step plainEnv) Timely init flushedInTime := by decide
  refine ⟨w, hRun, hConn, hPc, (no_request_stranded plainEnv hRun hTimely 0 hEnded).2
    ⟨hEnded, hGone, fun n hCloned => ?_⟩⟩
  obtain rfl : n = 0 := by
    have hKnown := (settling_run hRun hTimely).owned.cloned_lt hCloned
    omega
  simp [Client.callerStep, hPc]

/-- The same request, whose handler registers after the flush and sends before the
transport drops the receiver. -/
def registeredLate : List ClientEvent :=
  [.connect 0, .act (.main .tau), .act (.env (.arrive ⟨"GET", "/", ∅, []⟩)), .act (.caller 0 .tau),
    .act (.caller 0 .tau), .act (.main .lost), .act (.main .tau), .act (.main .tau),
    .act (.main .tau), .act (.caller 0 .tau), .act (.caller 0 .tau), .act (.env (.dropOut 0))]

/-- The session is over, no handler of it can go on, its entry is in `pending`, and
the caller waits for its timeout. -/
theorem registeredLate_strands : ∃ w, run (step plainEnv) init registeredLate = some w ∧
    w.Over plainEnv 0 ∧ w.client.Cloned 0 0 ∧ w.client.pending.lookup (2 ^ 63) = some 0 ∧
    (w.client.caller 0).pc = .wait ∧ (w.client.callerStep plainEnv 0 .timeout).isSome = true ∧
    ¬ w.Released 0 := by
  obtain ⟨w, hRun, hw⟩ := exists_run_of_any (step plainEnv) init registeredLate
    (fun w => w.ended 0 && !w.client.outOpen 0 && w.client.nextCaller = 1 &&
      (w.client.caller 0).conn = 0 && (w.client.caller 0).pc = .wait &&
      w.client.pending.lookup (2 ^ 63) = some 0 &&
      (w.client.callerStep plainEnv 0 .timeout).isSome &&
      (w.client.callerStep plainEnv 0 .tau).isNone) (by decide)
  simp only [Bool.and_eq_true, Bool.not_eq_true', decide_eq_true_eq, Option.isNone_iff_eq_none] at hw
  obtain ⟨⟨⟨⟨⟨⟨⟨hEnded, hGone⟩, hNext⟩, hConn⟩, hPc⟩, hFind⟩, hTimeout⟩, hStuck⟩ := hw
  have hCloned : w.client.Cloned 0 0 := ⟨hConn, by rw [hPc]; rfl⟩
  refine ⟨w, hRun, ⟨hEnded, hGone, fun n hOther => ?_⟩, hCloned, hFind, hPc, hTimeout,
    fun h => h.entries _ 0 hFind hCloned⟩
  obtain rfl : n = 0 := by
    have hKnown := (owned_run hRun (by decide)).cloned_lt hOther
    omega
  exact hStuck

end Watched

end OpenSpoke.Tunnel
