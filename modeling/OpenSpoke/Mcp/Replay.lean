import Mathlib.Data.List.Nodup
import OpenSpoke.Mcp.EventStore

/-!
# What a resumed client is sent

An event id given out while Valkey was reachable stands for its place in the
stream. Streams are shared by all sessions that use a stream id.
-/

namespace OpenSpoke.Mcp

open Lts
open Python (Text)

section Lists

variable {α : Type*}

theorem rtake_append (n : Nat) (xs ys : List α) :
    (xs ++ ys).rtake n = xs.rtake (n - ys.length) ++ ys.rtake n := by
  simp only [List.rtake_eq_reverse_take_reverse, List.reverse_append, List.take_append,
    List.length_reverse]

theorem rtake_rtake_append (n : Nat) (xs ys : List α) :
    (xs.rtake n ++ ys).rtake n = (xs ++ ys).rtake n := by
  simp only [List.rtake_eq_reverse_take_reverse, List.reverse_append, List.reverse_reverse,
    List.take_append, List.take_take, List.length_reverse]
  rw [Nat.min_eq_left (Nat.sub_le _ _)]

theorem map_rtake {β : Type*} (f : α → β) (n : Nat) (xs : List α) :
    (xs.rtake n).map f = (xs.map f).rtake n := by
  simp only [List.rtake_eq_reverse_take_reverse, List.map_reverse, List.map_take]

theorem mem_of_mem_rtake {n : Nat} {a : α} {xs : List α} (h : a ∈ xs.rtake n) : a ∈ xs :=
  List.mem_of_mem_drop h

end Lists

namespace Xid

theorem before_trans {x y z : Xid} (hxy : x.before y) (hyz : y.before z) : x.before z := by
  unfold before at *
  omega

theorem before_irrefl (x : Xid) : ¬x.before x := by
  unfold before
  omega

theorem not_before_of_before {x y : Xid} (h : x.before y) : ¬y.before x :=
  fun hBack => before_irrefl x (before_trans h hBack)

theorem text_injective : Function.Injective Xid.text := by
  intro x y h
  have hParse := congrArg parseXid h
  rwa [parseXid_text, parseXid_text, Option.some.injEq] at hParse

end Xid

section Replay

variable {M : Type*} {E : Settings M} {db db' : Streams} {calls before after : List (Call M)}
  {c d : Call M} {s : Text}

/-! ## What streams hold -/

theorem eventKey_injective : Function.Injective E.eventKey :=
  fun _ _ h => List.append_cancel_left h

/-- The calls that stored an event under stream id `s`. -/
def storedCalls (s : Text) (calls : List (Call M)) : List (Call M) :=
  calls.filter fun c => c.streamId = s ∧ c.xid.isSome

/-- Those whose events the stream still has. -/
def keptCalls (E : Settings M) (s : Text) (calls : List (Call M)) : List (Call M) :=
  (storedCalls s calls).rtake E.eventMaxlen

def Call.entry (E : Settings M) (c : Call M) : Entry := ⟨c.xid.getD .zero, E.payload c.message⟩

/-- What a stream has after the events of `own` were stored in it. -/
structure Holds (E : Settings M) (own : List (Call M)) (stream : ValkeyStream) : Prop where
  entries : stream.entries = (own.rtake E.eventMaxlen).map (Call.entry E)
  last : ∀ c ∈ own, (c.entry E).id = stream.last ∨ (c.entry E).id.before stream.last
  sorted : own.Pairwise fun c d => (c.entry E).id.before (d.entry E).id
  pos : ∀ c ∈ own, Xid.zero.before (c.entry E).id
  start : Xid.zero = stream.last ∨ Xid.zero.before stream.last

theorem holds_empty : Holds E [] ⟨[], .zero⟩ := by
  constructor <;> simp [List.rtake_nil]

theorem Holds.add {own : List (Call M)} {stream : ValkeyStream} {x : Xid}
    (h : Holds E own stream) (hXid : c.xid = some x) (hLast : stream.last.before x) :
    Holds E (own ++ [c]) (stream.add E.eventMaxlen ⟨x, E.payload c.message⟩) := by
  have hEntry : c.entry E = ⟨x, E.payload c.message⟩ := by simp [Call.entry, hXid]
  have hBefore : ∀ d ∈ own, (d.entry E).id.before x := fun d hd => by
    rcases h.last d hd with hd | hd
    · rw [hd]
      exact hLast
    · exact Xid.before_trans hd hLast
  have hPos : Xid.zero.before x := by
    rcases h.start with hZero | hZero
    · rw [hZero]
      exact hLast
    · exact Xid.before_trans hZero hLast
  refine ⟨?_, ?_, ?_, ?_, .inr hPos⟩
  · rw [← rtake_rtake_append, map_rtake, List.map_append, ← h.entries, List.map_singleton, hEntry]
    rfl
  · intro d hd
    rcases List.mem_append.mp hd with hd | hd
    · exact .inr (hBefore d hd)
    · obtain rfl := List.mem_singleton.mp hd
      exact .inl (congrArg Entry.id hEntry)
  · rw [List.pairwise_append]
    refine ⟨h.sorted, List.pairwise_singleton _ _, fun d hd e he => ?_⟩
    obtain rfl := List.mem_singleton.mp he
    rw [hEntry]
    exact hBefore d hd
  · intro d hd
    rcases List.mem_append.mp hd with hd | hd
    · exact h.pos d hd
    · obtain rfl := List.mem_singleton.mp hd
      rw [hEntry]
      exact hPos

theorem storedCalls_append (s : Text) (xs ys : List (Call M)) :
    storedCalls s (xs ++ ys) = storedCalls s xs ++ storedCalls s ys :=
  List.filter_append ..

theorem storedCalls_snoc_of_not (h : ¬(c.streamId = s ∧ c.xid.isSome)) :
    storedCalls s (calls ++ [c]) = storedCalls s calls := by
  simp [storedCalls, h]

theorem holds_step (h : ∀ s, Holds E (storedCalls s calls) (db (E.eventKey s)))
    (hStep : storeEvent E db c = some db') (s : Text) :
    Holds E (storedCalls s (calls ++ [c])) (db' (E.eventKey s)) := by
  cases hXid : c.xid with
  | none =>
    obtain rfl : db = db' := by simpa [storeEvent, hXid] using hStep
    rw [storedCalls_snoc_of_not (by simp [hXid])]
    exact h s
  | some x =>
    simp only [storeEvent, hXid, Option.ite_none_right_eq_some, Option.some.injEq] at hStep
    obtain ⟨hLast, rfl⟩ := hStep
    by_cases hs : s = c.streamId
    · subst hs
      have hOwn : storedCalls c.streamId [c] = [c] := by simp [storedCalls, hXid]
      rw [Function.update_self, storedCalls_append, hOwn]
      exact (h _).add hXid hLast
    · rw [storedCalls_snoc_of_not fun hBoth => hs hBoth.1.symm,
        Function.update_of_ne fun hKey => hs (eventKey_injective hKey)]
      exact h s

theorem holds_run (h : run (storeEvent E) .empty calls = some db) (s : Text) :
    Holds E (storedCalls s calls) (db (E.eventKey s)) :=
  run_induction (motive := fun calls db => ∀ s, Holds E (storedCalls s calls) (db (E.eventKey s)))
    h (fun _ => holds_empty) (fun _ _ _ _ _ ih hStep => holds_step ih hStep) s

/-! ## Event ids -/

/-- Among the events stored under a stream id, the entry's id says which one it is. -/
theorem Holds.eq_of_id_eq {own : List (Call M)} {stream : ValkeyStream} (h : Holds E own stream)
    (hc : c ∈ own) (hd : d ∈ own) (hEq : (c.entry E).id = (d.entry E).id) : c = d := by
  have hNodup : (own.map fun c => (c.entry E).id).Nodup := by
    refine List.pairwise_map.mpr (h.sorted.imp fun {c d} hBefore hSame => ?_)
    rw [hSame] at hBefore
    exact Xid.before_irrefl _ hBefore
  exact List.inj_on_of_nodup_map hNodup hc hd hEq

theorem eventId_inj {s t : Text} {x y : Xid} (h : s ++ '|' :: x.text = t ++ '|' :: y.text) :
    s = t ∧ x = y := by
  have hBack := congrArg List.reverse h
  simp only [List.reverse_append, List.reverse_cons, List.append_assoc, List.singleton_append]
    at hBack
  have hNot : ∀ z : Xid, '|' ∉ z.text.reverse :=
    fun z hMem => bar_not_mem_text z (List.mem_reverse.mp hMem)
  have hText := congrArg (List.takeWhile (· ≠ '|')) hBack
  have hRest := congrArg (List.dropWhile (· ≠ '|')) hBack
  rw [takeWhile_ne_append (hNot _), takeWhile_ne_append (hNot _)] at hText
  rw [dropWhile_ne_append (hNot _), dropWhile_ne_append (hNot _)] at hRest
  exact ⟨List.reverse_injective (List.cons.inj hRest).2,
    Xid.text_injective (List.reverse_injective hText)⟩

theorem eventId_eq (E : Settings M) (c : Call M) :
    c.eventId = c.streamId ++ '|' :: (c.entry E).id.text := rfl

/-! ## What is sent -/

/-- The events that carry a message, each with its event id. -/
def sendable (calls : List (Call M)) : List (M × Text) :=
  calls.filterMap fun c => c.message.map fun m => (m, c.eventId)

/-- The stored events that an id given out by `c` does not cover: those after its
own, or all if Valkey was not reachable. -/
def missed (before : List (Call M)) (c : Call M) (after : List (Call M)) : List (Call M) :=
  if c.xid.isSome then after else before ++ c :: after

theorem replay_bar (hBar : '|' ∈ c.streamId) :
    (replayEventsAfter E db true c.eventId).1 = [] := by
  have hMem : '|' ∈ c.eventId := List.mem_append_left _ hBar
  rw [replayEventsAfter, if_neg (not_not.mpr hMem)]
  have hRest : '|' ∈ (c.eventId.dropWhile (· ≠ '|')).tail := by
    have hSplit : ∀ s : Text, '|' ∈ s → ∀ t, '|' ∈ ((s ++ '|' :: t).dropWhile (· ≠ '|')).tail := by
      intro s hs t
      induction s with
      | nil => cases hs
      | cons a s ih =>
        by_cases ha : a = '|'
        · subst ha
          simp
        · have hIn : '|' ∈ s := (List.mem_cons.mp hs).resolve_left fun h => ha h.symm
          simpa [ha] using ih hIn
    exact hSplit _ hBar _
  simp only [if_true, ValkeyStream.rangeAfter, parseXid_eq_none hRest, Option.map_none]

theorem replay_of_holds {own : List (Call M)} (hBar : '|' ∉ s)
    (h : Holds E own (db (E.eventKey s))) (hOwn : ∀ c ∈ own, c.streamId = s) (x : Xid) :
    replayEventsAfter E db true (s ++ '|' :: x.text) =
      (sendable ((own.rtake E.eventMaxlen).filter fun c => x.before (c.entry E).id), some s) := by
  rw [replayEventsAfter, if_neg (by simp)]
  simp only [if_true, takeWhile_ne_append hBar, dropWhile_ne_append hBar, List.tail_cons,
    ValkeyStream.rangeAfter, parseXid_text, Option.map_some, h.entries]
  refine congrArg (·, some s) ?_
  rw [List.filter_map, List.filterMap_map, sendable]
  refine List.filterMap_congr fun c hc => ?_
  have hStream := hOwn c (mem_of_mem_rtake (List.mem_of_mem_filter hc))
  cases hMessage : c.message with
  | none => simp [Call.entry, Settings.payload, hMessage]
  | some m =>
    simp [Call.entry, Settings.payload, hMessage, E.codec.dump_ne_nil, E.codec.validate_dump,
      Call.eventId, hStream]

theorem mem_storedCalls : c ∈ storedCalls s calls ↔ c ∈ calls ∧ c.streamId = s ∧ c.xid.isSome := by
  simp [storedCalls]

/-- The events a client has missed are sent, in order. -/
theorem replay_eq (hRun : run (storeEvent E) .empty (before ++ c :: after) = some db)
    (hBar : '|' ∉ c.streamId) : replayEventsAfter E db true c.eventId =
      (sendable (keptCalls E c.streamId (missed before c after)), some c.streamId) := by
  have hHolds := holds_run hRun c.streamId
  rw [eventId_eq E, replay_of_holds hBar hHolds fun d hd => (mem_storedCalls.mp hd).2.1]
  refine congrArg (fun l => (sendable l, some c.streamId)) ?_
  rw [keptCalls, missed]
  cases hXid : c.xid with
  | none =>
    have hZero : (c.entry E).id = .zero := by simp [Call.entry, hXid]
    rw [hZero]
    refine List.filter_eq_self.mpr fun d hd => decide_eq_true (hHolds.pos d (mem_of_mem_rtake hd))
  | some x =>
    have hSplit : storedCalls c.streamId (before ++ c :: after) =
        (storedCalls c.streamId before ++ [c]) ++ storedCalls c.streamId after := by
      simp [storedCalls, hXid]
    have hSorted := List.pairwise_append.mp (hSplit ▸ hHolds.sorted)
    have hUpTo := List.pairwise_append.mp hSorted.1
    simp only [Option.isSome_some, if_true]
    rw [hSplit, rtake_append, List.filter_append]
    have hNone : ((storedCalls c.streamId before ++ [c]).rtake
        (E.eventMaxlen - (storedCalls c.streamId after).length)).filter
          (fun d => (c.entry E).id.before (d.entry E).id) = [] := by
      refine List.filter_eq_nil_iff.mpr fun d hd => ?_
      simp only [decide_eq_true_eq]
      rcases List.mem_append.mp (mem_of_mem_rtake hd) with hd | hd
      · exact Xid.not_before_of_before (hUpTo.2.2 d hd c (List.mem_singleton_self c))
      · obtain rfl := List.mem_singleton.mp hd
        exact Xid.before_irrefl _
    have hAll : ((storedCalls c.streamId after).rtake E.eventMaxlen).filter
        (fun d => (c.entry E).id.before (d.entry E).id) =
          (storedCalls c.streamId after).rtake E.eventMaxlen := by
      refine List.filter_eq_self.mpr fun d hd => decide_eq_true ?_
      exact hSorted.2.2 c (List.mem_append_right _ (List.mem_singleton_self c)) d
        (mem_of_mem_rtake hd)
    rw [hNone, hAll, List.nil_append]

theorem mem_sendable {id : Text} (h : id ∈ (sendable calls).map Prod.snd) :
    ∃ e ∈ calls, e.message.isSome ∧ e.eventId = id := by
  obtain ⟨p, hp, rfl⟩ := List.mem_map.mp h
  obtain ⟨e, he, hSome⟩ := List.mem_filterMap.mp hp
  obtain ⟨m, hMessage, rfl⟩ := Option.map_eq_some_iff.mp hSome
  exact ⟨e, he, by rw [hMessage]; rfl, rfl⟩

theorem eventId_mem_sendable {e : Call M} (he : e ∈ calls) (hMessage : e.message.isSome) :
    e.eventId ∈ (sendable calls).map Prod.snd := by
  obtain ⟨m, hSome⟩ := Option.isSome_iff_exists.mp hMessage
  refine List.mem_map.mpr ⟨(m, e.eventId), List.mem_filterMap.mpr ⟨e, he, ?_⟩, rfl⟩
  rw [hSome, Option.map_some]

theorem mem_keptCalls {e : Call M} (he : e ∈ keptCalls E s calls) :
    e ∈ calls ∧ e.streamId = s ∧ e.xid.isSome :=
  mem_storedCalls.mp (mem_of_mem_rtake he)

theorem sendable_nodup {own : List (Call M)} {stream : ValkeyStream} (h : Holds E own stream)
    {l : List (Call M)} (hl : l.Sublist own) : ((sendable l).map Prod.snd).Nodup := by
  rw [sendable, List.map_filterMap]
  refine List.Pairwise.filterMap _ ?_ (h.sorted.sublist hl)
  intro d e hBefore i hi j hj
  obtain ⟨-, rfl⟩ : (∃ m, d.message = some m) ∧ d.eventId = i := by simpa using hi
  obtain ⟨-, rfl⟩ : (∃ m, e.message = some m) ∧ e.eventId = j := by simpa using hj
  intro hSame
  rw [eventId_eq E, eventId_eq E] at hSame
  rw [(eventId_inj hSame).2] at hBefore
  exact Xid.before_irrefl _ hBefore

/-! ## Exact resumption -/

/-- Messages that are text, written with a quote in front. -/
def quoted : Codec Text where
  dump m := '"' :: m
  validate t := if t.head? = some '"' then some t.tail else none
  validate_dump _ := rfl
  dump_ne_nil _ := List.cons_ne_nil _ _

def quotedSettings : Settings Text := ⟨quoted, ['m', 'c', 'p'], 512⟩

/-- With an id given out while Valkey was reachable a client is sent the events with a
message that it has missed, in order and once each, and none from before. An id given
out while Valkey was not reachable stands before all that the stream has. -/
theorem resumption_exact (hRun : run (storeEvent E) .empty (before ++ c :: after) = some db)
    (hBar : '|' ∉ c.streamId) :
    replayEventsAfter E db true c.eventId =
      (sendable (keptCalls E c.streamId (if c.xid.isSome then after else before ++ c :: after)),
        some c.streamId) ∧
    ((replayEventsAfter E db true c.eventId).1.map Prod.snd).Nodup ∧
    (c.xid.isSome → ∀ d ∈ before, d.xid.isSome →
      d.eventId ∉ (replayEventsAfter E db true c.eventId).1.map Prod.snd) := by
  have hHolds := holds_run hRun c.streamId
  have hReplay := replay_eq hRun hBar
  refine ⟨hReplay, ?_, fun hStored d hd hXid hMem => ?_⟩
  · rw [hReplay]
    refine sendable_nodup hHolds ((List.drop_sublist _ _).trans (List.Sublist.filter _ ?_))
    rw [missed]
    split
    · exact (List.sublist_cons_self _ _).trans (List.sublist_append_right _ _)
    · exact List.Sublist.refl _
  · rw [hReplay, missed, if_pos hStored] at hMem
    obtain ⟨e, he, -, hId⟩ := mem_sendable hMem
    obtain ⟨hAfter, hStream, hSome⟩ := mem_keptCalls he
    rw [eventId_eq E, eventId_eq E] at hId
    obtain ⟨hSame, hXids⟩ := eventId_inj hId
    have hSorted := hHolds.sorted
    rw [storedCalls_append] at hSorted
    have hBefore := (List.pairwise_append.mp hSorted).2.2 d
      (mem_storedCalls.mpr ⟨hd, hSame ▸ hStream, hXid⟩) e
      (mem_storedCalls.mpr ⟨List.mem_cons_of_mem _ hAfter, hStream, hSome⟩)
    rw [hXids] at hBefore
    exact Xid.before_irrefl _ hBefore

/-- A request of session `a` has three events; the second has no message, and Valkey
cannot be reached for the last. -/
def primedCalls : List (Call Text) :=
  [⟨['a'], ['1'], some ['x'], some ⟨5, 0⟩⟩, ⟨['a'], ['1'], none, some ⟨6, 0⟩⟩,
    ⟨['a'], ['1'], some ['y'], none⟩]

theorem primed_resumption : ∃ db, run (storeEvent quotedSettings) .empty primedCalls = some db ∧
    (replayEventsAfter quotedSettings db true ['1', '|', '6', '-', '0']).1 = [] := by
  obtain ⟨db, hRun, -⟩ := exists_run_of_any (storeEvent quotedSettings) .empty primedCalls
    (fun _ => true) (by decide)
  have hExact := (@resumption_exact Text quotedSettings db [⟨['a'], ['1'], some ['x'], some ⟨5, 0⟩⟩]
    _ ⟨['a'], ['1'], none, some ⟨6, 0⟩⟩ hRun (by decide)).1
  exact ⟨db, hRun, (congrArg Prod.fst hExact).trans (by decide)⟩

/-- What `c` is sent is what was stored after it, whatever it was, and nothing else. -/
def ReplaysMissed (E : Settings M) (c : Call M) (after : List (Call M))
    (db : Streams) : Prop :=
  (replayEventsAfter E db true c.eventId).1.map (fun p => (some p.1, p.2)) =
    (keptCalls E c.streamId after).map fun d => (d.message, d.eventId)

/-- The event without a message is not sent, and the id given out without Valkey gets what
was stored before it. -/
theorem primed_not_exact : ∃ db, run (storeEvent quotedSettings) .empty primedCalls = some db ∧
    ¬ReplaysMissed quotedSettings ⟨['a'], ['1'], some ['x'], some ⟨5, 0⟩⟩ (primedCalls.drop 1) db ∧
    ¬ReplaysMissed quotedSettings ⟨['a'], ['1'], some ['y'], none⟩ [] db := by
  obtain ⟨db, hRun, hSent⟩ := exists_run_of_any (storeEvent quotedSettings) .empty primedCalls
    (fun db => (replayEventsAfter quotedSettings db true ['1', '|', '5', '-', '0']).1.isEmpty &&
      !(replayEventsAfter quotedSettings db true ['1', '|', '0', '-', '0']).1.isEmpty) (by decide)
  rw [Bool.and_eq_true, List.isEmpty_iff, Bool.not_eq_true', List.isEmpty_eq_false_iff] at hSent
  refine ⟨db, hRun, fun hMissed => ?_, fun hMissed => ?_⟩
  · have hNil : (replayEventsAfter quotedSettings db true (Call.eventId
      (⟨['a'], ['1'], some ['x'], some ⟨5, 0⟩⟩ : Call Text))).1 = [] := hSent.1
    rw [ReplaysMissed, hNil] at hMissed
    exact absurd hMissed (by decide)
  · exact hSent.2 (List.map_eq_nil_iff.mp (hMissed.trans (by decide)))

/-! ## Isolation -/

/-- No event stored for another session is sent to the session of `c` for the id it got. -/
def Isolated (E : Settings M) (calls : List (Call M)) (c : Call M) (db : Streams) : Prop :=
  ∀ reachable, ∀ d ∈ calls, d.session ≠ c.session → d.xid.isSome →
    d.eventId ∉ (replayEventsAfter E db reachable c.eventId).1.map Prod.snd

/-- A replay stays within the session if and only if no other session's message is among
the events of the stream id that the event id does not cover. -/
theorem replay_isolated_iff (hRun : run (storeEvent E) .empty (before ++ c :: after) = some db) :
    Isolated E (before ++ c :: after) c db ↔ '|' ∈ c.streamId ∨
      ∀ d ∈ keptCalls E c.streamId (if c.xid.isSome then after else before ++ c :: after),
        d.message.isSome → d.session = c.session := by
  have hHolds := holds_run hRun c.streamId
  by_cases hBar : '|' ∈ c.streamId
  · refine iff_of_true (fun reachable d _ _ _ => ?_) (.inl hBar)
    cases reachable with
    | false => simp [replayEventsAfter]
    | true => simp [replay_bar hBar]
  · rw [or_iff_right hBar, ← missed]
    have hReplay := replay_eq hRun hBar
    have hWithin : ∀ e ∈ missed before c after, e ∈ before ++ c :: after := by
      intro e he
      rw [missed] at he
      split at he
      · exact List.mem_append_right _ (List.mem_cons_of_mem _ he)
      · exact he
    constructor
    · intro hIsolated d hd hMessage
      by_contra hOther
      obtain ⟨hMem, -, hSome⟩ := mem_keptCalls hd
      refine hIsolated true d (hWithin d hMem) hOther hSome ?_
      rw [hReplay]
      exact eventId_mem_sendable hd hMessage
    · intro hOwn reachable d hd hOther hXid hMem
      cases reachable with
      | false => simp [replayEventsAfter] at hMem
      | true =>
        rw [hReplay] at hMem
        obtain ⟨e, he, hMessage, hId⟩ := mem_sendable hMem
        obtain ⟨hIn, hStream, hSome⟩ := mem_keptCalls he
        rw [eventId_eq E, eventId_eq E] at hId
        obtain ⟨hSame, hXids⟩ := eventId_inj hId
        have hEq : e = d := hHolds.eq_of_id_eq (mem_storedCalls.mpr ⟨hWithin e hIn, hStream, hSome⟩)
          (mem_storedCalls.mpr ⟨hd, hSame ▸ hStream, hXid⟩) hXids
        exact hOther (hEq ▸ hOwn e he hMessage)

/-- Sessions `a` and `b` both number a request 1. -/
def sharedCalls : List (Call Text) :=
  [⟨['a'], ['1'], some ['x'], some ⟨5, 0⟩⟩, ⟨['b'], ['2'], some ['y'], some ⟨6, 0⟩⟩,
    ⟨['b'], ['1'], some ['z'], some ⟨7, 0⟩⟩]

theorem ownRequest_isolated : ∃ db, run (storeEvent quotedSettings) .empty (sharedCalls.take 2) =
    some db ∧ Isolated quotedSettings (sharedCalls.take 2) ⟨['a'], ['1'], some ['x'], some ⟨5, 0⟩⟩
      db := by
  obtain ⟨db, hRun, -⟩ := exists_run_of_any (storeEvent quotedSettings) .empty (sharedCalls.take 2)
    (fun _ => true) (by decide)
  refine ⟨db, hRun, (@replay_isolated_iff Text quotedSettings db [] _
    ⟨['a'], ['1'], some ['x'], some ⟨5, 0⟩⟩ hRun).mpr (.inr ?_)⟩
  decide

theorem sharedRequest_leaks : ∃ db, run (storeEvent quotedSettings) .empty sharedCalls = some db ∧
    ¬Isolated quotedSettings sharedCalls ⟨['a'], ['1'], some ['x'], some ⟨5, 0⟩⟩ db := by
  obtain ⟨db, hRun, hSent⟩ := exists_run_of_any (storeEvent quotedSettings) .empty sharedCalls
    (fun db => (replayEventsAfter quotedSettings db true ['1', '|', '5', '-', '0']).1 =
      [(['z'], ['1', '|', '7', '-', '0'])]) (by decide)
  have hSent := of_decide_eq_true hSent
  refine ⟨db, hRun, fun hIsolated => hIsolated true ⟨['b'], ['1'], some ['z'], some ⟨7, 0⟩⟩
    (by simp [sharedCalls]) (by decide) rfl ?_⟩
  have hId : Call.eventId (⟨['a'], ['1'], some ['x'], some ⟨5, 0⟩⟩ : Call Text) =
    ['1', '|', '5', '-', '0'] := by decide
  rw [hId, hSent]
  decide

end Replay

end OpenSpoke.Mcp
