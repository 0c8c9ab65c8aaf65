import OpenSpoke.Chat.Thread

/-!
# One ordered log

While one turn is written no other begins and the thread is not deleted; then the messages
are in order, an answer stands right behind its question, and the count is right.
-/

namespace OpenSpoke.Chat

open DocIndex (Answer)
open Lts
open Python (Text)

/-- A turn, from the search for its order number to the count. -/
def Pc.inTurn : Pc → Bool
  | .userPut .. | .answering .. | .assistantPut .. | .countUpdate .. => true
  | _ => false

def Pc.deleting : Pc → Bool
  | .deleteThread => true
  | _ => false

def Pc.ended : Pc → Bool
  | .done | .failed => true
  | _ => false

/-! ## The order of messages -/

def Ordered (messages : List Message) : Prop := messages.Pairwise fun m n => m.order < n.order

theorem Ordered.listMessages {messages : List Message} {size : Nat} (h : Ordered messages)
    (hSize : messages.length ≤ size) : listMessages messages size = messages := by
  have hSorted : messages.Pairwise fun m n => m.order ≤ n.order := h.imp Nat.le_of_lt
  rw [Chat.listMessages, hSorted.insertionSort_eq, List.take_of_length_le hSize]

theorem Ordered.lt_nextOrder {messages : List Message} (h : Ordered messages) {m : Message}
    (hm : m ∈ messages) : m.order < nextOrder messages := by
  induction messages using List.reverseRecOn with
  | nil => cases hm
  | append_singleton messages last _ =>
    have hLast : nextOrder (messages ++ [last]) = last.order + 1 := by
      rw [nextOrder, List.getLast?_concat]
    rw [hLast]
    rcases List.mem_append.mp hm with hBefore | hHere
    · have hLt := (List.pairwise_append.mp h).2.2 m hBefore last (List.mem_singleton_self last)
      omega
    · rw [List.mem_singleton.mp hHere]
      exact Nat.lt_succ_self _

theorem Ordered.append {messages : List Message} {last : Message} (h : Ordered messages)
    (hLast : ∀ m ∈ messages, m.order < last.order) : Ordered (messages ++ [last]) := by
  apply List.pairwise_append.mpr
  refine ⟨h, List.pairwise_singleton .., ?_⟩
  intro m hm n hn
  rw [List.mem_singleton.mp hn]
  exact hLast m hm

/-- An answer stands right behind the question of its send. -/
def Answers (messages : List Message) : Prop :=
  ∀ m ∈ messages, m.role = .assistant →
    ∃ u ∈ messages, u.send = m.send ∧ u.role = .user ∧ m.order = u.order + 1

theorem Answers.append {messages : List Message} {last : Message} (h : Answers messages)
    (hLast : last.role = .assistant →
      ∃ u ∈ messages, u.send = last.send ∧ u.role = .user ∧ last.order = u.order + 1) :
    Answers (messages ++ [last]) := by
  intro m hm hRole
  have hUser : ∃ u ∈ messages, u.send = m.send ∧ u.role = .user ∧ m.order = u.order + 1 := by
    rcases List.mem_append.mp hm with hBefore | hHere
    · exact h m hBefore hRole
    · obtain rfl := List.mem_singleton.mp hHere
      exact hLast hRole
  obtain ⟨u, hu, hSame⟩ := hUser
  exact ⟨u, List.mem_append_left _ hu, hSame⟩

namespace World

variable (w : World)

/-! ## The condition -/

def NoTurn : Prop := ∀ m < w.calls.length, (w.call m).inTurn = false

instance : Decidable w.NoTurn := Nat.decidableBallLT ..

def NoDelete : Prop := ∀ m < w.calls.length, (w.call m).deleting = false

instance : Decidable w.NoDelete := Nat.decidableBallLT ..

def CarefulAt (a : Answer) : Pc → Prop
  | .sendSearch _ => w.NoTurn ∧ w.NoDelete ∧ w.thread.isSome ∧
    ((a = .answered ∧ w.messages.length ≤ 1000) ∨ w.messages = [])
  | .userPut .. | .assistantPut .. | .countUpdate .. | .deleteThread => a ≠ .refused
  | .deleteMessages => a ≠ .refused ∧ w.NoTurn
  | _ => True

instance (a : Answer) : (pc : Pc) → Decidable (w.CarefulAt a pc)
  | .sendSearch _ => inferInstanceAs (Decidable (_ ∧ _ ∧ _ ∧ _))
  | .userPut .. | .assistantPut .. | .countUpdate .. | .deleteThread =>
    inferInstanceAs (Decidable (_ ≠ _))
  | .deleteMessages => inferInstanceAs (Decidable (_ ∧ _))
  | .sendGet _ | .answering .. | .renameGet .. | .renameUpdate .. | .listGet _ | .listSearch
  | .deleteGet _ | .done | .failed => .isTrue trivial

def streams : Pc → Bool
  | .answering s _ _ => s.stream
  | _ => false

def Careful : Act → Prop
  | .request n a _ => w.CarefulAt a (w.call n)
  -- a stream does not fail
  | .reply n text => text = none → streams (w.call n) = false
  | _ => True

instance : (act : Act) → Decidable (w.Careful act)
  | .request .. => inferInstanceAs (Decidable (CarefulAt ..))
  | .reply .. => inferInstanceAs (Decidable (_ → _))
  | .send _ | .rename .. | .list _ | .delete _ => .isTrue trivial

/-! ## The invariant -/

/-- What a turn knows of the messages. -/
def TurnOk (n : Nat) : Pc → Prop
  | .userPut _ prior order => w.messages.length = prior ∧ ∀ m ∈ w.messages, m.order < order
  | .answering _ prior order | .assistantPut _ prior order _ =>
    w.messages.length = prior + 1 ∧ (∀ m ∈ w.messages, m.order ≤ order) ∧
      ∃ u ∈ w.messages, u.send = n ∧ u.role = .user ∧ u.order = order
  | .countUpdate _ count _ => w.messages.length = count
  | _ => True

structure Inv : Prop where
  ordered : Ordered w.messages
  answers : Answers w.messages
  sent : ∀ m ∈ w.messages, m.send < w.calls.length
  alone : ∀ n m, (w.call n).inTurn → (w.call m).inTurn → n = m
  turn : ∀ n, w.TurnOk n (w.call n)
  count : (∀ n, (w.call n).inTurn = false) → (∀ n, (w.call n).deleting = false) →
    ∀ t ∈ w.thread, t.messageCount = w.messages.length
  quiet : ∀ n, (w.call n).deleting → w.messages = [] ∧ ∀ m, (w.call m).inTurn = false
  absent : w.thread = none → w.messages = [] ∧ ∀ m, (w.call m).inTurn = false
  deleted : w.deleted → w.thread = none

variable {w} {t : World} {n : Nat} {pc : Pc} {a : Answer} {now : Text}

theorem call_goto (h : w.call n ≠ .failed) : (w.goto n pc).call = Function.update w.call n pc :=
  Calls.getD_set (Calls.lt_of_ne h) pc .failed

theorem call_begin (pc : Pc) : (w.begin pc).call = Function.update w.call w.calls.length pc :=
  Calls.getD_append w.calls pc .failed

theorem noTurn_iff : w.NoTurn ↔ ∀ n, (w.call n).inTurn = false :=
  @Calls.forall_iff _ w.calls .failed (fun _ (pc : Pc) => pc.inTurn = false) fun _ => rfl

theorem noDelete_iff : w.NoDelete ↔ ∀ n, (w.call n).deleting = false :=
  @Calls.forall_iff _ w.calls .failed (fun _ pc => pc.deleting = false) fun _ => rfl

theorem turnOk_of_not (h : pc.inTurn = false) : w.TurnOk n pc := by
  cases pc with
  | userPut | answering | assistantPut | countUpdate => cases h
  | _ => trivial

theorem TurnOk.congr (h : w.TurnOk n pc) (hMessages : t.messages = w.messages) : t.TurnOk n pc := by
  cases pc with
  | userPut | answering | assistantPut | countUpdate =>
    simp only [TurnOk, hMessages]
    exact h
  | _ => trivial

theorem Inv.moved (h : Inv w) (hCall : t.call = Function.update w.call n pc)
    (hLen : w.calls.length ≤ t.calls.length) (hMessages : t.messages = w.messages)
    (hCount : t.thread.map Thread.messageCount = w.thread.map Thread.messageCount)
    (hDeleted : t.deleted = w.deleted) (hOld : (w.call n).inTurn = false)
    (hOldDelete : (w.call n).deleting = false) (hNew : pc.inTurn = false)
    (hNewDelete : pc.deleting = false) : Inv t := by
  have hTurns : ∀ m, (t.call m).inTurn = (w.call m).inTurn := by
    intro m
    rw [hCall]
    by_cases hm : m = n
    · rw [hm, Function.update_self, hOld, hNew]
    · rw [Function.update_of_ne hm]
  have hDeletes : ∀ m, (t.call m).deleting = (w.call m).deleting := by
    intro m
    rw [hCall]
    by_cases hm : m = n
    · rw [hm, Function.update_self, hOldDelete, hNewDelete]
    · rw [Function.update_of_ne hm]
  constructor
  · exact hMessages ▸ h.ordered
  · exact hMessages ▸ h.answers
  · intro m hm
    rw [hMessages] at hm
    exact Nat.lt_of_lt_of_le (h.sent m hm) hLen
  · intro l m hl hm
    rw [hTurns] at hl hm
    exact h.alone l m hl hm
  · rw [hCall]
    exact (Function.forall_update_iff _ fun m pc => t.TurnOk m pc).mpr
      ⟨turnOk_of_not hNew, fun m _ => (h.turn m).congr hMessages⟩
  · intro hNoTurn hNoDelete thread hThread
    have hMap : w.thread.map Thread.messageCount = some thread.messageCount := by
      rw [← hCount, Option.mem_def.mp hThread]
      rfl
    obtain ⟨old, hOldThread, hSame⟩ := Option.map_eq_some_iff.mp hMap
    rw [hMessages, ← hSame]
    exact h.count (fun m => hTurns m ▸ hNoTurn m) (fun m => hDeletes m ▸ hNoDelete m) old hOldThread
  · intro m hm
    rw [hDeletes] at hm
    obtain ⟨hEmpty, hQuiet⟩ := h.quiet m hm
    exact ⟨hMessages.trans hEmpty, fun l => (hTurns l).trans (hQuiet l)⟩
  · intro hNone
    rw [hNone, Option.map_none] at hCount
    obtain ⟨hEmpty, hQuiet⟩ := h.absent (Option.map_eq_none_iff.mp hCount.symm)
    exact ⟨hMessages.trans hEmpty, fun l => (hTurns l).trans (hQuiet l)⟩
  · intro hGone
    rw [hDeleted] at hGone
    rw [h.deleted hGone, Option.map_none] at hCount
    exact Option.map_eq_none_iff.mp hCount

theorem Inv.turned (h : Inv w) (hCall : t.call = Function.update w.call n pc)
    (hLen : t.calls.length = w.calls.length) (hThread : t.thread.isSome = w.thread.isSome)
    (hDeleted : t.deleted = w.deleted) (hOld : (w.call n).inTurn)
    (hOrdered : Ordered t.messages) (hAnswers : Answers t.messages)
    (hSent : ∀ m ∈ t.messages, m.send < w.calls.length) (hTurn : t.TurnOk n pc)
    (hNot : pc.deleting = false)
    (hCount : pc.inTurn = false → ∀ thread ∈ t.thread, thread.messageCount = t.messages.length) :
    Inv t := by
  have hOthers : ∀ m, m ≠ n → (w.call m).inTurn = false := by
    intro m hm
    by_contra hIn
    exact hm (h.alone m n (Bool.not_eq_false _ ▸ hIn) hOld)
  have hSome : w.thread ≠ none := by
    intro hNone
    rw [(h.absent hNone).2 n] at hOld
    cases hOld
  have hOnly : ∀ m, (t.call m).inTurn → m = n := by
    intro m hm
    by_contra hNe
    rw [hCall, Function.update_of_ne hNe, hOthers m hNe] at hm
    cases hm
  refine ⟨hOrdered, hAnswers, ?_, ?_, ?_, ?_, ?_, ?_, ?_⟩
  · rw [hLen]
    exact hSent
  · intro l m hl hm
    rw [hOnly l hl, hOnly m hm]
  · rw [hCall]
    exact (Function.forall_update_iff _ fun m pc => t.TurnOk m pc).mpr
      ⟨hTurn, fun m hm => turnOk_of_not (hOthers m hm)⟩
  · intro hNoTurn _
    apply hCount
    have hSelf := hNoTurn n
    rwa [hCall, Function.update_self] at hSelf
  · intro m hm
    by_cases hNe : m = n
    · rw [hNe, hCall, Function.update_self, hNot] at hm
      cases hm
    · rw [hCall, Function.update_of_ne hNe] at hm
      rw [(h.quiet m hm).2 n] at hOld
      cases hOld
  · intro hNone
    rw [hNone, Option.isSome_none] at hThread
    exact absurd (Option.isSome_eq_false_iff.mp hThread.symm) (by simpa using hSome)
  · intro hGone
    exact absurd (h.deleted (hDeleted ▸ hGone)) hSome

theorem Inv.begin (h : Inv w) (hTurn : pc.inTurn = false) (hDelete : pc.deleting = false) :
    Inv (w.begin pc) := by
  have hOld : w.call w.calls.length = .failed := List.getD_eq_default _ _ le_rfl
  have hLen : w.calls.length ≤ (w.begin pc).calls.length := by
    rw [World.begin, List.length_append]
    exact Nat.le_add_right _ _
  exact h.moved (call_begin pc) hLen rfl rfl rfl (hOld ▸ rfl) (hOld ▸ rfl) hTurn hDelete

theorem Inv.goto (h : Inv w) (hn : w.call n ≠ .failed) (hOld : (w.call n).inTurn = false)
    (hOldDelete : (w.call n).deleting = false) (hNew : pc.inTurn = false)
    (hNewDelete : pc.deleting = false) : Inv (w.goto n pc) :=
  h.moved (call_goto hn) (List.length_set ..).ge rfl rfl rfl hOld hOldDelete hNew hNewDelete

theorem Inv.search (h : Inv w) {s : Send} (hPc : w.call n = .sendSearch s)
    (hOk : w.CarefulAt a (.sendSearch s)) :
    ∃ order, (if a = .answered then listMessages w.messages 1000 else []).length = w.messages.length ∧
      nextOrder (if a = .answered then listMessages w.messages 1000 else []) = order ∧
      Inv (w.goto n (.userPut s w.messages.length order)) := by
  obtain ⟨hTurn, hDelete, hSome, hRead⟩ := hOk
  have hFound : (if a = .answered then listMessages w.messages 1000 else []) = w.messages := by
    rcases hRead with ⟨ha, hSize⟩ | hEmpty
    · rw [if_pos ha, h.ordered.listMessages hSize]
    · split
      · rw [h.ordered.listMessages]
        rw [hEmpty]
        exact Nat.zero_le _
      · exact hEmpty.symm
  refine ⟨nextOrder w.messages, by rw [hFound], by rw [hFound], ?_⟩
  have hn : w.call n ≠ .failed := by
    rw [hPc]
    exact nofun
  have hNone := noTurn_iff.mp hTurn
  have hCall : (w.goto n (.userPut s w.messages.length (nextOrder w.messages))).call = _ := call_goto hn
  refine ⟨h.ordered, h.answers, ?_, ?_, ?_, ?_, ?_, ?_, h.deleted⟩
  · intro m hm
    exact (List.length_set ..).symm ▸ h.sent m hm
  · have hOnly : ∀ m, ((w.goto n (.userPut s w.messages.length (nextOrder w.messages))).call m).inTurn →
        m = n := by
      intro m hm
      by_contra hNe
      rw [hCall, Function.update_of_ne hNe, hNone m] at hm
      cases hm
    intro l m hl hm
    rw [hOnly l hl, hOnly m hm]
  · intro m
    rw [hCall]
    by_cases hm : m = n
    · rw [hm, Function.update_self]
      exact ⟨rfl, fun m hm => h.ordered.lt_nextOrder hm⟩
    · rw [Function.update_of_ne hm]
      exact turnOk_of_not (hNone m)
  · intro hNoTurn
    have hSelf := hNoTurn n
    rw [hCall, Function.update_self] at hSelf
    cases hSelf
  · intro m hm
    rw [hCall] at hm
    by_cases hNe : m = n
    · rw [hNe, Function.update_self] at hm
      cases hm
    · rw [Function.update_of_ne hNe, noDelete_iff.mp hDelete m] at hm
      cases hm
  · intro hNo
    have hThread : w.thread = none := hNo
    rw [hThread] at hSome
    cases hSome

theorem save_carried (m : Message) (ha : a ≠ .refused) :
    w.save m a = { w with messages := w.messages ++ [m] } := if_neg ha

theorem update_carried (change : Thread → Thread) (ha : a ≠ .refused) :
    w.update change a = { w with thread := w.thread.map change } := if_neg ha

theorem sent_append {m : Message} (h : ∀ x ∈ w.messages, x.send < w.calls.length)
    (hm : m.send < w.calls.length) : ∀ x ∈ w.messages ++ [m], x.send < w.calls.length := by
  intro x hx
  rcases List.mem_append.mp hx with hBefore | hHere
  · exact h x hBefore
  · rw [List.mem_singleton.mp hHere]
    exact hm

theorem Inv.userPut (h : Inv w) {s : Send} {prior order : Nat}
    (hPc : w.call n = .userPut s prior order) (ha : a ≠ .refused) :
    Inv ((w.save ⟨n, .user, order, s.content⟩ a).goto n (.answering s prior order)) := by
  have hn : w.call n ≠ .failed := by
    rw [hPc]
    exact nofun
  have hTurn := h.turn n
  rw [hPc] at hTurn
  obtain ⟨hLength, hBelow⟩ := hTurn
  rw [save_carried _ ha]
  refine h.turned (call_goto (w := { w with messages := _ }) hn) (List.length_set ..) rfl rfl
    (hPc ▸ rfl) (h.ordered.append hBelow) (h.answers.append nofun)
    (sent_append h.sent (Calls.lt_of_ne hn)) ?_ rfl nofun
  refine ⟨?_, ?_, ⟨n, .user, order, s.content⟩, ?_, rfl, rfl, rfl⟩
  · exact (List.length_append ..).trans (congrArg (· + 1) hLength)
  · intro m hm
    rcases List.mem_append.mp hm with hBefore | hHere
    · exact Nat.le_of_lt (hBelow m hBefore)
    · rw [List.mem_singleton.mp hHere]
  · exact List.mem_append_right _ (List.mem_singleton_self _)

theorem Inv.assistantPut (h : Inv w) {s : Send} {prior order : Nat} {text : Text}
    (hPc : w.call n = .assistantPut s prior order text) (ha : a ≠ .refused) :
    Inv ((w.save ⟨n, .assistant, order + 1, text⟩ a).goto n
      (.countUpdate (some s.model) (prior + 2) true)) := by
  have hn : w.call n ≠ .failed := by
    rw [hPc]
    exact nofun
  have hTurn := h.turn n
  rw [hPc] at hTurn
  obtain ⟨hLength, hBelow, u, hu, hSend, hRole, hOrder⟩ := hTurn
  rw [save_carried _ ha]
  refine h.turned (call_goto (w := { w with messages := _ }) hn) (List.length_set ..) rfl rfl
    (hPc ▸ rfl) (h.ordered.append fun m hm => Nat.lt_succ_of_le (hBelow m hm)) (h.answers.append ?_)
    (sent_append h.sent (Calls.lt_of_ne hn)) ?_ rfl nofun
  · intro _
    exact ⟨u, hu, hSend, hRole, congrArg (· + 1) hOrder.symm⟩
  · exact (List.length_append ..).trans (congrArg (· + 1) hLength)

theorem Inv.countUpdate (h : Inv w) {model : Option Text} {count : Nat} {ok : Bool}
    (hPc : w.call n = .countUpdate model count ok) (hNew : pc.ended) {change : Thread → Thread}
    (hChange : ∀ t, (change t).messageCount = count) (ha : a ≠ .refused) :
    Inv ((w.update change a).goto n pc) := by
  have hn : w.call n ≠ .failed := by
    rw [hPc]
    exact nofun
  have hTurn := h.turn n
  rw [hPc] at hTurn
  have hIdle : pc.inTurn = false ∧ pc.deleting = false := by
    cases pc with
    | done | failed => exact ⟨rfl, rfl⟩
    | _ => cases hNew
  rw [update_carried _ ha]
  refine h.turned (call_goto (w := { w with thread := _ }) hn) (List.length_set ..)
    Option.isSome_map rfl (hPc ▸ rfl) h.ordered h.answers h.sent (turnOk_of_not hIdle.1) hIdle.2 ?_
  intro _ thread hThread
  obtain ⟨old, -, rfl⟩ := Option.map_eq_some_iff.mp hThread
  exact (hChange old).trans hTurn.symm

theorem Inv.deleteMessages (h : Inv w) (hPc : w.call n = .deleteMessages) (hTurn : w.NoTurn) :
    Inv { w.goto n .deleteThread with messages := [] } := by
  have hn : w.call n ≠ .failed := by
    rw [hPc]
    exact nofun
  have hCall : ({ w.goto n .deleteThread with messages := [] } : World).call =
      Function.update w.call n .deleteThread := call_goto hn
  have hTurns : ∀ m, (({ w.goto n .deleteThread with messages := [] } : World).call m).inTurn = false := by
    rw [hCall]
    exact (Function.forall_update_iff _ fun _ (pc : Pc) => pc.inTurn = false).mpr
      ⟨rfl, fun m _ => noTurn_iff.mp hTurn m⟩
  refine ⟨List.Pairwise.nil, nofun, nofun, ?_, ?_, ?_, ?_, ?_, h.deleted⟩
  · intro l m hl
    rw [hTurns l] at hl
    cases hl
  · intro m
    exact turnOk_of_not (hTurns m)
  · intro _ hNo
    have hSelf := hNo n
    rw [hCall, Function.update_self] at hSelf
    cases hSelf
  · intro _ _
    exact ⟨rfl, hTurns⟩
  · intro _
    exact ⟨rfl, hTurns⟩

theorem Inv.deleteThread (h : Inv w) (hPc : w.call n = .deleteThread) :
    Inv { w.goto n .done with thread := none, deleted := true } := by
  have hn : w.call n ≠ .failed := by
    rw [hPc]
    exact nofun
  obtain ⟨hEmpty, hQuiet⟩ := h.quiet n (hPc ▸ rfl)
  have hCall : ({ w.goto n .done with thread := none, deleted := true } : World).call =
      Function.update w.call n .done := call_goto hn
  have hTurns : ∀ m,
      (({ w.goto n .done with thread := none, deleted := true } : World).call m).inTurn = false := by
    rw [hCall]
    exact (Function.forall_update_iff _ fun _ (pc : Pc) => pc.inTurn = false).mpr
      ⟨rfl, fun m _ => hQuiet m⟩
  refine ⟨h.ordered, h.answers, ?_, ?_, ?_, nofun, ?_, ?_, fun _ => rfl⟩
  · intro m hm
    exact (List.length_set ..).symm ▸ h.sent m hm
  · intro l m hl
    rw [hTurns l] at hl
    cases hl
  · intro m
    exact turnOk_of_not (hTurns m)
  · intro _ _
    exact ⟨hEmpty, hTurns⟩
  · intro _
    exact ⟨hEmpty, hTurns⟩

theorem Inv.request (h : Inv w) (hOk : w.CarefulAt a (w.call n))
    (hs : w.request n a now = some t) : Inv t := by
  have hn : w.call n ≠ .failed := by
    intro hFailed
    rw [World.request, hFailed] at hs
    cases hs
  cases hPc : w.call n with
  | sendSearch s =>
    rw [hPc] at hOk
    obtain ⟨order, hLength, hOrder, hInv⟩ := h.search hPc hOk
    rw [World.request, hPc] at hs
    simp only [hLength, hOrder] at hs
    exact Option.some.inj hs ▸ hInv
  | userPut s prior order =>
    rw [hPc] at hOk
    rw [World.request, hPc] at hs
    exact Option.some.inj hs ▸ h.userPut hPc hOk
  | assistantPut s prior order text =>
    rw [hPc] at hOk
    rw [World.request, hPc] at hs
    exact Option.some.inj hs ▸ h.assistantPut hPc hOk
  | countUpdate model count ok =>
    rw [hPc] at hOk
    rw [World.request, hPc] at hs
    refine Option.some.inj hs ▸ h.countUpdate hPc ?_ (fun _ => rfl) hOk
    cases ok <;> rfl
  | renameUpdate title model =>
    rw [World.request, hPc] at hs
    obtain rfl := Option.some.inj hs
    have hOld : (w.call n).inTurn = false := hPc ▸ rfl
    have hOldDelete : (w.call n).deleting = false := hPc ▸ rfl
    have hMoved : ∀ pc : Pc, pc.inTurn = false → pc.deleting = false →
        Inv ((w.update (fun t => { t with
          title := title
          updatedAt := now
          model := if model = [] then t.model else model }) a).goto n pc) := by
      intro pc hNew hNewDelete
      rw [World.update]
      split
      · exact h.goto hn hOld hOldDelete hNew hNewDelete
      · refine h.moved (call_goto (w := { w with thread := _ }) hn) (List.length_set ..).ge rfl ?_ rfl
          hOld hOldDelete hNew hNewDelete
        exact Option.map_map ..
    apply hMoved
    · split <;> rfl
    · split <;> rfl
  | deleteMessages =>
    rw [hPc] at hOk
    rw [World.request, hPc] at hs
    simp only [if_neg hOk.1] at hs
    exact Option.some.inj hs ▸ h.deleteMessages hPc hOk.2
  | deleteThread =>
    rw [hPc] at hOk
    rw [World.request, hPc] at hs
    simp only [if_neg (show a ≠ .refused from hOk)] at hs
    exact Option.some.inj hs ▸ h.deleteThread hPc
  | sendGet s | renameGet owner title model | listGet owner | deleteGet owner =>
    rw [World.request, hPc] at hs
    refine Option.some.inj hs ▸ h.goto hn (hPc ▸ rfl) (hPc ▸ rfl) ?_ ?_
    · split <;> rfl
    · split <;> rfl
  | listSearch =>
    rw [World.request, hPc] at hs
    exact Option.some.inj hs ▸ h.goto hn (hPc ▸ rfl) (hPc ▸ rfl) rfl rfl
  | answering | done | failed =>
    rw [World.request, hPc] at hs
    cases hs

theorem Inv.reply (h : Inv w) {text : Option Text} (hOk : w.Careful (.reply n text))
    (hs : w.step (.reply n text) = some t) : Inv t := by
  simp only [World.step] at hs
  split at hs
  next s prior order text hPc =>
    have hTurn := h.turn n
    rw [hPc] at hTurn
    have hn : w.call n ≠ .failed := by
      rw [hPc]
      exact nofun
    exact Option.some.inj hs ▸ h.turned (call_goto hn) (List.length_set ..) rfl rfl (hPc ▸ rfl)
      h.ordered h.answers h.sent hTurn rfl nofun
  next s prior order hPc =>
    have hTurn := h.turn n
    rw [hPc] at hTurn
    have hn : w.call n ≠ .failed := by
      rw [hPc]
      exact nofun
    have hStream : streams (w.call n) = false := hOk rfl
    rw [hPc] at hStream
    simp only [show s.stream = false from hStream] at hs
    exact Option.some.inj hs ▸ h.turned (call_goto hn) (List.length_set ..) rfl rfl (hPc ▸ rfl)
      h.ordered h.answers h.sent hTurn.1 rfl nofun
  · cases hs

theorem Inv.step (h : Inv w) {act : Act} (hOk : w.Careful act) (hs : w.step act = some t) :
    Inv t := by
  cases act with
  | send s =>
    obtain rfl := Option.some.inj hs
    split
    · exact h.begin rfl rfl
    · exact h.begin rfl rfl
  | rename owner title model =>
    obtain rfl := Option.some.inj hs
    split
    · exact h.begin rfl rfl
    · exact h.begin rfl rfl
  | list owner => exact Option.some.inj hs ▸ h.begin rfl rfl
  | delete owner => exact Option.some.inj hs ▸ h.begin rfl rfl
  | request n a now => exact h.request hOk hs
  | reply n text => exact h.reply hOk hs

/-! ## Runs -/

theorem inv_created (owner title model now : Text) : Inv (created owner title model now) := by
  have hCall : ∀ n, (created owner title model now).call n = .failed := fun _ => rfl
  refine ⟨List.Pairwise.nil, nofun, nofun, ?_, fun _ => trivial, ?_, ?_, nofun, nofun⟩
  · intro n m hn
    cases hn
  · intro _ _ t ht
    obtain rfl := Option.some.inj ht
    rfl
  · intro n hn
    cases hn

structure Requested (w : World) (n : Nat) (t : World) : Prop where
  running : (w.call n).ended = false
  length : t.calls.length = w.calls.length
  others : ∀ m, m ≠ n → t.call m = w.call m
  deleted : w.deleted → t.deleted
  messages : t.messages = w.messages ∨ t.messages = [] ∨
    ∃ m : Message, m.send = n ∧ t.messages = w.messages ++ [m]

theorem Requested.goto (hEnded : (w.call n).ended = false) {u : World} (hCalls : u.calls = w.calls)
    (hDeleted : w.deleted → u.deleted) (hMessages : u.messages = w.messages ∨ u.messages = [] ∨
      ∃ m : Message, m.send = n ∧ u.messages = w.messages ++ [m]) :
    Requested w n (u.goto n pc) where
  running := hEnded
  length := (List.length_set ..).trans (congrArg _ hCalls)
  others m hm := by
    have hSame : u.call m = w.call m := by rw [call, call, hCalls]
    rw [← hSame]
    simp [call, World.goto, Ne.symm hm]
  deleted := hDeleted
  messages := hMessages

theorem save_messages (new : Message) (hNew : new.send = n) :
    (w.save new a).messages = w.messages ∨ (w.save new a).messages = [] ∨
      ∃ m : Message, m.send = n ∧ (w.save new a).messages = w.messages ++ [m] := by
  rw [World.save]
  split
  · exact .inl rfl
  · exact .inr (.inr ⟨new, hNew, rfl⟩)

theorem requested (hs : w.request n a now = some t) : Requested w n t := by
  cases hPc : w.call n with
  | userPut s prior order =>
    rw [World.request, hPc] at hs
    refine Option.some.inj hs ▸ .goto (hPc ▸ rfl) ?_ ?_ (save_messages _ rfl)
    · rw [World.save]
      split <;> rfl
    · rw [World.save]
      split <;> exact id
  | assistantPut s prior order text =>
    rw [World.request, hPc] at hs
    refine Option.some.inj hs ▸ .goto (hPc ▸ rfl) ?_ ?_ (save_messages _ rfl)
    · rw [World.save]
      split <;> rfl
    · rw [World.save]
      split <;> exact id
  | countUpdate | renameUpdate =>
    rw [World.request, hPc] at hs
    refine Option.some.inj hs ▸ .goto (hPc ▸ rfl) ?_ ?_ (.inl ?_)
    · rw [World.update]
      split <;> rfl
    · rw [World.update]
      split <;> exact id
    · rw [World.update]
      split <;> rfl
  | deleteMessages =>
    rw [World.request, hPc] at hs
    obtain rfl := Option.some.inj hs
    have hGoto : Requested w n
        (World.goto { w with messages := if a = .refused then w.messages else [] } n .deleteThread) := by
      refine .goto (hPc ▸ rfl) rfl id ?_
      simp only
      split
      · exact .inl rfl
      · exact .inr (.inl rfl)
    exact hGoto
  | deleteThread =>
    rw [World.request, hPc] at hs
    obtain rfl := Option.some.inj hs
    have hGoto : Requested w n
        (World.goto { w with thread := if a = .refused then w.thread else none, deleted := true } n
          .done) := .goto (hPc ▸ rfl) rfl (fun _ => rfl) (.inl rfl)
    exact hGoto
  | sendGet | sendSearch | renameGet | listGet | listSearch | deleteGet =>
    rw [World.request, hPc] at hs
    exact Option.some.inj hs ▸ .goto (hPc ▸ rfl) rfl id (.inl rfl)
  | answering | done | failed =>
    rw [World.request, hPc] at hs
    cases hs

theorem replied {text : Option Text} (hs : w.step (.reply n text) = some t) : Requested w n t := by
  simp only [World.step] at hs
  split at hs
  next hPc => exact Option.some.inj hs ▸ .goto (hPc ▸ rfl) rfl id (.inl rfl)
  next hPc => exact Option.some.inj hs ▸ .goto (hPc ▸ rfl) rfl id (.inl rfl)
  · cases hs

theorem step_cases {act : Act} (hs : w.step act = some t) :
    (∃ n, Requested w n t) ∨ ∃ pc, t = w.begin pc := by
  cases act with
  | send s => exact .inr ⟨_, (Option.some.inj hs).symm⟩
  | rename owner title model => exact .inr ⟨_, (Option.some.inj hs).symm⟩
  | list owner => exact .inr ⟨_, (Option.some.inj hs).symm⟩
  | delete owner => exact .inr ⟨_, (Option.some.inj hs).symm⟩
  | request n a now => exact .inl ⟨n, requested hs⟩
  | reply n text => exact .inl ⟨n, replied hs⟩

/-- A send has ended, and what another has saved comes behind its messages. -/
structure Behind (m n : Nat) (w : World) : Prop where
  begun : m < w.calls.length
  ended : (w.call m).ended
  order : ∀ x ∈ w.messages, ∀ y ∈ w.messages, x.send = m → y.send = n → x.order < y.order

theorem Behind.step {m n : Nat} (h : Behind m n w) (hOrdered : Ordered t.messages) {act : Act}
    (hs : w.step act = some t) : Behind m n t := by
  rcases step_cases hs with ⟨k, hStep⟩ | ⟨pc, rfl⟩
  · have hNe : m ≠ k := by
      rintro rfl
      have hRunning := hStep.running
      rw [h.ended] at hRunning
      cases hRunning
    refine ⟨hStep.length ▸ h.begun, hStep.others m hNe ▸ h.ended, ?_⟩
    rcases hStep.messages with hSame | hNone | ⟨new, hNew, hAppend⟩
    · rw [hSame]
      exact h.order
    · rw [hNone]
      exact nofun
    · rw [hAppend] at hOrdered ⊢
      intro x hx y hy hxm hyn
      have hBefore : x ∈ w.messages := by
        rcases List.mem_append.mp hx with hBefore | hHere
        · exact hBefore
        · rw [List.mem_singleton.mp hHere, hNew] at hxm
          exact absurd hxm.symm hNe
      rcases List.mem_append.mp hy with hyBefore | hyHere
      · exact h.order x hBefore y hyBefore hxm hyn
      · exact (List.pairwise_append.mp hOrdered).2.2 x hBefore y hyHere
  · refine ⟨?_, ?_, h.order⟩
    · rw [World.begin, List.length_append]
      exact Nat.lt_add_right _ h.begun
    · rw [call_begin, Function.update_of_ne (Nat.ne_of_lt h.begun)]
      exact h.ended

theorem deleted_step {act : Act} (hs : w.step act = some t) (hDeleted : w.deleted) : t.deleted := by
  rcases step_cases hs with ⟨n, hStep⟩ | ⟨pc, rfl⟩
  · exact hStep.deleted hDeleted
  · exact hDeleted

/-- Order numbers are distinct, an answer stands right behind its question, later sends stand
behind earlier ones, the count is right where no turn and no delete is half done, and what is
deleted stays so. -/
theorem one_ordered_log {owner title model now : Text}
    (h : Reach step Careful (created owner title model now) w) :
    w.messages.Pairwise (fun x y => x.order ≠ y.order) ∧
    (∀ m ∈ w.messages, m.role = .assistant →
      ∃ u ∈ w.messages, u.send = m.send ∧ u.role = .user ∧ m.order = u.order + 1) ∧
    (∀ m n t, m < w.calls.length → (w.call m).ended = true → w.calls.length ≤ n →
      Reach step Careful w t → ∀ x ∈ t.messages, ∀ y ∈ t.messages, x.send = m → y.send = n →
        x.order < y.order) ∧
    ((∀ n, (w.call n).inTurn = false) → ∀ d ∈ w.thread, d.messageCount = w.messages.length ∨
      ((∃ n, (w.call n).deleting = true) ∧ w.messages = [])) ∧
    (w.deleted = true → ∀ t, Reach step Careful w t → t.thread = none ∧ t.messages = []) := by
  have hReach : ∀ t, Reach step Careful (created owner title model now) t → Inv t := fun t ht =>
    ht.invariant (inv_created owner title model now) fun _ _ _ _ hInv hOk hs => hInv.step hOk hs
  have hInv := hReach w h
  refine ⟨hInv.ordered.imp fun hLt => Nat.ne_of_lt hLt, hInv.answers, ?_, ?_, ?_⟩
  · intro m n t hm hEnded hn hLater
    have hStart : Behind m n w := by
      refine ⟨hm, hEnded, ?_⟩
      rintro x hx y hy - rfl
      exact absurd (hInv.sent y hy) (Nat.not_lt.mpr hn)
    have hBehind : Behind m n t := by
      induction hLater with
      | refl => exact hStart
      | tail hBefore hOk hs ih =>
        have hNext := hReach _ ((h.trans hBefore).tail hOk hs)
        exact ih.step hNext.ordered hs
    exact hBehind.order
  · intro hNoTurn d hd
    by_cases hDelete : ∃ n, (w.call n).deleting = true
    · obtain ⟨n, hn⟩ := hDelete
      exact .inr ⟨⟨n, hn⟩, (hInv.quiet n hn).1⟩
    · left
      apply hInv.count hNoTurn _ d hd
      intro n
      by_contra hn
      exact hDelete ⟨n, Bool.not_eq_false _ ▸ hn⟩
  · intro hDeleted t hLater
    have hStill : t.deleted := by
      induction hLater with
      | refl => exact hDeleted
      | tail _ _ hs ih => exact deleted_step hs ih
    have hGone := (hReach t (h.trans hLater)).deleted hStill
    exact ⟨hGone, ((hReach t (h.trans hLater)).absent hGone).1⟩

/-! ## Two sends -/

def hello : Send := ⟨['u'], ['h'], [], true⟩

def answered (n : Nat) : Act := .request n .answered []

/-- One send after the other. -/
def turnRun (n : Nat) : List Act :=
  [.send hello, answered n, answered n, answered n, .reply n (some ['r']), answered n, answered n]

theorem two_turns :
    ∃ w, run step (created ['u'] [] [] []) (turnRun 0 ++ turnRun 1) = some w ∧
      w.messages.length = 4 ∧ w.messages.Pairwise (fun x y => x.order ≠ y.order) := by
  obtain ⟨w, hRun, hw⟩ := exists_run_of_any step (created ['u'] [] [] []) (turnRun 0 ++ turnRun 1)
    (fun w => w.messages.length = 4) (by decide)
  have hOk : Along step Careful (created ['u'] [] [] []) (turnRun 0 ++ turnRun 1) := by
    decide
  exact ⟨w, hRun, of_decide_eq_true hw, (one_ordered_log (Reach.of_run hRun hOk)).1⟩

/-- The second send searches while the first is being answered. -/
def overlapRun : List Act :=
  [.send hello, answered 0, answered 0, answered 0, .send hello, answered 1, answered 1, answered 1,
    .reply 0 (some ['r']), answered 0, answered 0]

theorem order_twice :
    ∃ w, run step (created ['u'] [] [] []) overlapRun = some w ∧
      ∃ x ∈ w.messages, ∃ y ∈ w.messages, x ≠ y ∧ x.order = y.order := by
  obtain ⟨w, hRun, hw⟩ := exists_run_of_any step (created ['u'] [] [] []) overlapRun
    (fun w => decide (∃ x ∈ w.messages, ∃ y ∈ w.messages, x ≠ y ∧ x.order = y.order))
    (by decide)
  exact ⟨w, hRun, of_decide_eq_true hw⟩

end World

end OpenSpoke.Chat
