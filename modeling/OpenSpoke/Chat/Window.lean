import Mathlib.Data.List.DropRight
import Mathlib.Data.List.Perm.Basic
import Mathlib.Data.List.Sort
import OpenSpoke.Chat.Thread

/-!
# The window of a turn

The model is sent the last stored messages and the new one. The search for the stored ones
begins at the oldest and ends after a thousand.
-/

namespace OpenSpoke.Chat.Window

open Python (Text strip)

def slidingWindowSize : ℕ := 20

/-- What is read of a stored message. -/
structure Stored where
  threadId : Text
  owner : Text
  order : ℕ
  -- none if it is neither user nor assistant
  role : Option Role
  content : Text
  deriving DecidableEq

structure ApiMessage where
  role : Role
  content : Text
  deriving DecidableEq

structure Request where
  owner : Text
  threadId : Text
  content : Text
  model : Text
  autoRoute : Bool
  enableInjection : Option Bool

structure Context (μ : Type*) where
  owner : Text
  threadId : Text
  content : Text
  model : Text
  prior : List Stored
  nextOrder : ℕ
  apiMessages : List ApiMessage
  systemPrompt : Text
  injectedTopics : List μ

inductive Refusal
  | noThreadId
  | noContent
  | notFound
  | denied
  deriving DecidableEq

def Refusal.text : Refusal → String
  | noThreadId => "thread_id is required"
  | noContent => "content is required"
  | notFound => "thread not found"
  | denied => "permission denied"

/-- The choice of a model by Jev, and the system prompt with the topics that are injected. -/
structure Backend (μ : Type*) where
  chooseModel : Text → Text
  buildSystemPrompt : Text → Text → Text × List μ

def defaultModel : Text := "claude-sonnet-4-6".toList
def jevGemma2 : Text := "jev-gemma2".toList

def getOwner (r : Request) : Text :=
  if strip r.owner = [] then "anonymous".toList else strip r.owner

/-- `_list_messages`; nothing if the search is not answered. -/
def listMessages (index : List Stored) (answered : Bool) (threadId : Text) (size : ℕ) :
    List Stored :=
  if answered then
    ((index.filter (·.threadId = threadId)).insertionSort fun m n => m.order ≤ n.order).take size
  else []

def nextOrder (prior : List Stored) : ℕ :=
  match prior.getLast? with
  | some m => m.order + 1
  | none => 0

def apiMessage (m : Stored) : Option ApiMessage :=
  match m.role with
  | some role => if m.content ≠ [] then some ⟨role, m.content⟩ else none
  | none => none

/-- The stored messages that are sent along. -/
def window (prior : List Stored) : List Stored :=
  let windowSize := max (slidingWindowSize - 1) 0
  if 0 < windowSize then prior.rtake windowSize else []

section

variable {μ : Type*} (b : Backend μ)

def chosenModel (r : Request) : Text :=
  let model := if r.model = [] then defaultModel else r.model
  if r.autoRoute ∧ model ≠ jevGemma2 then b.chooseModel r.content else model

/-- `_prepare_send`: the context and the message that is put; the thread is given by the
owner of the document that is found. -/
def prepareSend (r : Request) (thread : Option Text) (index : List Stored) (answered : Bool) :
    Except Refusal (Context μ × Stored) :=
  if r.threadId = [] then .error .noThreadId
  else if strip r.content = [] then .error .noContent
  else match thread with
    | none => .error .notFound
    | some owner =>
      if owner ≠ getOwner r then .error .denied
      else
        let prior := listMessages index answered r.threadId 1000
        let prompt :=
          if r.enableInjection.getD true then b.buildSystemPrompt r.content (getOwner r)
          else ([], [])
        .ok (⟨getOwner r, r.threadId, r.content, chosenModel b r, prior, nextOrder prior,
            (window prior).filterMap apiMessage ++ [⟨.user, r.content⟩], prompt.1, prompt.2⟩,
          ⟨r.threadId, getOwner r, nextOrder prior, some .user, r.content⟩)

/-- A request about a thread of its owner. -/
structure Accepted (r : Request) (thread : Option Text) : Prop where
  threadId : r.threadId ≠ []
  content : strip r.content ≠ []
  owner : thread = some (getOwner r)

theorem prepareSend_accepted {r : Request} {thread : Option Text} (h : Accepted r thread)
    (index : List Stored) (answered : Bool) :
    ∃ ctx saved, prepareSend b r thread index answered = .ok (ctx, saved) ∧
      ctx.prior = listMessages index answered r.threadId 1000 ∧
      ctx.apiMessages = (window ctx.prior).filterMap apiMessage ++ [⟨.user, r.content⟩] ∧
      saved = ⟨r.threadId, getOwner r, nextOrder ctx.prior, some .user, r.content⟩ := by
  unfold prepareSend
  rw [if_neg h.threadId, if_neg h.content, h.owner]
  exact ⟨_, _, if_neg fun hNe => hNe rfl, rfl, rfl, rfl⟩

end

/-! ## The log of a thread -/

/-- The messages of a thread, with the orders from zero on. -/
structure Log (index : List Stored) (threadId : Text) (messages : List Stored) : Prop where
  all : (index.filter (·.threadId = threadId)).Perm messages
  orders : messages.map Stored.order = List.range messages.length

theorem Log.listMessages {index : List Stored} {threadId : Text} {messages : List Stored}
    (h : Log index threadId messages) (size : ℕ) :
    listMessages index true threadId size = messages.take size := by
  have hLt : messages.Pairwise fun m n => m.order < n.order := by
    rw [← List.pairwise_map (f := Stored.order), h.orders]
    exact List.pairwise_lt_range
  have hUnique : ∀ m n, m ∈ messages → n ∈ messages → m.order ≤ n.order → n.order ≤ m.order →
      m = n := by
    intro m n hm hn hmn hnm
    have hNodup : (messages.map Stored.order).Nodup := h.orders ▸ List.nodup_range
    exact List.inj_on_of_nodup_map hNodup hm hn (Nat.le_antisymm hmn hnm)
  have hSorted : (index.filter (·.threadId = threadId)).insertionSort
      (fun m n => m.order ≤ n.order) = messages := by
    have hPerm := (List.perm_insertionSort (fun m n : Stored => m.order ≤ n.order)
      (index.filter (·.threadId = threadId))).trans h.all
    refine hPerm.eq_of_pairwise ?_ (List.pairwise_insertionSort _ _) (hLt.imp Nat.le_of_lt)
    exact fun m n hm hn => hUnique m n (hPerm.subset hm) hn
  rw [Window.listMessages, if_pos rfl, hSorted]

theorem Log.nextOrder {index : List Stored} {threadId : Text} {messages : List Stored}
    (h : Log index threadId messages) (size : ℕ) :
    nextOrder (messages.take size) = min size messages.length := by
  have hOrders : (messages.take size).map Stored.order = List.range (min size messages.length) := by
    rw [List.map_take, h.orders, List.take_range]
  cases hLast : (messages.take size).getLast? with
  | none =>
    have hNil := List.getLast?_eq_none_iff.mp hLast
    rw [hNil] at hOrders
    have hLen := congrArg List.length hOrders
    rw [List.length_range] at hLen
    rw [hNil, ← hLen]
    rfl
  | some m =>
    have hMap := congrArg List.getLast? hOrders
    rw [List.getLast?_map, hLast, List.getLast?_range] at hMap
    rw [Window.nextOrder, hLast]
    split at hMap
    · cases hMap
    · have hOrder := Option.some_inj.mp hMap
      dsimp only at hOrder ⊢
      omega

/-! ## Dialogues -/

structure Dialogue (messages : List ApiMessage) : Prop where
  first : messages.head?.map ApiMessage.role = some .user
  alternates : messages.IsChain fun m n => m.role ≠ n.role

/-- Each question with its answer right behind it. -/
def WholeTurns : List ApiMessage → Prop
  | [] => True
  | [_] => False
  | u :: a :: rest => u.role = .user ∧ a.role = .assistant ∧ WholeTurns rest

theorem roles_differ_iff {role other : Role} (h : role = .user) :
    role ≠ other ↔ other = .assistant := by
  subst h
  cases other <;> decide

theorem dialogue_turn {u a v : ApiMessage} {rest : List ApiMessage} :
    Dialogue (u :: a :: v :: rest) ↔
      u.role = .user ∧ a.role = .assistant ∧ Dialogue (v :: rest) := by
  constructor
  · rintro ⟨hFirst, hChain⟩
    obtain ⟨hAnswer, hChain⟩ := List.isChain_cons_cons.mp hChain
    obtain ⟨hNext, hRest⟩ := List.isChain_cons_cons.mp hChain
    have hUser : u.role = .user := Option.some_inj.mp hFirst
    have hAssistant := (roles_differ_iff hUser).mp hAnswer
    refine ⟨hUser, hAssistant, congrArg some ?_, hRest⟩
    rw [hAssistant] at hNext
    cases hv : v.role with
    | user => rfl
    | assistant => exact absurd hv.symm hNext
  · rintro ⟨hUser, hAssistant, hFirst, hRest⟩
    have hv : v.role = .user := Option.some_inj.mp hFirst
    have hAnswer := (roles_differ_iff hUser).mpr hAssistant
    refine ⟨congrArg some hUser, List.isChain_cons_cons.mpr ⟨hAnswer, ?_⟩⟩
    exact List.isChain_cons_cons.mpr ⟨((roles_differ_iff hv).mpr hAssistant).symm, hRest⟩

/-- By induction on the turns. -/
theorem dialogue_concat_iff (messages : List ApiMessage) (content : Text) :
    Dialogue (messages ++ [⟨.user, content⟩]) ↔ WholeTurns messages := by
  induction messages using WholeTurns.induct with
  | case1 => exact ⟨fun _ => trivial, fun _ => ⟨rfl, .singleton _⟩⟩
  | case2 m =>
    constructor
    · rintro ⟨hFirst, hChain⟩
      obtain ⟨hNe, -⟩ := List.isChain_cons_cons.mp hChain
      exact hNe (Option.some_inj.mp hFirst)
    · exact False.elim
  | case3 u a rest ih =>
    rw [WholeTurns, ← ih, List.cons_append, List.cons_append]
    cases rest with
    | nil => exact dialogue_turn
    | cons v rest => exact dialogue_turn

/-! ## The latest window -/

structure LatestWindow {μ : Type*} (messages : List Stored) (r : Request) (ctx : Context μ)
    (saved : Stored) : Prop where
  sent : ctx.apiMessages =
    (messages.rtake (slidingWindowSize - 1)).filterMap apiMessage ++ [⟨.user, r.content⟩]
  dialogue : Dialogue ctx.apiMessages
  saved : saved = ⟨r.threadId, getOwner r, messages.length, some .user, r.content⟩

theorem latest_window_iff {μ : Type*} (b : Backend μ) {r : Request} {thread : Option Text}
    (hAccepted : Accepted r thread) {index messages : List Stored}
    (hLog : Log index r.threadId messages) :
    ∃ ctx saved, prepareSend b r thread index true = .ok (ctx, saved) ∧
      (LatestWindow messages r ctx saved ↔ messages.length ≤ 1000 ∧
        WholeTurns ((messages.rtake (slidingWindowSize - 1)).filterMap apiMessage)) := by
  obtain ⟨ctx, saved, hOk, hPrior, hApi, hSaved⟩ := prepareSend_accepted b hAccepted index true
  rw [hLog.listMessages] at hPrior
  rw [hPrior] at hApi hSaved
  rw [hLog.nextOrder] at hSaved
  refine ⟨ctx, saved, hOk, ?_⟩
  constructor
  · rintro ⟨hSent, hDialogue, hSaved'⟩
    constructor
    · have hOrder : min 1000 messages.length = messages.length := by
        rw [hSaved'] at hSaved
        exact (Stored.mk.inj hSaved).2.2.1.symm
      omega
    · rw [hSent] at hDialogue
      exact (dialogue_concat_iff _ _).mp hDialogue
  · rintro ⟨hLen, hTurns⟩
    have hSent : ctx.apiMessages =
        (messages.rtake (slidingWindowSize - 1)).filterMap apiMessage ++ [⟨.user, r.content⟩] := by
      rw [hApi, List.take_of_length_le hLen]
      rfl
    refine ⟨hSent, ?_, ?_⟩
    · rw [hSent]
      exact (dialogue_concat_iff _ _).mpr hTurns
    · rw [hSaved, Nat.min_eq_right hLen]

/-- A turn that has its answer, in a thread of its owner. -/
theorem latest_window_one_turn :
    let r : Request := ⟨['o'], ['t'], ['n'], [], false, none⟩
    let turn : List Stored :=
      [⟨['t'], ['o'], 0, some .user, ['q']⟩, ⟨['t'], ['o'], 1, some .assistant, ['a']⟩]
    ∃ ctx saved, prepareSend (⟨id, fun _ _ => ([], [])⟩ : Backend Unit) r (some ['o']) turn true =
        .ok (ctx, saved) ∧
      (LatestWindow turn r ctx saved ↔ turn.length ≤ 1000 ∧
        WholeTurns ((turn.rtake (slidingWindowSize - 1)).filterMap apiMessage)) :=
  latest_window_iff _ ⟨by decide, by decide, by decide⟩ ⟨.refl _, by decide⟩

/-- The search gives the first thousand messages of a thread with one more: the last turn of
it is not sent, and the new message is stored under a number that is there already. -/
theorem order_again :
    let r : Request := ⟨['o'], ['t'], ['n'], [], false, none⟩
    let messages : List Stored := (List.range 1001).map fun i =>
      ⟨['t'], ['o'], i, some (if i % 2 = 0 then .user else .assistant), ['m']⟩
    ∀ ctx saved, prepareSend (⟨id, fun _ _ => ([], [])⟩ : Backend Unit) r (some ['o']) messages
        true = .ok (ctx, saved) → saved.order = 1000 ∧ ¬LatestWindow messages r ctx saved := by
  intro r messages ctx saved hOk
  have hLength : messages.length = 1001 := by rw [List.length_map, List.length_range]
  have hLog : Log messages r.threadId messages := by
    refine ⟨?_, ?_⟩
    · rw [List.filter_eq_self.mpr]
      intro m hm
      obtain ⟨i, -, rfl⟩ := List.mem_map.mp hm
      rfl
    · rw [hLength, List.map_map]
      exact List.map_id _
  have hAccepted : Accepted r (some ['o']) := ⟨by decide, by decide, by decide⟩
  obtain ⟨ctx', saved', hOk', hPrior, -, hSaved⟩ :=
    prepareSend_accepted (⟨id, fun _ _ => ([], [])⟩ : Backend Unit) hAccepted messages true
  rw [hOk] at hOk'
  obtain ⟨rfl, rfl⟩ := Prod.mk.inj (Except.ok.inj hOk')
  have hOrder : saved.order = 1000 := by
    rw [hSaved, hPrior, hLog.listMessages, hLog.nextOrder, hLength]
    rfl
  refine ⟨hOrder, fun hLatest => ?_⟩
  rw [hLatest.saved, hLength] at hOrder
  cases hOrder

end OpenSpoke.Chat.Window
