import Mathlib.Data.List.Sort
import OpenSpoke.Lib.Calls
import OpenSpoke.Lib.DocIndex
import OpenSpoke.Lib.Lts
import OpenSpoke.Python.Text

/-!
# A chat thread

The thread's document and its messages. A request to OpenSearch is a step of its own, and so
is the answer of the model.
-/

namespace OpenSpoke.Chat

open DocIndex (Answer)
open Python (Text strip)

inductive Role
  | user
  | assistant
  deriving DecidableEq

structure Message where
  -- the send that has saved it, under an id of its own
  send : Nat
  role : Role
  order : Nat
  content : Text
  deriving DecidableEq

structure Thread where
  owner : Text
  title : Text
  model : Text
  messageCount : Nat
  updatedAt : Text
  lastMessageAt : Option Text
  deriving DecidableEq

structure Send where
  owner : Text
  content : Text
  model : Text
  stream : Bool

inductive Pc
  | sendGet (s : Send)
  | sendSearch (s : Send)
  | userPut (s : Send) (prior order : Nat)
  | answering (s : Send) (prior order : Nat)
  | assistantPut (s : Send) (prior order : Nat) (text : Text)
  | countUpdate (model : Option Text) (count : Nat) (ok : Bool)
  | renameGet (owner title model : Text)
  | renameUpdate (title model : Text)
  | listGet (owner : Text)
  | listSearch
  | deleteGet (owner : Text)
  | deleteMessages
  | deleteThread
  | done
  | failed

structure World where
  thread : Option Thread
  messages : List Message
  calls : List Pc
  -- a delete has returned ok
  deleted : Bool

inductive Act
  | send (s : Send)
  | rename (owner title model : Text)
  | list (owner : Text)
  | delete (owner : Text)
  | request (n : Nat) (a : Answer) (now : Text)
  -- the text of the model, none if it fails or the client of a stream goes away
  | reply (n : Nat) (text : Option Text)

/-- `core_chat_threads_create`. -/
def created (owner title model now : Text) : World :=
  ⟨some ⟨owner, title, model, 0, now, none⟩, [], [], false⟩

def listMessages (messages : List Message) (size : Nat) : List Message :=
  (messages.insertionSort fun m n => m.order ≤ n.order).take size

/-- The order number after those that were found. -/
def nextOrder (prior : List Message) : Nat :=
  match prior.getLast? with
  | some m => m.order + 1
  | none => 0

namespace World

variable (w : World)

def call (n : Nat) : Pc := w.calls.getD n .failed

def begin (pc : Pc) : World := { w with calls := w.calls ++ [pc] }

def goto (n : Nat) (pc : Pc) : World := { w with calls := w.calls.set n pc }

def owned (owner : Text) (a : Answer) : Bool :=
  a = .answered && w.thread.any fun t => t.owner = owner

/-- `_save_message`, whose answer is not looked at. -/
def save (m : Message) (a : Answer) : World :=
  if a = .refused then w else { w with messages := w.messages ++ [m] }

def update (change : Thread → Thread) (a : Answer) : World :=
  if a = .refused then w else { w with thread := w.thread.map change }

def request (n : Nat) (a : Answer) (now : Text) : Option World :=
  match w.call n with
  | .sendGet s => some (w.goto n (if w.owned s.owner a then .sendSearch s else .failed))
  | .sendSearch s =>
    let prior := if a = .answered then listMessages w.messages 1000 else []
    some (w.goto n (.userPut s prior.length (nextOrder prior)))
  | .userPut s prior order =>
    some ((w.save ⟨n, .user, order, s.content⟩ a).goto n (.answering s prior order))
  | .assistantPut s prior order text =>
    some ((w.save ⟨n, .assistant, order + 1, text⟩ a).goto n
      (.countUpdate (some s.model) (prior + 2) true))
  | .countUpdate model count ok =>
    some ((w.update (fun t => { t with
      lastMessageAt := some now
      updatedAt := now
      messageCount := count
      model := model.getD t.model }) a).goto n (if ok then .done else .failed))
  | .renameGet owner title model =>
    some (w.goto n (if w.owned owner a then .renameUpdate title model else .failed))
  | .renameUpdate title model =>
    some ((w.update (fun t => { t with
      title := title
      updatedAt := now
      model := if model = [] then t.model else model }) a).goto n
        (if a = .answered then .done else .failed))
  | .listGet owner => some (w.goto n (if w.owned owner a then .listSearch else .failed))
  | .listSearch => some (w.goto n .done)
  | .deleteGet owner => some (w.goto n (if w.owned owner a then .deleteMessages else .failed))
  | .deleteMessages =>
    some { w.goto n .deleteThread with messages := if a = .refused then w.messages else [] }
  | .deleteThread =>
    some { w.goto n .done with
      thread := if a = .refused then w.thread else none
      deleted := true }
  | _ => none

def step : Act → Option World
  | .send s => some (w.begin (if strip s.content = [] then .failed else .sendGet s))
  | .rename owner title model =>
    some (w.begin (if title = [] then .failed else .renameGet owner title model))
  | .list owner => some (w.begin (.listGet owner))
  | .delete owner => some (w.begin (.deleteGet owner))
  | .request n a now => w.request n a now
  | .reply n text =>
    match w.call n, text with
    | .answering s prior order, some text => some (w.goto n (.assistantPut s prior order text))
    | .answering s prior _, none =>
      some (w.goto n (if s.stream then .failed else .countUpdate none (prior + 1) false))
    | _, _ => none

end World

end OpenSpoke.Chat
