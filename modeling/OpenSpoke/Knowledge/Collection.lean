import OpenSpoke.Lib.Calls
import OpenSpoke.Lib.DocIndex
import OpenSpoke.Lib.Lts
import OpenSpoke.Lib.Keyed
import OpenSpoke.Python.Text

/-!
# A knowledge collection

`core_knowledge_upsert` and `core_knowledge_delete` on one collection of Milvus, in which an
insert replaces nothing. A call of Milvus is a step of its own.
-/

namespace OpenSpoke.Knowledge

open DocIndex (Answer)
open Python (Text)

structure Row where
  id : Text
  title : Text
  content : Text
  category : Text
  createdAt : Text
  updatedAt : Text
  deriving DecidableEq

/-- The size of a text as Milvus counts it. -/
def utf8Size (t : Text) : Nat := t.foldr (fun c n => c.utf8Size + n) 0

/-- `max_length` of the fields of `KNOWLEDGE_SCHEMA`. -/
def Row.fits (r : Row) : Bool :=
  utf8Size r.title ≤ 512 && utf8Size r.content ≤ 65535 && utf8Size r.category ≤ 64

/-- The body of `core_knowledge_upsert`, with its defaults. -/
structure Upsert where
  id : Text
  title : Text
  content : Text
  category : Text
  mode : Text
  deriving DecidableEq

def create : Text := ['c', 'r', 'e', 'a', 't', 'e']

def update : Text := ['u', 'p', 'd', 'a', 't', 'e']

def upsert : Text := ['u', 'p', 's', 'e', 'r', 't']

def knowledgeValidateId (id : Text) : Bool :=
  id ≠ [] && id.length ≤ 128 && id.all fun c => c.isAlphanum || c = '_'

def handoffBrief : Text := "_handoff_brief".toList

def isHandoff (id : Text) : Bool :=
  id = handoffBrief || "_handoff_topic_".toList.isPrefixOf id ||
    "_handoff_summary_".toList.isPrefixOf id

/-- The checks of `core_knowledge_upsert`; lengths are in characters. -/
def Upsert.valid (u : Upsert) : Bool :=
  knowledgeValidateId u.id && u.title ≠ [] && u.content ≠ [] && u.title.length ≤ 512 &&
    u.content.length ≤ 65535 && u.category.length ≤ 64 && u.mode ∈ [create, update, upsert] &&
    !isHandoff u.id

def Upsert.row (u : Upsert) (created now : Text) : Row :=
  ⟨u.id, u.title, u.content, u.category, created, now⟩

/-- A row that was found has its `created_at` kept. -/
def keptOr (found : Option Text) (now : Text) : Text :=
  match found with
  | some created => if created = [] then now else created
  | none => now

/-- Where a call is; `before` and `after` are the rows of its id around its writes, and
`touched` says whether it has changed any. -/
inductive Pc
  | opening (u : Upsert)
  | querying (u : Upsert)
  | embedding (u : Upsert) (found : Option Text)
  | deleting (u : Upsert) (found now : Text)
  | flushing (u : Upsert) (found now : Text) (before : List Row)
  | inserting (u : Upsert) (found : Option Text) (now : Text) (before : List Row)
  -- a flush and a load are left, or the load
  | settling (u : Upsert) (before after : List Row) (flushed : Bool)
  | saved (u : Upsert) (before after : List Row)
  | tooLong (touched : Bool)
  | failed (touched : Bool)
  | dropOpening (id : Text)
  | dropQuerying (id : Text)
  | dropDeleting (id : Text)
  | dropFlushing
  | dropped
  | refused
  deriving DecidableEq

structure World where
  rows : List Row
  calls : List Pc

inductive Act
  | upsert (u : Upsert)
  | delete (id : Text)
  | milvus (n : Nat) (a : Answer)
  -- the number of dimensions that `get_embedding` gives, if it does not raise
  | embed (n : Nat) (dims : Option Nat) (now : Text)

namespace World

variable (w : World)

def call (n : Nat) : Pc := w.calls.getD n .refused

def begin (pc : Pc) : World := { w with calls := w.calls ++ [pc] }

def goto (n : Nat) (pc : Pc) : World := { w with calls := w.calls.set n pc }

def rowsOf (id : Text) : List Row := Rows.under Row.id id w.rows

def find (id : Text) : Option Row := (w.rowsOf id).head?

/-- A call of Milvus that writes no row, after which all goes on or fails. -/
def next (n : Nat) (a : Answer) (pc : Pc) (touched : Bool) : World :=
  w.goto n (if a = .answered then pc else .failed touched)

def remove (id : Text) : World := { w with rows := Keyed.remove Row.id id w.rows }

def insert (row : Row) : World := { w with rows := w.rows ++ [row] }

/-- The insert of an upsert. -/
def putRow (n : Nat) (a : Answer) (u : Upsert) (found : Option Text) (now : Text)
    (before : List Row) : World :=
  let row := u.row (keptOr found now) now
  if a = .refused then w.goto n (.failed found.isSome)
  else if row.fits = false then w.goto n (.tooLong found.isSome)
  else
    let t := w.insert row
    t.goto n (if a = .answered then
      .settling u (if found.isSome then before else w.rowsOf u.id) (t.rowsOf u.id) false
    else .failed true)

def milvus (n : Nat) (a : Answer) : Option World :=
  match w.call n with
  | .opening u => some (w.next n a (.querying u) false)
  | .querying u =>
    if a ≠ .answered then some (w.goto n (.failed false))
    else
      let found := (w.find u.id).map Row.createdAt
      if u.mode = create ∧ found.isSome ∨ u.mode = update ∧ found.isNone then
        some (w.goto n (.failed false))
      else some (w.goto n (.embedding u found))
  | .deleting u found now =>
    if a = .refused then some (w.goto n (.failed false))
    else
      let t := w.remove u.id
      some (t.goto n (if a = .answered then .flushing u found now (w.rowsOf u.id) else .failed true))
  | .flushing u found now before => some (w.next n a (.inserting u (some found) now before) true)
  | .inserting u found now before => some (w.putRow n a u found now before)
  | .settling u before after flushed =>
    some (w.next n a (if flushed then .saved u before after else .settling u before after true) true)
  | .dropOpening id => some (w.next n a (.dropQuerying id) false)
  | .dropQuerying id =>
    some (w.next n a (if (w.find id).isSome then .dropDeleting id else .dropped) false)
  | .dropDeleting id =>
    if a = .refused then some (w.goto n .refused)
    else some ((w.remove id).goto n (if a = .answered then .dropFlushing else .refused))
  | .dropFlushing => some (w.goto n (if a = .answered then .dropped else .refused))
  | _ => none

def step : Act → Option World
  | .upsert u => some (w.begin (if u.valid then .opening u else .refused))
  | .delete id =>
    some (w.begin (if knowledgeValidateId id && !isHandoff id then .dropOpening id else .refused))
  | .milvus n a => w.milvus n a
  | .embed n dims now =>
    match w.call n with
    | .embedding u found =>
      if dims ≠ some 384 then some (w.goto n (.failed false))
      else some (w.goto n (match found with
        | some created => .deleting u created now
        | none => .inserting u none now []))
    | _ => none

end World

end OpenSpoke.Knowledge
