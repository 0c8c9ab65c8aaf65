import Mathlib.Tactic.Simps.Basic
import OpenSpoke.Lib.Lts
import OpenSpoke.Python.Text

/-!
# The topics of the handoff store

`topic_upsert`, `topic_delete` and `topic_set_tags` of `MemgraphHandoffStore`,
step by step: one `session.run` is one step, and so is the answer of the
validator. Times are microseconds.
-/

namespace OpenSpoke.Handoff

open Python (Text)

inductive CreatedAt
  -- missing, or not in ISO format
  | unknown
  -- a time without a zone, which cannot be compared with one that has a zone
  | naive
  | known (time : Int)
  deriving DecidableEq

structure Topic where
  title : Option Text
  summary : Option Text
  content : Option Text
  category : Option Text
  module : Option Text
  createdAt : CreatedAt
  updatedAt : Option Int
  tags : List Text
  -- the names of the tags that it has a HAS_TAG relation to
  hasTag : List Text
  deriving DecidableEq

/-- The arguments of `topic_upsert`, but for the id. -/
structure Upsert where
  title : Option Text
  summary : Option Text
  content : Option Text
  category : Option Text
  module : Option Text
  deriving DecidableEq

/-- `isoformat(timespec="seconds")`. -/
def seconds (time : Int) : Int := time - time % 1000000

/-- The topic after `MERGE`. -/
def Upsert.merge (u : Upsert) (nowIso : Int) (old : Option Topic) : Topic :=
  let topic := old.getD ⟨none, none, none, none, none, .known nowIso, none, [], []⟩
  { topic with
    title := u.title.or topic.title
    summary := u.summary.or topic.summary
    content := u.content.or topic.content
    category := u.category.or topic.category
    module := u.module.or topic.module
    updatedAt := some nowIso }

/-- What `enforce_sysml_policy` does with the row that it has read. -/
inductive Ruling
  | exempt
  | validate
  -- the times cannot be compared
  | raises
  deriving DecidableEq

def ruling (cutoff : Option Int) : Option CreatedAt → Ruling
  | none => .validate
  | some created =>
    match created, cutoff with
    | .unknown, _ | _, none => .exempt
    | .naive, some _ => .raises
    | .known time, some c => if time < c then .exempt else .validate

inductive Api
  | upsert (u : Upsert)
  | delete
  -- the tags are normalised
  | setTags (cleaned : List Text)
  deriving DecidableEq

inductive Reply
  | upserted (isNew : Bool) (createdAt : CreatedAt)
  | deleted (found : Bool)
  | tagged (found : Bool)
  -- `SysmlPolicyError`
  | policyError
  -- any other exception
  | raised
  deriving DecidableEq

inductive CallPc
  | absent
  -- about to read created_at
  | check
  | validating
  -- about to take the time; history: the validator has returned ok
  | stamping (validated : Bool)
  | merging (nowIso : Int) (validated : Bool)
  | deleting
  | tagging
  | linking
  | replied (r : Reply)
  deriving DecidableEq

structure Call where
  id : Text
  api : Api
  pc : CallPc
  deriving DecidableEq

structure World where
  -- `SYSML_KB_ENFORCE` is not off
  enforce : Bool
  -- `SYSML_KB_CUTOFF`, none if it is not in ISO format
  cutoff : Option Int
  now : Int
  store : Text → Option Topic
  nextCall : Nat
  call : Nat → Call
  -- history: the contents for which `sysml_validate` has returned ok
  approved : List Text
  -- history: the call has changed the store
  wrote : Nat → Bool

inductive CallEv
  -- the next `session.run`
  | run
  -- the answer of the validator, none if it cannot be reached
  | verdict (ok : Option Bool)
  | stamp
  -- the session raises
  | fail
  deriving DecidableEq

inductive StoreAct
  | tick (d : Nat)
  | request (id : Text) (api : Api)
  | call (n : Nat) (e : CallEv)
  deriving DecidableEq

namespace World

@[simps -fullyApplied] def callTo (s : World) (n : Nat) (pc : CallPc) : World :=
  { s with call := Function.update s.call n { s.call n with pc := pc } }

@[simps -fullyApplied] def setTopic (s : World) (n : Nat) (topic : Option Topic) : World :=
  { s with
    store := Function.update s.store (s.call n).id topic
    wrote := Function.update s.wrote n true }

@[simps -fullyApplied] def approve (s : World) (content : Option Text) : World :=
  { s with approved := s.approved ++ content.toList }

def begin (s : World) : Api → CallPc
  | .upsert u => if u.content.isNone || !s.enforce then .stamping false else .check
  | .delete => .deleting
  | .setTags _ => .tagging

def content : Api → Option Text
  | .upsert u => u.content
  | _ => none

def callStep (s : World) (n : Nat) (e : CallEv) : Option World :=
  let c := s.call n
  let old := s.store c.id
  match c.pc, c.api, e with
  | .check, _, .run =>
    match ruling s.cutoff (old.map Topic.createdAt) with
    | .exempt => some (s.callTo n (.stamping false))
    | .validate => some (s.callTo n .validating)
    | .raises => some (s.callTo n (.replied .raised))
  | .validating, _, .verdict (some true) =>
    some ((s.callTo n (.stamping true)).approve (content c.api))
  | .validating, _, .verdict _ => some (s.callTo n (.replied .policyError))
  | .stamping validated, _, .stamp => some (s.callTo n (.merging (seconds s.now) validated))
  | .merging nowIso _, .upsert u, .run =>
    let topic := u.merge nowIso old
    some ((s.setTopic n (some topic)).callTo n
      (.replied (.upserted (topic.createdAt = .known nowIso) topic.createdAt)))
  | .deleting, _, .run =>
    match old with
    | none => some (s.callTo n (.replied (.deleted false)))
    | some _ => some ((s.setTopic n none).callTo n (.replied (.deleted true)))
  | .tagging, .setTags cleaned, .run =>
    match old with
    | none => some (s.callTo n (.replied (.tagged false)))
    | some topic =>
      let tagged := s.setTopic n (some { topic with tags := cleaned, hasTag := [] })
      some (tagged.callTo n (if cleaned = [] then .replied (.tagged true) else .linking))
  | .linking, .setTags cleaned, .run =>
    match old with
    | none => some (s.callTo n (.replied (.tagged true)))
    | some topic =>
      let linked := s.setTopic n (some { topic with hasTag := topic.hasTag ∪ cleaned })
      some (linked.callTo n (.replied (.tagged true)))
  | .check, _, .fail | .merging _ _, _, .fail | .deleting, _, .fail | .tagging, _, .fail
  | .linking, _, .fail => some (s.callTo n (.replied .raised))
  | _, _, _ => none

def step (s : World) : StoreAct → Option World
  | .tick d => some { s with now := s.now + d }
  | .request id api =>
    some { s with
      call := Function.update s.call s.nextCall ⟨id, api, s.begin api⟩
      nextCall := s.nextCall + 1 }
  | .call n e => s.callStep n e

/-- A store with the contents that the validator has accepted for it. -/
def init (enforce : Bool) (cutoff : Option Int) (now : Int) (store : Text → Option Topic)
    (approved : List Text) : World where
  enforce := enforce
  cutoff := cutoff
  now := now
  store := store
  nextCall := 0
  call _ := ⟨[], .delete, .absent⟩
  approved := approved
  wrote _ := false

end World

end OpenSpoke.Handoff
