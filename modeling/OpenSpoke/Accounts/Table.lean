import Mathlib.Data.List.Sort
import OpenSpoke.Lib.Calls
import OpenSpoke.Lib.DocIndex
import OpenSpoke.Lib.Lts
import OpenSpoke.Python.Text

/-!
# Accounts of a user

What `github_account` and `gitlab_account` share: the accounts of one user under their ids,
and the calls that add, update and delete them. A request to OpenSearch is a step of its
own, and so is the check of a token.
-/

namespace OpenSpoke.Accounts

open DocIndex (Answer)
open Python (Text)

/-- An account on GitHub has an empty host and no number there. -/
structure Account where
  label : Text
  host : Text
  token : Text
  login : Text
  remoteId : Nat
  scopes : List Text
  isDefault : Bool
  createdAt : Nat
  updatedAt : Nat
  lastUsedAt : Option Nat
  deriving DecidableEq

abbrev Docs := DocIndex Text Account

/-- The body of an `add`, stripped. -/
structure NewAccount where
  label : Text
  host : Text
  token : Text
  isDefault : Bool

/-- The fields that an `update` gives, stripped. -/
structure Change where
  label : Option Text
  host : Option Text
  token : Option Text
  isDefault : Option Bool

/-- What an `update` makes of an account. -/
structure Edit where
  account : Account
  verify : Bool
  made : Bool

/-- What is read from the answer of the host to a token that it accepts. -/
structure Verdict where
  login : Text
  remoteId : Nat
  scopes : List Text

/-- What the two modules do differently. -/
structure Site where
  validId : Text → Bool
  validHost : Text → Bool
  -- the order of a search
  before : Account → Account → Bool
  -- the script of `_os_clear_default_flag`
  unset : Nat → Account → Account
  edit : Change → Account → Option Edit
  -- whether deleting what is not there is a success
  goneIsDeleted : Bool
  unset_host : ∀ now a, (unset now a).host = a.host
  unset_token : ∀ now a, (unset now a).token = a.token
  unset_default : ∀ now a, (unset now a).isDefault = false
  edit_made : ∀ c a e, edit c a = some e → e.made → e.account.isDefault
  edit_same : ∀ c a e, edit c a = some e → ¬e.verify →
    e.account.host = a.host ∧ e.account.token = a.token
  edit_valid : ∀ c a e, edit c a = some e → validHost a.host → a.token ≠ [] →
    validHost e.account.host ∧ e.account.token ≠ []

inductive Pc
  | addGet (k : Text) (r : NewAccount)
  | addVerify (k : Text) (r : NewAccount)
  | addSearch (k : Text) (r : NewAccount) (v : Verdict)
  | addPut (k : Text) (doc : Account)
  | updateGet (k : Text) (c : Change)
  | updateVerify (k : Text) (e : Edit)
  | updatePut (k : Text) (doc : Account) (made : Bool)
  | clear (k : Text) (host : Text)
  | deleteGet (k : Text)
  | deleteDelete (k : Text) (host : Text) (wasDefault : Bool)
  | promoteSearch (host : Text)
  | promotePut (k : Text) (doc : Account)
  | done
  | failed

def Pc.ended : Pc → Bool
  | .done | .failed => true
  | _ => false

structure World where
  docs : Docs
  calls : List Pc
  -- the account that a successful call has made default last, if it still is what it was
  chosen : Option Text
  -- hosts with the tokens that they have accepted
  vetted : List (Text × Text)

inductive Act
  | add (k : Text) (r : NewAccount)
  | update (k : Text) (c : Change)
  | delete (k : Text)
  | request (n : Nat) (a : Answer) (now : Nat)
  -- the answer of the host, if it accepts the token
  | verify (n : Nat) (v : Option Verdict) (now : Nat)
  -- `_os_touch_last_used`
  | touch (k : Text) (now : Nat)

def World.start : World := ⟨DocIndex.empty, [], none, []⟩

namespace Site

variable (S : Site)

/-- `_os_search_by_user`. -/
def searchByUser (docs : Docs) : List (Text × Account) :=
  (docs.docs.insertionSort fun a b => S.before a.2 b.2).take 100

/-- `_os_clear_default_flag`. -/
def clearDefaultFlag (docs : Docs) (now : Nat) (k host : Text) : Docs :=
  docs.modify fun l a => if l ≠ k ∧ a.host = host ∧ a.isDefault then S.unset now a else a

/-- The account of the host that comes first in a search. -/
def firstOn (docs : Docs) (host : Text) : Option (Text × Account) :=
  (S.searchByUser docs).find? fun d => d.2.host = host

end Site

/-- The document of an `add`. -/
def NewAccount.doc (r : NewAccount) (k : Text) (v : Verdict) (isDefault : Bool) (now : Nat) :
    Account where
  label := if r.label = [] then k else r.label
  host := r.host
  token := r.token
  login := v.login
  remoteId := v.remoteId
  scopes := v.scopes
  isDefault := isDefault
  createdAt := now
  updatedAt := now
  lastUsedAt := none

/-- The document of an `update` with a new token or a new host. -/
def Edit.verified (e : Edit) (v : Verdict) (now : Nat) : Account :=
  { e.account with login := v.login, remoteId := v.remoteId, scopes := v.scopes, updatedAt := now }

namespace World

variable (w : World) (S : Site)

def call (n : Nat) : Pc := w.calls.getD n .failed

def begin (pc : Pc) : World := { w with calls := w.calls ++ [pc] }

def goto (n : Nat) (pc : Pc) : World := { w with calls := w.calls.set n pc }

/-- `_os_get`. -/
def get (k : Text) (a : Answer) : Option Account := if a = .answered then w.docs.get k else none

/-- An account that is written without the flag is not what it was. -/
def write (k : Text) (doc : Account) : World :=
  { w with
    docs := w.docs.put k doc
    chosen := if doc.isDefault = false ∧ w.chosen = some k then none else w.chosen }

def erase (k : Text) : World :=
  { w with docs := w.docs.delete k, chosen := if w.chosen = some k then none else w.chosen }

/-- `_os_put`, and `_os_clear_default_flag` after it. -/
def put (n : Nat) (k : Text) (doc : Account) (made : Bool) : Answer → World
  | .refused => w.goto n .failed
  | .lost => (w.write k doc).goto n .failed
  | .answered => (w.write k doc).goto n (if made then .clear k doc.host else .done)

def request (n : Nat) (a : Answer) (now : Nat) : Option World :=
  match w.call n with
  | .addGet k r =>
    if (w.get k a).isSome then some (w.goto n .failed) else some (w.goto n (.addVerify k r))
  | .addSearch k r v =>
    let existing := if a = .answered then S.searchByUser w.docs else []
    some (w.goto n (.addPut k (r.doc k v (r.isDefault || existing.isEmpty) now)))
  | .addPut k doc => some (w.put n k doc doc.isDefault a)
  | .updateGet k c =>
    match (w.get k a).bind (S.edit c) with
    | some e =>
      if e.verify then some (w.goto n (.updateVerify k e))
      else some (w.goto n (.updatePut k { e.account with updatedAt := now } e.made))
    | none => some (w.goto n .failed)
  | .updatePut k doc made => some (w.put n k doc made a)
  | .clear k host =>
    let docs := if a = .refused then w.docs else S.clearDefaultFlag w.docs now k host
    some { w.goto n .done with docs := docs, chosen := some k }
  | .deleteGet k =>
    match w.get k a with
    | some acct => some (w.goto n (.deleteDelete k acct.host acct.isDefault))
    | none => some (w.goto n (if S.goneIsDeleted then .done else .failed))
  | .deleteDelete k host wasDefault =>
    match a with
    | .refused => some (w.goto n .failed)
    | .lost => some ((w.erase k).goto n .failed)
    | .answered =>
      some ((w.erase k).goto n (if wasDefault && S.validHost host then .promoteSearch host else .done))
  | .promoteSearch host =>
    match if a = .answered then S.firstOn w.docs host else none with
    | some d => some (w.goto n (.promotePut d.1 { d.2 with isDefault := true, updatedAt := now }))
    | none => some (w.goto n .done)
  | .promotePut k doc =>
    if a = .refused then some (w.goto n .done)
    else some { (w.write k doc).goto n .done with chosen := some k }
  | _ => none

def verify (n : Nat) (v : Option Verdict) (now : Nat) : Option World :=
  match w.call n, v with
  | .addVerify k r, some v =>
    some { w.goto n (.addSearch k r v) with vetted := (r.host, r.token) :: w.vetted }
  | .updateVerify k e, some v =>
    some { w.goto n (.updatePut k (e.verified v now) e.made) with
      vetted := (e.account.host, e.account.token) :: w.vetted }
  | .addVerify .., none | .updateVerify .., none => some (w.goto n .failed)
  | _, _ => none

def step : Act → Option World
  | .add k r =>
    if S.validId k ∧ S.validHost r.host ∧ r.token ≠ [] then some (w.begin (.addGet k r))
    else some (w.begin .failed)
  | .update k c => some (w.begin (if S.validId k then .updateGet k c else .failed))
  | .delete k => some (w.begin (if S.validId k then .deleteGet k else .failed))
  | .request n a now => w.request S n a now
  | .verify n v now => w.verify n v now
  | .touch k now =>
    some { w with docs := w.docs.patch k fun acct => { acct with lastUsedAt := some now } }

def Idle : Prop := ∀ pc ∈ w.calls, pc.ended

instance : Decidable w.Idle := List.decidableBAll ..

end World

end OpenSpoke.Accounts
