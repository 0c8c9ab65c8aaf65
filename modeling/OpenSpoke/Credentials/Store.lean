import OpenSpoke.Lib.DocIndex
import OpenSpoke.Lib.Lts
import OpenSpoke.Python.Text

/-!
# Credentials

The routes of `git_credentials`. A request to OpenSearch is a step of its own, and so is
the check of a token by its provider.
-/

namespace OpenSpoke.Credentials

open DocIndex (Answer)
open Python (Text strip)

inductive Provider
  | github
  | gitlab
  | anthropic
  | typesafe
  | cloudflare
  deriving DecidableEq

inductive ScopeType
  | org
  | user
  deriving DecidableEq

/-- `_doc_id`. -/
structure Key where
  scopeType : ScopeType
  provider : Provider
  scopeId : Text
  deriving DecidableEq

/-- What a check of a token finds: fields with their values. -/
abbrev Verification := List (Text × Text)

/-- A missing field is empty. -/
structure Credential where
  host : Text
  accountName : Text
  token : Text
  note : Text
  apiBaseUrl : Text
  accountType : Text
  createdAt : Text
  updatedAt : Text
  createdBy : Text
  updatedBy : Text
  lastUsedAt : Option Text
  verification : Verification
  deriving DecidableEq

structure Payload where
  token : Text
  note : Text
  accountType : Text
  accountName : Text
  host : Text
  apiBaseUrl : Text
  deriving DecidableEq

def orElse (t default : Text) : Text := if t = [] then default else t

theorem orElse_nil (default : Text) : orElse [] default = default := rfl

theorem orElse_of_ne {t : Text} (default : Text) (h : t ≠ []) : orElse t default = t := if_neg h

/-! ## Who may do what -/

/-- `_extract_login_identity`. -/
structure Login where
  user : Text
  email : Text
  groups : Text

def adminRole : Text := "role:openspoke_admin".toList

def Login.isAdmin (l : Login) : Bool := adminRole ∈ (l.groups.splitOn ',').map strip

/-- `_require_admin_or_self_user`. -/
def Login.may (l : Login) (scopeType : ScopeType) (scopeId : Text) : Bool :=
  l.isAdmin || scopeType = .user && scopeId ≠ [] &&
    (scopeId = strip l.user || scopeId = strip l.email)

/-- `^[…]+$`, which lets a line break at the end pass. -/
def fullMatch (ok : Char → Bool) (t : Text) : Bool :=
  let body := if t.getLast? = some '\n' then t.dropLast else t
  body ≠ [] && body.all ok

def scopeIdChar (c : Char) : Bool := c.isAlphanum || c ∈ ['.', '_', ':', '@', '-']

def hostChar (c : Char) : Bool := c.isAlphanum || c ∈ ['.', '_', '-']

/-- `_validate_scope_id`. -/
def validScopeId (t : Text) : Bool := t.length ≤ 256 && fullMatch scopeIdChar t

/-! ## What a put writes -/

def apiOf : Provider → Text → Text
  | .github, _ => "https://api.github.com".toList
  | .anthropic, _ => "https://api.anthropic.com".toList
  | .typesafe, _ => "https://api.typesafe.ai".toList
  | .cloudflare, _ => "https://api.cloudflare.com/client/v4".toList
  | .gitlab, host => "https://".toList ++ host ++ "/api/v4".toList

def hostOf : Provider → Text
  | .github => "github.com".toList
  | .anthropic => "api.anthropic.com".toList
  | .typesafe => "api.typesafe.ai".toList
  | .cloudflare => "api.cloudflare.com".toList
  | .gitlab => []

def nameOf (scopeId : Text) : Provider → Text
  | .github => scopeId
  | .anthropic => "Anthropic".toList
  | .typesafe => "TypeSafe AI".toList
  | .cloudflare => "Cloudflare account ".toList ++ scopeId
  -- what follows the first colon, if there is one
  | .gitlab => if ':' ∈ scopeId then (scopeId.dropWhile (· ≠ ':')).drop 1 else scopeId

namespace Payload

variable (p : Payload) (k : Key)

/-- The fields that the provider needs. -/
def valid : Bool :=
  k.provider ≠ .gitlab ||
    fullMatch hostChar p.host && p.accountType ∈ [[], "user".toList, "group".toList]

def fullHost : Text := orElse p.host (hostOf k.provider)

def fullApi : Text := orElse p.apiBaseUrl (apiOf k.provider (p.fullHost k))

def fullName : Text := orElse p.accountName (nameOf k.scopeId k.provider)

/-- The document, given the one that was read; none if there is no token. -/
def doc (actor now : Text) (read : Option Credential) : Option Credential :=
  let old := read.getD ⟨[], [], [], [], [], [], [], [], [], [], none, []⟩
  let token := orElse (strip p.token) old.token
  if token = [] then none
  else some
    { host := p.fullHost k
      accountName := p.fullName k
      token := token
      note := orElse p.note old.note
      apiBaseUrl := p.fullApi k
      accountType :=
        if k.provider = .gitlab then orElse (orElse p.accountType old.accountType) "user".toList
        else []
      createdAt := orElse old.createdAt now
      updatedAt := now
      createdBy := orElse old.createdBy actor
      updatedBy := actor
      lastUsedAt := old.lastUsedAt
      verification := old.verification }

end Payload

/-- A patch of `verification`: a field of the new result takes the place of an old one. -/
def Credential.checked (result : Verification) (c : Credential) : Credential :=
  { c with verification := result ++
      c.verification.filter fun f => f.1 ∉ result.map Prod.fst }

/-! ## Calls -/

inductive Op
  | put (k : Key) (p : Payload)
  | verify (k : Key)
  | delete (k : Key)
  -- the internal route
  | token (k : Key)
  -- the lookups for an organisation or an account
  | orgToken (k : Key)

inductive Pc
  | absent
  | putGet (k : Key) (p : Payload) (actor now : Text)
  | putPut (k : Key) (p : Payload) (actor now : Text) (read : Option Credential) (doc : Credential)
  | verifyGet (k : Key)
  | verifying (k : Key) (token : Text)
  | verifyPatch (k : Key) (token : Text) (result : Verification)
  | deleting (k : Key)
  | tokenGet (k : Key)
  | touching (k : Key) (now : Text) (token : Text)
  | failed
  -- what was stored before the write, and what is after it
  | saved (k : Key) (p : Payload) (before : Option Credential) (after : Credential) (created : Bool)
  | verified
  | deleted
  | told (token : Text)

structure World where
  docs : DocIndex Key Credential
  call : Nat → Pc
  -- history: the tokens that were checked, with the results
  checks : List (Text × Verification)

inductive Act
  | call (n : Nat) (l : Login) (op : Op) (now : Text)
  | request (n : Nat) (a : Answer) (now : Text)
  | check (n : Nat) (result : Verification)

/-- The route, after its checks. -/
def Op.begin (l : Login) (now : Text) : Op → Pc
  | .put k p =>
    if l.may k.scopeType k.scopeId ∧ validScopeId k.scopeId ∧ p.valid k then
      .putGet k p (orElse l.user l.email) now
    else .failed
  | .verify k =>
    if l.may k.scopeType k.scopeId ∧ validScopeId k.scopeId then .verifyGet k else .failed
  | .delete k =>
    if l.may k.scopeType k.scopeId ∧ validScopeId k.scopeId then .deleting k else .failed
  | .token k => if validScopeId k.scopeId then .tokenGet k else .failed
  | .orgToken k => .tokenGet k

namespace World

variable (w : World)

def goto (n : Nat) (pc : Pc) : World := { w with call := Function.update w.call n pc }

/-- `_os_get`. -/
def get (k : Key) (a : Answer) : Option Credential := if a = .answered then w.docs.get k else none

def request (n : Nat) (a : Answer) (now : Text) : Option World :=
  match w.call n with
  | .putGet k p actor now =>
    match p.doc k actor now (w.get k a) with
    | some doc => some (w.goto n (.putPut k p actor now (w.get k a) doc))
    | none => some (w.goto n .failed)
  | .putPut k p _ _ read doc =>
    if a = .refused then some (w.goto n .failed)
    else
      let result := if a = .answered then .saved k p (w.docs.get k) doc read.isNone else .failed
      some { w.goto n result with docs := w.docs.put k doc }
  | .verifyGet k =>
    match w.get k a with
    | some c => some (w.goto n (.verifying k c.token))
    | none => some (w.goto n .failed)
  | .verifyPatch k _ result =>
    let docs := if a = .refused then w.docs else w.docs.patch k (·.checked result)
    some { w.goto n .verified with docs := docs }
  | .deleting k =>
    let docs := if a = .refused then w.docs else w.docs.delete k
    some { w.goto n (if a = .answered then .deleted else .failed) with docs := docs }
  | .tokenGet k =>
    match w.get k a with
    | some c => some (w.goto n (if c.token = [] then .failed else .touching k now c.token))
    | none => some (w.goto n .failed)
  | .touching k now token =>
    let docs :=
      if a = .refused then w.docs else w.docs.patch k fun c => { c with lastUsedAt := some now }
    some { w.goto n (.told token) with docs := docs }
  | _ => none

def step : Act → Option World
  | .call n l op now =>
    match w.call n with
    | .absent => some (w.goto n (op.begin l now))
    | _ => none
  | .request n a now => w.request n a now
  | .check n result =>
    match w.call n with
    | .verifying k token =>
      some { w.goto n (.verifyPatch k token result) with checks := (token, result) :: w.checks }
    | _ => none

end World

end OpenSpoke.Credentials
