import OpenSpoke.Python.Text

/-!
# Who a request is from

`CombinedAuthMiddleware` puts the caller of a request into the context variable
`_current_user`, and the tools read the caller from there. The check of a JWT is a
parameter.
-/

namespace OpenSpoke.Mcp

open Python (Text)

/-- A JWT payload, as far as it is read; a claim that is missing is empty. -/
structure Payload where
  preferredUsername : Text
  familyName : Text
  givenName : Text
  email : Text
  -- of `realm_access`
  roles : List Text
  deriving DecidableEq

structure Headers where
  apiKey : Text
  authorization : Text

structure Auth where
  apiKey : Text
  -- of a Bearer token, none unless it is valid
  decode : Text → Option Payload
  -- `BOOTSTRAP_ADMINS`, split at the commas
  bootstrap : List Text

def adminRole : Text := ['o', 'p', 'e', 'n', 's', 'p', 'o', 'k', 'e', '_', 'a', 'd', 'm', 'i', 'n']

/-- What stands for a caller with the API key. -/
def internalService : Payload where
  preferredUsername := ['i', 'n', 't', 'e', 'r', 'n', 'a', 'l', '-', 's', 'e', 'r', 'v', 'i', 'c', 'e']
  familyName := []
  givenName := []
  email := []
  roles := [adminRole]

def removeprefix (p t : Text) : Text := if p.isPrefixOf t then t.drop p.length else t

/-- What the middleware sets `_current_user` to, none if it answers 401. -/
def Auth.authenticate (E : Auth) (h : Headers) : Option Payload :=
  if h.apiKey = E.apiKey then some internalService
  else
    let token := Python.strip <| removeprefix ['B', 'e', 'a', 'r', 'e', 'r', ' '] h.authorization
    if token = [] then none else E.decode token

/-! ## What tools see -/

def getCurrentUsername (p : Payload) : Text := p.preferredUsername

def getCurrentDisplayName (p : Payload) : Text :=
  let family := Python.strip p.familyName
  let given := Python.strip p.givenName
  if family ≠ [] ∧ given ≠ [] then family ++ ' ' :: given
  else if family ≠ [] then family
  else if given ≠ [] then given
  else p.preferredUsername

def getCurrentRoles (p : Payload) : List Text := p.roles

def Auth.isCurrentUserAdmin (E : Auth) (p : Payload) : Bool :=
  let admins := (E.bootstrap.map Python.strip).filter fun a => a ≠ []
  (getCurrentRoles p).contains adminRole || admins.contains (getCurrentUsername p)

/-- How `get_current_acl` comes to its answer. -/
inductive AclSource
  -- everything is allowed
  | admin (username displayName : Text)
  -- nothing is allowed
  | nobody
  -- the document of the user
  | document (username displayName email : Text)
  deriving DecidableEq

def Auth.getCurrentAcl (E : Auth) (p : Payload) : AclSource :=
  if E.isCurrentUserAdmin p then .admin (getCurrentUsername p) (getCurrentDisplayName p)
  else if getCurrentUsername p = [] then .nobody
  else .document (getCurrentUsername p) (getCurrentDisplayName p) p.email

/-- All that a tool can tell about its caller. -/
structure Identity where
  username : Text
  roles : List Text
  admin : Bool
  acl : AclSource
  deriving DecidableEq

def Auth.identity (E : Auth) (p : Payload) : Identity :=
  ⟨getCurrentUsername p, getCurrentRoles p, E.isCurrentUserAdmin p, E.getCurrentAcl p⟩

end OpenSpoke.Mcp
