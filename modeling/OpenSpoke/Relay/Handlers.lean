import OpenSpoke.Lib.Url
import OpenSpoke.Lib.Regex

/-!
# The relays of the kernel's frontend

`kernel.post.ts`, `os.post.ts` and `keycloak.post.ts` up to the request that they
make. A JSON value of type `β` is passed on as it came. `String.prototype.toUpperCase`
is a parameter, and so is the token that `getToken` obtained.
-/

namespace OpenSpoke.Relay

open Regex

/-- White space and line ends, as `String.prototype.trim` takes them off. -/
def jsSpace (c : Char) : Bool :=
  (9 ≤ c.toNat && c.toNat ≤ 13) || (0x2000 ≤ c.toNat && c.toNat ≤ 0x200A) ||
    [0x20, 0xA0, 0x1680, 0x2028, 0x2029, 0x202F, 0x205F, 0x3000, 0xFEFF].contains c.toNat

def trim (t : List Char) : List Char := (t.dropWhile jsSpace).rdropWhile jsSpace

/-- `replace(/\/$/, "")`. -/
def stripSlash (t : List Char) : List Char :=
  if t.getLast? = some '/' then t.dropLast else t

/-- `Math.min(Math.max(timeout ?? missing, low), high)`. -/
def clamp (timeout : Option Int) (missing low high : Int) : Int :=
  min (max (timeout.getD missing) low) high

structure RuntimeConfig where
  kernelUrl : String
  keycloakUrl : String
  keycloakRealm : String
  keycloakAdminClientSecret : String

/-- The options of `fetch`; `abortAfter` is in milliseconds. -/
structure FetchCall (β : Type) where
  url : List Char
  method : String
  headers : List (String × String)
  body : Option β
  abortAfter : Option Int

inductive Outcome (β : Type)
  /-- `createError` -/
  | refused (statusCode : Nat) (statusMessage : String)
  /-- answered without a request -/
  | answered (detail : String)
  | fetched (call : FetchCall β)

/-- The header of a request, or the next one if it is missing or empty. -/
def firstHeader (headers : String → Option String) (names : List String) : String :=
  ((names.filterMap headers).find? (· ≠ "")).getD ""

section

variable {β : Type}

/-! ## `kernel.post.ts` -/

namespace Kernel

def allow : List String :=
  ["/core/kubectl/", "/core/kubeconfig", "/core/clusters", "/core/k8s/", "/core/fleet/",
    "/core/ledger", "/core/module", "/core/bundle", "/core/nodes", "/core/spoke",
    "/core/handoff/", "/core/knowledge/", "/core/embedding/", "/core/git_credentials/",
    "/core/project/", "/core/spawn", "/core/chat/", "/core/usage/", "/core/user_acl",
    "/core/security/", "/core/jev/", "/core/orchestrate", "/core/claude/", "/core/graph/"]

def allowExtra : List String := ["/api/usage/"]

structure Body (β : Type) where
  path : Option String
  method : Option String
  body : Option β
  query : List (String × String)
  timeout : Option Int

def Body.trimmed (b : Body β) : List Char := trim (b.path.getD "").toList

/-- What is put behind the address of the kernel. -/
def Body.target (b : Body β) : List Char :=
  if b.query = [] then b.trimmed else b.trimmed ++ '?' :: Web.formString b.query

/-- The default handler; `empty` is the JSON object without fields. -/
def handler (upper : String → String) (empty : β) (cfg : RuntimeConfig)
    (headers : String → Option String) (b : Body β) : Outcome β :=
  if b.trimmed.head? ≠ some '/' then
    .refused 400 "path を /core/... の形で渡してください"
  else if !(allow.any fun p => p.toList.isPrefixOf b.trimmed) &&
      !(allowExtra.any fun p => p.toList.isPrefixOf b.trimmed) then
    .refused 403 ("この先への中継は許していません: " ++ String.ofList b.trimmed)
  else
    let method := upper (if b.method.getD "" = "" then "GET" else b.method.getD "")
    .fetched
      { url := stripSlash cfg.kernelUrl.toList ++ b.target
        method
        headers :=
          [("Content-Type", "application/json"),
            ("X-Forwarded-User", firstHeader headers ["x-forwarded-preferred-username"]),
            ("X-Forwarded-Email", firstHeader headers ["x-auth-request-email"]),
            ("X-Forwarded-Groups",
              firstHeader headers ["x-forwarded-groups", "x-auth-request-groups"])]
        body := if method = "GET" ∨ method = "HEAD" then none else some (b.body.getD empty)
        abortAfter := some ((clamp b.timeout 60 5 600 + 15) * 1000) }

end Kernel

/-! ## `os.post.ts` -/

namespace Os

def osUrl : String := "http://opensearch.opensearch.svc.cluster.local:9200"

def indexChar (c : Char) : Bool :=
  c.isLower || c.isDigit || c = '_' || c = '.' || c = '*' || c = '-'

/-- `/^\/(_cluster\/health|_cat\/[a-z]+|[a-z0-9_.*-]+\/(_search|_count))$/` -/
def allowPath : Regex Char :=
  seq (word "/".toList)
    (alt (word "_cluster/health".toList)
      (alt (seq (word "_cat/".toList) (many1 Char.isLower))
        (seq (many1 indexChar)
          (seq (word "/".toList) (alt (word "_search".toList) (word "_count".toList))))))

/-- `body` is none where it is missing or null. -/
structure Body (β : Type) where
  index : Option String
  body : Option β
  path : Option String
  timeout : Option Int

def Body.target (b : Body β) : List Char :=
  if b.index.getD "" ≠ "" then "/".toList ++ (b.index.getD "").toList ++ "/_search".toList
  else trim (b.path.getD "").toList

def handler (b : Body β) : Outcome β :=
  if !allowPath.test b.target then
    .refused 403 ("このパスへの中継は許していません: " ++ String.ofList b.target)
  else
    .fetched
      { url := osUrl.toList ++ b.target
        method := if b.body.isSome then "POST" else "GET"
        headers := [("Content-Type", "application/json")]
        body := b.body
        abortAfter := some (clamp b.timeout 30 5 120 * 1000) }

end Os

/-! ## `keycloak.post.ts` -/

namespace Keycloak

def wordChar (c : Char) : Bool := c.isAlphanum || c = '_' || c = '-'

def roleChar (c : Char) : Bool := wordChar c || c = ':'

/-- `.`: anything but the end of a line. -/
def inLine (c : Char) : Bool := c.toNat ∉ [0x0A, 0x0D, 0x2028, 0x2029]

/-- `(\?.*)?` -/
def optQuery : Regex Char := opt (seq (word "?".toList) (many inLine))

/-- `/^\/users\/[\w-]+…$/` -/
def ofUser (rest : String) : Regex Char :=
  seq (word "/users/".toList) (seq (many1 wordChar) (word rest.toList))

def allow : List (Regex Char) :=
  [seq (word "/users".toList) optQuery,
    seq (word "/users/count".toList) optQuery,
    ofUser "",
    ofUser "/role-mappings/realm",
    ofUser "/reset-password",
    ofUser "/execute-actions-email",
    seq (word "/roles".toList) optQuery,
    seq (word "/roles/".toList) (many1 roleChar)]

structure Body (β : Type) where
  path : Option String
  method : Option String
  body : Option β

def Body.trimmed (b : Body β) : List Char := trim (b.path.getD "").toList

def handler (upper : String → String) (cfg : RuntimeConfig) (token : String) (b : Body β) :
    Outcome β :=
  if cfg.keycloakAdminClientSecret = "" then
    .answered "Keycloak の管理用の鍵が設定されていません"
  else if !allow.any fun r => r.test b.trimmed then
    .refused 403 ("この先への中継は許していません: " ++ String.ofList b.trimmed)
  else
    let method := upper (if b.method.getD "" = "" then "GET" else b.method.getD "")
    .fetched
      { url := stripSlash cfg.keycloakUrl.toList ++
          ("/admin/realms/".toList ++ cfg.keycloakRealm.toList ++ b.trimmed)
        method
        headers := [("Authorization", "Bearer " ++ token), ("Content-Type", "application/json")]
        body := if method = "GET" ∨ method = "HEAD" then none else b.body
        abortAfter := none }

end Keycloak

end

end OpenSpoke.Relay
