import Mathlib.Algebra.Group.Nat.Defs
import OpenSpoke.Tunnel.Server.State

/-!
# `handle_http_request`

The computation of the proxy path between its awaits: the path check, the
construction of the upstream request, and the three answers built from what
`builder.send()` and `resp.bytes()` return.
-/

namespace OpenSpoke.Tunnel

/-- What is used of reqwest and the http crate. -/
structure HttpLib where
  method : String → Option String
  headerName : String → Option String
  /-- `HeaderValue::try_from` accepts -/
  headerValue : String → Bool
  /-- `into_url`, with the text of its error -/
  url : String → Except String Unit
  join : String → String → Option String
  /-- what the redirect policy of the client asks next when a request is answered so -/
  follow : UpstreamRequest → UpstreamResponse → Option UpstreamRequest

/-- Of the default policy. -/
def maxRedirects : Nat := 10

/-- `send()` returns this and does not follow it. -/
def HttpLib.returns (lib : HttpLib) (req : UpstreamRequest) : Except String UpstreamResponse → Bool
  | .error _ => true
  | .ok resp => (lib.follow req resp).isNone

def toAsciiLowercase (s : String) : String := String.ofList (s.toList.map Char.toLower)

def eqIgnoreAsciiCase (s t : String) : Bool := toAsciiLowercase s == toAsciiLowercase t

def startsWith (s p : String) : Bool := p.toList.isPrefixOf s.toList

abbrev RequestBuilder := Except String UpstreamRequest

def HttpLib.request (lib : HttpLib) (method url : String) : RequestBuilder :=
  match lib.url url with
  | .ok () => .ok ⟨method, url, [], []⟩
  | .error e => .error e

/-- `RequestBuilder::header`: appends under the parsed name, and turns into an
error for good when the name or the value is not acceptable. -/
def HttpLib.header (lib : HttpLib) (builder : RequestBuilder) (k v : String) : RequestBuilder :=
  builder.bind fun req =>
    match lib.headerName k with
    | none => .error "invalid HTTP header name"
    | some name =>
      if lib.headerValue v then .ok { req with headers := req.headers ++ [(name, v)] }
      else .error "failed to parse header value"

def withBody (builder : RequestBuilder) (body : Bytes) : RequestBuilder :=
  builder.map fun req => { req with body := body }

def reserved : String := "x-openspoke-"

def copyHeader (lib : HttpLib) (builder : RequestBuilder) (k v : String) : RequestBuilder :=
  if eqIgnoreAsciiCase k "host" then builder
  else if startsWith (toAsciiLowercase k) reserved then builder
  else lib.header builder k v

/-- The request forwarded to the hub kernel on behalf of `spokeId`. -/
def forward (lib : HttpLib) (cfg : ServerConfig) (spokeId : String) (req : HttpRequest) :
    RequestBuilder :=
  let url := cfg.kernelUrl ++ req.path
  let method := (lib.method req.method).getD "GET"
  let builder := req.headers.entries.foldl (fun b e => copyHeader lib b e.1 e.2)
    (lib.request method url)
  withBody (lib.header builder "x-openspoke-spoke-id" spokeId) req.body

/-- `i32` from the `u16` status. -/
def statusCode (status : Nat) : Int := (status % 2 ^ 16 : Nat)

def rejectedKind : HttpResponse := ⟨403, ∅, asBytes "application spoke required", "rejected_kind"⟩

def rejectedPath (path : String) : HttpResponse :=
  ⟨403, ∅, asBytes ("path not allowed: " ++ path), "rejected_path"⟩

def upstreamError (e : String) : HttpResponse := ⟨0, ∅, [], "upstream error: " ++ e⟩

/-- The headers whose value `to_str` accepts; of equal names the last stays. -/
def responseHeaders (headers : List (String × Option String)) : Headers :=
  headers.foldl (fun m h => h.2.elim m fun v => m.insert h.1 v) ∅

/-- The answer built from the result of `builder.send()`, with the label it is
counted under. -/
def upstreamAnswer : Except String UpstreamResponse → HttpResponse × String
  | .error e => (upstreamError e, "upstream_err")
  | .ok r =>
    match r.body with
    | .error e => (⟨0, ∅, [], "upstream body error: " ++ e⟩, "upstream_err")
    | .ok body => (⟨statusCode r.status, responseHeaders r.headers, body, ""⟩, "ok")

end OpenSpoke.Tunnel
