import Mathlib.Algebra.Group.Int.Defs
import OpenSpoke.Lib.LastValue
import OpenSpoke.Tunnel.Client.State
import OpenSpoke.Tunnel.Server.HttpRequest
import OpenSpoke.Tunnel.Server.Proxy

/-!
# `handle_http_proxy`

The computation of the local proxy between its awaits: the request that it sends
through the tunnel, and the response that it builds for its caller.
-/

namespace OpenSpoke.Tunnel

/-- What a caller sends. A header value is `none` where `to_str` fails. -/
structure CallerRequest where
  method : String
  -- with the query
  path : String
  headers : List (String × Option String)
  body : Bytes

structure CallerResponse where
  status : Nat
  headers : List (String × String)
  body : Bytes

def bodyLimit : Nat := 32 * 1024 * 1024

/-- The headers are read by the same loop as those of the kernel's response. None: the body is
over the limit and the caller gets 400. -/
def proxyRequest (req : CallerRequest) : Option HttpRequest :=
  if req.body.length ≤ bodyLimit then
    some ⟨req.method, req.path, responseHeaders req.headers, req.body⟩
  else none

/-- `StatusCode::from_u16(status as u16)`, 502 where it fails. -/
def statusOf (status : Int) : Nat :=
  let n := (status % 2 ^ 16).toNat
  if 100 ≤ n ∧ n ≤ 999 then n else 502

/-- The headers whose name and value the http crate accepts. -/
def acceptedHeaders (lib : HttpLib) (headers : Headers) : List (String × String) :=
  headers.entries.filterMap fun e =>
    (lib.headerName e.1).bind fun name => if lib.headerValue e.2 then some (name, e.2) else none

def callerResponse (lib : HttpLib) (resp : HttpResponse) : CallerResponse :=
  if resp.error = "" then ⟨statusOf resp.status, acceptedHeaders lib resp.headers, resp.body⟩
  else if 0 < resp.status then
    ⟨statusOf resp.status, acceptedHeaders lib resp.headers,
      if resp.body = [] then asBytes resp.error else resp.body⟩
  else ⟨502, [], asBytes resp.error⟩

/-! ## Message sizes -/

def varintLen (n : Nat) : Nat := n.log2 / 7 + 1

/-- A field of a message with its key and, but for a varint, its length. -/
def fieldLen (tag len : Nat) : Nat := varintLen (8 * tag) + varintLen len + len

/-- Default values are not sent. -/
def bytesFieldLen (tag len : Nat) : Nat := if len = 0 then 0 else fieldLen tag len

def varintFieldLen (tag n : Nat) : Nat := if n = 0 then 0 else varintLen (8 * tag) + varintLen n

def headersLen (tag : Nat) (headers : Headers) : Nat :=
  (headers.entries.map fun e => fieldLen tag
    (bytesFieldLen 1 e.1.utf8ByteSize + bytesFieldLen 2 e.2.utf8ByteSize)).sum

/-- `encoded_len` of the `ClientFrame` of a request. -/
def requestFrameLen (sid : Nat) (req : HttpRequest) : Nat :=
  varintFieldLen 1 sid + fieldLen 40 (bytesFieldLen 1 req.method.utf8ByteSize +
    bytesFieldLen 2 req.path.utf8ByteSize + headersLen 3 req.headers + bytesFieldLen 4 req.body.length)

/-- `encoded_len` of the `ServerFrame` of a response. -/
def responseFrameLen (sid : Nat) (resp : HttpResponse) : Nat :=
  varintFieldLen 1 sid + fieldLen 40 (varintFieldLen 1 (resp.status % 2 ^ 64).toNat +
    headersLen 2 resp.headers + bytesFieldLen 3 resp.body.length +
    bytesFieldLen 4 resp.error.utf8ByteSize)

/-- The longest message that a tonic client or server decodes unless it is told otherwise. A longer
one is an error of the stream. -/
def recvLimit : Nat := 4 * 1024 * 1024

theorem statusOf_statusCode {status : Nat} (h : 100 ≤ status ∧ status ≤ 999) :
    statusOf (statusCode status) = status := by
  have hSame : ((status % 2 ^ 16 : Nat) : Int) % 2 ^ 16 = status := by omega
  rw [statusOf, statusCode, hSame, Int.toNat_natCast, if_pos h]

end OpenSpoke.Tunnel

/-!
## Transparency of the HTTP proxy

A request crosses two maps on its way to the kernel and the response two on its
way back. Each keeps one value for a header name, so a message comes through as it
was sent when no name is there twice and the HTTP libraries add nothing to it.
-/

namespace OpenSpoke.Tunnel

open LastValue (values)

/-- A message with values that `to_str` accepts, as the one side sends it and the other one gets
it. -/
structure Request where
  method : String
  path : String
  headers : List (String × String)
  body : Bytes

structure Response where
  status : Nat
  headers : List (String × String)
  body : Bytes

def ascii (headers : List (String × String)) : List (String × Option String) :=
  headers.map fun h => (h.1, some h.2)

def keptName (name : String) : Bool := !eqIgnoreAsciiCase name "host" && !reservedName name

/-- What the HTTP libraries do beyond the code: the path that is requested for a URL, and the
headers that are added to a message under names that it does not have. -/
structure Transport where
  path : String → String
  toRequest : Request → List (String × String)
  toResponse : Response → List (String × String)
  hRequest : ∀ q, ∀ h ∈ toRequest q, keptName h.1 = true → ∀ h' ∈ q.headers, h'.1 ≠ h.1
  hResponse : ∀ k, ∀ h ∈ toResponse k, ∀ h' ∈ k.headers, h'.1 ≠ h.1

section Proxy

variable (E : Env) (T : Transport) (sc : SpokeConfig) (sid : Nat)

/-- The request that the server sends for one of the caller. None: it is refused, or its frame ends
the session. -/
def sentUpstream (q : Request) : Option UpstreamRequest :=
  (proxyRequest ⟨q.method, q.path, ascii q.headers, q.body⟩).bind fun req =>
    if requestFrameLen sid req ≤ recvLimit then
      match verdict E sc sc.spokeId req with
      | .forwarded r => some r
      | _ => none
    else none

/-- The first request that arrives at the kernel, if one does. -/
def kernelSees (q : Request) : Option Request :=
  (sentUpstream E sc sid q).map fun r =>
    ⟨r.method, T.path r.url, r.headers ++ T.toRequest q, r.body⟩

/-- The response that arrives at the caller when the kernel answers that request with `k`. None: the
client follows `k`, or its frame ends the session. -/
def callerSees (q : Request) (k : Response) : Option Response :=
  (sentUpstream E sc sid q).bind fun r =>
    let answer : UpstreamResponse := ⟨k.status, ascii k.headers, .ok k.body⟩
    let resp := (upstreamAnswer (.ok answer)).1
    if E.lib.returns r (.ok answer) ∧ responseFrameLen sid resp ≤ recvLimit then
      let res := callerResponse E.lib resp
      some ⟨res.status, res.headers ++ T.toResponse k, res.body⟩
    else none

structure Transparent (q : Request) (k : Response) : Prop where
  request : ∃ seen, kernelSees E T sc sid q = some seen ∧ seen.method = q.method ∧
    seen.path = q.path ∧ seen.body = q.body ∧
    ∀ name, keptName name = true → values name seen.headers = values name q.headers
  response : ∃ seen, callerSees E T sc sid q k = some seen ∧ seen.status = k.status ∧
    seen.body = k.body ∧ ∀ name, values name seen.headers = values name k.headers

/-- The request of an application spoke for an allowed path, and a response, that the HTTP libraries
can read. -/
structure Proper (q : Request) (k : Response) : Prop where
  kind : sc.kind = .application
  ownHeader : E.lib.headerName "x-openspoke-spoke-id" = some "x-openspoke-spoke-id"
  method : E.lib.method q.method = some q.method
  path : q.path ∈ E.cfg.allowedPaths
  body : q.body.length ≤ bodyLimit
  requestHeaders : ∀ h ∈ q.headers, E.lib.headerName h.1 = some h.1 ∧ E.lib.headerValue h.2 = true
  status : 100 ≤ k.status ∧ k.status ≤ 999
  responseHeaders : ∀ h ∈ k.headers, E.lib.headerName h.1 = some h.1 ∧ E.lib.headerValue h.2 = true

def requestMessage (q : Request) : HttpRequest :=
  ⟨q.method, q.path, LastValue.collect ∅ q.headers, q.body⟩

def upstreamRequest (q : Request) : UpstreamRequest :=
  ⟨q.method, E.cfg.kernelUrl ++ q.path,
    (LastValue.pairs (LastValue.collect ∅ q.headers)).filter (fun h => keptName h.1) ++
      [("x-openspoke-spoke-id", sc.spokeId)], q.body⟩

def responseMessage (k : Response) : HttpResponse :=
  ⟨statusCode k.status, LastValue.collect ∅ k.headers, k.body, ""⟩

/-- The request can be built, the response is not a redirect to be followed, and neither frame is
over the limit. -/
structure Passes (q : Request) (k : Response) : Prop where
  url : E.lib.url (E.cfg.kernelUrl ++ q.path) = .ok ()
  spokeId : E.lib.headerValue sc.spokeId = true
  requestLen : requestFrameLen sid (requestMessage q) ≤ recvLimit
  returned : E.lib.returns (upstreamRequest E sc q) (.ok ⟨k.status, ascii k.headers, .ok k.body⟩)
  responseLen : responseFrameLen sid (responseMessage k) ≤ recvLimit

/-- What of the messages arrives: of the values under a name the last one, with what the libraries
add. -/
structure Carried (q : Request) (k : Response) : Prop where
  request : ∃ seen, kernelSees E T sc sid q = some seen ∧ seen.method = q.method ∧
    seen.path = T.path (E.cfg.kernelUrl ++ q.path) ∧ seen.body = q.body ∧
    ∀ name, keptName name = true → values name seen.headers =
      (values name q.headers).getLast?.toList ++ values name (T.toRequest q)
  response : ∃ seen, callerSees E T sc sid q k = some seen ∧ seen.status = k.status ∧
    seen.body = k.body ∧ ∀ name, values name seen.headers =
      (values name k.headers).getLast?.toList ++ values name (T.toResponse k)

/-- Each name once, and nothing that the libraries add. -/
structure Single (q : Request) (k : Response) : Prop where
  passes : Passes E sc sid q k
  path : T.path (E.cfg.kernelUrl ++ q.path) = q.path
  request : ∀ name, keptName name = true → (values name q.headers).length ≤ 1
  toRequest : ∀ h ∈ T.toRequest q, keptName h.1 = false
  response : ∀ name, (values name k.headers).length ≤ 1
  toResponse : T.toResponse k = []

end Proxy

/-! ## The maps -/

theorem responseHeaders_ascii (headers : List (String × String)) :
    responseHeaders (ascii headers) = LastValue.collect ∅ headers := by
  have hAll : ∀ m : Headers,
      (ascii headers).foldl (fun m h => h.2.elim m fun v => m.insert h.1 v) m =
        LastValue.collect m headers := by
    induction headers with
    | nil => exact fun _ => rfl
    | cons h headers ih => exact fun m => ih (m.insert h.1 h.2)
  exact hAll ∅

theorem mem_collect {headers : List (String × String)} {e : Sigma fun _ : String => String}
    (h : e ∈ (LastValue.collect ∅ headers).entries) : (e.1, e.2) ∈ headers := by
  have hLookup := (LastValue.collect ∅ headers).mem_lookup_iff.mpr h
  rw [Option.mem_def, LastValue.lookup_collect, AList.lookup_empty, Option.or_none] at hLookup
  obtain ⟨p, hp, hValue⟩ := List.mem_map.mp (List.mem_of_getLast? hLookup)
  obtain ⟨hMem, hName⟩ := List.mem_filter.mp hp
  have hPair : p = (e.1, e.2) := Prod.ext (of_decide_eq_true hName) hValue
  exact hPair ▸ hMem

variable {E : Env} {T : Transport} {sc : SpokeConfig} {sid : Nat} {lib : HttpLib}

theorem copyHeader_proper {k v : String} {r : UpstreamRequest} (hName : lib.headerName k = some k)
    (hValue : lib.headerValue v = true) : copyHeader lib (.ok r) k v =
      .ok { r with headers := r.headers ++ [(k, v)].filter fun h => keptName h.1 } := by
  rw [copyHeader]
  split
  next hHost => simp [keptName, hHost]
  next hHost =>
    split
    next hReserved =>
      have hDropped : reservedName k = true := hReserved
      simp [keptName, hDropped]
    next hReserved =>
      have hKept : reservedName k = false := Bool.eq_false_iff.mpr hReserved
      simp [HttpLib.header, Except.bind, hName, hValue, keptName, hKept, Bool.eq_false_iff.mpr hHost]

theorem copyHeaders_proper {entries : List (Sigma fun _ : String => String)}
    (h : ∀ e ∈ entries, lib.headerName e.1 = some e.1 ∧ lib.headerValue e.2 = true)
    (r : UpstreamRequest) :
    entries.foldl (fun b e => copyHeader lib b e.1 e.2) (.ok r) = .ok { r with
      headers := r.headers ++ (entries.map fun e => (e.1, e.2)).filter fun h => keptName h.1 } := by
  induction entries generalizing r with
  | nil => simp
  | cons e entries ih =>
    obtain ⟨⟨hName, hValue⟩, hRest⟩ := List.forall_mem_cons.mp h
    rw [List.foldl_cons, copyHeader_proper hName hValue, ih hRest]
    simp only [List.map_cons, List.filter_cons, List.filter_nil, List.append_assoc]
    split <;> rfl

theorem copyHeaders_error {entries : List (Sigma fun _ : String => String)} {e : String} :
    ∃ e', entries.foldl (fun b e => copyHeader lib b e.1 e.2) (.error e) = .error e' := by
  induction entries with
  | nil => exact ⟨e, rfl⟩
  | cons entry entries ih =>
    have hStep : copyHeader lib (.error e) entry.1 entry.2 = .error e := by
      rw [copyHeader]
      split
      next => rfl
      next => split <;> rfl
    rw [List.foldl_cons, hStep]
    exact ih

/-- What is forwarded, if the URL and the spoke id can be. -/
theorem forward_proper {cfg : ServerConfig} {spokeId : String} {req : HttpRequest}
    (hOwn : lib.headerName "x-openspoke-spoke-id" = some "x-openspoke-spoke-id")
    (hMethod : lib.method req.method = some req.method)
    (hHeaders : ∀ e ∈ req.headers.entries,
      lib.headerName e.1 = some e.1 ∧ lib.headerValue e.2 = true) (r : UpstreamRequest) :
    forward lib cfg spokeId req = .ok r ↔
      lib.url (cfg.kernelUrl ++ req.path) = .ok () ∧ lib.headerValue spokeId = true ∧
      r = ⟨req.method, cfg.kernelUrl ++ req.path,
        (LastValue.pairs req.headers).filter (fun h => keptName h.1) ++
          [("x-openspoke-spoke-id", spokeId)], req.body⟩ := by
  rw [forward, hMethod, Option.getD_some, HttpLib.request]
  cases hUrl : lib.url (cfg.kernelUrl ++ req.path) with
  | error e =>
    obtain ⟨e', hError⟩ := @copyHeaders_error lib req.headers.entries e
    simp [hError, HttpLib.header, withBody, Except.bind, Except.map]
  | ok u =>
    simp only [copyHeaders_proper hHeaders, HttpLib.header, Except.bind, hOwn, List.nil_append]
    split
    next hValue =>
      simp only [withBody, Except.map, Except.ok.injEq, hValue, true_and]
      exact eq_comm
    next hValue => simp [withBody, Except.map, hValue]

theorem sentUpstream_eq_some_iff {q : Request} {k : Response} (h : Proper E sc q k)
    (r : UpstreamRequest) : sentUpstream E sc sid q = some r ↔
      E.lib.url (E.cfg.kernelUrl ++ q.path) = .ok () ∧ E.lib.headerValue sc.spokeId = true ∧
      requestFrameLen sid (requestMessage q) ≤ recvLimit ∧ r = upstreamRequest E sc q := by
  have hHeaders : ∀ e ∈ (LastValue.collect ∅ q.headers).entries,
      E.lib.headerName e.1 = some e.1 ∧ E.lib.headerValue e.2 = true :=
    fun e he => h.requestHeaders _ (mem_collect he)
  have hForward := @forward_proper E.lib E.cfg sc.spokeId (requestMessage q) h.ownHeader h.method
    hHeaders
  rw [sentUpstream, proxyRequest, if_pos h.body, Option.bind_some, responseHeaders_ascii,
    ← requestMessage]
  split
  next hLen =>
    rw [verdict_of_forward h.kind h.path]
    cases hBuilt : forward E.lib E.cfg sc.spokeId (requestMessage q) with
    | error e =>
      simp only [reduceCtorEq, false_iff]
      rintro ⟨hUrl, hValue, -⟩
      have := (hForward _).mpr ⟨hUrl, hValue, rfl⟩
      rw [hBuilt] at this
      cases this
    | ok built =>
      obtain ⟨hUrl, hValue, rfl⟩ := (hForward built).mp hBuilt
      have hParsed : E.lib.url (E.cfg.kernelUrl ++ q.path) = .ok () := hUrl
      simp only [Option.some.injEq, hParsed, hValue, hLen, true_and]
      exact eq_comm
  next hLen => simp [hLen]

theorem kernelSees_eq_some_iff {q : Request} {k : Response} (h : Proper E sc q k) (seen : Request) :
    kernelSees E T sc sid q = some seen ↔
      E.lib.url (E.cfg.kernelUrl ++ q.path) = .ok () ∧ E.lib.headerValue sc.spokeId = true ∧
      requestFrameLen sid (requestMessage q) ≤ recvLimit ∧
      seen = ⟨q.method, T.path (E.cfg.kernelUrl ++ q.path),
        (LastValue.pairs (LastValue.collect ∅ q.headers)).filter (fun h => keptName h.1) ++
          [("x-openspoke-spoke-id", sc.spokeId)] ++ T.toRequest q, q.body⟩ := by
  rw [kernelSees, Option.map_eq_some_iff]
  constructor
  · rintro ⟨r, hSent, rfl⟩
    obtain ⟨hUrl, hId, hLen, rfl⟩ := (sentUpstream_eq_some_iff h r).mp hSent
    exact ⟨hUrl, hId, hLen, rfl⟩
  · rintro ⟨hUrl, hId, hLen, rfl⟩
    exact ⟨_, (sentUpstream_eq_some_iff h _).mpr ⟨hUrl, hId, hLen, rfl⟩, rfl⟩

theorem acceptedHeaders_proper {headers : List (String × String)}
    (h : ∀ e ∈ headers, lib.headerName e.1 = some e.1 ∧ lib.headerValue e.2 = true) :
    acceptedHeaders lib (LastValue.collect ∅ headers) =
      LastValue.pairs (LastValue.collect ∅ headers) := by
  have hEntries : ∀ e ∈ (LastValue.collect ∅ headers).entries,
      lib.headerName e.1 = some e.1 ∧ lib.headerValue e.2 = true := fun e he => h _ (mem_collect he)
  rw [acceptedHeaders, LastValue.pairs, ← List.filterMap_eq_map]
  refine List.filterMap_congr fun e he => ?_
  obtain ⟨hName, hValue⟩ := hEntries e he
  simp [hName, hValue]

theorem callerSees_eq_some_iff {q : Request} {k : Response} (h : Proper E sc q k)
    (seen : Response) : callerSees E T sc sid q k = some seen ↔ Passes E sc sid q k ∧
      seen = ⟨k.status, LastValue.pairs (LastValue.collect ∅ k.headers) ++ T.toResponse k,
        k.body⟩ := by
  have hResponse : callerResponse E.lib ⟨statusCode k.status, LastValue.collect ∅ k.headers, k.body, ""⟩ =
      ⟨k.status, LastValue.pairs (LastValue.collect ∅ k.headers), k.body⟩ := by
    simp only [callerResponse, if_pos, acceptedHeaders_proper h.responseHeaders,
      statusOf_statusCode h.status]
  rw [callerSees, Option.bind_eq_some_iff]
  simp only [upstreamAnswer, responseHeaders_ascii, hResponse,
    Option.ite_none_right_eq_some, Option.some.injEq, sentUpstream_eq_some_iff h]
  constructor
  · rintro ⟨r, ⟨hUrl, hId, hLen, rfl⟩, ⟨hReturned, hBack⟩, rfl⟩
    exact ⟨⟨hUrl, hId, hLen, hReturned, hBack⟩, rfl⟩
  · rintro ⟨⟨hUrl, hId, hLen, hReturned, hBack⟩, rfl⟩
    exact ⟨_, ⟨hUrl, hId, hLen, rfl⟩, ⟨hReturned, hBack⟩, rfl⟩

theorem values_forwarded {name : String} (hKept : keptName name = true)
    (headers added : List (String × String)) (spokeId : String) :
    values name ((LastValue.pairs (LastValue.collect ∅ headers)).filter
        (fun h => keptName h.1) ++ [("x-openspoke-spoke-id", spokeId)] ++ added) =
      (values name headers).getLast?.toList ++ values name added := by
  have hOwn : "x-openspoke-spoke-id" ≠ name := by
    rintro rfl
    exact absurd hKept (by decide)
  rw [LastValue.values_append, LastValue.values_append, LastValue.values_filter, if_pos hKept,
    LastValue.values_cons, if_neg hOwn, LastValue.values_nil, List.append_nil,
    LastValue.values_collect]

theorem values_returned (name : String) (headers added : List (String × String)) :
    values name (LastValue.pairs (LastValue.collect ∅ headers) ++ added) =
      (values name headers).getLast?.toList ++ values name added := by
  rw [LastValue.values_append, LastValue.values_collect]

theorem messages_carried {q : Request} {k : Response} (h : Proper E sc q k)
    (hPasses : Passes E sc sid q k) : Carried E T sc sid q k := by
  constructor
  · refine ⟨_, (kernelSees_eq_some_iff h _).mpr
      ⟨hPasses.url, hPasses.spokeId, hPasses.requestLen, rfl⟩, rfl, rfl, rfl, ?_⟩
    exact fun name hKept => values_forwarded hKept _ _ _
  · refine ⟨_, (callerSees_eq_some_iff h _).mpr ⟨hPasses, rfl⟩, rfl, rfl, ?_⟩
    exact fun name => values_returned name _ _

/-! ## Transparency -/

/-- A name comes through when it has at most one value and none is added to it. -/
theorem values_through {name : String} {headers added : List (String × String)}
    (hApart : ∀ h ∈ added, h.1 = name → ∀ h' ∈ headers, h'.1 ≠ name) :
    (values name headers).getLast?.toList ++ values name added = values name headers ↔
      (values name headers).length ≤ 1 ∧ values name added = [] := by
  cases hAdded : values name added with
  | nil => simp [LastValue.getLast_toList_eq_iff]
  | cons v rest =>
    obtain ⟨p, hp, -⟩ := List.mem_map.mp (hAdded ▸ List.mem_cons_self : v ∈ values name added)
    obtain ⟨hMem, hName⟩ := List.mem_filter.mp hp
    have hNone : values name headers = [] :=
      LastValue.values_eq_nil_iff.mpr (hApart p hMem (of_decide_eq_true hName))
    simp [hNone]

theorem transparent_iff_single {q : Request} {k : Response} (h : Proper E sc q k) :
    Transparent E T sc sid q k ↔ Single E T sc sid q k := by
  have hRequest : ∀ name, keptName name = true →
      ((values name q.headers).getLast?.toList ++ values name (T.toRequest q) =
          values name q.headers ↔
        (values name q.headers).length ≤ 1 ∧ values name (T.toRequest q) = []) := fun name hKept =>
    values_through fun p hp hName p' hp' => hName ▸ T.hRequest q p hp (hName ▸ hKept) p' hp'
  have hResponse : ∀ name,
      ((values name k.headers).getLast?.toList ++ values name (T.toResponse k) =
          values name k.headers ↔
        (values name k.headers).length ≤ 1 ∧ values name (T.toResponse k) = []) := fun name =>
    values_through fun p hp hName p' hp' => hName ▸ T.hResponse k p hp p' hp'
  constructor
  · rintro ⟨⟨seen, hSeen, -, hPath, -, hValues⟩, back, hBack, -, -, hBackValues⟩
    obtain ⟨-, -, -, rfl⟩ := (kernelSees_eq_some_iff h seen).mp hSeen
    obtain ⟨hPasses, rfl⟩ := (callerSees_eq_some_iff h back).mp hBack
    simp only [values_returned, hResponse] at hBackValues
    have hThere : ∀ name, keptName name = true →
        (values name q.headers).length ≤ 1 ∧ values name (T.toRequest q) = [] := fun name hKept =>
      (hRequest name hKept).mp ((values_forwarded hKept _ _ _).symm.trans (hValues name hKept))
    refine ⟨hPasses, hPath, fun name hKept => (hThere name hKept).1, fun p hp => ?_,
      fun name => (hBackValues name).1, ?_⟩
    · by_contra hKept
      rw [Bool.not_eq_false] at hKept
      exact LastValue.values_eq_nil_iff.mp (hThere p.1 hKept).2 p hp rfl
    · refine List.eq_nil_iff_forall_not_mem.mpr fun p hp => ?_
      exact LastValue.values_eq_nil_iff.mp (hBackValues p.1).2 p hp rfl
  · rintro ⟨hPasses, hPath, hOnce, hNone, hOnceBack, hNoneBack⟩
    refine ⟨⟨_, (kernelSees_eq_some_iff h _).mpr
      ⟨hPasses.url, hPasses.spokeId, hPasses.requestLen, rfl⟩, rfl, hPath, rfl, ?_⟩,
      _, (callerSees_eq_some_iff h _).mpr ⟨hPasses, rfl⟩, rfl, rfl, ?_⟩
    · intro name hKept
      refine (values_forwarded hKept _ _ _).trans ((hRequest name hKept).mpr ⟨hOnce name hKept, ?_⟩)
      refine LastValue.values_eq_nil_iff.mpr fun p hp hName => ?_
      have := hNone p hp
      rw [hName, hKept] at this
      cases this
    · refine fun name => (values_returned name _ _).trans ?_
      refine (hResponse name).mpr ⟨hOnceBack name, ?_⟩
      rw [hNoneBack]
      rfl

theorem Transparent.passes {q : Request} {k : Response} (h : Proper E sc q k)
    (hTransparent : Transparent E T sc sid q k) : Passes E sc sid q k :=
  ((transparent_iff_single h).mp hTransparent).passes

theorem body_le_requestFrameLen (sid : Nat) (q : Request) :
    q.body.length ≤ requestFrameLen sid (requestMessage q) := by
  have hBody : q.body.length ≤ bytesFieldLen 4 q.body.length := by
    unfold bytesFieldLen fieldLen
    split <;> omega
  simp only [requestFrameLen, fieldLen, requestMessage]
  omega

/-! ## A proxy -/

def plainHttp : HttpLib where
  method m := if m.toList.all Char.isUpper then some m else none
  headerName name :=
    if name ≠ "" ∧ name.toList.all (fun c => c.isAlphanum || c = '-') then some (toAsciiLowercase name)
    else none
  headerValue v := v.toList.all fun c => 32 ≤ c.toNat && c.toNat < 127
  url u := if startsWith u "http://" then .ok () else .error "relative URL without a base"
  join _ location := some location
  follow := Server.followPlain

def plainEnv : Env := ⟨⟨∅, "http://kernel:8000", {"/core/jev/decide"}⟩, plainHttp, 1⟩

def plainSpoke : SpokeConfig := ⟨"app-example", .application, [], "t"⟩

/-- Those of the headers that the message does not have. -/
def missing (headers added : List (String × String)) : List (String × String) :=
  added.filter fun h => h.1 ∉ headers.map Prod.fst

theorem missing_apart {headers added : List (String × String)} :
    ∀ h ∈ missing headers added, ∀ h' ∈ headers, h'.1 ≠ h.1 := by
  intro h hMem h' hMem' hEq
  have hNot := of_decide_eq_true (List.mem_filter.mp hMem).2
  exact hNot (hEq ▸ List.mem_map_of_mem hMem')

/-- reqwest asks for `*/*` unless the caller says what it accepts, and the local server dates its
responses. -/
def plainTransport : Transport where
  path u := String.ofList ((u.toList.drop 7).dropWhile (· ≠ '/'))
  toRequest q := ("host", "kernel:8000") :: missing q.headers [("accept", "*/*"),
    ("content-length", String.ofList (Nat.toDigits 10 q.body.length))]
  toResponse k := missing k.headers [("date", "Thu, 01 Jan 1970 00:00:00 GMT"),
    ("content-length", String.ofList (Nat.toDigits 10 k.body.length))]
  hRequest := by
    intro q h hMem hKept
    obtain rfl | hMem := List.mem_cons.mp hMem
    · exact absurd hKept (by decide)
    · exact missing_apart h hMem
  hResponse := fun k => missing_apart

def plainRequest : Request :=
  ⟨"POST", "/core/jev/decide", [("accept", "application/json"), ("content-length", "2")], [123, 125]⟩

def plainResponse : Response :=
  ⟨200, [("content-length", "0"), ("date", "Thu, 01 Jan 1970 00:00:01 GMT")], []⟩

theorem plain_proper : Proper plainEnv plainSpoke plainRequest plainResponse where
  kind := rfl
  ownHeader := by decide
  method := by decide
  path := by decide
  body := by decide
  requestHeaders := by decide
  status := by decide
  responseHeaders := by decide

/-- The first id that the spoke gives. -/
def plainSid : Nat := 2 ^ 63

theorem plain_carried :
    Carried plainEnv plainTransport plainSpoke plainSid plainRequest plainResponse :=
  messages_carried plain_proper ⟨by decide, by decide, by decide, by decide, by decide⟩

example : Transparent plainEnv plainTransport plainSpoke plainSid plainRequest plainResponse :=
  (transparent_iff_single plain_proper).mpr ⟨⟨by decide, by decide, by decide, by decide, by decide⟩,
    by decide, fun name _ => LastValue.length_values_le_one (by decide), by decide,
    fun name => LastValue.length_values_le_one (by decide), by decide⟩

/-- A request of 5 MiB. -/
def largeRequest : Request := { plainRequest with body := List.replicate (5 * 1024 * 1024) 0 }

theorem large_proper : Proper plainEnv plainSpoke largeRequest plainResponse :=
  { plain_proper with body := by rw [largeRequest, List.length_replicate]; decide }

/-- Of two cookies that the kernel sets the caller gets the second one only, a request of more than
4 MiB does not arrive, and a redirect of the kernel is not seen by the caller. -/
theorem messages_lost :
    ¬Transparent plainEnv plainTransport plainSpoke plainSid plainRequest
      ⟨200, [("set-cookie", "a=1"), ("set-cookie", "b=2")], []⟩ ∧
    ¬Transparent plainEnv plainTransport plainSpoke plainSid largeRequest plainResponse ∧
    ¬Transparent plainEnv plainTransport plainSpoke plainSid plainRequest
      ⟨307, [("location", "http://kernel:8000/core/jev/decide/")], []⟩ := by
  refine ⟨fun h => ?_, fun h => ?_, fun h => ?_⟩
  · have hProper : Proper plainEnv plainSpoke plainRequest
        ⟨200, [("set-cookie", "a=1"), ("set-cookie", "b=2")], []⟩ :=
      { plain_proper with status := by decide, responseHeaders := by decide }
    exact absurd (((transparent_iff_single hProper).mp h).response "set-cookie") (by decide)
  · have hLen := (body_le_requestFrameLen plainSid largeRequest).trans (h.passes large_proper).requestLen
    rw [largeRequest, List.length_replicate] at hLen
    exact absurd hLen (by decide)
  · have hProper : Proper plainEnv plainSpoke plainRequest
        ⟨307, [("location", "http://kernel:8000/core/jev/decide/")], []⟩ :=
      { plain_proper with status := by decide, responseHeaders := by decide }
    exact absurd (h.passes hProper).returned (by decide)

end OpenSpoke.Tunnel
