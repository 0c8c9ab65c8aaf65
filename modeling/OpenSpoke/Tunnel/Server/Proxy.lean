import Mathlib
import OpenSpoke.Tunnel.Server.Outbox

/-!
# Confinement of the HTTP proxy

Which upstream requests the server can issue against a spoke that chooses every
frame it sends. The HTTP client stores header names in lower case. It follows
redirects: to where a `Location` of the answer leads, with the headers of the
request but for a few of its own list.
-/

namespace OpenSpoke.Tunnel

open Lts

/-! ## The header filter -/

theorem toAsciiLowercase_idem (s : String) :
    toAsciiLowercase (toAsciiLowercase s) = toAsciiLowercase s := by
  simp [toAsciiLowercase, Function.comp_def]

/-- The name starts with the reserved prefix, in any letter case. -/
def reservedName (name : String) : Bool := startsWith (toAsciiLowercase name) reserved

/-- Header names are stored in lower case. -/
def HttpLib.LowersNames (lib : HttpLib) : Prop :=
  ∀ k name, lib.headerName k = some name → name = toAsciiLowercase k

/-- The headers that the client may drop or set on a redirect. -/
def redirectEdits : List String :=
  ["authorization", "cookie", "cookie2", "proxy-authorization", "www-authenticate", "content-type",
    "content-length", "content-encoding", "transfer-encoding", "referer"]

/-- A redirect of the answer leads from one request to the URL of the other. -/
def Redirects (lib : HttpLib) (req next : UpstreamRequest) : Prop :=
  ∃ (resp : UpstreamResponse) (location : String), resp.status ∈ [301, 302, 303, 307, 308] ∧
    ("location", some location) ∈ resp.headers ∧ lib.join req.url location = some next.url

/-- What the HTTP client documents. -/
structure HttpLib.Documented (lib : HttpLib) : Prop where
  lower : lib.LowersNames
  redirects : ∀ req resp next, lib.follow req resp = some next → Redirects lib req next
  headers : ∀ req resp next, lib.follow req resp = some next →
    next.headers.filter (fun e => e.1 ∉ redirectEdits) =
      req.headers.filter fun e => e.1 ∉ redirectEdits

def reservedHeaders (req : UpstreamRequest) : List (String × String) :=
  req.headers.filter fun e => reservedName e.1

variable {lib : HttpLib}

theorem request_ok {method url : String} {r : UpstreamRequest}
    (h : lib.request method url = .ok r) : r = ⟨method, url, [], []⟩ := by
  unfold HttpLib.request at h
  split at h
  · exact (Except.ok.inj h).symm
  · cases h

theorem header_ok {builder : RequestBuilder} {k v : String} {r : UpstreamRequest}
    (h : lib.header builder k v = .ok r) : ∃ b name, builder = .ok b ∧
      lib.headerName k = some name ∧ r = { b with headers := b.headers ++ [(name, v)] } := by
  cases builder with
  | error e => cases h
  | ok b =>
    simp only [HttpLib.header, Except.bind] at h
    split at h
    · cases h
    · next name hName =>
      split at h
      · exact ⟨b, name, rfl, hName, (Except.ok.inj h).symm⟩
      · cases h

theorem copyHeader_ok (hLower : lib.LowersNames) {builder : RequestBuilder} {k v : String}
    {r : UpstreamRequest} (h : copyHeader lib builder k v = .ok r) :
    ∃ b, builder = .ok b ∧ r.url = b.url ∧ reservedHeaders r = reservedHeaders b := by
  unfold copyHeader at h
  split at h
  · exact ⟨r, h, rfl, rfl⟩
  split at h
  · exact ⟨r, h, rfl, rfl⟩
  next hKept =>
  obtain ⟨b, name, hb, hName, rfl⟩ := header_ok h
  refine ⟨b, hb, rfl, ?_⟩
  have hFree : reservedName name = false := by
    rw [hLower k name hName, reservedName, toAsciiLowercase_idem]
    exact Bool.eq_false_iff.mpr hKept
  simp [reservedHeaders, List.filter_append, hFree]

theorem copyHeaders_ok (hLower : lib.LowersNames) {entries : List (Sigma fun _ : String => String)}
    {builder : RequestBuilder} {r : UpstreamRequest}
    (h : entries.foldl (fun b e => copyHeader lib b e.1 e.2) builder = .ok r) :
    ∃ b, builder = .ok b ∧ r.url = b.url ∧ reservedHeaders r = reservedHeaders b := by
  induction entries generalizing builder with
  | nil => exact ⟨r, h, rfl, rfl⟩
  | cons e entries ih =>
    obtain ⟨b, hb, hUrl, hReserved⟩ := ih h
    obtain ⟨b', hb', hUrl', hReserved'⟩ := copyHeader_ok hLower hb
    exact ⟨b', hb', hUrl.trans hUrl', hReserved.trans hReserved'⟩

theorem withBody_ok {builder : RequestBuilder} {body : Bytes} {r : UpstreamRequest}
    (h : withBody builder body = .ok r) : ∃ b, builder = .ok b ∧ r = { b with body := body } := by
  cases builder with
  | error e => cases h
  | ok b => exact ⟨b, rfl, (Except.ok.inj h).symm⟩

/-- The URL is the kernel's followed by the path, and the only reserved header is
the hub's own. -/
theorem forward_ok (hLower : lib.LowersNames) {cfg : ServerConfig} {spokeId : String}
    {req : HttpRequest} {r : UpstreamRequest} (h : forward lib cfg spokeId req = .ok r) :
    r.url = cfg.kernelUrl ++ req.path ∧
      reservedHeaders r = [("x-openspoke-spoke-id", spokeId)] := by
  obtain ⟨r', hBuilt, rfl⟩ := withBody_ok h
  obtain ⟨b, name, hFold, hName, rfl⟩ := header_ok hBuilt
  obtain ⟨b', hRequest, hUrl, hReserved⟩ := copyHeaders_ok hLower hFold
  have hFresh := request_ok hRequest
  subst hFresh
  have hOwn : name = "x-openspoke-spoke-id" := by
    rw [hLower _ _ hName]
    decide
  have hKeep : reservedName "x-openspoke-spoke-id" = true := by decide
  have hNone : b.headers.filter (fun e => reservedName e.1) = [] := hReserved
  refine ⟨hUrl, ?_⟩
  simp [reservedHeaders, List.filter_append, hNone, hOwn, hKeep]

theorem not_reserved_of_edit : ∀ name ∈ redirectEdits, reservedName name = false := by decide

theorem follow_reserved (hLib : lib.Documented) {req next : UpstreamRequest}
    {resp : UpstreamResponse} (h : lib.follow req resp = some next) :
    reservedHeaders next = reservedHeaders req := by
  have hAll : ∀ headers : List (String × String), headers.filter (fun e => reservedName e.1) =
      (headers.filter fun e => e.1 ∉ redirectEdits).filter fun e => reservedName e.1 := by
    intro headers
    rw [List.filter_filter]
    apply List.filter_congr
    intro e _
    by_cases hEdit : e.1 ∈ redirectEdits
    · simp [hEdit, not_reserved_of_edit e.1 hEdit]
    · simp [hEdit]
  rw [reservedHeaders, reservedHeaders, hAll next.headers, hLib.headers req resp next h,
    ← hAll req.headers]

theorem reserved_of_chain (hLib : lib.Documented) {first : UpstreamRequest}
    {more : List UpstreamRequest}
    (h : (first :: more).IsChain fun r r' => ∃ resp, lib.follow r resp = some r') :
    ∀ req ∈ first :: more, reservedHeaders req = reservedHeaders first := by
  induction more generalizing first with
  | nil => simp
  | cons second more ih =>
    obtain ⟨⟨resp, hFollow⟩, hRest⟩ := List.isChain_cons_cons.mp h
    have hSame := follow_reserved hLib hFollow
    rw [List.forall_mem_cons]
    exact ⟨rfl, fun req hReq => (ih hRest req hReq).trans hSame⟩

/-! ## Authentication -/

/-- What the `Connect` call of connection `c` has read from its spoke. -/
def framesOf (c : ConnId) (acts : List ServerAct) : List Incoming :=
  acts.filterMap fun
    | .conn d (.frame r) => if d = c then some r else none
    | _ => none

/-- The first frame of connection `c` was a handshake of the configured spoke
`sc` with exactly its token. -/
def Authenticated (E : Env) (acts : List ServerAct) (c : ConnId) (hs : HandshakeResponse)
    (sc : SpokeConfig) : Prop :=
  ∃ f rest, framesOf c acts = some (.ok f) :: rest ∧ f.kind = some (.handshake hs) ∧
    E.cfg.spokes.lookup hs.spokeId = some sc ∧ hs.signature = asBytes sc.token

theorem handshake_ok {cfg : ServerConfig} {r : Incoming} {hs : HandshakeResponse} {sc : SpokeConfig}
    (h : handshake cfg r = .ok (hs, sc)) : ∃ f, r = some (.ok f) ∧ f.kind = some (.handshake hs) ∧
      cfg.spokes.lookup hs.spokeId = some sc ∧ hs.signature = asBytes sc.token := by
  unfold handshake at h
  split at h
  · cases h
  · cases h
  next f =>
  split at h
  · next hs' hKind =>
    split at h
    · cases h
    · next sc' hLookup =>
      split at h
      · cases h
      · next hToken =>
        cases h
        exact ⟨f, rfl, hKind, hLookup, not_not.mp hToken⟩
  · cases h

theorem framesOf_snoc (c : ConnId) (acts : List ServerAct) (a : ServerAct) :
    framesOf c (acts ++ [a]) = framesOf c acts ++ framesOf c [a] := List.filterMap_append

theorem framesOf_of_not_conn {c : ConnId} {a : ServerAct} (h : ∀ e, a ≠ .conn c e) :
    framesOf c [a] = [] := by
  cases a with
  | conn d e =>
    have hd : d ≠ c := by
      rintro rfl
      exact h e rfl
    cases e <;> simp [framesOf, hd]
  | _ => rfl

theorem Authenticated.snoc {E : Env} {acts : List ServerAct} {c : ConnId} {hs : HandshakeResponse}
    {sc : SpokeConfig} (h : Authenticated E acts c hs sc) (a : ServerAct) :
    Authenticated E (acts ++ [a]) c hs sc := by
  obtain ⟨f, rest, hFrames, hFirst⟩ := h
  exact ⟨f, rest ++ framesOf c [a], by rw [framesOf_snoc, hFrames, List.cons_append], hFirst⟩

def requestOf : Incoming → Option (Nat × HttpRequest)
  | some (.ok f) =>
    match f.kind with
    | some (.httpRequest req) => some (f.streamId, req)
    | _ => none
  | _ => none

namespace Server

/-- The requests of connection `c` in the order in which they were read. -/
def requestsOn (s : Server) (c : ConnId) : List (Nat × HttpRequest) :=
  (List.range s.nextTask).filterMap fun n =>
    if (s.task n).conn = c then some ((s.task n).sid, (s.task n).req) else none

/-- The request of connection `c` that a step reads. -/
def requestRead (s : Server) (c : ConnId) : ServerAct → Option (Nat × HttpRequest)
  | .conn d (.frame r) => if d = c ∧ s.phase c = .recv .next then requestOf r else none
  | _ => none

/-- What a run has read from the connections, in each phase of theirs. -/
structure FramesOk (E : Env) (acts : List ServerAct) (s : Server) : Prop where
  first : ∀ c, s.phase c = .absent ∨ s.phase c = .recvFirst → framesOf c acts = []
  inside : ∀ c, (s.phase c).stage ≠ .outside →
    ∃ hs, Authenticated E acts c hs (s.sc c) ∧ s.idOf c = hs.spokeId
  requests : ∀ c, (framesOf c acts).tail.filterMap requestOf = s.requestsOn c

theorem framesOk_init (E : Env) : FramesOk E [] init := by
  constructor <;> simp [framesOf, init, Phase.stage, requestsOn]

theorem requestsOn_same {s t : Server} (hNext : t.nextTask = s.nextTask) (c : ConnId)
    (hTask : ∀ n < s.nextTask, (t.task n).conn = (s.task n).conn ∧ (t.task n).sid = (s.task n).sid ∧
      (t.task n).req = (s.task n).req) : t.requestsOn c = s.requestsOn c := by
  rw [requestsOn, hNext]
  refine List.filterMap_congr fun n hn => ?_
  obtain ⟨hConn, hSid, hReq⟩ := hTask n (List.mem_range.mp hn)
  rw [hConn, hSid, hReq]

theorem requestsOn_added {s t : Server} (hNext : t.nextTask = s.nextTask + 1) (c : ConnId)
    (hTask : ∀ n < s.nextTask, (t.task n).conn = (s.task n).conn ∧ (t.task n).sid = (s.task n).sid ∧
      (t.task n).req = (s.task n).req) : t.requestsOn c = s.requestsOn c ++
        if (t.task s.nextTask).conn = c then
          [((t.task s.nextTask).sid, (t.task s.nextTask).req)] else [] := by
  rw [requestsOn, hNext, List.range_succ, List.filterMap_append]
  congr 1
  · refine List.filterMap_congr fun n hn => ?_
    obtain ⟨hConn, hSid, hReq⟩ := hTask n (List.mem_range.mp hn)
    rw [hConn, hSid, hReq]
  · split <;> simp [*]

theorem requestsOn_recvMove {E : Env} {s t : Server} {c d : ConnId} {pc : RecvPc} {e : ConnEv}
    (hPhase : s.phase d = .recv pc) (hMove : RecvMove E s d pc e t)
    (hTask : ∀ n < s.nextTask, (t.task n).conn = (s.task n).conn ∧ (t.task n).sid = (s.task n).sid ∧
      (t.task n).req = (s.task n).req) :
    t.requestsOn c = s.requestsOn c ++ (requestRead s c (.conn d e)).toList := by
  cases hMove with
  | rejectKind f req hKind =>
    rw [requestsOn_added rfl c hTask]
    by_cases hd : d = c
    · subst hd; simp [requestRead, hPhase, requestOf, hKind]
    · simp [requestRead, hd]
  | request f req hKind =>
    rw [requestsOn_added rfl c hTask]
    by_cases hd : d = c
    · subst hd; simp [requestRead, hPhase, requestOf, hKind]
    · simp [requestRead, hd]
  | ignored f hKind =>
    rcases hKind with ⟨n, hKind⟩ | ⟨hs, hKind⟩ | hKind <;>
      simp [requestRead, requestOf, hKind]
  | ended r hEnd =>
    rw [requestsOn_same (by simp) c hTask]
    rcases r with _ | _ | f
    · simp [requestRead, requestOf]
    · simp [requestRead, requestOf]
    · exact absurd rfl (hEnd f)
  | _ =>
    rw [requestsOn_same (by simp) c hTask]
    simp [requestRead, requestOf, *]

theorem requestsOn_step {E : Env} {s t : Server} {a : ServerAct} (h : step E s a = some t)
    (c : ConnId) : t.requestsOn c = s.requestsOn c ++ (requestRead s c a).toList := by
  have hTask := fun n (hn : n < s.nextTask) => task_step h hn
  have hQuiet : t.nextTask = s.nextTask → requestRead s c a = none →
      t.requestsOn c = s.requestsOn c ++ (requestRead s c a).toList := by
    intro hNext hNone
    rw [requestsOn_same hNext c hTask, hNone]
    exact (List.append_nil _).symm
  cases a with
  | conn d e =>
    cases connStep_move h with
    | recv pc e t hPhase hMove => exact requestsOn_recvMove hPhase hMove hTask
    | refused r reason text hPhase =>
      refine hQuiet rfl (if_neg ?_)
      rintro ⟨rfl, hAt⟩
      simp [hPhase] at hAt
    | welcomed r hs sc hPhase =>
      refine hQuiet rfl (if_neg ?_)
      rintro ⟨rfl, hAt⟩
      simp [hPhase] at hAt
    | _ => exact hQuiet (by simp) rfl
  | connect nonce issuedAt => cases h; exact hQuiet rfl rfl
  | loop d k e => cases loopStep_move h <;> exact hQuiet rfl rfl
  | up sid e => cases upStep_move h <;> exact hQuiet (by simp) rfl
  | down sid e => cases downStep_move h <;> exact hQuiet rfl rfl
  | http n e => cases httpStep_move h <;> exact hQuiet rfl rfl
  | env e => cases envStep_move h <;> exact hQuiet rfl rfl

theorem step_idOf {E : Env} {s t : Server} {a : ServerAct} (h : step E s a = some t) {c : ConnId}
    (hOwn : ∀ e, a ≠ .conn c e) : t.idOf c = s.idOf c := by
  unfold idOf
  cases a with
  | connect nonce issuedAt => cases h; rfl
  | conn d e =>
    have hd : c ≠ d := by
      rintro rfl
      exact hOwn e rfl
    cases connStep_move h with
    | recv pc e t hPhase hMove => cases hMove <;> simp
    | closeOld old | clearOld old =>
      by_cases ho : c = old <;> simp [ho]
    | _ => simp [hd]
  | loop d k e => exact (loopMove_control (loopStep_move h)).spokeId c
  | _ => exact (data_control h (by simp) (by simp) (by simp)).1.spokeId c

theorem connMove_inside {E : Env} {s t : Server} {c : ConnId} {e : ConnEv} (h : ConnMove E s c e t)
    (hPhase : s.phase c ≠ .recvFirst) : (s.phase c).stage ≠ .outside ∧
      (t.phase c).stage ≠ .outside ∧ t.idOf c = s.idOf c ∧ t.sc c = s.sc c ∧
      ∀ r, e = .frame r → s.phase c = .recv .next := by
  unfold idOf
  cases h with
  | refused r reason text hFirst | welcomed r hs sc hFirst => exact absurd hFirst hPhase
  | recv pc e t hAt hMove =>
    cases hMove <;> simp [hAt, Phase.stage]
  | closeOld old hAt | clearOld old hAt =>
    refine ⟨by simp [hAt, Phase.stage], by simp [Phase.stage], ?_, by simp, by simp⟩
    by_cases ho : c = old <;> simp [ho]
  | _ => simp [Phase.stage, *]

theorem framesOk_step {E : Env} {s t : Server} {acts : List ServerAct} {a : ServerAct}
    (hFresh : FreshConns s) (hOk : FramesOk E acts s) (h : step E s a = some t) :
    FramesOk E (acts ++ [a]) t := by
  have hEach : ∀ c, (t.phase c = .absent ∨ t.phase c = .recvFirst → framesOf c (acts ++ [a]) = []) ∧
      ((t.phase c).stage ≠ .outside →
        ∃ hs, Authenticated E (acts ++ [a]) c hs (t.sc c) ∧ t.idOf c = hs.spokeId) ∧
      (framesOf c (acts ++ [a])).tail.filterMap requestOf = t.requestsOn c := by
    intro c
    rw [requestsOn_step h]
    have hRequests := hOk.requests c
    rcases step_phase h c with ⟨e, rfl, hMove⟩ | ⟨hOwn, hSc, hPhase⟩
    · by_cases hFirst : s.phase c = .recvFirst
      · have hNone := hOk.first c (.inr hFirst)
        rw [framesOf_snoc, hNone, List.nil_append]
        rw [hNone] at hRequests
        rw [← hRequests]
        cases hMove with
        | refused r reason text => simp [framesOf, requestRead, hFirst, Phase.stage]
        | welcomed r hs sc hPhase hHello =>
          obtain ⟨f, rfl, hSpoke⟩ := handshake_ok hHello
          refine ⟨by simp, fun _ => ⟨hs, ⟨f, [], ?_, ?_⟩, by simp [idOf]⟩, ?_⟩
          · rw [framesOf_snoc, hNone]; simp [framesOf]
          · simpa using hSpoke
          · simp [framesOf, requestRead, hFirst]
        | _ => simp_all
      · obtain ⟨hIn, hIn', hId, hSc, hFrame⟩ := connMove_inside hMove hFirst
        obtain ⟨hs, hAuth, hSpoke⟩ := hOk.inside c hIn
        refine ⟨?_, fun _ => ⟨hs, hSc ▸ hAuth.snoc _, hId.trans hSpoke⟩, ?_⟩
        · rintro (hAt | hAt) <;> simp [hAt, Phase.stage] at hIn'
        · obtain ⟨f, rest, hFrames, -⟩ := hAuth
          rw [hFrames] at hRequests
          rw [framesOf_snoc, hFrames, ← hRequests]
          cases e with
          | frame r =>
            have hAt := hFrame r rfl
            cases hr : requestOf r <;> simp [framesOf, requestRead, hAt, hr]
          | _ => simp [framesOf, requestRead]
    · have hRead : requestRead s c a = none := by
        unfold requestRead
        split
        · next d r => exact if_neg (by rintro ⟨rfl, -⟩; exact hOwn _ rfl)
        · rfl
      rw [framesOf_snoc, framesOf_of_not_conn hOwn, List.append_nil, hRead]
      refine ⟨?_, ?_, by simpa using hRequests⟩
      · rcases hPhase with hPhase | ⟨rfl, -⟩
        · rw [hPhase]
          exact hOk.first c
        · exact fun _ => hOk.first _ (.inl (hFresh _ le_rfl))
      · rcases hPhase with hPhase | ⟨rfl, hPhase⟩
        · rw [hPhase, hSc, step_idOf h hOwn]
          intro hIn
          obtain ⟨hs, hAuth, hSpoke⟩ := hOk.inside c hIn
          exact ⟨hs, hAuth.snoc a, hSpoke⟩
        · simp [hPhase, Phase.stage]
  exact ⟨fun c => (hEach c).1, fun c => (hEach c).2.1, fun c => (hEach c).2.2⟩

/-! ## Confinement -/

/-- Own steps left until the request is answered, were it denied. -/
def stepsLeft : HttpPc → Nat
  | .start => 2
  | .inline | .reply _ => 1
  | _ => 0

def Denied (E : Env) (s : Server) (n : Nat) : Prop :=
  (s.sc (s.task n).conn).kind ≠ .application ∨ (s.task n).req.path ∉ E.cfg.allowedPaths

/-- What a run promises of the requests it has read. -/
structure Confined (E : Env) (acts : List ServerAct) (s : Server) : Prop where
  /-- the requests of a connection are its `HttpRequest` frames after the first frame -/
  requests : ∀ c, (framesOf c acts).tail.filterMap requestOf = s.requestsOn c
  authenticated : ∀ n < s.nextTask, ∃ hs, Authenticated E acts (s.task n).conn hs (s.sc (s.task n).conn)
  /-- the first request goes to the allowed path of the kernel, and further ones follow redirects -/
  issued : ∀ n, s.issuedFor n ≠ [] → n < s.nextTask ∧
    ∃ hs sc first more, s.issuedFor n = first :: more ∧ more.length ≤ maxRedirects ∧
      Authenticated E acts (s.task n).conn hs sc ∧ sc.kind = .application ∧
      (s.task n).req.path ∈ E.cfg.allowedPaths ∧
      first.url = E.cfg.kernelUrl ++ (s.task n).req.path ∧
      (first :: more).IsChain (Redirects E.lib) ∧
      ∀ req ∈ first :: more, reservedHeaders req = [("x-openspoke-spoke-id", hs.spokeId)]
  denied : ∀ n < s.nextTask, s.Denied E n → s.issuedFor n = [] ∧ ∃ resp, resp.status = 403 ∧
    (s.answersTo n = [resp] ∨ s.answersTo n = [] ∧
      ((s.task n).pc = .ended → s.rxOpen (s.task n).conn = false))
  answering : ∀ n < s.nextTask, s.Denied E n → (s.task n).pc ≠ .ended →
    (s.rxOpen (s.task n).conn = true → (s.outbox (s.task n).conn).length < frameCap + E.wire) →
    ∃ a t, step E s a = some t ∧ stepsLeft (t.task n).pc < stepsLeft (s.task n).pc
  /-- a request that passes the checks but cannot be built -/
  unsendable : ∀ n < s.nextTask, ¬ s.Denied E n → ∀ err,
    forward E.lib E.cfg (s.idOf (s.task n).conn) (s.task n).req = .error err → s.issuedFor n = [] ∧
      (s.answersTo n = [] ∨ s.answersTo n = [upstreamError err])
  responses : ∀ c, (received E c acts ++ s.outbox c).filter isResponse = s.responseFrames c

structure ProxyOk (E : Env) (acts : List ServerAct) (s : Server) : Prop where
  outbox : OutboxOk E s
  frames : FramesOk E acts s

theorem proxyOk_of_run {E : Env} {s : Server} {acts : List ServerAct}
    (h : run (step E) init acts = some s) : ProxyOk E acts s := by
  refine run_induction (motive := ProxyOk E) h ⟨outboxOk_init E, framesOk_init E⟩ ?_
  rintro acts s a t - ⟨hOutbox, hFrames⟩ hStep
  exact ⟨outboxOk_step hOutbox hStep, framesOk_step hOutbox.fresh hFrames hStep⟩

theorem stage_of_registered {s : Server} {c : ConnId} (h : s.Registered c) :
    (s.phase c).stage ≠ .outside := by
  intro hOut
  rw [Registered, hOut] at h
  cases h

theorem verdictOn_denied {E : Env} {s : Server} {n : Nat} (h : s.Denied E n) :
    ∃ resp, s.verdictOn E n = .denied resp ∧ resp.status = 403 := by
  by_cases hKind : (s.sc (s.task n).conn).kind = .application
  · exact ⟨_, verdict_of_path hKind (h.resolve_left (not_not.mpr hKind)), rfl⟩
  · exact ⟨_, verdict_of_kind hKind, rfl⟩

section Handled

variable {v : Verdict} {sent : List UpstreamRequest} {replies : List HttpResponse} {rx : Bool}
  {pc : HttpPc}

/-- What is issued begins with the request that the verdict forwards. -/
theorem Handled.issued (h : Handled lib v sent replies rx pc) (hNe : sent ≠ []) :
    ∃ first last hops, v = .forwarded first ∧ hops ≤ maxRedirects ∧
      Tunnel.Sends lib first last hops sent := by
  have hIssues : v.Issues lib sent → ∃ first last hops, v = .forwarded first ∧
      hops ≤ maxRedirects ∧ Tunnel.Sends lib first last hops sent := by
    intro hIssues
    cases v with
    | forwarded first =>
      obtain ⟨last, hops, hMost, hSends⟩ := hIssues
      exact ⟨first, last, hops, rfl, hMost, hSends⟩
    | _ => exact absurd hIssues hNe
  have hAwaits : ∀ {req hops}, pc.awaits = some (req, hops) → ∃ first last hops,
      v = .forwarded first ∧ hops ≤ maxRedirects ∧ Tunnel.Sends lib first last hops sent := by
    intro req hops hPc
    obtain ⟨⟨first, hVerdict, hSends⟩, hMost, -⟩ := h.awaits hPc
    exact ⟨first, req, hops, hVerdict, hMost, hSends⟩
  cases pc with
  | send builder =>
    cases builder with
    | error err => exact absurd h.2.1 hNe
    | ok req => exact hAwaits rfl
  | following req hops => exact hAwaits rfl
  | reply resp => exact hIssues h.2.1
  | ended => exact hIssues h.1
  | inline => exact absurd h.2.1 hNe
  | absent | start => exact absurd h.1 hNe

theorem Handled.answers (h : Handled lib v sent replies rx pc) {resp : HttpResponse}
    (hOnly : ∀ d, v.Allows d → d = resp) :
    replies = [resp] ∨ replies = [] ∧ (pc = .ended → rx = false) := by
  cases pc with
  | send builder => cases builder <;> exact .inr ⟨h.2.2, by simp⟩
  | ended =>
    obtain ⟨-, d, hAllows, hAnswers | ⟨hNone, hRx⟩⟩ := h
    · exact .inl (hOnly d hAllows ▸ hAnswers)
    · exact .inr ⟨hNone, fun _ => hRx⟩
  | absent | start => exact .inr ⟨h.2, by simp⟩
  | _ => exact .inr ⟨h.2.2, by simp⟩

end Handled

theorem send_isSome {E : Env} {s : Server} {c : ConnId} (f : ServerFrame)
    (h : s.rxOpen c = true → (s.outbox c).length < frameCap + E.wire) :
    ∃ r, s.send E c f = some r := by
  unfold send
  split
  · next hRx => exact ⟨_, if_pos (h hRx)⟩
  · exact ⟨_, rfl⟩

/-- Unless the channel is full, a denied request has a step to take. -/
theorem RequestsOk.answering {E : Env} {s : Server} (h : RequestsOk E s) {n : Nat}
    (hn : n < s.nextTask) (hDenied : s.Denied E n) (hPc : (s.task n).pc ≠ .ended)
    (hRoom : s.rxOpen (s.task n).conn = true →
      (s.outbox (s.task n).conn).length < frameCap + E.wire) :
    ∃ a t, step E s a = some t ∧ stepsLeft (t.task n).pc < stepsLeft (s.task n).pc := by
  obtain ⟨resp, hVerdict, -⟩ := verdictOn_denied hDenied
  have hHandled := h.handled n
  rw [hVerdict] at hHandled
  cases hAt : (s.task n).pc with
  | absent => exact absurd hAt (h.read n hn).1
  | ended => exact absurd hAt hPc
  | inline =>
    have hPhase := (h.inline _ n).mpr ⟨hAt, rfl⟩
    obtain ⟨⟨u, sent⟩, hSend⟩ := send_isSome ⟨(s.task n).sid, some (.httpResponse rejectedKind)⟩ hRoom
    refine ⟨.conn (s.task n).conn .tau, _, by simp [step, connStep, hPhase, recvStep, hSend]; rfl, ?_⟩
    simp [stepsLeft]
  | start =>
    have hPath := hDenied.resolve_left (not_not.mpr (h.start n hAt))
    refine ⟨.http n .tau, _, by simp [step, httpStep, httpTau, hAt, hPath]; rfl, ?_⟩
    simp [stepsLeft]
  | send builder =>
    rw [hAt] at hHandled
    cases builder <;> simp [Handled] at hHandled
  | following req hops =>
    rw [hAt] at hHandled
    simp [Handled] at hHandled
  | reply r =>
    obtain ⟨⟨u, sent⟩, hSend⟩ := send_isSome ⟨(s.task n).sid, some (.httpResponse r)⟩ hRoom
    refine ⟨.http n .tau, _, by simp [step, httpStep, httpTau, hAt, hSend]; rfl, ?_⟩
    simp [stepsLeft]

/-- In every run the proxy issues only what an authenticated application spoke may
ask for, under that spoke's name, and denies the rest with 403. -/
theorem proxy_confined {E : Env} (hLib : E.lib.Documented) {acts : List ServerAct} {s : Server}
    (h : run (step E) init acts = some s) : Confined E acts s := by
  obtain ⟨⟨hFresh, hRequests, hUnsent⟩, hFrames⟩ := proxyOk_of_run h
  constructor
  · exact hFrames.requests
  · intro n hn
    obtain ⟨hs, hAuth, -⟩ := hFrames.inside _ (stage_of_registered (hRequests.read n hn).2)
    exact ⟨hs, hAuth⟩
  · intro n hNe
    have hHandled := hRequests.handled n
    have hn : n < s.nextTask := by
      by_contra hge
      rw [hRequests.fresh n (Nat.not_lt.mp hge)] at hHandled
      exact hNe hHandled.1
    obtain ⟨first, last, hops, hVerdict, hMost, hSends⟩ := hHandled.issued hNe
    obtain ⟨hKind, hPath, hBuild⟩ := verdict_forwarded hVerdict
    obtain ⟨hs, hAuth, hSpoke⟩ := hFrames.inside _ (stage_of_registered (hRequests.read n hn).2)
    obtain ⟨hUrl, hReserved⟩ := forward_ok hLib.lower hBuild
    obtain ⟨more, hIssued⟩ := List.head?_eq_some_iff.mp hSends.head
    have hLength := hSends.length
    have hChain := hSends.chain
    rw [hIssued] at hLength hChain
    refine ⟨hn, hs, _, first, more, hIssued, ?_, hAuth, hKind, hPath, hUrl, ?_, fun req hReq => ?_⟩
    · rw [List.length_cons] at hLength
      omega
    · refine hChain.imp ?_
      rintro r r' ⟨resp, hFollow⟩
      exact hLib.redirects r resp r' hFollow
    · rw [reserved_of_chain hLib hChain req hReq, hReserved, hSpoke]
  · intro n hn hDenied
    obtain ⟨resp, hVerdict, hStatus⟩ := verdictOn_denied hDenied
    have hHandled := hRequests.handled n
    rw [hVerdict] at hHandled
    refine ⟨?_, resp, hStatus, hHandled.answers fun d hd => hd⟩
    by_contra hNe
    obtain ⟨_, _, _, hForwarded, -⟩ := hHandled.issued hNe
    cases hForwarded
  · exact fun n hn hDenied hPc hRoom => hRequests.answering hn hDenied hPc hRoom
  · intro n hn hPassed err hBuild
    have hHandled := hRequests.handled n
    have hVerdict : s.verdictOn E n = .unsendable err := by
      simp only [Denied, not_or, not_not] at hPassed
      rw [verdictOn, verdict_of_forward hPassed.1 hPassed.2, hBuild]
    rw [hVerdict] at hHandled
    refine ⟨?_, (hHandled.answers fun d hd => hd).symm.imp_left And.left⟩
    by_contra hNe
    obtain ⟨_, _, _, hForwarded, -⟩ := hHandled.issued hNe
    cases hForwarded
  · exact received_responses h

/-- A redirect that keeps method and body, to an absolute URL. -/
def followPlain (req : UpstreamRequest) (resp : UpstreamResponse) : Option UpstreamRequest :=
  if resp.status = 307 then
    (resp.headers.lookup "location").join.map fun location =>
      { req with
        url := location
        headers := req.headers.filter (·.1 ≠ "referer") ++ [("referer", req.url)] }
  else none

def appEnv : Env where
  cfg :=
    { spokes := (∅ : AList _).insert "app-x" ⟨"app-x", .application, [], "secret"⟩
      kernelUrl := "http://kernel:8000"
      allowedPaths := {"/chat"} }
  lib := ⟨some, fun k => some (toAsciiLowercase k), fun _ => true, fun _ => .ok (),
    fun _ location => some location, followPlain⟩
  wire := 0

theorem appEnv_documented : appEnv.lib.Documented where
  lower k name hName := (Option.some.inj hName).symm
  redirects req resp next h := by
    obtain ⟨hStatus, h⟩ := Option.ite_none_right_eq_some.mp h
    obtain ⟨location, hLocation, rfl⟩ := Option.map_eq_some_iff.mp h
    refine ⟨resp, location, by simp [hStatus], ?_, rfl⟩
    obtain ⟨before, after, hHeaders, -⟩ :=
      List.lookup_eq_some_iff.mp (Option.join_eq_some_iff.mp hLocation)
    simp [hHeaders]
  headers req resp next h := by
    obtain ⟨-, h⟩ := Option.ite_none_right_eq_some.mp h
    obtain ⟨location, -, rfl⟩ := Option.map_eq_some_iff.mp h
    rw [List.filter_append, List.filter_filter]
    have hReferer : [("referer", req.url)].filter (fun e => e.1 ∉ redirectEdits) = [] := by
      simp [redirectEdits]
    rw [hReferer, List.append_nil]
    apply List.filter_congr
    intro e _
    by_cases hEdit : e.1 ∈ redirectEdits
    · simp [hEdit]
    · have hOther : e.1 ≠ "referer" := by
        rintro hEq
        exact hEdit (hEq ▸ by decide)
      simp [hEdit, hOther]

def spoofedRequest : ClientFrame :=
  ⟨7, some (.httpRequest ⟨"POST", "/chat", (∅ : AList _).insert "X-OpenSpoke-Spoke-Id" "app-y", []⟩)⟩

def appHello : ClientFrame := ⟨0, some (.handshake ⟨"app-x", asBytes "secret", "tc"⟩)⟩

/-- The kernel answers with a redirect. -/
def proxyRun : List ServerAct :=
  [.connect [] 0, .conn 0 (.frame (some (.ok appHello))), .conn 0 .tau, .conn 0 .tau, .conn 0 .tau,
    .conn 0 (.frame (some (.ok spoofedRequest))), .http 0 .tau,
    .http 0 (.redirect ⟨307, [("location", some "http://kernel:8000/chat/")], .ok []⟩)]

theorem proxyRun_confined : ∃ s, run (step appEnv) init proxyRun = some s ∧
    s.issued.length = 2 ∧ Confined appEnv proxyRun s := by
  obtain ⟨s, hRun, hIssued⟩ := exists_run_of_any (step appEnv) init proxyRun
    (fun s => s.issued.length = 2) (by decide)
  exact ⟨s, hRun, of_decide_eq_true hIssued, proxy_confined appEnv_documented hRun⟩

/-- The same request as the first frame: it ends the call and, however the run
goes on, no response is ever sent. -/
theorem refusedRequest_unanswered :
    ∃ s, run (step appEnv) init [.connect [] 0, .conn 0 (.frame (some (.ok spoofedRequest)))] = some s ∧
      s.phase 0 = .refused "expected HandshakeResponse" ∧ ∀ more t, run (step appEnv) s more = some t →
        (received appEnv 0 ([.connect [] 0, .conn 0 (.frame (some (.ok spoofedRequest)))] ++ more) ++
          t.outbox 0).filter isResponse = [] := by
  obtain ⟨s, hRun, hPhase⟩ := exists_run_of_any (step appEnv) init
    [.connect [] 0, .conn 0 (.frame (some (.ok spoofedRequest)))]
    (fun s => s.phase 0 = .refused "expected HandshakeResponse") (by decide)
  refine ⟨s, hRun, of_decide_eq_true hPhase, fun more t hMore => ?_⟩
  have hAll : run (step appEnv) init
      ([.connect [] 0, .conn 0 (.frame (some (.ok spoofedRequest)))] ++ more) = some t := by
    rw [run_append, hRun]
    exact hMore
  obtain ⟨⟨-, hRequests, -⟩, hFrames⟩ := proxyOk_of_run hAll
  rw [received_responses hAll, responseFrames]
  refine List.filterMap_eq_nil_iff.mpr fun e he => if_neg ?_
  intro hConn
  have hn := hRequests.answersRead e he
  obtain ⟨hs, ⟨f, rest, hFirst, hKind, -⟩, -⟩ :=
    hFrames.inside 0 (stage_of_registered (hConn ▸ (hRequests.read _ hn).2))
  have hHead : framesOf 0 ([.connect [] 0, .conn 0 (.frame (some (.ok spoofedRequest)))] ++ more) =
      some (.ok spoofedRequest) :: framesOf 0 more := by simp [framesOf]
  rw [hHead] at hFirst
  cases hFirst
  cases hKind

/-- A request in the place of the handshake gets no answer, and a redirect leads away from the
kernel's URL with the path. -/
theorem firstRequest_unanswered :
    (∃ s, run (step appEnv) init [.connect [] 0, .conn 0 (.frame (some (.ok spoofedRequest)))] = some s ∧
      s.phase 0 = .refused "expected HandshakeResponse" ∧ ∀ more t, run (step appEnv) s more = some t →
        (received appEnv 0 ([.connect [] 0, .conn 0 (.frame (some (.ok spoofedRequest)))] ++ more) ++
          t.outbox 0).filter isResponse = []) ∧
    ∃ s, run (step appEnv) init proxyRun = some s ∧
      ∃ req ∈ s.issuedFor 0, req.url ≠ appEnv.cfg.kernelUrl ++ (s.task 0).req.path := by
  refine ⟨refusedRequest_unanswered, ?_⟩
  obtain ⟨s, hRun, hs⟩ := exists_run_of_any (step appEnv) init proxyRun (fun s =>
    (s.issuedFor 0).any fun req => req.url ≠ appEnv.cfg.kernelUrl ++ (s.task 0).req.path) (by decide)
  obtain ⟨req, hReq, hUrl⟩ := List.any_eq_true.mp hs
  exact ⟨s, hRun, req, hReq, of_decide_eq_true hUrl⟩

end Server

end OpenSpoke.Tunnel
