import Mathlib.Data.List.TakeWhile
import OpenSpoke.GitPathSync.Sync
import OpenSpoke.Python.Url

/-!
# Tokens in the jobs of git_mirror and git_path_sync

Which documents of the credential store a job asks for, and the URLs that it
puts their tokens into. The answers of the store and the point at which a job
ends are given, and so are `str.lower` and the check of a netloc.
-/

namespace OpenSpoke.GitTokens

open GitPathSync (Endpoint Provider Role)
open Python (Text SplitResult)

/-- What `_resolve_dest_token` and `_resolve_token` are called with. -/
structure Lookup where
  provider : Provider
  owner : Text
  host : Text
  deriving DecidableEq

def providerText : Provider → Text
  | .github => ['g', 'i', 't', 'h', 'u', 'b']
  | .gitlab => ['g', 'i', 't', 'l', 'a', 'b']

def Lookup.scopeId (l : Lookup) : Text :=
  if l.provider = .github then l.owner else l.host ++ [':'] ++ l.owner

/-- `_doc_id("org", provider, scope_id)`. -/
def Lookup.docId (l : Lookup) : Text :=
  ['o', 'r', 'g', ':'] ++ providerText l.provider ++ [':'] ++ l.scopeId

/-- The user name that goes with a token. -/
def tokenUser : Provider → Text
  | .github => ['x', '-', 'a', 'c', 'c', 'e', 's', 's', '-', 't', 'o', 'k', 'e', 'n']
  | .gitlab => ['o', 'a', 'u', 't', 'h', '2']

/-- `_auth_url` with a token; none if it raises. -/
def authUrl (check : Text → Bool) (url token : Text) (provider : Provider) : Option Text :=
  (Python.urlsplit check url).map fun p =>
    p.scheme ++ [':', '/', '/'] ++ tokenUser provider ++ [':'] ++ Python.quote token ++ ['@'] ++
      p.netloc ++ p.path

/-- The document asked for has this token; none if there is no document or the request
fails. -/
abbrev Answer := Option Text

def Answer.token (a : Answer) : Option Text := a.filter fun t => !t.isEmpty

structure Answers where
  source : Answer
  dest : Answer

/-- A URL with a token in it. -/
structure Use where
  role : Role
  lookup : Lookup
  url : Text

structure Trace where
  -- whose token has been found
  resolved : List Lookup
  uses : List Use

def embed (check : Text → Bool) (role : Role) (l : Lookup) (url : Text) (token : Text) :
    Option Use :=
  (authUrl check url token l.provider).map (⟨role, l, ·⟩)

/-- The job takes up the first of these in turn, and ends with an exception. -/
def usesOf (attempts : List (Option Use)) (reached : Nat) : List Use :=
  ((attempts.take reached).takeWhile Option.isSome).filterMap id

/-! ## git_mirror -/

/-- The fields that have to do with the tokens. The provider is `none` for any other text. -/
structure MirrorJobCreate where
  sourceUrl : Text
  destOwner : Text
  destRepo : Text
  destProvider : Option Provider
  destHost : Text

structure MirrorJob where
  sourceUrl : Text
  destOwner : Text
  destRepo : Text
  destProvider : Provider
  destHost : Text
  deriving DecidableEq

/-- `create_job`, up to the start of the worker; an error is the detail of a 400. -/
def createMirrorJob (payload : MirrorJobCreate) : Except String MirrorJob := do
  let some destProvider := payload.destProvider
    | throw "dest_provider must be one of ('github', 'gitlab')"
  if payload.destOwner = [] ∨ payload.destRepo = [] ∨ payload.sourceUrl = [] then
    throw "source_url, dest_owner, dest_repo are required"
  return { sourceUrl := payload.sourceUrl, destOwner := payload.destOwner,
           destRepo := payload.destRepo, destProvider, destHost := payload.destHost }

def githubHost : Text := ['g', 'i', 't', 'h', 'u', 'b', '.', 'c', 'o', 'm']

/-- `path.strip("/").split("/")[0]`. -/
def firstSegment (path : Text) : Text := (Python.stripIf (· = '/') path).takeWhile (· ≠ '/')

namespace MirrorJob

def destLookup (job : MirrorJob) : Lookup := ⟨job.destProvider, job.destOwner, job.destHost⟩

def destUrl (job : MirrorJob) : Text :=
  ['h', 't', 't', 'p', 's', ':', '/', '/'] ++ job.destHost ++ ['/'] ++ job.destOwner ++ ['/'] ++
    job.destRepo ++ ['.', 'g', 'i', 't']

/-- `_source_uses_dest_pat` once the URL is split. -/
def usesDestPat (lower : Text → Text) (job : MirrorJob) (p : SplitResult) : Bool :=
  lower ((Python.hostname lower p.netloc).getD []) = lower job.destHost &&
    firstSegment p.path ≠ [] && lower (firstSegment p.path) = lower job.destOwner

/-- The lookup of the source by its own host and owner. -/
def guess (lower : Text → Text) (p : SplitResult) : Option Lookup :=
  let host := lower ((Python.hostname lower p.netloc).getD [])
  let owner := firstSegment p.path
  if host ≠ [] ∧ owner ≠ [] then
    some ⟨if host = githubHost then .github else .gitlab, owner, host⟩
  else none

/-- The document whose token the source gets. -/
def sourceLookup (lower : Text → Text) (job : MirrorJob) (p : SplitResult) : Option Lookup :=
  if job.usesDestPat lower p then some job.destLookup else guess lower p

/-- The lookup and the token of the source. A URL that cannot be split is taken for public. -/
def sourceToken (lower : Text → Text) (check : Text → Bool) (job : MirrorJob) (answer : Answer)
    (destToken : Text) : Option (Lookup × Text) :=
  match Python.urlsplit check job.sourceUrl with
  | none => none
  | some p =>
    if job.usesDestPat lower p then some (job.destLookup, destToken)
    else (guess lower p).bind fun l => answer.token.map (l, ·)

/-- `_mirror_worker`. -/
def worker (lower : Text → Text) (check : Text → Bool) (job : MirrorJob) (answers : Answers)
    (reached : Nat) : Trace :=
  match answers.dest.token with
  | none => ⟨[], []⟩
  | some destToken =>
    let src := (job.sourceToken lower check answers.source destToken).toList
    ⟨job.destLookup :: src.map (·.1),
      usesOf (src.map (fun s => embed check .source s.1 job.sourceUrl s.2) ++
        [embed check .dest job.destLookup job.destUrl destToken]) reached⟩

end MirrorJob

/-! ## git_path_sync -/

def endpointLookup (e : Endpoint) : Lookup := ⟨e.provider, e.owner, e.host⟩

/-- The job pushes to its destination or clones it. -/
def usesDest (lower : Text → Text) (job : GitPathSync.Job) : Bool :=
  !(job.oneTree lower && job.dryRun)

/-- The tokens in `_sync_worker`. The pushes take up the URLs of the clones again, but for
the destination of a single work tree. -/
def syncTrace (lower : Text → Text) (check : Text → Bool) (job : GitPathSync.Job)
    (answers : Answers) (reached : Nat) : Trace :=
  let src := answers.source.token
  let srcLookup := endpointLookup job.source
  let dstLookup := endpointLookup job.dest
  let srcResolved := src.toList.map fun _ => srcLookup
  match answers.dest.token with
  | none => ⟨srcResolved, []⟩
  | some dstToken =>
    ⟨srcResolved ++ [dstLookup],
      if job.mode = .move ∧ src = none then []
      else
        usesOf (src.toList.map (fun t => embed check .source srcLookup job.source.url t) ++
          if usesDest lower job then [embed check .dest dstLookup job.dest.url dstToken] else [])
          reached⟩

/-! ## Both -/

inductive Job
  | mirror (job : MirrorJob)
  | pathSync (job : GitPathSync.Job)

/-- A run of the worker: the answers of the store, and the number of URLs that the job comes
to, for it may fail or be cancelled. -/
def Job.run (lower : Text → Text) (check : Text → Bool) (answers : Answers) (reached : Nat) :
    Job → Trace
  | .mirror job => job.worker lower check answers reached
  | .pathSync job => syncTrace lower check job answers reached

end OpenSpoke.GitTokens

/-!
## The hosts that see a token

The key of a GitHub token has no host in it, and the host of a GitLab one is
not looked at again. So it is up to the payloads which hosts get the token of a
document.
-/

namespace OpenSpoke.GitTokens

open GitPathSync (Endpoint Provider Role)
open Python (Text SplitResult urlHost hostname)

def https : Text := ['h', 't', 't', 'p', 's']

/-- The host that a host field of a payload names. -/
def hostName (lower : Text → Text) (host : Text) : Option Text :=
  hostname lower ((Python.cleanUrl host).takeWhile fun c => !Python.endsNetloc c)

section Hosts

variable (lower : Text → Text)

/-- A document whose token both jobs have found goes to one host. -/
def SameHost (ra rb : Trace) : Prop :=
  ∀ l ∈ ra.resolved, ∀ l' ∈ rb.resolved, l.docId = l'.docId →
    ∀ u ∈ ra.uses ++ rb.uses, ∀ v ∈ ra.uses ++ rb.uses,
      u.lookup.docId = l.docId → v.lookup.docId = l.docId → urlHost lower u.url = urlHost lower v.url

def Https (r : Trace) : Prop := ∀ u ∈ r.uses, https ++ [':', '/', '/'] <+: u.url

/-- The token of the destination is in no source URL with another host. -/
def Job.OwnHost (r : Trace) : Job → Prop
  | .mirror job => ∀ u ∈ r.uses, u.role = .source → u.lookup.docId = job.destLookup.docId →
      urlHost lower u.url = hostName lower job.destHost
  | .pathSync _ => True

/-- In every two runs the tokens stay with their hosts. -/
def Confined (check : Text → Bool) (a b : Job) : Prop :=
  ∀ answersA reachedA answersB reachedB,
    let ra := a.run lower check answersA reachedA
    let rb := b.run lower check answersB reachedB
    SameHost lower ra rb ∧ (Https ra ∧ Https rb) ∧ a.OwnHost lower ra ∧ b.OwnHost lower rb

end Hosts

/-! ## What the payloads say -/

/-- Both are lookups of one document. -/
def Lookup.same (l l' : Lookup) : Bool :=
  match l.provider, l'.provider with
  | .github, .github => l.owner = l'.owner
  | .gitlab, .gitlab => l.host ++ [':'] ++ l.owner = l'.host ++ [':'] ++ l'.owner
  | _, _ => false

/-- A token may get into a URL with this scheme and host, as the payload has it. -/
structure Site where
  role : Role
  lookup : Lookup
  scheme : Text
  host : Option Text

section Payload

variable (lower : Text → Text) (check : Text → Bool)

def netlocOk (host : Text) : Bool :=
  let netloc := (Python.cleanUrl host).takeWhile fun c => !Python.endsNetloc c
  netloc.isEmpty || check netloc

/-- The host of a source URL; without slashes before it the path comes next to the
userinfo. -/
def namedHost (p : SplitResult) : Option Text :=
  hostname lower ((p.netloc ++ p.path).takeWhile fun c => !Python.endsNetloc c)

def MirrorJob.sourceSite (job : MirrorJob) : Option Site :=
  (Python.urlsplit check job.sourceUrl).bind fun p =>
    (job.sourceLookup lower p).map (⟨.source, ·, p.scheme, namedHost lower p⟩)

def hostSite (role : Role) (l : Lookup) : Site := ⟨role, l, https, hostName lower l.host⟩

def Job.sites : Job → List Site
  | .mirror job =>
    (job.sourceSite lower check).toList ++
      if netlocOk check job.destHost then [hostSite lower .dest job.destLookup] else []
  | .pathSync job =>
    (if netlocOk check job.source.host then [hostSite lower .source (endpointLookup job.source)]
      else []) ++
    if netlocOk check job.dest.host && usesDest lower job &&
        (netlocOk check job.source.host || job.mode != .move) then
      [hostSite lower .dest (endpointLookup job.dest)]
    else []

/-- The documents that a job asks for. -/
def Job.lookups : Job → List Lookup
  | .mirror job =>
    job.destLookup ::
      ((Python.urlsplit check job.sourceUrl).bind (job.sourceLookup lower)).toList
  | .pathSync job => [endpointLookup job.source, endpointLookup job.dest]

/-- The payloads name one host for a document that both jobs ask for. -/
def OneHost (a b : Job) : Prop :=
  ∀ l ∈ a.lookups lower check, ∀ l' ∈ b.lookups lower check, l.same l' = true →
    ∀ s ∈ a.sites lower check ++ b.sites lower check,
      ∀ t ∈ a.sites lower check ++ b.sites lower check,
        s.lookup.same l = true → t.lookup.same l = true → s.host = t.host

/-- A mirror whose source asks for the document of the destination names its host. -/
def Job.OneHost : Job → Prop
  | .mirror job => ∀ s, job.sourceSite lower check = some s → s.lookup.same job.destLookup = true →
      s.host = hostName lower job.destHost
  | .pathSync _ => True

def Job.AllHttps (a : Job) : Prop := ∀ s ∈ a.sites lower check, s.scheme = https

end Payload

/-! ## The URLs with a token -/

theorem Lookup.docId_eq_iff (l l' : Lookup) : l.docId = l'.docId ↔ l.same l' = true := by
  obtain ⟨provider, owner, host⟩ := l
  obtain ⟨provider', owner', host'⟩ := l'
  cases provider <;> cases provider' <;> simp [docId, providerText, scopeId, same]

theorem toLower_ne_colon {c : Char} (h : c ≠ ':') : c.toLower ≠ ':' := by
  intro hEq
  unfold Char.toLower at hEq
  split at hEq
  next hUpper =>
    have hBounds : 65 ≤ c.val.toNat ∧ c.val.toNat ≤ 90 := by
      simpa [UInt32.le_iff_toNat_le] using hUpper
    have hVal : (c.val + 32).toNat = 58 := congrArg (fun c => c.val.toNat) hEq
    have hShift : (32 : UInt32).toNat = 32 := rfl
    rw [UInt32.toNat_add, hShift, Nat.mod_eq_of_lt (by omega)] at hVal
    omega
  next => exact h hEq

theorem splitScheme_colon (url : Text) : ':' ∉ (Python.splitScheme url).1 := by
  have hHead : ':' ∉ (url.takeWhile (· ≠ ':')).map Char.toLower := by
    intro hMem
    obtain ⟨c, hc, hEq⟩ := List.mem_map.mp hMem
    exact toLower_ne_colon (by simpa using List.mem_takeWhile_imp hc) hEq
  simp only [Python.splitScheme]
  split
  · split
    · exact hHead
    · simp
  · simp

theorem prefix_scheme {scheme rest : Text} (h : ':' ∉ scheme) :
    https ++ [':', '/', '/'] <+: scheme ++ [':', '/', '/'] ++ rest ↔ scheme = https := by
  constructor
  · rintro ⟨tail, hEq⟩
    have hStop : ∀ {s t : Text}, ':' ∉ s → (s ++ ':' :: t).takeWhile (· ≠ ':') = s := by
      intro s t hs
      rw [Python.takeWhile_stop (by simp)]
      refine List.takeWhile_eq_self_iff.mpr fun c hc => ?_
      have hne : c ≠ ':' := fun hEq => hs (hEq ▸ hc)
      simpa using hne
    have hTake := congrArg (List.takeWhile (· ≠ ':')) hEq
    simp only [List.append_assoc, List.cons_append, List.nil_append] at hTake
    rw [hStop (by decide), hStop h] at hTake
    exact hTake.symm
  · rintro rfl
    exact List.prefix_append _ _

/-- The use has the place, the scheme and the host of the site. -/
structure Site.Matches (lower : Text → Text) (s : Site) (u : Use) : Prop where
  role : u.role = s.role
  lookup : u.lookup = s.lookup
  https : https ++ [':', '/', '/'] <+: u.url ↔ s.scheme = https
  host : s.scheme = GitTokens.https → urlHost lower u.url = s.host

theorem tokenUser_inNetloc (provider : Provider) :
    ∀ c ∈ tokenUser provider, Python.inNetloc c = true := by
  have hAll : (tokenUser provider).all Python.inNetloc = true := by cases provider <;> rfl
  exact List.all_eq_true.mp hAll

theorem embed_matches (lower : Text → Text) {check : Text → Bool} {url : Text} {p : SplitResult}
    (h : Python.urlsplit check url = some p) (role : Role) (l : Lookup) (token : Text) :
    ∃ u, embed check role l url token = some u ∧
      Site.Matches lower ⟨role, l, p.scheme, namedHost lower p⟩ u := by
  refine ⟨_, by rw [embed, authUrl, h]; rfl, ?_⟩
  constructor
  · rfl
  · rfl
  · have hColon : ':' ∉ p.scheme := by
      rw [Python.splitRest_scheme h]
      exact splitScheme_colon _
    simp only [List.append_assoc]
    rw [← List.append_assoc p.scheme]
    exact prefix_scheme hColon
  · intro hScheme
    have hInfo : ∀ c ∈ tokenUser l.provider ++ [':'] ++ Python.quote token,
        Python.inNetloc c = true := by
      intro c hc
      simp only [List.append_assoc, List.mem_append, List.mem_singleton] at hc
      rcases hc with hc | rfl | hc
      · exact tokenUser_inNetloc _ c hc
      · rfl
      · exact Python.quote_inNetloc hc
    have hHost := Python.urlHost_userinfo lower hInfo (Python.urlsplit_clean h)
    have hScheme : p.scheme = https := hScheme
    simp only [hScheme, https, namedHost]
    simpa using hHost

theorem takeWhile_path {α : Type} (p q r : α → Bool) (t : List α) :
    (((t.dropWhile p).takeWhile q).takeWhile r).takeWhile p = [] := by
  cases h : t.dropWhile p with
  | nil => rfl
  | cons x xs =>
    have hx : p x = false := by
      have hHead := List.head_dropWhile_not p (l := t) (by simp [h])
      simpa [h] using hHead
    cases hq : q x <;> cases hr : r x <;> simp [hq, hr, hx]

/-- A repository URL has the host of its host field, if its netloc is accepted. -/
theorem urlsplit_repository (lower : Text → Text) (check : Text → Bool) (host rest : Text) :
    if netlocOk check host then
      ∃ p, Python.urlsplit check
          (['h', 't', 't', 'p', 's', ':', '/', '/'] ++ (host ++ '/' :: rest)) = some p ∧
        p.scheme = https ∧ namedHost lower p = hostName lower host
    else Python.urlsplit check
      (['h', 't', 't', 'p', 's', ':', '/', '/'] ++ (host ++ '/' :: rest)) = none := by
  have hClean : Python.cleanUrl (host ++ '/' :: rest) =
      Python.cleanUrl host ++ '/' :: Python.cleanUrl rest := by
    rw [Python.cleanUrl, List.filter_append]
    rfl
  have hNetloc : (Python.cleanUrl host ++ '/' :: Python.cleanUrl rest).takeWhile
      (fun c => !Python.endsNetloc c) =
        (Python.cleanUrl host).takeWhile fun c => !Python.endsNetloc c :=
    Python.takeWhile_stop rfl _ _
  rw [Python.urlsplit_https, hClean, Python.splitRest_slashes, hNetloc]
  simp only [netlocOk]
  split
  · refine ⟨_, rfl, rfl, ?_⟩
    have hAll : ∀ c ∈ (Python.cleanUrl host).takeWhile (fun c => !Python.endsNetloc c),
        (!Python.endsNetloc c) = true := List.all_eq_true.mp List.all_takeWhile
    rw [namedHost, hostName, List.takeWhile_append_of_pos hAll, takeWhile_path, List.append_nil]
  · rfl

theorem embed_repository (lower : Text → Text) (check : Text → Bool) (role : Role) (l : Lookup)
    (rest token : Text) :
    if netlocOk check l.host then
      ∃ u, embed check role l (['h', 't', 't', 'p', 's', ':', '/', '/'] ++ (l.host ++ '/' :: rest))
          token = some u ∧ (hostSite lower role l).Matches lower u
    else embed check role l (['h', 't', 't', 'p', 's', ':', '/', '/'] ++ (l.host ++ '/' :: rest))
      token = none := by
  have hSplit := urlsplit_repository lower check l.host rest
  split
  next hOk =>
    rw [if_pos hOk] at hSplit
    obtain ⟨p, hp, hScheme, hHost⟩ := hSplit
    obtain ⟨u, hu, hMatches⟩ := embed_matches lower hp role l token
    rw [hScheme, hHost] at hMatches
    exact ⟨u, hu, hMatches⟩
  next hOk =>
    rw [if_neg hOk] at hSplit
    rw [embed, authUrl, hSplit]
    rfl

theorem MirrorJob.embed_dest (lower : Text → Text) (check : Text → Bool) (job : MirrorJob)
    (token : Text) :
    if netlocOk check job.destHost then
      ∃ u, embed check .dest job.destLookup job.destUrl token = some u ∧
        (hostSite lower .dest job.destLookup).Matches lower u
    else embed check .dest job.destLookup job.destUrl token = none := by
  have hEmbed := embed_repository lower check .dest job.destLookup
    (job.destOwner ++ ['/'] ++ job.destRepo ++ ['.', 'g', 'i', 't']) token
  simpa only [destUrl, destLookup, List.append_assoc, List.cons_append, List.nil_append] using hEmbed

theorem embed_endpoint (lower : Text → Text) (check : Text → Bool) (role : Role) (e : Endpoint)
    (token : Text) :
    if netlocOk check e.host then
      ∃ u, embed check role (endpointLookup e) e.url token = some u ∧
        (hostSite lower role (endpointLookup e)).Matches lower u
    else embed check role (endpointLookup e) e.url token = none := by
  have hEmbed := embed_repository lower check role (endpointLookup e)
    (e.owner ++ ['/'] ++ (if ['.', 'g', 'i', 't'] <:+ e.repo then e.repo.take (e.repo.length - 4)
      else e.repo) ++ ['.', 'g', 'i', 't']) token
  simpa only [Endpoint.url, endpointLookup, List.append_assoc, List.cons_append, List.nil_append]
    using hEmbed

/-! ## The runs -/

theorem mem_usesOf {attempts : List (Option Use)} {reached : Nat} {u : Use}
    (h : u ∈ usesOf attempts reached) : some u ∈ attempts := by
  obtain ⟨a, ha, rfl⟩ := List.mem_filterMap.mp h
  exact List.mem_of_mem_take ((List.takeWhile_prefix _).subset ha)

theorem usesOf_none (attempts : List (Option Use)) (reached : Nat) :
    usesOf (none :: attempts) reached = [] := by
  cases reached <;> simp [usesOf]

theorem mem_usesOf_of_some {before after : List (Option Use)} {reached : Nat} {u : Use}
    (hBefore : ∀ a ∈ before, a.isSome = true) (hReached : before.length < reached) :
    u ∈ usesOf (before ++ some u :: after) reached := by
  obtain ⟨rest, rfl⟩ := Nat.exists_eq_add_of_lt hReached
  have hTake : (before ++ some u :: after).take (before.length + rest + 1) =
      before ++ some u :: after.take rest := by
    rw [Nat.add_assoc, List.take_length_add_append]
    rfl
  rw [usesOf, hTake, List.takeWhile_append_of_pos hBefore]
  exact List.mem_filterMap.mpr ⟨some u, by simp, rfl⟩

section Runs

variable {lower : Text → Text} {check : Text → Bool}

theorem MirrorJob.sourceToken_some {job : MirrorJob} {answer : Answer} {destToken token : Text}
    {l : Lookup} (h : job.sourceToken lower check answer destToken = some (l, token)) :
    ∃ p, Python.urlsplit check job.sourceUrl = some p ∧ job.sourceLookup lower p = some l := by
  simp only [sourceToken] at h
  split at h
  · cases h
  next p hp =>
    refine ⟨p, hp, ?_⟩
    simp only [sourceLookup]
    split at h
    next hShares =>
      cases h
      rw [if_pos hShares]
    next hShares =>
      rw [if_neg hShares]
      obtain ⟨l', hl, h⟩ := Option.bind_eq_some_iff.mp h
      obtain ⟨_, _, hEq⟩ := Option.map_eq_some_iff.mp h
      cases hEq
      exact hl

theorem MirrorJob.use_site {job : MirrorJob} {answers : Answers} {reached : Nat} {u : Use}
    (h : u ∈ (job.worker lower check answers reached).uses) :
    ∃ s ∈ (Job.mirror job).sites lower check, s.Matches lower u := by
  simp only [worker] at h
  split at h
  · cases h
  next destToken _ =>
    rcases List.mem_append.mp (mem_usesOf h) with hSource | hDest
    · obtain ⟨⟨l, token⟩, hToken, hEmbed⟩ := List.mem_map.mp hSource
      obtain ⟨p, hp, hl⟩ := sourceToken_some (Option.mem_toList.mp hToken)
      obtain ⟨u', hu', hMatches⟩ := embed_matches lower hp .source l token
      cases Option.some.inj (hu'.symm.trans hEmbed)
      refine ⟨_, List.mem_append_left _ (Option.mem_toList.mpr ?_), hMatches⟩
      simp [sourceSite, hp, hl]
    · have hDest := List.mem_singleton.mp hDest
      have hEmbed := job.embed_dest lower check destToken
      split at hEmbed
      next hOk =>
        obtain ⟨u', hu', hMatches⟩ := hEmbed
        cases Option.some.inj (hu'.symm.trans hDest.symm)
        refine ⟨_, List.mem_append_right _ ?_, hMatches⟩
        rw [if_pos hOk]
        exact List.mem_singleton.mpr rfl
      next =>
        rw [hEmbed] at hDest
        cases hDest

theorem syncTrace_site {job : GitPathSync.Job} {answers : Answers} {reached : Nat} {u : Use}
    (h : u ∈ (syncTrace lower check job answers reached).uses) :
    ∃ s ∈ (Job.pathSync job).sites lower check, s.Matches lower u := by
  simp only [syncTrace] at h
  split at h
  · cases h
  next destToken _ =>
    split at h
    · cases h
    next hMove =>
    have hSource : ∀ token, answers.source.token = some token → netlocOk check job.source.host = true := by
      intro token hToken
      have hEmbed := embed_endpoint lower check .source job.source token
      split at hEmbed
      next hOk => exact hOk
      next =>
        simp only [hToken, Option.toList_some, List.map_singleton, hEmbed, List.singleton_append,
          usesOf_none] at h
        cases h
    rcases List.mem_append.mp (mem_usesOf h) with hUse | hUse
    · obtain ⟨token, hToken, hUse⟩ := List.mem_map.mp hUse
      have hOk := hSource token (Option.mem_toList.mp hToken)
      have hEmbed := embed_endpoint lower check .source job.source token
      rw [if_pos hOk] at hEmbed
      obtain ⟨u', hu', hMatches⟩ := hEmbed
      cases Option.some.inj (hu'.symm.trans hUse)
      refine ⟨_, List.mem_append_left _ ?_, hMatches⟩
      rw [if_pos hOk]
      exact List.mem_singleton.mpr rfl
    · split at hUse
      next hDest =>
        have hEmbed := embed_endpoint lower check .dest job.dest destToken
        have hUse := List.mem_singleton.mp hUse
        split at hEmbed
        next hOk =>
          obtain ⟨u', hu', hMatches⟩ := hEmbed
          cases Option.some.inj (hu'.symm.trans hUse.symm)
          refine ⟨_, List.mem_append_right _ ?_, hMatches⟩
          have hFirst : (netlocOk check job.source.host || job.mode != .move) = true := by
            cases hToken : answers.source.token with
            | none => simpa [hToken] using .inr fun hEq => hMove ⟨hEq, hToken⟩
            | some token => simp [hSource token hToken]
          rw [hOk, hDest, hFirst]
          exact List.mem_singleton.mpr rfl
        next =>
          rw [hEmbed] at hUse
          cases hUse
      next => cases hUse

theorem Job.use_site {job : Job} {answers : Answers} {reached : Nat} {u : Use}
    (h : u ∈ (job.run lower check answers reached).uses) :
    ∃ s ∈ job.sites lower check, s.Matches lower u := by
  cases job with
  | mirror job => exact MirrorJob.use_site h
  | pathSync job => exact syncTrace_site h

theorem Job.resolved_lookups {job : Job} {answers : Answers} {reached : Nat} {l : Lookup}
    (h : l ∈ (job.run lower check answers reached).resolved) : l ∈ job.lookups lower check := by
  cases job with
  | mirror job =>
    simp only [run, MirrorJob.worker] at h
    split at h
    · cases h
    · rcases List.mem_cons.mp h with rfl | h
      · exact List.mem_cons_self
      · obtain ⟨⟨l, token⟩, hToken, rfl⟩ := List.mem_map.mp h
        obtain ⟨p, hp, hl⟩ := MirrorJob.sourceToken_some (Option.mem_toList.mp hToken)
        refine List.mem_cons_of_mem _ (Option.mem_toList.mpr ?_)
        simp [hp, hl]
  | pathSync job =>
    have hSource : ∀ {l}, l ∈ answers.source.token.toList.map (fun _ => endpointLookup job.source) →
        l = endpointLookup job.source := fun hl => by
      obtain ⟨_, _, rfl⟩ := List.mem_map.mp hl
      rfl
    simp only [run, syncTrace] at h
    simp only [lookups, List.mem_cons, List.not_mem_nil, or_false]
    split at h
    · exact .inl (hSource h)
    · rcases List.mem_append.mp h with h | h
      · exact .inl (hSource h)
      · exact .inr (List.mem_singleton.mp h)

/-- A store in which every document has a token. -/
def allAnswers : Answers := ⟨some ['t'], some ['t']⟩

theorem MirrorJob.sourceToken_all {job : MirrorJob} {p : SplitResult} {l : Lookup}
    (hp : Python.urlsplit check job.sourceUrl = some p) (hl : job.sourceLookup lower p = some l) :
    job.sourceToken lower check allAnswers.source ['t'] = some (l, ['t']) := by
  simp only [sourceLookup] at hl
  simp only [sourceToken, hp]
  split at hl
  next hShares =>
    cases hl
    rw [if_pos hShares]
  next hShares =>
    rw [if_neg hShares, hl]
    rfl

theorem Job.exists_resolved {job : Job} {l : Lookup} (h : l ∈ job.lookups lower check) :
    ∃ answers reached, l ∈ (job.run lower check answers reached).resolved := by
  refine ⟨allAnswers, 0, ?_⟩
  cases job with
  | mirror job =>
    rcases List.mem_cons.mp h with rfl | h
    · exact List.mem_cons_self
    · obtain ⟨p, hp, hl⟩ := Option.bind_eq_some_iff.mp (Option.mem_toList.mp h)
      refine List.mem_cons_of_mem _ (List.mem_map.mpr ⟨(l, ['t']), ?_, rfl⟩)
      exact Option.mem_toList.mpr (MirrorJob.sourceToken_all hp hl)
  | pathSync job => exact h

/-- There is a run in which every site is used. -/
theorem MirrorJob.exists_run (lower : Text → Text) (check : Text → Bool) (job : MirrorJob) :
    ∃ answers reached, ∀ s ∈ (Job.mirror job).sites lower check,
      s.lookup ∈ (job.worker lower check answers reached).resolved ∧
      ∃ u ∈ (job.worker lower check answers reached).uses, s.Matches lower u := by
  have hRun : job.worker lower check allAnswers 2 =
      ⟨job.destLookup :: ((job.sourceToken lower check allAnswers.source ['t']).toList).map (·.1),
        usesOf (((job.sourceToken lower check allAnswers.source ['t']).toList).map
          (fun s => embed check .source s.1 job.sourceUrl s.2) ++
          [embed check .dest job.destLookup job.destUrl ['t']]) 2⟩ := rfl
  refine ⟨allAnswers, 2, fun s hs => ?_⟩
  rw [hRun]
  rcases List.mem_append.mp hs with hs | hs
  · obtain ⟨p, hp, hs⟩ := Option.bind_eq_some_iff.mp (Option.mem_toList.mp hs)
    obtain ⟨l, hl, rfl⟩ := Option.map_eq_some_iff.mp hs
    obtain ⟨u, hu, hMatches⟩ := embed_matches lower hp .source l ['t']
    rw [sourceToken_all hp hl]
    refine ⟨by simp, u, ?_, hMatches⟩
    simp only [Option.toList_some, List.map_singleton, hu]
    exact mem_usesOf_of_some (List.forall_mem_nil _) Nat.two_pos
  · split at hs
    next hOk =>
      cases List.mem_singleton.mp hs
      have hEmbed := job.embed_dest lower check ['t']
      rw [if_pos hOk] at hEmbed
      obtain ⟨u, hu, hMatches⟩ := hEmbed
      refine ⟨List.mem_cons_self, u, ?_, hMatches⟩
      rw [hu]
      refine mem_usesOf_of_some (fun a ha => ?_) ?_
      · obtain ⟨⟨l, token⟩, hToken, rfl⟩ := List.mem_map.mp ha
        obtain ⟨p, hp, _⟩ := sourceToken_some (Option.mem_toList.mp hToken)
        obtain ⟨u', hu', _⟩ := embed_matches lower hp .source l token
        rw [hu']
        rfl
      · rw [List.length_map]
        exact Nat.lt_succ_of_le Option.length_toList_le
    next => cases hs

theorem syncTrace_exists_run (lower : Text → Text) (check : Text → Bool) (job : GitPathSync.Job) :
    ∃ answers reached, ∀ s ∈ (Job.pathSync job).sites lower check,
      s.lookup ∈ (syncTrace lower check job answers reached).resolved ∧
      ∃ u ∈ (syncTrace lower check job answers reached).uses, s.Matches lower u := by
  have hSource := embed_endpoint lower check .source job.source ['t']
  have hDest := embed_endpoint lower check .dest job.dest ['t']
  by_cases hOk : netlocOk check job.source.host = true
  · rw [if_pos hOk] at hSource
    obtain ⟨u, hu, hMatches⟩ := hSource
    have hRun : syncTrace lower check job allAnswers 2 =
        ⟨[endpointLookup job.source, endpointLookup job.dest],
          usesOf (some u :: if usesDest lower job then
            [embed check .dest (endpointLookup job.dest) job.dest.url ['t']] else []) 2⟩ := by
      rw [← hu]
      exact congrArg _ (if_neg fun h => nomatch h.2)
    refine ⟨allAnswers, 2, fun s hs => ?_⟩
    rw [hRun]
    simp only [Job.sites, hOk, if_true, Bool.true_or, Bool.and_true, List.singleton_append] at hs
    rcases List.mem_cons.mp hs with rfl | hs
    · exact ⟨List.mem_cons_self, u, mem_usesOf_of_some (List.forall_mem_nil _) Nat.two_pos, hMatches⟩
    · split at hs
      next hUses =>
        cases List.mem_singleton.mp hs
        rw [Bool.and_eq_true] at hUses
        rw [if_pos hUses.1] at hDest
        obtain ⟨v, hv, hMatches⟩ := hDest
        have hMem : v ∈ usesOf ([some u] ++ some v :: []) 2 :=
          mem_usesOf_of_some (by simp) Nat.one_lt_two
        refine ⟨List.mem_cons_of_mem _ List.mem_cons_self, v, ?_, hMatches⟩
        rwa [if_pos hUses.2, hv]
      next => cases hs
  · -- the URL of the source raises unless it is public
    refine ⟨⟨none, some ['t']⟩, 1, fun s hs => ?_⟩
    simp only [Job.sites, hOk, if_false, Bool.false_or, List.nil_append, Bool.false_eq_true] at hs
    split at hs
    next hUses =>
      cases List.mem_singleton.mp hs
      simp only [Bool.and_eq_true, bne_iff_ne, ne_eq] at hUses
      rw [if_pos hUses.1.1] at hDest
      obtain ⟨v, hv, hMatches⟩ := hDest
      have hRun : syncTrace lower check job ⟨none, some ['t']⟩ 1 =
          ⟨[endpointLookup job.dest], usesOf [some v] 1⟩ := by
        rw [← hv]
        exact congrArg _ ((if_neg fun h => hUses.2 h.1).trans (by rw [if_pos hUses.1.2]; rfl))
      rw [hRun]
      exact ⟨List.mem_cons_self, v, mem_usesOf_of_some (List.forall_mem_nil _) Nat.one_pos, hMatches⟩
    next => cases hs

theorem Job.exists_run (lower : Text → Text) (check : Text → Bool) (job : Job) :
    ∃ answers reached, ∀ s ∈ job.sites lower check,
      s.lookup ∈ (job.run lower check answers reached).resolved ∧
      ∃ u ∈ (job.run lower check answers reached).uses, s.Matches lower u := by
  cases job with
  | mirror job => exact job.exists_run lower check
  | pathSync job => exact syncTrace_exists_run lower check job

end Runs

section Conditions

variable {lower : Text → Text} {check : Text → Bool} {a b : Job}

theorem Job.AllHttps.https (hAll : a.AllHttps lower check) (answers : Answers) (reached : Nat) :
    Https (a.run lower check answers reached) := by
  intro u hu
  obtain ⟨s, hs, hMatches⟩ := use_site hu
  exact hMatches.https.mpr (hAll s hs)

theorem Job.OneHost.ownHost (hOne : a.OneHost lower check) (hAll : a.AllHttps lower check)
    (answers : Answers) (reached : Nat) : a.OwnHost lower (a.run lower check answers reached) := by
  cases a with
  | pathSync job => trivial
  | mirror job =>
    intro u hu hRole hDoc
    obtain ⟨s, hs, hMatches⟩ := use_site hu
    have hScheme := hAll s hs
    rw [hMatches.host hScheme]
    rcases List.mem_append.mp hs with hs | hs
    · refine hOne s (Option.mem_toList.mp hs) ?_
      rw [← Lookup.docId_eq_iff, ← hMatches.lookup, hDoc]
    · split at hs
      · cases List.mem_singleton.mp hs
        cases hRole.symm.trans hMatches.role
      · cases hs

theorem OneHost.sameHost (hOne : OneHost lower check a b) (hAllA : a.AllHttps lower check)
    (hAllB : b.AllHttps lower check) (answersA answersB : Answers) (reachedA reachedB : Nat) :
    SameHost lower (a.run lower check answersA reachedA) (b.run lower check answersB reachedB) := by
  have hSite : ∀ u ∈ (a.run lower check answersA reachedA).uses ++
      (b.run lower check answersB reachedB).uses,
      ∃ s ∈ a.sites lower check ++ b.sites lower check, s.lookup = u.lookup ∧
        urlHost lower u.url = s.host := by
    intro u hu
    rcases List.mem_append.mp hu with hu | hu
    · obtain ⟨s, hs, hMatches⟩ := Job.use_site hu
      exact ⟨s, List.mem_append_left _ hs, hMatches.lookup.symm, hMatches.host (hAllA s hs)⟩
    · obtain ⟨s, hs, hMatches⟩ := Job.use_site hu
      exact ⟨s, List.mem_append_right _ hs, hMatches.lookup.symm, hMatches.host (hAllB s hs)⟩
  intro l hl l' hl' hSame u hu v hv huDoc hvDoc
  obtain ⟨s, hs, hsLookup, hsHost⟩ := hSite u hu
  obtain ⟨t, ht, htLookup, htHost⟩ := hSite v hv
  rw [hsHost, htHost]
  refine hOne l (Job.resolved_lookups hl) l' (Job.resolved_lookups hl')
    ((Lookup.docId_eq_iff _ _).mp hSame) s hs t ht ?_ ?_
  · rwa [← Lookup.docId_eq_iff, hsLookup]
  · rwa [← Lookup.docId_eq_iff, htLookup]

theorem Confined.allHttps (h : Confined lower check a b) :
    a.AllHttps lower check ∧ b.AllHttps lower check := by
  obtain ⟨answersA, reachedA, hA⟩ := a.exists_run lower check
  obtain ⟨answersB, reachedB, hB⟩ := b.exists_run lower check
  obtain ⟨-, ⟨hHttpsA, hHttpsB⟩, -⟩ := h answersA reachedA answersB reachedB
  constructor
  · intro s hs
    obtain ⟨-, u, hu, hMatches⟩ := hA s hs
    exact hMatches.https.mp (hHttpsA u hu)
  · intro s hs
    obtain ⟨-, u, hu, hMatches⟩ := hB s hs
    exact hMatches.https.mp (hHttpsB u hu)

theorem Confined.ownHost (h : Confined lower check a b) :
    a.OneHost lower check ∧ b.OneHost lower check := by
  have hJob : ∀ {c : Job}, c.AllHttps lower check →
      (∀ answers reached, c.OwnHost lower (c.run lower check answers reached)) →
        c.OneHost lower check := by
    intro c hAll hOwn
    cases c with
    | pathSync job => trivial
    | mirror job =>
      intro s hs hSame
      have hMem : s ∈ (Job.mirror job).sites lower check :=
        List.mem_append_left _ (Option.mem_toList.mpr hs)
      obtain ⟨answers, reached, hRun⟩ := (Job.mirror job).exists_run lower check
      obtain ⟨-, u, hu, hMatches⟩ := hRun s hMem
      have hRole : u.role = .source := by
        obtain ⟨p, -, hs⟩ := Option.bind_eq_some_iff.mp hs
        obtain ⟨l, -, rfl⟩ := Option.map_eq_some_iff.mp hs
        exact hMatches.role
      rw [← hMatches.host (hAll s hMem)]
      refine hOwn answers reached u hu hRole ?_
      rwa [hMatches.lookup, Lookup.docId_eq_iff]
  obtain ⟨hAllA, hAllB⟩ := h.allHttps
  exact ⟨hJob hAllA fun answers reached => (h answers reached allAnswers 0).2.2.1,
    hJob hAllB fun answers reached => (h allAnswers 0 answers reached).2.2.2⟩

theorem Confined.oneHost (h : Confined lower check a b) : OneHost lower check a b := by
  obtain ⟨hAllA, hAllB⟩ := h.allHttps
  obtain ⟨answersA, reachedA, hA⟩ := a.exists_run lower check
  obtain ⟨answersB, reachedB, hB⟩ := b.exists_run lower check
  intro l hl l' hl' hSame s hs t ht hsSame htSame
  have hDoc := (Lookup.docId_eq_iff _ _).mpr hSame
  have hsDoc := (Lookup.docId_eq_iff _ _).mpr hsSame
  have htDoc := (Lookup.docId_eq_iff _ _).mpr htSame
  rcases List.mem_append.mp hs with hs | hs <;> rcases List.mem_append.mp ht with ht | ht
  · obtain ⟨answers, reached, hResolved⟩ := Job.exists_resolved hl'
    obtain ⟨hsResolved, u, hu, huMatches⟩ := hA s hs
    obtain ⟨-, v, hv, hvMatches⟩ := hA t ht
    rw [← huMatches.host (hAllA s hs), ← hvMatches.host (hAllA t ht)]
    exact (h answersA reachedA answers reached).1 _ hsResolved _ hResolved (hsDoc.trans hDoc)
      u (List.mem_append_left _ hu) v (List.mem_append_left _ hv)
      (by rw [huMatches.lookup]) (by rw [hvMatches.lookup, htDoc, hsDoc])
  · obtain ⟨hsResolved, u, hu, huMatches⟩ := hA s hs
    obtain ⟨htResolved, v, hv, hvMatches⟩ := hB t ht
    rw [← huMatches.host (hAllA s hs), ← hvMatches.host (hAllB t ht)]
    exact (h answersA reachedA answersB reachedB).1 _ hsResolved _ htResolved
      (hsDoc.trans htDoc.symm) u (List.mem_append_left _ hu) v (List.mem_append_right _ hv)
      (by rw [huMatches.lookup]) (by rw [hvMatches.lookup, htDoc, hsDoc])
  · obtain ⟨hsResolved, u, hu, huMatches⟩ := hB s hs
    obtain ⟨htResolved, v, hv, hvMatches⟩ := hA t ht
    rw [← huMatches.host (hAllB s hs), ← hvMatches.host (hAllA t ht)]
    exact (h answersA reachedA answersB reachedB).1 _ htResolved _ hsResolved
      (htDoc.trans hsDoc.symm) u (List.mem_append_right _ hu) v (List.mem_append_left _ hv)
      (by rw [huMatches.lookup, htDoc, hsDoc]) (by rw [hvMatches.lookup])
  · obtain ⟨answers, reached, hResolved⟩ := Job.exists_resolved hl
    obtain ⟨hsResolved, u, hu, huMatches⟩ := hB s hs
    obtain ⟨-, v, hv, hvMatches⟩ := hB t ht
    rw [← huMatches.host (hAllB s hs), ← hvMatches.host (hAllB t ht)]
    exact (h answers reached answersB reachedB).1 _ hResolved _ hsResolved hsDoc.symm
      u (List.mem_append_right _ hu) v (List.mem_append_right _ hv)
      (by rw [huMatches.lookup, hsDoc]) (by rw [hvMatches.lookup, htDoc])

end Conditions

/-- In all runs of two jobs the tokens stay with their hosts, exactly if every source
that gets a token is an https URL, the payloads name one host for each document that
both jobs ask for, and a source that asks for the document of its destination names
the host of the destination. -/
theorem tokens_stay_with_host (lower : Text → Text) (check : Text → Bool) (a b : Job) :
    Confined lower check a b ↔
      (a.AllHttps lower check ∧ b.AllHttps lower check) ∧ OneHost lower check a b ∧
        a.OneHost lower check ∧ b.OneHost lower check := by
  constructor
  · intro h
    exact ⟨h.allHttps, h.oneHost, h.ownHost⟩
  · rintro ⟨⟨hAllA, hAllB⟩, hOne, hOwnA, hOwnB⟩ answersA reachedA answersB reachedB
    exact ⟨hOne.sameHost hAllA hAllB _ _ _ _, ⟨hAllA.https _ _, hAllB.https _ _⟩,
      hOwnA.ownHost hAllA _ _, hOwnB.ownHost hAllB _ _⟩

/-- Mirrors to two hosts under one name of an owner. -/
def mirrorPayload (host : Text) : MirrorJobCreate where
  sourceUrl := ['h', 't', 't', 'p', 's', ':', '/', '/', 'p', '/', 'q', '/', 'r']
  destOwner := ['a']
  destRepo := ['r']
  destProvider := some .github
  destHost := host

def mirrorJob (host : Text) : MirrorJob where
  sourceUrl := ['h', 't', 't', 'p', 's', ':', '/', '/', 'p', '/', 'q', '/', 'r']
  destOwner := ['a']
  destRepo := ['r']
  destProvider := .github
  destHost := host

theorem twoHosts_leak :
    createMirrorJob (mirrorPayload githubHost) = .ok (mirrorJob githubHost) ∧
      createMirrorJob (mirrorPayload ['e']) = .ok (mirrorJob ['e']) ∧
      ¬Confined (List.map Char.toLower) (fun _ => true) (.mirror (mirrorJob githubHost))
        (.mirror (mirrorJob ['e'])) := by
  refine ⟨rfl, rfl, fun h => ?_⟩
  have hSame := (h ⟨none, some ['t']⟩ 1 ⟨none, some ['t']⟩ 1).1
  have hHosts := hSame (mirrorJob githubHost).destLookup List.mem_cons_self
    (mirrorJob ['e']).destLookup List.mem_cons_self rfl
    ⟨.dest, (mirrorJob githubHost).destLookup,
      ['h', 't', 't', 'p', 's', ':', '/', '/'] ++ tokenUser .github ++ [':', 't', '@'] ++ githubHost ++
        ['/', 'a', '/', 'r', '.', 'g', 'i', 't']⟩ List.mem_cons_self
    ⟨.dest, (mirrorJob ['e']).destLookup,
      ['h', 't', 't', 'p', 's', ':', '/', '/'] ++ tokenUser .github ++
        [':', 't', '@', 'e', '/', 'a', '/', 'r', '.', 'g', 'i', 't']⟩
    (List.mem_cons_of_mem _ List.mem_cons_self) rfl rfl
  exact absurd hHosts (by decide)

end OpenSpoke.GitTokens
