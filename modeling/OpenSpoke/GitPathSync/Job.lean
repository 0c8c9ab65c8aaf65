import OpenSpoke.Python.Text

/-!
# Jobs of git_path_sync

What `create_job` makes of a request: the checks, and the job that the worker
gets. Python's `str.lower` is a parameter.
-/

namespace OpenSpoke.GitPathSync

open Python (Text)

/-- A path segment. -/
abbrev Name := {n : Text // '/' ∉ n}

abbrev Path := List Name

instance : LawfulBEq Path := inferInstance

def gitName : Name := ⟨['.', 'g', 'i', 't'], by decide⟩

def letter (c : Char) : Name := ⟨[c].filter (· ≠ '/'), by simp⟩

/-- `"/".join`. -/
def Path.text (p : Path) : Text := ['/'].intercalate (p.map Subtype.val)

/-- `raw.split("/")`; no segment has a slash in it. -/
def segments (raw : Text) : Path :=
  (raw.splitOn '/').filterMap fun seg => if h : '/' ∉ seg then some ⟨seg, h⟩ else none

def normPath (p : Text) : Except String Path :=
  let raw := Python.stripIf (· = '/') ((Python.strip p).map fun c => if c = '\\' then '/' else c)
  go (segments raw)
where
  go : Path → Except String Path
    | [] => .ok []
    | seg :: rest =>
      if seg.val = [] ∨ seg.val = ['.'] then go rest
      else if seg.val = ['.', '.'] then .error "path に .. は使えません"
      else if seg = gitName then .error "path に .git は使えません"
      else (go rest).map (seg :: ·)

inductive Mode
  | copy
  | sync
  | move
  deriving DecidableEq

inductive Provider
  | github
  | gitlab
  deriving DecidableEq

def Provider.defaultHost : Provider → Text
  | .github => "github.com".toList
  | .gitlab => "gitlab.example.com".toList

/-- One side of a request. The provider is `none` for any other text. -/
structure Side where
  provider : Option Provider
  host : Text
  owner : Text
  repo : Text
  branch : Text
  path : Text

/-- `PathSyncJobCreate`. The mode is `none` for any other text. -/
structure PathSyncJobCreate where
  source : Side
  dest : Side
  mode : Option Mode
  includes : List Text
  excludes : List Text
  message : Text
  dryRun : Bool
  allowRepoRoot : Bool

structure Endpoint where
  provider : Provider
  host : Text
  owner : Text
  repo : Text
  branch : Text
  path : Path
  deriving DecidableEq

structure Job where
  source : Endpoint
  dest : Endpoint
  mode : Mode
  includes : List Text
  excludes : List Text
  message : Text
  dryRun : Bool

/-- The same repository, as `create_job` compares them. -/
def Endpoint.sameRepo (lower : Text → Text) (a b : Endpoint) : Bool :=
  a.provider = b.provider && lower a.host = lower b.host && lower a.owner = lower b.owner &&
    lower a.repo = lower b.repo

/-- `a.startswith(b + "/")` on normalised paths. -/
def Path.inside (a b : Path) : Bool := b <+: a && a ≠ b

def Side.resolve (side : Side) (provider : Provider) (path : Path) : Endpoint where
  provider := provider
  host := if side.host = [] then provider.defaultHost else side.host
  owner := side.owner
  repo := side.repo
  branch := side.branch
  path := path

/-- `create_job`, up to the start of the worker; an error is the detail of a 400. -/
def createJob (lower : Text → Text) (payload : PathSyncJobCreate) : Except String Job := do
  let some mode := payload.mode
    | throw "mode は ('copy', 'sync', 'move') のいずれかです"
  let some srcProv := payload.source.provider
    | throw "source_provider は ('github', 'gitlab') のいずれかです"
  let some dstProv := payload.dest.provider
    | throw "dest_provider は ('github', 'gitlab') のいずれかです"
  if payload.source.owner = [] ∨ payload.source.repo = [] ∨ payload.dest.owner = [] ∨
      payload.dest.repo = [] then
    throw "source_owner / source_repo / dest_owner / dest_repo は必須です"
  let srcPath ← normPath payload.source.path
  let dstPath ← normPath payload.dest.path
  let src := payload.source.resolve srcProv srcPath
  let dst := payload.dest.resolve dstProv dstPath
  if (mode = .sync ∨ mode = .move) ∧ dstPath = [] ∧ payload.allowRepoRoot = false then
    throw ("dest_path 未指定で mode=sync / move は コピー先リポジトリ全体を書き換えます。 " ++
      "本当に行う場合は allow_repo_root=true を指定してください")
  if mode = .move ∧ srcPath = [] then
    throw "move でコピー元のリポジトリ直下は指定できません"
  if src.sameRepo lower dst then
    if srcPath = dstPath then
      throw "同じリポジトリの同じ場所が元と先に指定されています"
    if srcPath ≠ [] ∧ dstPath ≠ [] ∧ (dstPath.inside srcPath || srcPath.inside dstPath) then
      throw ("同じリポジトリで、 元と先のパスが入れ子になって" ++
        "います。 重ならない場所を指定してください")
  return { source := src, dest := dst, mode, includes := payload.includes,
           excludes := payload.excludes, message := payload.message, dryRun := payload.dryRun }

theorem normPath_ok {p : Text} {q : Path} (h : normPath p = .ok q) : gitName ∉ q := by
  have hGo : ∀ {raw q : Path}, normPath.go raw = .ok q → gitName ∉ q := by
    intro raw
    induction raw with
    | nil =>
      rintro q ⟨⟩
      simp
    | cons seg raw ih =>
      intro q h
      simp only [normPath.go] at h
      split at h
      · exact ih h
      · split at h
        · cases h
        · split at h
          · cases h
          · next hGit =>
            cases hRest : normPath.go raw with
            | error e =>
              rw [hRest] at h
              cases h
            | ok rest =>
              rw [hRest] at h
              cases h
              simp only [List.mem_cons, not_or]
              exact ⟨fun hEq => hGit hEq.symm, ih hRest⟩
  exact hGo h

/-- What an accepted job has passed. -/
structure Job.Accepted (lower : Text → Text) (job : Job) : Prop where
  source : gitName ∉ job.source.path
  dest : gitName ∉ job.dest.path
  move : job.mode = .move → job.source.path ≠ []
  different : job.source.sameRepo lower job.dest = true → job.source.path ≠ job.dest.path
  nested : job.source.sameRepo lower job.dest = true → job.source.path ≠ [] →
    job.dest.path ≠ [] → ¬job.source.path <+: job.dest.path ∧ ¬job.dest.path <+: job.source.path

theorem createJob_ok {lower : Text → Text} {payload : PathSyncJobCreate} {job : Job}
    (h : createJob lower payload = .ok job) : job.Accepted lower := by
  unfold createJob at h
  simp only [bind, Except.bind, pure, Except.pure, throw, throwThe, MonadExceptOf.throw] at h
  split at h
  case h_2 => cases h
  split at h
  case h_2 => cases h
  split at h
  case h_2 => cases h
  split at h
  · cases h
  cases hSrc : normPath payload.source.path with
  | error e => simp [hSrc] at h
  | ok srcPath =>
    cases hDst : normPath payload.dest.path with
    | error e => simp [hSrc, hDst] at h
    | ok dstPath =>
      simp only [hSrc, hDst] at h
      split at h
      · cases h
      split at h
      · cases h
      next hMove =>
      have hMove : ∀ {mode}, ¬(mode = Mode.move ∧ srcPath = []) → mode = .move → srcPath ≠ [] :=
        fun hNot hMode hEmpty => hNot ⟨hMode, hEmpty⟩
      split at h
      · next hSame =>
        split at h
        · cases h
        next hDiff =>
        split at h
        · cases h
        next hNest =>
        cases h
        refine ⟨normPath_ok hSrc, normPath_ok hDst, hMove ‹_›, fun _ => hDiff, fun _ hS hD => ?_⟩
        simp only [Side.resolve] at hS hD ⊢
        simp only [Path.inside, ne_eq, hS, hD, not_false_eq_true, true_and, Bool.or_eq_true,
          Bool.and_eq_true, decide_eq_true_eq, not_or, not_and] at hNest
        exact ⟨fun hPre => hNest.1 hPre (Ne.symm hDiff), fun hPre => hNest.2 hPre hDiff⟩
      · next hSame =>
        cases h
        exact ⟨normPath_ok hSrc, normPath_ok hDst, hMove ‹_›, fun hEq => absurd hEq hSame,
          fun hEq => absurd hEq hSame⟩

end OpenSpoke.GitPathSync
