import OpenSpoke.GitPathSync.Git

/-!
# The worker of git_path_sync

`_sync_worker` from the tokens to the final state: the clones, the reflection,
and the pushes. Every error ends the job as failed.
-/

namespace OpenSpoke.GitPathSync

open FileTree
open Python (Text)

/-- The `same_repo` of the worker. -/
def Job.oneTree (lower : Text → Text) (job : Job) : Bool :=
  job.source.sameRepo lower job.dest &&
    (job.dest.branch = [] || job.source.branch = [] || job.dest.branch = job.source.branch)

structure Prepared where
  oneTree : Bool
  src : Clone
  -- in one work tree, the clone of the source
  dst : Clone

/-- The directory with the clones. -/
def Prepared.tree (prep : Prepared) : WorkTree :=
  if prep.oneTree then join [(sourceName, prep.src.head)]
  else join [(sourceName, prep.src.head), (destName, prep.dst.head)]

def Prepared.dstDir (prep : Prepared) : Path := if prep.oneTree then sourceDir else destDir

/-- Up to the clones. -/
def prepare (env : Env) (lower : Text → Text) (world : Text → Option Remote) (job : Job) :
    Except String Prepared :=
  if env.token .dest = false then
    .error ("コピー先のトークンが保管庫にありません: org:" ++
      match job.dest.provider with
      | .github => "github:" ++ String.ofList job.dest.owner
      | .gitlab => "gitlab:" ++ String.ofList (job.dest.host ++ [':'] ++ job.dest.owner))
  else if job.mode = .move ∧ env.token .source = false then
    .error "move はコピー元への push が必要です。 コピー元のトークンが保管庫にありません"
  else if env.cancelled .clone then .error "cancelled (clone 前)"
  else
    match cloneShallow env .source (world job.source.url) job.source.branch with
    | .error e => .error e
    | .ok src =>
      if job.oneTree lower then .ok { oneTree := true, src, dst := src }
      else if env.cancelled .destClone then .error "cancelled (コピー先 clone 前)"
      else
        match cloneShallow env .dest (world job.dest.url) job.dest.branch with
        | .error e => .error e
        | .ok dst => .ok { oneTree := false, src, dst }

inductive JobState
  | succeeded
  | failed
  deriving DecidableEq

structure Result where
  state : JobState
  -- the progress text or the error
  note : String
  counters : Counters
  changedFiles : List Text
  pushes : List Push

def Result.fail (note : String) (counters : Counters) (changedFiles : List Text)
    (pushes : List Push) : Result :=
  { state := .failed, note, counters, changedFiles := changedFiles.take 500, pushes }

def noCounters : Counters := ⟨0, 0, 0, 0, 0, 0⟩

def Mode.text : Mode → String
  | .copy => "copy"
  | .sync => "sync"
  | .move => "move"

/-- The message of the commit in the destination. -/
def Job.commitMessage (job : Job) : String :=
  let place (e : Endpoint) :=
    String.ofList (e.owner ++ ['/'] ++ e.repo ++ if e.path = [] then [] else '/' :: e.path.text)
  if job.message = [] then job.mode.text ++ ": " ++ place job.source ++ " -> " ++ place job.dest
  else String.ofList job.message

/-- The message of the commit that takes the source away. -/
def Job.removalMessage (job : Job) : String :=
  "move: " ++ String.ofList job.source.path.text ++ " を " ++
    String.ofList (job.dest.owner ++ ['/'] ++ job.dest.repo) ++ " へ移しました"

/-- The deletion of the source of a move, after its checkpoint. -/
def takeSource (env : Env) (pl : Places) (t : WorkTree) : Except String WorkTree :=
  if env.cancelled .removal then .error "cancelled (コピー元削除前)"
  else removeSource treeOps pl t

/-- The removal push of a move between two repositories. -/
def pushRemoval (env : Env) (job : Job) (prep : Prepared) (pl : Places) (t : WorkTree) :
    Option Push × Except String Bool :=
  match takeSource env pl t with
  | .error e => (none, .error e)
  | .ok t =>
    commitAndPush env .source job.source.url prep.src job.removalMessage (t.subtree sourceDir)

/-- In one work tree the source goes before the push. -/
def staged (env : Env) (job : Job) (prep : Prepared) (pl : Places) (t : WorkTree) :
    Except String WorkTree :=
  if job.mode = .move ∧ prep.oneTree = true then takeSource env pl t else .ok t

/-- From the end of the reflection on. -/
def publish (env : Env) (job : Job) (prep : Prepared) (pl : Places) (st : Progress WorkTree) :
    Result :=
  let fail (e : String) (pushes : List Push) := Result.fail e st.counters st.changedFiles pushes
  if job.mode = .move ∧ job.source.path = [] then
    fail "move でコピー元のリポジトリ直下は指定できません" []
  else
    match staged env job prep pl st.fs with
    | .error e => fail e []
    | .ok t =>
      if env.cancelled .push then fail "cancelled (push 前)" []
      else
        match commitAndPush env .dest job.dest.url prep.dst job.commitMessage
          (t.subtree prep.dstDir) with
        | (pushed, .error e) => fail e pushed.toList
        | (pushed, .ok any) =>
          let done (pushes : List Push) : Result := {
            state := .succeeded, note := if any then "完了" else "変更なしで完了"
            counters := st.counters, changedFiles := st.changedFiles.take 500, pushes }
          if job.mode = .move ∧ prep.oneTree = false then
            match pushRemoval env job prep pl t with
            | (removed, .error e) => fail e (pushed.toList ++ removed.toList)
            | (removed, .ok _) => done (pushed.toList ++ removed.toList)
          else done pushed.toList

def syncWorker (env : Env) (lower : Text → Text) (maxFiles : Nat) (world : Text → Option Remote)
    (job : Job) : Result :=
  match prepare env lower world job with
  | .error e => .fail e noCounters [] []
  | .ok prep =>
    match places treeOps job sourceDir prep.dstDir prep.tree with
    | .error e => .fail e noCounters [] []
    | .ok pl =>
      if env.cancelled .reflect ∧ (pl.picked job).length ≤ maxFiles then
        .fail "cancelled (反映前)"
          ⟨(pl.picked job).length, 0, 0, 0, 0, pl.srcFiles.length - (pl.picked job).length⟩ [] []
      else
        match reflect treeOps maxFiles job pl prep.tree with
        | .error (e, st) => .fail e st.counters [] []
        | .ok st =>
          if job.dryRun then {
            state := .succeeded, note := "下見のみ (push していません)"
            counters := st.counters, changedFiles := st.changedFiles.take 500, pushes := [] }
          else publish env job prep pl st

/-- The files that the destination has after the job. -/
def Result.destTree (r : Result) (prep : Prepared) : WorkTree :=
  prep.dst.after (r.pushes.find? fun p => p.role = .dest)

section Publish

variable {env : Env} {job : Job} {prep : Prepared} {pl : Places} {st : Progress WorkTree}

theorem commitAndPush_role {role : Role} {url : Text} {clone : Clone} {message : String}
    {work : WorkTree} {p : Push}
    (h : p ∈ (commitAndPush env role url clone message work).1.toList) :
    p = ⟨role, url, clone.branch, message, commitTree env clone.head work⟩ :=
  commitAndPush_fst (Option.mem_toList.mp h)

theorem pushRemoval_push {t : WorkTree} {p : Push} (h : p ∈ (pushRemoval env job prep pl t).1.toList) :
    ∃ u, takeSource env pl t = .ok u ∧
      p = ⟨.source, job.source.url, prep.src.branch, job.removalMessage,
        commitTree env prep.src.head (u.subtree sourceDir)⟩ := by
  unfold pushRemoval at h
  split at h
  · simp at h
  · next u hTake => exact ⟨u, hTake, commitAndPush_role h⟩

theorem find_dest {o : Option Push} {l : List Push} (hDest : ∀ p ∈ o, p.role = .dest)
    (hSource : ∀ p ∈ l, p.role = .source) :
    ((o.toList ++ l).find? fun p => p.role = .dest) = o := by
  cases o with
  | some p => simp [hDest p rfl]
  | none =>
    refine List.find?_eq_none.mpr fun p hp => ?_
    simp [hSource p (by simpa using hp)]

theorem publish_cases :
    (publish env job prep pl st).state = .failed ∧ (publish env job prep pl st).pushes = [] ∨
    ∃ t pushed, staged env job prep pl st.fs = .ok t ∧
      commitAndPush env .dest job.dest.url prep.dst job.commitMessage (t.subtree prep.dstDir) =
        pushed ∧
      ((publish env job prep pl st).state = .failed ∧
          (publish env job prep pl st).pushes = pushed.1.toList ∨
        (∃ b, pushed.2 = .ok b) ∧
          ((publish env job prep pl st).pushes = pushed.1.toList ∨
            job.mode = .move ∧ prep.oneTree = false ∧
              (publish env job prep pl st).pushes =
                pushed.1.toList ++ (pushRemoval env job prep pl t).1.toList)) := by
  unfold publish
  dsimp only
  split
  · exact .inl ⟨rfl, rfl⟩
  · split
    · exact .inl ⟨rfl, rfl⟩
    · next t hStaged =>
      split
      · exact .inl ⟨rfl, rfl⟩
      · refine .inr ⟨t, _, hStaged, rfl, ?_⟩
        split
        · next pushed e hPush =>
          rw [hPush]
          exact .inl ⟨rfl, rfl⟩
        · next pushed any hPush =>
          rw [hPush]
          refine .inr ⟨⟨any, rfl⟩, ?_⟩
          split
          · next hMove =>
            split
            · next removed e hRemoval =>
              rw [hRemoval]
              exact .inr ⟨hMove.1, hMove.2, rfl⟩
            · next removed any' hRemoval =>
              rw [hRemoval]
              exact .inr ⟨hMove.1, hMove.2, rfl⟩
          · exact .inl rfl

theorem publish_push {p : Push} (h : p ∈ (publish env job prep pl st).pushes) :
    (∃ t, staged env job prep pl st.fs = .ok t ∧
      p = ⟨.dest, job.dest.url, prep.dst.branch, job.commitMessage,
        commitTree env prep.dst.head (t.subtree prep.dstDir)⟩) ∨
    job.mode = .move ∧ prep.oneTree = false ∧ ∃ u, takeSource env pl st.fs = .ok u ∧
      p = ⟨.source, job.source.url, prep.src.branch, job.removalMessage,
        commitTree env prep.src.head (u.subtree sourceDir)⟩ := by
  obtain ⟨-, hNone⟩ | ⟨t, pushed, hStaged, rfl, ⟨-, hPushes⟩ | ⟨-, hPushes | hMore⟩⟩ :=
    @publish_cases env job prep pl st
  · simp [hNone] at h
  · rw [hPushes] at h
    exact .inl ⟨t, hStaged, commitAndPush_role h⟩
  · rw [hPushes] at h
    exact .inl ⟨t, hStaged, commitAndPush_role h⟩
  · obtain ⟨hMove, hTwo, hPushes⟩ := hMore
    rw [hPushes, List.mem_append] at h
    rcases h with h | h
    · exact .inl ⟨t, hStaged, commitAndPush_role h⟩
    · obtain rfl : st.fs = t := by simpa [staged, hTwo] using hStaged
      exact .inr ⟨hMove, hTwo, pushRemoval_push h⟩

theorem publish_dest (h : (publish env job prep pl st).state = .succeeded ∨
      (publish env job prep pl st).pushes ≠ []) :
    ∃ t, staged env job prep pl st.fs = .ok t ∧
      ((publish env job prep pl st).destTree prep).file =
        (commitTree env prep.dst.head (t.subtree prep.dstDir)).file := by
  obtain ⟨hFailed, hNone⟩ | ⟨t, pushed, hStaged, hCommit, hCases⟩ :=
    @publish_cases env job prep pl st
  · rw [hFailed, hNone] at h
    simp at h
  · refine ⟨t, hStaged, ?_⟩
    have hDest : ∀ p ∈ pushed.1, p.role = .dest := by
      intro p hp
      rw [← hCommit] at hp
      rw [commitAndPush_fst hp]
    have hAny : (∃ b, pushed.2 = .ok b) ∨ pushed.1.isSome = true := by
      obtain ⟨hFailed, hPushes⟩ | ⟨hOk, -⟩ := hCases
      · right
        have hSome := h.resolve_left (by simp [hFailed])
        rw [hPushes] at hSome
        by_contra hNone
        rw [Option.not_isSome_iff_eq_none] at hNone
        simp [hNone] at hSome
      · exact .inl hOk
    have hFind : ((publish env job prep pl st).pushes.find? fun p => p.role = .dest) = pushed.1 := by
      obtain ⟨-, hPushes⟩ | ⟨-, hPushes | ⟨-, -, hPushes⟩⟩ := hCases <;> rw [hPushes]
      · rw [← List.append_nil pushed.1.toList]
        exact find_dest hDest (by simp)
      · rw [← List.append_nil pushed.1.toList]
        exact find_dest hDest (by simp)
      · refine find_dest hDest fun p hp => ?_
        obtain ⟨u, -, rfl⟩ := pushRemoval_push hp
        rfl
    rw [Result.destTree, hFind]
    subst hCommit
    exact commitAndPush_after hAny

end Publish

section Worker

variable {env : Env} {lower : Text → Text} {maxFiles : Nat} {world : Text → Option Remote}
  {job : Job} {prep : Prepared}

theorem prepare_ok (h : prepare env lower world job = .ok prep) :
    prep.oneTree = job.oneTree lower ∧
      cloneShallow env .source (world job.source.url) job.source.branch = .ok prep.src ∧
      (prep.oneTree = true → prep.dst = prep.src) ∧
      (prep.oneTree = false →
        cloneShallow env .dest (world job.dest.url) job.dest.branch = .ok prep.dst) := by
  unfold prepare at h
  split at h
  · cases h
  split at h
  · cases h
  split at h
  · cases h
  split at h
  · cases h
  next src hSrc =>
  split at h
  · next hOne =>
    cases h
    exact ⟨hOne.symm, hSrc, fun _ => rfl, by simp⟩
  · next hTwo =>
    split at h
    · cases h
    · split at h
      · cases h
      · next dst hDst =>
        cases h
        exact ⟨(Bool.eq_false_iff.mpr hTwo).symm, hSrc, by simp, fun _ => hDst⟩

theorem prep_source (prep : Prepared) (p : Path) :
    prep.tree.file (sourceDir ++ p) = prep.src.head.file p := by
  unfold Prepared.tree
  split
  · exact (join_file _ rfl p).1
  · exact (join_file _ rfl p).1

theorem prep_dstDir (prep : Prepared) : prep.tree.isDir prep.dstDir = true := by
  unfold Prepared.tree Prepared.dstDir
  split
  · exact ((join_file [(sourceName, prep.src.head)] rfl []).2).trans (isDir_iff.mpr (root _))
  · exact ((join_file [(sourceName, prep.src.head), (destName, prep.dst.head)] rfl []).2).trans
      (isDir_iff.mpr (root _))

theorem syncWorker_cases :
    (syncWorker env lower maxFiles world job).pushes = [] ∧
        ((syncWorker env lower maxFiles world job).state = .failed ∨ job.dryRun = true) ∨
    ∃ prep pl st, prepare env lower world job = .ok prep ∧
      places treeOps job sourceDir prep.dstDir prep.tree = .ok pl ∧
      reflect treeOps maxFiles job pl prep.tree = .ok st ∧ job.dryRun = false ∧
      syncWorker env lower maxFiles world job = publish env job prep pl st := by
  unfold syncWorker
  split
  · exact .inl ⟨rfl, .inl rfl⟩
  next prep hPrep =>
  split
  · exact .inl ⟨rfl, .inl rfl⟩
  next pl hPlaces =>
  split
  · exact .inl ⟨rfl, .inl rfl⟩
  split
  · exact .inl ⟨rfl, .inl rfl⟩
  next st hRun =>
  split
  · next hDry => exact .inl ⟨rfl, .inr hDry⟩
  · next hDry => exact .inr ⟨prep, pl, st, hPrep, hPlaces, hRun, by simpa using hDry, rfl⟩

end Worker

end OpenSpoke.GitPathSync
