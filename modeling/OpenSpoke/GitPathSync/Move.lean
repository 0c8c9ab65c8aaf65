import OpenSpoke.GitPathSync.OneTree
import OpenSpoke.GitPathSync.Sync

/-!
# What a move takes away

A move deletes the whole source path, also what the filters left out. The files
that they let through are in the destination before anything leaves the source.
-/

namespace OpenSpoke.GitPathSync

open FileTree
open Python (Text)

/-- A push takes the file away from the source. -/
def Result.removes (r : Result) (prep : Prepared) (p : Path) : Prop :=
  (prep.src.head.file p).isSome = true ∧
    ∃ push ∈ r.pushes, push.role = (if prep.oneTree then .dest else .source) ∧
      push.tree.file p = none

section Move

variable {env : Env} {lower : Text → Text} {maxFiles : Nat} {world : Text → Option Remote}
  {payload : PathSyncJobCreate} {job : Job} {prep : Prepared} {pl : Places}
  {st : Progress WorkTree}

theorem apart_of_accepted (hAccepted : job.Accepted lower) (hMove : job.mode = .move)
    (hPrep : prepare env lower world job = .ok prep)
    (hRoot : prep.oneTree = true → job.dest.path ≠ []) : Apart job sourceDir prep.dstDir := by
  unfold Prepared.dstDir
  split
  · next hOne =>
    have hSame : job.source.sameRepo lower job.dest = true := by
      have hBoth := (prepare_ok hPrep).1.symm.trans hOne
      exact (Bool.and_eq_true_iff.mp hBoth).1
    have hNested := hAccepted.nested hSame (hAccepted.move hMove) (hRoot hOne)
    exact ⟨fun hPre => hNested.1 ((List.prefix_append_right_inj _).mp hPre),
      fun hPre => hNested.2 ((List.prefix_append_right_inj _).mp hPre)⟩
  · exact apart_clones job

theorem file_ne_nil {t : WorkTree} {p : Path} (h : (t.file p).isSome = true) : p ≠ [] := by
  rintro rfl
  rw [file_eq_none_of_dir t.root] at h
  cases h

theorem takeSource_file (hPlaces : places treeOps job sourceDir prep.dstDir prep.tree = .ok pl)
    (hDry : job.dryRun = false) (hRun : reflect treeOps maxFiles job pl prep.tree = .ok st)
    {u : WorkTree} (hTake : takeSource env pl st.fs = .ok u) (q : Path) :
    u.file q = if sourceDir ++ job.source.path <+: q then none else st.fs.file q := by
  obtain ⟨mid, -, hDirs, hSame, -⟩ := reflect_tree hPlaces hDry hRun
  have hBase := (places_tree hPlaces).1
  unfold takeSource at hTake
  split at hTake
  · cases hTake
  · rw [removeSource_file hPlaces (by simp [hBase, sourceDir])
      (fun q hq => (hSame q).trans (hDirs q hq)) hTake q, hBase]

theorem staged_file (hApart : Apart job sourceDir prep.dstDir)
    (hPlaces : places treeOps job sourceDir prep.dstDir prep.tree = .ok pl)
    (hDry : job.dryRun = false) (hRun : reflect treeOps maxFiles job pl prep.tree = .ok st)
    {t : WorkTree} (hStaged : staged env job prep pl st.fs = .ok t) {q p : Path}
    (hAt : sourceAt job sourceDir prep.dstDir prep.tree q = some (sourceDir ++ p))
    (hFree : ¬Clash job sourceDir prep.dstDir prep.tree q) :
    t.file (prep.dstDir ++ q) = prep.src.head.file p := by
  have hReflect := reflect_arriving hPlaces hApart hDry hRun hAt hFree
  rw [prep_source] at hReflect
  unfold staged at hStaged
  split at hStaged
  · have hPlace : prep.dstDir ++ job.dest.path <+: prep.dstDir ++ q :=
      (List.prefix_append_right_inj _).mpr (sourceAt_below hAt).1
    rw [takeSource_file hPlaces hDry hRun hStaged, if_neg fun hPre => hApart.ne hPre hPlace rfl]
    exact hReflect
  · cases hStaged
    exact hReflect

/-- A file of the source is still in what a push to the source commits, unless it
is at the source path or the job writes there. -/
theorem removes_below (hPrep : prepare env lower world job = .ok prep)
    (hPlaces : places treeOps job sourceDir prep.dstDir prep.tree = .ok pl)
    (hDry : job.dryRun = false) (hRun : reflect treeOps maxFiles job pl prep.tree = .ok st) {p : Path}
    (hGone : (publish env job prep pl st).removes prep p) :
    job.source.path <+: p ∨ prep.oneTree = true ∧ job.dest.path <+: p := by
  obtain ⟨hThere, push, hMem, hRole, hNone⟩ := hGone
  have hne := file_ne_nil hThere
  by_contra hOut
  rw [not_or, not_and] at hOut
  have hSource : ¬sourceDir ++ job.source.path <+: sourceDir ++ p := fun hPre =>
    hOut.1 ((List.prefix_append_right_inj _).mp hPre)
  have hStill : ¬prep.dstDir ++ job.dest.path <+: sourceDir ++ p →
      st.fs.file (sourceDir ++ p) = prep.src.head.file p := fun hq =>
    (reflect_outside hPlaces hDry hRun hq).trans (prep_source prep p)
  -- a committed file of the source is not ignored
  have hKept : ∀ {u : WorkTree}, u.file (sourceDir ++ p) = st.fs.file (sourceDir ++ p) →
      ¬prep.dstDir ++ job.dest.path <+: sourceDir ++ p →
        (commitTree env prep.src.head (u.subtree sourceDir)).file p = prep.src.head.file p := by
    intro u hu hq
    rw [commitTree, keep_file, hThere, Bool.true_or, if_pos rfl, subtree_file _ _ hne, hu,
      hStill hq]
  have hSome : (prep.src.head.file p) ≠ none := Option.isSome_iff_ne_none.mp hThere
  obtain ⟨t, hStaged, rfl⟩ | ⟨-, hTwo, u, hTake, rfl⟩ := publish_push hMem
  · cases hOne : prep.oneTree with
    | false => simp [hOne] at hRole
    | true =>
      have hDst : prep.dstDir = sourceDir := by simp [Prepared.dstDir, hOne]
      have hq : ¬prep.dstDir ++ job.dest.path <+: sourceDir ++ p := by
        rw [hDst]
        exact fun hPre => hOut.2 hOne ((List.prefix_append_right_inj _).mp hPre)
      rw [(prepare_ok hPrep).2.2.1 hOne, hDst] at hNone
      refine hSome (((hKept ?_ hq).symm).trans hNone)
      unfold staged at hStaged
      split at hStaged
      · rw [takeSource_file hPlaces hDry hRun hStaged, if_neg hSource]
      · cases hStaged
        rfl
  · have hq : ¬prep.dstDir ++ job.dest.path <+: sourceDir ++ p := by
      simp [Prepared.dstDir, hTwo, sourceDir, destDir, sourceName, destName]
    refine hSome (((hKept ?_ hq).symm).trans hNone)
    rw [takeSource_file hPlaces hDry hRun hTake, if_neg hSource]

/-- A move takes nothing away outside of its paths, and takes away or succeeds
only with the picked files in the destination. -/
theorem move_keeps_picked {r : Result} (hJob : createJob lower payload = .ok job)
    (hMove : job.mode = .move) (hPrep : prepare env lower world job = .ok prep)
    (hRoot : prep.oneTree = true → job.dest.path ≠ [])
    (hEnd : syncWorker env lower maxFiles world job = r) :
    (∀ p, r.removes prep p →
      job.source.path <+: p ∨ prep.oneTree = true ∧ job.dest.path <+: p) ∧
    (r.state = .succeeded ∧ job.dryRun = false ∨ (∃ p, r.removes prep p) →
      ∀ q p, sourceAt job sourceDir prep.dstDir prep.tree q = some (sourceDir ++ p) →
        ¬Clash job sourceDir prep.dstDir prep.tree q → (∀ w, env.ignored w q = false) →
          (r.destTree prep).file q = prep.src.head.file p) := by
  subst hEnd
  obtain ⟨hNone, hFailed⟩ | ⟨prep', pl, st, hPrep', hPlaces, hRun, hDry, hPublish⟩ :=
    @syncWorker_cases env lower maxFiles world job
  · have hNothing : ∀ p, ¬(syncWorker env lower maxFiles world job).removes prep p := by
      rintro p ⟨-, push, hMem, -⟩
      simp [hNone] at hMem
    refine ⟨fun p hGone => absurd hGone (hNothing p), ?_⟩
    rintro (⟨hDone, hDry⟩ | ⟨p, hGone⟩)
    · simp [hDone, hDry] at hFailed
    · exact absurd hGone (hNothing p)
  · obtain rfl : prep = prep' := Except.ok.inj (hPrep.symm.trans hPrep')
    rw [hPublish]
    refine ⟨fun p hGone => removes_below hPrep hPlaces hDry hRun hGone, ?_⟩
    intro hWhen q p hAt hFree hSeen
    have hApart := apart_of_accepted (createJob_ok hJob) hMove hPrep hRoot
    have hAny : (publish env job prep pl st).state = .succeeded ∨
        (publish env job prep pl st).pushes ≠ [] := by
      rcases hWhen with ⟨hDone, -⟩ | ⟨p, -, push, hMem, -⟩
      · exact .inl hDone
      · exact .inr (List.ne_nil_of_mem hMem)
    obtain ⟨t, hStaged, hTree⟩ := publish_dest hAny
    have hne : q ≠ [] := by
      rintro rfl
      exact hFree ⟨by simp [hAt], by simpa using prep_dstDir prep⟩
    rw [hTree, commitTree, keep_file, hSeen, Bool.not_false, Bool.or_true, if_pos rfl,
      subtree_file _ _ hne]
    exact staged_file hApart hPlaces hDry hRun hStaged hAt hFree

end Move

/-! ## A file that the filters leave out -/

def fairEnv : Env where
  token _ := true
  cancelled _ := false
  cloneFails _ _ := false
  push _ := .accepted
  ignored _ _ := false
  stderr := ""

/-- A move of the files `x` from `a` to the directory `d` of another repository. -/
def filterPayload : PathSyncJobCreate where
  source := ⟨some .github, ['h'], ['o'], ['r'], [], ['a']⟩
  dest := ⟨some .github, ['h'], ['o'], ['s'], [], ['d']⟩
  mode := some .move
  includes := [['x']]
  excludes := []
  message := []
  dryRun := false
  allowRepoRoot := false

def filterJob : Job where
  source := ⟨.github, ['h'], ['o'], ['r'], [], [letter 'a']⟩
  dest := ⟨.github, ['h'], ['o'], ['s'], [], [letter 'd']⟩
  mode := .move
  includes := [['x']]
  excludes := []
  message := []
  dryRun := false

/-- The files `a/x` and `a/y`, and an empty repository. -/
def filterWorld (url : Text) : Option Remote :=
  let files := (FileTree.empty.withFile [letter 'a'] (letter 'x') [1]).withFile [letter 'a']
    (letter 'y') [2]
  if url = filterJob.source.url then
    some (.withoutTags mainBranch (fun b => if b = mainBranch then some files else none)
      mainBranch_ne_nil)
  else if url = filterJob.dest.url then
    some (.withoutTags mainBranch (fun _ => none) mainBranch_ne_nil)
  else none

theorem filter_prepared : ∃ prep, prepare fairEnv id filterWorld filterJob = .ok prep ∧
    prep.oneTree = false := ⟨_, rfl, rfl⟩

theorem move_keeps_picked_filter : ∃ prep,
    prepare fairEnv id filterWorld filterJob = .ok prep ∧
      ∀ q p, sourceAt filterJob sourceDir prep.dstDir prep.tree q = some (sourceDir ++ p) →
        ¬Clash filterJob sourceDir prep.dstDir prep.tree q →
          ((syncWorker fairEnv id 10 filterWorld filterJob).destTree prep).file q =
            prep.src.head.file p := by
  obtain ⟨prep, hPrep, hTwo⟩ := filter_prepared
  have hJob : createJob id filterPayload = .ok filterJob := rfl
  refine ⟨prep, hPrep, fun q p hAt hFree => ?_⟩
  refine (move_keeps_picked hJob rfl hPrep (by simp [hTwo]) rfl).2 (.inl ⟨?_, rfl⟩) q p hAt hFree
    fun _ => rfl
  decide

/-- `a/y` leaves the source and goes nowhere. -/
theorem move_loses_filtered : ∃ prep,
    createJob id filterPayload = .ok filterJob ∧ filterJob.mode = .move ∧
      prepare fairEnv id filterWorld filterJob = .ok prep ∧
      (syncWorker fairEnv id 10 filterWorld filterJob).state = .succeeded ∧
      (syncWorker fairEnv id 10 filterWorld filterJob).removes prep [letter 'a', letter 'y'] ∧
      ((syncWorker fairEnv id 10 filterWorld filterJob).destTree prep).file
          [letter 'd', letter 'y'] ≠
        prep.src.head.file [letter 'a', letter 'y'] := by
  refine ⟨_, rfl, rfl, rfl, by decide, ⟨by decide, ?_⟩, by decide⟩
  refine ⟨(syncWorker fairEnv id 10 filterWorld filterJob).pushes.getLast (by decide),
    List.getLast_mem _, by decide, by decide⟩

end OpenSpoke.GitPathSync
