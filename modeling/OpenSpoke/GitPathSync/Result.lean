import OpenSpoke.GitPathSync.Picked

/-!
# The result of a reflection between two clones

The file map of the destination against the description of the modes. They
agree unless a picked file meets a directory of the destination: `copy2` then
puts the file into that directory.
-/

namespace OpenSpoke.GitPathSync

open FileTree

/-- Neither of the two places lies below the other. -/
def Apart (job : Job) (srcDir dstDir : Path) : Prop :=
  ¬srcDir ++ job.source.path <+: dstDir ++ job.dest.path ∧
    ¬dstDir ++ job.dest.path <+: srcDir ++ job.source.path

section Kept

variable {maxFiles : Nat} {job : Job} {srcDir dstDir : Path} {pl : Places} {t mid : WorkTree}
  {st : Progress WorkTree}

theorem Apart.ne (hApart : Apart job srcDir dstDir) {p q : Path}
    (hp : srcDir ++ job.source.path <+: p) (hq : dstDir ++ job.dest.path <+: q) : p ≠ q := by
  rintro rfl
  rcases List.prefix_or_prefix_of_prefix hp hq with hPre | hPre
  · exact hApart.1 hPre
  · exact hApart.2 hPre

theorem apart_clones (job : Job) : Apart job sourceDir destDir := by
  have hNames : sourceName ≠ destName := by decide
  constructor <;> rintro ⟨r, hEq⟩ <;> have hHead := (List.cons.inj hEq).1
  · exact hNames hHead
  · exact hNames hHead.symm

theorem picked_not_surplus (hPlaces : places treeOps job srcDir dstDir t = .ok pl) {q ap : Path}
    (hAt : sourceAt job srcDir dstDir t q = some ap) :
    ¬(pl.srcIsFile = false ∧ ∃ e ∈ walkFiles treeOps mid pl.dstBase,
        isSurplus job (pl.picked job) e.1 = true ∧ e.2 = dstDir ++ q) := by
  rintro ⟨hKind, ⟨rel, place⟩, hWalk, hSurplus, rfl⟩
  obtain ⟨hBase, ⟨-, hFile, -⟩ | ⟨hDir, -, hDst, -⟩⟩ := places_tree hPlaces
  · rw [hKind] at hFile
    cases hFile
  · rw [hBase] at hDir
    obtain ⟨r, rfl⟩ := (sourceAt_below hAt).1
    have hPicked := (sourceAt_dir hDir).mp hAt
    obtain ⟨hOne, -, hPlace⟩ | ⟨-, -, -, hPlace⟩ := mem_walkFiles.mp hWalk
    · have hNil : r = [] := by
        rw [hDst, ← List.append_assoc] at hPlace
        simpa using hPlace
      obtain ⟨rfl, -, -, hFile⟩ := hPicked
      rw [hNil, List.append_nil, file_of_dir hDir] at hFile
      cases hFile
    · rw [hDst, ← List.append_assoc] at hPlace
      obtain rfl := List.append_cancel_left hPlace
      have hMem : r ∈ (pl.picked job).map Prod.fst :=
        List.mem_map.mpr ⟨_, (mem_picked_dir hPlaces hDir).mpr hPicked, rfl⟩
      simp [isSurplus, hMem] at hSurplus

theorem landing_below (hPlaces : places treeOps job srcDir dstDir t = .ok pl) {e : Path × Path}
    (he : e ∈ landings t pl (pl.picked job)) :
    srcDir ++ job.source.path <+: e.1 ∧ dstDir ++ job.dest.path <+: e.2 := by
  obtain ⟨q, hAt, hTarget⟩ := sourceAt_of_landing hPlaces he
  obtain ⟨hPlace, hSource⟩ := sourceAt_below hAt
  have hPre : dstDir ++ job.dest.path <+: dstDir ++ q := (List.prefix_append_right_inj _).mpr hPlace
  refine ⟨hSource, ?_⟩
  rcases hTarget with hTarget | ⟨-, hTarget⟩ <;> rw [hTarget]
  · exact hPre
  · exact hPre.trans (List.prefix_append _ _)

theorem assign_landing (hPlaces : places treeOps job srcDir dstDir t = .ok pl)
    (hApart : Apart job srcDir dstDir)
    (hMid : mid.file = assign t.file (landings t pl (sortFiles (pl.picked job)))) :
    ∀ e ∈ landings t pl (pl.picked job), mid.file e.2 = t.file e.1 := by
  intro e he
  obtain ⟨hMem, hNodup⟩ := landings_sortFiles hPlaces
  rw [hMid]
  refine (assign_simultaneous_iff t.file hNodup).mpr ?_ e ((hMem e).mpr he)
  refine (List.Nodup.of_map _ hNodup).pairwise_of_forall_ne fun e he f hf _ hEq => ?_
  exact absurd hEq.symm (hApart.ne (landing_below hPlaces ((hMem f).mp hf)).1
    (landing_below hPlaces ((hMem e).mp he)).2)

theorem assign_elsewhere (hPlaces : places treeOps job srcDir dstDir t = .ok pl)
    (hMid : mid.file = assign t.file (landings t pl (sortFiles (pl.picked job)))) {q : Path}
    (hq : ∀ e ∈ landings t pl (pl.picked job), e.2 ≠ q) : mid.file q = t.file q := by
  rw [hMid]
  exact assign_of_not_mem t.file fun e he => hq e (((landings_sortFiles hPlaces).1 e).mp he)

theorem reflect_arriving (hPlaces : places treeOps job srcDir dstDir t = .ok pl)
    (hApart : Apart job srcDir dstDir) (hDry : job.dryRun = false)
    (hRun : reflect treeOps maxFiles job pl t = .ok st) {q ap : Path}
    (hAt : sourceAt job srcDir dstDir t q = some ap) (hFree : ¬Clash job srcDir dstDir t q) :
    st.fs.file (dstDir ++ q) = t.file ap := by
  obtain ⟨mid, hMid, -, -, hEnd⟩ := reflect_tree hPlaces hDry hRun
  rw [hEnd, if_neg fun h => picked_not_surplus hPlaces hAt h.2]
  exact assign_landing hPlaces hApart hMid _
    (landing_of_sourceAt hPlaces hAt (isDir_of_not_clash hFree hAt))

theorem reflect_outside (hPlaces : places treeOps job srcDir dstDir t = .ok pl)
    (hDry : job.dryRun = false) (hRun : reflect treeOps maxFiles job pl t = .ok st) {q : Path}
    (hq : ¬dstDir ++ job.dest.path <+: q) : st.fs.file q = t.file q := by
  obtain ⟨mid, hMid, -, -, hEnd⟩ := reflect_tree hPlaces hDry hRun
  rw [hEnd, if_neg]
  · refine assign_elsewhere hPlaces hMid fun e he hEq => ?_
    exact hq (hEq ▸ (landing_below hPlaces he).2)
  · rintro ⟨-, hKind, ⟨rel, place⟩, hWalk, -, rfl⟩
    obtain ⟨-, ⟨-, hFile, -⟩ | ⟨-, -, hDst, -⟩⟩ := places_tree hPlaces
    · rw [hKind] at hFile
      cases hFile
    · refine hq ?_
      rw [← hDst]
      obtain ⟨-, -, hPlace⟩ | ⟨-, -, -, hPlace⟩ := mem_walkFiles.mp hWalk <;> rw [hPlace]
      exact List.prefix_append _ _

end Kept

section Clones

variable {maxFiles : Nat} {job : Job} {pl : Places} {t mid : WorkTree} {st : Progress WorkTree}

/-- What the modes promise of the destination: outside of `dest_path` nothing
changes, `copy` overrides, and `sync` also deletes what the filters select. -/
structure Reflected (job : Job) (t u : WorkTree) : Prop where
  outside : ∀ q, gitName ∉ q → ¬job.dest.path <+: q →
    u.file (destDir ++ q) = t.file (destDir ++ q)
  copy : job.mode = .copy → ∀ q, gitName ∉ q → job.dest.path <+: q →
    u.file (destDir ++ q) = (arriving job sourceDir destDir t q).or (t.file (destDir ++ q))
  sync : job.mode = .sync → t.isDir (sourceDir ++ job.source.path) = true →
    ∀ r, gitName ∉ job.dest.path ++ r →
      u.file (destDir ++ (job.dest.path ++ r)) =
        (arriving job sourceDir destDir t (job.dest.path ++ r)).or
          (if job.selects (if r = [] then (destDir ++ job.dest.path).basename else r) then none
          else t.file (destDir ++ (job.dest.path ++ r)))
  mirror : job.mode = .sync → t.isDir (sourceDir ++ job.source.path) = true →
    job.includes = [] → job.excludes = [] → ∀ r, gitName ∉ job.dest.path ++ r →
      u.file (destDir ++ (job.dest.path ++ r)) = t.file (sourceDir ++ job.source.path ++ r)

theorem loop_file (hPlaces : places treeOps job sourceDir destDir t = .ok pl)
    (hMid : mid.file = assign t.file (landings t pl (sortFiles (pl.picked job))))
    (hFree : ∀ q, gitName ∉ q → ¬Clash job sourceDir destDir t q) {q : Path} (hq : gitName ∉ q) :
    mid.file (destDir ++ q) =
      (arriving job sourceDir destDir t q).or (t.file (destDir ++ q)) := by
  unfold arriving
  cases hAt : sourceAt job sourceDir destDir t q with
  | some ap =>
    obtain ⟨b, hb⟩ := isFile_iff.mp (sourceAt_file hAt)
    rw [assign_landing hPlaces (apart_clones job) hMid _ (landing_of_sourceAt hPlaces hAt
      (isDir_of_not_clash (hFree q hq) hAt))]
    simp [file_eq_some.mpr hb]
  | none =>
    rw [assign_elsewhere hPlaces hMid]
    · rfl
    · rintro ⟨ap, target⟩ he rfl
      obtain ⟨p, hPlace, hTarget | ⟨hDir, hTarget⟩⟩ := sourceAt_of_landing hPlaces he
      · obtain rfl := List.append_cancel_left hTarget
        rw [hAt] at hPlace
        cases hPlace
      · rw [List.append_assoc] at hTarget
        obtain rfl := List.append_cancel_left hTarget
        rw [isDir_of_not_clash (hFree p fun hMem => hq (List.mem_append_left _ hMem)) hPlace] at hDir
        cases hDir

theorem reflect_sync (hPlaces : places treeOps job sourceDir destDir t = .ok pl)
    (hDry : job.dryRun = false) (hRun : reflect treeOps maxFiles job pl t = .ok st)
    (hMode : job.mode ≠ .copy) (hDir : t.isDir (sourceDir ++ job.source.path) = true)
    (hFree : ∀ q, gitName ∉ q → ¬Clash job sourceDir destDir t q) {r : Path}
    (hr : gitName ∉ job.dest.path ++ r) :
    st.fs.file (destDir ++ (job.dest.path ++ r)) =
      (arriving job sourceDir destDir t (job.dest.path ++ r)).or
        (if job.selects (if r = [] then (destDir ++ job.dest.path).basename else r) then none
        else t.file (destDir ++ (job.dest.path ++ r))) := by
  obtain ⟨mid, hMid, -, -, hEnd⟩ := reflect_tree hPlaces hDry hRun
  have hLoop := loop_file hPlaces hMid hFree hr
  cases hAt : sourceAt job sourceDir destDir t (job.dest.path ++ r) with
  | some ap =>
    rw [hEnd, if_neg fun h => picked_not_surplus hPlaces hAt h.2, hLoop]
    obtain ⟨b, hb⟩ := isFile_iff.mp (sourceAt_file hAt)
    simp [arriving, hAt, file_eq_some.mpr hb]
  | none =>
    obtain ⟨hBase, ⟨hFile, -⟩ | ⟨-, hKind, hDst, -⟩⟩ := places_tree hPlaces
    · rw [hBase, file_of_dir hDir] at hFile
      cases hFile
    · have hNone : arriving job sourceDir destDir t (job.dest.path ++ r) = none := by
        simp [arriving, hAt]
      rw [hNone, Option.none_or] at hLoop ⊢
      have hGit : gitName ∉ r := fun h => hr (List.mem_append_right _ h)
      rw [hEnd, ← List.append_assoc, ← hDst]
      rw [← List.append_assoc, ← hDst] at hLoop
      cases hThere : t.file (pl.dstBase ++ r) with
      | none => simp [hLoop, hThere]
      | some b =>
        have hStill : mid.isFile (pl.dstBase ++ r) = true := by
          simp [FileTree.isFile, hLoop, hThere]
        have hKey := fun rel => mem_walkFiles_at mid pl.dstBase rel hGit
        have hLeft : (if r = [] then pl.dstBase.basename else r) ∉
            (pl.picked job).map Prod.fst := by
          intro hMem
          obtain ⟨⟨rel, ap⟩, he, hEq⟩ := List.mem_map.mp hMem
          have hPicked := (mem_picked_dir hPlaces hDir).mp he
          by_cases hNil : r = []
          · -- a picked file would have met the file at `dest_path`
            subst hNil
            have hMem : (ap, t.landing ap (pl.dstBase ++ rel)) ∈ landings t pl (pl.picked job) :=
              List.mem_map_of_mem he
            have hPut := assign_landing hPlaces (apart_clones job) hMid _ hMem
            obtain ⟨c, hc⟩ := isFile_iff.mp hPicked.2.2.2
            obtain ⟨d, hd⟩ := isFile_iff.mp hStill
            rw [List.append_nil] at hd
            rw [file_eq_some.mpr hc, file_eq_some] at hPut
            have hPre : pl.dstBase ++ rel <+: t.landing ap (pl.dstBase ++ rel) := landing_prefix
            have hEnd := mid.eq_of_file_prefix (file_eq_some.mpr hd)
              (q := t.landing ap (pl.dstBase ++ rel)) (by simp [hPut])
              ((List.prefix_append _ _).trans hPre)
            rw [← hEnd] at hPre
            have hLong := hPre.length_le
            rw [List.length_append] at hLong
            have hZero : rel.length = 0 := by omega
            exact ((picked_separate hPlaces).1 _ he).1 (List.eq_nil_of_length_eq_zero hZero)
          · rw [if_neg hNil] at hEq
            obtain rfl : rel = r := hEq
            rw [(sourceAt_dir hDir).mpr hPicked] at hAt
            cases hAt
        have hDeleted : (∃ e ∈ walkFiles treeOps mid pl.dstBase,
              isSurplus job (pl.picked job) e.1 = true ∧ e.2 = pl.dstBase ++ r) ↔
            job.selects (if r = [] then pl.dstBase.basename else r) = true := by
          constructor
          · rintro ⟨⟨rel, place⟩, hWalk, hSurplus, rfl⟩
            obtain rfl := ((hKey rel).mp hWalk).2
            exact (Bool.and_eq_true_iff.mp hSurplus).2
          · intro hSelects
            exact ⟨_, (hKey _).mpr ⟨hStill, rfl⟩, by simp [isSurplus, hLeft, hSelects], rfl⟩
        simp only [hMode, ne_eq, not_false_eq_true, hKind, true_and, hDeleted, hLoop, hThere]

/-- The result is the promised one exactly if no picked file meets a directory. -/
theorem reflected_iff (hPlaces : places treeOps job sourceDir destDir t = .ok pl)
    (hDry : job.dryRun = false) (hRun : reflect treeOps maxFiles job pl t = .ok st) :
    Reflected job t st.fs ↔
      (job.mode = .copy ∨
          job.mode = .sync ∧ t.isDir (sourceDir ++ job.source.path) = true →
        ∀ q, gitName ∉ q → ¬Clash job sourceDir destDir t q) := by
  constructor
  · rintro hSpec hMode q hq ⟨hAt, hDir⟩
    have hStill : st.fs.isDir (destDir ++ q) = true := by
      obtain ⟨mid, -, hDirs, hSame, -⟩ := reflect_tree hPlaces hDry hRun
      rw [hSame]
      exact hDirs _ hDir
    obtain ⟨ap, hAt⟩ := Option.isSome_iff_exists.mp hAt
    obtain ⟨b, hb⟩ := isFile_iff.mp (sourceAt_file hAt)
    have hArrive : arriving job sourceDir destDir t q = some b := by
      simp [arriving, hAt, file_eq_some.mpr hb]
    obtain ⟨r, rfl⟩ := (sourceAt_below hAt).1
    have hPut : st.fs.file (destDir ++ (job.dest.path ++ r)) = some b := by
      rcases hMode with hCopy | ⟨hSync, hKind⟩
      · rw [hSpec.copy hCopy _ hq (List.prefix_append _ _), hArrive]
        rfl
      · rw [hSpec.sync hSync hKind r hq, hArrive]
        rfl
    rw [isDir_eq_false_of_file hPut] at hStill
    cases hStill
  · intro hFree
    have hSync : job.mode = .sync → t.isDir (sourceDir ++ job.source.path) = true →
        ∀ r, gitName ∉ job.dest.path ++ r → _ := fun hMode hDir r hr =>
      reflect_sync hPlaces hDry hRun (by simp [hMode]) hDir (hFree (.inr ⟨hMode, hDir⟩)) hr
    refine ⟨fun q _ hq => reflect_outside hPlaces hDry hRun fun hPre =>
        hq ((List.prefix_append_right_inj destDir).mp hPre), fun hMode q hq _ => ?_, hSync,
      fun hMode hDir hIncl hExcl r hr => ?_⟩
    · obtain ⟨mid, hMid, -, -, hEnd⟩ := reflect_tree hPlaces hDry hRun
      rw [hEnd, if_neg (by simp [hMode])]
      exact loop_file hPlaces hMid (hFree (.inl hMode)) hq
    · have hAll : ∀ rel, job.selects rel = true := by simp [Job.selects, hIncl, hExcl]
      rw [hSync hMode hDir r hr, hAll, if_pos rfl, Option.or_none]
      cases hThere : t.file (sourceDir ++ job.source.path ++ r) with
      | some b =>
        have hGit : gitName ∉ r.dropLast := fun h =>
          hr (List.mem_append_right _ (List.mem_of_mem_dropLast h))
        have hAt : sourceAt job sourceDir destDir t (job.dest.path ++ r) = some _ :=
          (sourceAt_dir hDir).mpr ⟨rfl, hAll r, hGit, isFile_iff.mpr ⟨b, file_eq_some.mp hThere⟩⟩
        rw [arriving, hAt, Option.bind_some, hThere]
      | none =>
        unfold arriving
        cases hAt : sourceAt job sourceDir destDir t (job.dest.path ++ r) with
        | none => rfl
        | some ap =>
          obtain ⟨rfl, -⟩ := (sourceAt_dir hDir).mp hAt
          exact hThere

end Clones

/-! ## A file that meets a directory -/

/-- A sync of a whole repository into the directory `d` of another one. -/
def clashPayload : PathSyncJobCreate where
  source := ⟨some .github, ['h'], ['o'], ['r'], [], []⟩
  dest := ⟨some .github, ['h'], ['o'], ['s'], [], ['d']⟩
  mode := some .sync
  includes := []
  excludes := []
  message := []
  dryRun := false
  allowRepoRoot := false

def clashJob : Job where
  source := ⟨.github, ['h'], ['o'], ['r'], [], []⟩
  dest := ⟨.github, ['h'], ['o'], ['s'], [], [letter 'd']⟩
  mode := .sync
  includes := []
  excludes := []
  message := []
  dryRun := false

/-- The source has the file `x`, the destination the file `d/x/y`. -/
def clashTree : WorkTree :=
  (FileTree.empty.withFile sourceDir (letter 'x') [1]).withFile
    (destDir ++ [letter 'd', letter 'x']) (letter 'y') [2]

theorem clash_run : ∃ pl st,
    places treeOps clashJob sourceDir destDir clashTree = .ok pl ∧
      reflect treeOps 10 clashJob pl clashTree = .ok st := ⟨_, _, rfl, rfl⟩

theorem reflected_iff_clash : ∃ pl st,
    places treeOps clashJob sourceDir destDir clashTree = .ok pl ∧
      reflect treeOps 10 clashJob pl clashTree = .ok st ∧
      (Reflected clashJob clashTree st.fs ↔
        (clashJob.mode = .copy ∨ clashJob.mode = .sync ∧
            clashTree.isDir (sourceDir ++ clashJob.source.path) = true →
          ∀ q, gitName ∉ q → ¬Clash clashJob sourceDir destDir clashTree q)) := by
  obtain ⟨pl, st, hPlaces, hRun⟩ := clash_run
  exact ⟨pl, st, hPlaces, hRun, reflected_iff hPlaces rfl hRun⟩

/-- The file goes to `d/x/x`, and from there to nothing. -/
theorem sync_loses_file : ∃ pl st,
    createJob id clashPayload = .ok clashJob ∧
      clashJob.source.sameRepo id clashJob.dest = false ∧
      places treeOps clashJob sourceDir destDir clashTree = .ok pl ∧
      reflect treeOps 10 clashJob pl clashTree = .ok st ∧
      ¬Reflected clashJob clashTree st.fs := by
  refine ⟨_, _, rfl, by decide, rfl, rfl, fun hSpec => ?_⟩
  have hFile := hSpec.mirror rfl (by decide) rfl rfl [letter 'x'] (by decide)
  exact absurd hFile (by decide)

end OpenSpoke.GitPathSync
