import OpenSpoke.GitPathSync.Result

/-!
# Jobs on one work tree

If source and destination are the same repository, the loop reads and writes the
same tree. What it copies is what was there before the job, as long as it does
not read a file that it has overwritten, and a move does not delete its result.
-/

namespace OpenSpoke.GitPathSync

open FileTree
open Python (Text)

/-! ## The order of the loop -/

theorem text_injective {p q : Path} (hp : p ≠ []) (hq : q ≠ []) (h : p.text = q.text) : p = q := by
  have hSplit : ∀ {p : Path}, p ≠ [] → p.text.splitOn '/' = p.map Subtype.val := by
    intro p hp
    refine List.splitOn_intercalate '/' (fun seg hSeg => ?_) (mt List.map_eq_nil_iff.mp hp)
    obtain ⟨n, -, rfl⟩ := List.mem_map.mp hSeg
    exact n.2
  have hMap : p.map Subtype.val = q.map Subtype.val := by rw [← hSplit hp, ← hSplit hq, h]
  exact Subtype.val_injective.list_map hMap

theorem sortFiles_strict {files : List (Path × Path)} (hNodup : (files.map Prod.fst).Nodup)
    (hne : ∀ e ∈ files, e.1 ≠ []) :
    (sortFiles files).Pairwise fun e f => Python.before e.1.text f.1.text = true := by
  have hTotal : Std.Total fun e f : Path × Path => Python.before f.1.text e.1.text = false :=
    ⟨fun e f => Python.not_before_total e.1.text f.1.text⟩
  have hTrans : IsTrans (Path × Path) fun e f => Python.before f.1.text e.1.text = false :=
    ⟨fun e f g => Python.not_before_trans⟩
  have hSorted : (sortFiles files).Pairwise _ := List.pairwise_insertionSort _ files
  have hDistinct := List.pairwise_map.mp
    (((sortFiles_perm files).map Prod.fst).nodup_iff.mpr hNodup)
  refine (hSorted.and hDistinct).imp_of_mem fun {e f} he hf hBoth => ?_
  have hText : e.1.text ≠ f.1.text := fun hEq =>
    hBoth.2 (text_injective (hne e (mem_sortFiles.mp he)) (hne f (mem_sortFiles.mp hf)) hEq)
  exact (Python.before_total hText).resolve_right (by simp [hBoth.1])

section Snapshot

variable (job : Job) (dir : Path) (t : WorkTree)

/-- Every picked file has its place and its old bytes in the new tree. -/
def Snapshot (u : WorkTree) : Prop :=
  ∀ q ap, sourceAt job dir dir t q = some ap → u.file (dir ++ q) = t.file ap

/-- The path that the loop sorts a place by. -/
def sortKey (q : Path) : Text := Path.text (q.drop job.dest.path.length)

/-- No place is a directory, no place is read after it was written, and none is
below the path that a move deletes. -/
structure Orderly : Prop where
  free : ∀ q, ¬Clash job dir dir t q
  order : ∀ q p ap, sourceAt job dir dir t q = some ap →
    sourceAt job dir dir t p = some (dir ++ q) → Python.before (sortKey job q) (sortKey job p) = true →
    t.file ap = t.file (dir ++ q)
  outside : job.mode = .move → ∀ q, (sourceAt job dir dir t q).isSome = true →
    ¬job.source.path <+: q

end Snapshot

section Run

variable {maxFiles : Nat} {job : Job} {dir srcDir dstDir : Path} {pl : Places} {t mid u : WorkTree}

/-- The loop on one tree, if every file has its place. -/
theorem assign_snapshot_iff (hPlaces : places treeOps job dir dir t = .ok pl)
    (hFree : ∀ q, ¬Clash job dir dir t q)
    (hMid : mid.file = assign t.file (landings t pl (sortFiles (pl.picked job)))) :
    Snapshot job dir t mid ↔
      ∀ q p ap, sourceAt job dir dir t q = some ap → sourceAt job dir dir t p = some (dir ++ q) →
        Python.before (sortKey job q) (sortKey job p) = true → t.file ap = t.file (dir ++ q) := by
  obtain ⟨hMem, hNodup⟩ := landings_sortFiles hPlaces
  have hSep := picked_separate hPlaces
  have hSnapshot : Snapshot job dir t mid ↔
      ∀ e ∈ landings t pl (sortFiles (pl.picked job)),
        assign t.file (landings t pl (sortFiles (pl.picked job))) e.2 = t.file e.1 := by
    rw [← hMid]
    constructor
    · rintro hAll ⟨ap, target⟩ he
      obtain ⟨q, hAt, rfl⟩ := (mem_landings_iff hPlaces hFree).mp ((hMem _).mp he)
      exact hAll q ap hAt
    · intro hAll q ap hAt
      exact hAll _ ((hMem _).mpr ((mem_landings_iff hPlaces hFree).mpr ⟨q, hAt, rfl⟩))
  rw [hSnapshot, assign_simultaneous_iff t.file hNodup, landings, List.pairwise_map,
    pairwise_iff_of_ordered (fun e f => Python.before_asymm)
      (sortFiles_strict hSep.2 fun e he => (hSep.1 e he).1)]
  simp only [mem_sortFiles]
  obtain ⟨hBase, ⟨hFile, -⟩ | ⟨hDir, -, hDst, -⟩⟩ := places_tree hPlaces
  · -- a single file comes before no other
    rw [hBase] at hFile
    constructor
    · intro _ q p ap hq hp hBefore
      have hOne : ∀ {q ap}, sourceAt job dir dir t q = some ap → q = filePlace job dir dir t := by
        intro q ap hAt
        simp only [sourceAt, hFile, if_true] at hAt
        split at hAt
        · next hPicked => exact hPicked.1
        · cases hAt
      rw [hOne hq, hOne hp] at hBefore
      simp [Python.before_irrefl] at hBefore
    · intro _ e he f hf hBefore
      rw [((mem_picked_file hPlaces hFile).mp he).1, ((mem_picked_file hPlaces hFile).mp hf).1]
        at hBefore
      simp [Python.before_irrefl] at hBefore
  · rw [hBase] at hDir
    have hKey : ∀ r, sortKey job (job.dest.path ++ r) = r.text := by simp [sortKey]
    have hLand : ∀ {rel ap}, (rel, ap) ∈ pl.picked job →
        t.landing ap (pl.dstBase ++ rel) = dir ++ (job.dest.path ++ rel) := by
      intro rel ap he
      rw [hDst, List.append_assoc]
      have hAt := (mem_picked_dir hPlaces hDir).mp he
      exact landing_free (isDir_of_not_clash (hFree _) ((sourceAt_dir hDir).mpr hAt))
    constructor
    · intro hAll q p ap hq hp hBefore
      obtain ⟨r, rfl⟩ := (sourceAt_below hq).1
      obtain ⟨s, rfl⟩ := (sourceAt_below hp).1
      rw [hKey, hKey] at hBefore
      have he := (mem_picked_dir hPlaces hDir).mpr ((sourceAt_dir hDir).mp hq)
      have hf := (mem_picked_dir hPlaces hDir).mpr ((sourceAt_dir hDir).mp hp)
      exact hAll _ he _ hf hBefore (hLand he)
    · rintro hAll ⟨r, ap⟩ he ⟨s, bp⟩ hf hBefore hEq
      obtain rfl : dir ++ (job.dest.path ++ r) = bp := (hLand he).symm.trans hEq
      exact hAll _ _ _ ((sourceAt_dir hDir).mpr ((mem_picked_dir hPlaces hDir).mp he))
        ((sourceAt_dir hDir).mpr ((mem_picked_dir hPlaces hDir).mp hf)) (by rwa [hKey, hKey])

/-- The reflection, without the deletion of the source. -/
theorem reflect_snapshot_iff {st : Progress WorkTree}
    (hPlaces : places treeOps job dir dir t = .ok pl) (hDry : job.dryRun = false)
    (hRun : reflect treeOps maxFiles job pl t = .ok st) :
    Snapshot job dir t st.fs ↔
      (∀ q, ¬Clash job dir dir t q) ∧
      ∀ q p ap, sourceAt job dir dir t q = some ap → sourceAt job dir dir t p = some (dir ++ q) →
        Python.before (sortKey job q) (sortKey job p) = true → t.file ap = t.file (dir ++ q) := by
  obtain ⟨mid, hMid, hDirs, hSame, hEnd⟩ := reflect_tree hPlaces hDry hRun
  have hKept : Snapshot job dir t st.fs ↔ Snapshot job dir t mid := by
    refine forall₃_congr fun q ap hAt => ?_
    rw [hEnd, if_neg fun h => picked_not_surplus hPlaces hAt h.2]
  constructor
  · intro hSnap
    have hFree : ∀ q, ¬Clash job dir dir t q := by
      rintro q ⟨hSome, hDir⟩
      obtain ⟨ap, hAt⟩ := Option.isSome_iff_exists.mp hSome
      obtain ⟨b, hb⟩ := isFile_iff.mp (sourceAt_file hAt)
      have hPut : st.fs.file (dir ++ q) = some b := (hSnap q ap hAt).trans (file_eq_some.mpr hb)
      have hStill := hDirs _ hDir
      rw [← hSame, isDir_eq_false_of_file hPut] at hStill
      cases hStill
    exact ⟨hFree, (assign_snapshot_iff hPlaces hFree hMid).mp (hKept.mp hSnap)⟩
  · rintro ⟨hFree, hOrder⟩
    exact hKept.mpr ((assign_snapshot_iff hPlaces hFree hMid).mpr hOrder)

theorem removeSource_file {s u : WorkTree} (hPlaces : places treeOps job srcDir dstDir t = .ok pl)
    (hne : pl.srcBase ≠ []) (hDirs : ∀ q, t.isDir q = true → s.isDir q = true)
    (hRemove : removeSource treeOps pl s = .ok u) (q : Path) :
    u.file q = if pl.srcBase <+: q then none else s.file q := by
  unfold removeSource at hRemove
  obtain ⟨-, ⟨-, hKind, -⟩ | ⟨hDir, hKind, -⟩⟩ := places_tree hPlaces <;> rw [hKind] at hRemove
  · have hRemove := raising_ok hRemove
    have hNode := remove_some hRemove
    have hGone : u.node pl.srcBase = none := by rw [hNode, if_pos rfl]
    by_cases hPre : pl.srcBase <+: q
    · rw [if_pos hPre]
      by_contra hFile
      obtain ⟨b, hb⟩ := Option.ne_none_iff_exists'.mp hFile
      rw [file_eq_some] at hb
      by_cases hEq : pl.srcBase = q
      · rw [← hEq, hGone] at hb
        cases hb
      · rw [u.dir_of_prefix (by simp [hb]) hPre hEq] at hGone
        cases hGone
    · rw [if_neg hPre]
      have hq : q ≠ pl.srcBase := by
        rintro rfl
        exact hPre List.prefix_rfl
      simp [FileTree.file, hNode, hq]
  · cases hRemove
    have hNode := rmtree_node s pl.srcBase q (hDirs _ hDir) hne
    have hOps : (treeOps.rmtree s pl.srcBase).node q =
        if pl.srcBase <+: q then none else s.node q := hNode
    by_cases hPre : pl.srcBase <+: q <;> simp [FileTree.file, hOps, hPre]

/-- Jobs on one tree have snapshot semantics exactly if they are orderly. -/
theorem snapshot_iff (hPlaces : places treeOps job sourceDir sourceDir t = .ok pl)
    (hDry : job.dryRun = false) (hRun : fileWork treeOps maxFiles job pl t = .ok u) :
    Snapshot job sourceDir t u ↔ Orderly job sourceDir t := by
  unfold fileWork at hRun
  split at hRun
  · cases hRun
  · next st hReflect =>
    have hLoop := reflect_snapshot_iff hPlaces hDry hReflect
    obtain ⟨mid, -, hDirs, hSame, -⟩ := reflect_tree hPlaces hDry hReflect
    have hBase := (places_tree hPlaces).1
    by_cases hMove : job.mode = .move
    · rw [if_pos ⟨hDry, hMove⟩] at hRun
      have hRemove : removeSource treeOps pl st.fs = .ok u := by
        split at hRun
        · cases hRun
        · next hOk =>
          cases hRun
          exact hOk
      have hFile := removeSource_file hPlaces (by simp [hBase, sourceDir])
        (fun q hq => (hSame q).trans (hDirs q hq)) hRemove
      simp only [hBase] at hFile
      have hBelow : ∀ q, sourceDir ++ job.source.path <+: sourceDir ++ q ↔
          job.source.path <+: q := fun q => List.prefix_append_right_inj _
      constructor
      · intro hSnap
        have hOut : ∀ q, (sourceAt job sourceDir sourceDir t q).isSome = true →
            ¬job.source.path <+: q := by
          intro q hSome hPre
          obtain ⟨ap, hAt⟩ := Option.isSome_iff_exists.mp hSome
          have hPut := hSnap q ap hAt
          rw [hFile, if_pos ((hBelow q).mpr hPre)] at hPut
          obtain ⟨b, hb⟩ := isFile_iff.mp (sourceAt_file hAt)
          rw [file_eq_some.mpr hb] at hPut
          cases hPut
        obtain ⟨hFree, hOrder⟩ := hLoop.mp fun q ap hAt => by
          rw [← hSnap q ap hAt, hFile, if_neg fun h => hOut q (by simp [hAt]) ((hBelow q).mp h)]
        exact ⟨hFree, hOrder, fun _ => hOut⟩
      · intro hOk q ap hAt
        rw [hFile, if_neg fun h => hOk.outside hMove q (by simp [hAt]) ((hBelow q).mp h)]
        exact hLoop.mpr ⟨hOk.free, hOk.order⟩ q ap hAt
    · rw [if_neg fun h => hMove h.2] at hRun
      cases hRun
      rw [hLoop]
      constructor
      · rintro ⟨hFree, hOrder⟩
        exact ⟨hFree, hOrder, fun h => absurd h hMove⟩
      · rintro ⟨hFree, hOrder, -⟩
        exact ⟨hFree, hOrder⟩

end Run

/-! ## A file that is read after it was overwritten -/

/-- A copy of a whole repository into its own directory `z`. -/
def overlapPayload : PathSyncJobCreate where
  source := ⟨some .github, ['h'], ['o'], ['r'], [], []⟩
  dest := ⟨some .github, ['h'], ['o'], ['r'], [], ['z']⟩
  mode := some .copy
  includes := []
  excludes := []
  message := []
  dryRun := false
  allowRepoRoot := false

def overlapJob : Job where
  source := ⟨.github, ['h'], ['o'], ['r'], [], []⟩
  dest := ⟨.github, ['h'], ['o'], ['r'], [], [letter 'z']⟩
  mode := .copy
  includes := []
  excludes := []
  message := []
  dryRun := false

/-- The files `b` and `z/b`. -/
def overlapTree : WorkTree :=
  (FileTree.empty.withFile sourceDir (letter 'b') [1]).withFile
    (sourceDir ++ [letter 'z']) (letter 'b') [2]

theorem overlap_run : ∃ pl u, places treeOps overlapJob sourceDir sourceDir overlapTree = .ok pl ∧
    fileWork treeOps 10 overlapJob pl overlapTree = .ok u := ⟨_, _, rfl, rfl⟩

theorem snapshot_iff_overlap : ∃ pl u,
    places treeOps overlapJob sourceDir sourceDir overlapTree = .ok pl ∧
      fileWork treeOps 10 overlapJob pl overlapTree = .ok u ∧
      (Snapshot overlapJob sourceDir overlapTree u ↔
        Orderly overlapJob sourceDir overlapTree) := by
  obtain ⟨pl, u, hPlaces, hRun⟩ := overlap_run
  exact ⟨pl, u, hPlaces, hRun, snapshot_iff hPlaces rfl hRun⟩

/-- `z/z/b` gets the bytes of `b`. -/
theorem copy_reads_overwritten : ∃ pl u,
    createJob id overlapPayload = .ok overlapJob ∧
      overlapJob.source.sameRepo id overlapJob.dest = true ∧
      places treeOps overlapJob sourceDir sourceDir overlapTree = .ok pl ∧
      fileWork treeOps 10 overlapJob pl overlapTree = .ok u ∧
      ¬Snapshot overlapJob sourceDir overlapTree u := by
  refine ⟨_, _, rfl, by decide, rfl, rfl, fun hSnap => ?_⟩
  have hFile := hSnap [letter 'z', letter 'z', letter 'b'] (sourceDir ++ [letter 'z', letter 'b'])
    (by decide)
  exact absurd hFile (by decide)

end OpenSpoke.GitPathSync
