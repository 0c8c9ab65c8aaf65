import OpenSpoke.GitPathSync.Worker

/-!
# The reflection on trees of files

On clones of directories and regular files the reflection loop is a sequence of
assignments to the file map, one for each picked file, and the deletions after
it only take files away.
-/

namespace OpenSpoke.GitPathSync

open FileTree

/-- A file is copied: an assignment, and maybe new directories above the target. -/
structure Copied (t : WorkTree) (ap target : Path) (u : WorkTree) : Prop where
  read : (t.file ap).isSome = true
  file : u.file = Function.update t.file (t.landing ap target) (t.file ap)
  dirs : ∀ q, t.isDir q = true → u.isDir q = true
  fresh : ∀ q, u.isDir q = true → t.isDir q = true ∨ q <+: target.dropLast

theorem Copied.same {t : WorkTree} {ap target : Path} (h : sameBytes treeOps t ap target = true) :
    Copied t ap target t := by
  unfold sameBytes at h
  split at h
  · next x y hx hy =>
    have hx : t.file ap = some x := hx
    have hy : t.file target = some y := hy
    have hLand : t.landing ap target = target := by simp [landing, isDir_eq_false_of_file hy]
    refine ⟨by simp [hx], ?_, fun _ => id, fun _ => .inl⟩
    rw [hLand, Function.update_eq_self_iff.mpr]
    rw [hx, hy, of_decide_eq_true h]
  · cases h

theorem Copied.copy {t u v : WorkTree} {ap target : Path} (hne : target ≠ [])
    (hDirs : t.makedirs target.dropLast = some u) (hCopy : u.copy2 ap target = some v) :
    Copied t ap target v := by
  obtain ⟨hNode, -⟩ := makedirs_some hDirs
  have hFile : u.file = t.file := funext (makedirs_file hDirs)
  obtain ⟨b, hb, -, hFree, hPut⟩ := copy2_some hCopy
  have hAbove : ¬target <+: target.dropLast := by
    intro hPre
    have := hPre.length_le
    have := List.length_pos_of_ne_nil hne
    rw [List.length_dropLast] at *
    omega
  have hLand : u.landing ap target = t.landing ap target := by
    have hSame : u.isDir target = t.isDir target := by
      unfold isDir
      rw [hNode target, if_neg hAbove]
    simp only [landing, hSame]
  have hIsDir : ∀ q, u.isDir q = true ↔ q <+: target.dropLast ∨ t.isDir q = true := by
    intro q
    by_cases hq : q <+: target.dropLast <;> simp [hNode q, hq]
  have hKept : ∀ q, v.isDir q = true ↔ u.isDir q = true := by
    intro q
    by_cases hq : q = u.landing ap target
    · subst hq
      simp [isDir, hPut, Function.update_self] at hFree ⊢
      exact hFree
    · simp only [isDir, hPut, Function.update_of_ne hq]
  refine ⟨by simp [← hFile, hb], ?_, fun q hq => ?_, fun q hq => ?_⟩
  · funext q
    rw [← hFile, ← hLand]
    by_cases hq : q = u.landing ap target
    · subst hq
      rw [Function.update_self, hb, file_eq_some, hPut, Function.update_self]
    · rw [Function.update_of_ne hq]
      simp only [FileTree.file, hPut, Function.update_of_ne hq]
  · exact (hKept q).mpr ((hIsDir q).mpr (.inr hq))
  · exact ((hIsDir q).mp ((hKept q).mp hq)).symm

section Loop

variable {job : Job} {pl : Places} {st st' : Progress WorkTree}

theorem reflectFile_copied (hDry : job.dryRun = false) {rel ap : Path} (hRel : rel ≠ [])
    (h : reflectFile treeOps job pl st rel ap = .ok st') :
    Copied st.fs ap (pl.dstBase ++ rel) st'.fs := by
  unfold reflectFile at h
  dsimp only at h
  split at h
  · next hSame =>
    cases h
    exact .same (Bool.and_eq_true_iff.mp hSame).2
  · rw [hDry] at h
    simp only [Bool.false_eq_true, if_false] at h
    split at h
    · cases h
    · next u hDirs =>
      split at h
      · cases h
      · next v hCopy =>
        cases h
        exact .copy (by simp [hRel]) (raising_ok hDirs) (raising_ok hCopy)

/-- No file of the list lies below another. -/
def Separate (files : List (Path × Path)) : Prop :=
  ∀ e ∈ files, e.1 ≠ [] ∧ ∀ f ∈ files, e.1 <+: f.1 → e.1 = f.1

/-- The assignments that the loop makes. -/
def landings (t : WorkTree) (pl : Places) (files : List (Path × Path)) : List (Path × Path) :=
  files.map fun e => (e.2, t.landing e.2 (pl.dstBase ++ e.1))

/-- The loop is its assignments, and takes no directory away. -/
theorem reflectFiles_assign (hDry : job.dryRun = false) {files : List (Path × Path)}
    (hSep : Separate files) (h : reflectFiles treeOps job pl st files = .ok st') :
    st'.fs.file = assign st.fs.file (landings st.fs pl files) ∧
      ∀ q, st.fs.isDir q = true → st'.fs.isDir q = true := by
  induction files generalizing st with
  | nil =>
    cases h
    exact ⟨rfl, fun _ => id⟩
  | cons e files ih =>
    obtain ⟨rel, ap⟩ := e
    simp only [reflectFiles] at h
    split at h
    · cases h
    · next mid hFile =>
      have hCopied := reflectFile_copied hDry (hSep _ List.mem_cons_self).1 hFile
      have hRest : Separate files := fun e he =>
        ⟨(hSep e (List.mem_cons_of_mem _ he)).1,
          fun f hf => (hSep e (List.mem_cons_of_mem _ he)).2 f (List.mem_cons_of_mem _ hf)⟩
      obtain ⟨hAssign, hDirs⟩ := ih hRest h
      refine ⟨?_, fun q hq => hDirs q (hCopied.dirs q hq)⟩
      -- the new directories are above a target, and no target is above a target
      have hLand : landings mid.fs pl files = landings st.fs pl files := by
        refine List.map_congr_left fun e he => ?_
        have hDir : mid.fs.isDir (pl.dstBase ++ e.1) = st.fs.isDir (pl.dstBase ++ e.1) := by
          rw [Bool.eq_iff_iff]
          refine ⟨fun hDir => (hCopied.fresh _ hDir).resolve_right fun hPre => ?_, hCopied.dirs _⟩
          have hLong : pl.dstBase ++ e.1 <+: pl.dstBase ++ rel := hPre.trans (List.dropLast_prefix _)
          rw [List.prefix_append_right_inj] at hLong
          have hEq := (hSep e (List.mem_cons_of_mem _ he)).2 _ List.mem_cons_self hLong
          have hShort := hPre.length_le
          have hPos : 0 < rel.length := List.length_pos_of_ne_nil (hSep _ List.mem_cons_self).1
          rw [hEq, List.length_dropLast] at hShort
          simp only [List.length_append] at hShort
          omega
        simp only [landing, hDir]
      rw [hAssign, hLand, hCopied.file]
      rfl

/-- The destination has the file and the source has not, as far as the filters go. -/
def isSurplus (job : Job) (picked : List (Path × Path)) (rel : Path) : Bool :=
  !decide (rel ∈ picked.map Prod.fst) && job.selects rel

theorem removeFile_tree (hDry : job.dryRun = false) (pl : Places) (picked : List (Path × Path))
    (st : Progress WorkTree) (e : Path × Path) (q : Path) :
    (removeFile treeOps job pl picked st e).fs.file q =
        (if isSurplus job picked e.1 ∧ e.2 = q then none else st.fs.file q) ∧
      (removeFile treeOps job pl picked st e).fs.isDir q = st.fs.isDir q := by
  unfold removeFile isSurplus
  by_cases hPicked : e.1 ∈ picked.map Prod.fst
  · simp [hPicked]
  · by_cases hSelects : job.selects e.1 = true
    · simp only [hPicked, hSelects, hDry, if_false, if_true, Bool.false_eq_true]
      simp only [decide_false, Bool.not_false, Bool.true_and, true_and]
      cases hRemove : st.fs.remove e.2 with
      | none =>
        have hNone : st.fs.file e.2 = none := by
          by_contra hFile
          simp [FileTree.remove, isFile, Option.isSome_iff_ne_none, hFile] at hRemove
        have hOps : treeOps.remove st.fs e.2 = .error "OSError" := by
          simp [treeOps, hRemove, raising]
        simp only [hOps]
        by_cases hq : e.2 = q
        · subst hq
          simp [hNone]
        · simp [hq]
      | some u =>
        have hOps : treeOps.remove st.fs e.2 = .ok u := by simp [treeOps, hRemove, raising]
        have hNode := remove_some hRemove q
        have hIsFile : st.fs.isFile e.2 = true := by
          unfold FileTree.remove at hRemove
          split at hRemove
          · assumption
          · cases hRemove
        simp only [hOps]
        by_cases hq : e.2 = q
        · subst hq
          obtain ⟨b, hb⟩ := isFile_iff.mp hIsFile
          simp [FileTree.file, isDir, hNode, hb]
        · simp [FileTree.file, isDir, hNode, hq, Ne.symm hq]
    · simp [hPicked, hSelects]

theorem foldl_removeFile (hDry : job.dryRun = false) (pl : Places)
    (picked files : List (Path × Path)) (st : Progress WorkTree) (q : Path) :
    (files.foldl (removeFile treeOps job pl picked) st).fs.file q =
        (if ∃ e ∈ files, isSurplus job picked e.1 = true ∧ e.2 = q then none else st.fs.file q) ∧
      (files.foldl (removeFile treeOps job pl picked) st).fs.isDir q = st.fs.isDir q := by
  induction files generalizing st with
  | nil => simp
  | cons e files ih =>
    obtain ⟨hFile, hDir⟩ := removeFile_tree hDry pl picked st e q
    rw [List.foldl_cons, (ih _).1, (ih _).2, hFile, hDir]
    refine ⟨?_, rfl⟩
    by_cases hLater : ∃ f ∈ files, isSurplus job picked f.1 = true ∧ f.2 = q
    · have hAny : ∃ f ∈ e :: files, isSurplus job picked f.1 = true ∧ f.2 = q := by
        obtain ⟨f, hf, hSurplus⟩ := hLater
        exact ⟨f, List.mem_cons_of_mem _ hf, hSurplus⟩
      rw [if_pos hLater, if_pos hAny]
    · have hIff : (∃ f ∈ e :: files, isSurplus job picked f.1 = true ∧ f.2 = q) ↔
          isSurplus job picked e.1 = true ∧ e.2 = q := by
        simp only [List.mem_cons, exists_eq_or_imp]
        exact or_iff_left hLater
      rw [if_neg hLater]
      simp only [hIff]

end Loop

theorem sortFiles_perm (files : List (Path × Path)) : (sortFiles files).Perm files :=
  List.perm_insertionSort _ files

theorem mem_sortFiles {files : List (Path × Path)} {e : Path × Path} :
    e ∈ sortFiles files ↔ e ∈ files := (sortFiles_perm files).mem_iff

theorem mem_walkFiles {t : WorkTree} {base rel ap : Path} :
    (rel, ap) ∈ walkFiles treeOps t base ↔
      t.isFile base = true ∧ rel = base.basename ∧ ap = base ∨
      t.isDir base = true ∧ t.isFile (base ++ rel) = true ∧ gitName ∉ rel.dropLast ∧
        ap = base ++ rel := by
  unfold walkFiles
  by_cases hFile : t.isFile base = true
  · have hDir : t.isDir base = false := by
      obtain ⟨b, hb⟩ := isFile_iff.mp hFile
      simp [isDir, hb]
    simp [treeOps, hFile, hDir]
  · by_cases hDir : t.isDir base = true
    · simp only [treeOps, hFile, hDir, Bool.false_eq_true, if_false, if_true, List.mem_map, mem_walk,
        Prod.mk.injEq, false_and, false_or, true_and, decide_eq_false_iff_not]
      constructor
      · rintro ⟨r, ⟨hr, hGit⟩, rfl, rfl⟩
        exact ⟨hr, fun hMem => hGit _ hMem rfl, rfl⟩
      · rintro ⟨hr, hGit, rfl⟩
        exact ⟨rel, ⟨hr, fun x hx hEq => hGit (hEq ▸ hx)⟩, rfl, rfl⟩
    · simp [treeOps, hFile, hDir]

theorem file_of_dir {t : WorkTree} {p : Path} (h : t.isDir p = true) : t.isFile p = false := by
  rw [isDir_iff] at h
  simp [isFile, file_eq_none_of_dir h]

theorem mem_walkFiles_at (t : WorkTree) (base rel : Path) {r : Path} (hGit : gitName ∉ r) :
    (rel, base ++ r) ∈ walkFiles treeOps t base ↔
      t.isFile (base ++ r) = true ∧ rel = if r = [] then base.basename else r := by
  rw [mem_walkFiles]
  constructor
  · rintro (⟨hFile, rfl, hEq⟩ | ⟨hDir, hFile, -, hEq⟩)
    · obtain rfl : r = [] := by simpa using hEq
      exact ⟨by rwa [List.append_nil], rfl⟩
    · obtain rfl := List.append_cancel_left hEq
      refine ⟨hFile, (if_neg ?_).symm⟩
      rintro rfl
      rw [List.append_nil, file_of_dir hDir] at hFile
      cases hFile
  · rintro ⟨hFile, rfl⟩
    by_cases hr : r = []
    · subst hr
      rw [List.append_nil] at hFile ⊢
      exact .inl ⟨hFile, rfl, rfl⟩
    · obtain ⟨b, hb⟩ := isFile_iff.mp hFile
      have hDir := t.dir_of_prefix (p := base) (q := base ++ r) (by simp [hb])
        (List.prefix_append _ _) (by simp [hr])
      rw [if_neg hr]
      exact .inr ⟨isDir_iff.mpr hDir, hFile, fun h => hGit (List.mem_of_mem_dropLast h), rfl⟩

theorem places_tree {job : Job} {srcDir dstDir : Path} {t : WorkTree} {pl : Places}
    (h : places treeOps job srcDir dstDir t = .ok pl) :
    pl.srcBase = srcDir ++ job.source.path ∧
      ((t.isFile pl.srcBase = true ∧ pl.srcIsFile = true ∧
          ∃ place, place = (if job.dest.path = [] then pl.srcBase.basename else job.dest.path) ∧
            pl.dstBase = dstDir ++ place.dropLast ∧ pl.srcFiles = [(place.basename, pl.srcBase)]) ∨
        (t.isDir pl.srcBase = true ∧ pl.srcIsFile = false ∧ pl.dstBase = dstDir ++ job.dest.path ∧
          pl.srcFiles = walkFiles treeOps t pl.srcBase)) := by
  obtain ⟨hBase, hExists, hFile | ⟨hNoFile, hKind, hDst, hFiles⟩⟩ := places_ok h
  · exact ⟨hBase, .inl hFile⟩
  · refine ⟨hBase, .inr ⟨?_, hKind, hDst, hFiles⟩⟩
    have hSome : (t.node pl.srcBase).isSome = true := hExists
    obtain ⟨n, hn⟩ := Option.isSome_iff_exists.mp hSome
    cases n with
    | dir => exact isDir_iff.mpr hn
    | file b =>
      have hFile : t.isFile pl.srcBase = true := isFile_iff.mpr ⟨b, hn⟩
      rw [show treeOps.isFile t pl.srcBase = t.isFile pl.srcBase from rfl, hFile] at hNoFile
      cases hNoFile

theorem nodup_walkFiles (t : WorkTree) (base : Path) :
    ((walkFiles treeOps t base).map Prod.fst).Nodup := by
  unfold walkFiles
  split
  · simp
  · split
    · rw [List.map_map]
      exact (List.map_id _).symm ▸ nodup_walk t base _
    · simp

theorem basename_ne_nil {p : Path} (h : p ≠ []) : p.basename ≠ [] := by
  unfold Path.basename
  rw [List.getLast?_eq_getLast_of_ne_nil h]
  simp

section Run

variable {maxFiles : Nat} {job : Job} {srcDir dstDir : Path} {pl : Places} {t : WorkTree}
  {st : Progress WorkTree}

theorem picked_separate (hPlaces : places treeOps job srcDir dstDir t = .ok pl) :
    Separate (pl.picked job) ∧ ((pl.picked job).map Prod.fst).Nodup := by
  obtain ⟨-, ⟨hFile, -, place, hPlace, -, hFiles⟩ | ⟨hDir, -, -, hFiles⟩⟩ := places_tree hPlaces
  · have hne : place ≠ [] := by
      rw [hPlace]
      split
      · refine basename_ne_nil ?_
        rintro hRoot
        obtain ⟨b, hb⟩ := isFile_iff.mp hFile
        rw [hRoot, t.root] at hb
        cases hb
      · assumption
    have hOne : ∀ e ∈ pl.picked job, e = (place.basename, pl.srcBase) := by
      intro e he
      simpa [hFiles] using List.mem_of_mem_filter he
    refine ⟨fun e he => ⟨?_, fun f hf _ => by rw [hOne e he, hOne f hf]⟩, ?_⟩
    · rw [hOne e he]
      exact basename_ne_nil hne
    · refine List.Nodup.sublist (List.filter_sublist.map _) ?_
      simp [hFiles]
  · have hNoFile := file_of_dir hDir
    have hMem : ∀ e ∈ pl.picked job, t.isFile (pl.srcBase ++ e.1) = true := by
      intro e he
      have he := List.mem_of_mem_filter he
      rw [hFiles] at he
      obtain ⟨hFile, -⟩ | ⟨-, hFile, -⟩ := mem_walkFiles.mp he
      · rw [hNoFile] at hFile
        cases hFile
      · exact hFile
    refine ⟨fun e he => ⟨fun hNil => ?_, fun f hf hPre => ?_⟩, ?_⟩
    · have hFile := hMem e he
      rw [hNil, List.append_nil, hNoFile] at hFile
      cases hFile
    · obtain ⟨b, hb⟩ := isFile_iff.mp (hMem e he)
      obtain ⟨c, hc⟩ := isFile_iff.mp (hMem f hf)
      have hEq := t.eq_of_file_prefix (file_eq_some.mpr hb) (q := pl.srcBase ++ f.1) (by simp [hc])
        ((List.prefix_append_right_inj _).mpr hPre)
      exact List.append_cancel_left hEq
    · rw [Places.picked, hFiles]
      exact (nodup_walkFiles t pl.srcBase).sublist (List.filter_sublist.map _)

theorem landings_nodup {files : List (Path × Path)} (hSep : Separate files)
    (hNodup : (files.map Prod.fst).Nodup) : ((landings t pl files).map Prod.snd).Nodup := by
  have hPre : ∀ e : Path × Path, pl.dstBase ++ e.1 <+: t.landing e.2 (pl.dstBase ++ e.1) :=
    fun _ => landing_prefix
  rw [landings, List.map_map]
  refine (List.nodup_map_iff_inj_on (List.Nodup.of_map _ hNodup)).mpr fun e he f hf hEq => ?_
  have hEq : t.landing e.2 (pl.dstBase ++ e.1) = t.landing f.2 (pl.dstBase ++ f.1) := hEq
  have hFst : e.1 = f.1 := by
    rcases List.prefix_or_prefix_of_prefix (hEq ▸ hPre e) (hPre f) with hShort | hShort <;>
      rw [List.prefix_append_right_inj] at hShort
    · exact (hSep e he).2 f hf hShort
    · exact ((hSep f hf).2 e he hShort).symm
  exact List.inj_on_of_nodup_map hNodup he hf hFst

/-- The whole reflection: the assignments, then the deletions. -/
theorem reflect_tree (hPlaces : places treeOps job srcDir dstDir t = .ok pl)
    (hDry : job.dryRun = false) (hRun : reflect treeOps maxFiles job pl t = .ok st) :
    ∃ mid : WorkTree,
      mid.file = assign t.file (landings t pl (sortFiles (pl.picked job))) ∧
      (∀ q, t.isDir q = true → mid.isDir q = true) ∧
      (∀ q, st.fs.isDir q = mid.isDir q) ∧
      ∀ q, st.fs.file q =
        if job.mode ≠ .copy ∧ pl.srcIsFile = false ∧
            ∃ e ∈ walkFiles treeOps mid pl.dstBase,
              isSurplus job (pl.picked job) e.1 = true ∧ e.2 = q then none
        else mid.file q := by
  unfold reflect at hRun
  dsimp only at hRun
  split at hRun
  · cases hRun
  · split at hRun
    · cases hRun
    · next mid hLoop =>
      have hSep : Separate (sortFiles (pl.picked job)) := by
        intro e he
        rw [mem_sortFiles] at he
        refine ⟨((picked_separate hPlaces).1 e he).1, fun f hf => ?_⟩
        rw [mem_sortFiles] at hf
        exact ((picked_separate hPlaces).1 e he).2 f hf
      obtain ⟨hFile, hDirs⟩ := reflectFiles_assign hDry hSep hLoop
      cases hRun
      refine ⟨mid.fs, hFile, hDirs, ?_⟩
      by_cases hDelete : job.mode ≠ .copy ∧ pl.srcIsFile = false
      · rw [if_pos hDelete]
        have hFold := fun q =>
          foldl_removeFile hDry pl (pl.picked job)
            (sortFiles (walkFiles treeOps mid.fs pl.dstBase)) mid q
        refine ⟨fun q => (hFold q).2, fun q => (hFold q).1.trans ?_⟩
        simp only [mem_sortFiles, hDelete.1, hDelete.2, ne_eq, not_false_eq_true, true_and]
      · rw [if_neg hDelete]
        refine ⟨fun _ => rfl, fun q => (if_neg ?_).symm⟩
        rintro ⟨hMode, hKind, -⟩
        exact hDelete ⟨hMode, hKind⟩

end Run

end OpenSpoke.GitPathSync
