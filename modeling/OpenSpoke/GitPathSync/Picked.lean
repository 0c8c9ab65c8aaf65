import OpenSpoke.GitPathSync.Reflect

/-!
# The picked files and their places

Which file of the source belongs at a place of the destination, and where the
reflection loop really puts it.
-/

namespace OpenSpoke.GitPathSync

open FileTree

section Places

variable (job : Job) (srcDir dstDir : Path) (t : WorkTree)

/-- The place of a single file: in a directory it keeps its name. -/
def filePlace : Path :=
  if job.dest.path = [] ∨ t.isDir (dstDir ++ job.dest.path) = true then
    job.dest.path ++ (srcDir ++ job.source.path).basename
  else job.dest.path

def fileName : Path :=
  if job.dest.path = [] then (srcDir ++ job.source.path).basename else job.dest.path.basename

/-- The picked file that belongs at a place of the destination. -/
def sourceAt (q : Path) : Option Path :=
  if t.isFile (srcDir ++ job.source.path) then
    if q = filePlace job srcDir dstDir t ∧ job.selects (fileName job srcDir) = true then
      some (srcDir ++ job.source.path)
    else none
  else if job.dest.path <+: q ∧ job.selects (q.drop job.dest.path.length) = true ∧
      gitName ∉ (q.drop job.dest.path.length).dropLast ∧
      t.isFile (srcDir ++ job.source.path ++ q.drop job.dest.path.length) = true then
    some (srcDir ++ job.source.path ++ q.drop job.dest.path.length)
  else none

/-- The bytes that belong at a place of the destination. -/
def arriving (q : Path) : Option Bytes := (sourceAt job srcDir dstDir t q).bind t.file

/-- A picked file belongs where the destination has a directory. -/
def Clash (q : Path) : Prop :=
  (sourceAt job srcDir dstDir t q).isSome = true ∧ t.isDir (dstDir ++ q) = true

end Places

theorem basename_basename (p : Path) : p.basename.basename = p.basename := by
  unfold Path.basename
  cases p.getLast? <;> rfl

theorem dropLast_basename {p : Path} (hp : p ≠ []) : p.dropLast ++ p.basename = p := by
  unfold Path.basename
  rw [List.getLast?_eq_getLast_of_ne_nil hp]
  exact List.dropLast_append_getLast hp

section Run

variable {job : Job} {srcDir dstDir : Path} {pl : Places} {t : WorkTree}

theorem sourceAt_file {q ap : Path} (h : sourceAt job srcDir dstDir t q = some ap) :
    t.isFile ap = true := by
  unfold sourceAt at h
  split at h
  · next hFile =>
    split at h
    · cases h
      exact hFile
    · cases h
  · split at h
    · next hPicked =>
      cases h
      exact hPicked.2.2.2
    · cases h

theorem sourceAt_below {q ap : Path} (h : sourceAt job srcDir dstDir t q = some ap) :
    job.dest.path <+: q ∧ srcDir ++ job.source.path <+: ap := by
  unfold sourceAt at h
  split at h
  · split at h
    · next hPlace =>
      cases h
      refine ⟨?_, List.prefix_rfl⟩
      rw [hPlace.1, filePlace]
      split
      · exact List.prefix_append _ _
      · exact List.prefix_rfl
    · cases h
  · split at h
    · next hPicked =>
      cases h
      exact ⟨hPicked.1, List.prefix_append _ _⟩
    · cases h

theorem sourceAt_dir (hDir : t.isDir (srcDir ++ job.source.path) = true) {r ap : Path} :
    sourceAt job srcDir dstDir t (job.dest.path ++ r) = some ap ↔
      ap = srcDir ++ job.source.path ++ r ∧ job.selects r = true ∧ gitName ∉ r.dropLast ∧
        t.isFile ap = true := by
  have hNoFile := file_of_dir hDir
  simp only [sourceAt, hNoFile, Bool.false_eq_true, if_false, List.prefix_append, true_and,
    List.drop_left]
  constructor
  · intro h
    split at h
    · next hPicked =>
      cases h
      exact ⟨rfl, hPicked⟩
    · cases h
  · rintro ⟨rfl, hPicked⟩
    exact if_pos hPicked

theorem mem_picked_dir (hPlaces : places treeOps job srcDir dstDir t = .ok pl)
    (hDir : t.isDir (srcDir ++ job.source.path) = true) {rel ap : Path} :
    (rel, ap) ∈ pl.picked job ↔
      ap = srcDir ++ job.source.path ++ rel ∧ job.selects rel = true ∧ gitName ∉ rel.dropLast ∧
        t.isFile ap = true := by
  have hNoFile := file_of_dir hDir
  obtain ⟨hBase, ⟨hFile, -⟩ | ⟨-, -, -, hFiles⟩⟩ := places_tree hPlaces
  · rw [hBase, hNoFile] at hFile
    cases hFile
  · rw [Places.picked, hFiles, List.mem_filter, mem_walkFiles, hBase, hNoFile]
    simp only [Bool.false_eq_true, false_and, false_or, hDir, true_and]
    constructor
    · rintro ⟨⟨hr, hGit, rfl⟩, hSelects⟩
      exact ⟨rfl, hSelects, hGit, hr⟩
    · rintro ⟨rfl, hSelects, hGit, hr⟩
      exact ⟨⟨hr, hGit, rfl⟩, hSelects⟩

theorem mem_picked_file (hPlaces : places treeOps job srcDir dstDir t = .ok pl)
    (hFile : t.isFile (srcDir ++ job.source.path) = true) {e : Path × Path} :
    e ∈ pl.picked job ↔
      e = (fileName job srcDir, srcDir ++ job.source.path) ∧
        job.selects (fileName job srcDir) = true := by
  obtain ⟨hBase, ⟨-, -, place, hPlace, -, hFiles⟩ | ⟨hDir, -⟩⟩ := places_tree hPlaces
  · have hName : place.basename = fileName job srcDir := by
      unfold fileName
      rw [hPlace, hBase]
      split
      · exact basename_basename _
      · rfl
    rw [Places.picked, hFiles, List.mem_filter, List.mem_singleton, hName, hBase]
    refine and_congr_right ?_
    rintro rfl
    rfl
  · rw [hBase] at hDir
    obtain ⟨b, hb⟩ := isFile_iff.mp hFile
    simp [isDir, hb] at hDir

theorem single_target (hPlaces : places treeOps job srcDir dstDir t = .ok pl)
    (hFile : t.isFile (srcDir ++ job.source.path) = true) :
    pl.dstBase ++ fileName job srcDir = dstDir ++
      if job.dest.path = [] then (srcDir ++ job.source.path).basename else job.dest.path := by
  obtain ⟨hBase, ⟨-, -, place, hPlace, hDst, -⟩ | ⟨hDir, -⟩⟩ := places_tree hPlaces
  · have hne : srcDir ++ job.source.path ≠ [] := by
      intro hRoot
      obtain ⟨b, hb⟩ := isFile_iff.mp hFile
      rw [hRoot, t.root] at hb
      cases hb
    rw [hDst, hPlace, hBase, fileName, List.append_assoc]
    split
    · have hLast := dropLast_basename (basename_ne_nil hne)
      rw [basename_basename] at hLast
      rw [hLast]
    · rw [dropLast_basename ‹_›]
  · rw [hBase] at hDir
    obtain ⟨b, hb⟩ := isFile_iff.mp hFile
    simp [isDir, hb] at hDir

theorem landing_of_sourceAt (hPlaces : places treeOps job srcDir dstDir t = .ok pl) {q ap : Path}
    (hAt : sourceAt job srcDir dstDir t q = some ap) (hFree : t.isDir (dstDir ++ q) = false) :
    (ap, dstDir ++ q) ∈ landings t pl (pl.picked job) := by
  obtain ⟨hBase, ⟨hFile, -⟩ | ⟨hDir, -, hDst, -⟩⟩ := places_tree hPlaces
  · rw [hBase] at hFile
    simp only [sourceAt, hFile, if_true] at hAt
    split at hAt
    · next hPlace =>
      cases hAt
      obtain ⟨rfl, hSelects⟩ := hPlace
      refine List.mem_map.mpr ⟨_, (mem_picked_file hPlaces hFile).mpr ⟨rfl, hSelects⟩, ?_⟩
      rw [single_target hPlaces hFile]
      by_cases hRoot : job.dest.path = []
      · simp only [filePlace, hRoot, true_or, if_true, List.nil_append] at hFree ⊢
        rw [landing_free hFree]
      · rw [if_neg hRoot]
        cases hInto : t.isDir (dstDir ++ job.dest.path) with
        | true => simp [landing_into hInto, filePlace, hRoot, hInto, Path.basename]
        | false => simp [landing_free hInto, filePlace, hRoot, hInto]
    · cases hAt
  · rw [hBase] at hDir
    obtain ⟨r, rfl⟩ := (sourceAt_below hAt).1
    have hPicked := (sourceAt_dir hDir).mp hAt
    refine List.mem_map.mpr ⟨_, (mem_picked_dir hPlaces hDir).mpr hPicked, ?_⟩
    rw [hDst, List.append_assoc]
    rw [landing_free hFree]

theorem sourceAt_of_landing (hPlaces : places treeOps job srcDir dstDir t = .ok pl)
    {ap target : Path} (h : (ap, target) ∈ landings t pl (pl.picked job)) :
    ∃ q, sourceAt job srcDir dstDir t q = some ap ∧
      (target = dstDir ++ q ∨
        t.isDir (dstDir ++ q) = true ∧ target = dstDir ++ q ++ ap.basename) := by
  obtain ⟨⟨rel, ap⟩, he, hEq⟩ := List.mem_map.mp h
  cases hEq
  obtain ⟨hBase, ⟨hFile, -⟩ | ⟨hDir, -, hDst, -⟩⟩ := places_tree hPlaces
  · rw [hBase] at hFile
    obtain ⟨hEq, hSelects⟩ := (mem_picked_file hPlaces hFile).mp he
    cases hEq
    refine ⟨filePlace job srcDir dstDir t, by simp [sourceAt, hFile, hSelects], ?_⟩
    rw [single_target hPlaces hFile]
    by_cases hRoot : job.dest.path = []
    · simp only [hRoot, if_true, filePlace, true_or, List.nil_append]
      cases hInto : t.isDir (dstDir ++ (srcDir ++ job.source.path).basename) with
      | true => exact .inr ⟨rfl, landing_into hInto⟩
      | false => exact .inl (landing_free hInto)
    · left
      rw [if_neg hRoot]
      cases hInto : t.isDir (dstDir ++ job.dest.path) with
      | true => simp [landing_into hInto, filePlace, hRoot, hInto, Path.basename]
      | false => simp [landing_free hInto, filePlace, hRoot, hInto]
  · rw [hBase] at hDir
    have hPicked := (mem_picked_dir hPlaces hDir).mp he
    refine ⟨job.dest.path ++ rel, (sourceAt_dir hDir).mpr hPicked, ?_⟩
    rw [hDst, ← List.append_assoc]
    cases hInto : t.isDir (dstDir ++ job.dest.path ++ rel) with
    | true => exact .inr ⟨rfl, landing_into hInto⟩
    | false => exact .inl (landing_free hInto)

theorem isDir_of_not_clash {q ap : Path} (hFree : ¬Clash job srcDir dstDir t q)
    (hAt : sourceAt job srcDir dstDir t q = some ap) : t.isDir (dstDir ++ q) = false := by
  by_contra hDir
  exact hFree ⟨by simp [hAt], by simpa using hDir⟩

theorem mem_landings_iff (hPlaces : places treeOps job srcDir dstDir t = .ok pl)
    (hFree : ∀ q, ¬Clash job srcDir dstDir t q) {ap target : Path} :
    (ap, target) ∈ landings t pl (pl.picked job) ↔
      ∃ q, sourceAt job srcDir dstDir t q = some ap ∧ target = dstDir ++ q := by
  constructor
  · intro hLand
    obtain ⟨q, hAt, hEq | ⟨hDir, -⟩⟩ := sourceAt_of_landing hPlaces hLand
    · exact ⟨q, hAt, hEq⟩
    · rw [isDir_of_not_clash (hFree q) hAt] at hDir
      cases hDir
  · rintro ⟨q, hAt, rfl⟩
    exact landing_of_sourceAt hPlaces hAt (isDir_of_not_clash (hFree q) hAt)

theorem landings_sortFiles (hPlaces : places treeOps job srcDir dstDir t = .ok pl) :
    (∀ e, e ∈ landings t pl (sortFiles (pl.picked job)) ↔ e ∈ landings t pl (pl.picked job)) ∧
      ((landings t pl (sortFiles (pl.picked job))).map Prod.snd).Nodup := by
  have hPerm := (sortFiles_perm (pl.picked job)).map fun e =>
    (e.2, t.landing e.2 (pl.dstBase ++ e.1))
  have hSep := picked_separate hPlaces
  exact ⟨fun _ => hPerm.mem_iff,
    (hPerm.map Prod.snd).nodup_iff.mpr (landings_nodup hSep.1 hSep.2)⟩

end Run

end OpenSpoke.GitPathSync
