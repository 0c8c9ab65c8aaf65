import OpenSpoke.GitPathSync.OneTree

/-!
# The dry run of a reflection

The loop of a dry run compares every file with its target in the tree as it is.
The real loop compares in the tree that its own copies have changed, and the copies
can fail.
-/

namespace OpenSpoke.GitPathSync

open FileTree
open Python (Text)

def Job.dry (job : Job) : Job := { job with dryRun := true }

def Job.real (job : Job) : Job := { job with dryRun := false }

/-- Both files are there and have the same bytes. -/
def alike (m : Path → Option Bytes) (ap target : Path) : Bool :=
  match m ap, m target with
  | some x, some y => x = y
  | _, _ => false

/-- The copy of `ap` to `target` can be made: no file is above the target, and a target that is a
directory has room for the file below it. -/
structure Writable (t : WorkTree) (ap target : Path) : Prop where
  above : ∀ q, q <+: target.dropLast → t.isFile q = false
  into : t.isDir target = true →
    target ++ ap.basename ≠ ap ∧ t.isDir (target ++ ap.basename) = false

/-- What the loop writes down about a file. -/
def noteFile {σ : Type} (pl : Places) (there same : Bool) (rel : Path) (st : Progress σ) :
    Progress σ :=
  if there && same then
    { st with counters := { st.counters with unchanged := st.counters.unchanged + 1 } }
  else { st with
    counters :=
      if there then { st.counters with updated := st.counters.updated + 1 }
      else { st.counters with added := st.counters.added + 1 }
    changedFiles := st.changedFiles ++ [(pl.dstScopeRel ++ rel).text] }

section Step

variable {job : Job} {pl : Places} {st st' : Progress WorkTree} {t u v : WorkTree}
  {rel ap target : Path}

theorem alike_there (h : alike t.file ap target = true) : t.pathExists target = true := by
  unfold alike at h
  split at h
  · next x y _ hy =>
    rw [pathExists, file_eq_some.mp hy]
    rfl
  · cases h

theorem alike_self (h : t.isFile ap = true) : alike t.file ap ap = true := by
  obtain ⟨b, hb⟩ := isFile_iff.mp h
  simp [alike, file_eq_some.mpr hb]

theorem reflectFile_dry :
    reflectFile treeOps job.dry pl st rel ap =
      .ok (noteFile pl (st.fs.pathExists (pl.dstBase ++ rel))
        (alike st.fs.file ap (pl.dstBase ++ rel)) rel st) := by
  have hSame : sameBytes treeOps st.fs ap (pl.dstBase ++ rel) =
      alike st.fs.file ap (pl.dstBase ++ rel) := rfl
  have hThere : treeOps.pathExists st.fs (pl.dstBase ++ rel) =
      st.fs.pathExists (pl.dstBase ++ rel) := rfl
  rw [reflectFile, noteFile]
  simp only [hSame, hThere]
  split
  · rfl
  · rfl

theorem reflectFile_real_iff :
    reflectFile treeOps job.real pl st rel ap = .ok st' ↔
      ∃ v, (alike st.fs.file ap (pl.dstBase ++ rel) = true ∧ v = st.fs ∨
          alike st.fs.file ap (pl.dstBase ++ rel) = false ∧
            ∃ u, st.fs.makedirs (pl.dstBase ++ rel).dropLast = some u ∧
              u.copy2 ap (pl.dstBase ++ rel) = some v) ∧
        st' = { noteFile pl (st.fs.pathExists (pl.dstBase ++ rel))
          (alike st.fs.file ap (pl.dstBase ++ rel)) rel st with fs := v } := by
  have hSame : sameBytes treeOps st.fs ap (pl.dstBase ++ rel) =
      alike st.fs.file ap (pl.dstBase ++ rel) := rfl
  have hThere : treeOps.pathExists st.fs (pl.dstBase ++ rel) =
      st.fs.pathExists (pl.dstBase ++ rel) := rfl
  rw [reflectFile, noteFile]
  simp only [hSame, hThere]
  cases hAlike : alike st.fs.file ap (pl.dstBase ++ rel) with
  | true =>
    simp only [alike_there hAlike, Bool.and_self, if_true, Except.ok.injEq, true_and, reduceCtorEq,
      false_and, or_false, exists_eq_left]
    exact eq_comm
  | false =>
    simp only [Bool.and_false, Bool.false_eq_true, if_false, false_and, false_or, true_and]
    rw [if_neg (by simp [Job.real])]
    cases hDirs : st.fs.makedirs (pl.dstBase ++ rel).dropLast with
    | none => simp [treeOps, hDirs, raising]
    | some u =>
      have hOps : treeOps.makedirs st.fs (pl.dstBase ++ rel).dropLast = .ok u := by
        simp [treeOps, hDirs, raising]
      rw [hOps]
      cases hCopy : u.copy2 ap (pl.dstBase ++ rel) with
      | none => simp [treeOps, hCopy, raising]
      | some v =>
        have hOps : treeOps.copy2 u ap (pl.dstBase ++ rel) = .ok v := by
          simp [treeOps, hCopy, raising]
        simp only [hOps, Except.ok.injEq, Option.some.injEq, exists_eq_left', hCopy]
        exact eq_comm

theorem not_prefix_dropLast {p : Path} (h : p ≠ []) : ¬p <+: p.dropLast := by
  intro hPre
  have := hPre.length_le
  have := List.length_pos_of_ne_nil h
  rw [List.length_dropLast] at *
  omega

theorem makedirs_isDir (h : t.makedirs target.dropLast = some u) (q : Path) :
    u.isDir q = true ↔ q <+: target.dropLast ∨ t.isDir q = true := by
  obtain ⟨hNode, -⟩ := makedirs_some h
  rw [isDir_iff, isDir_iff, hNode q]
  split
  next hPre => simp [hPre]
  next hPre => simp [hPre]

theorem makedirs_isDir_below (hTarget : target ≠ []) (h : t.makedirs target.dropLast = some u)
    {q : Path} (hq : target <+: q) : u.isDir q = t.isDir q := by
  rw [Bool.eq_iff_iff, makedirs_isDir h]
  exact or_iff_right fun hPre => not_prefix_dropLast hTarget (hq.trans hPre)

theorem exists_copy_iff (hFile : t.isFile ap = true) (hTarget : target ≠ []) (hne : target ≠ ap) :
    (∃ u v, t.makedirs target.dropLast = some u ∧ u.copy2 ap target = some v) ↔
      Writable t ap target := by
  have hLanding : ∀ u, t.makedirs target.dropLast = some u →
      u.landing ap target = t.landing ap target ∧
        u.isDir (t.landing ap target) = t.isDir (t.landing ap target) := by
    intro u hDirs
    have hSame := makedirs_isDir_below hTarget hDirs List.prefix_rfl
    exact ⟨by simp only [landing, hSame], makedirs_isDir_below hTarget hDirs landing_prefix⟩
  constructor
  · rintro ⟨u, v, hDirs, hCopy⟩
    obtain ⟨hLand, hSame⟩ := hLanding u hDirs
    obtain ⟨b, -, hOther, hFree, -⟩ := copy2_some hCopy
    rw [hLand] at hOther hFree
    refine ⟨(makedirs_some hDirs).2, fun hDir => ?_⟩
    rw [hSame, landing_into hDir] at hFree
    rw [landing_into hDir] at hOther
    exact ⟨hOther, hFree⟩
  · intro hWritable
    obtain ⟨u, hDirs⟩ := exists_makedirs hWritable.above
    obtain ⟨hLand, hSame⟩ := hLanding u hDirs
    have hSource : u.isFile ap = true := by
      rw [FileTree.isFile, makedirs_file hDirs]
      exact hFile
    have hPlace : t.landing ap target ≠ ap ∧ t.isDir (t.landing ap target) = false := by
      cases hDir : t.isDir target with
      | true =>
        rw [landing_into hDir]
        exact hWritable.into hDir
      | false =>
        rw [landing_free hDir]
        exact ⟨hne, hDir⟩
    rw [← hLand] at hPlace hSame
    obtain ⟨v, hCopy⟩ := exists_copy2 hSource hTarget
      ((makedirs_isDir hDirs _).mpr (.inl List.prefix_rfl)) hPlace.1 (hSame.trans hPlace.2)
    exact ⟨u, v, hDirs, hCopy⟩

end Step

/-! ## What a copy leaves alone -/

/-- At and above the target the files are those of `t`, and below it also the directories. -/
structure Untouched (t u : WorkTree) (target : Path) : Prop where
  file : ∀ q, q <+: target ∨ target <+: q → u.file q = t.file q
  dir : ∀ q, target <+: q → u.isDir q = t.isDir q

section Untouched

variable {t u v : WorkTree} {ap target other : Path}

theorem Untouched.refl (t : WorkTree) (target : Path) : Untouched t t target :=
  ⟨fun _ _ => rfl, fun _ _ => rfl⟩

theorem Untouched.copied (h : Untouched t u target) (hCopy : Copied u ap other v)
    (hAbove : ¬other <+: target) (hBelow : ¬target <+: other) : Untouched t v target := by
  refine ⟨fun q hq => ?_, fun q hq => ?_⟩
  · rw [hCopy.file, Function.update_of_ne, h.file q hq]
    rintro rfl
    have hPre : other <+: u.landing ap other := landing_prefix
    obtain hq | hq := hq
    · exact hAbove (hPre.trans hq)
    · exact (List.prefix_or_prefix_of_prefix hPre hq).elim hAbove hBelow
  · rw [← h.dir q hq, Bool.eq_iff_iff]
    refine ⟨fun hDir => (hCopy.fresh q hDir).resolve_right fun hPre => ?_, hCopy.dirs q⟩
    exact hBelow (hq.trans (hPre.trans (List.dropLast_prefix _)))

theorem Untouched.pathExists (h : Untouched t u target) :
    u.pathExists target = t.pathExists target := by
  have hDir := h.dir target List.prefix_rfl
  have hFile := h.file target (.inl List.prefix_rfl)
  have hNode : ∀ t : WorkTree, t.pathExists target = (t.isDir target || t.isFile target) := by
    intro t
    unfold FileTree.pathExists isDir FileTree.isFile FileTree.file
    cases t.node target with
    | none => rfl
    | some n => cases n <;> rfl
  rw [hNode, hNode, hDir, FileTree.isFile, hFile]
  rfl

theorem Untouched.writable_iff (h : Untouched t u target) :
    Writable u ap target ↔ Writable t ap target := by
  have hFile : ∀ q, q <+: target.dropLast → u.isFile q = t.isFile q := by
    intro q hq
    rw [FileTree.isFile, h.file q (.inl (hq.trans (List.dropLast_prefix _)))]
    rfl
  have hDir := h.dir target List.prefix_rfl
  have hBelow := h.dir (target ++ ap.basename) (List.prefix_append _ _)
  constructor
  · rintro ⟨hAbove, hInto⟩
    refine ⟨fun q hq => (hFile q hq) ▸ hAbove q hq, fun hThere => ?_⟩
    exact hBelow ▸ hInto (hDir.trans hThere)
  · rintro ⟨hAbove, hInto⟩
    refine ⟨fun q hq => (hFile q hq).trans (hAbove q hq), fun hThere => ?_⟩
    rw [hBelow]
    exact hInto (hDir.symm.trans hThere)

theorem Copied.isFile (h : Copied u ap target v) {q : Path} (hq : u.isFile q = true) :
    v.isFile q = true := by
  rw [FileTree.isFile, h.file]
  by_cases hEq : q = u.landing ap target
  · rw [hEq, Function.update_self]
    exact h.read
  · rw [Function.update_of_ne hEq]
    exact hq

end Untouched

/-! ## The loop -/

section Loop

variable {job : Job} {pl : Places} {t : WorkTree}

/-- What the dry run relies on, for the files that are left: after the copies made so far a file
compares with its target as it does at the start, and if it is not the same it can be copied. -/
structure Steady (t : WorkTree) (pl : Places) (done files : List (Path × Path)) : Prop where
  compared : ∀ early e late, files = early ++ e :: late →
    alike (assign t.file (landings t pl (done ++ early))) e.2 (pl.dstBase ++ e.1) =
      alike t.file e.2 (pl.dstBase ++ e.1)
  writable : ∀ e ∈ files, alike t.file e.2 (pl.dstBase ++ e.1) = false →
    Writable t e.2 (pl.dstBase ++ e.1)

theorem steady_nil (done : List (Path × Path)) : Steady t pl done [] := by
  constructor
  · rintro early e late h
    simp at h
  · simp

theorem steady_cons_iff {done files : List (Path × Path)} {e : Path × Path} :
    Steady t pl done (e :: files) ↔
      (alike (assign t.file (landings t pl done)) e.2 (pl.dstBase ++ e.1) =
          alike t.file e.2 (pl.dstBase ++ e.1) ∧
        (alike t.file e.2 (pl.dstBase ++ e.1) = false → Writable t e.2 (pl.dstBase ++ e.1))) ∧
      Steady t pl (done ++ [e]) files := by
  constructor
  · rintro ⟨hCompared, hWritable⟩
    have hFirst := hCompared [] e files rfl
    rw [List.append_nil] at hFirst
    refine ⟨⟨hFirst, hWritable e List.mem_cons_self⟩, fun early f late hEq => ?_,
      fun f hf => hWritable f (List.mem_cons_of_mem _ hf)⟩
    rw [List.append_assoc]
    exact hCompared (e :: early) f late (congrArg _ hEq)
  · rintro ⟨⟨hFirst, hCan⟩, hCompared, hWritable⟩
    refine ⟨fun early f late hEq => ?_, List.forall_mem_cons.mpr ⟨hCan, hWritable⟩⟩
    cases early with
    | nil =>
      cases hEq
      rw [List.append_nil]
      exact hFirst
    | cons e' early =>
      obtain ⟨rfl, hTail⟩ := List.cons.inj hEq
      have hLater := hCompared early f late hTail
      rwa [List.append_assoc] at hLater

/-- The real loop after some copies, and the dry loop at the same file. -/
structure Beside (t : WorkTree) (pl : Places) (done files : List (Path × Path))
    (st sd : Progress WorkTree) : Prop where
  tree : sd.fs = t
  assigned : st.fs.file = assign t.file (landings t pl done)
  untouched : ∀ e ∈ files, Untouched t st.fs (pl.dstBase ++ e.1)
  there : ∀ e ∈ files, st.fs.isFile e.2 = true

/-- No file of the list lies at or below another one. -/
def Incomparable (files : List (Path × Path)) : Prop :=
  files.Pairwise fun e f => ¬e.1 <+: f.1 ∧ ¬f.1 <+: e.1

theorem incomparable_of_separate {files : List (Path × Path)} (hSep : Separate files)
    (hNodup : (files.map Prod.fst).Nodup) : Incomparable files := by
  refine (List.pairwise_map.mp hNodup).imp_of_mem fun {e f} he hf hne => ⟨fun hPre => ?_, fun hPre => ?_⟩
  · exact hne ((hSep e he).2 f hf hPre)
  · exact hne ((hSep f hf).2 e he hPre).symm

/-- The same counters and the same list. -/
structure SameAccount (st sd : Progress WorkTree) : Prop where
  counters : st.counters = sd.counters
  changedFiles : st.changedFiles = sd.changedFiles

theorem SameAccount.note {st sd : Progress WorkTree} (h : SameAccount st sd) (there same : Bool)
    (rel : Path) (v : WorkTree) :
    SameAccount { noteFile pl there same rel st with fs := v } (noteFile pl there same rel sd) := by
  obtain ⟨hCounters, hList⟩ := h
  unfold noteFile
  split
  · exact ⟨by rw [hCounters], hList⟩
  · exact ⟨by rw [hCounters], by rw [hList]⟩

theorem noteFile_fs (there same : Bool) (rel : Path) (st : Progress WorkTree) :
    (noteFile pl there same rel st).fs = st.fs := by
  unfold noteFile
  split <;> rfl

/-- The text that stands for a file in the list. -/
def listed (pl : Places) (e : Path × Path) : Text := (pl.dstScopeRel ++ e.1).text

theorem noteFile_changed (there same : Bool) (e : Path × Path) (st : Progress WorkTree) :
    (noteFile pl there same e.1 st).changedFiles =
      st.changedFiles ++ if there && same then [] else [listed pl e] := by
  unfold noteFile
  split
  · simp
  · rfl

section Beside

variable {e : Path × Path} {done files : List (Path × Path)} {st st' sd sd' : Progress WorkTree}

theorem Beside.compared (h : Beside t pl done (e :: files) st sd) :
    st.fs.pathExists (pl.dstBase ++ e.1) = t.pathExists (pl.dstBase ++ e.1) ∧
      alike st.fs.file e.2 (pl.dstBase ++ e.1) =
        alike (assign t.file (landings t pl done)) e.2 (pl.dstBase ++ e.1) :=
  ⟨(h.untouched e List.mem_cons_self).pathExists, by rw [h.assigned]⟩

theorem Beside.step (h : Beside t pl done (e :: files) st sd) (hApart : Incomparable (e :: files))
    (hRel : e.1 ≠ []) (hReal : reflectFile treeOps job.real pl st e.1 e.2 = .ok st')
    (hDry : reflectFile treeOps job.dry pl sd e.1 e.2 = .ok sd') :
    Beside t pl (done ++ [e]) files st' sd' := by
  have hCopied := reflectFile_copied rfl hRel hReal
  have hHead := h.untouched e List.mem_cons_self
  have hLand : st.fs.landing e.2 (pl.dstBase ++ e.1) = t.landing e.2 (pl.dstBase ++ e.1) := by
    simp only [landing, hHead.dir _ List.prefix_rfl]
  constructor
  · rw [reflectFile_dry] at hDry
    cases hDry
    rw [noteFile_fs, h.tree]
  · rw [hCopied.file, hLand, h.assigned, landings, landings, List.map_append, List.map_singleton,
      assign_concat]
  · intro f hf
    obtain ⟨hAbove, hBelow⟩ := (List.pairwise_cons.mp hApart).1 f hf
    refine (h.untouched f (List.mem_cons_of_mem _ hf)).copied hCopied ?_ ?_
    · exact fun hPre => hAbove ((List.prefix_append_right_inj _).mp hPre)
    · exact fun hPre => hBelow ((List.prefix_append_right_inj _).mp hPre)
  · exact fun f hf => hCopied.isFile (h.there f (List.mem_cons_of_mem _ hf))

/-- The real step can be made when the comparison says so or the copy can be made. -/
theorem Beside.exists_step_iff (h : Beside t pl done (e :: files) st sd) (hRel : e.1 ≠ []) :
    (∃ st', reflectFile treeOps job.real pl st e.1 e.2 = .ok st') ↔
      (alike st.fs.file e.2 (pl.dstBase ++ e.1) = false → Writable t e.2 (pl.dstBase ++ e.1)) := by
  have hFile := h.there e List.mem_cons_self
  have hTarget : pl.dstBase ++ e.1 ≠ [] := by simp [hRel]
  rw [← (h.untouched e List.mem_cons_self).writable_iff]
  simp only [reflectFile_real_iff]
  constructor
  · rintro ⟨st', v, ⟨hSame, -⟩ | ⟨-, u, hDirs, hCopy⟩, -⟩ hDiffers
    · rw [hSame] at hDiffers
      cases hDiffers
    · have hne : pl.dstBase ++ e.1 ≠ e.2 := by
        intro hEq
        rw [hEq, alike_self hFile] at hDiffers
        cases hDiffers
      exact (exists_copy_iff hFile hTarget hne).mp ⟨u, v, hDirs, hCopy⟩
  · intro hCan
    cases hAlike : alike st.fs.file e.2 (pl.dstBase ++ e.1) with
    | true => exact ⟨_, st.fs, .inl ⟨rfl, rfl⟩, rfl⟩
    | false =>
      have hne : pl.dstBase ++ e.1 ≠ e.2 := by
        intro hEq
        rw [hEq, alike_self hFile] at hAlike
        cases hAlike
      obtain ⟨u, v, hDirs, hCopy⟩ := (exists_copy_iff hFile hTarget hne).mpr (hCan hAlike)
      exact ⟨_, v, .inr ⟨rfl, u, hDirs, hCopy⟩, rfl⟩

end Beside

theorem reflectFiles_of_steady {done files : List (Path × Path)} {st sd : Progress WorkTree}
    (hSteady : Steady t pl done files) (hBeside : Beside t pl done files st sd)
    (hApart : Incomparable files) (hRel : ∀ e ∈ files, e.1 ≠ []) (hAccount : SameAccount st sd) :
    ∃ st' sd', reflectFiles treeOps job.real pl st files = .ok st' ∧
      reflectFiles treeOps job.dry pl sd files = .ok sd' ∧
      Beside t pl (done ++ files) [] st' sd' ∧ SameAccount st' sd' := by
  induction files generalizing done st sd with
  | nil => exact ⟨st, sd, rfl, rfl, by rwa [List.append_nil], hAccount⟩
  | cons e files ih =>
    obtain ⟨⟨hSame, hCan⟩, hLater⟩ := steady_cons_iff.mp hSteady
    have hFirst := hRel e List.mem_cons_self
    obtain ⟨hThere, hCompared⟩ := hBeside.compared
    rw [hSame] at hCompared
    obtain ⟨st', hReal⟩ : ∃ st', reflectFile treeOps job.real pl st e.1 e.2 = .ok st' :=
      (hBeside.exists_step_iff hFirst).mpr fun hDiffers => hCan (hCompared.symm.trans hDiffers)
    have hDry := @reflectFile_dry job pl sd e.1 e.2
    have hNext := hBeside.step hApart hFirst hReal hDry
    obtain ⟨v, -, rfl⟩ := reflectFile_real_iff.mp hReal
    have hAccounts := @SameAccount.note pl st sd hAccount (t.pathExists (pl.dstBase ++ e.1))
      (alike t.file e.2 (pl.dstBase ++ e.1)) e.1 v
    rw [hBeside.tree] at hDry hNext
    rw [hThere, hCompared] at hReal hNext
    obtain ⟨st', sd', hRest, hRestDry, hEnd, hSameEnd⟩ :=
      ih hLater hNext hApart.of_cons (fun f hf => hRel f (List.mem_cons_of_mem _ hf)) hAccounts
    refine ⟨st', sd', ?_, ?_, ?_, hSameEnd⟩
    · simp only [reflectFiles, hReal]
      exact hRest
    · simp only [reflectFiles, hDry]
      exact hRestDry
    · rwa [List.append_assoc] at hEnd

theorem reflectFiles_changed {job : Job} {files : List (Path × Path)} {st st' : Progress WorkTree}
    (h : reflectFiles treeOps job pl st files = .ok st') :
    ∃ l, st'.changedFiles = st.changedFiles ++ l ∧ l ⊆ files.map (listed pl) ∧
      st'.counters.added + st'.counters.updated =
        st.counters.added + st.counters.updated + l.length ∧
      st'.counters.deleted = st.counters.deleted := by
  have hStep : ∀ {e : Path × Path} {st st' : Progress WorkTree},
      reflectFile treeOps job pl st e.1 e.2 = .ok st' → ∃ there same v,
        st' = { noteFile pl there same e.1 st with fs := v } := by
    intro e st st' h
    cases hDry : job.dryRun with
    | true =>
      have hJob : job = job.dry := by
        rw [Job.dry, ← hDry]
      rw [hJob, reflectFile_dry] at h
      cases h
      exact ⟨_, _, _, rfl⟩
    | false =>
      have hJob : job = job.real := by
        rw [Job.real, ← hDry]
      rw [hJob] at h
      obtain ⟨v, -, rfl⟩ := reflectFile_real_iff.mp h
      exact ⟨_, _, v, rfl⟩
  induction files generalizing st with
  | nil =>
    cases h
    exact ⟨[], by simp, by simp, rfl, rfl⟩
  | cons e files ih =>
    simp only [reflectFiles] at h
    split at h
    · cases h
    next mid hFirst =>
    obtain ⟨there, same, v, rfl⟩ := hStep hFirst
    obtain ⟨l, hList, hSub, hCount, hDeleted⟩ := ih h
    refine ⟨(if there && same then [] else [listed pl e]) ++ l, ?_, ?_, ?_, ?_⟩
    · rw [hList, noteFile_changed, List.append_assoc]
    · intro x hx
      obtain hx | hx := List.mem_append.mp hx
      · split at hx
        · cases hx
        · rw [List.mem_singleton.mp hx]
          exact List.mem_cons_self
      · exact List.mem_cons_of_mem _ (hSub hx)
    · rw [hCount, List.length_append]
      unfold noteFile
      split
      · simp
      · split
        · simp only [List.length_singleton]
          omega
        · simp only [List.length_singleton]
          omega
    · rw [hDeleted]
      unfold noteFile
      split
      · rfl
      · split <;> rfl

/-- When the lists come out the same, the dry run has foreseen every file. -/
theorem steady_of_reflectFiles {done files : List (Path × Path)} {st sd st' sd' : Progress WorkTree}
    (hReal : reflectFiles treeOps job.real pl st files = .ok st')
    (hDry : reflectFiles treeOps job.dry pl sd files = .ok sd')
    (hEnd : st'.changedFiles = sd'.changedFiles) (hStart : st.changedFiles = sd.changedFiles)
    (hBeside : Beside t pl done files st sd) (hApart : Incomparable files)
    (hRel : ∀ e ∈ files, e.1 ≠ []) (hTexts : (files.map (listed pl)).Nodup) :
    Steady t pl done files := by
  induction files generalizing done st sd with
  | nil => exact steady_nil done
  | cons e files ih =>
    simp only [reflectFiles] at hReal hDry
    split at hReal
    · cases hReal
    next mid hFirst =>
    rw [reflectFile_dry] at hDry
    simp only at hDry
    have hHead := hRel e List.mem_cons_self
    have hFirstDry := @reflectFile_dry job pl sd e.1 e.2
    have hNext := hBeside.step hApart hHead hFirst hFirstDry
    obtain ⟨hThere, hCompared⟩ := hBeside.compared
    obtain ⟨hFresh, hRest⟩ := List.nodup_cons.mp hTexts
    obtain ⟨l, hList, hSub, -⟩ := reflectFiles_changed hReal
    obtain ⟨l', hList', hSub', -⟩ := reflectFiles_changed hDry
    have hCan := (hBeside.exists_step_iff hHead).mp ⟨mid, hFirst⟩
    obtain ⟨v, -, rfl⟩ := reflectFile_real_iff.mp hFirst
    have hTree := hBeside.tree
    rw [hList, hList', noteFile_changed, hTree, noteFile_changed, hStart, List.append_assoc,
      List.append_assoc, List.append_cancel_left_eq, hThere] at hEnd
    -- a file is listed in both runs or in none
    have hSame : alike st.fs.file e.2 (pl.dstBase ++ e.1) = alike t.file e.2 (pl.dstBase ++ e.1) := by
      have hImplies : ∀ {m : Path → Option Bytes}, alike m e.2 (pl.dstBase ++ e.1) = true →
          m = st.fs.file ∨ m = t.file → t.pathExists (pl.dstBase ++ e.1) = true := by
        rintro m hm (rfl | rfl)
        · rw [← hThere]
          exact alike_there hm
        · exact alike_there hm
      cases hOne : alike st.fs.file e.2 (pl.dstBase ++ e.1) <;>
        cases hOther : alike t.file e.2 (pl.dstBase ++ e.1)
      · rfl
      · rw [hOne, hOther, hImplies hOther (.inr rfl)] at hEnd
        simp only [Bool.and_false, Bool.and_self, Bool.false_eq_true, if_false, if_true,
          List.nil_append, List.singleton_append] at hEnd
        exact absurd (hSub' (hEnd ▸ List.mem_cons_self)) hFresh
      · rw [hOne, hOther, hImplies hOne (.inl rfl)] at hEnd
        simp only [Bool.and_false, Bool.and_self, Bool.false_eq_true, if_false, if_true,
          List.nil_append, List.singleton_append] at hEnd
        exact absurd (hSub (hEnd ▸ List.mem_cons_self)) hFresh
      · rfl
    refine steady_cons_iff.mpr ⟨⟨hCompared ▸ hSame, fun hDiffers => hCan (hSame.trans hDiffers)⟩, ?_⟩
    refine ih hReal hDry ?_ hNext hApart.of_cons
      (fun f hf => hRel f (List.mem_cons_of_mem _ hf)) hRest
    rw [noteFile_changed, noteFile_changed, hTree, hStart, hThere, hSame]

end Loop

end OpenSpoke.GitPathSync
