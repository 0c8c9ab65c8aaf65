import OpenSpoke.GitPathSync.DryRun
import OpenSpoke.GitPathSync.Move

/-!
# What a dry run predicts

A real run of the same job counts and lists what the dry run did if every file can
be copied, compares as it did at the start, and leaves nothing in a directory that
the deletions would find.
-/

namespace OpenSpoke.GitPathSync

open FileTree
open Python (Text)

/-! ## The deletions -/

def surplus (job : Job) (pl : Places) (u : WorkTree) : List (Path × Path) :=
  (sortFiles (walkFiles treeOps u pl.dstBase)).filter fun e => isSurplus job (pl.picked job) e.1

theorem foldl_removeFile_account (job : Job) (pl : Places) (picked files : List (Path × Path))
    (st : Progress WorkTree) :
    (files.foldl (removeFile treeOps job pl picked) st).counters = { st.counters with
        deleted := st.counters.deleted +
          (files.filter fun e => isSurplus job picked e.1).length } ∧
      (files.foldl (removeFile treeOps job pl picked) st).changedFiles = st.changedFiles ++
        (files.filter fun e => isSurplus job picked e.1).map fun e => ['-', ' '] ++ listed pl e := by
  induction files generalizing st with
  | nil => simp
  | cons e files ih =>
    obtain ⟨hCounters, hList⟩ := ih (removeFile treeOps job pl picked st e)
    rw [List.foldl_cons, hCounters, hList, List.filter_cons]
    unfold removeFile
    by_cases hPicked : e.1 ∈ picked.map Prod.fst
    · have hKept : isSurplus job picked e.1 = false := by simp [isSurplus, hPicked]
      simp only [hPicked, if_true, hKept, Bool.false_eq_true, if_false, and_self]
    · cases hSelects : job.selects e.1 with
      | false =>
        have hKept : isSurplus job picked e.1 = false := by simp [isSurplus, hSelects]
        simp only [hPicked, if_false, hKept, Bool.false_eq_true, and_self]
      | true =>
        have hGone : isSurplus job picked e.1 = true := by simp [isSurplus, hPicked, hSelects]
        simp only [hPicked, if_false, if_true, hGone, List.length_cons, List.map_cons,
          List.append_assoc, List.singleton_append, listed, and_true]
        congr 1
        omega

section Deletions

variable {job : Job} {srcDir dstDir : Path} {pl : Places} {t mid : WorkTree}

theorem walk_ne_nil {u : WorkTree} {base : Path} {e : Path × Path}
    (h : e ∈ walkFiles treeOps u base) : e.1 ≠ [] := by
  obtain ⟨rel, ap⟩ := e
  obtain ⟨hFile, rfl, -⟩ | ⟨hDir, hFile, -⟩ := mem_walkFiles.mp h
  · refine basename_ne_nil ?_
    rintro rfl
    obtain ⟨b, hb⟩ := isFile_iff.mp hFile
    rw [u.root] at hb
    cases hb
  · rintro rfl
    rw [List.append_nil, file_of_dir hDir] at hFile
    cases hFile

theorem mem_surplus {u : WorkTree} {e : Path × Path} :
    e ∈ surplus job pl u ↔
      e ∈ walkFiles treeOps u pl.dstBase ∧ isSurplus job (pl.picked job) e.1 = true := by
  rw [surplus, List.mem_filter, mem_sortFiles]

theorem surplus_sorted (job : Job) (pl : Places) (u : WorkTree) :
    (surplus job pl u).Pairwise fun e f => Python.before e.1.text f.1.text = true :=
  (sortFiles_strict (nodup_walkFiles u pl.dstBase) fun _ he => walk_ne_nil he).filter _

theorem nodup_surplus (job : Job) (pl : Places) (u : WorkTree) : (surplus job pl u).Nodup := by
  refine (surplus_sorted job pl u).imp ?_
  rintro e f hBefore rfl
  rw [Python.before_irrefl] at hBefore
  cases hBefore

theorem surplus_congr {u : WorkTree} (h : ∀ e, e ∈ surplus job pl u ↔ e ∈ surplus job pl t) :
    surplus job pl u = surplus job pl t := by
  have hPerm := (List.perm_ext_iff_of_nodup (nodup_surplus job pl u) (nodup_surplus job pl t)).mpr h
  refine hPerm.eq_of_pairwise ?_ (surplus_sorted job pl u) (surplus_sorted job pl t)
  exact fun e f _ _ hBefore hAfter => absurd hAfter (Python.before_asymm hBefore)

theorem picked_isFile (hPlaces : places treeOps job srcDir dstDir t = .ok pl) {e : Path × Path}
    (he : e ∈ pl.picked job) : t.isFile e.2 = true := by
  obtain ⟨hBase, ⟨hFile, -⟩ | ⟨hDir, -⟩⟩ := places_tree hPlaces
  · rw [hBase] at hFile
    rw [((mem_picked_file hPlaces hFile).mp he).1]
    exact hFile
  · rw [hBase] at hDir
    exact ((mem_picked_dir hPlaces hDir).mp he).2.2.2

theorem picked_source_ne_nil (hPlaces : places treeOps job srcDir dstDir t = .ok pl)
    {e : Path × Path} (he : e ∈ pl.picked job) : e.2 ≠ [] := by
  intro hRoot
  have hFile := picked_isFile hPlaces he
  rw [hRoot, file_of_dir (isDir_iff.mpr t.root)] at hFile
  cases hFile

theorem dropLast_append_basename (q : Path) {p : Path} (hp : p ≠ []) :
    (q ++ p.basename).dropLast = q := by
  unfold Path.basename
  rw [List.getLast?_eq_getLast_of_ne_nil hp, Option.toList_some, List.dropLast_concat]

/-- A file that goes into a directory of the destination, where the deletions find it. -/
structure Spilled (job : Job) (pl : Places) (t : WorkTree) (e : Path × Path) : Prop where
  picked : e ∈ pl.picked job
  into : t.isDir (pl.dstBase ++ e.1) = true
  fresh : t.isFile (pl.dstBase ++ (e.1 ++ e.2.basename)) = false
  seen : gitName ∉ e.1
  selected : job.selects (e.1 ++ e.2.basename) = true

theorem Spilled.isSurplus {e : Path × Path} (h : Spilled job pl t e)
    (hPlaces : places treeOps job srcDir dstDir t = .ok pl) :
    isSurplus job (pl.picked job) (e.1 ++ e.2.basename) = true := by
  have hName := basename_ne_nil (picked_source_ne_nil hPlaces h.picked)
  have hLeft : e.1 ++ e.2.basename ∉ (pl.picked job).map Prod.fst := by
    intro hMem
    obtain ⟨f, hf, hEq⟩ := List.mem_map.mp hMem
    have hSame := ((picked_separate hPlaces).1 e h.picked).2 f hf (hEq ▸ List.prefix_append _ _)
    rw [← hSame] at hEq
    exact hName (List.append_right_eq_self.mp hEq.symm)
  simp [GitPathSync.isSurplus, hLeft, h.selected]

theorem mem_surplus_after (hPlaces : places treeOps job srcDir dstDir t = .ok pl)
    (hMid : mid.file = assign t.file (landings t pl (sortFiles (pl.picked job))))
    (hDirs : ∀ q, t.isDir q = true → mid.isDir q = true) {e : Path × Path} :
    e ∈ surplus job pl mid ↔ e ∈ surplus job pl t ∨ ∃ f, Spilled job pl t f ∧
      e = (f.1 ++ f.2.basename, pl.dstBase ++ (f.1 ++ f.2.basename)) := by
  have hFile : ∀ q, mid.isFile q = true ↔ t.isFile q = true ∨
      ∃ f ∈ pl.picked job, t.landing f.2 (pl.dstBase ++ f.1) = q := by
    intro q
    rw [FileTree.isFile, hMid, assign_isSome_iff]
    · simp [landings, FileTree.isFile, mem_sortFiles]
    · intro f hf
      obtain ⟨g, hg, rfl⟩ := List.mem_map.mp hf
      exact picked_isFile hPlaces (mem_sortFiles.mp hg)
  have hBelow : ∀ f ∈ pl.picked job, t.landing f.2 (pl.dstBase ++ f.1) ≠ pl.dstBase := by
    intro f hf hEq
    have hPre : pl.dstBase ++ f.1 <+: t.landing f.2 (pl.dstBase ++ f.1) := landing_prefix
    have hLong := hPre.length_le
    rw [hEq, List.length_append] at hLong
    have hPos := List.length_pos_of_ne_nil ((picked_separate hPlaces).1 f hf).1
    omega
  obtain ⟨rel, ap⟩ := e
  rw [mem_surplus, mem_surplus, mem_walkFiles, mem_walkFiles]
  constructor
  · rintro ⟨⟨hBase, rfl, rfl⟩ | ⟨hBase, hThere, hSeen, rfl⟩, hLeft⟩
    · obtain hOld | ⟨f, hf, hEq⟩ := (hFile _).mp hBase
      · exact .inl ⟨.inl ⟨hOld, rfl, rfl⟩, hLeft⟩
      · exact absurd hEq (hBelow f hf)
    · by_cases hOld : t.isFile (pl.dstBase ++ rel) = true
      · have hRel : rel ≠ [] := by
          rintro rfl
          rw [List.append_nil, file_of_dir hBase] at hThere
          cases hThere
        obtain ⟨b, hb⟩ := isFile_iff.mp hOld
        have hDir := t.dir_of_prefix (p := pl.dstBase) (q := pl.dstBase ++ rel) (by simp [hb])
          (List.prefix_append _ _) (by simp [hRel])
        exact .inl ⟨.inr ⟨isDir_iff.mpr hDir, hOld, hSeen, rfl⟩, hLeft⟩
      · obtain ⟨f, hf, hEq⟩ := ((hFile _).mp hThere).resolve_left hOld
        cases hInto : t.isDir (pl.dstBase ++ f.1) with
        | false =>
          rw [landing_free hInto] at hEq
          obtain rfl := List.append_cancel_left hEq
          have hPicked : f.1 ∈ (pl.picked job).map Prod.fst := List.mem_map_of_mem hf
          simp [GitPathSync.isSurplus, hPicked] at hLeft
        | true =>
          have hName : t.landing f.2 (pl.dstBase ++ f.1) = pl.dstBase ++ (f.1 ++ f.2.basename) :=
            (landing_into hInto).trans (List.append_assoc _ _ _)
          rw [hName] at hEq
          obtain rfl := List.append_cancel_left hEq
          rw [dropLast_append_basename _ (picked_source_ne_nil hPlaces hf)] at hSeen
          exact .inr ⟨f, ⟨hf, hInto, by simpa using hOld, hSeen, (Bool.and_eq_true_iff.mp hLeft).2⟩,
            rfl⟩
  · rintro (⟨⟨hBase, rfl, rfl⟩ | ⟨hBase, hThere, hSeen, rfl⟩, hLeft⟩ | ⟨f, hSpilled, hEq⟩)
    · exact ⟨.inl ⟨(hFile _).mpr (.inl hBase), rfl, rfl⟩, hLeft⟩
    · exact ⟨.inr ⟨hDirs _ hBase, (hFile _).mpr (.inl hThere), hSeen, rfl⟩, hLeft⟩
    · obtain ⟨rfl, rfl⟩ := Prod.mk.inj hEq
      have hLand : t.landing f.2 (pl.dstBase ++ f.1) = pl.dstBase ++ (f.1 ++ f.2.basename) :=
        (landing_into hSpilled.into).trans (List.append_assoc _ _ _)
      have hDst : t.isDir pl.dstBase = true := t.isDir_of_prefix hSpilled.into (List.prefix_append _ _)
      refine ⟨.inr ⟨hDirs _ hDst, (hFile _).mpr (.inr ⟨f, hSpilled.picked, hLand⟩), ?_, rfl⟩,
        hSpilled.isSurplus hPlaces⟩
      rw [dropLast_append_basename _ (picked_source_ne_nil hPlaces hSpilled.picked)]
      exact hSpilled.seen

/-- Nothing more is surplus after the loop exactly if nothing was spilled. -/
theorem surplus_length_iff (hPlaces : places treeOps job srcDir dstDir t = .ok pl)
    (hMid : mid.file = assign t.file (landings t pl (sortFiles (pl.picked job))))
    (hDirs : ∀ q, t.isDir q = true → mid.isDir q = true) :
    ((surplus job pl mid).length = (surplus job pl t).length ↔ ∀ e, ¬Spilled job pl t e) ∧
      ((∀ e, ¬Spilled job pl t e) → surplus job pl mid = surplus job pl t) := by
  have hAfter := @mem_surplus_after job srcDir dstDir pl t mid hPlaces hMid hDirs
  have hKept : (∀ e, ¬Spilled job pl t e) → surplus job pl mid = surplus job pl t := by
    intro hNone
    refine surplus_congr fun e => hAfter.trans (or_iff_left ?_)
    rintro ⟨f, hSpilled, -⟩
    exact hNone f hSpilled
  refine ⟨⟨fun hLength e hSpilled => ?_, fun hNone => congrArg _ (hKept hNone)⟩, hKept⟩
  have hSub : surplus job pl t ⊆ surplus job pl mid := fun f hf => hAfter.mpr (.inl hf)
  have hPerm := (List.subperm_of_subset (nodup_surplus job pl t) hSub).perm_of_length_le (le_of_eq hLength)
  have hOld := hPerm.mem_iff.mpr (hAfter.mpr (.inr ⟨e, hSpilled, rfl⟩))
  obtain ⟨hInto, -⟩ | ⟨-, hThere, -⟩ := mem_walkFiles.mp (mem_surplus.mp hOld).1
  · rw [file_of_dir (t.isDir_of_prefix hSpilled.into (List.prefix_append _ _))] at hInto
    cases hInto
  · rw [hSpilled.fresh] at hThere
    cases hThere

end Deletions

/-! ## The reflection -/

def begun (job : Job) (pl : Places) (t : WorkTree) : Progress WorkTree where
  fs := t
  counters :=
    ⟨(pl.picked job).length, 0, 0, 0, 0, pl.srcFiles.length - (pl.picked job).length⟩
  changedFiles := []

def deletions (job : Job) (pl : Places) (u : WorkTree) : List (Path × Path) :=
  if job.mode ≠ .copy ∧ pl.srcIsFile = false then surplus job pl u else []

/-- The end of a reflection after the loop. -/
structure Ended (job : Job) (pl : Places) (mid st : Progress WorkTree) : Prop where
  counters : st.counters = { mid.counters with
    deleted := mid.counters.deleted + (deletions job pl mid.fs).length }
  changedFiles : st.changedFiles = mid.changedFiles ++
    (deletions job pl mid.fs).map fun e => ['-', ' '] ++ listed pl e
  tree : job.dryRun = true ∨ pl.srcIsFile = true → st.fs = mid.fs

theorem reflect_ok_iff {maxFiles : Nat} {job : Job} {pl : Places} {t : WorkTree}
    {st : Progress WorkTree} :
    reflect treeOps maxFiles job pl t = .ok st ↔ (pl.picked job).length ≤ maxFiles ∧
      ∃ mid, reflectFiles treeOps job pl (begun job pl t) (sortFiles (pl.picked job)) = .ok mid ∧
        st = if job.mode ≠ .copy ∧ pl.srcIsFile = false then
          removeSurplus treeOps job pl (pl.picked job) mid else mid := by
  unfold reflect
  dsimp only
  constructor
  · intro h
    split at h
    · cases h
    next hLength =>
    split at h
    · cases h
    next mid hLoop =>
    cases h
    exact ⟨by omega, mid, hLoop, rfl⟩
  · rintro ⟨hLength, mid, hLoop, rfl⟩
    rw [if_neg (by omega)]
    unfold begun at hLoop
    simp only [hLoop]

theorem ended (job : Job) (pl : Places) (mid : Progress WorkTree) :
    Ended job pl mid (if job.mode ≠ .copy ∧ pl.srcIsFile = false then
      removeSurplus treeOps job pl (pl.picked job) mid else mid) := by
  obtain ⟨hCounters, hList⟩ := foldl_removeFile_account job pl (pl.picked job)
    (sortFiles (walkFiles treeOps mid.fs pl.dstBase)) mid
  split
  · next hDelete =>
    have hFiles : deletions job pl mid.fs = surplus job pl mid.fs := if_pos hDelete
    constructor
    · rw [hFiles]
      exact hCounters
    · rw [hFiles]
      exact hList
    · rintro (hDry | hFile)
      · exact removeSurplus_dry hDry pl (pl.picked job) mid
      · rw [hDelete.2] at hFile
        cases hFile
  · next hKeep =>
    have hFiles : deletions job pl mid.fs = [] := if_neg hKeep
    refine ⟨?_, ?_, fun _ => rfl⟩
    · rw [hFiles]
      rfl
    · simp [hFiles]

section Reflection

variable {maxFiles : Nat} {job : Job} {srcDir dstDir : Path} {pl : Places} {t : WorkTree}
  {st sd : Progress WorkTree}

theorem begun_beside (hPlaces : places treeOps job srcDir dstDir t = .ok pl) :
    Beside t pl [] (sortFiles (pl.picked job)) (begun job pl t) (begun job pl t) := by
  constructor
  · rfl
  · rfl
  · exact fun e _ => .refl t _
  · exact fun e he => picked_isFile hPlaces (mem_sortFiles.mp he)

theorem sorted_apart (hPlaces : places treeOps job srcDir dstDir t = .ok pl) :
    Separate (sortFiles (pl.picked job)) ∧ Incomparable (sortFiles (pl.picked job)) ∧
      ((sortFiles (pl.picked job)).map (listed pl)).Nodup := by
  obtain ⟨hSep, hNodup⟩ := picked_separate hPlaces
  have hSorted : Separate (sortFiles (pl.picked job)) := by
    intro e he
    obtain ⟨hRel, hAlone⟩ := hSep e (mem_sortFiles.mp he)
    exact ⟨hRel, fun f hf => hAlone f (mem_sortFiles.mp hf)⟩
  have hNodup := ((sortFiles_perm (pl.picked job)).map Prod.fst).nodup_iff.mpr hNodup
  refine ⟨hSorted, incomparable_of_separate hSorted hNodup, ?_⟩
  refine (List.nodup_map_iff_inj_on (List.Nodup.of_map _ hNodup)).mpr fun e he f hf hEq => ?_
  have hPath : pl.dstScopeRel ++ e.1 = pl.dstScopeRel ++ f.1 :=
    text_injective (by simp [(hSorted e he).1]) (by simp [(hSorted f hf).1]) hEq
  exact List.inj_on_of_nodup_map hNodup he hf (List.append_cancel_left hPath)

/-- The condition under which the dry run is right about the reflection. -/
structure Foreseen (job : Job) (pl : Places) (t : WorkTree) : Prop where
  steady : Steady t pl [] (sortFiles (pl.picked job))
  spared : job.mode ≠ .copy → pl.srcIsFile = false → ∀ e, ¬Spilled job pl t e

theorem Ended.sameAccount {mid mid' : Progress WorkTree} (hReal : Ended job.real pl mid st)
    (hDry : Ended job.dry pl mid' sd) (hMid : SameAccount mid mid')
    (hFiles : deletions job pl mid.fs = deletions job pl mid'.fs) : SameAccount st sd := by
  have hFiles : deletions job.real pl mid.fs = deletions job.dry pl mid'.fs := hFiles
  constructor
  · rw [hReal.counters, hDry.counters, hMid.counters, hFiles]
  · rw [hReal.changedFiles, hDry.changedFiles, hMid.changedFiles, hFiles]

theorem reflect_agrees_iff (hPlaces : places treeOps job srcDir dstDir t = .ok pl)
    (hDry : reflect treeOps maxFiles job.dry pl t = .ok sd) :
    (∃ st, reflect treeOps maxFiles job.real pl t = .ok st ∧ SameAccount st sd) ↔
      Foreseen job pl t := by
  obtain ⟨hSep, hApart, hTexts⟩ := sorted_apart hPlaces
  have hRel : ∀ e ∈ sortFiles (pl.picked job), e.1 ≠ [] := fun e he => (hSep e he).1
  obtain ⟨hLength, mid', hLoopDry, hEndDry⟩ := reflect_ok_iff.mp hDry
  have hTree : mid'.fs = t := by
    obtain ⟨sd', hLoop, hTree⟩ := reflectFiles_dry (F := treeOps) (show job.dry.dryRun = true from rfl) pl
      (sortFiles (pl.picked job)) (begun job pl t)
    obtain rfl := Except.ok.inj (hLoop.symm.trans hLoopDry)
    exact hTree
  have hEnded := ended job.dry pl mid'
  -- what the real loop leaves
  have hAfter : ∀ {mid : Progress WorkTree}, reflectFiles treeOps job.real pl (begun job pl t)
        (sortFiles (pl.picked job)) = .ok mid →
      ((surplus job pl mid.fs).length = (surplus job pl t).length ↔ ∀ e, ¬Spilled job pl t e) ∧
        ((∀ e, ¬Spilled job pl t e) → surplus job pl mid.fs = surplus job pl t) := by
    intro mid hLoop
    obtain ⟨hFile, hDirs⟩ := reflectFiles_assign rfl hSep hLoop
    exact surplus_length_iff hPlaces hFile hDirs
  constructor
  · rintro ⟨st, hReal, hCounters, hList⟩
    obtain ⟨-, mid, hLoop, hEnd⟩ := reflect_ok_iff.mp hReal
    have hEndedReal := ended job.real pl mid
    rw [hEnd, hEndDry] at hCounters hList
    rw [hEndedReal.counters, hEnded.counters, Counters.mk.injEq] at hCounters
    rw [hEndedReal.changedFiles, hEnded.changedFiles] at hList
    obtain ⟨l, hMid, -, hCount, hDeleted⟩ := reflectFiles_changed hLoop
    obtain ⟨l', hMid', -, hCount', hDeleted'⟩ := reflectFiles_changed hLoopDry
    obtain ⟨-, hAdded, hUpdated, -, hGone, -⟩ := hCounters
    have hSame : mid.changedFiles = mid'.changedFiles := by
      have hLengths : mid.changedFiles.length = mid'.changedFiles.length := by
        rw [hMid, hMid', List.length_append, List.length_append]
        simp only [begun, List.length_nil] at hCount hCount' ⊢
        omega
      exact (List.append_inj hList hLengths).1
    refine ⟨steady_of_reflectFiles hLoop hLoopDry hSame rfl (begun_beside hPlaces) hApart hRel hTexts,
      fun hMode hKind => ?_⟩
    have hAll : ∀ u, deletions job pl u = surplus job pl u := fun u => if_pos ⟨hMode, hKind⟩
    refine (hAfter hLoop).1.mp ?_
    rw [← hAll, ← hAll, ← hTree]
    simp only [begun] at hDeleted hDeleted'
    rw [hDeleted, hDeleted', Nat.zero_add, Nat.zero_add] at hGone
    exact hGone
  · intro hForeseen
    obtain ⟨mid, mid'', hLoop, hLoopDry', -, hSame⟩ :=
      @reflectFiles_of_steady job pl t _ _ _ _ hForeseen.steady (begun_beside hPlaces) hApart hRel
        ⟨rfl, rfl⟩
    obtain rfl := Except.ok.inj (hLoopDry'.symm.trans hLoopDry)
    refine ⟨_, reflect_ok_iff.mpr ⟨hLength, mid, hLoop, rfl⟩, ?_⟩
    rw [hEndDry]
    refine (ended job.real pl mid).sameAccount hEnded hSame ?_
    unfold deletions
    split
    · next hDelete =>
      rw [hTree]
      exact (hAfter hLoop).2 (hForeseen.spared hDelete.1 hDelete.2)
    · rfl

theorem compared_of_apart (hPlaces : places treeOps job srcDir dstDir t = .ok pl)
    (hApart : Apart job srcDir dstDir) {early late : List (Path × Path)} {e : Path × Path}
    (hSplit : sortFiles (pl.picked job) = early ++ e :: late) :
    alike (assign t.file (landings t pl early)) e.2 (pl.dstBase ++ e.1) =
      alike t.file e.2 (pl.dstBase ++ e.1) := by
  have hSorted := (sorted_apart hPlaces).2.1
  rw [hSplit, Incomparable, List.pairwise_append] at hSorted
  have hBelow : ∀ f ∈ early ++ e :: late, srcDir ++ job.source.path <+: f.2 ∧
      dstDir ++ job.dest.path <+: t.landing f.2 (pl.dstBase ++ f.1) := by
    intro f hf
    rw [← hSplit, mem_sortFiles] at hf
    exact landing_below hPlaces (List.mem_map_of_mem hf)
  have hKept : ∀ q, (∀ f ∈ early, t.landing f.2 (pl.dstBase ++ f.1) ≠ q) →
      assign t.file (landings t pl early) q = t.file q := by
    intro q hq
    refine assign_of_not_mem t.file fun x hx => ?_
    obtain ⟨f, hf, rfl⟩ := List.mem_map.mp hx
    exact hq f hf
  have hSource : assign t.file (landings t pl early) e.2 = t.file e.2 := by
    refine hKept _ fun f hf hEq => ?_
    exact hApart.ne (hBelow e (by simp)).1 (hBelow f (by simp [hf])).2 hEq.symm
  have hTarget : assign t.file (landings t pl early) (pl.dstBase ++ e.1) =
      t.file (pl.dstBase ++ e.1) := by
    refine hKept _ fun f hf hEq => ?_
    have hPre : pl.dstBase ++ f.1 <+: t.landing f.2 (pl.dstBase ++ f.1) := landing_prefix
    rw [hEq, List.prefix_append_right_inj] at hPre
    exact (hSorted.2.2 f hf e List.mem_cons_self).1 hPre
  unfold alike
  rw [hSource, hTarget]

theorem foreseen_of_apart (hPlaces : places treeOps job srcDir dstDir t = .ok pl)
    (hApart : Apart job srcDir dstDir) :
    Foreseen job pl t ↔
      (∀ e ∈ pl.picked job, alike t.file e.2 (pl.dstBase ++ e.1) = false →
        Writable t e.2 (pl.dstBase ++ e.1)) ∧
      (job.mode ≠ .copy → pl.srcIsFile = false → ∀ e, ¬Spilled job pl t e) := by
  constructor
  · rintro ⟨⟨-, hWritable⟩, hSpared⟩
    exact ⟨fun e he => hWritable e (mem_sortFiles.mpr he), hSpared⟩
  · rintro ⟨hWritable, hSpared⟩
    refine ⟨⟨fun early e late hSplit => ?_, fun e he => hWritable e (mem_sortFiles.mp he)⟩, hSpared⟩
    exact compared_of_apart hPlaces hApart hSplit

theorem exists_removeSource (hPlaces : places treeOps job srcDir dstDir t = .ok pl)
    (hReal : reflect treeOps maxFiles job.real pl t = .ok st) :
    ∃ u, removeSource treeOps pl st.fs = .ok u := by
  unfold removeSource
  cases hKind : pl.srcIsFile with
  | false => exact ⟨_, rfl⟩
  | true =>
    obtain ⟨-, mid, hLoop, rfl⟩ := reflect_ok_iff.mp hReal
    have hEnded := ended job.real pl mid
    obtain ⟨hFile, -⟩ := reflectFiles_assign rfl (sorted_apart hPlaces).1 hLoop
    have hSource : t.isFile pl.srcBase = true := by
      obtain ⟨-, ⟨hSource, -⟩ | ⟨-, hDir, -⟩⟩ := places_tree hPlaces
      · exact hSource
      · rw [hKind] at hDir
        cases hDir
    have hStill : mid.fs.isFile pl.srcBase = true := by
      rw [FileTree.isFile, hFile, assign_isSome_iff]
      · exact .inl hSource
      · intro f hf
        obtain ⟨g, hg, rfl⟩ := List.mem_map.mp hf
        exact picked_isFile hPlaces (mem_sortFiles.mp hg)
    rw [← hEnded.tree (.inr hKind)] at hStill
    obtain ⟨u, hRemove⟩ := exists_remove hStill
    exact ⟨u, (if_pos rfl).trans (congrArg (raising "OSError") hRemove)⟩

end Reflection

/-! ## The worker -/

/-- The work of the job up to the end of the deletions, with the whole of `changed_files`. -/
def reflection (env : Env) (lower : Text → Text) (maxFiles : Nat) (world : Text → Option Remote)
    (job : Job) : Option (Progress WorkTree) :=
  match prepare env lower world job with
  | .error _ => none
  | .ok prep =>
    match places treeOps job sourceDir prep.dstDir prep.tree with
    | .error _ => none
    | .ok pl => (reflect treeOps maxFiles job pl prep.tree).toOption

/-- The dry run of a job tells what its real run does. -/
structure Predicted (env : Env) (lower : Text → Text) (maxFiles : Nat)
    (world : Text → Option Remote) (job : Job) : Prop where
  succeeds : (syncWorker env lower maxFiles world job.real).state = .succeeded
  counters : (syncWorker env lower maxFiles world job.real).counters =
    (syncWorker env lower maxFiles world job.dry).counters
  changedFiles : (reflection env lower maxFiles world job.real).map Progress.changedFiles =
    (reflection env lower maxFiles world job.dry).map Progress.changedFiles
  -- the list in the job record, which is cut off
  reported : (syncWorker env lower maxFiles world job.real).changedFiles =
    (syncWorker env lower maxFiles world job.dry).changedFiles
  pushes : (syncWorker env lower maxFiles world job.dry).pushes = []
  trees : (reflection env lower maxFiles world job.dry).map Progress.fs =
    (prepare env lower world job).toOption.map Prepared.tree

section Worker

variable {env : Env} {lower : Text → Text} {maxFiles : Nat} {world : Text → Option Remote}
  {payload : PathSyncJobCreate} {job : Job} {prep : Prepared} {pl : Places}
  {st : Progress WorkTree}

theorem commitAndPush_accepted {role : Role} {url : Text} {clone : Clone} {message : String}
    {work : WorkTree} (h : env.push role = .accepted) :
    ∃ any, (commitAndPush env role url clone message work).2 = .ok any := by
  unfold commitAndPush
  rw [h]
  dsimp only
  split
  · exact ⟨_, rfl⟩
  · exact ⟨_, rfl⟩

theorem publish_account : (publish env job prep pl st).counters = st.counters ∧
    (publish env job prep pl st).changedFiles = st.changedFiles.take 500 := by
  unfold publish
  dsimp only
  split
  · exact ⟨rfl, rfl⟩
  split
  · exact ⟨rfl, rfl⟩
  split
  · exact ⟨rfl, rfl⟩
  split
  · exact ⟨rfl, rfl⟩
  split
  · split
    · exact ⟨rfl, rfl⟩
    · exact ⟨rfl, rfl⟩
  · exact ⟨rfl, rfl⟩

theorem publish_succeeds (hPush : ∀ role, env.push role = .accepted)
    (hCancel : ∀ c, env.cancelled c = false) (hMove : job.mode = .move → job.source.path ≠ [])
    (hRemove : ∃ u, removeSource treeOps pl st.fs = .ok u) :
    (publish env job prep pl st).state = .succeeded := by
  obtain ⟨u, hRemove⟩ := hRemove
  have hTake : takeSource env pl st.fs = .ok u := by
    unfold takeSource
    rw [hCancel, hRemove]
    rfl
  obtain ⟨v, hStaged, hKept⟩ : ∃ v, staged env job prep pl st.fs = .ok v ∧
      (prep.oneTree = false → v = st.fs) := by
    unfold staged
    split
    · next hOne => exact ⟨u, hTake, fun hTwo => by simp [hOne.2] at hTwo⟩
    · exact ⟨_, rfl, fun _ => rfl⟩
  unfold publish
  dsimp only
  rw [if_neg fun h => hMove h.1 h.2, hStaged]
  dsimp only
  rw [if_neg (by simp [hCancel])]
  obtain ⟨any, hAny⟩ := @commitAndPush_accepted env .dest job.dest.url prep.dst job.commitMessage
    (v.subtree prep.dstDir) (hPush .dest)
  split
  · next hFailed =>
    rw [hFailed] at hAny
    cases hAny
  · split
    · next hTwo =>
      obtain rfl := hKept hTwo.2
      obtain ⟨other, hOther⟩ := @commitAndPush_accepted env .source job.source.url prep.src
        job.removalMessage (u.subtree sourceDir) (hPush .source)
      unfold pushRemoval
      rw [hTake]
      dsimp only
      split
      · next hFailed =>
        rw [hFailed] at hOther
        cases hOther
      · rfl
    · rfl

theorem syncWorker_reflected (hPrep : prepare env lower world job = .ok prep)
    (hPlaces : places treeOps job sourceDir prep.dstDir prep.tree = .ok pl)
    (hCancel : env.cancelled .reflect = false)
    (hRun : reflect treeOps maxFiles job pl prep.tree = .ok st) :
    reflection env lower maxFiles world job = some st ∧
      (syncWorker env lower maxFiles world job).counters = st.counters ∧
      (syncWorker env lower maxFiles world job).changedFiles = st.changedFiles.take 500 ∧
      (job.dryRun = true → (syncWorker env lower maxFiles world job).pushes = []) ∧
      (job.dryRun = false → syncWorker env lower maxFiles world job = publish env job prep pl st) := by
  have hReflection : reflection env lower maxFiles world job = some st := by
    unfold reflection
    simp only [hPrep, hPlaces, hRun, Except.toOption]
  refine ⟨hReflection, ?_⟩
  unfold syncWorker
  simp only [hPrep, hPlaces, hCancel, Bool.false_eq_true, false_and, if_false, hRun]
  cases job.dryRun with
  | true => exact ⟨rfl, rfl, fun _ => rfl, by simp⟩
  | false => exact ⟨publish_account.1, publish_account.2, by simp, fun _ => rfl⟩

theorem reflect_of_succeeded (hPrep : prepare env lower world job = .ok prep)
    (hPlaces : places treeOps job sourceDir prep.dstDir prep.tree = .ok pl)
    (h : (syncWorker env lower maxFiles world job).state = .succeeded) :
    ∃ st, reflect treeOps maxFiles job pl prep.tree = .ok st := by
  unfold syncWorker at h
  simp only [hPrep, hPlaces] at h
  split at h
  · cases h
  · split at h
    · cases h
    next st hRun => exact ⟨st, hRun⟩

/-- A dry run that succeeds is right exactly if no copy fails, changes what a later file is
compared with, or leaves a file for the deletions. -/
theorem predicted_iff (hJob : createJob lower payload = .ok job)
    (hPush : ∀ role, env.push role = .accepted) (hCancel : ∀ c, env.cancelled c = false)
    (hPrep : prepare env lower world job = .ok prep)
    (hPlaces : places treeOps job sourceDir prep.dstDir prep.tree = .ok pl)
    (hDry : (syncWorker env lower maxFiles world job.dry).state = .succeeded) :
    Predicted env lower maxFiles world job ↔ Foreseen job pl prep.tree := by
  have hPrepDry : prepare env lower world job.dry = .ok prep := hPrep
  have hPrepReal : prepare env lower world job.real = .ok prep := hPrep
  have hPlacesDry : places treeOps job.dry sourceDir prep.dstDir prep.tree = .ok pl := hPlaces
  have hPlacesReal : places treeOps job.real sourceDir prep.dstDir prep.tree = .ok pl := hPlaces
  obtain ⟨sd, hRunDry⟩ := reflect_of_succeeded hPrepDry hPlacesDry hDry
  obtain ⟨hReflected, hCounters, hList, hPushes, -⟩ :=
    syncWorker_reflected hPrepDry hPlacesDry (hCancel .reflect) hRunDry
  rw [← reflect_agrees_iff hPlaces hRunDry]
  constructor
  · intro hPredicted
    obtain ⟨st, hRun⟩ := reflect_of_succeeded hPrepReal hPlacesReal hPredicted.succeeds
    obtain ⟨hReflected', hCounters', -⟩ :=
      syncWorker_reflected hPrepReal hPlacesReal (hCancel .reflect) hRun
    refine ⟨st, hRun, ?_, ?_⟩
    · rw [← hCounters', ← hCounters]
      exact hPredicted.counters
    · have hLists := hPredicted.changedFiles
      rw [hReflected', hReflected] at hLists
      exact Option.some.inj hLists
  · rintro ⟨st, hRun, hSameCounters, hSameList⟩
    obtain ⟨hReflected', hCounters', hList', -, hPublish⟩ :=
      syncWorker_reflected hPrepReal hPlacesReal (hCancel .reflect) hRun
    constructor
    · rw [hPublish rfl]
      exact publish_succeeds hPush hCancel (createJob_ok hJob).move (exists_removeSource hPlaces hRun)
    · rw [hCounters', hCounters, hSameCounters]
    · rw [hReflected', hReflected, Option.map_some, Option.map_some, hSameList]
    · rw [hList', hList, hSameList]
    · exact hPushes rfl
    · rw [hReflected, hPrep]
      obtain ⟨-, mid, hLoop, rfl⟩ := reflect_ok_iff.mp hRunDry
      obtain ⟨sd, hLoop', hTree⟩ :=
        reflectFiles_dry (F := treeOps) (show job.dry.dryRun = true from rfl) pl (sortFiles (pl.picked job))
          (begun job pl prep.tree)
      obtain rfl := Except.ok.inj (hLoop'.symm.trans hLoop)
      exact congrArg some (((ended job.dry pl sd).tree (.inl rfl)).trans hTree)

end Worker

theorem filter_places : ∃ prep pl, prepare fairEnv id filterWorld filterJob = .ok prep ∧
    places treeOps filterJob sourceDir prep.dstDir prep.tree = .ok pl ∧ prep.dstDir = destDir ∧
    (∀ e ∈ pl.picked filterJob, prep.tree.isDir (pl.dstBase ++ e.1) = false) ∧
    ∀ e ∈ pl.picked filterJob, ∀ q ∈ (pl.dstBase ++ e.1).dropLast.inits,
      prep.tree.isFile q = false := by
  refine ⟨_, _, rfl, rfl, rfl, by decide, by decide⟩

/-- The move of `x` into an empty repository. -/
theorem filter_predicted : Predicted fairEnv id 10 filterWorld filterJob := by
  obtain ⟨prep, pl, hPrep, hPlaces, hTwo, hFree, hAbove⟩ := filter_places
  have hJob : createJob id filterPayload = .ok filterJob := rfl
  have hDry : (syncWorker fairEnv id 10 filterWorld filterJob.dry).state = .succeeded := by decide
  refine (predicted_iff hJob (fun _ => rfl) (fun _ => rfl) hPrep hPlaces hDry).mpr ?_
  rw [hTwo] at hPlaces
  refine (foreseen_of_apart hPlaces (apart_clones filterJob)).mpr ⟨fun e he _ => ?_, ?_⟩
  · refine ⟨fun q hq => hAbove e he q ((List.mem_inits q _).mpr hq), fun hDir => ?_⟩
    rw [hFree e he] at hDir
    cases hDir
  · intro _ _ e hSpilled
    have hDir := hSpilled.into
    rw [hFree e hSpilled.picked] at hDir
    cases hDir

/-! ## A file where a directory is needed -/

/-- A copy of a whole repository into another one. -/
def blockedPayload : PathSyncJobCreate where
  source := ⟨some .github, ['h'], ['o'], ['r'], [], []⟩
  dest := ⟨some .github, ['h'], ['o'], ['s'], [], []⟩
  mode := some .copy
  includes := []
  excludes := []
  message := []
  dryRun := true
  allowRepoRoot := false

def blockedJob : Job where
  source := ⟨.github, ['h'], ['o'], ['r'], [], []⟩
  dest := ⟨.github, ['h'], ['o'], ['s'], [], []⟩
  mode := .copy
  includes := []
  excludes := []
  message := []
  dryRun := true

/-- The source has the file `a/b`, the destination the file `a`. -/
def blockedWorld (url : Text) : Option Remote :=
  let one (p : Path) (x : Name) (b : UInt8) (branch : Text) : Option WorkTree :=
    if branch = mainBranch then some (FileTree.empty.withFile p x [b]) else none
  if url = blockedJob.source.url then
    some (.withoutTags mainBranch (one [letter 'a'] (letter 'b') 1) mainBranch_ne_nil)
  else if url = blockedJob.dest.url then
    some (.withoutTags mainBranch (one [] (letter 'a') 2) mainBranch_ne_nil)
  else none

/-- The dry run counts one new file, and the real run cannot make the directory `a`. -/
theorem dry_run_misleads :
    createJob id blockedPayload = .ok blockedJob ∧
      (∀ role, fairEnv.push role = .accepted) ∧ (∀ c, fairEnv.cancelled c = false) ∧
      (syncWorker fairEnv id 10 blockedWorld blockedJob.dry).state = .succeeded ∧
      ¬Predicted fairEnv id 10 blockedWorld blockedJob := by
  refine ⟨rfl, fun _ => rfl, fun _ => rfl, by decide, fun hPredicted => ?_⟩
  exact absurd hPredicted.succeeds (by decide)

end OpenSpoke.GitPathSync
