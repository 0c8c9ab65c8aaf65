import OpenSpoke.GitPathSync.Links

/-!
# What links can reach

A job touches nothing outside of its clones as long as no link on its ways leads
out. The links of the clones stay as they are until the deletions, so where a
way leads is settled before the job.
-/

namespace OpenSpoke.GitPathSync

open FileTree
open Python (Text)

/-- In the clone, and not in its `.git`. -/
def Inside (dir r : Path) : Prop := ∃ p, r = dir ++ p ∧ ¬[gitName] <+: p

/-- The access is one that the job may do. -/
def Access.Allowed (job : Job) (srcDir dstDir : Path) : Access → Prop
  | .read r => Inside srcDir r
  | .write r => Inside dstDir r
  | .delete r => Inside dstDir r ∨ job.mode = .move ∧ Inside srcDir r

/-- No link is on the way, or the way leads inside. -/
def Stays (links : Path → Option (Link Name)) (dir p : Path) : Prop :=
  ∀ r, real links p = some r → r = p ∨ Inside dir r

/-- A clone: git keeps its own directory at the root and takes no other `.git`. -/
structure Cloned (t : LinkedTree) (dir : Path) : Prop where
  gitDir : t.node (dir ++ [gitName]) = some .dir
  clean : ∀ p, t.node (dir ++ p) ≠ none → gitName ∈ p → [gitName] <+: p

/-- No link on a way of the job leads out. -/
structure LinksStay (job : Job) (srcDir dstDir : Path) (pl : Places)
    (links : Path → Option (Link Name)) : Prop where
  base : Stays links srcDir pl.srcBase
  read : ∀ e ∈ pl.picked job, Stays links srcDir e.2
  write : ∀ e ∈ pl.picked job, Stays links dstDir (pl.dstBase ++ e.1) ∧
    Stays links dstDir (pl.dstBase ++ e.1 ++ e.2.basename)
  delete : job.mode ≠ .copy → pl.srcIsFile = false →
    Stays links dstDir pl.dstBase ∧ Stays links dstDir pl.dstBase.dropLast
  source : job.mode = .move → Stays links srcDir pl.srcBase.dropLast

theorem inside_of_clean {dir p : Path} (h : gitName ∉ p) : Inside dir (dir ++ p) :=
  ⟨p, rfl, fun hPre => h (hPre.subset List.mem_cons_self)⟩

theorem git_prefix_append {p q : Path} (h : [gitName] <+: p ++ q) (hp : p ≠ []) :
    [gitName] <+: p := by
  cases p with
  | nil => exact absurd rfl hp
  | cons x p =>
    obtain ⟨r, hr⟩ := h
    obtain ⟨rfl, -⟩ := List.cons.inj hr
    exact ⟨p, rfl⟩

section Resolve

variable {t : LinkedTree} {links : Path → Option (Link Name)} {dir : Path}

theorem Stays.inside {p r : Path} (hStay : Stays links dir (dir ++ p)) (hClean : gitName ∉ p)
    (hReal : real links (dir ++ p) = some r) : Inside dir r := by
  rcases hStay r hReal with rfl | hIn
  · exact inside_of_clean hClean
  · exact hIn

theorem real_of_dir {p r : Path} (hAgree : t.Agrees links) (hDir : t.isDir r = true)
    (h : t.locate p = some r) : real links p = some r :=
  real_of_locate hAgree (hAgree r (by simp [isDir_iff.mp hDir])) h

theorem spot_inside {p r : Path} {x : Name} (hAgree : t.Agrees links)
    (hStay : Stays links dir (dir ++ p)) (hClean : gitName ∉ p ++ [x])
    (hSpot : t.spot (dir ++ (p ++ [x])) = some r) : ∃ q, r = dir ++ q ∧ q ≠ [] ∧ ¬[gitName] <+: q := by
  unfold spot at hSpot
  split at hSpot
  · next y mid hLast hMid =>
    split at hSpot
    · next hDir =>
      cases hSpot
      rw [← List.append_assoc, List.dropLast_concat] at hMid
      obtain rfl : x = y := by simpa [← List.append_assoc] using hLast
      obtain ⟨q, rfl, hq⟩ := hStay.inside (fun h => hClean (List.mem_append_left _ h))
        (real_of_dir hAgree hDir hMid)
      refine ⟨q ++ [x], by rw [List.append_assoc], by simp, fun hPre => ?_⟩
      by_cases hNil : q = []
      · subst hNil
        obtain ⟨s, hs⟩ := hPre
        obtain ⟨rfl, -⟩ := List.cons.inj hs
        exact hClean (by simp)
      · exact hq (git_prefix_append hPre hNil)
    · cases hSpot
  · cases hSpot

end Resolve

section Picked

variable {lower : Text → Text} {job : Job} {srcDir dstDir : Path} {pl : Places} {s : Linked}

theorem isFile_of_dir {t : LinkedTree} {log : List Access} {p : Path} (h : t.node p = some .dir) :
    Linked.isFile ⟨t, log⟩ p = false := by
  simp [Linked.isFile, locate_dir h, bytesAt, file_eq_none_of_dir h]

theorem Cloned.root {t : LinkedTree} {dir : Path} (h : Cloned t dir) : t.node dir = some .dir :=
  t.dir_of_prefix (q := dir ++ [gitName]) (by simp [h.gitDir]) (List.prefix_append _ _) (by simp)

theorem mem_walkFiles_dir {base rel ap : Path} (hNoFile : linkOps.isFile s base = false)
    (h : (rel, ap) ∈ walkFiles linkOps s base) :
    ∃ r, s.tree.locate base = some r ∧ s.tree.isDir r = true ∧ s.tree.isFile (r ++ rel) = true ∧
      gitName ∉ rel.dropLast ∧ rel ≠ [] ∧ ap = base ++ rel := by
  unfold walkFiles at h
  rw [hNoFile] at h
  simp only [Bool.false_eq_true, if_false] at h
  split at h
  · next hDir =>
    obtain ⟨rel', hMem, hEq⟩ := List.mem_map.mp h
    cases hEq
    have hDir : s.isDir base = true := hDir
    have hMem : rel ∈ s.walk base (fun n => n = gitName) := hMem
    unfold Linked.isDir at hDir
    unfold Linked.walk at hMem
    cases hr : s.tree.locate base with
    | none => simp [hr] at hDir
    | some r =>
      simp only [hr, Option.any_some] at hDir hMem
      obtain ⟨hFile, hGit⟩ := mem_walk.mp (List.mem_of_mem_filter hMem)
      refine ⟨r, rfl, hDir, hFile, fun hIn => ?_, ?_, rfl⟩
      · simpa using hGit gitName hIn
      · rintro rfl
        obtain ⟨b, hb⟩ := isFile_iff.mp hFile
        rw [List.append_nil, isDir_iff.mp hDir] at hb
        cases hb
  · simp at h

/-- A way below a clone without `.git` in it. -/
def Clean (dir p : Path) : Prop := ∃ q, p = dir ++ q ∧ gitName ∉ q

theorem Stays.inside' {links : Path → Option (Link Name)} {dir p r : Path}
    (hStay : Stays links dir p) (hClean : Clean dir p) (hReal : real links p = some r) :
    Inside dir r := by
  obtain ⟨q, rfl, hq⟩ := hClean
  exact hStay.inside hq hReal

theorem rel_clean {rel r : Path} (hClone : Cloned s.tree srcDir) (hIn : Inside srcDir r)
    (hFile : s.tree.isFile (r ++ rel) = true) (hRel : gitName ∉ rel.dropLast) : gitName ∉ rel := by
  obtain ⟨p, rfl, hp⟩ := hIn
  obtain ⟨b, hb⟩ := isFile_iff.mp hFile
  intro hMem
  rw [List.append_assoc] at hb
  have hPre := hClone.clean (p ++ rel) (by simp [hb]) (List.mem_append_right _ hMem)
  by_cases hNil : p = []
  · subst hNil
    rw [List.nil_append] at hPre
    cases rel using List.reverseRecOn with
    | nil => cases hMem
    | append_singleton rel x =>
      rw [List.dropLast_concat] at hRel
      obtain rfl : x = gitName := by
        simpa [hRel, eq_comm] using hMem
      have hRoot : rel = [] := by
        by_contra hne
        exact hRel ((git_prefix_append hPre hne).subset List.mem_cons_self)
      subst hRoot
      have hDir := hClone.gitDir
      simp only [List.nil_append] at hb
      rw [hDir] at hb
      cases hb
  · exact hp (git_prefix_append hPre hNil)

theorem picked_clean (hAccepted : job.Accepted lower)
    (hPlaces : places linkOps job srcDir dstDir s = .ok pl) (hClone : Cloned s.tree srcDir)
    (hStay : LinksStay job srcDir dstDir pl s.tree.linkAt) :
    (∃ d, pl.dstBase = dstDir ++ d ∧ gitName ∉ d) ∧
      ∀ e ∈ pl.picked job, Clean srcDir e.2 ∧ gitName ∉ e.1 ∧ gitName ∉ e.2.basename := by
  obtain ⟨hBase, -, ⟨hFile, -, place, hPlace, hDst, hFiles⟩ | ⟨hNoFile, -, hDst, hFiles⟩⟩ :=
    places_ok hPlaces
  · have hne : job.source.path ≠ [] := by
      intro hNil
      rw [hBase, hNil, List.append_nil] at hFile
      have hNot : linkOps.isFile s srcDir = false := isFile_of_dir hClone.root
      rw [hNot] at hFile
      cases hFile
    have hName : gitName ∉ (srcDir ++ job.source.path).basename := by
      rw [Path.basename, List.getLast?_append_of_ne_nil _ hne]
      intro hMem
      exact hAccepted.source (List.mem_of_getLast? (Option.mem_toList.mp hMem))
    have hPlace : gitName ∉ place := by
      rw [hPlace, hBase]
      split
      · exact hName
      · exact hAccepted.dest
    refine ⟨⟨_, hDst, fun h => hPlace (List.mem_of_mem_dropLast h)⟩, fun e he => ?_⟩
    have he := List.mem_of_mem_filter he
    rw [hFiles, List.mem_singleton] at he
    subst he
    refine ⟨⟨_, hBase, hAccepted.source⟩, fun h => ?_, by rwa [hBase]⟩
    exact hPlace (List.mem_of_getLast? (Option.mem_toList.mp h))
  · refine ⟨⟨_, hDst, hAccepted.dest⟩, ?_⟩
    rintro ⟨rel, ap⟩ he
    have he := List.mem_of_mem_filter he
    rw [hFiles] at he
    obtain ⟨r, hr, hDir, hListed, hGit, hne, rfl⟩ := mem_walkFiles_dir hNoFile he
    have hIn : Inside srcDir r := by
      refine hStay.base.inside' ⟨_, hBase, hAccepted.source⟩ ?_
      exact real_of_dir (fun _ _ => rfl) hDir hr
    have hRel := rel_clean hClone hIn hListed hGit
    refine ⟨⟨job.source.path ++ rel, by rw [hBase, List.append_assoc], ?_⟩, hRel, ?_⟩
    · rw [List.mem_append, not_or]
      exact ⟨hAccepted.source, hRel⟩
    · rw [Path.basename, List.getLast?_append_of_ne_nil _ hne]
      exact fun h => hRel (List.mem_of_getLast? (Option.mem_toList.mp h))

/-! ## The reflection loop -/

/-- The state while files are copied: the links of the start, and nothing bad. -/
structure Copying (job : Job) (srcDir dstDir : Path) (s st : Linked) : Prop where
  links : st.tree.linkAt = s.tree.linkAt
  dirs : ∀ q, s.tree.node q = some .dir → st.tree.node q = some .dir
  allowed : ∀ a ∈ st.log, a.Allowed job srcDir dstDir

/-- A file that is picked, with its ways. -/
structure Confined (s : Linked) (pl : Places) (srcDir dstDir : Path) (e : Path × Path) : Prop where
  source : Clean srcDir e.2
  target : Clean dstDir (pl.dstBase ++ e.1)
  below : Clean dstDir (pl.dstBase ++ e.1 ++ e.2.basename)
  read : Stays s.tree.linkAt srcDir e.2
  write : Stays s.tree.linkAt dstDir (pl.dstBase ++ e.1)
  into : Stays s.tree.linkAt dstDir (pl.dstBase ++ e.1 ++ e.2.basename)

theorem Copying.copy2 {st st' : Linked} (h : Copying job srcDir dstDir s st) {e : Path × Path}
    (hFile : Confined s pl srcDir dstDir e)
    (hCopy : st.copy2 e.2 (pl.dstBase ++ e.1) = some st') : Copying job srcDir dstDir s st' := by
  obtain ⟨r, w, hr, hw, hLog, hLinks, hDirs⟩ := copy2_spec hCopy
  have hReal : ∀ {p q}, st.tree.locate p = some q → real s.tree.linkAt p = some q := fun hp =>
    real_of_locate (fun _ _ => by rw [h.links]) (by rw [h.links]) hp
  refine ⟨hLinks.trans h.links, fun q hq => hDirs q (h.dirs q hq), fun a ha => ?_⟩
  rw [hLog, List.mem_append, List.mem_cons, List.mem_singleton] at ha
  rcases ha with ha | rfl | rfl
  · exact h.allowed a ha
  · exact hFile.read.inside' hFile.source (hReal hr)
  · have hw := hReal hw
    unfold Linked.copyTarget at hw
    split at hw
    · exact hFile.into.inside' hFile.below hw
    · exact hFile.write.inside' hFile.target hw

theorem Copying.reflectFile {st : Progress Linked} (h : Copying job srcDir dstDir s st.fs)
    {e : Path × Path} (hFile : Confined s pl srcDir dstDir e) :
    Copying job srcDir dstDir s (endState (reflectFile linkOps job pl st e.1 e.2)).fs := by
  unfold GitPathSync.reflectFile
  dsimp only
  split
  · exact h
  · split
    · exact h
    · split
      · exact h
      · next u hDirs =>
        obtain ⟨t, ht, rfl⟩ := Option.map_eq_some_iff.mp (raising_ok hDirs)
        obtain ⟨hLinks, hKept⟩ := mkdirs_some ht
        have hNext : Copying job srcDir dstDir s { st.fs with tree := t } :=
          ⟨hLinks.trans h.links, fun q hq => hKept q (h.dirs q hq), h.allowed⟩
        split
        · exact hNext
        · next v hCopy => exact hNext.copy2 hFile (raising_ok hCopy)

theorem Copying.reflectFiles {files : List (Path × Path)}
    (hFiles : ∀ e ∈ files, Confined s pl srcDir dstDir e) {st : Progress Linked}
    (h : Copying job srcDir dstDir s st.fs) :
    Copying job srcDir dstDir s (endState (reflectFiles linkOps job pl st files)).fs := by
  induction files generalizing st with
  | nil => exact h
  | cons e files ih =>
    have hOne := h.reflectFile (hFiles e List.mem_cons_self)
    simp only [GitPathSync.reflectFiles]
    split
    · next hStep =>
      rw [hStep] at hOne
      exact hOne
    · next hStep =>
      rw [hStep] at hOne
      exact ih (fun f hf => hFiles f (List.mem_cons_of_mem _ hf)) hOne

/-! ## The deletions -/

/-- The state while entries are deleted: the links that are left, and all directories. -/
structure Deleting (job : Job) (srcDir dstDir : Path) (s mid st : Linked) : Prop where
  links : st.tree.Agrees s.tree.linkAt
  dirs : ∀ q, mid.tree.node q = some .dir → st.tree.node q = some .dir
  allowed : ∀ a ∈ st.log, a.Allowed job srcDir dstDir

theorem Deleting.remove {mid st st' : Linked} (h : Deleting job srcDir dstDir s mid st) {p : Path}
    (hSpot : ∀ r, st.tree.spot p = some r → Inside dstDir r ∨ job.mode = .move ∧ Inside srcDir r)
    (hRemove : st.remove p = some st') : Deleting job srcDir dstDir s mid st' := by
  obtain ⟨r, hr, hLog, hFile, hNode⟩ := remove_spec hRemove
  refine ⟨fun q hq => ?_, fun q hq => ?_, fun a ha => ?_⟩
  · have hne : q ≠ r := by
      rintro rfl
      rw [hNode, if_pos rfl] at hq
      exact hq rfl
    have hSame : st'.tree.node q = st.tree.node q := by rw [hNode, if_neg hne]
    have hLink : st'.tree.linkAt q = st.tree.linkAt q := by
      simp only [linkAt, FileTree.file, hSame]
    rw [hLink]
    exact h.links q (hSame ▸ hq)
  · have hDir := h.dirs q hq
    rw [hNode, if_neg]
    · exact hDir
    · rintro rfl
      obtain ⟨b, hb⟩ := isFile_iff.mp hFile
      rw [hDir] at hb
      cases hb
  · rw [hLog, List.mem_append, List.mem_singleton] at ha
    rcases ha with ha | rfl
    · exact h.allowed a ha
    · exact hSpot r hr

theorem surplus_spot {mid st : Linked} (hClone : Cloned s.tree dstDir)
    (hBase : Clean dstDir pl.dstBase) (hDirStay : Stays s.tree.linkAt dstDir pl.dstBase)
    (hFileStay : Stays s.tree.linkAt dstDir pl.dstBase.dropLast)
    (hMid : Copying job srcDir dstDir s mid) (h : Deleting job srcDir dstDir s mid st)
    {e : Path × Path} (he : e ∈ walkFiles linkOps mid pl.dstBase) {r : Path}
    (hSpot : st.tree.spot e.2 = some r) : Inside dstDir r := by
  obtain ⟨rel, ap⟩ := e
  obtain ⟨d, hd, hClean⟩ := hBase
  cases hKind : linkOps.isFile mid pl.dstBase with
  | true =>
    obtain rfl : ap = pl.dstBase := by
      unfold walkFiles at he
      rw [hKind] at he
      exact (Prod.mk.inj (List.mem_singleton.mp he)).2
    cases d using List.reverseRecOn with
    | nil =>
      have hDir := hMid.dirs _ hClone.root
      have hNot : linkOps.isFile mid dstDir = false := isFile_of_dir hDir
      rw [hd, List.append_nil, hNot] at hKind
      cases hKind
    | append_singleton d x =>
      rw [hd, ← List.append_assoc, List.dropLast_concat] at hFileStay
      rw [hd] at hSpot
      obtain ⟨q, hq, -, hGit⟩ := spot_inside h.links hFileStay hClean hSpot
      exact ⟨q, hq, hGit⟩
  | false =>
    obtain ⟨r₀, hr₀, hDir, hListed, hGit, hne, rfl⟩ := mem_walkFiles_dir hKind he
    have hReal : real s.tree.linkAt pl.dstBase = some r₀ :=
      real_of_dir (fun _ _ => by rw [hMid.links]) hDir hr₀
    obtain ⟨p, rfl, hp⟩ := hDirStay.inside' ⟨d, hd, hClean⟩ hReal
    obtain ⟨b, hb⟩ := isFile_iff.mp hListed
    cases rel using List.reverseRecOn with
    | nil => exact absurd rfl hne
    | append_singleton m x =>
      rw [List.dropLast_concat] at hGit
      have hSpot : st.tree.spot (pl.dstBase ++ (m ++ [x])) = some r := hSpot
      unfold spot at hSpot
      rw [← List.append_assoc, List.getLast?_concat, List.dropLast_concat] at hSpot
      cases hWay : st.tree.locate (pl.dstBase ++ m) with
      | none => simp [hWay] at hSpot
      | some mid' =>
        simp only [hWay] at hSpot
        split at hSpot
        · next hDir' =>
          cases hSpot
          have hPlain : ∀ q, q ≠ [] → q <+: m → s.tree.linkAt (dstDir ++ p ++ q) = none := by
            intro q _ hPre
            have hThere : mid.tree.node (dstDir ++ p ++ (m ++ [x])) ≠ none := by
              rw [hb]
              exact Option.some_ne_none _
            rw [← hMid.links]
            refine linkAt_of_dir (mid.tree.dir_of_prefix hThere ?_ fun hEq => ?_)
            · exact (List.prefix_append_right_inj _).mpr (hPre.trans (List.prefix_append _ _))
            · have hLong := hPre.length_le
              rw [List.append_cancel_left hEq, List.length_append, List.length_singleton] at hLong
              omega
          obtain rfl := real_append hReal hPlain (real_of_dir h.links hDir' hWay)
          refine ⟨p ++ (m ++ [x]), by simp, fun hPre => ?_⟩
          by_cases hNil : p = []
          · subst hNil
            rw [List.nil_append] at hPre
            by_cases hTop : m = []
            · subst hTop
              obtain ⟨q, hq⟩ := hPre
              obtain ⟨rfl, -⟩ := List.cons.inj hq
              have hGitDir := hMid.dirs _ hClone.gitDir
              simp only [List.append_nil, List.nil_append] at hb
              rw [hGitDir] at hb
              cases hb
            · exact hGit ((git_prefix_append hPre hTop).subset List.mem_cons_self)
          · exact hp (git_prefix_append hPre hNil)
        · cases hSpot

theorem Deleting.foldl {mid : Linked} (hClone : Cloned s.tree dstDir)
    (hBase : Clean dstDir pl.dstBase) (hDirStay : Stays s.tree.linkAt dstDir pl.dstBase)
    (hFileStay : Stays s.tree.linkAt dstDir pl.dstBase.dropLast)
    (hMid : Copying job srcDir dstDir s mid) {picked files : List (Path × Path)}
    (hFiles : ∀ e ∈ files, e ∈ walkFiles linkOps mid pl.dstBase) {st : Progress Linked}
    (h : Deleting job srcDir dstDir s mid st.fs) :
    Deleting job srcDir dstDir s mid (files.foldl (removeFile linkOps job pl picked) st).fs := by
  induction files generalizing st with
  | nil => exact h
  | cons e files ih =>
    refine ih (fun f hf => hFiles f (List.mem_cons_of_mem _ hf)) ?_
    unfold removeFile
    split
    · exact h
    · split
      · dsimp only
        split
        · exact h
        · split
          · next u hRemove =>
            refine h.remove (fun r hr => .inl ?_) (raising_ok hRemove)
            exact surplus_spot hClone hBase hDirStay hFileStay hMid h
              (hFiles e List.mem_cons_self) hr
          · exact h
      · exact h

theorem Deleting.removeSource {mid st : Linked} (hMove : job.mode = .move)
    (hBase : pl.srcBase = srcDir ++ job.source.path) (hne : job.source.path ≠ [])
    (hClean : gitName ∉ job.source.path)
    (hStay : Stays s.tree.linkAt srcDir pl.srcBase.dropLast)
    (h : Deleting job srcDir dstDir s mid st) {u : Linked}
    (hRemove : removeSource linkOps pl st = .ok u) :
    ∀ a ∈ u.log, a.Allowed job srcDir dstDir := by
  have hSpot : ∀ r, st.tree.spot pl.srcBase = some r →
      ∃ q, r = srcDir ++ q ∧ q ≠ [] ∧ ¬[gitName] <+: q := by
    intro r hr
    obtain ⟨p, x, hp⟩ : ∃ p x, job.source.path = p ++ [x] :=
      ⟨_, _, (List.dropLast_append_getLast hne).symm⟩
    rw [hBase, hp, ← List.append_assoc, List.dropLast_concat] at hStay
    rw [hBase, hp] at hr
    exact spot_inside h.links hStay (hp ▸ hClean) hr
  unfold GitPathSync.removeSource at hRemove
  split at hRemove
  · refine (h.remove (fun r hr => .inr ?_) (raising_ok hRemove)).allowed
    obtain ⟨q, hq, -, hGit⟩ := hSpot r hr
    exact ⟨hMove, q, hq, hGit⟩
  · cases hRemove
    show ∀ a ∈ (st.rmtree pl.srcBase).log, _
    unfold Linked.rmtree
    split
    · next r hr =>
      split
      · intro a ha
        rcases List.mem_append.mp ha with ha | ha
        · exact h.allowed a ha
        · obtain ⟨f, hf, rfl⟩ := List.mem_map.mp ha
          obtain ⟨q, rfl, hq, hGit⟩ := hSpot r hr
          have hBelow := (List.mem_filter.mp hf).2
          rw [Bool.and_eq_true, decide_eq_true_eq] at hBelow
          obtain ⟨m, rfl⟩ := hBelow.1
          refine .inr ⟨hMove, q ++ m, by rw [List.append_assoc], fun hPre => ?_⟩
          exact hGit (git_prefix_append hPre hq)
      · exact h.allowed
    · exact h.allowed

theorem Copying.deleting {st : Linked} (h : Copying job srcDir dstDir s st) :
    Deleting job srcDir dstDir s st st :=
  ⟨fun _ _ => by rw [h.links], fun _ => id, h.allowed⟩

theorem reflect_deleting {maxFiles : Nat} (hLog : s.log = [])
    (hFiles : ∀ e ∈ sortFiles (pl.picked job), Confined s pl srcDir dstDir e)
    (hBase : Clean dstDir pl.dstBase) (hDst : Cloned s.tree dstDir)
    (hStay : LinksStay job srcDir dstDir pl s.tree.linkAt) :
    ∃ mid, Deleting job srcDir dstDir s mid (endState (reflect linkOps maxFiles job pl s)).fs := by
  have hStart : Copying job srcDir dstDir s s := ⟨rfl, fun _ => id, by simp [hLog]⟩
  unfold reflect
  dsimp only
  split
  · exact ⟨s, hStart.deleting⟩
  · have hLoop : Copying job srcDir dstDir s (endState (reflectFiles linkOps job pl
        { fs := s
          counters := ⟨(pl.picked job).length, 0, 0, 0, 0,
            pl.srcFiles.length - (pl.picked job).length⟩
          changedFiles := [] } (sortFiles (pl.picked job)))).fs := Copying.reflectFiles hFiles hStart
    split
    · next hError =>
      rw [hError] at hLoop
      exact ⟨_, hLoop.deleting⟩
    · next mid hOk =>
      rw [hOk] at hLoop
      refine ⟨mid.fs, ?_⟩
      split
      · next hMode =>
        obtain ⟨hDirStay, hFileStay⟩ := hStay.delete hMode.1 hMode.2
        refine hLoop.deleting.foldl hDst hBase hDirStay hFileStay hLoop fun e he => ?_
        rwa [sortFiles, List.mem_insertionSort] at he
      · exact hLoop.deleting

/-! ## Jobs that change nothing -/

theorem fileWork_idle {maxFiles : Nat}
    (hIdle : job.dryRun = true ∨ maxFiles < (pl.picked job).length) :
    endState (fileWork linkOps maxFiles job pl s) = s := by
  unfold fileWork reflect
  dsimp only
  by_cases hMany : maxFiles < (pl.picked job).length
  · rw [if_pos hMany]
    rfl
  · have hDry := hIdle.resolve_right hMany
    rw [if_neg hMany]
    obtain ⟨st, hLoop, hFs⟩ := reflectFiles_dry (F := linkOps) hDry pl (sortFiles (pl.picked job)) {
      fs := s
      counters := ⟨(pl.picked job).length, 0, 0, 0, 0,
        pl.srcFiles.length - (pl.picked job).length⟩
      changedFiles := [] }
    rw [hLoop]
    simp only [hDry, Bool.true_eq_false, false_and, if_false, endState]
    split
    · rw [removeSurplus_dry hDry]
      exact hFs
    · exact hFs

/-- If no link on its ways leads out, a job that was accepted reads, writes and
deletes only what it may; and so does one that does nothing with files. -/
theorem links_confined {payload : PathSyncJobCreate} {maxFiles : Nat}
    (hJob : createJob lower payload = .ok job)
    (hPlaces : places linkOps job srcDir dstDir s = .ok pl) (hLog : s.log = [])
    (hSrc : Cloned s.tree srcDir) (hDst : Cloned s.tree dstDir)
    (hStay : job.dryRun = false → (pl.picked job).length ≤ maxFiles →
      LinksStay job srcDir dstDir pl s.tree.linkAt) :
    ∀ a ∈ (endState (fileWork linkOps maxFiles job pl s)).log, a.Allowed job srcDir dstDir := by
  by_cases hIdle : job.dryRun = true ∨ maxFiles < (pl.picked job).length
  · rw [fileWork_idle hIdle, hLog]
    exact fun a ha => absurd ha List.not_mem_nil
  rw [not_or, Bool.not_eq_true, Nat.not_lt] at hIdle
  replace hStay := hStay hIdle.1 hIdle.2
  have hAccepted := createJob_ok hJob
  obtain ⟨⟨d, hd, hDest⟩, hPicked⟩ := picked_clean hAccepted hPlaces hSrc hStay
  have hFiles : ∀ e ∈ sortFiles (pl.picked job), Confined s pl srcDir dstDir e := by
    intro e he
    rw [sortFiles, List.mem_insertionSort] at he
    obtain ⟨hSource, hRel, hName⟩ := hPicked e he
    obtain ⟨hWrite, hInto⟩ := hStay.write e he
    have hTarget : gitName ∉ d ++ e.1 := by
      rw [List.mem_append, not_or]
      exact ⟨hDest, hRel⟩
    refine ⟨hSource, ⟨d ++ e.1, by rw [hd, List.append_assoc], hTarget⟩,
      ⟨d ++ e.1 ++ e.2.basename, by simp [hd], ?_⟩, hStay.read e he, hWrite, hInto⟩
    rw [List.mem_append, not_or]
    exact ⟨hTarget, hName⟩
  obtain ⟨mid, hEnd⟩ : ∃ mid, Deleting job srcDir dstDir s mid
      (endState (reflect linkOps maxFiles job pl s)).fs :=
    reflect_deleting hLog hFiles ⟨d, hd, hDest⟩ hDst hStay
  unfold fileWork
  split
  · next hError =>
    rw [hError] at hEnd
    exact hEnd.allowed
  · next st hOk =>
    rw [hOk] at hEnd
    split
    · next hMove =>
      split
      · exact hEnd.allowed
      · next u hRemove =>
        exact hEnd.removeSource hMove.2 (places_ok hPlaces).1 (hAccepted.move hMove.2)
          hAccepted.source (hStay.source hMove.2) hRemove
    · exact hEnd.allowed

end Picked

/-! ## A link to the outside -/

/-- A copy of a whole repository into the directory `d` of another one. -/
def linkPayload : PathSyncJobCreate where
  source := ⟨some .github, ['h'], ['o'], ['r'], [], []⟩
  dest := ⟨some .github, ['h'], ['o'], ['s'], [], ['d']⟩
  mode := some .copy
  includes := []
  excludes := []
  message := []
  dryRun := false
  allowRepoRoot := false

def linkJob : Job where
  source := ⟨.github, ['h'], ['o'], ['r'], [], []⟩
  dest := ⟨.github, ['h'], ['o'], ['s'], [], [letter 'd']⟩
  mode := .copy
  includes := []
  excludes := []
  message := []
  dryRun := false

/-- Two clones, and a file `e` outside of them; the source has one file `x`. -/
def linkTree (x : Content Name Bytes) : LinkedTree :=
  (((FileTree.empty.withFile [] (letter 'e') (.bytes [9])).withFile (sourceDir ++ [gitName])
    (letter 'c') (.bytes [])).withFile sourceDir (letter 'x') x).withFile (destDir ++ [gitName])
      (letter 'c') (.bytes [])

theorem cloned_of_support {t : LinkedTree} {dir : Path}
    (hGit : t.node (dir ++ [gitName]) = some .dir)
    (h : ∀ q ∈ t.support, dir <+: q → gitName ∈ q.drop dir.length →
      [gitName] <+: q.drop dir.length) : Cloned t dir := by
  refine ⟨hGit, fun p hp hMem => ?_⟩
  have hAll := h (dir ++ p) (t.mem_support _ hp) (List.prefix_append _ _)
  rw [List.drop_left] at hAll
  exact hAll hMem

theorem link_cloned (x : Content Name Bytes) :
    Cloned (linkTree x) sourceDir ∧ Cloned (linkTree x) destDir := by
  have hSupport : (linkTree x).support = (linkTree (.bytes [])).support := by
    cases x <;> rfl
  refine ⟨cloned_of_support ?_ ?_, cloned_of_support ?_ ?_⟩
  · cases x <;> rfl
  · rw [hSupport]
    decide
  · cases x <;> rfl
  · rw [hSupport]
    decide

theorem stays_of_real {links : Path → Option (Link Name)} {dir p : Path}
    (h : real links p = some p) : Stays links dir p := fun _ hr =>
  .inl (Option.some.inj (hr.symm.trans h))

theorem link_places : ∃ pl,
    places linkOps linkJob sourceDir destDir ⟨linkTree (.bytes [1]), []⟩ = .ok pl ∧
      LinksStay linkJob sourceDir destDir pl (linkTree (.bytes [1])).linkAt := by
  refine ⟨_, rfl, ⟨stays_of_real (by decide), fun e he => stays_of_real ?_, fun e he => ⟨?_, ?_⟩,
    fun hMode => absurd rfl hMode, fun hMode => by cases hMode⟩⟩
  · revert e
    decide
  · refine stays_of_real ?_
    revert e
    decide
  · refine stays_of_real ?_
    revert e
    decide

theorem links_confined_plain : ∃ pl,
    places linkOps linkJob sourceDir destDir ⟨linkTree (.bytes [1]), []⟩ = .ok pl ∧
      ∀ a ∈ (endState (fileWork linkOps 10 linkJob pl ⟨linkTree (.bytes [1]), []⟩)).log,
        a.Allowed linkJob sourceDir destDir := by
  obtain ⟨pl, hPlaces, hStay⟩ := link_places
  have hJob : createJob id linkPayload = .ok linkJob := rfl
  exact ⟨pl, hPlaces, links_confined hJob hPlaces rfl (link_cloned _).1 (link_cloned _).2
    fun _ _ => hStay⟩

/-- The link `x` to `/e`. -/
def outLink : Content Name Bytes := .link ⟨true, [.name (letter 'e')]⟩

theorem copy_reads_outside : ∃ pl,
    createJob id linkPayload = .ok linkJob ∧ Cloned (linkTree outLink) sourceDir ∧
      Cloned (linkTree outLink) destDir ∧
      places linkOps linkJob sourceDir destDir ⟨linkTree outLink, []⟩ = .ok pl ∧
      ∃ a ∈ (endState (fileWork linkOps 10 linkJob pl ⟨linkTree outLink, []⟩)).log,
        ¬a.Allowed linkJob sourceDir destDir := by
  refine ⟨_, rfl, (link_cloned _).1, (link_cloned _).2, rfl, .read [letter 'e'], by decide, ?_⟩
  rintro ⟨p, hp, -⟩
  exact absurd (List.cons.inj hp).1 (by decide)

end OpenSpoke.GitPathSync
