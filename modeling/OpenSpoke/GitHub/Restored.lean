import Mathlib.Data.List.Permutation
import OpenSpoke.GitHub.Restore

/-!
# What a restore gives back

The commit of a restore has the listed files of the source and the other files of the
parent exactly where the source has no executable files or links there, the host reads the
paths in URLs as they are, and no file of the parent is in the way.
-/

namespace OpenSpoke.GitHub.Remote

open Lts
open Python (Text strip)

variable {β : Type} {E : Host β}

/-- The listed paths are as in the source, all others as in the parent. -/
structure Exact (src parent new : Files β) (paths : List Text) : Prop where
  listed : ∀ p ∈ paths, new.entry (segments p) = src.entry (segments p)
  others : ∀ q, q ∉ paths.map segments → new.entry q = parent.entry q

structure Restorable (E : Host β) (seen : Option (Files β)) (src parent : Files β)
    (paths : List Text) : Prop where
  -- no executable file and no link is to be brought back
  regular : ∀ p ∈ paths, ∀ f, src.entry (segments p) = some f → f.mode = .file
  -- a look at a path shows what the source has there
  asNamed : ∀ p ∈ paths,
    Repo.contents E seen p = World.answerFor ((src.entry (segments p)).map File.blob)
  -- no other file of the parent is above or below one that is brought back
  roomy : ∀ p ∈ paths, src.entry (segments p) ≠ none → ∀ q, Snapshot.Clash (segments p) q →
    parent.entry q ≠ none → q ∈ paths.map segments

section Trees

variable {seen : Option (Files β)} {src parent new : Files β} {entries : List (TreeEntry β)}

theorem answerFor_injective : Function.Injective (World.answerFor : Option β → Content β) := by
  intro a b h
  cases a <;> cases b <;> first | rfl | cases h
  rfl

/-- What is put for a path, by what a look at it shows. -/
def fetched (E : Host β) (seen : Option (Files β)) (p : Path) : Option (File β) :=
  match Repo.contents E seen (['/'].intercalate p) with
  | .file blob => some ⟨.file, blob⟩
  | _ => none

theorem fetched_segments {p : Text} {sha : Option β}
    (h : Repo.contents E seen p = World.answerFor sha) :
    fetched E seen (segments p) = sha.map (File.mk .file) := by
  rw [fetched, segments, List.intercalate_splitOn, h]
  cases sha <;> rfl

theorem createTree_spec (h : Repo.createTree parent entries = some new) :
    ¬Snapshot.Clashing (entries.map TreeEntry.file) ∧ new = parent.overlay (entries.map TreeEntry.file) := by
  unfold Repo.createTree at h
  split at h
  · cases h
  next hFits => exact ⟨hFits, (Option.some.inj h).symm⟩

variable (hTree : Repo.createTree parent entries = some new)
  (hEntries : ∀ e ∈ entries, e.mode = .file ∧ Repo.contents E seen e.path = World.answerFor e.sha)

include hEntries

theorem file_eq_fetched {e : TreeEntry β} (he : e ∈ entries) :
    e.file.2 = fetched E seen e.file.1 := by
  obtain ⟨hMode, hSeen⟩ := hEntries e he
  rw [TreeEntry.file, fetched_segments hSeen, hMode]

include hTree

theorem entry_listed {e : TreeEntry β} (he : e ∈ entries) :
    new.entry (segments e.path) = e.sha.map (File.mk .file) := by
  obtain ⟨hFits, rfl⟩ := createTree_spec hTree
  have hNamed : segments e.path ∈ (entries.map TreeEntry.file).map Prod.fst :=
    List.mem_map.mpr ⟨e.file, List.mem_map.mpr ⟨e, he, rfl⟩, rfl⟩
  rw [Snapshot.overlay_named (f := fetched E seen) _ hFits hNamed, fetched_segments (hEntries e he).2]
  intro d hd
  obtain ⟨c, hc, rfl⟩ := List.mem_map.mp hd
  exact file_eq_fetched hEntries hc

omit hEntries in
theorem entry_unlisted {q : Path} (hq : q ∉ (entries.map TreeEntry.path).map segments) :
    new.entry q = parent.entry q ∨
      new.entry q = none ∧ ∃ e ∈ entries, e.sha ≠ none ∧ Snapshot.Clash (segments e.path) q := by
  obtain ⟨-, rfl⟩ := createTree_spec hTree
  have hNamed : ∀ d ∈ entries.map TreeEntry.file, d.1 ≠ q := by
    rintro d hd rfl
    obtain ⟨e, he, rfl⟩ := List.mem_map.mp hd
    exact hq (List.mem_map.mpr ⟨e.path, List.mem_map.mpr ⟨e, he, rfl⟩, rfl⟩)
  by_cases hClash : ∃ d ∈ entries.map TreeEntry.file, d.2 ≠ none ∧ Snapshot.Clash d.1 q
  · refine .inr ⟨Snapshot.overlay_clash hNamed (.inr hClash), ?_⟩
    obtain ⟨d, hd, hSome, hClash⟩ := hClash
    obtain ⟨e, he, rfl⟩ := List.mem_map.mp hd
    refine ⟨e, he, fun hNone => hSome ?_, hClash⟩
    rw [TreeEntry.file, hNone]
    rfl
  · refine .inl (Snapshot.overlay_apart hNamed fun d hd hSome hC => hClash ⟨d, hd, hSome, hC⟩)

theorem restorable_of_exact (h : Exact src parent new (entries.map TreeEntry.path)) :
    Restorable E seen src parent (entries.map TreeEntry.path) := by
  have hSrc : ∀ e ∈ entries, src.entry (segments e.path) = e.sha.map (File.mk .file) := fun e he =>
    (h.listed e.path (List.mem_map_of_mem he)).symm.trans (entry_listed hTree hEntries he)
  refine ⟨fun p hp f hf => ?_, fun p hp => ?_, fun p hp hSome q hClash hOld => ?_⟩
  · obtain ⟨e, he, rfl⟩ := List.mem_map.mp hp
    rw [hSrc e he, Option.map_eq_some_iff] at hf
    obtain ⟨blob, -, rfl⟩ := hf
    rfl
  · obtain ⟨e, he, rfl⟩ := List.mem_map.mp hp
    rw [hSrc e he, Option.map_map, (hEntries e he).2]
    cases e.sha <;> rfl
  · by_contra hq
    obtain ⟨e, he, rfl⟩ := List.mem_map.mp hp
    have hNew : new.entry (segments e.path) ≠ none := by
      rw [h.listed e.path hp]
      exact hSome
    exact hOld ((h.others q hq).symm.trans (new.flat_of_clash hClash hNew))

theorem exact_of_restorable (h : Restorable E seen src parent (entries.map TreeEntry.path)) :
    Exact src parent new (entries.map TreeEntry.path) := by
  have hSrc : ∀ e ∈ entries, e.sha = (src.entry (segments e.path)).map File.blob := fun e he =>
    answerFor_injective ((hEntries e he).2.symm.trans (h.asNamed e.path (List.mem_map_of_mem he)))
  refine ⟨fun p hp => ?_, fun q hq => ?_⟩
  · obtain ⟨e, he, rfl⟩ := List.mem_map.mp hp
    rw [entry_listed hTree hEntries he, hSrc e he]
    cases hf : src.entry (segments e.path) with
    | none => rfl
    | some f =>
      have hMode := h.regular e.path hp f hf
      obtain ⟨mode, blob⟩ := f
      obtain rfl : mode = .file := hMode
      rfl
  · rcases entry_unlisted hTree hq with hKept | ⟨hGone, e, he, hSome, hClash⟩
    · exact hKept
    · rw [hGone]
      by_contra hOld
      refine hq (h.roomy e.path (List.mem_map_of_mem he) ?_ q hClash (Ne.symm hOld))
      intro hNone
      rw [hSrc e he, hNone] at hSome
      exact hSome rfl

end Trees

namespace World

variable {w t : World β} {n m : Nat}

/-- The tree of the source, by the name that the restore has been given. -/
def sourceTree (w : World β) (n : Nat) : Option (Files β) :=
  match w.op n with
  | .restoreFromTag tag _ => ((w.repoOf n).tag (strip tag)).bind (w.repoOf n).treeUnder
  | .restoreFromSha sha _ => (w.repoOf n).treeUnder sha
  | _ => none

/-- The tree that the looks of the restore see. -/
def seenTree (E : Host β) (w : World β) (n : Nat) : Option (Files β) :=
  (w.asked E n).bind (w.repoOf n).treeUnder

/-- The commit of a restore and the move of the branch to it: its parent is the head that it
replaces. -/
structure Replaces (E : Host β) (w : World β) (n commit : Nat) (c : Commit β) (parent : Files β)
    (v : Move) : Prop where
  move : v ∈ w.moves
  author : v.author = n
  repo : v.repo = (w.req n).repoId
  branch : v.branch = E.asRead ((w.repoOf n).branchName (w.req n).ref)
  new : v.new = commit
  commit : (w.repoOf n).commits[commit]? = some c
  parents : c.parents = v.old.toList
  tree : v.old.bind (w.repoOf n).treeOf = some parent

/-- The answer to a request that moves a branch is not lost. -/
def RefUpdatesAnswered (w : World β) : Act β → Prop
  | .request n .lost => ∀ p commit, w.pc n ≠ .updateRef p commit
  | _ => True

/-- A restore that fails has moved no branch. -/
def FailsClean (w : World β) : Prop :=
  ∀ n reply, w.pc n = .done reply → isRestore (w.op n) = true → reply.failure ≠ none →
    ∀ v ∈ w.moves, v.author ≠ n

variable [DecidableEq β]

omit [DecidableEq β] in
theorem FailsClean.goto (h : w.FailsClean) {u : World β} {pc : Pc β} (hCall : u.call = w.call)
    (hMoves : ∀ v ∈ u.moves, v ∈ w.moves ∨ v.author = n)
    (hMine : ∀ reply, pc = .done reply → isRestore (w.op n) = true → reply.failure ≠ none →
      ∀ v ∈ u.moves, v.author ≠ n) : (u.goto n pc).FailsClean := by
  intro m reply hDone hRestore hFail v hv
  rw [(sameCalls_goto hCall).op m] at hRestore
  by_cases hmn : m = n
  · subst hmn
    rw [pc_goto_self] at hDone
    exact hMine reply hDone hRestore hFail v hv
  · rw [(sameCalls_goto hCall).pc m hmn] at hDone
    rcases hMoves v hv with hOld | rfl
    · exact h m reply hDone hRestore hFail v hOld
    · exact fun hEq => hmn hEq.symm

theorem look_past {a : Answer} {pc pc' : Pc β} (hLook : w.look E n a pc = some pc')
    (hPast : pc.preparing = false) : ∃ put commit, pc = .parentLookup put commit := by
  cases pc with
  | parentLookup put commit => exact ⟨put, commit, rfl⟩
  | recording | done => cases hLook
  | _ => cases hPast

theorem FailsClean.took {a : Answer} (h : w.FailsClean) (hSound : w.Sound E)
    (hOk : w.RefUpdatesAnswered (.request n a)) (ht : Took E w n a t) : t.FailsClean := by
  have hCall := hSound.calls n
  cases ht with
  | looked pc hLook =>
    apply h.goto rfl (fun v hv => .inl hv)
    rintro reply rfl hRestore hFail
    rcases look_end hLook with ⟨hPast, -, -⟩ | ⟨hPrep, -⟩
    · obtain ⟨put, commit, hPc⟩ := look_past hLook hPast
      rw [hPc] at hCall
      rw [show isRestore (w.op n) = false from hCall] at hRestore
      cases hRestore
    · exact hSound.no_move hPrep
  | created p tree hA hPc hp =>
    refine h.goto (u := w.setRepo _ _) rfl (fun v hv => .inl hv) fun reply _ _ _ => ?_
    exact hSound.no_move (by rw [hPc]; rfl)
  | updated p commit cur hA hPc hk hHead hAnc =>
    refine h.goto (u := w.moved _ _ _) rfl (fun v hv => ?_) fun reply hDone _ hFail => ?_
    · rcases List.mem_cons.mp hv with rfl | hv
      · exact .inr rfl
      · exact .inl hv
    · split at hDone
      · unfold afterUpdate at hDone
        split at hDone <;> cases hDone
        exact absurd rfl hFail
      next hNot =>
        cases a with
        | refused => exact absurd rfl hA
        | lost => exact absurd hPc (hOk p commit)
        | answered => exact absurd rfl hNot
  | wrote put given base tree hA hPc hp =>
    rw [hPc] at hCall
    refine h.goto (u := w.moved _ _ _) rfl (fun v hv => ?_) fun reply _ hRestore _ => ?_
    · rcases List.mem_cons.mp hv with rfl | hv
      · exact .inr rfl
      · exact .inl hv
    · rw [show isRestore (w.op n) = false from hCall] at hRestore
      cases hRestore
  | recorded c reply hPc =>
    rw [hPc] at hCall
    refine h.goto (u := { w with index := _ }) rfl (fun v hv => .inl hv) ?_
    rintro reply' hDone - hFail
    cases hDone
    exact absurd hCall.1 hFail
  | refused reply hPrep hFail =>
    exact h.goto rfl (fun v hv => .inl hv) fun _ _ _ _ => hSound.no_move hPrep

theorem FailsClean.step (h : w.FailsClean) (hSound : w.Sound E) {act : Act β}
    (hOk : w.RefUpdatesAnswered act) (hs : World.step E w act = some t) : t.FailsClean := by
  cases act with
  | call n q op token =>
    cases hPc : w.pc n <;> simp only [World.step, hPc, reduceCtorEq] at hs
    split at hs
    next hKnows =>
      cases hs
      intro m reply hDone hRestore hFail v hv
      by_cases hmn : m = n
      · exact hmn ▸ hSound.no_move (by rw [hPc]; rfl) v hv
      · simp only [World.pc, World.op, Function.update_of_ne hmn] at hDone hRestore
        exact h m reply hDone hRestore hFail v hv
    next => cases hs
  | request n a => exact h.took hSound hOk (request_took hs)
  | outside id b tree merged =>
    simp only [World.step, World.outside] at hs
    split at hs
    · split at hs
      · cases hs
        exact h
      · cases hs
    · cases hs

theorem failsClean_reach {w₀ : World β} (hInit : w₀.Initial)
    (h : Reach (World.step E) RefUpdatesAnswered w₀ w) : w.FailsClean := by
  have hBoth : w.Sound E ∧ w.FailsClean := by
    refine @Reach.invariant _ _ _ _ (fun w : World β => w.Sound E ∧ w.FailsClean) _ _
      ⟨hInit.sound, fun n reply hDone => ?_⟩ (fun _ _ _ _ hInv hOk hs =>
      ⟨hInv.1.step hs, hInv.2.step hInv.1 hOk hs⟩) h
    rw [hInit.absent n] at hDone
    cases hDone
  exact hBoth.2

omit [DecidableEq β] in
theorem Sound.restored (hSound : w.Sound E) {commit : Nat} (hRestored : w.Restored E n commit) :
    ∃ p c v, w.Replaces E n commit c p.headTree v ∧ v.old = some p.head ∧ w.Built E n p c.tree := by
  obtain ⟨p, ⟨tree, hBuilt, hCommit⟩, hMove⟩ := hRestored
  obtain ⟨-, c, hc, hParents, hAuthor⟩ := hSound.moves _ hMove
  refine ⟨p, _, _, ⟨hMove, rfl, rfl, ?_, rfl, hCommit, rfl, hBuilt.plan.tree⟩, rfl, hBuilt⟩
  exact congrArg E.asRead hBuilt.plan.branch

omit [DecidableEq β] in
theorem PlanOk.seen {p : Plan β} (hp : w.PlanOk E n p) :
    (w.repoOf n).treeUnder p.source = w.seenTree E n := by
  obtain ⟨o, hAsked, hLeads, -⟩ := hp.source
  rw [seenTree, hAsked, Repo.treeUnder, hLeads]
  rfl

/-- A call has returned ok with a new commit. -/
def Made (w : World β) (n commit : Nat) (c : Commit β) : Prop :=
  ∃ reply, w.pc n = .done reply ∧ reply.failure = none ∧ reply.commit = some commit ∧
    (w.repoOf n).commits[commit]? = some c

/-- A restore from a tag and one from the commit that the tag leads to, of the same paths. -/
structure TagAndSha (E : Host β) (w : World β) (n m : Nat) : Prop where
  ops : ∃ tag sha paths paths' o, w.op n = .restoreFromTag tag paths ∧
    w.op m = .restoreFromSha sha paths' ∧ listed paths = listed paths' ∧
    (w.repoOf n).tag (strip tag) = some o ∧ o.leadsTo = sha.leadsTo ∧
    E.asRead (strip tag) = strip tag
  repo : (w.req m).repoId = (w.req n).repoId

omit [DecidableEq β] in
theorem Sound.made (hSound : w.Sound E) (hRestore : isRestore (w.op n) = true) {commit : Nat}
    {c : Commit β} (h : w.Made n commit c) :
    ∃ p v, w.Replaces E n commit c p.headTree v ∧ v.old = some p.head ∧ w.Built E n p c.tree := by
  obtain ⟨reply, hDone, hNone, hCommit, hc⟩ := h
  have hCall := hSound.calls n
  rw [hDone] at hCall
  obtain ⟨p, d, v, hReplaces, hOld, hBuilt⟩ := hSound.restored (hCall hRestore hNone commit hCommit)
  obtain rfl : d = c := Option.some.inj (hReplaces.commit.symm.trans hc)
  exact ⟨p, v, hReplaces, hOld, hBuilt⟩

omit [DecidableEq β] in
theorem Built.exact_iff {p : Plan β} {tree : Files β} (h : w.Built E n p tree) (src : Files β) :
    Exact src p.headTree tree (listedPaths (w.op n)) ↔
      Restorable E (w.seenTree E n) src p.headTree (listedPaths (w.op n)) := by
  have hEntries := h.plan.entries
  rw [h.plan.seen] at hEntries
  rw [← h.paths]
  exact ⟨restorable_of_exact h.tree hEntries, exact_of_restorable h.tree hEntries⟩

omit [DecidableEq β] in
theorem entries_ext {seen : Option (Files β)} {es ds : List (TreeEntry β)}
    (he : ∀ e ∈ es, e.mode = .file ∧ Repo.contents E seen e.path = answerFor e.sha)
    (hd : ∀ e ∈ ds, e.mode = .file ∧ Repo.contents E seen e.path = answerFor e.sha)
    (hPaths : es.map TreeEntry.path = ds.map TreeEntry.path) : es = ds := by
  induction es generalizing ds with
  | nil =>
    cases ds with
    | nil => rfl
    | cons d ds => cases hPaths
  | cons e es ih =>
    cases ds with
    | nil => cases hPaths
    | cons d ds =>
      obtain ⟨hPath, hRest⟩ := List.cons.inj hPaths
      obtain ⟨hMode, hSeen⟩ := he e List.mem_cons_self
      obtain ⟨hMode', hSeen'⟩ := hd d List.mem_cons_self
      have hSha : e.sha = d.sha := by
        rw [hPath] at hSeen
        exact answerFor_injective (hSeen.symm.trans hSeen')
      have hEntry : e = d := by
        obtain ⟨path, mode, sha⟩ := e
        obtain ⟨path', mode', sha'⟩ := d
        obtain rfl : path = path' := hPath
        obtain rfl : mode = .file := hMode
        obtain rfl : mode' = .file := hMode'
        obtain rfl : sha = sha' := hSha
        rfl
      rw [hEntry, ih (fun x hx => he x (List.mem_cons_of_mem _ hx))
        (fun x hx => hd x (List.mem_cons_of_mem _ hx)) hRest]

omit [DecidableEq β] in
theorem TagAndSha.seen (h : w.TagAndSha E n m) :
    listedPaths (w.op n) = listedPaths (w.op m) ∧ w.seenTree E n = w.seenTree E m := by
  obtain ⟨tag, sha, paths, paths', o, hn, hm, hPaths, hTag, hLeads, hRead⟩ := h.ops
  refine ⟨by rw [hn, hm]; exact hPaths, ?_⟩
  have hRepo : w.repoOf m = w.repoOf n := congrArg w.repo h.repo
  rw [seenTree, seenTree, World.asked, World.asked, hn, hm, hRepo]
  simp only [hRead, hTag, Option.bind_some, Repo.treeUnder, hLeads]

/-- Restores that fail leave the branch alone, where no answer to a ref update is lost. The
commit of one that succeeds replaces its parent on the branch, and it is as the source has it
at the listed paths and as the parent elsewhere exactly where that is restorable. A tag gives
what its commit gives. -/
theorem restore_gives_back {w₀ : World β} (hInit : w₀.Initial)
    (h : Reach (World.step E) RefUpdatesAnswered w₀ w) (hRestore : isRestore (w.op n) = true) :
    (∀ reply, w.pc n = .done reply → reply.failure ≠ none → ∀ v ∈ w.moves, v.author ≠ n) ∧
    (∀ commit c, w.Made n commit c → ∃ parent v, w.Replaces E n commit c parent v ∧
      ((∃ src, w.sourceTree n = some src ∧ Exact src parent c.tree (listedPaths (w.op n))) ↔
        ∃ src, w.sourceTree n = some src ∧
          Restorable E (w.seenTree E n) src parent (listedPaths (w.op n)))) ∧
    (∀ m, w.TagAndSha E n m → ∀ i c j d, w.Made n i c → w.Made m j d → c.parents = d.parents →
      c.tree.entry = d.tree.entry) := by
  have hSound : w.Sound E := .reach hInit h
  refine ⟨fun reply hDone hFail => failsClean_reach hInit h n reply hDone hRestore hFail,
    fun commit c hMade => ?_, fun m hPair i c j d hc hd hParents => ?_⟩
  · obtain ⟨p, v, hReplaces, -, hBuilt⟩ := hSound.made hRestore hMade
    refine ⟨p.headTree, v, hReplaces, ?_⟩
    exact exists_congr fun src => and_congr_right fun _ => hBuilt.exact_iff src
  · obtain ⟨hPaths, hSeen⟩ := hPair.seen
    have hRestore' : isRestore (w.op m) = true := by
      obtain ⟨tag, sha, paths, paths', o, -, hm, -⟩ := hPair.ops
      rw [hm]
      rfl
    obtain ⟨p, v, hp, hpOld, hpBuilt⟩ := hSound.made hRestore hc
    obtain ⟨q, u, hq, hqOld, hqBuilt⟩ := hSound.made hRestore' hd
    have hHead : p.head = q.head := by
      rw [hp.parents, hq.parents, hpOld, hqOld] at hParents
      exact (List.cons.inj hParents).1
    have hRepo : w.repoOf m = w.repoOf n := congrArg w.repo hPair.repo
    have hTree : p.headTree = q.headTree := by
      have hpTree := hpBuilt.plan.tree
      have hqTree := hqBuilt.plan.tree
      rw [hRepo, ← hHead] at hqTree
      exact Option.some.inj (hpTree.symm.trans hqTree)
    have hpEntries := hpBuilt.plan.entries
    have hqEntries := hqBuilt.plan.entries
    rw [hpBuilt.plan.seen] at hpEntries
    rw [hqBuilt.plan.seen, ← hSeen] at hqEntries
    have hEntries : p.entries = q.entries :=
      entries_ext hpEntries hqEntries (hpBuilt.paths.trans (hPaths.trans hqBuilt.paths.symm))
    have hNew := hpBuilt.tree
    rw [hTree, hEntries, hqBuilt.tree] at hNew
    rw [Option.some.inj hNew]

/-! ## A file that has changed -/

/-- URLs are read as they are, and files have numbers. -/
def plainHost : Host Nat where
  asRead t := t
  followLink _ _ := none
  decode _ := some []
  encode _ := 0

def emptyRepo (branch : Text) (h : branch ≠ []) : Repo Nat where
  commits := []
  head _ := none
  tag _ := none
  defaultBranch := branch
  older _ _ hc := by cases hc
  headKnown _ _ hb := by cases hb
  tagKnown _ _ _ ht := by cases ht
  named := h

def script : Text := ['r', 'u', 'n']

/-- A file of this mode has blob 1 in the first commit and blob 2 in the second one. -/
def scriptRepo (mode : Mode) : Repo Nat :=
  let first := (emptyRepo mainBranch (by decide)).commitOn mainBranch
    ⟨Snapshot.empty.put [script] ⟨mode, 1⟩, [], none⟩ (by simp)
  first.commitOn mainBranch ⟨Snapshot.empty.put [script] ⟨mode, 2⟩, [0], none⟩ (by
    simp [first, Repo.commitOn, Repo.moveHead, Repo.add])

def someone : Request := ⟨['o'], ['r'], mainBranch, ['m'], false⟩

def quietWorld (r : Repo Nat) : World Nat where
  repo _ := r
  call _ := ⟨someone, .putFile [] [] [], .absent⟩
  index := []
  moves := []

/-- The file is restored from the first commit. -/
def restoreRun : List (Act Nat) :=
  .call 0 someone (.restoreFromSha (.commit 0) [script]) true :: List.replicate 7 (.request 0 .answered)

theorem quietWorld_initial (mode : Mode) : (quietWorld (scriptRepo mode)).Initial where
  absent _ := rfl
  index := rfl
  moves := rfl
  authors id c hc := by
    have hc : c ∈ [Commit.mk _ [] none, Commit.mk _ [0] none] := hc
    rcases List.mem_cons.mp hc with rfl | hc
    · rfl
    · obtain rfl := List.mem_singleton.mp hc
      rfl

/-- What the run has come to: an answer that is ok, the file in the source and in the commit. -/
def cameTo (old new : File Nat) (w : World Nat) : Bool :=
  (match w.pc 0 with
    | .done reply => reply.failure = none && reply.commit = some 2
    | _ => false) &&
  isRestore (w.op 0) &&
  match (w.repoOf 0).commits[2]?, w.sourceTree 0 with
  | some c, some src => src.entry [script] = some old && c.tree.entry [script] = some new
  | _, _ => false

theorem made_of_cameTo {old new : File Nat} {w : World Nat} (h : cameTo old new w = true) :
    isRestore (w.op 0) = true ∧ ∃ c src, w.Made 0 2 c ∧ w.sourceTree 0 = some src ∧
      src.entry [script] = some old ∧ c.tree.entry [script] = some new := by
  unfold cameTo at h
  rw [Bool.and_eq_true, Bool.and_eq_true] at h
  obtain ⟨⟨hDone, hRestore⟩, hTrees⟩ := h
  split at hDone
  next reply hPc =>
    rw [Bool.and_eq_true, decide_eq_true_eq, decide_eq_true_eq] at hDone
    split at hTrees
    next c src hc hSrc =>
      rw [Bool.and_eq_true, decide_eq_true_eq, decide_eq_true_eq] at hTrees
      exact ⟨hRestore, c, src, ⟨reply, hPc, hDone.1, hDone.2, hc⟩, hSrc, hTrees⟩
    next => cases hTrees
  next => cases hDone

theorem restoreRun_answered (w : World Nat) :
    Along (World.step plainHost) RefUpdatesAnswered w restoreRun := by
  apply Along.of_forall
  intro act hAct t
  rcases List.mem_cons.mp hAct with rfl | hAct
  · trivial
  · obtain rfl := List.eq_of_mem_replicate hAct
    trivial

theorem script_given_back : ∃ w : World Nat,
    run (World.step plainHost) (quietWorld (scriptRepo .file)) restoreRun = some w ∧
      ∃ c parent v, w.Replaces plainHost 0 2 c parent v ∧ c.tree.entry [script] = some ⟨.file, 1⟩ := by
  obtain ⟨w, hRun, hw⟩ := exists_run_of_any (World.step plainHost) (quietWorld (scriptRepo .file))
    restoreRun (cameTo ⟨.file, 1⟩ ⟨.file, 1⟩) (by decide_cbv)
  obtain ⟨hRestore, c, src, hMade, -, -, hNew⟩ := made_of_cameTo hw
  obtain ⟨parent, v, hReplaces, -⟩ := (restore_gives_back (quietWorld_initial .file)
    (.of_run hRun (restoreRun_answered _)) hRestore).2.1 2 c hMade
  exact ⟨w, hRun, c, parent, v, hReplaces, hNew⟩

/-- An executable file comes back as one that is not. -/
theorem executable_lost : ∃ w : World Nat,
    run (World.step plainHost) (quietWorld (scriptRepo .executable)) restoreRun = some w ∧
      ∃ c src, w.Made 0 2 c ∧ w.sourceTree 0 = some src ∧
        src.entry [script] = some ⟨.executable, 1⟩ ∧ c.tree.entry [script] = some ⟨.file, 1⟩ := by
  obtain ⟨w, hRun, hw⟩ := exists_run_of_any (World.step plainHost)
    (quietWorld (scriptRepo .executable)) restoreRun
    (cameTo ⟨.executable, 1⟩ ⟨.file, 1⟩) (by decide_cbv)
  obtain ⟨-, c, src, hMade, hSrc, hOld, hNew⟩ := made_of_cameTo hw
  exact ⟨w, hRun, c, src, hMade, hSrc, hOld, hNew⟩

end World

end OpenSpoke.GitHub.Remote
