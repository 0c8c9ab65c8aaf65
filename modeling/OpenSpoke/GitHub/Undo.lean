import OpenSpoke.GitHub.Checkpoints

/-!
# Undoing a write

A restore with what a record says gives back what was at the path right before the write
that the record is of.
-/

namespace OpenSpoke.GitHub.Remote

open Lts
open Python (Text strip)

variable {β : Type} {E : Host β}

/-- What a tree has at a path. -/
def blobAt (t : Option (Files β)) (path : Text) : Option β :=
  t.bind fun t => (t.entry (segments path)).map File.blob

namespace World

variable {w t : World β} {n k : Nat}

/-- What the branch of a repository has at a path. -/
def onBranch (w : World β) (id : RepoId) (b path : Text) : Option β :=
  blobAt ((w.repo id).branchTree (some b)) path

theorem repoOf_goto {pc : Pc β} : (w.goto n pc).repoOf k = w.repoOf k := by
  unfold World.repoOf
  rw [req_goto, repo_goto]

variable [DecidableEq β]

/-- A call goes on with all of its requests answered, and nothing else happens. -/
def Alone (E : Host β) (n : Nat) (w t : World β) : Prop :=
  Reach (World.step E) (fun _ act => act = .request n .answered) w t

theorem Alone.cons {u : World β} (hs : w.request E n .answered = some u) (h : Alone E n u t) :
    Alone E n w t :=
  Reach.trans (.tail .refl rfl hs) h

/-- The end of a restore: the branch has got the tree that has been put together. -/
structure Ended (E : Host β) (k : Nat) (w t : World β) (b : Text) (tree : Files β) : Prop where
  alone : Alone E k w t
  done : ∃ reply, t.pc k = .done reply ∧ reply.failure = none
  req : t.req k = w.req k
  branch : ∃ new, (t.repoOf k).branchTree (some b) = some new ∧ new.entry = tree.entry

theorem Ended.cons {u : World β} {b : Text} {tree : Files β} (hs : w.request E k .answered = some u)
    (hReq : u.req k = w.req k) (h : Ended E k u t b tree) : Ended E k w t b tree :=
  { h with alone := h.alone.cons hs, req := h.req.trans hReq }

theorem ended_of_done {reply : Reply} {b : Text} {new tree : Files β} (hPc : w.pc k = .done reply)
    (hOk : reply.failure = none) (hBranch : (w.repoOf k).branchTree (some b) = some new)
    (hTree : new.entry = tree.entry) : Ended E k w w b tree :=
  ⟨.refl, ⟨reply, hPc, hOk⟩, rfl, new, hBranch, hTree⟩

theorem ended_recording {c : Checkpoint} {reply : Reply} {b : Text} {tree : Files β}
    (hPc : w.pc k = .recording c reply) (hOk : reply.failure = none)
    (hBranch : (w.repoOf k).branchTree (some b) = some tree) : ∃ t, Ended E k w t b tree := by
  have hs : w.request E k .answered = some (World.goto { w with index := c :: w.index } k (.done reply)) := by
    rw [World.request, hPc]
    rfl
  refine ⟨_, .cons hs req_goto (ended_of_done pc_goto_self hOk ?_ rfl)⟩
  rw [repoOf_goto]
  exact hBranch

theorem ended_updateRef {p : Plan β} {commit : Nat} {c : Commit β}
    (hPc : w.pc k = .updateRef p commit) (hOp : ∃ sha paths, w.op k = .restoreFromSha sha paths)
    (hHead : (w.repoOf k).head (E.asRead p.branch) = some p.head)
    (hCommit : (w.repoOf k).commits[commit]? = some c) (hParent : p.head ∈ c.parents) :
    ∃ t, Ended E k w t (E.asRead p.branch) c.tree := by
  obtain ⟨hk, -⟩ := List.getElem?_eq_some_iff.mp hCommit
  have hAnc : (w.repoOf k).isAncestor p.head commit = true := Repo.isAncestor_parent hCommit hParent
  obtain ⟨sha, paths, hOp⟩ := hOp
  have hRef : (w.repoOf k).updateRef (E.asRead p.branch) commit =
      some ((w.repoOf k).moveHead (E.asRead p.branch) commit hk) := by
    simp [Repo.updateRef, hHead, hk, hAnc]
  let u := w.moved (w.req k).repoId ((w.repoOf k).moveHead (E.asRead p.branch) commit hk)
    ⟨(w.req k).repoId, E.asRead p.branch, p.entries.map fun e => e.file.1, some p.head, commit, k⟩
  have hs : w.request E k .answered = some (u.goto k (.recording
      (restoreCheckpoint (w.req k) (listed paths) p k) (p.reply (some commit)))) := by
    rw [World.request, hPc]
    simp only [attempt, reduceCtorEq, if_false, hRef, hHead, if_true, hOp, afterUpdate]
    rfl
  have hBranch : ((u.goto k (.recording (restoreCheckpoint (w.req k) (listed paths) p k)
      (p.reply (some commit)))).repoOf k).branchTree (some (E.asRead p.branch)) = some c.tree := by
    rw [repoOf_goto]
    have hRepo : u.repoOf k = (w.repoOf k).moveHead (E.asRead p.branch) commit hk := repo_setRepo_self
    rw [hRepo, Repo.branchTree, Repo.branchName, Option.getD_some, Repo.head_moveHead_self,
      Option.bind_some]
    exact Option.map_eq_some_iff.mpr ⟨c, hCommit, rfl⟩
  obtain ⟨t, hEnded⟩ := ended_recording (E := E) pc_goto_self rfl hBranch
  exact ⟨t, hEnded.cons hs req_goto⟩

theorem ended_createCommit {p : Plan β} {tree : Files β}
    (hPc : w.pc k = .createCommit p tree) (hOp : ∃ sha paths, w.op k = .restoreFromSha sha paths)
    (hHead : (w.repoOf k).head (E.asRead p.branch) = some p.head) :
    ∃ t, Ended E k w t (E.asRead p.branch) tree := by
  have hk := (w.repoOf k).headKnown _ _ hHead
  let c : Commit β := ⟨tree, [p.head], some k⟩
  have hp : ∀ q ∈ c.parents, q < (w.repoOf k).commits.length :=
    fun _ hq => List.mem_singleton.mp hq ▸ hk
  let u := (w.setRepo (w.req k).repoId ((w.repoOf k).add c hp)).goto k
    (.updateRef p (w.repoOf k).commits.length)
  have hs : w.request E k .answered = some u := by
    rw [World.request, hPc]
    simp only [attempt, reduceCtorEq, if_false, Repo.createCommit, hk, dif_pos, if_true]
    rfl
  have hRepo : u.repoOf k = (w.repoOf k).add c hp := by
    rw [repoOf_goto]
    exact repo_setRepo_self
  have hCommit : (u.repoOf k).commits[(w.repoOf k).commits.length]? = some c := by
    rw [hRepo]
    exact List.getElem?_concat_length
  obtain ⟨t, hEnded⟩ := ended_updateRef (w := u) (E := E) pc_goto_self (by rw [op_goto]; exact hOp)
    (by rw [hRepo]; exact hHead) hCommit List.mem_cons_self
  exact ⟨t, hEnded.cons hs req_goto⟩

theorem ended_createTree {p : Plan β} {tree : Files β}
    (hPc : w.pc k = .createTree p) (hOp : ∃ sha paths, w.op k = .restoreFromSha sha paths)
    (hHead : (w.repoOf k).head (E.asRead p.branch) = some p.head)
    (hHeadTree : (w.repoOf k).treeOf p.head = some p.headTree)
    (hTree : Repo.createTree p.headTree p.entries = some tree) :
    ∃ t, Ended E k w t (E.asRead p.branch) tree := by
  by_cases hSame : tree.same p.headTree = true
  · have hs : w.request E k .answered = some (w.goto k (.done (p.reply none))) := by
      rw [World.request, hPc]
      simp [World.look, hTree, hSame]
    have hBranch : ((w.goto k (.done (p.reply none))).repoOf k).branchTree
        (some (E.asRead p.branch)) = some p.headTree := by
      rw [repoOf_goto, Repo.branchTree, Repo.branchName, Option.getD_some, hHead]
      exact hHeadTree
    exact ⟨_, .cons hs req_goto
      (ended_of_done pc_goto_self rfl hBranch (Snapshot.same_iff.mp hSame).symm)⟩
  · have hs : w.request E k .answered = some (w.goto k (.createCommit p tree)) := by
      rw [World.request, hPc]
      simp [World.look, hTree, hSame]
    obtain ⟨t, hEnded⟩ := ended_createCommit (w := w.goto k (.createCommit p tree)) (E := E)
      pc_goto_self (by rw [op_goto]; exact hOp) (by rw [repoOf_goto]; exact hHead)
    exact ⟨t, hEnded.cons hs req_goto⟩

omit [DecidableEq β] in
theorem createTree_single (t : Files β) (path : Text) (sha : Option β) :
    ∃ tree, Repo.createTree t [⟨path, .file, sha⟩] = some tree ∧
      tree.entry (segments path) = sha.map (File.mk .file) := by
  have hFits : ¬Snapshot.Clashing ([(⟨path, .file, sha⟩ : TreeEntry β)].map TreeEntry.file) := by
    rintro ⟨d, hd, e, he, -, -, hClash⟩
    obtain rfl := List.mem_singleton.mp hd
    obtain rfl := List.mem_singleton.mp he
    exact Snapshot.not_clash_self _ hClash
  refine ⟨_, if_neg hFits, ?_⟩
  exact Snapshot.entry_set_self t (segments path) (sha.map (File.mk .file))

theorem ended_headRef {source : Object} {b path : Text} {sha : Object} {pre : Files β} {cur : Nat}
    (hPc : w.pc k = .headRef source b) (hOp : w.op k = .restoreFromSha sha [path])
    (hListed : listed [path] = [path]) (hBranch : E.asRead b = b)
    (hHead : (w.repoOf k).head b = some cur) (hSource : (w.repoOf k).treeUnder source = some pre)
    (hRead : E.asRead path = path) (hPlain : plainAt pre (segments path) = true) :
    ∃ t tree, Ended E k w t b tree ∧
      (tree.entry (segments path)).map File.blob = (pre.entry (segments path)).map File.blob := by
  obtain ⟨c, hc⟩ : ∃ c, (w.repoOf k).commits[cur]? = some c :=
    ⟨_, List.getElem?_eq_getElem ((w.repoOf k).headKnown b cur hHead)⟩
  have hTree : (w.repoOf k).treeOf cur = some c.tree := Option.map_eq_some_iff.mpr ⟨c, hc, rfl⟩
  let p : Plan β := ⟨source, b, cur, c.tree, [], [], []⟩
  let sha' := (pre.entry (segments path)).map File.blob
  let w₁ := w.goto k (.headCommit source b cur)
  let w₂ := w₁.goto k (.contents p path [])
  let w₃ := w₂.goto k (.createTree (p.add path sha'))
  have h₁ : w.request E k .answered = some w₁ := by
    rw [World.request, hPc]
    simp [World.look, hBranch, hHead, w₁]
  have h₂ : w₁.request E k .answered = some w₂ := by
    have hOp₁ : w₁.op k = .restoreFromSha sha [path] := op_goto.trans hOp
    rw [World.request, pc_goto_self]
    simp [World.look, repoOf_goto, hTree, hOp₁, listedPaths, hListed, nextPath, w₁, w₂, p]
  have h₃ : w₂.request E k .answered = some w₃ := by
    have hSeen : Repo.contents E ((w₂.repoOf k).treeUnder p.source) path = answerFor sha' := by
      rw [repoOf_goto, repoOf_goto, hSource]
      exact contents_of_plainAt hRead hPlain
    rw [World.request, pc_goto_self]
    simp only [World.look, if_true, hSeen]
    cases hSha : sha' <;> simp [afterContents, answerFor, nextPath, w₃, hSha]
  have hRepo : w₃.repoOf k = w.repoOf k := by
    simp only [w₃, w₂, w₁, repoOf_goto]
  obtain ⟨tree, hNew, hEntry⟩ := createTree_single c.tree path sha'
  have hPc₃ : w₃.pc k = .createTree (p.add path sha') := pc_goto_self
  obtain ⟨t, hEnded⟩ := ended_createTree hPc₃ ⟨sha, [path], by simp only [w₃, w₂, w₁, op_goto, hOp]⟩ (hRepo ▸ hBranch.symm ▸ hHead) (hRepo ▸ hTree) hNew
  refine ⟨t, tree, ?_, ?_⟩
  · have hEnded : Ended E k w₃ t b tree := hBranch ▸ hEnded
    exact ((hEnded.cons h₃ req_goto).cons h₂ req_goto).cons h₁ req_goto
  · rw [hEntry, Option.map_map]
    exact Option.map_id_apply

/-! ## Records -/

/-- What a user asks for to undo the write that a record is of. -/
structure Asks (c : Checkpoint) (q : Request) : Prop where
  owner : q.owner = c.owner
  repo : q.repo = c.repo
  branch : q.branch = c.branch

def undo (c : Checkpoint) : Op := .restoreFromSha (.commit c.preCommitSha) [c.path]

omit [DecidableEq β] in
theorem Usable.listed {c : Checkpoint} (h : w.Usable E c) : listed [c.path] = [c.path] := by
  obtain ⟨hStrip, hNe, -⟩ := h.path
  unfold Remote.listed
  rw [List.map_singleton, hStrip]
  exact List.filter_cons_of_pos (decide_eq_true hNe)

theorem Usable.undone {c : Checkpoint} (h : w.Usable E c) (hAbsent : w.pc k = .absent) {q : Request}
    (hAsks : Asks c q) (hMessage : q.hasMessage = true) :
    ∃ u t, World.step E w (.call k q (undo c) true) = some u ∧ Alone E k u t ∧
      (∃ reply, t.pc k = .done reply ∧ reply.failure = none) ∧
      ∃ pre, (w.repo (c.owner, c.repo)).treeOf c.preCommitSha = some pre ∧
        t.onBranch (c.owner, c.repo) c.branch c.path = blobAt (some pre) c.path := by
  obtain ⟨pre, hPre, hPlain⟩ := h.tree
  obtain ⟨cur, hHead⟩ := h.head
  have hId : q.repoId = (c.owner, c.repo) := by
    rw [Request.repoId, hAsks.owner, hAsks.repo, h.owner.1, h.repo.1]
  have hRef : q.ref = some c.branch := by
    rw [Request.ref, hAsks.branch, if_neg h.branch.1]
  have hValid : q.valid = true := by
    rw [Request.valid, hAsks.owner, hAsks.repo, h.owner.1, h.repo.1, decide_eq_true_eq]
    exact ⟨h.owner.2, h.repo.2⟩
  have hKnows : w.knows q (undo c) = true := by
    obtain ⟨d, hd, -⟩ := Option.map_eq_some_iff.mp hPre
    rw [undo, knows, hId]
    exact decide_eq_true (List.getElem?_eq_some_iff.mp hd).1
  have hBegin : (begin E q (undo c) true : Pc β) = .headRef (.commit c.preCommitSha) c.branch := by
    simp [begin, undo, hValid, hMessage, h.listed, afterSource, hRef]
  let u : World β :=
    { w with call := Function.update w.call k ⟨q, undo c, begin E q (undo c) true⟩ }
  have hs : World.step E w (.call k q (undo c) true) = some u := by
    simp only [World.step, hAbsent, hKnows, if_true, u]
  have hPc : u.pc k = .headRef (.commit c.preCommitSha) c.branch := by
    simp [u, World.pc, hBegin]
  have hReq : u.req k = q := by simp [u, World.req]
  have hOpU : u.op k = .restoreFromSha (.commit c.preCommitSha) [c.path] := by
    simp [u, World.op, undo]
  have hRepo : u.repoOf k = w.repo (c.owner, c.repo) := by
    rw [World.repoOf, hReq, hId]
  obtain ⟨t, tree, hEnded, hBlob⟩ := ended_headRef hPc hOpU h.listed h.branch.2 (hRepo ▸ hHead) (hRepo ▸ hPre) h.path.2.2 hPlain
  refine ⟨u, t, hs, hEnded.alone, hEnded.done, pre, hPre, ?_⟩
  obtain ⟨new, hNew, hEntry⟩ := hEnded.branch
  rw [World.repoOf, hEnded.req, hReq, hId] at hNew
  rw [onBranch, hNew, blobAt, blobAt, Option.bind_some, Option.bind_some, hEntry, hBlob]

omit [DecidableEq β] in
theorem Usable.made {c : Checkpoint} (h : w.Usable E c) (hSound : w.Sound E) {i : Nat} {d : Commit β}
    (hOp : w.op k = undo c) (hRepo : (w.req k).repoId = (c.owner, c.repo)) (hMade : w.Made k i d) :
    ∃ pre, (w.repo (c.owner, c.repo)).treeOf c.preCommitSha = some pre ∧
      blobAt (some d.tree) c.path = blobAt (some pre) c.path := by
  obtain ⟨pre, hPre, hPlain⟩ := h.tree
  obtain ⟨p, v, -, -, hBuilt⟩ := hSound.made (by rw [hOp]; rfl) hMade
  refine ⟨pre, hPre, ?_⟩
  have hSeen : (w.repoOf k).treeUnder p.source = some pre := by
    rw [hBuilt.plan.seen, seenTree, World.asked, hOp]
    simp only [undo, Option.bind_some]
    rw [World.repoOf, hRepo]
    exact hPre
  have hPaths : p.entries.map TreeEntry.path = [c.path] := by
    rw [hBuilt.paths, hOp]
    exact h.listed
  obtain ⟨e, he, hPath⟩ : ∃ e ∈ p.entries, e.path = c.path := by
    apply List.mem_map.mp
    rw [hPaths]
    exact List.mem_singleton_self _
  have hEntries := hBuilt.plan.entries
  rw [hSeen] at hEntries
  have hSha : e.sha = (pre.entry (segments c.path)).map File.blob := by
    have hLook := (hEntries e he).2
    rw [hPath, contents_of_plainAt h.path.2.2 hPlain] at hLook
    exact answerFor_injective hLook.symm
  have hNew := entry_listed hBuilt.tree hEntries he
  rw [hPath] at hNew
  rw [blobAt, blobAt, Option.bind_some, Option.bind_some, hNew, Option.map_map, ← hSha]
  exact Option.map_id_apply

/-- A call that has made a commit has left one record. It names what the call has changed, and
to restore with it gives back what was there right before, at once or among other calls. -/
theorem checkpoint_undoes {w₀ : World β} (hInit : w₀.Initial)
    (h : Reach (World.step E) (Recordable E) w₀ w) {reply : Reply} {commit : Nat}
    (hDone : w.pc n = .done reply) (hOk : reply.failure = none) (hCommit : reply.commit = some commit)
    (hOp : isTagRestore (w.op n) = false) :
    ∃ c v pre, w.itemsBy n = [c] ∧ w.Describes n commit c v ∧
      v.old.bind (w.repo v.repo).treeOf = some pre ∧
      (∀ k q, w.pc k = .absent → Asks c q → q.hasMessage = true →
        ∃ u t, World.step E w (.call k q (undo c) true) = some u ∧ Alone E k u t ∧
          (∃ reply, t.pc k = .done reply ∧ reply.failure = none) ∧
          t.onBranch v.repo v.branch c.path = blobAt (some pre) c.path) ∧
      ∀ k i d, w.op k = undo c → (w.req k).repoId = v.repo → w.Made k i d →
        blobAt (some d.tree) c.path = blobAt (some pre) c.path := by
  obtain ⟨hSound, hKept⟩ := allKept_reach hInit h
  have hCall := hKept n
  rw [hDone] at hCall
  obtain ⟨c, hItems, ⟨⟨v, hv⟩, hUsable⟩⟩ := hCall hOk hOp commit hCommit
  obtain ⟨pre, hPre, -⟩ := hUsable.tree
  refine ⟨c, v, pre, hItems, hv, ?_, fun k q hAbsent hAsks hMessage => ?_, fun k i d hUndo hRepo hMade => ?_⟩
  · rw [hv.old, hv.repo]
    exact hPre
  · obtain ⟨u, t, hs, hAlone, hEnd, pre', hPre', hGiven⟩ := hUsable.undone hAbsent hAsks hMessage
    obtain rfl := Option.some.inj (hPre.symm.trans hPre')
    refine ⟨u, t, hs, hAlone, hEnd, ?_⟩
    rw [hv.repo, hv.branch]
    exact hGiven
  · rw [hv.repo] at hRepo
    obtain ⟨pre', hPre', hGiven⟩ := hUsable.made hSound hUndo hRepo hMade
    obtain rfl := Option.some.inj (hPre.symm.trans hPre')
    exact hGiven

/-! ## Two writes of one file -/

/-- The file has another content after this. -/
def putRun : List (Act Nat) :=
  .call 0 someone (.putFile script [] []) true :: List.replicate 4 (.request 0 .answered)

def committed (w : World Nat) : Bool :=
  match w.pc 0 with
  | .done reply => reply.failure = none && reply.commit = some 2
  | _ => false

theorem done_of_committed {w : World Nat} (h : committed w = true) :
    ∃ reply, w.pc 0 = .done reply ∧ reply.failure = none ∧ reply.commit = some 2 := by
  unfold committed at h
  split at h
  next reply hPc =>
    rw [Bool.and_eq_true, decide_eq_true_eq, decide_eq_true_eq] at h
    exact ⟨reply, hPc, h⟩
  next => cases h

theorem put_recorded : ∃ w : World Nat,
    run (World.step plainHost) (quietWorld (scriptRepo .file)) putRun = some w ∧
      ∃ c v, w.itemsBy 0 = [c] ∧ w.Describes 0 2 c v := by
  obtain ⟨w, hRun, hw⟩ := exists_run_of_any (World.step plainHost) (quietWorld (scriptRepo .file))
    putRun (fun w => committed w && !isTagRestore (w.op 0)) (by decide)
  rw [Bool.and_eq_true, Bool.not_eq_true'] at hw
  obtain ⟨reply, hDone, hOk, hCommit⟩ := done_of_committed hw.1
  obtain ⟨c, v, -, hItems, hv, -⟩ := checkpoint_undoes (quietWorld_initial .file)
    (.of_run hRun (by decide)) hDone hOk hCommit hw.2
  exact ⟨w, hRun, c, v, hItems, hv⟩

/-- The whole file is one function. -/
def renameSymbol : ReplaceSymbol where
  path := script
  symbol := ['f']
  newBody := ['g']
  outline _ := some [.mk ['f'] 1 1 []]
  parses _ := true
  dryRun := false

/-- A replaced symbol is a commit without a record. -/
theorem symbol_not_recorded : ∃ w : World Nat,
    run (World.step plainHost) (quietWorld (scriptRepo .file))
        (.call 0 someone (.replaceSymbol renameSymbol) true :: List.replicate 3 (.request 0 .answered)) =
      some w ∧
      (∃ reply, w.pc 0 = .done reply ∧ reply.failure = none ∧ reply.commit = some 2) ∧
      w.itemsBy 0 = [] := by
  obtain ⟨w, hRun, hw⟩ := exists_run_of_any (World.step plainHost) (quietWorld (scriptRepo .file))
    (.call 0 someone (.replaceSymbol renameSymbol) true :: List.replicate 3 (.request 0 .answered))
    (fun w => committed w && decide (w.itemsBy 0 = [])) (by decide)
  rw [Bool.and_eq_true, decide_eq_true_eq] at hw
  exact ⟨w, hRun, done_of_committed hw.1, hw.2⟩

end World

end OpenSpoke.GitHub.Remote
