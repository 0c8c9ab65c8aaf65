import OpenSpoke.GitHub.Restored

/-!
# Checkpoints

A call that has written leaves a record of the head that it has replaced, and of the place
that it has changed.
-/

namespace OpenSpoke.GitHub.Remote

open Lts
open Python (Text strip)

variable {β : Type} {E : Host β}

/-- There is a regular file at the path, or nothing. -/
def plainAt (t : Files β) (p : Path) : Bool :=
  !t.isDir p && (t.entry p).all fun f => f.mode ≠ .link

/-- The names stand in URLs as they are, and the branch has a regular file at the path, or
nothing. -/
def Undoable (E : Host β) (r : Repo β) (id : RepoId) (b path : Text) : Prop :=
  (id.1 ≠ [] ∧ id.2 ≠ []) ∧ (E.asRead b = b ∧ E.asRead path = path) ∧
    ((r.head b).bind r.treeOf).any (fun t => plainAt t (segments path)) = true

instance (r : Repo β) (id : RepoId) (b path : Text) : Decidable (Undoable E r id b path) :=
  inferInstanceAs (Decidable (_ ∧ _ ∧ _))

theorem contents_of_plainAt {t : Files β} {path : Text} (hRead : E.asRead path = path)
    (h : plainAt t (segments path) = true) :
    Repo.contents E (some t) path = World.answerFor ((t.entry (segments path)).map File.blob) := by
  rw [plainAt, Bool.and_eq_true] at h
  obtain ⟨hDir, hMode⟩ := h
  rw [Bool.not_eq_true'] at hDir
  unfold Repo.contents
  simp only [hRead]
  cases hEntry : t.entry (segments path) with
  | none =>
    rw [hDir]
    rfl
  | some f =>
    obtain ⟨mode, blob⟩ := f
    rw [hEntry, Option.all_some, decide_eq_true_eq] at hMode
    cases mode with
    | link => exact absurd rfl hMode
    | file | executable => rfl

theorem strip_of_mem_listed {p : Text} {paths : List Text} (h : p ∈ listed paths) :
    strip p = p ∧ p ≠ [] := by
  obtain ⟨hMem, hNe⟩ := List.mem_filter.mp h
  obtain ⟨q, -, rfl⟩ := List.mem_map.mp hMem
  exact ⟨Python.strip_strip q, of_decide_eq_true hNe⟩

theorem strip_repoId (q : Request) : strip q.repoId.1 = q.repoId.1 ∧ strip q.repoId.2 = q.repoId.2 :=
  ⟨Python.strip_strip _, Python.strip_strip _⟩

/-- The path that a write of a single file is for. -/
def target : Op → Text
  | .putFile path _ _ | .deleteFile path _ => strip path
  | .regexReplace r => strip r.path
  | .replaceSymbol r => strip r.path
  | .copyFile _ dst _ _ _ => strip dst
  | .restoreFromTag _ _ | .restoreFromSha _ _ => []

theorem strip_target {op : Op} : strip (target op) = target op := by
  cases op with
  | restoreFromTag | restoreFromSha => rfl
  | _ => exact Python.strip_strip _

structure PutOk (q : Request) (op : Op) (put : Put β) : Prop where
  owner : strip put.repo.1 = put.repo.1
  repo : strip put.repo.2 = put.repo.2
  branch : put.branch = q.ref
  path : put.path = target op
  named : target op ≠ []

def isTagRestore : Op → Bool
  | .restoreFromTag _ _ => true
  | _ => false

namespace World

variable {w t : World β} {n m : Nat} {a : Answer}

def itemsBy (w : World β) (n : Nat) : List Checkpoint := w.index.filter fun c => c.author = n

/-- The record names what the call has changed. -/
structure Describes (w : World β) (n commit : Nat) (c : Checkpoint) (v : Move) : Prop where
  move : v ∈ w.moves
  author : v.author = n
  new : v.new = commit
  repo : v.repo = (c.owner, c.repo)
  branch : v.branch = c.branch
  paths : v.paths = [segments c.path]
  old : v.old = some c.preCommitSha

/-- A restore can be asked for with what the record says. -/
structure Usable (E : Host β) (w : World β) (c : Checkpoint) : Prop where
  owner : strip c.owner = c.owner ∧ c.owner ≠ []
  repo : strip c.repo = c.repo ∧ c.repo ≠ []
  branch : c.branch ≠ [] ∧ E.asRead c.branch = c.branch
  path : strip c.path = c.path ∧ c.path ≠ [] ∧ E.asRead c.path = c.path
  tree : ∃ t, (w.repo (c.owner, c.repo)).treeOf c.preCommitSha = some t ∧
    plainAt t (segments c.path) = true
  head : ∃ k, (w.repo (c.owner, c.repo)).head c.branch = some k

structure Kept (E : Host β) (w : World β) (n commit : Nat) (c : Checkpoint) : Prop where
  describes : ∃ v, w.Describes n commit c v
  usable : w.Usable E c

def KeptAt (E : Host β) (w : World β) (n : Nat) : Pc β → Prop
  | .reading | .checking _ => w.itemsBy n = [] ∧ target (w.op n) ≠ []
  | .lookingUp put | .putting put _ => w.itemsBy n = [] ∧ PutOk (w.req n) (w.op n) put
  | .parentLookup put commit => w.itemsBy n = [] ∧ put.tool ≠ none ∧
    ∃ parent, ∀ tool, w.Kept E n commit (putCheckpoint (w.req n) put tool parent n)
  | .recording c reply => w.itemsBy n = [] ∧ c.author = n ∧
    ∀ commit, reply.commit = some commit → w.Kept E n commit c
  | .done reply => reply.failure = none → isTagRestore (w.op n) = false →
    ∀ commit, reply.commit = some commit → ∃ c, w.itemsBy n = [c] ∧ w.Kept E n commit c
  | _ => w.itemsBy n = []

/-- The records of all calls are as they should be. -/
def AllKept (E : Host β) (w : World β) : Prop := ∀ n, w.KeptAt E n (w.pc n)

/-- A restore from a sha is of one path, and its record can undo it. -/
def RestoresOne (E : Host β) (r : Repo β) (id : RepoId) (b : Text) : Op → Prop
  | .restoreFromSha _ paths => ∃ path ∈ listed paths, listed paths = [path] ∧ Undoable E r id b path
  | _ => True

instance (r : Repo β) (id : RepoId) (b : Text) : (op : Op) → Decidable (RestoresOne E r id b op)
  | .restoreFromSha _ paths => inferInstanceAs (Decidable (∃ path ∈ listed paths, _))
  | .putFile .. | .regexReplace .. | .replaceSymbol .. | .copyFile .. | .deleteFile ..
  | .restoreFromTag .. => .isTrue trivial

section Condition

variable [DecidableEq β]

def RecordableAt (E : Host β) (w : World β) (n : Nat) (a : Answer) : Pc β → Prop
  | .parentLookup _ _ | .recording _ _ => a = .answered
  | .putting put given =>
    a = .answered →
      ((w.repo put.repo).putContents E put.branch put.path given put.new n).isSome = true →
      put.tool ≠ none ∧ (w.req n).skipAutockpt = false ∧
        put.branch.getD mainBranch = (w.repo put.repo).branchName put.branch ∧
        Undoable E (w.repo put.repo) put.repo (put.branch.getD mainBranch) put.path
  | .updateRef p commit =>
    a = .answered → ((w.repoOf n).updateRef (E.asRead p.branch) commit).isSome = true →
      RestoresOne E (w.repoOf n) (w.req n).repoId p.branch (w.op n)
  | _ => True

instance : (pc : Pc β) → Decidable (w.RecordableAt E n a pc)
  | .parentLookup .. | .recording .. => inferInstanceAs (Decidable (a = _))
  | .putting .. | .updateRef .. => inferInstanceAs (Decidable (a = _ → _))
  | .absent | .tagRef | .tagObject .. | .defaultBranch .. | .headRef .. | .headCommit ..
  | .contents .. | .createTree .. | .createCommit .. | .reading | .checking .. | .lookingUp ..
  | .done .. => .isTrue trivial

/-- A write that is made has a record, and the place it changes is one that the record can
name; what is asked for the record is answered. -/
def Recordable (E : Host β) (w : World β) : Act β → Prop
  | .request n a => w.RecordableAt E n a (w.pc n)
  | _ => True

instance : (act : Act β) → Decidable (w.Recordable E act)
  | .request n a => inferInstanceAs (Decidable (w.RecordableAt E n a _))
  | .call .. | .outside .. => .isTrue trivial

end Condition

/-! ## What stays -/

theorem Kept.later {commit : Nat} {c : Checkpoint} (hLater : w.Later t) (h : w.Kept E n commit c) :
    t.Kept E n commit c := by
  obtain ⟨v, hv⟩ := h.describes
  obtain ⟨pre, hTree, hPlain⟩ := h.usable.tree
  obtain ⟨k, hHead⟩ := h.usable.head
  obtain ⟨k', hHead', -⟩ := (hLater.repo _).head _ _ hHead
  exact ⟨⟨v, { hv with move := hLater.moves v hv.move }⟩,
    { h.usable with tree := ⟨pre, (hLater.repo _).treeOf hTree, hPlain⟩, head := ⟨k', hHead'⟩ }⟩

theorem KeptAt.later {pc : Pc β} (hLater : w.Later t) (hReq : t.req n = w.req n)
    (hOp : t.op n = w.op n) (hItems : t.itemsBy n = w.itemsBy n) (h : w.KeptAt E n pc) :
    t.KeptAt E n pc := by
  cases pc with
  | reading | checking text | lookingUp put | putting put given =>
    simp only [KeptAt, hReq, hOp, hItems] at h ⊢
    exact h
  | parentLookup put commit =>
    obtain ⟨hNone, hTool, parent, hKept⟩ := h
    refine ⟨hItems.trans hNone, hTool, parent, fun tool => ?_⟩
    rw [hReq]
    exact (hKept tool).later hLater
  | recording c reply =>
    obtain ⟨hNone, hAuthor, hKept⟩ := h
    exact ⟨hItems.trans hNone, hAuthor, fun commit hCommit => (hKept commit hCommit).later hLater⟩
  | done reply =>
    intro hOk hTag commit hCommit
    rw [hOp] at hTag
    obtain ⟨c, hOne, hKept⟩ := h hOk hTag commit hCommit
    exact ⟨c, hItems.trans hOne, hKept.later hLater⟩
  | absent | tagRef | tagObject | defaultBranch | headRef | headCommit | contents | createTree
  | createCommit | updateRef => exact hItems.trans h

theorem AllKept.goto (h : w.AllKept E) {u : World β} {pc : Pc β} (hCall : u.call = w.call)
    (hLater : w.Later u) (hItems : ∀ m, m ≠ n → u.itemsBy m = w.itemsBy m)
    (hMine : (u.goto n pc).KeptAt E n pc) : (u.goto n pc).AllKept E := by
  intro m
  by_cases hmn : m = n
  · subst hmn
    rw [pc_goto_self]
    exact hMine
  · have hSame : SameCalls w (u.goto n pc) n := sameCalls_goto hCall
    rw [hSame.pc m hmn]
    exact (h m).later (hLater.trans later_goto) (hSame.req m) (hSame.op m) (hItems m hmn)

theorem Initial.allKept (h : w.Initial) : w.AllKept E := by
  intro n
  rw [h.absent n]
  change w.itemsBy n = []
  rw [itemsBy, h.index]
  rfl

/-! ## Steps -/

section Looks

theorem keptAt_failed {reply : Reply} (h : reply.failure ≠ none) : w.KeptAt E n (.done reply) :=
  fun hOk => absurd hOk h

theorem keptAt_fail {f : Failure} : w.KeptAt E n (fail f) := keptAt_failed (by simp [Reply.failed])

theorem keptAt_without {reply : Reply} (h : reply.commit = none) : w.KeptAt E n (.done reply) := by
  intro _ _ commit hCommit
  rw [h] at hCommit
  cases hCommit

theorem putOk_target {q : Request} {op : Op} {new : Option β} {tool : Option Text}
    (h : target op ≠ []) : PutOk q op ⟨q.repoId, q.ref, target op, new, tool⟩ :=
  ⟨(strip_repoId q).1, (strip_repoId q).2, rfl, rfl, h⟩

theorem copyPut_ok {text dst dstOwner dstRepo : Text} (hPath : strip dst = target (w.op n))
    (hTarget : target (w.op n) ≠ []) :
    PutOk (w.req n) (w.op n) (copyPut E (w.req n) dst dstOwner dstRepo text) :=
  ⟨Python.strip_strip _, Python.strip_strip _, rfl, hPath, hTarget⟩

variable (hItems : w.itemsBy n = [])

include hItems

theorem keptAt_afterSource {q : Request} {source : Object} : w.KeptAt E n (afterSource q source) := by
  unfold afterSource
  split
  · exact hItems
  · exact hItems

theorem keptAt_nextPath {p : Plan β} {rest : List Text} : w.KeptAt E n (nextPath p rest) := by
  cases rest with
  | nil => exact hItems
  | cons path rest => exact hItems

theorem keptAt_afterContents {p : Plan β} {path : Text} {rest : List Text} {c : Content β} :
    w.KeptAt E n (afterContents p path rest c) := by
  cases c with
  | file blob => exact keptAt_nextPath hItems
  | notFound => exact keptAt_nextPath hItems
  | link blob | dir => exact keptAt_fail

theorem keptAt_afterEdit {path : Text} {dryRun : Bool} {tool new : Option Text}
    (hPath : strip path = target (w.op n)) (hTarget : target (w.op n) ≠ []) :
    w.KeptAt E n (afterEdit E (w.req n) path dryRun tool new) := by
  unfold afterEdit
  split
  · exact keptAt_fail
  · split
    · exact keptAt_without rfl
    · rw [hPath]
      exact ⟨hItems, putOk_target hTarget⟩

theorem keptAt_afterReading {c : Content β} (hTarget : target (w.op n) ≠ []) :
    w.KeptAt E n (afterReading E (w.req n) c (w.op n)) := by
  unfold afterReading
  split
  next hOp =>
    split
    · exact keptAt_fail
    · exact keptAt_afterEdit hItems (by rw [hOp]; rfl) hTarget
  next hOp =>
    split
    · exact keptAt_fail
    · exact keptAt_afterEdit hItems (by rw [hOp]; rfl) hTarget
  next hOp =>
    split
    · exact keptAt_fail
    · split
      · exact ⟨hItems, copyPut_ok (by rw [hOp]; rfl) hTarget⟩
      · exact ⟨hItems, hTarget⟩
  next => exact keptAt_fail

end Looks

theorem keptAt_begin {q : Request} {op : Op} {token : Bool} (hReq : w.req n = q) (hOp : w.op n = op)
    (hItems : w.itemsBy n = []) : w.KeptAt E n (begin E q op token) := by
  have hChecked : ∀ {ok : Bool} {pc : Pc β}, (ok = true → w.KeptAt E n pc) → w.KeptAt E n
      (if !(q.valid && ok) then .done (.failed .required)
        else if !token then .done (.failed .token) else pc) := by
    intro ok pc hPc
    split
    · exact keptAt_fail
    next hValid =>
      split
      · exact keptAt_fail
      · rw [Bool.not_eq_true, Bool.not_eq_false', Bool.and_eq_true] at hValid
        exact hPc hValid.2
  subst hReq hOp
  cases hOp : w.op n with
  | putFile | deleteFile =>
    apply hChecked
    intro hOk
    rw [Bool.and_eq_true, decide_eq_true_eq] at hOk
    refine ⟨hItems, ?_⟩
    rw [hOp]
    exact putOk_target hOk.1
  | regexReplace r =>
    apply hChecked
    intro hOk
    rw [Bool.and_eq_true, decide_eq_true_eq] at hOk
    refine ⟨hItems, ?_⟩
    rw [hOp]
    exact hOk.1
  | replaceSymbol r =>
    apply hChecked
    intro hOk
    rw [Bool.and_eq_true, Bool.and_eq_true, decide_eq_true_eq] at hOk
    refine ⟨hItems, ?_⟩
    rw [hOp]
    exact hOk.1.1
  | copyFile src dst dstOwner dstRepo overwrite =>
    simp only [begin]
    split
    · exact keptAt_fail
    · apply hChecked
      intro hOk
      rw [Bool.and_eq_true, Bool.and_eq_true, decide_eq_true_eq, decide_eq_true_eq] at hOk
      refine ⟨hItems, ?_⟩
      rw [hOp]
      exact hOk.1.2
  | restoreFromTag tag paths => exact hChecked fun _ => hItems
  | restoreFromSha sha paths => exact hChecked fun _ => keptAt_afterSource hItems

variable [DecidableEq β]

theorem keptAt_look (hSound : w.Sound E) {pc pc' : Pc β} (h : w.KeptAt E n pc) {a : Answer}
    (hAnswered : ∀ put commit, pc = .parentLookup put commit → a = .answered)
    (hLook : w.look E n a pc = some pc') : w.KeptAt E n pc' := by
  cases pc <;> simp only [World.look, Option.some.injEq, reduceCtorEq] at hLook
  case tagRef =>
    split at hLook
    · split at hLook <;> cases hLook
      · exact h
      · exact keptAt_afterSource h
      · exact keptAt_fail
    · cases hLook
      exact keptAt_fail
  case tagObject o =>
    split at hLook <;> cases hLook
    · exact keptAt_afterSource h
    · exact keptAt_fail
    · exact keptAt_afterSource h
  case defaultBranch | headRef =>
    split at hLook <;> cases hLook
    · exact h
    · exact keptAt_fail
  case headCommit =>
    split at hLook <;> cases hLook
    · exact keptAt_nextPath h
    · exact keptAt_fail
  case contents =>
    split at hLook <;> cases hLook
    · exact keptAt_afterContents h
    · exact keptAt_fail
  case createTree p =>
    split at hLook
    · split at hLook <;> cases hLook
      · exact keptAt_without rfl
      · exact h
    · cases hLook
      exact keptAt_fail
  case reading =>
    split at hLook <;> cases hLook
    · exact keptAt_afterReading h.1 h.2
    · exact keptAt_fail
  case checking text =>
    obtain ⟨hItems, hTarget⟩ := h
    split at hLook
    next hOp =>
      split at hLook <;> cases hLook
      · exact keptAt_fail
      · exact ⟨hItems, copyPut_ok (by rw [hOp]; rfl) hTarget⟩
    next => cases hLook
  case lookingUp put =>
    split at hLook <;> cases hLook
    · exact keptAt_without rfl
    · exact h
  case parentLookup put commit =>
    obtain ⟨hItems, hTool, parent, hKept⟩ := h
    obtain rfl := hAnswered put commit rfl
    obtain ⟨tool, hTool⟩ := Option.ne_none_iff_exists'.mp hTool
    obtain ⟨v, hv⟩ := (hKept tool).describes
    obtain ⟨-, c, hc, hParents, -⟩ := hSound.moves v hv.move
    have hParent : ((w.repo put.repo).commits[commit]?).bind (fun c => c.parents.head?) =
        some parent := by
      rw [hv.repo, hv.new] at hc
      change (w.repo put.repo).commits[commit]? = some c at hc
      rw [hc, Option.bind_some, hParents, hv.old]
      rfl
    rw [hParent, hTool] at hLook
    cases hLook
    refine ⟨hItems, rfl, fun k hk => ?_⟩
    cases hk
    exact hKept tool

omit [DecidableEq β] in
theorem undoable_tree {r : Repo β} {id : RepoId} {b path : Text} (h : Undoable E r id b path) :
    ∃ k t, r.head b = some k ∧ r.treeOf k = some t ∧ plainAt t (segments path) = true := by
  obtain ⟨-, -, hAny⟩ := h
  cases hHead : r.head b with
  | none => simp [hHead] at hAny
  | some k =>
    rw [hHead, Option.bind_some] at hAny
    cases hTree : r.treeOf k with
    | none => simp [hTree] at hAny
    | some t =>
      rw [hTree, Option.any_some] at hAny
      exact ⟨k, t, rfl, hTree, hAny⟩

omit [DecidableEq β] in
theorem branchName_ne_nil {r : Repo β} {q : Request} : r.branchName q.ref ≠ [] := by
  unfold Repo.branchName Request.ref
  split
  · exact r.named
  next hNe => exact hNe

omit [DecidableEq β] in
theorem kept_of_move {c : Checkpoint} {commit : Nat} {v : Move} (hLater : w.Later t)
    (hMove : v ∈ t.moves)
    (hv : v = ⟨(c.owner, c.repo), c.branch, [segments c.path], some c.preCommitSha, commit, n⟩)
    (hUndo : Undoable E (w.repo (c.owner, c.repo)) (c.owner, c.repo) c.branch c.path)
    (hHead : (w.repo (c.owner, c.repo)).head c.branch = some c.preCommitSha)
    (hRepo : strip c.owner = c.owner ∧ strip c.repo = c.repo) (hBranch : c.branch ≠ [])
    (hPath : strip c.path = c.path ∧ c.path ≠ []) : t.Kept E n commit c := by
  obtain ⟨k, tree, hOld, hTree, hPlain⟩ := undoable_tree hUndo
  obtain ⟨⟨hOwner, hName⟩, ⟨hBranchRead, hPathRead⟩, -⟩ := hUndo
  obtain rfl := Option.some.inj (hHead.symm.trans hOld)
  obtain ⟨k', hNew, -⟩ := (hLater.repo _).head _ _ hHead
  subst hv
  refine ⟨⟨_, hMove, rfl, rfl, rfl, rfl, rfl, rfl⟩, ?_⟩
  constructor
  · exact ⟨hRepo.1, hOwner⟩
  · exact ⟨hRepo.2, hName⟩
  · exact ⟨hBranch, hBranchRead⟩
  · exact ⟨hPath.1, hPath.2, hPathRead⟩
  · exact ⟨tree, (hLater.repo _).treeOf hTree, hPlain⟩
  · exact ⟨k', hNew⟩

theorem AllKept.wrote (h : w.AllKept E) {put : Put β} {given : Option β} {tree : Files β} {b : Text}
    (hPc : w.pc n = .putting put given) (hOk : w.Recordable E (.request n a))
    (hb : b = (w.repo put.repo).branchName put.branch)
    (hp : ∀ q ∈ ((w.repo put.repo).head b).toList, q < (w.repo put.repo).commits.length)
    (hSome : ((w.repo put.repo).putContents E put.branch put.path given put.new n).isSome = true) :
    ((w.moved put.repo
      ((w.repo put.repo).commitOn b ⟨tree, ((w.repo put.repo).head b).toList, some n⟩ hp)
      ⟨put.repo, b, [segments (E.asRead put.path)], (w.repo put.repo).head b,
        (w.repo put.repo).commits.length, n⟩).goto n
      (if a = .answered then afterPut (w.req n) put (w.repo put.repo).commits.length
        else fail .write)).AllKept E := by
  have hGrows : (w.repo put.repo).Grows
      ((w.repo put.repo).commitOn b ⟨tree, ((w.repo put.repo).head b).toList, some n⟩ hp) :=
    Repo.grows_commitOn
  have hLater : w.Later (w.moved put.repo _ ⟨put.repo, b, [segments (E.asRead put.path)],
      (w.repo put.repo).head b, (w.repo put.repo).commits.length, n⟩) := later_moved hGrows
  apply h.goto (u := w.moved _ _ _) rfl hLater (fun _ _ => rfl)
  split
  next hA =>
    have hCall := h n
    rw [hPc] at hCall
    obtain ⟨hItems, hPut⟩ := hCall
    rw [Recordable, hPc] at hOk
    obtain ⟨hTool, hSkip, hBranch, hUndo⟩ := hOk hA hSome
    rw [← hb] at hBranch
    obtain ⟨k, -, hHead, -⟩ := undoable_tree hUndo
    obtain ⟨tool, hTool⟩ := Option.ne_none_iff_exists'.mp hTool
    unfold afterPut
    rw [hTool, hSkip]
    refine ⟨hItems, by simp [hTool], k, fun tool' => ?_⟩
    rw [req_goto]
    apply kept_of_move (w := w) (hLater.trans later_goto) (List.mem_cons_self)
    · rw [Move.mk.injEq]
      exact ⟨rfl, hBranch.symm, by rw [hUndo.2.1.2]; rfl, hBranch ▸ hHead, rfl, rfl⟩
    · exact hUndo
    · exact hHead
    · exact ⟨hPut.owner, hPut.repo⟩
    · change put.branch.getD mainBranch ≠ []
      rw [hBranch, hb, hPut.branch]
      exact branchName_ne_nil
    · change strip put.path = put.path ∧ put.path ≠ []
      rw [hPut.path]
      exact ⟨strip_target, hPut.named⟩
  next => exact keptAt_fail

theorem AllKept.updated (h : w.AllKept E) (hSound : w.Sound E) {p : Plan β} {commit cur : Nat}
    (hPc : w.pc n = .updateRef p commit) (hOk : w.Recordable E (.request n a))
    (hk : commit < (w.repoOf n).commits.length)
    (hHead : (w.repoOf n).head (E.asRead p.branch) = some cur)
    (hAnc : (w.repoOf n).isAncestor cur commit = true) :
    ((w.moved (w.req n).repoId ((w.repoOf n).moveHead (E.asRead p.branch) commit hk)
      ⟨(w.req n).repoId, E.asRead p.branch, p.entries.map fun e => e.file.1, some cur, commit, n⟩).goto n
      (if a = .answered then afterUpdate (w.req n) (w.op n) p commit n else fail .updateRef)).AllKept E := by
  obtain rfl := hSound.head_of_update hPc hHead hAnc
  have hCommitted : w.Committed E n p commit := by
    have hCall := hSound.calls n
    rw [hPc] at hCall
    exact hCall
  obtain ⟨tree, hBuilt, hCommit⟩ := hCommitted.built
  have hGrows := hCommitted.grows hk hHead
  have hLater : w.Later (w.moved (w.req n).repoId _ ⟨(w.req n).repoId, E.asRead p.branch,
      p.entries.map fun e => e.file.1, some p.head, commit, n⟩) := later_moved hGrows
  apply h.goto (u := w.moved _ _ _) rfl hLater (fun _ _ => rfl)
  split
  next hA =>
    have hItems : w.itemsBy n = [] := by
      have hCall := h n
      rw [hPc] at hCall
      exact hCall
    have hSome : ((w.repoOf n).updateRef (E.asRead p.branch) commit).isSome = true := by
      simp [Repo.updateRef, hHead, hk, hAnc]
    rw [Recordable, hPc] at hOk
    have hOk := hOk hA hSome
    unfold afterUpdate
    split
    next sha paths hOp =>
      rw [hOp] at hOk
      obtain ⟨path, -, hPaths, hOk⟩ := hOk
      have hBranch : E.asRead p.branch = p.branch := hOk.2.1.1
      have hEntries : p.entries.map (fun e => e.file.1) = [segments path] := by
        have hAll := hBuilt.paths
        rw [hOp, listedPaths, hPaths] at hAll
        rw [← List.map_singleton, ← hAll, List.map_map]
        rfl
      refine ⟨hItems, rfl, fun k hCommit => ?_⟩
      cases hCommit
      rw [hPaths]
      apply kept_of_move (w := w) (hLater.trans later_goto) (List.mem_cons_self)
      · rw [Move.mk.injEq]
        exact ⟨rfl, hBranch, hEntries, rfl, rfl, rfl⟩
      · exact hOk
      · rw [hBranch] at hHead
        exact hHead
      · exact strip_repoId (w.req n)
      · have hName := hBuilt.plan.branch
        rw [BranchOk] at hName
        change p.branch ≠ []
        rw [hName]
        exact branchName_ne_nil
      · exact strip_of_mem_listed (hPaths ▸ List.mem_singleton_self path)
    next hNot =>
      intro _ hTag
      rw [op_goto] at hTag
      change isTagRestore (w.op n) = false at hTag
      obtain ⟨o, hAsked, -⟩ := hBuilt.plan.source
      cases hOp : w.op n with
      | restoreFromTag =>
        rw [hOp] at hTag
        cases hTag
      | restoreFromSha sha paths => exact absurd hOp (hNot sha paths)
      | _ =>
        rw [World.asked, hOp] at hAsked
        cases hAsked
  next => exact keptAt_fail

omit [DecidableEq β] in
theorem itemsBy_of_ne {c : Checkpoint} (hAuthor : c.author = n) (m : Nat) (hm : m ≠ n) :
    World.itemsBy { w with index := c :: w.index } m = w.itemsBy m := by
  apply List.filter_cons_of_neg
  rw [hAuthor]
  simpa using hm.symm

theorem AllKept.took (h : w.AllKept E) (hSound : w.Sound E) (hOk : w.Recordable E (.request n a))
    (ht : Took E w n a t) : t.AllKept E := by
  have hCall := h n
  cases ht with
  | looked pc hLook =>
    have hKept : w.KeptAt E n pc := by
      apply keptAt_look hSound hCall _ hLook
      intro put commit hPc
      rw [Recordable, hPc] at hOk
      exact hOk
    exact h.goto rfl (.refl w) (fun _ _ => rfl) (hKept.later later_goto req_goto op_goto rfl)
  | created p tree hA hPc hp =>
    rw [hPc] at hCall
    apply h.goto (u := w.setRepo _ _) rfl (later_setRepo Repo.grows_add) (fun _ _ => rfl)
    split
    · exact hCall
    · exact keptAt_fail
  | updated p commit cur hA hPc hk hHead hAnc => exact h.updated hSound hPc hOk hk hHead hAnc
  | wrote put given base tree hA hPc hp hEdit hBase hSome => exact h.wrote hPc hOk rfl hp hSome
  | recorded c reply hPc =>
    rw [Recordable, hPc] at hOk
    rw [hPc] at hCall
    obtain ⟨hNone, hAuthor, hKept⟩ := hCall
    obtain rfl : a = .answered := hOk
    have hLater : w.Later { w with index := c :: w.index } := ⟨fun _ => .refl _, fun _ hv => hv⟩
    rw [if_neg (by decide)]
    apply h.goto (u := { w with index := c :: w.index }) rfl hLater (itemsBy_of_ne hAuthor)
    intro _ _ commit hCommit
    refine ⟨c, ?_, (hKept commit hCommit).later (hLater.trans later_goto)⟩
    rw [← hNone]
    exact List.filter_cons_of_pos (decide_eq_true hAuthor)
  | refused reply hPrep hFail =>
    exact h.goto rfl (.refl w) (fun _ _ => rfl) (keptAt_failed hFail)

omit [DecidableEq β] in
theorem AllKept.called (h : w.AllKept E) (hPc : w.pc n = .absent) {q : Request} {op : Op}
    {token : Bool} :
    World.AllKept E { w with call := Function.update w.call n ⟨q, op, begin E q op token⟩ } := by
  intro m
  have hLater : w.Later { w with call := Function.update w.call n ⟨q, op, begin E q op token⟩ } :=
    ⟨fun _ => .refl _, fun _ hv => hv⟩
  by_cases hmn : m = n
  · subst hmn
    have hItems : w.itemsBy m = [] := by
      have hCall := h m
      rw [hPc] at hCall
      exact hCall
    simp only [World.pc, Function.update_self]
    exact keptAt_begin (by simp [World.req]) (by simp [World.op]) hItems
  · simp only [World.pc, Function.update_of_ne hmn]
    exact (h m).later hLater (by simp [World.req, hmn]) (by simp [World.op, hmn]) rfl

theorem AllKept.step (h : w.AllKept E) (hSound : w.Sound E) {act : Act β} (hOk : w.Recordable E act)
    (hs : World.step E w act = some t) : t.AllKept E := by
  cases act with
  | call n q op token =>
    cases hPc : w.pc n <;> simp only [World.step, hPc, reduceCtorEq] at hs
    split at hs
    · cases hs
      exact h.called hPc
    · cases hs
  | request n a => exact h.took hSound hOk (request_took hs)
  | outside id b tree merged =>
    simp only [World.step, World.outside] at hs
    split at hs
    · split at hs
      · cases hs
        intro m
        exact (h m).later (later_setRepo Repo.grows_commitOn) rfl rfl rfl
      · cases hs
    · cases hs

theorem allKept_reach {w₀ : World β} (hInit : w₀.Initial)
    (h : Reach (World.step E) (Recordable E) w₀ w) : w.Sound E ∧ w.AllKept E := by
  refine @Reach.invariant _ _ _ _ (fun w : World β => w.Sound E ∧ w.AllKept E) _ _
    ⟨hInit.sound, hInit.allKept⟩ (fun _ _ _ _ hInv hOk hs => ?_) h
  exact ⟨hInv.1.step hs, hInv.2.step hInv.1 hOk hs⟩

end World

end OpenSpoke.GitHub.Remote
