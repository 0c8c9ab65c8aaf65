import OpenSpoke.GitHub.Calls

/-!
# What a call has found out and done

What a step of a call does, and what is known at each point of a restore: repositories
only grow, so that it stays true whatever the others do.
-/

namespace OpenSpoke.GitHub.Remote

open Lts
open Python (Text strip)

variable {β : Type}

def Pc.preparing : Pc β → Bool
  | .parentLookup _ _ | .recording _ _ | .done _ => false
  | _ => true

namespace World

variable {E : Host β} {w t : World β} {n m : Nat} {a : Answer}

/-- The sha that the source of a restore has been given as. -/
def asked (E : Host β) (w : World β) (n : Nat) : Option Object :=
  match w.op n with
  | .restoreFromTag tag _ => (w.repoOf n).tag (E.asRead (strip tag))
  | .restoreFromSha sha _ => some sha
  | _ => none

def SourceOk (E : Host β) (w : World β) (n : Nat) (source : Object) : Prop :=
  ∃ o, w.asked E n = some o ∧ source.leadsTo = o.leadsTo ∧
    ∀ k, o.leadsTo = some k → k < (w.repoOf n).commits.length

def BranchOk (w : World β) (n : Nat) (b : Text) : Prop := b = (w.repoOf n).branchName (w.req n).ref

/-- The head that has been read is the head of the branch, or was it earlier. -/
def HeadOk (E : Host β) (w : World β) (n : Nat) (b : Text) (head : Nat) : Prop :=
  ∃ cur, (w.repoOf n).head (E.asRead b) = some cur ∧ head ≤ cur

/-- What a look at the source answers for a path with this blob, or without one. -/
def answerFor : Option β → Content β
  | some blob => .file blob
  | none => .notFound

structure PlanOk (E : Host β) (w : World β) (n : Nat) (p : Plan β) : Prop where
  source : w.SourceOk E n p.source
  branch : w.BranchOk n p.branch
  head : w.HeadOk E n p.branch p.head
  tree : (w.repoOf n).treeOf p.head = some p.headTree
  entries : ∀ e ∈ p.entries, e.mode = .file ∧
    Repo.contents E ((w.repoOf n).treeUnder p.source) e.path = answerFor e.sha

structure Built (E : Host β) (w : World β) (n : Nat) (p : Plan β) (tree : Files β) : Prop where
  plan : w.PlanOk E n p
  paths : p.entries.map TreeEntry.path = listedPaths (w.op n)
  tree : Repo.createTree p.headTree p.entries = some tree

/-- The commit of a restore is there. -/
structure Committed (E : Host β) (w : World β) (n : Nat) (p : Plan β) (commit : Nat) : Prop where
  built : ∃ tree, w.Built E n p tree ∧
    (w.repoOf n).commits[commit]? = some ⟨tree, [p.head], some n⟩

def restoreMove (E : Host β) (w : World β) (n : Nat) (p : Plan β) (commit : Nat) : Move :=
  ⟨(w.req n).repoId, E.asRead p.branch, p.entries.map fun e => e.file.1, some p.head, commit, n⟩

/-- The restore has moved the branch. -/
def Restored (E : Host β) (w : World β) (n commit : Nat) : Prop :=
  ∃ p, w.Committed E n p commit ∧ w.restoreMove E n p commit ∈ w.moves

def isRestore : Op → Bool
  | .restoreFromTag _ _ | .restoreFromSha _ _ => true
  | _ => false

def CallOk (E : Host β) (w : World β) (n : Nat) : Pc β → Prop
  | .tagObject o => w.SourceOk E n o
  | .defaultBranch source => w.SourceOk E n source ∧ (w.req n).ref = none
  | .headRef source b => w.SourceOk E n source ∧ w.BranchOk n b
  | .headCommit source b head => w.SourceOk E n source ∧ w.BranchOk n b ∧ w.HeadOk E n b head
  | .contents p path rest =>
    w.PlanOk E n p ∧ p.entries.map TreeEntry.path ++ path :: rest = listedPaths (w.op n)
  | .createTree p => w.PlanOk E n p ∧ p.entries.map TreeEntry.path = listedPaths (w.op n)
  | .createCommit p tree => w.Built E n p tree
  | .updateRef p commit => w.Committed E n p commit
  | .recording _ reply => reply.failure = none ∧ reply.commit ≠ none ∧
    (isRestore (w.op n) = true → reply.failure = none → ∀ commit, reply.commit = some commit →
      w.Restored E n commit)
  | .done reply =>
    isRestore (w.op n) = true → reply.failure = none → ∀ commit, reply.commit = some commit →
      w.Restored E n commit
  | .reading | .checking _ | .lookingUp _ | .putting _ _ | .parentLookup _ _ =>
    isRestore (w.op n) = false
  | .absent | .tagRef => True

/-! ## Steps -/

section Frame

theorem op_goto {pc : Pc β} : (w.goto n pc).op m = w.op m := by
  by_cases h : m = n
  · subst h
    simp [goto, World.op]
  · simp [goto, World.op, h]

theorem req_goto {pc : Pc β} : (w.goto n pc).req m = w.req m := by
  by_cases h : m = n
  · subst h
    simp [goto, World.req]
  · simp [goto, World.req, h]

@[simp] theorem pc_goto_self {pc : Pc β} : (w.goto n pc).pc n = pc := by simp [goto, World.pc]

theorem pc_goto_of_ne {pc : Pc β} (h : m ≠ n) : (w.goto n pc).pc m = w.pc m := by
  simp [goto, World.pc, h]

@[simp] theorem repo_goto {pc : Pc β} : (w.goto n pc).repo = w.repo := rfl

@[simp] theorem moves_goto {pc : Pc β} : (w.goto n pc).moves = w.moves := rfl

@[simp] theorem index_goto {pc : Pc β} : (w.goto n pc).index = w.index := rfl

@[simp] theorem repo_setRepo_self {id : RepoId} {r : Repo β} : (w.setRepo id r).repo id = r := by
  simp [setRepo]

theorem repo_setRepo_of_ne {id x : RepoId} {r : Repo β} (h : x ≠ id) :
    (w.setRepo id r).repo x = w.repo x := by
  simp [setRepo, h]

end Frame

/-- Repositories grow, the calls keep what they have been asked, and no move is forgotten. -/
structure Later (w t : World β) : Prop where
  repo : ∀ id, (w.repo id).Grows (t.repo id)
  moves : ∀ m ∈ w.moves, m ∈ t.moves

theorem Later.refl (w : World β) : w.Later w := ⟨fun _ => .refl _, fun _ h => h⟩

theorem later_goto {pc : Pc β} : w.Later (w.goto n pc) := ⟨fun _ => .refl _, fun _ h => h⟩

theorem Later.trans {u : World β} (h : w.Later t) (h' : t.Later u) : w.Later u :=
  ⟨fun id => (h.repo id).trans (h'.repo id), fun m hm => h'.moves m (h.moves m hm)⟩

theorem later_setRepo {id : RepoId} {r : Repo β} (h : (w.repo id).Grows r) :
    w.Later (w.setRepo id r) := by
  refine ⟨fun x => ?_, fun m hm => hm⟩
  by_cases hx : x = id
  · subst hx
    rw [repo_setRepo_self]
    exact h
  · rw [repo_setRepo_of_ne hx]
    exact .refl _

theorem later_moved {id : RepoId} {r : Repo β} {m : Move} (h : (w.repo id).Grows r) :
    w.Later (w.moved id r m) :=
  ⟨(later_setRepo h).repo, fun _ hm => List.mem_cons_of_mem _ hm⟩

section Later

variable (h : w.Later t) (hReq : t.req n = w.req n) (hOp : t.op n = w.op n)

include h hReq

theorem Later.repoOf : (w.repoOf n).Grows (t.repoOf n) := by
  unfold World.repoOf
  rw [hReq]
  exact h.repo _

theorem BranchOk.later {b : Text} (hb : w.BranchOk n b) : t.BranchOk n b := by
  unfold BranchOk
  rw [hReq, (h.repoOf hReq).branchName]
  exact hb

theorem HeadOk.later {b : Text} {head : Nat} (hHead : w.HeadOk E n b head) : t.HeadOk E n b head := by
  obtain ⟨cur, hCur, hle⟩ := hHead
  obtain ⟨cur', hCur', hle'⟩ := (h.repoOf hReq).head _ _ hCur
  exact ⟨cur', hCur', hle.trans hle'⟩

include hOp

theorem Later.asked : t.asked E n = w.asked E n := by
  unfold World.asked
  rw [hOp, (h.repoOf hReq).tag]

theorem SourceOk.later {o : Object} (hSource : w.SourceOk E n o) : t.SourceOk E n o := by
  obtain ⟨a, hAsked, hLeads, hKnown⟩ := hSource
  refine ⟨a, (h.asked hReq hOp).trans hAsked, hLeads, fun k hk => ?_⟩
  exact (hKnown k hk).trans_le (h.repoOf hReq).length_le

omit hOp in
theorem SourceOk.treeUnder {o : Object} (hSource : w.SourceOk E n o) :
    (t.repoOf n).treeUnder o = (w.repoOf n).treeUnder o := by
  obtain ⟨a, -, hLeads, hKnown⟩ := hSource
  exact (h.repoOf hReq).treeUnder (hLeads ▸ hKnown)

theorem PlanOk.later {p : Plan β} (hp : w.PlanOk E n p) : t.PlanOk E n p where
  source := hp.source.later h hReq hOp
  branch := hp.branch.later h hReq
  head := hp.head.later h hReq
  tree := (h.repoOf hReq).treeOf hp.tree
  entries e he := by
    rw [hp.source.treeUnder h hReq]
    exact hp.entries e he

theorem Built.later {p : Plan β} {tree : Files β} (hp : w.Built E n p tree) : t.Built E n p tree where
  plan := hp.plan.later h hReq hOp
  paths := by rw [hOp, hp.paths]
  tree := hp.tree

theorem Committed.later {p : Plan β} {commit : Nat} (hp : w.Committed E n p commit) :
    t.Committed E n p commit := by
  obtain ⟨tree, hBuilt, hCommit⟩ := hp.built
  exact ⟨tree, hBuilt.later h hReq hOp, (h.repoOf hReq).getElem hCommit⟩

theorem Restored.later {commit : Nat} (hp : w.Restored E n commit) : t.Restored E n commit := by
  obtain ⟨p, hCommitted, hMove⟩ := hp
  refine ⟨p, hCommitted.later h hReq hOp, ?_⟩
  unfold restoreMove
  rw [hReq]
  exact h.moves _ hMove

theorem CallOk.later {pc : Pc β} (hOk : w.CallOk E n pc) : t.CallOk E n pc := by
  cases pc with
  | absent | tagRef => trivial
  | tagObject o => exact SourceOk.later h hReq hOp hOk
  | defaultBranch s => exact ⟨hOk.1.later h hReq hOp, hReq ▸ hOk.2⟩
  | headRef s b => exact ⟨hOk.1.later h hReq hOp, hOk.2.later h hReq⟩
  | headCommit s b k => exact ⟨hOk.1.later h hReq hOp, hOk.2.1.later h hReq, hOk.2.2.later h hReq⟩
  | contents p path rest => exact ⟨hOk.1.later h hReq hOp, hOp ▸ hOk.2⟩
  | createTree p => exact ⟨hOk.1.later h hReq hOp, hOp ▸ hOk.2⟩
  | createCommit p tree => exact Built.later h hReq hOp hOk
  | updateRef p commit => exact Committed.later h hReq hOp hOk
  | recording c reply =>
    refine ⟨hOk.1, hOk.2.1, fun hRestore hNone commit hCommit => ?_⟩
    exact (hOk.2.2 (hOp ▸ hRestore) hNone commit hCommit).later h hReq hOp
  | done reply =>
    intro hRestore hNone commit hCommit
    exact (hOk (hOp ▸ hRestore) hNone commit hCommit).later h hReq hOp
  | reading | checking text | lookingUp put | putting put given | parentLookup put commit =>
    exact (congrArg isRestore hOp).trans hOk

end Later

/-- What a request of a call comes to. -/
inductive Took [DecidableEq β] (E : Host β) (w : World β) (n : Nat) (a : Answer) : World β → Prop
  | looked (pc : Pc β) (h : w.look E n a (w.pc n) = some pc) : Took E w n a (w.goto n pc)
  | created (p : Plan β) (tree : Files β) (hA : a ≠ .refused) (hPc : w.pc n = .createCommit p tree)
      (hp : ∀ q ∈ [p.head], q < (w.repoOf n).commits.length) :
      Took E w n a ((w.setRepo (w.req n).repoId ((w.repoOf n).add ⟨tree, [p.head], some n⟩ hp)).goto n
        (if a = .answered then .updateRef p (w.repoOf n).commits.length else fail .createCommit))
  | updated (p : Plan β) (commit cur : Nat) (hA : a ≠ .refused) (hPc : w.pc n = .updateRef p commit)
      (hk : commit < (w.repoOf n).commits.length)
      (hHead : (w.repoOf n).head (E.asRead p.branch) = some cur)
      (hAnc : (w.repoOf n).isAncestor cur commit = true) :
      Took E w n a ((w.moved (w.req n).repoId ((w.repoOf n).moveHead (E.asRead p.branch) commit hk)
        ⟨(w.req n).repoId, E.asRead p.branch, p.entries.map fun e => e.file.1, some cur, commit, n⟩).goto n
        (if a = .answered then afterUpdate (w.req n) (w.op n) p commit n else fail .updateRef))
  | wrote (put : Put β) (given : Option β) (base tree : Files β) (hA : a ≠ .refused)
      (hPc : w.pc n = .putting put given)
      (hp : ∀ q ∈ ((w.repo put.repo).head ((w.repo put.repo).branchName put.branch)).toList,
        q < (w.repo put.repo).commits.length)
      (hEdit : Repo.edited E base put.path given put.new = some tree)
      (hBase : (∃ k, (w.repo put.repo).head ((w.repo put.repo).branchName put.branch) = some k ∧
          (w.repo put.repo).treeOf k = some base) ∨
        (w.repo put.repo).head ((w.repo put.repo).branchName put.branch) = none ∧ base = .empty)
      (hSome : ((w.repo put.repo).putContents E put.branch put.path given put.new n).isSome = true) :
      Took E w n a ((w.moved put.repo
        ((w.repo put.repo).commitOn ((w.repo put.repo).branchName put.branch)
          ⟨tree, ((w.repo put.repo).head ((w.repo put.repo).branchName put.branch)).toList, some n⟩ hp)
        ⟨put.repo, (w.repo put.repo).branchName put.branch, [segments (E.asRead put.path)],
          (w.repo put.repo).head ((w.repo put.repo).branchName put.branch),
          (w.repo put.repo).commits.length, n⟩).goto n
        (if a = .answered then afterPut (w.req n) put (w.repo put.repo).commits.length
          else fail .write))
  | recorded (c : Checkpoint) (reply : Reply) (hPc : w.pc n = .recording c reply) :
      Took E w n a ({ w with index := if a = Answer.refused then w.index else c :: w.index }.goto n
        (.done reply))
  | refused (reply : Reply) (hPc : (w.pc n).preparing = true) (h : reply.failure ≠ none) :
      Took E w n a (w.goto n (.done reply))

theorem attempt_some {r : Option (Repo β)} {r' : Repo β} (h : attempt a r = some r') :
    r = some r' ∧ a ≠ .refused := by
  unfold attempt at h
  split at h
  · cases h
  next hA => exact ⟨h, hA⟩

theorem request_took [DecidableEq β] (h : w.request E n a = some t) : Took E w n a t := by
  unfold World.request at h
  split at h
  next p tree hPc =>
    cases hr : attempt a ((w.repoOf n).createCommit tree p.head n) with
    | some r' =>
      simp only [hr, Option.some.injEq] at h
      obtain ⟨hp, rfl⟩ := Repo.createCommit_spec (attempt_some hr).1
      exact h ▸ .created p tree (attempt_some hr).2 hPc hp
    | none =>
      simp only [hr, Option.some.injEq] at h
      exact h ▸ .refused _ (by rw [hPc]; rfl) (by simp [Reply.failed])
  next p commit hPc =>
    cases hr : attempt a ((w.repoOf n).updateRef (E.asRead p.branch) commit) with
    | some r' =>
      obtain ⟨cur, hk, hHead, hAnc, rfl⟩ := Repo.updateRef_spec (attempt_some hr).1
      simp only [hr, hHead, Option.some.injEq] at h
      exact h ▸ .updated p commit cur (attempt_some hr).2 hPc hk hHead hAnc
    | none =>
      simp only [hr, Option.some.injEq] at h
      exact h ▸ .refused _ (by rw [hPc]; rfl) (by simp)
  next put given hPc =>
    cases hr : attempt a ((w.repo put.repo).putContents E put.branch put.path given put.new n) with
    | some r' =>
      simp only [hr, Option.some.injEq] at h
      have hSome := Option.isSome_of_eq_some (attempt_some hr).1
      obtain ⟨base, tree, hp, hEdit, hBase, rfl⟩ := Repo.putOn_spec (attempt_some hr).1
      exact h ▸ .wrote put given base tree (attempt_some hr).2 hPc hp hEdit hBase hSome
    | none =>
      simp only [hr, Option.some.injEq] at h
      exact h ▸ .refused _ (by rw [hPc]; rfl) (by simp [Reply.failed])
  next c reply hPc =>
    cases h
    exact .recorded c reply hPc
  next =>
    obtain ⟨pc, hLook, rfl⟩ := Option.map_eq_some_iff.mp h
    exact .looked pc hLook

/-! ## Lookups -/

section Looks

theorem callOk_fail {f : Failure} : w.CallOk E n (fail f) := by
  intro _ hNone
  cases hNone

theorem callOk_afterSource {source : Object} (h : w.SourceOk E n source) :
    w.CallOk E n (afterSource (w.req n) source) := by
  unfold afterSource
  split
  next hRef => exact ⟨h, hRef⟩
  next b hRef => exact ⟨h, by rw [BranchOk, hRef]; rfl⟩

theorem callOk_nextPath {p : Plan β} {rest : List Text} (hp : w.PlanOk E n p)
    (hPaths : p.entries.map TreeEntry.path ++ rest = listedPaths (w.op n)) :
    w.CallOk E n (nextPath p rest) := by
  cases rest with
  | nil => exact ⟨hp, by simpa using hPaths⟩
  | cons path rest => exact ⟨hp, hPaths⟩

theorem PlanOk.add {p : Plan β} {path : Text} {sha : Option β} (hp : w.PlanOk E n p)
    (hSeen : Repo.contents E ((w.repoOf n).treeUnder p.source) path = answerFor sha) :
    w.PlanOk E n (p.add path sha) where
  source := hp.source
  branch := hp.branch
  head := hp.head
  tree := hp.tree
  entries e he := by
    rcases List.mem_append.mp he with he | he
    · exact hp.entries e he
    · obtain rfl := List.mem_singleton.mp he
      exact ⟨rfl, hSeen⟩

theorem callOk_afterContents {p : Plan β} {path : Text} {rest : List Text} (hp : w.PlanOk E n p)
    (hPaths : p.entries.map TreeEntry.path ++ path :: rest = listedPaths (w.op n)) :
    w.CallOk E n
      (afterContents p path rest (Repo.contents E ((w.repoOf n).treeUnder p.source) path)) := by
  cases hSeen : Repo.contents E ((w.repoOf n).treeUnder p.source) path with
  | file blob =>
    have hAdded : w.PlanOk E n (p.add path (some blob)) := hp.add hSeen
    apply callOk_nextPath hAdded
    simpa [Plan.add] using hPaths
  | notFound =>
    have hAdded : w.PlanOk E n (p.add path none) := hp.add hSeen
    apply callOk_nextPath hAdded
    simpa [Plan.add] using hPaths
  | link blob | dir => exact callOk_fail

theorem callOk_of_not_restore {pc : Pc β} (h : isRestore (w.op n) = false)
    (hPc : (∃ reply, pc = .done reply) ∨ (∃ text, pc = .checking text) ∨
      (∃ put, pc = .lookingUp put) ∨ (∃ put given, pc = .putting put given) ∨
      ∃ c reply, pc = .recording c reply ∧ reply.failure = none ∧ reply.commit ≠ none) : w.CallOk E n pc := by
  have hNot : isRestore (w.op n) ≠ true := by rw [h]; decide
  obtain ⟨reply, rfl⟩ | ⟨text, rfl⟩ | ⟨put, rfl⟩ | ⟨put, given, rfl⟩ | ⟨c, reply, rfl, hNone, hSome⟩ := hPc
  · exact fun hRestore => absurd hRestore hNot
  · exact h
  · exact h
  · exact h
  · exact ⟨hNone, hSome, fun hRestore => absurd hRestore hNot⟩

theorem afterEdit_cases {q : Request} {path : Text} {dryRun : Bool} {tool new : Option Text} :
    (∃ reply, afterEdit E q path dryRun tool new = .done reply ∧ reply.commit = none) ∨
      ∃ put, afterEdit E q path dryRun tool new = .lookingUp put := by
  unfold afterEdit
  split
  · exact .inl ⟨_, rfl, rfl⟩
  · split
    · exact .inl ⟨_, rfl, rfl⟩
    · exact .inr ⟨_, rfl⟩

theorem afterReading_cases {q : Request} {c : Content β} {op : Op} :
    (∃ reply, afterReading E q c op = .done reply ∧ reply.commit = none) ∨
      (∃ put, afterReading E q c op = .lookingUp put) ∨
      ∃ text, afterReading E q c op = .checking text := by
  unfold afterReading
  split
  · split
    · exact .inl ⟨_, rfl, rfl⟩
    · exact afterEdit_cases.imp_right .inl
  · split
    · exact .inl ⟨_, rfl, rfl⟩
    · exact afterEdit_cases.imp_right .inl
  · split
    · exact .inl ⟨_, rfl, rfl⟩
    · split
      · exact .inr (.inl ⟨_, rfl⟩)
      · exact .inr (.inr ⟨_, rfl⟩)
  · exact .inl ⟨_, rfl, rfl⟩

variable [DecidableEq β]

theorem callOk_look {a : Answer} {pc pc' : Pc β} (h : w.CallOk E n pc)
    (hLook : w.look E n a pc = some pc') : w.CallOk E n pc' := by
  cases pc <;> simp only [World.look, Option.some.injEq, reduceCtorEq] at hLook
  case tagRef =>
    split at hLook
    next tag paths hOp =>
      have hAsked : w.asked E n = (w.repoOf n).tag (E.asRead (strip tag)) := by
        rw [World.asked, hOp]
      have hSource : ∀ o, (w.repoOf n).tag (E.asRead (strip tag)) = some o → w.SourceOk E n o :=
        fun o ho => ⟨o, hAsked.trans ho, rfl, fun k hk => (w.repoOf n).tagKnown _ _ _ ho hk⟩
      split at hLook <;> cases hLook
      next target ho => exact hSource _ ho
      next o ho => exact callOk_afterSource (hSource _ ho)
      next => exact callOk_fail
    next =>
      cases hLook
      exact callOk_fail
  case tagObject o =>
    obtain ⟨a, hAsked, hLeads, hKnown⟩ := h
    split at hLook <;> cases hLook
    · exact callOk_afterSource ⟨a, hAsked, hLeads, hKnown⟩
    · exact callOk_fail
    · exact callOk_afterSource ⟨a, hAsked, hLeads, hKnown⟩
  case defaultBranch source =>
    obtain ⟨hSource, hRef⟩ := h
    split at hLook <;> cases hLook
    · exact ⟨hSource, by rw [BranchOk, hRef]; rfl⟩
    · exact callOk_fail
  case headRef source branch =>
    split at hLook <;> cases hLook
    next head hHead => exact ⟨h.1, h.2, head, hHead, le_rfl⟩
    next => exact callOk_fail
  case headCommit source branch head =>
    obtain ⟨hSource, hBranch, hHead⟩ := h
    split at hLook <;> cases hLook
    next tree hTree =>
      exact callOk_nextPath ⟨hSource, hBranch, hHead, hTree, fun e he => by cases he⟩ rfl
    next => exact callOk_fail
  case contents p path rest =>
    split at hLook <;> cases hLook
    · exact callOk_afterContents h.1 h.2
    · exact callOk_fail
  case createTree p =>
    obtain ⟨hp, hPaths⟩ := h
    split at hLook
    next tree hTree =>
      split at hLook <;> cases hLook
      · intro _ _ commit hCommit
        cases hCommit
      · exact ⟨hp, hPaths, hTree⟩
    next =>
      cases hLook
      exact callOk_fail
  case reading =>
    split at hLook <;> cases hLook
    · apply callOk_of_not_restore h
      obtain ⟨reply, hPc, -⟩ | ⟨put, hPc⟩ | ⟨text, hPc⟩ := afterReading_cases (E := E)
      · exact .inl ⟨_, hPc⟩
      · exact .inr (.inr (.inl ⟨_, hPc⟩))
      · exact .inr (.inl ⟨_, hPc⟩)
    · exact callOk_fail
  case checking text =>
    split at hLook
    next =>
      split at hLook <;> cases hLook
      · exact callOk_fail
      · exact h
    next => cases hLook
  case lookingUp put =>
    split at hLook <;> cases hLook
    · exact callOk_of_not_restore h (.inl ⟨_, rfl⟩)
    · exact h
  case parentLookup put commit =>
    apply callOk_of_not_restore h
    split at hLook <;> cases hLook
    · exact .inr (.inr (.inr (.inr ⟨_, _, rfl, rfl, by simp⟩)))
    · exact .inl ⟨_, rfl⟩

/-- A lookup before the write comes to another point before the write, or to an end
without a commit; the lookup after it comes to the record or the end. -/
theorem look_end {a : Answer} {pc pc' : Pc β} (hLook : w.look E n a pc = some pc') :
    (pc.preparing = false ∧ pc'.preparing = false ∧ ∀ reply, pc' = .done reply → reply.commit ≠ none) ∨
      pc.preparing = true ∧ (pc'.preparing = true ∨ ∃ reply, pc' = .done reply ∧ reply.commit = none) := by
  have hAfterSource : ∀ o, (afterSource (w.req n) o : Pc β).preparing = true := fun o => by
    unfold afterSource
    split <;> rfl
  have hNextPath : ∀ (p : Plan β) rest, (nextPath p rest).preparing = true := fun p rest => by
    cases rest <;> rfl
  have hFail : ∀ f, ∃ reply, (fail f : Pc β) = .done reply ∧ reply.commit = none :=
    fun f => ⟨_, rfl, rfl⟩
  cases pc <;> simp only [World.look, Option.some.injEq, reduceCtorEq] at hLook
  case parentLookup put commit =>
    refine .inl ⟨rfl, ?_⟩
    split at hLook <;> cases hLook
    · exact ⟨rfl, fun reply h => by cases h⟩
    · exact ⟨rfl, fun reply h => by cases h; simp⟩
  all_goals refine .inr ⟨rfl, ?_⟩
  case tagRef =>
    split at hLook
    · split at hLook <;> cases hLook
      · exact .inl rfl
      · exact .inl (hAfterSource _)
      · exact .inr (hFail _)
    · cases hLook
      exact .inr (hFail _)
  case tagObject o =>
    split at hLook <;> cases hLook
    · exact .inl (hAfterSource _)
    · exact .inr (hFail _)
    · exact .inl (hAfterSource _)
  case defaultBranch | headRef =>
    split at hLook <;> cases hLook
    · exact .inl rfl
    · exact .inr (hFail _)
  case headCommit =>
    split at hLook <;> cases hLook
    · exact .inl (hNextPath _ _)
    · exact .inr (hFail _)
  case contents p path rest =>
    split at hLook <;> cases hLook
    · cases Repo.contents E ((w.repoOf n).treeUnder p.source) path
      · exact .inl (hNextPath _ _)
      · exact .inr (hFail _)
      · exact .inr (hFail _)
      · exact .inl (hNextPath _ _)
    · exact .inr (hFail _)
  case createTree =>
    split at hLook
    · split at hLook <;> cases hLook
      · exact .inr ⟨_, rfl, rfl⟩
      · exact .inl rfl
    · cases hLook
      exact .inr (hFail _)
  case reading =>
    split at hLook <;> cases hLook
    · obtain ⟨reply, hPc, hNone⟩ | ⟨put, hPc⟩ | ⟨text, hPc⟩ := afterReading_cases (E := E)
      · exact .inr ⟨reply, hPc, hNone⟩
      · exact .inl (by rw [hPc]; rfl)
      · exact .inl (by rw [hPc]; rfl)
    · exact .inr (hFail _)
  case checking =>
    split at hLook
    · split at hLook <;> cases hLook
      · exact .inr (hFail _)
      · exact .inl rfl
    · cases hLook
  case lookingUp =>
    split at hLook <;> cases hLook
    · exact .inr ⟨_, rfl, rfl⟩
    · exact .inl rfl

end Looks

end World

end OpenSpoke.GitHub.Remote
