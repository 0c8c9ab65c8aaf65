import OpenSpoke.GitPathSync.Worker

/-!
# Clones and pushes of git_path_sync

`_clone_shallow` and `_commit_and_push` over repositories that are sets of
branches and tags. What the network, the hosts and git's ignore rules do is a
parameter. Git's own directory is left out: no step looks into it.
-/

namespace OpenSpoke.GitPathSync

open FileTree
open Python (Text)

inductive Role
  | source
  | dest
  deriving DecidableEq

def Role.label : Role → String
  | .source => "source"
  | .dest => "dest"

structure Remote where
  -- the name of the default branch, which need not exist
  head : Text
  branches : Text → Option WorkTree
  tags : Text → Option WorkTree
  -- what `git rev-parse --abbrev-ref` prints in a clone of the branch, which is
  -- `heads/main` for `main` if a tag of that name is there too
  shown : Text → Text
  named : head ≠ []

def Remote.withoutTags (head : Text) (branches : Text → Option WorkTree) (named : head ≠ []) :
    Remote where
  head := head
  branches := branches
  tags := fun _ => none
  shown := id
  named := named

inductive Checkpoint
  | clone
  | destClone
  | reflect
  | removal
  | push
  deriving DecidableEq

inductive PushResult
  | addFails
  | commitFails
  | rejected
  -- the push arrives, but git reports a failure
  | unconfirmed
  | accepted
  deriving DecidableEq

structure Env where
  token : Role → Bool
  cancelled : Checkpoint → Bool
  -- with a branch and without
  cloneFails : Role → Bool → Bool
  push : Role → PushResult
  -- git's ignore rules in a work tree
  ignored : WorkTree → Path → Bool
  stderr : String

/-- `_repo_url`. -/
def Endpoint.url (e : Endpoint) : Text :=
  let name := if ['.', 'g', 'i', 't'] <:+ e.repo then e.repo.take (e.repo.length - 4) else e.repo
  ['h', 't', 't', 'p', 's', ':', '/', '/'] ++ e.host ++ ['/'] ++ e.owner ++ ['/'] ++ name ++
    ['.', 'g', 'i', 't']

def mainBranch : Text := ['m', 'a', 'i', 'n']

theorem mainBranch_ne_nil : mainBranch ≠ [] := by decide

/-- What is printed for a commit that is on no branch. -/
def detachedHead : Text := ['H', 'E', 'A', 'D']

/-- `git clone`: the name that is printed for the branch, and what it has. -/
def gitClone (remote : Option Remote) (branch : Text) : Option (Text × Option WorkTree) :=
  remote.bind fun r =>
    if branch = [] then some (r.shown r.head, r.branches r.head)
    else
      match r.branches branch with
      | some t => some (r.shown branch, some t)
      -- `--branch` takes a tag too
      | none => (r.tags branch).map fun t => (detachedHead, some t)

def tryClone (env : Env) (role : Role) (remote : Option Remote) (branch : Text) :
    Option (Text × Option WorkTree) :=
  if env.cloneFails role (branch ≠ []) then none else gitClone remote branch

structure Clone where
  branch : Text
  -- the files of the last commit
  head : WorkTree
  isEmpty : Bool

def cloneShallow (env : Env) (role : Role) (remote : Option Remote) (branch : Text) :
    Except String Clone :=
  let cloned :=
    match tryClone env role remote branch with
    | some c => some c
    -- once more without the branch
    | none => if branch = [] then none else tryClone env role remote []
  match cloned with
  | none => .error (role.label ++ " clone failed: " ++ env.stderr)
  | some (_, none) =>
    .ok { branch := if branch = [] then mainBranch else branch, head := empty, isEmpty := true }
  | some (name, some t) =>
    let fallback := if branch = [] then mainBranch else branch
    let actual := if name = [] then fallback else name
    .ok { branch := if branch ≠ [] ∧ actual ≠ branch then branch else actual, head := t,
          isEmpty := false }

/-- What `git add -A` and a commit make of a work tree: what git ignores stays out,
unless it was committed before. -/
def commitTree (env : Env) (head work : WorkTree) : WorkTree :=
  work.keep fun p => (head.file p).isSome || !env.ignored work p

/-- `git status` lists nothing. -/
def sameFiles (a b : WorkTree) : Bool := (a.support ++ b.support).all fun p => a.file p = b.file p

structure Push where
  role : Role
  url : Text
  branch : Text
  message : String
  tree : WorkTree

/-- `_commit_and_push`: the push that arrives, and whether something was pushed. -/
def commitAndPush (env : Env) (role : Role) (url : Text) (clone : Clone) (message : String)
    (work : WorkTree) : Option Push × Except String Bool :=
  let new := commitTree env clone.head work
  let pushed : Push := ⟨role, url, clone.branch, message, new⟩
  match env.push role with
  | .addFails => (none, .error (role.label ++ " git add failed: " ++ env.stderr))
  | result =>
    if sameFiles clone.head new then (none, .ok false)
    else
      match result with
      | .addFails | .commitFails =>
        (none, .error (role.label ++ " git commit failed: " ++ env.stderr))
      | .rejected => (none, .error (role.label ++ " git push failed: " ++ env.stderr))
      | .unconfirmed => (some pushed, .error (role.label ++ " git push failed: " ++ env.stderr))
      | .accepted => (some pushed, .ok true)

theorem sameFiles_iff {a b : WorkTree} : sameFiles a b = true ↔ a.file = b.file := by
  unfold sameFiles
  rw [List.all_eq_true]
  constructor
  · intro hAll
    funext p
    by_cases hp : p ∈ a.support ++ b.support
    · exact of_decide_eq_true (hAll p hp)
    · rw [List.mem_append, not_or] at hp
      have ha : a.node p = none := by
        by_contra hne
        exact hp.1 (a.mem_support p hne)
      have hb : b.node p = none := by
        by_contra hne
        exact hp.2 (b.mem_support p hne)
      simp [FileTree.file, ha, hb]
  · intro hEq p _
    simp [hEq]

/-- What a clone has afterwards: what was pushed, or what was there. -/
def Clone.after (clone : Clone) (pushed : Option Push) : WorkTree :=
  (pushed.map Push.tree).getD clone.head

section Push

variable {env : Env} {role : Role} {url : Text} {clone : Clone} {message : String}
  {work : WorkTree}

theorem commitAndPush_fst {pushed : Push}
    (h : (commitAndPush env role url clone message work).1 = some pushed) :
    pushed = ⟨role, url, clone.branch, message, commitTree env clone.head work⟩ := by
  unfold commitAndPush at h
  dsimp only at h
  split at h
  · cases h
  · split at h
    · cases h
    · split at h <;> first | cases h; rfl | cases h

theorem commitAndPush_after
    (h : (∃ b, (commitAndPush env role url clone message work).2 = .ok b) ∨
      (commitAndPush env role url clone message work).1.isSome = true) :
    (clone.after (commitAndPush env role url clone message work).1).file =
      (commitTree env clone.head work).file := by
  cases hPush : (commitAndPush env role url clone message work).1 with
  | some pushed =>
    rw [commitAndPush_fst hPush]
    rfl
  | none =>
    rw [hPush] at h
    obtain ⟨b, hOk⟩ := h.resolve_right (by simp)
    have hSame : sameFiles clone.head (commitTree env clone.head work) = true := by
      unfold commitAndPush at hPush hOk
      dsimp only at hPush hOk
      split at hOk
      · cases hOk
      · split at hOk
        · assumption
        · split at hOk <;> simp_all
    exact sameFiles_iff.mp hSame

end Push

end OpenSpoke.GitPathSync
