import Mathlib.Logic.Function.Basic
import OpenSpoke.GitHub.Edits
import OpenSpoke.GitHub.Repo
import OpenSpoke.Lib.Lts
import OpenSpoke.Python.Int

/-!
# Calls that write to repositories

`put-file`, `regex-replace`, `replace-symbol`, `copy-file`, `delete-file`,
`restore-from-tag` and `restore-from-sha`, any number of them at a time. Every request to
GitHub, and every record in the index of checkpoints, is a step of its own.
-/

namespace OpenSpoke.GitHub.Remote

open Python (Text strip)

abbrev RepoId := Text × Text

/-- The fields that all of the operations have. -/
structure Request where
  owner : Text
  repo : Text
  branch : Text
  message : Text
  skipAutockpt : Bool

namespace Request

variable (q : Request)

def repoId : RepoId := (strip q.owner, strip q.repo)

/-- `request.get("branch") or None`. -/
def ref : Option Text := if q.branch = [] then none else some q.branch

def valid : Bool := strip q.owner ≠ [] ∧ strip q.repo ≠ []

def hasMessage : Bool := strip q.message ≠ []

end Request

inductive Op
  | putFile (path content toolHint : Text)
  | regexReplace (r : RegexReplace)
  | replaceSymbol (r : ReplaceSymbol)
  | copyFile (src dst dstOwner dstRepo : Text) (overwrite : Bool)
  | deleteFile (path toolHint : Text)
  | restoreFromTag (tag : Text) (paths : List Text)
  | restoreFromSha (sha : Object) (paths : List Text)

/-- The paths as they are used. -/
def listed (paths : List Text) : List Text := (paths.map strip).filter fun p => p ≠ []

inductive Failure
  | required
  | samePath
  | token
  | tagNotFound
  | tagLookup
  | repoLookup
  | branchNotFound
  | headLookup
  | notRegular (path : Text)
  | contentsLookup (path : Text)
  | createTree
  | createCommit
  | updateRef
  | unreadable
  | noMatch
  | destinationExists
  | write
  deriving DecidableEq

structure Reply where
  -- `ok` is true where there is no failure
  failure : Option Failure
  -- the commit that has been made
  commit : Option Nat
  restored : List Text
  deleted : List Text
  deriving DecidableEq

def Reply.failed (f : Failure) : Reply := ⟨some f, none, [], []⟩

/-- A record in `github_autockpt`. -/
structure Checkpoint where
  owner : Text
  repo : Text
  path : Text
  branch : Text
  preCommitSha : Nat
  tool : Text
  message : Text
  -- the call that has left it
  author : Nat
  deriving DecidableEq

/-- What a restore has found out. -/
structure Plan (β : Type) where
  source : Object
  branch : Text
  head : Nat
  headTree : Files β
  entries : List (TreeEntry β)
  restored : List Text
  deleted : List Text

/-- A call of `put_file` or `delete_file`. -/
structure Put (β : Type) where
  repo : RepoId
  branch : Option Text
  path : Text
  -- none to delete
  new : Option β
  -- the tool of the checkpoint, if one is recorded
  tool : Option Text

inductive Pc (β : Type)
  | absent
  | tagRef
  | tagObject (o : Object)
  | defaultBranch (source : Object)
  | headRef (source : Object) (branch : Text)
  | headCommit (source : Object) (branch : Text) (head : Nat)
  | contents (p : Plan β) (path : Text) (rest : List Text)
  | createTree (p : Plan β)
  | createCommit (p : Plan β) (tree : Files β)
  | updateRef (p : Plan β) (commit : Nat)
  | reading
  -- `copy-file` looks whether the destination exists
  | checking (text : Text)
  | lookingUp (put : Put β)
  | putting (put : Put β) (given : Option β)
  | parentLookup (put : Put β) (commit : Nat)
  | recording (c : Checkpoint) (reply : Reply)
  | done (reply : Reply)

structure Call (β : Type) where
  request : Request
  op : Op
  pc : Pc β

/-- A branch has got a new head. -/
structure Move where
  repo : RepoId
  branch : Text
  -- what has been written
  paths : List Path
  old : Option Nat
  new : Nat
  author : Nat
  deriving DecidableEq

structure World (β : Type) where
  repo : RepoId → Repo β
  call : Nat → Call β
  index : List Checkpoint
  -- the moves that calls have made, the latest first
  moves : List Move

/-- A request is refused, or it has its effect and the answer is lost, or it is answered. -/
inductive Answer
  | refused
  | lost
  | answered
  deriving DecidableEq

inductive Act (β : Type)
  | call (n : Nat) (q : Request) (op : Op) (token : Bool)
  | request (n : Nat) (a : Answer)
  -- a commit of someone else's, which may be a merge
  | outside (repo : RepoId) (branch : Text) (tree : Files β) (merged : List Nat)

/-! ## One call -/

section Stages

variable {β : Type}

def putFileTool : Text := ['p', 'u', 't', '-', 'f', 'i', 'l', 'e']

def deleteFileTool : Text := ['d', 'e', 'l', 'e', 't', 'e', '-', 'f', 'i', 'l', 'e']

def regexReplaceTool : Text := ['r', 'e', 'g', 'e', 'x', '-', 'r', 'e', 'p', 'l', 'a', 'c', 'e']

def copyFileTool : Text := ['c', 'o', 'p', 'y', '-', 'f', 'i', 'l', 'e']

def restoreTool : Text := ['r', 'e', 's', 't', 'o', 'r', 'e', '-', 'f', 'r', 'o', 'm', '-', 's', 'h', 'a']

/-- A text, or else another one. -/
def orElse (t default : Text) : Text := if t = [] then default else t

def dstRepoId (q : Request) (dstOwner dstRepo : Text) : RepoId :=
  (strip (orElse dstOwner (strip q.owner)), strip (orElse dstRepo (strip q.repo)))

/-- The branch of a restore is given, or asked for. -/
def afterSource (q : Request) (source : Object) : Pc β :=
  match q.ref with
  | none => .defaultBranch source
  | some b => .headRef source b

/-- What comes before the first request. -/
def begin (E : Host β) (q : Request) (op : Op) (token : Bool) : Pc β :=
  let checked (ok : Bool) (pc : Pc β) : Pc β :=
    if !(q.valid && ok) then .done (.failed .required)
    else if !token then .done (.failed .token)
    else pc
  match op with
  | .putFile path content toolHint =>
    checked (strip path ≠ [] && q.hasMessage) <|
      .lookingUp ⟨q.repoId, q.ref, strip path, some (E.encode content),
        some (orElse toolHint putFileTool)⟩
  | .regexReplace r => checked (strip r.path ≠ [] && (r.dryRun || q.hasMessage)) .reading
  | .replaceSymbol r =>
    checked (strip r.path ≠ [] && strip r.symbol ≠ [] && (r.dryRun || q.hasMessage)) .reading
  | .copyFile src dst dstOwner dstRepo _ =>
    if q.repoId = dstRepoId q dstOwner dstRepo ∧ strip src = strip dst then .done (.failed .samePath)
    else checked (strip src ≠ [] && strip dst ≠ [] && q.hasMessage) .reading
  | .deleteFile path toolHint =>
    checked (strip path ≠ [] && q.hasMessage) <|
      .lookingUp ⟨q.repoId, q.ref, strip path, none, some (orElse toolHint deleteFileTool)⟩
  | .restoreFromTag tag paths =>
    checked (strip tag ≠ [] && q.hasMessage && listed paths ≠ []) .tagRef
  | .restoreFromSha sha paths => checked (q.hasMessage && listed paths ≠ []) (afterSource q sha)

def fail (f : Failure) : Pc β := .done (.failed f)

def nextPath (p : Plan β) : List Text → Pc β
  | [] => .createTree p
  | path :: rest => .contents p path rest

def Plan.add (p : Plan β) (path : Text) (sha : Option β) : Plan β :=
  { p with
    entries := p.entries ++ [⟨path, .file, sha⟩]
    restored := if sha.isSome then p.restored ++ [path] else p.restored
    deleted := if sha.isSome then p.deleted else p.deleted ++ [path] }

/-- What is done with the answer to a look at a listed path. -/
def afterContents (p : Plan β) (path : Text) (rest : List Text) : Content β → Pc β
  | .file blob => nextPath (p.add path (some blob)) rest
  | .notFound => nextPath (p.add path none) rest
  | .link _ | .dir => fail (.notRegular path)

def listedPaths : Op → List Text
  | .restoreFromTag _ paths | .restoreFromSha _ paths => listed paths
  | _ => []

/-- The text of a file as an edit reads it; a link has no content. -/
def readText (E : Host β) : Content β → Option Text
  | .file blob => E.decode blob
  | .link _ => some []
  | .dir | .notFound => none

/-- The text of a file as `copy-file` reads it. -/
def copyText (E : Host β) : Content β → Option Text
  | .file blob => E.decode blob
  | _ => none

/-- `get_file_sha`: a directory has none, and an error is none. -/
def getFileSha (answered : Bool) (c : Content β) : Option β :=
  match answered, c with
  | true, .file blob | true, .link blob => some blob
  | _, _ => none

def copyPut (E : Host β) (q : Request) (dst dstOwner dstRepo : Text) (text : Text) : Put β :=
  ⟨dstRepoId q dstOwner dstRepo, q.ref, strip dst, some (E.encode text), some copyFileTool⟩

/-- What an edit does with the text it has read. -/
def afterEdit (E : Host β) (q : Request) (path : Text) (dryRun : Bool) (tool : Option Text) :
    Option Text → Pc β
  | none => fail .noMatch
  | some new =>
    if dryRun then .done ⟨none, none, [], []⟩
    else .lookingUp ⟨q.repoId, q.ref, strip path, some (E.encode new), tool⟩

/-- What is done with the file that is read first. -/
def afterReading (E : Host β) (q : Request) (c : Content β) : Op → Pc β
  | .regexReplace r =>
    match readText E c with
    | none => fail .unreadable
    | some text => afterEdit E q r.path r.dryRun (some regexReplaceTool) (r.edit text)
  | .replaceSymbol r =>
    match readText E c with
    | none => fail .unreadable
    -- no checkpoint is recorded
    | some text => afterEdit E q r.path r.dryRun none (r.edit text)
  | .copyFile _ dst dstOwner dstRepo overwrite =>
    match copyText E c with
    | none => fail .unreadable
    | some text =>
      if overwrite then .lookingUp (copyPut E q dst dstOwner dstRepo text) else .checking text
  | _ => fail .unreadable

def sourcePath : Op → Text
  | .regexReplace r => strip r.path
  | .replaceSymbol r => strip r.path
  | .copyFile src _ _ _ _ => strip src
  | _ => []

def batch : List Text → Text
  | [path] => path
  | paths => ['<', 'b', 'a', 't', 'c', 'h', ':'] ++ Python.decimal paths.length ++ [' ', 'f', 'i', 'l', 'e', 's', '>']

def restoreCheckpoint (q : Request) (paths : List Text) (p : Plan β) (n : Nat) : Checkpoint where
  owner := q.repoId.1
  repo := q.repoId.2
  path := batch paths
  branch := p.branch
  preCommitSha := p.head
  tool := restoreTool
  message := (strip q.message).take 500
  author := n

def mainBranch : Text := ['m', 'a', 'i', 'n']

def putCheckpoint (q : Request) (put : Put β) (tool : Text) (parent n : Nat) : Checkpoint where
  owner := put.repo.1
  repo := put.repo.2
  path := put.path
  branch := put.branch.getD mainBranch
  preCommitSha := parent
  tool := tool
  message := (strip q.message).take 500
  author := n

def Plan.reply (p : Plan β) (commit : Option Nat) : Reply := ⟨none, commit, p.restored, p.deleted⟩

/-- What follows when the new head of a branch is known. -/
def afterUpdate (q : Request) (op : Op) (p : Plan β) (commit n : Nat) : Pc β :=
  match op with
  | .restoreFromSha _ paths =>
    .recording (restoreCheckpoint q (listed paths) p n) (p.reply (some commit))
  | _ => .done (p.reply (some commit))

def afterPut (q : Request) (put : Put β) (commit : Nat) : Pc β :=
  match put.tool with
  | none => .done ⟨none, some commit, [], []⟩
  | some _ =>
    if q.skipAutockpt then .done ⟨none, some commit, [], []⟩ else .parentLookup put commit

end Stages

namespace World

variable {β : Type} [DecidableEq β]

def pc (w : World β) (n : Nat) : Pc β := (w.call n).pc

def req (w : World β) (n : Nat) : Request := (w.call n).request

def op (w : World β) (n : Nat) : Op := (w.call n).op

def repoOf (w : World β) (n : Nat) : Repo β := w.repo (w.req n).repoId

def goto (w : World β) (n : Nat) (pc : Pc β) : World β :=
  { w with call := Function.update w.call n ⟨w.req n, w.op n, pc⟩ }

def setRepo (w : World β) (id : RepoId) (r : Repo β) : World β :=
  { w with repo := Function.update w.repo id r }

/-- A request that writes nothing. -/
def look (E : Host β) (w : World β) (n : Nat) (a : Answer) : Pc β → Option (Pc β)
  | .tagRef =>
    match a, w.op n with
    | .answered, .restoreFromTag tag _ =>
      match (w.repoOf n).tag (E.asRead (strip tag)) with
      | some (.annotated target) => some (.tagObject (.annotated target))
      | some o => some (afterSource (w.req n) o)
      | none => some (fail .tagNotFound)
    | _, _ => some (fail .tagNotFound)
  | .tagObject o =>
    match a, o with
    | .answered, .annotated target => some (afterSource (w.req n) target)
    | .lost, _ => some (fail .tagLookup)
    -- a refusal leaves the sha of the tag object
    | _, o => some (afterSource (w.req n) o)
  | .defaultBranch source =>
    some (if a = .answered then .headRef source (w.repoOf n).defaultBranch else fail .repoLookup)
  | .headRef source branch =>
    match a, (w.repoOf n).head (E.asRead branch) with
    | .answered, some head => some (.headCommit source branch head)
    | _, _ => some (fail .branchNotFound)
  | .headCommit source branch head =>
    match a, (w.repoOf n).treeOf head with
    | .answered, some tree =>
      some (nextPath ⟨source, branch, head, tree, [], [], []⟩ (listedPaths (w.op n)))
    | _, _ => some (fail .headLookup)
  | .contents p path rest =>
    some (if a = .answered then
        afterContents p path rest (Repo.contents E ((w.repoOf n).treeUnder p.source) path)
      else fail (.contentsLookup path))
  | .createTree p =>
    match a, Repo.createTree p.headTree p.entries with
    | .answered, some tree =>
      some (if tree.same p.headTree then .done (p.reply none) else .createCommit p tree)
    | _, _ => some (fail .createTree)
  | .reading =>
    some (if a = .answered then
        afterReading E (w.req n)
          (Repo.contents E ((w.repoOf n).branchTree (w.req n).ref) (sourcePath (w.op n))) (w.op n)
      else fail .unreadable)
  | .checking text =>
    match w.op n with
    | .copyFile _ dst dstOwner dstRepo _ =>
      let put := copyPut E (w.req n) dst dstOwner dstRepo text
      match getFileSha (a = .answered)
          (Repo.contents E ((w.repo put.repo).branchTree put.branch) put.path) with
      | some _ => some (fail .destinationExists)
      | none => some (.lookingUp put)
    | _ => none
  | .lookingUp put =>
    let given := getFileSha (a = .answered)
      (Repo.contents E ((w.repo put.repo).branchTree put.branch) put.path)
    some (if put.new = none ∧ given = none then .done ⟨none, none, [], []⟩ else .putting put given)
  | .parentLookup put commit =>
    let parent := ((w.repo put.repo).commits[commit]?).bind fun c => c.parents.head?
    match a, parent, put.tool with
    | .answered, some parent, some tool =>
      some (.recording (putCheckpoint (w.req n) put tool parent n) ⟨none, some commit, [], []⟩)
    | _, _, _ => some (.done ⟨none, some commit, [], []⟩)
  | _ => none

/-- The head of a branch has moved. -/
def moved (w : World β) (id : RepoId) (r : Repo β) (m : Move) : World β :=
  { w.setRepo id r with moves := m :: w.moves }

/-- What a request that is not refused does. -/
def attempt (a : Answer) (r : Option (Repo β)) : Option (Repo β) := if a = .refused then none else r

/-- The next request of a call. -/
def request (E : Host β) (w : World β) (n : Nat) (a : Answer) : Option (World β) :=
  match w.pc n with
  | .createCommit p tree =>
    let r := w.repoOf n
    match attempt a (r.createCommit tree p.head n) with
    | some r' =>
      some ((w.setRepo (w.req n).repoId r').goto n
        (if a = .answered then .updateRef p r.commits.length else fail .createCommit))
    | none => some (w.goto n (fail .createCommit))
  | .updateRef p commit =>
    let r := w.repoOf n
    let b := E.asRead p.branch
    match attempt a (r.updateRef b commit) with
    | some r' =>
      let m : Move := ⟨(w.req n).repoId, b, p.entries.map fun e => e.file.1, r.head b, commit, n⟩
      some ((w.moved (w.req n).repoId r' m).goto n
        (if a = .answered then afterUpdate (w.req n) (w.op n) p commit n else fail .updateRef))
    | none => some (w.goto n (.done ⟨some .updateRef, some commit, p.restored, p.deleted⟩))
  | .putting put given =>
    let r := w.repo put.repo
    let b := r.branchName put.branch
    match attempt a (r.putContents E put.branch put.path given put.new n) with
    | some r' =>
      let m : Move := ⟨put.repo, b, [segments (E.asRead put.path)], r.head b, r.commits.length, n⟩
      some ((w.moved put.repo r' m).goto n
        (if a = .answered then afterPut (w.req n) put r.commits.length else fail .write))
    | none => some (w.goto n (fail .write))
  | .recording c reply =>
    let index := if a = .refused then w.index else c :: w.index
    some ({ w with index := index }.goto n (.done reply))
  | pc => (w.look E n a pc).map (w.goto n)

/-- A sha that is used is of a commit that exists, or leads to none. -/
def knows (w : World β) (q : Request) : Op → Bool
  | .restoreFromSha sha _ =>
    match sha.leadsTo with
    | some n => n < (w.repo q.repoId).commits.length
    | none => true
  | _ => true

def outside (w : World β) (id : RepoId) (b : Text) (tree : Files β) (merged : List Nat) :
    Option (World β) :=
  match h : (w.repo id).head b with
  | some n =>
    if hm : ∀ p ∈ merged, p < (w.repo id).commits.length then
      some (w.setRepo id ((w.repo id).commitOn b ⟨tree, n :: merged, none⟩ fun p hp =>
        (List.mem_cons.mp hp).elim (fun he => he ▸ (w.repo id).headKnown b n h) (hm p)))
    else none
  | none => none

def step (E : Host β) (w : World β) : Act β → Option (World β)
  | .call n q op token =>
    match w.pc n with
    | .absent =>
      if w.knows q op then
        some { w with call := Function.update w.call n ⟨q, op, begin E q op token⟩ }
      else none
    | _ => none
  | .request n a => w.request E n a
  | .outside id b tree merged => w.outside id b tree merged

structure Initial (w : World β) : Prop where
  absent : ∀ n, w.pc n = .absent
  index : w.index = []
  moves : w.moves = []
  authors : ∀ id, ∀ c ∈ (w.repo id).commits, c.author = none

end World

end OpenSpoke.GitHub.Remote
