import Mathlib.Data.List.Sort
import OpenSpoke.GitPathSync.Job
import OpenSpoke.Lib.FileTree

/-!
# The work on the clones

The part of `_sync_worker` between the clones and the push, over any file
system: the choice of the files, the reflection loop, the deletion of the
surplus and the deletion of the source.
-/

namespace OpenSpoke.GitPathSync

open Python (Text)

abbrev Bytes := List UInt8

/-- What the worker asks of the file system. An error is an exception. -/
structure FileOps (σ : Type) where
  pathExists : σ → Path → Bool
  isFile : σ → Path → Bool
  isDir : σ → Path → Bool
  -- the files below a directory, but for those below directories of a pruned name
  walk : σ → Path → (Name → Bool) → List Path
  read : σ → Path → Option Bytes
  makedirs : σ → Path → Except String σ
  copy2 : σ → Path → Path → Except String σ
  remove : σ → Path → Except String σ
  rmtree : σ → Path → σ

structure Counters where
  scanned : Nat
  added : Nat
  updated : Nat
  unchanged : Nat
  deleted : Nat
  skipped : Nat
  deriving DecidableEq

structure Progress (σ : Type) where
  fs : σ
  counters : Counters
  changedFiles : List Text

/-- An exception leaves the file system as it found it. -/
abbrev Outcome (σ : Type) := Except (String × Progress σ) (Progress σ)

/-- The state after a phase, whether it raised or not. -/
def endState {ε σ : Type} : Except (ε × σ) σ → σ
  | .error (_, s) => s
  | .ok s => s

/-- The last segment of a path, as a path. -/
def Path.basename (p : Path) : Path := p.getLast?.toList

/-- `_matches`. -/
def pathMatches (rel : Path) (patterns : List Text) : Bool :=
  patterns.any fun p => Python.fnmatch rel.text p || Python.fnmatch rel.basename.text p

/-- The filters let the file through. -/
def Job.selects (job : Job) (rel : Path) : Bool :=
  (job.includes = [] || pathMatches rel job.includes) &&
    (job.excludes = [] || !pathMatches rel job.excludes)

/-- Where the files of a job come from and go to. -/
structure Places where
  srcBase : Path
  srcIsFile : Bool
  dstBase : Path
  -- the relative path and the place of each file
  srcFiles : List (Path × Path)
  dstScopeRel : Path

/-- `sorted(files.items())`; the relative paths are all different. -/
def sortFiles (files : List (Path × Path)) : List (Path × Path) :=
  files.insertionSort fun a b => Python.before b.1.text a.1.text = false

section Worker

variable {σ : Type} (F : FileOps σ)

def walkFiles (s : σ) (base : Path) : List (Path × Path) :=
  if F.isFile s base then [(base.basename, base)]
  else if F.isDir s base then (F.walk s base (· = gitName)).map fun rel => (rel, base ++ rel)
  else []

def sameBytes (s : σ) (a b : Path) : Bool :=
  match F.read s a, F.read s b with
  | some x, some y => x = y
  | _, _ => false

/-- The part before the filters. -/
def places (job : Job) (srcDir dstDir : Path) (s : σ) : Except String Places :=
  let srcPath := job.source.path
  let dstPath := job.dest.path
  let srcBase := srcDir ++ srcPath
  if F.pathExists s srcBase then
    if F.isFile s srcBase then
      let dstFileRel := if dstPath = [] then srcBase.basename else dstPath
      .ok {
        srcBase, srcIsFile := true, dstBase := dstDir ++ dstFileRel.dropLast
        srcFiles := [(dstFileRel.basename, srcBase)], dstScopeRel := dstFileRel.dropLast }
    else
      .ok {
        srcBase, srcIsFile := false, dstBase := dstDir ++ dstPath
        srcFiles := walkFiles F s srcBase, dstScopeRel := dstPath }
  else
    .error ("コピー元にパスがありません: " ++
      if srcPath = [] then "(リポジトリ直下)" else String.ofList srcPath.text)

/-- A file of the reflection loop. -/
def reflectFile (job : Job) (pl : Places) (st : Progress σ) (rel ap : Path) : Outcome σ :=
  let target := pl.dstBase ++ rel
  let there := F.pathExists st.fs target
  if there && sameBytes F st.fs ap target then
    .ok { st with counters := { st.counters with unchanged := st.counters.unchanged + 1 } }
  else
    let st := { st with
      counters :=
        if there then { st.counters with updated := st.counters.updated + 1 }
        else { st.counters with added := st.counters.added + 1 }
      changedFiles := st.changedFiles ++ [(pl.dstScopeRel ++ rel).text] }
    if job.dryRun then .ok st
    else
      match F.makedirs st.fs target.dropLast with
      | .error e => .error (e, st)
      | .ok fs =>
        match F.copy2 fs ap target with
        | .error e => .error (e, { st with fs := fs })
        | .ok fs => .ok { st with fs := fs }

def reflectFiles (job : Job) (pl : Places) : Progress σ → List (Path × Path) → Outcome σ
  | st, [] => .ok st
  | st, (rel, ap) :: files =>
    match reflectFile F job pl st rel ap with
    | .error e => .error e
    | .ok st => reflectFiles job pl st files

/-- A file that the destination has and the source has not. -/
def removeFile (job : Job) (pl : Places) (picked : List (Path × Path)) (st : Progress σ)
    (file : Path × Path) : Progress σ :=
  if file.1 ∈ picked.map Prod.fst then st
  else if job.selects file.1 then
    { fs :=
        if job.dryRun then st.fs
        else
          -- an exception is logged, no more
          match F.remove st.fs file.2 with
          | .ok fs => fs
          | .error _ => st.fs
      counters := { st.counters with deleted := st.counters.deleted + 1 }
      changedFiles := st.changedFiles ++ [['-', ' '] ++ (pl.dstScopeRel ++ file.1).text] }
  else st

def removeSurplus (job : Job) (pl : Places) (picked : List (Path × Path)) (st : Progress σ) :
    Progress σ :=
  (sortFiles (walkFiles F st.fs pl.dstBase)).foldl (removeFile F job pl picked) st

def Places.picked (pl : Places) (job : Job) : List (Path × Path) :=
  pl.srcFiles.filter fun file => job.selects file.1

/-- From the filters to the end of the deletions. -/
def reflect (maxFiles : Nat) (job : Job) (pl : Places) (s : σ) : Outcome σ :=
  let picked := pl.picked job
  let st : Progress σ := {
    fs := s
    counters := ⟨picked.length, 0, 0, 0, 0, pl.srcFiles.length - picked.length⟩
    changedFiles := [] }
  if maxFiles < picked.length then
    .error ("対象ファイルが多すぎます (" ++ toString picked.length ++ " 件、 上限 " ++
      toString maxFiles ++ " 件)。 include / exclude で絞ってください", st)
  else
    match reflectFiles F job pl st (sortFiles picked) with
    | .error e => .error e
    | .ok st =>
      .ok (if job.mode ≠ .copy ∧ pl.srcIsFile = false then removeSurplus F job pl picked st else st)

/-- A move deletes the source path. -/
def removeSource (pl : Places) (s : σ) : Except String σ :=
  if pl.srcIsFile then F.remove s pl.srcBase else .ok (F.rmtree s pl.srcBase)

/-- All that the job does with files: the reflection, and for a move the deletion of
the source. On one work tree nothing comes between the two. -/
def fileWork (maxFiles : Nat) (job : Job) (pl : Places) (s : σ) : Except (String × σ) σ :=
  match reflect F maxFiles job pl s with
  | .error (e, st) => .error (e, st.fs)
  | .ok st =>
    if job.dryRun = false ∧ job.mode = .move then
      match removeSource F pl st.fs with
      | .error e => .error (e, st.fs)
      | .ok s => .ok s
    else .ok st.fs

variable {F}

theorem places_ok {job : Job} {srcDir dstDir : Path} {s : σ} {pl : Places}
    (h : places F job srcDir dstDir s = .ok pl) :
    pl.srcBase = srcDir ++ job.source.path ∧ F.pathExists s pl.srcBase = true ∧
      ((F.isFile s pl.srcBase = true ∧ pl.srcIsFile = true ∧
          ∃ place, place = (if job.dest.path = [] then pl.srcBase.basename else job.dest.path) ∧
            pl.dstBase = dstDir ++ place.dropLast ∧ pl.srcFiles = [(place.basename, pl.srcBase)]) ∨
        (F.isFile s pl.srcBase = false ∧ pl.srcIsFile = false ∧
          pl.dstBase = dstDir ++ job.dest.path ∧ pl.srcFiles = walkFiles F s pl.srcBase)) := by
  unfold places at h
  dsimp only at h
  split at h
  · next hExists =>
    split at h
    · next hFile =>
      cases h
      exact ⟨rfl, hExists, .inl ⟨hFile, rfl, _, rfl, rfl, rfl⟩⟩
    · next hFile =>
      cases h
      exact ⟨rfl, hExists, .inr ⟨by simpa using hFile, rfl, rfl, rfl⟩⟩
  · cases h

section Dry

variable {job : Job} (hDry : job.dryRun = true) (pl : Places)
include hDry

theorem reflectFiles_dry (files : List (Path × Path)) (st : Progress σ) :
    ∃ sd, reflectFiles F job pl st files = .ok sd ∧ sd.fs = st.fs := by
  induction files generalizing st with
  | nil => exact ⟨st, rfl, rfl⟩
  | cons e files ih =>
    obtain ⟨next, hStep, hFs⟩ : ∃ next, reflectFile F job pl st e.1 e.2 = .ok next ∧
        next.fs = st.fs := by
      unfold reflectFile
      dsimp only
      split
      · exact ⟨_, rfl, rfl⟩
      · exact ⟨_, rfl, rfl⟩
    obtain ⟨sd, hRest, hKept⟩ := ih next
    refine ⟨sd, ?_, hKept.trans hFs⟩
    rw [reflectFiles, hStep]
    exact hRest

theorem removeSurplus_dry (picked : List (Path × Path)) (st : Progress σ) :
    (removeSurplus F job pl picked st).fs = st.fs := by
  rw [removeSurplus]
  induction sortFiles (walkFiles F st.fs pl.dstBase) generalizing st with
  | nil => rfl
  | cons e files ih =>
    rw [List.foldl_cons, ih]
    unfold removeFile
    split
    · rfl
    · split <;> rfl

end Dry

end Worker

/-! ## Clones of directories and regular files -/

abbrev WorkTree := FileTree Name Bytes

def sourceName : Name := ⟨['s', 'o', 'u', 'r', 'c', 'e'], by decide⟩

def destName : Name := ⟨['d', 'e', 's', 't'], by decide⟩

/-- The clones are in one directory. -/
def sourceDir : Path := [sourceName]

def destDir : Path := [destName]

def raising {α : Type} (e : String) (r : Option α) : Except String α := r.elim (.error e) .ok

theorem raising_ok {α : Type} {e : String} {r : Option α} {a : α} (h : raising e r = .ok a) :
    r = some a := by
  cases r with
  | none => cases h
  | some b => cases h; rfl

def treeOps : FileOps WorkTree where
  pathExists := FileTree.pathExists
  isFile := FileTree.isFile
  isDir := FileTree.isDir
  walk := FileTree.walk
  read := FileTree.file
  makedirs t p := raising "FileExistsError" (t.makedirs p)
  copy2 t src dst := raising "OSError" (t.copy2 src dst)
  remove t p := raising "OSError" (t.remove p)
  rmtree := FileTree.rmtree

end OpenSpoke.GitPathSync
