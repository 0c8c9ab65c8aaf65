import OpenSpoke.GitPathSync.Worker
import OpenSpoke.Lib.LinkTree

/-!
# The work on clones with symbolic links

The file system that the worker really has: reading and writing follow links,
deleting does not follow the last one. The log has the place of every file that
is copied, written or deleted.
-/

namespace OpenSpoke.GitPathSync

open FileTree

abbrev LinkedTree := LinkTree Name Bytes

inductive Access
  | read (p : Path)
  | write (p : Path)
  | delete (p : Path)
  deriving DecidableEq

structure Linked where
  tree : LinkedTree
  log : List Access

namespace Linked

def pathExists (s : Linked) (p : Path) : Bool := (s.tree.locate p).any s.tree.pathExists

def isDir (s : Linked) (p : Path) : Bool := (s.tree.locate p).any s.tree.isDir

def isFile (s : Linked) (p : Path) : Bool :=
  (s.tree.locate p).any fun r => (s.tree.bytesAt r).isSome

def read (s : Linked) (p : Path) : Option Bytes := (s.tree.locate p).bind s.tree.bytesAt

/-- `os.walk`, which lists a link unless it leads to a directory. -/
def walk (s : Linked) (base : Path) (prune : Name → Bool) : List Path :=
  match s.tree.locate base with
  | some r => (s.tree.walk r prune).filter fun rel => !s.isDir (base ++ rel)
  | none => []

/-- `os.mkdir` for each path that is not a directory. -/
def mkdirs (t : LinkedTree) : List Path → Option LinkedTree
  | [] => some t
  | p :: ps =>
    if (t.locate p).any t.isDir then mkdirs t ps
    else
      match t.spot p with
      | some r => if t.pathExists r then none else (t.makedirs r).bind fun u => mkdirs u ps
      | none => none

/-- Where `copy2` writes, links not yet followed. -/
def copyTarget (s : Linked) (src dst : Path) : Path :=
  if s.isDir dst then dst ++ src.basename else dst

def copy2 (s : Linked) (src dst : Path) : Option Linked :=
  match s.tree.locate src, s.tree.locate (s.copyTarget src dst) with
  | some r, some w =>
    match s.tree.bytesAt r, w.getLast? with
    | some b, some x =>
      if r = w then none
      else
        (s.tree.write w.dropLast x (.bytes b)).map fun t =>
          { tree := t, log := s.log ++ [.read r, .write w] }
    | _, _ => none
  | _, _ => none

def remove (s : Linked) (p : Path) : Option Linked :=
  match s.tree.spot p with
  | some r => (s.tree.remove r).map fun t => { tree := t, log := s.log ++ [.delete r] }
  | none => none

/-- `shutil.rmtree(p, ignore_errors=True)`, which refuses a link. -/
def rmtree (s : Linked) (p : Path) : Linked :=
  match s.tree.spot p with
  | some r =>
    if s.tree.isDir r then
      { tree := s.tree.rmtree r
        log := s.log ++
          (s.tree.support.filter fun q => r <+: q && s.tree.isFile q).map .delete }
    else s
  | none => s

end Linked

def linkOps : FileOps Linked where
  pathExists := Linked.pathExists
  isFile := Linked.isFile
  isDir := Linked.isDir
  walk := Linked.walk
  read := Linked.read
  makedirs s p :=
    raising "OSError" ((Linked.mkdirs s.tree p.inits).map fun t => { s with tree := t })
  copy2 s src dst := raising "OSError" (s.copy2 src dst)
  remove s p := raising "OSError" (s.remove p)
  rmtree := Linked.rmtree

section Ops

theorem linkAt_congr {t u : LinkedTree} (h : ∀ q, u.file q = t.file q) : u.linkAt = t.linkAt := by
  funext q
  simp only [linkAt, h]

theorem mkdirs_some {t u : LinkedTree} {ps : List Path} (h : Linked.mkdirs t ps = some u) :
    u.linkAt = t.linkAt ∧ ∀ q, t.node q = some .dir → u.node q = some .dir := by
  induction ps generalizing t with
  | nil =>
    cases h
    exact ⟨rfl, fun _ => id⟩
  | cons p ps ih =>
    simp only [Linked.mkdirs] at h
    split at h
    · exact ih h
    · split at h
      · next r _ =>
        split at h
        · cases h
        · obtain ⟨v, hv, hRest⟩ := Option.bind_eq_some_iff.mp h
          obtain ⟨hLinks, hDirs⟩ := ih hRest
          refine ⟨hLinks.trans (linkAt_congr (makedirs_file hv)), fun q hq => hDirs q ?_⟩
          rw [(makedirs_some hv).1 q]
          split
          · rfl
          · exact hq
      · cases h

theorem copy2_spec {s s' : Linked} {src dst : Path} (h : s.copy2 src dst = some s') :
    ∃ r w, s.tree.locate src = some r ∧ s.tree.locate (s.copyTarget src dst) = some w ∧
      s'.log = s.log ++ [.read r, .write w] ∧ s'.tree.linkAt = s.tree.linkAt ∧
      ∀ q, s.tree.node q = some .dir → s'.tree.node q = some .dir := by
  unfold Linked.copy2 at h
  split at h
  · next r w hr hw =>
    split at h
    · next b x hb hx =>
      split at h
      · cases h
      · obtain ⟨u, hu, rfl⟩ := Option.map_eq_some_iff.mp h
        obtain ⟨hNode, -, hFree⟩ := write_some hu
        have hEnd : w.dropLast ++ [x] = w := List.dropLast_append_getLast? x hx
        rw [hEnd] at hNode hFree
        have hNoLink := linkAt_locate hw
        refine ⟨r, w, hr, hw, rfl, ?_, fun q hq => ?_⟩
        · funext q
          by_cases hq : q = w
          · subst hq
            rw [hNoLink]
            simp [linkAt, FileTree.file, hNode]
          · simp [linkAt, FileTree.file, hNode, hq]
        · have hne : q ≠ w := by
            rintro rfl
            rw [isDir_iff.mpr hq] at hFree
            cases hFree
          rw [hNode, Function.update_of_ne hne]
          exact hq
    · cases h
  · cases h

theorem remove_spec {s s' : Linked} {p : Path} (h : s.remove p = some s') :
    ∃ r, s.tree.spot p = some r ∧ s'.log = s.log ++ [.delete r] ∧ s.tree.isFile r = true ∧
      ∀ q, s'.tree.node q = if q = r then none else s.tree.node q := by
  unfold Linked.remove at h
  split at h
  · next r hr =>
    obtain ⟨u, hu, rfl⟩ := Option.map_eq_some_iff.mp h
    refine ⟨r, hr, rfl, ?_, remove_some hu⟩
    unfold FileTree.remove at hu
    split at hu
    · assumption
    · cases hu
  · cases h

end Ops

end OpenSpoke.GitPathSync
