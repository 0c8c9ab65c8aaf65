import OpenSpoke.Lib.Snapshot
import OpenSpoke.Python.Text

/-!
# Repositories on GitHub

The commits of a repository with their trees, its branches and its tags, and what the
requests of the operations do there. Commits are numbered in the order in which they are
made. A tag is never moved.
-/

namespace OpenSpoke.GitHub.Remote

open Python (Text)

inductive Mode
  -- 100644
  | file
  -- 100755
  | executable
  -- 120000
  | link
  deriving DecidableEq

structure File (β : Type) where
  mode : Mode
  blob : β
  deriving DecidableEq

abbrev Path := List Text

abbrev Files (β : Type) := Snapshot Text (File β)

def segments (path : Text) : Path := path.splitOn '/'

/-- What a sha may be of. -/
inductive Object
  | commit (n : Nat)
  | annotated (target : Object)
  -- a blob, a tree, or nothing in the repository
  | other
  deriving DecidableEq

/-- The commit that git finds under a sha. -/
def Object.leadsTo : Object → Option Nat
  | commit n => some n
  | annotated target => target.leadsTo
  | other => none

structure Commit (β : Type) where
  tree : Files β
  parents : List Nat
  -- the call that has made it
  author : Option Nat

/-- What is not under our control: URLs, symbolic links and encodings. -/
structure Host (β : Type) where
  -- what GitHub is asked for where a text stands in the path of a URL
  asRead : Text → Text
  -- the blob of the file that a link leads to
  followLink : Files β → Path → Option β
  decode : β → Option Text
  encode : Text → β

structure Repo (β : Type) where
  commits : List (Commit β)
  head : Text → Option Nat
  tag : Text → Option Object
  defaultBranch : Text
  older : ∀ (n : Nat) (c : Commit β), commits[n]? = some c → ∀ p ∈ c.parents, p < n
  headKnown : ∀ b n, head b = some n → n < commits.length
  tagKnown : ∀ t o n, tag t = some o → o.leadsTo = some n → n < commits.length
  named : defaultBranch ≠ []

/-- What `GET contents` answers. -/
inductive Content (β : Type)
  | file (blob : β)
  | link (blob : β)
  | dir
  | notFound
  deriving DecidableEq

/-- An entry in the body of `POST git/trees`; without a sha it takes the path away. -/
structure TreeEntry (β : Type) where
  path : Text
  mode : Mode
  sha : Option β

def TreeEntry.file {β : Type} (e : TreeEntry β) : Path × Option (File β) :=
  (segments e.path, e.sha.map (File.mk e.mode))

namespace Repo

variable {β : Type}

theorem older_append {commits : List (Commit β)} {c : Commit β}
    (h : ∀ (n : Nat) (c : Commit β), commits[n]? = some c → ∀ p ∈ c.parents, p < n)
    (hc : ∀ p ∈ c.parents, p < commits.length) (n : Nat) (d : Commit β)
    (hd : (commits ++ [c])[n]? = some d) : ∀ p ∈ d.parents, p < n := by
  rcases Nat.lt_trichotomy n commits.length with hlt | rfl | hgt
  · rw [List.getElem?_append_left hlt] at hd
    exact h n d hd
  · rw [List.getElem?_concat_length, Option.some.injEq] at hd
    exact hd ▸ hc
  · rw [List.getElem?_eq_none (by simp; omega)] at hd
    cases hd

theorem known_append {r : Repo β} {c : Commit β} {n : Nat} (h : n < r.commits.length) :
    n < (r.commits ++ [c]).length := by
  simp
  omega

/-- `POST git/commits`: the number of the new commit is the number of commits before. -/
def add (r : Repo β) (c : Commit β) (h : ∀ p ∈ c.parents, p < r.commits.length) : Repo β :=
  { r with
    commits := r.commits ++ [c]
    older := older_append r.older h
    headKnown := fun b n hb => known_append (r.headKnown b n hb)
    tagKnown := fun t o n ht ho => known_append (r.tagKnown t o n ht ho) }

def setHead (head : Text → Option Nat) (b : Text) (n : Nat) (x : Text) : Option Nat :=
  if x = b then some n else head x

theorem setHead_known {r : Repo β} {b : Text} {n : Nat} (h : n < r.commits.length) (x : Text)
    (m : Nat) (hx : setHead r.head b n x = some m) : m < r.commits.length := by
  unfold setHead at hx
  split at hx
  · cases hx
    exact h
  · exact r.headKnown x m hx

def moveHead (r : Repo β) (b : Text) (n : Nat) (h : n < r.commits.length) : Repo β :=
  { r with head := setHead r.head b n, headKnown := setHead_known h }

theorem lt_add_length (r : Repo β) (c : Commit β) (h : ∀ p ∈ c.parents, p < r.commits.length) :
    r.commits.length < (r.add c h).commits.length := by
  simp [add]

/-- A commit right on a branch. -/
def commitOn (r : Repo β) (b : Text) (c : Commit β) (h : ∀ p ∈ c.parents, p < r.commits.length) :
    Repo β :=
  (r.add c h).moveHead b r.commits.length (r.lt_add_length c h)

def treeOf (r : Repo β) (n : Nat) : Option (Files β) := (r.commits[n]?).map Commit.tree

def treeUnder (r : Repo β) (o : Object) : Option (Files β) := o.leadsTo.bind r.treeOf

def branchName (r : Repo β) (branch : Option Text) : Text := branch.getD r.defaultBranch

def branchTree (r : Repo β) (branch : Option Text) : Option (Files β) :=
  (r.head (r.branchName branch)).bind r.treeOf

/-- Commit `a` is commit `b` or before it; no chain of parents is longer than the number
of the commit. -/
def isAncestorWithin (r : Repo β) : Nat → Nat → Nat → Bool
  | 0, a, b => a = b
  | fuel + 1, a, b =>
    a = b || ((r.commits[b]?).map Commit.parents).any fun ps =>
      ps.any fun p => r.isAncestorWithin fuel a p

def isAncestor (r : Repo β) (a b : Nat) : Bool := r.isAncestorWithin b a b

/-- `GET contents` in a tree. -/
def contents (E : Host β) (tree : Option (Files β)) (path : Text) : Content β :=
  match tree with
  | none => .notFound
  | some t =>
    let p := segments (E.asRead path)
    match t.entry p with
    | some ⟨.link, blob⟩ =>
      match E.followLink t p with
      | some target => .file target
      | none => .link blob
    | some ⟨_, blob⟩ => .file blob
    | none => if t.isDir p then .dir else .notFound

/-- `PUT` and `DELETE contents`: the commit that is made where the sha is the file's. -/
def edited [DecidableEq β] (E : Host β) (tree : Files β) (path : Text) (given new : Option β) :
    Option (Files β) :=
  let p := segments (E.asRead path)
  match tree.entry p, given, new with
  | some f, some g, _ => if f.blob = g then some (tree.set p (new.map (File.mk f.mode))) else none
  | none, none, some blob => if tree.isDir p then none else some (tree.set p (some ⟨.file, blob⟩))
  | _, _, _ => none

/-- The commit on a branch, or the first one of an empty repository. -/
def putOn [DecidableEq β] (E : Host β) (r : Repo β) (b path : Text) (given new : Option β)
    (author : Nat) : Option (Repo β) :=
  match h : r.head b with
  | some n =>
    match (r.treeOf n).bind fun t => edited E t path given new with
    | some tree =>
      some (r.commitOn b ⟨tree, [n], author⟩ fun _ hp => List.mem_singleton.mp hp ▸ r.headKnown b n h)
    | none => none
  | none =>
    if r.commits = [] then
      (edited E .empty path given new).map fun tree =>
        r.commitOn b ⟨tree, [], author⟩ fun _ hp => absurd hp List.not_mem_nil
    else none

def putContents [DecidableEq β] (E : Host β) (r : Repo β) (branch : Option Text) (path : Text)
    (given new : Option β) (author : Nat) : Option (Repo β) :=
  r.putOn E (r.branchName branch) path given new author

/-- `POST git/trees`. -/
def createTree (base : Files β) (entries : List (TreeEntry β)) : Option (Files β) :=
  if Snapshot.Clashing (entries.map TreeEntry.file) then none
  else some (base.overlay (entries.map TreeEntry.file))

def createCommit (r : Repo β) (tree : Files β) (parent author : Nat) : Option (Repo β) :=
  if h : parent < r.commits.length then
    some (r.add ⟨tree, [parent], author⟩ fun _ hp => List.mem_singleton.mp hp ▸ h)
  else none

/-- `PATCH git/refs/heads` without force. -/
def updateRef (r : Repo β) (b : Text) (n : Nat) : Option (Repo β) :=
  match r.head b with
  | some cur =>
    if h : n < r.commits.length then if r.isAncestor cur n then some (r.moveHead b n h) else none
    else none
  | none => none

/-! ## What stays -/

variable {r : Repo β}

theorem isAncestorWithin_succ (r : Repo β) (fuel a b : Nat) :
    r.isAncestorWithin (fuel + 1) a b =
      (a = b || ((r.commits[b]?).map Commit.parents).any fun ps =>
        ps.any fun p => r.isAncestorWithin fuel a p) := rfl

theorem le_of_isAncestorWithin {fuel a b : Nat} (h : r.isAncestorWithin fuel a b = true) : a ≤ b := by
  induction fuel generalizing b with
  | zero => exact (of_decide_eq_true h).le
  | succ fuel ih =>
    rw [isAncestorWithin_succ, Bool.or_eq_true, decide_eq_true_eq] at h
    rcases h with rfl | h
    · exact le_rfl
    · cases hb : r.commits[b]? with
      | none => simp [hb] at h
      | some c =>
        simp only [hb, Option.map_some, Option.any_some, List.any_eq_true] at h
        obtain ⟨p, hp, hAnc⟩ := h
        exact (ih hAnc).trans (r.older b c hb p hp).le

theorem isAncestor_cases {a b : Nat} {c : Commit β} (hb : r.commits[b]? = some c)
    (h : r.isAncestor a b = true) : a = b ∨ ∃ p ∈ c.parents, a ≤ p := by
  unfold isAncestor at h
  cases b with
  | zero => exact .inl (of_decide_eq_true h)
  | succ b =>
    rw [isAncestorWithin_succ, Bool.or_eq_true, decide_eq_true_eq] at h
    rcases h with rfl | h
    · exact .inl rfl
    · simp only [hb, Option.map_some, Option.any_some, List.any_eq_true] at h
      obtain ⟨p, hp, hAnc⟩ := h
      exact .inr ⟨p, hp, le_of_isAncestorWithin hAnc⟩

theorem isAncestor_parent {a b : Nat} {c : Commit β} (hb : r.commits[b]? = some c)
    (ha : a ∈ c.parents) : r.isAncestor a b = true := by
  have hlt := r.older b c hb a ha
  obtain ⟨k, rfl⟩ : ∃ k, b = k + 1 := ⟨b - 1, by omega⟩
  have hSelf : r.isAncestorWithin k a a = true := by
    cases k with
    | zero => exact decide_eq_true rfl
    | succ k => rw [isAncestorWithin_succ, decide_eq_true rfl, Bool.true_or]
  rw [isAncestor, isAncestorWithin_succ, Bool.or_eq_true]
  refine .inr ?_
  rw [hb, Option.map_some, Option.any_some, List.any_eq_true]
  exact ⟨a, ha, hSelf⟩

/-- Commits are added, and heads go to later commits. -/
structure Grows (r r' : Repo β) : Prop where
  commits : r.commits <+: r'.commits
  tag : r'.tag = r.tag
  defaultBranch : r'.defaultBranch = r.defaultBranch
  head : ∀ b k, r.head b = some k → ∃ k', r'.head b = some k' ∧ k ≤ k'

theorem Grows.refl (r : Repo β) : r.Grows r := ⟨List.prefix_rfl, rfl, rfl, fun _ k h => ⟨k, h, le_rfl⟩⟩

theorem grows_add {c : Commit β} {h : ∀ p ∈ c.parents, p < r.commits.length} : r.Grows (r.add c h) :=
  ⟨List.prefix_append _ _, rfl, rfl, fun _ k hk => ⟨k, hk, le_rfl⟩⟩

theorem head_moveHead_self {b : Text} {n : Nat} {h : n < r.commits.length} :
    (r.moveHead b n h).head b = some n := if_pos rfl

theorem head_moveHead_of_ne {b x : Text} {n : Nat} {h : n < r.commits.length} (hne : x ≠ b) :
    (r.moveHead b n h).head x = r.head x := if_neg hne

theorem grows_moveHead {b : Text} {n : Nat} {h : n < r.commits.length}
    (hLater : ∀ k, r.head b = some k → k ≤ n) : r.Grows (r.moveHead b n h) := by
  refine ⟨List.prefix_rfl, rfl, rfl, fun x k hk => ?_⟩
  by_cases hx : x = b
  · subst hx
    exact ⟨n, head_moveHead_self, hLater k hk⟩
  · exact ⟨k, by rw [head_moveHead_of_ne hx, hk], le_rfl⟩

theorem Grows.trans {r' r'' : Repo β} (h : r.Grows r') (h' : r'.Grows r'') : r.Grows r'' where
  commits := h.commits.trans h'.commits
  tag := h'.tag.trans h.tag
  defaultBranch := h'.defaultBranch.trans h.defaultBranch
  head b k hk := by
    obtain ⟨k', hk', hle⟩ := h.head b k hk
    obtain ⟨k'', hk'', hle'⟩ := h'.head b k' hk'
    exact ⟨k'', hk'', hle.trans hle'⟩

theorem grows_commitOn {b : Text} {c : Commit β} {h : ∀ p ∈ c.parents, p < r.commits.length} :
    r.Grows (r.commitOn b c h) := by
  apply grows_add.trans (grows_moveHead _)
  intro k hk
  exact (r.headKnown b k hk).le

section Growth

variable {r' : Repo β} (h : r.Grows r')

include h

theorem Grows.getElem {n : Nat} {c : Commit β} (hn : r.commits[n]? = some c) :
    r'.commits[n]? = some c := by
  obtain ⟨new, hNew⟩ := h.commits
  rw [← hNew, List.getElem?_append_left (List.getElem?_eq_some_iff.mp hn).1]
  exact hn

theorem Grows.length_le : r.commits.length ≤ r'.commits.length := h.commits.length_le

theorem Grows.treeOf {n : Nat} {t : Files β} (hn : r.treeOf n = some t) : r'.treeOf n = some t := by
  obtain ⟨c, hc, rfl⟩ := Option.map_eq_some_iff.mp hn
  exact Option.map_eq_some_iff.mpr ⟨c, h.getElem hc, rfl⟩

theorem Grows.treeUnder {o : Object} (hKnown : ∀ n, o.leadsTo = some n → n < r.commits.length) :
    r'.treeUnder o = r.treeUnder o := by
  unfold Repo.treeUnder
  cases hLeads : o.leadsTo with
  | none => rfl
  | some n =>
    obtain ⟨c, hc⟩ : ∃ c, r.commits[n]? = some c :=
      ⟨_, List.getElem?_eq_getElem (hKnown n hLeads)⟩
    have hTree : r.treeOf n = some c.tree := Option.map_eq_some_iff.mpr ⟨c, hc, rfl⟩
    exact (h.treeOf hTree).trans hTree.symm

theorem Grows.branchName (b : Option Text) : r'.branchName b = r.branchName b := by
  unfold Repo.branchName
  rw [h.defaultBranch]

end Growth

/-! ## What the writing requests do -/

section Requests

variable {r' : Repo β} {b : Text} {k : Nat}

theorem updateRef_spec (h : r.updateRef b k = some r') :
    ∃ cur, ∃ hk : k < r.commits.length, r.head b = some cur ∧ r.isAncestor cur k = true ∧
      r' = r.moveHead b k hk := by
  unfold updateRef at h
  split at h
  next cur hCur =>
    split at h
    next hk =>
      split at h
      next hAnc =>
        cases h
        exact ⟨cur, hk, hCur, hAnc, rfl⟩
      next => cases h
    next => cases h
  next => cases h

theorem createCommit_spec {tree : Files β} {parent author : Nat}
    (h : r.createCommit tree parent author = some r') :
    ∃ hp, r' = r.add ⟨tree, [parent], some author⟩ hp := by
  unfold createCommit at h
  split at h
  · cases h
    exact ⟨_, rfl⟩
  next => cases h

/-- A put or a delete is a commit on the head of the branch, or the first commit. -/
theorem putOn_spec [DecidableEq β] {E : Host β} {path : Text} {given new : Option β} {author : Nat}
    (h : r.putOn E b path given new author = some r') :
    ∃ base tree : Files β, ∃ hp, edited E base path given new = some tree ∧
      ((∃ n, r.head b = some n ∧ r.treeOf n = some base) ∨ r.head b = none ∧ base = .empty) ∧
      r' = r.commitOn b ⟨tree, (r.head b).toList, some author⟩ hp := by
  unfold putOn at h
  split at h
  next n hHead =>
    split at h
    next tree hTree =>
      cases h
      obtain ⟨base, hBase, hEdit⟩ := Option.bind_eq_some_iff.mp hTree
      refine ⟨base, tree, ?_, hEdit, .inl ⟨n, hHead, hBase⟩, ?_⟩
      · intro p hp
        rw [hHead] at hp
        exact List.mem_singleton.mp hp ▸ r.headKnown b n hHead
      · congr 2
        rw [hHead]
        rfl
    next => cases h
  next hHead =>
    split at h
    next hNil =>
      obtain ⟨tree, hEdit, rfl⟩ := Option.map_eq_some_iff.mp h
      refine ⟨.empty, tree, ?_, hEdit, .inr ⟨hHead, rfl⟩, ?_⟩
      · intro p hp
        rw [hHead] at hp
        cases hp
      · congr 2
        rw [hHead]
        rfl
    next => cases h

end Requests

end Repo

end OpenSpoke.GitHub.Remote
