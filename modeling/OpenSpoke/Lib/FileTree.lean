import Mathlib.Data.List.Basic
import Mathlib.Data.List.Dedup
import Mathlib.Data.List.Infix
import Mathlib.Logic.Function.Basic

/-!
# Finite trees of directories and regular files

A path is the list of its names from the root. A tree keeps its own shape: the
root is a directory, and whatever exists lies in a directory.
-/

inductive FileTree.Node (β : Type*)
  | dir
  | file (content : β)
  deriving DecidableEq

structure FileTree (ν β : Type*) where
  node : List ν → Option (FileTree.Node β)
  -- a list of all that exists, and maybe more
  support : List (List ν)
  mem_support : ∀ p, node p ≠ none → p ∈ support
  root : node [] = some .dir
  parent : ∀ p x, node (p ++ [x]) ≠ none → node p = some .dir

namespace FileTree

variable {ν β : Type*}

def pathExists (t : FileTree ν β) (p : List ν) : Bool := (t.node p).isSome

def isDir (t : FileTree ν β) (p : List ν) : Bool :=
  match t.node p with
  | some .dir => true
  | _ => false

def file (t : FileTree ν β) (p : List ν) : Option β :=
  match t.node p with
  | some (.file b) => some b
  | _ => none

def isFile (t : FileTree ν β) (p : List ν) : Bool := (t.file p).isSome

@[simp] theorem isDir_iff {t : FileTree ν β} {p : List ν} :
    t.isDir p = true ↔ t.node p = some .dir := by
  unfold isDir
  split <;> simp_all

theorem file_eq_some {t : FileTree ν β} {p : List ν} {b : β} :
    t.file p = some b ↔ t.node p = some (.file b) := by
  unfold file
  split <;> simp_all

theorem file_eq_none_of_dir {t : FileTree ν β} {p : List ν} (h : t.node p = some .dir) :
    t.file p = none := by
  simp [file, h]

theorem isFile_iff {t : FileTree ν β} {p : List ν} :
    t.isFile p = true ↔ ∃ b, t.node p = some (.file b) := by
  simp only [isFile, Option.isSome_iff_exists, file_eq_some]

theorem isDir_eq_false_of_file {t : FileTree ν β} {p : List ν} {b : β} (h : t.file p = some b) :
    t.isDir p = false := by
  rw [file_eq_some] at h
  simp [isDir, h]

theorem dir_of_prefix (t : FileTree ν β) {p q : List ν} (hq : t.node q ≠ none) (hPre : p <+: q)
    (hne : p ≠ q) : t.node p = some .dir := by
  obtain ⟨r, rfl⟩ := hPre
  induction r using List.reverseRecOn with
  | nil => simp at hne
  | append_singleton r x ih =>
    rw [← List.append_assoc] at hq
    have hDir := t.parent (p ++ r) x hq
    by_cases hr : r = []
    · simpa [hr] using hDir
    · exact ih (by simp [hDir]) (by simpa using hr)

theorem isDir_of_prefix (t : FileTree ν β) {p q : List ν} (hq : t.isDir q = true)
    (hPre : p <+: q) : t.isDir p = true := by
  by_cases hEq : p = q
  · rwa [hEq]
  · exact isDir_iff.mpr (t.dir_of_prefix (by simp [isDir_iff.mp hq]) hPre hEq)

theorem eq_of_file_prefix (t : FileTree ν β) {p q : List ν} {b : β} (hp : t.file p = some b)
    (hq : t.node q ≠ none) (hPre : p <+: q) : p = q := by
  by_contra hne
  rw [file_eq_some] at hp
  rw [t.dir_of_prefix hq hPre hne] at hp
  cases hp

section Operations

variable [DecidableEq ν]

/-- `os.makedirs(p, exist_ok=True)`, which fails if a file is in the way. -/
def makedirs (t : FileTree ν β) (p : List ν) : Option (FileTree ν β) :=
  if h : p.inits.all fun q => !t.isFile q then
    some {
      node := fun q => if q <+: p then some .dir else t.node q
      support := p.inits ++ t.support
      mem_support := by
        intro q hq
        by_cases hPre : q <+: p
        · exact List.mem_append_left _ ((List.mem_inits q p).mpr hPre)
        · rw [if_neg hPre] at hq
          exact List.mem_append_right _ (t.mem_support q hq)
      root := if_pos List.nil_prefix
      parent := by
        intro q x hq
        by_cases hPre : q <+: p
        · exact if_pos hPre
        · rw [if_neg hPre]
          rw [if_neg fun hLong => hPre ((List.prefix_append q [x]).trans hLong)] at hq
          exact t.parent q x hq }
  else none

/-- Create or overwrite the file `p ++ [x]`. -/
def write (t : FileTree ν β) (p : List ν) (x : ν) (b : β) : Option (FileTree ν β) :=
  if h : t.isDir p = true ∧ t.isDir (p ++ [x]) = false then
    some {
      node := Function.update t.node (p ++ [x]) (some (.file b))
      support := (p ++ [x]) :: t.support
      mem_support := by
        intro q hq
        by_cases hEq : q = p ++ [x]
        · simp [hEq]
        · rw [Function.update_of_ne hEq] at hq
          exact List.mem_cons_of_mem _ (t.mem_support q hq)
      root := by
        rw [Function.update_of_ne (by simp)]
        exact t.root
      parent := by
        intro q y hq
        have hne : q ≠ p ++ [x] := by
          rintro rfl
          rw [Function.update_of_ne (by simp)] at hq
          have hDir := t.parent (p ++ [x]) y hq
          simp [isDir, hDir] at h
        rw [Function.update_of_ne hne]
        by_cases hEq : q ++ [y] = p ++ [x]
        · obtain ⟨rfl, -⟩ := List.append_inj' hEq rfl
          exact isDir_iff.mp h.1
        · rw [Function.update_of_ne hEq] at hq
          exact t.parent q y hq }
  else none

/-- `shutil.copy2`: into a directory it goes under its own name, and onto itself
it fails. -/
def copy2 (t : FileTree ν β) (src dst : List ν) : Option (FileTree ν β) :=
  match t.file src, src.getLast? with
  | some b, some x =>
    if t.isDir dst then
      if dst ++ [x] = src then none else t.write dst x b
    else
      match dst.getLast? with
      | some y => if dst = src then none else t.write dst.dropLast y b
      | none => none
  | _, _ => none

/-- What is left without the paths in `gone`, which takes all below along. -/
def without (t : FileTree ν β) (gone : List ν → Bool) (hRoot : gone [] = false)
    (hBelow : ∀ p x, gone p = true → t.node (p ++ [x]) ≠ none → gone (p ++ [x]) = true) :
    FileTree ν β where
  node q := if gone q then none else t.node q
  support := t.support
  mem_support q hq := by
    refine t.mem_support q fun hNone => hq ?_
    simp [hNone]
  root := by simp [hRoot, t.root]
  parent p x hp := by
    have hStays : ¬gone (p ++ [x]) = true := fun hGone => hp (if_pos hGone)
    rw [if_neg hStays] at hp
    rw [if_neg fun hGone => hStays (hBelow p x hGone hp)]
    exact t.parent p x hp

def remove (t : FileTree ν β) (p : List ν) : Option (FileTree ν β) :=
  if h : t.isFile p then
    some (t.without (fun q => q = p)
      (by
        obtain ⟨b, hb⟩ := isFile_iff.mp h
        rw [decide_eq_false_iff_not]
        rintro rfl
        rw [t.root] at hb
        cases hb)
      (by
        intro q x hq hx
        obtain ⟨b, hb⟩ := isFile_iff.mp h
        rw [decide_eq_true_eq] at hq
        subst hq
        rw [t.parent q x hx] at hb
        cases hb))
  else none

/-- `shutil.rmtree(p, ignore_errors=True)`. -/
def rmtree (t : FileTree ν β) (p : List ν) : FileTree ν β :=
  if h : t.isDir p ∧ p ≠ [] then
    t.without (fun q => p <+: q) (by simp [h.2]) (by
      intro q x hq _
      rw [decide_eq_true_eq] at hq ⊢
      exact hq.trans (List.prefix_append q [x]))
  else t

/-- The files that `os.walk(base)` lists if it does not go into directories whose
name is in `prune`, relative to `base`. -/
def walk (t : FileTree ν β) (base : List ν) (prune : ν → Bool) : List (List ν) :=
  ((t.support.filter (base <+: ·)).map (·.drop base.length)).dedup.filter fun r =>
    t.isFile (base ++ r) && r.dropLast.all (!prune ·)

theorem nodup_walk (t : FileTree ν β) (base : List ν) (prune : ν → Bool) :
    (t.walk base prune).Nodup := (List.nodup_dedup _).filter _

theorem mem_walk {t : FileTree ν β} {base r : List ν} {prune : ν → Bool} :
    r ∈ t.walk base prune ↔ t.isFile (base ++ r) = true ∧ ∀ x ∈ r.dropLast, prune x = false := by
  simp only [walk, List.mem_filter, List.mem_dedup, List.mem_map, Bool.and_eq_true, List.all_eq_true,
    Bool.not_eq_true', decide_eq_true_eq]
  refine ⟨fun h => h.2, fun h => ⟨⟨base ++ r, ⟨?_, List.prefix_append base r⟩, by simp⟩, h⟩⟩
  obtain ⟨b, hb⟩ := isFile_iff.mp h.1
  exact t.mem_support _ (by simp [hb])

variable {t u : FileTree ν β} {p q : List ν}

theorem makedirs_some (h : t.makedirs p = some u) :
    (∀ q, u.node q = if q <+: p then some .dir else t.node q) ∧
      ∀ q, q <+: p → t.isFile q = false := by
  unfold makedirs at h
  split at h
  · next hFree =>
    cases h
    refine ⟨fun _ => rfl, fun q hq => ?_⟩
    have := List.all_eq_true.mp hFree q ((List.mem_inits q p).mpr hq)
    simpa using this
  · cases h

theorem makedirs_file (h : t.makedirs p = some u) (q : List ν) : u.file q = t.file q := by
  obtain ⟨hNode, hFree⟩ := makedirs_some h
  by_cases hq : q <+: p
  · have hNone := hFree q hq
    rw [file_eq_none_of_dir ((hNode q).trans (if_pos hq))]
    exact (by simpa [isFile] using hNone : t.file q = none).symm
  · simp only [file, hNode q, if_neg hq]

theorem write_some {x : ν} {b : β} (h : t.write p x b = some u) :
    u.node = Function.update t.node (p ++ [x]) (some (.file b)) ∧ t.node p = some .dir ∧
      t.isDir (p ++ [x]) = false := by
  unfold write at h
  split at h
  · next hOk =>
    cases h
    exact ⟨rfl, isDir_iff.mp hOk.1, hOk.2⟩
  · cases h

theorem remove_some (h : t.remove p = some u) :
    ∀ q, u.node q = if q = p then none else t.node q := by
  unfold remove at h
  split at h
  · cases h
    intro q
    simp [without]
  · cases h

theorem exists_remove (h : t.isFile p = true) : ∃ u, t.remove p = some u := ⟨_, dif_pos h⟩

theorem rmtree_node (t : FileTree ν β) (p q : List ν) (hDir : t.isDir p = true) (hp : p ≠ []) :
    (t.rmtree p).node q = if p <+: q then none else t.node q := by
  unfold rmtree
  rw [dif_pos ⟨hDir, hp⟩]
  simp [without]

/-- Where `copy2` puts the file. -/
def landing (t : FileTree ν β) (src dst : List ν) : List ν :=
  if t.isDir dst then dst ++ src.getLast?.toList else dst

omit [DecidableEq ν] in
theorem landing_into {src dst : List ν} (h : t.isDir dst = true) :
    t.landing src dst = dst ++ src.getLast?.toList := if_pos h

omit [DecidableEq ν] in
theorem landing_prefix {src dst : List ν} : dst <+: t.landing src dst := by
  unfold landing
  split
  · exact List.prefix_append _ _
  · exact List.prefix_rfl

omit [DecidableEq ν] in
theorem landing_free {src dst : List ν} (h : t.isDir dst = false) : t.landing src dst = dst :=
  if_neg (by simp [h])

theorem copy2_some {src dst : List ν} (h : t.copy2 src dst = some u) :
    ∃ b, t.file src = some b ∧ t.landing src dst ≠ src ∧ t.isDir (t.landing src dst) = false ∧
      u.node = Function.update t.node (t.landing src dst) (some (.file b)) := by
  unfold copy2 at h
  split at h
  · next b x hSrc hLast =>
    split at h
    · next hDir =>
      split at h
      · cases h
      · next hne =>
        obtain ⟨hNode, -, hFree⟩ := write_some h
        have hLand : t.landing src dst = dst ++ [x] := by simp [landing, hDir, hLast]
        exact ⟨b, hSrc, by rwa [hLand], by rwa [hLand], by rwa [hLand]⟩
    · next hDir =>
      split at h
      · next y hEnd =>
        split at h
        · cases h
        · next hne =>
          obtain ⟨hNode, -, hFree⟩ := write_some h
          have hDst : dst.dropLast ++ [y] = dst := List.dropLast_append_getLast? y hEnd
          have hLand : t.landing src dst = dst := by simp [landing, hDir]
          rw [hDst] at hNode hFree
          exact ⟨b, hSrc, by rwa [hLand], by rwa [hLand], by rwa [hLand]⟩
      · cases h
  · cases h

theorem exists_makedirs (h : ∀ q, q <+: p → t.isFile q = false) : ∃ u, t.makedirs p = some u := by
  have hFree : p.inits.all (fun q => !t.isFile q) = true := by
    refine List.all_eq_true.mpr fun q hq => ?_
    rw [h q ((List.mem_inits q p).mp hq)]
    rfl
  exact ⟨_, dif_pos hFree⟩

theorem exists_copy2 {src dst : List ν} (hSrc : t.isFile src = true) (hDst : dst ≠ [])
    (hAbove : t.isDir dst.dropLast = true) (hOther : t.landing src dst ≠ src)
    (hFree : t.isDir (t.landing src dst) = false) : ∃ u, t.copy2 src dst = some u := by
  obtain ⟨b, hb⟩ := isFile_iff.mp hSrc
  have hne : src ≠ [] := by
    rintro rfl
    rw [t.root] at hb
    cases hb
  have hLast := List.getLast?_eq_some_getLast hne
  have hEnd := List.getLast?_eq_some_getLast hDst
  unfold copy2
  rw [file_eq_some.mpr hb, hLast]
  cases hDir : t.isDir dst with
  | true =>
    rw [landing_into hDir, hLast, Option.toList_some] at hOther hFree
    exact ⟨_, (if_pos rfl).trans ((if_neg hOther).trans (dif_pos ⟨hDir, hFree⟩))⟩
  | false =>
    rw [landing_free hDir] at hOther hFree
    rw [← List.dropLast_append_getLast? _ hEnd] at hFree
    simp only [Bool.false_eq_true, if_false, hEnd, if_neg hOther]
    exact ⟨_, dif_pos ⟨hAbove, hFree⟩⟩

/-! ## Trees from lists of files -/

def empty : FileTree ν β where
  node p := if p = [] then some .dir else none
  support := [[]]
  mem_support := by
    intro p hp
    by_cases hEq : p = [] <;> simp_all
  root := if_pos rfl
  parent := by
    intro p x hp
    simp at hp

/-- The tree with the file and all above it, if nothing is in the way. -/
def withFile (t : FileTree ν β) (p : List ν) (x : ν) (b : β) : FileTree ν β :=
  ((t.makedirs p).bind fun u => u.write p x b).getD t

/-! ## Trees inside trees -/

/-- Trees under their names. -/
def join (parts : List (ν × FileTree ν β)) : FileTree ν β where
  node
    | [] => some .dir
    | x :: p => (parts.lookup x).bind fun t => t.node p
  support := [] :: parts.flatMap fun e => e.2.support.map (e.1 :: ·)
  mem_support := by
    intro p hp
    cases p with
    | nil => exact List.mem_cons_self
    | cons x p =>
      obtain ⟨t, ht, hNode⟩ : ∃ t, parts.lookup x = some t ∧ t.node p ≠ none := by
        cases ht : parts.lookup x with
        | none => simp [ht] at hp
        | some t => exact ⟨t, rfl, by simpa [ht] using hp⟩
      refine List.mem_cons_of_mem _ (List.mem_flatMap.mpr ⟨(x, t), ?_, ?_⟩)
      · obtain ⟨l₁, l₂, rfl, -⟩ := List.lookup_eq_some_iff.mp ht
        simp
      · exact List.mem_map_of_mem (t.mem_support p hNode)
  root := rfl
  parent := by
    intro p x hp
    cases p with
    | nil => rfl
    | cons y p =>
      cases ht : parts.lookup y with
      | none => simp [ht] at hp
      | some t =>
        simp only [List.cons_append, ht, Option.bind_some] at hp ⊢
        exact t.parent p x hp

/-- What is below a directory. -/
def subtree (t : FileTree ν β) (p : List ν) : FileTree ν β :=
  if h : t.isDir p then
    { node := fun q => t.node (p ++ q)
      support := (t.support.filter (p <+: ·)).map (·.drop p.length)
      mem_support := by
        intro q hq
        refine List.mem_map.mpr ⟨p ++ q, ?_, by simp⟩
        exact List.mem_filter.mpr ⟨t.mem_support _ hq, by simp⟩
      root := by simpa using h
      parent := by
        intro q x hq
        rw [← List.append_assoc] at hq
        exact t.parent (p ++ q) x hq }
  else empty

/-- The files that pass, and the directories above them. -/
def keep (t : FileTree ν β) (pass : List ν → Bool) : FileTree ν β :=
  t.without (fun q => q ≠ [] && !t.support.any fun p => q <+: p && t.isFile p && pass p) (by simp)
    (by
      intro q x hq _
      simp only [ne_eq, Bool.and_eq_true, decide_eq_true_eq, Bool.not_eq_true', List.any_eq_false]
        at hq ⊢
      refine ⟨by simp, fun p hp hPass => hq.2 p hp ?_⟩
      exact ⟨⟨(List.prefix_append q [x]).trans hPass.1.1, hPass.1.2⟩, hPass.2⟩)

theorem join_file (parts : List (ν × FileTree ν β)) {x : ν} {u : FileTree ν β}
    (hPart : parts.lookup x = some u) (p : List ν) :
    (join parts).file (x :: p) = u.file p ∧ (join parts).isDir (x :: p) = u.isDir p := by
  simp [file, isDir, join, hPart]

theorem subtree_file (t : FileTree ν β) (p : List ν) {q : List ν} (hq : q ≠ []) :
    (t.subtree p).file q = t.file (p ++ q) := by
  unfold subtree
  split
  · rfl
  · next hDir =>
    have hNone : t.node (p ++ q) = none := by
      by_contra hThere
      exact hDir (isDir_iff.mpr (t.dir_of_prefix hThere (List.prefix_append _ _) (by simp [hq])))
    simp [file, hNone, empty, hq]

theorem keep_file (pass : List ν → Bool) (q : List ν) :
    (t.keep pass).file q = if pass q then t.file q else none := by
  have hNode : (t.keep pass).node q =
      if q ≠ [] && !t.support.any fun p => q <+: p && t.isFile p && pass p then none
      else t.node q := rfl
  cases hFile : t.file q with
  | none =>
    have hNone : (t.keep pass).file q = none := by
      unfold file at hFile ⊢
      rw [hNode]
      split <;> simp_all
    simp [hNone]
  | some b =>
    have hThere : t.node q ≠ none := by simp [file_eq_some.mp hFile]
    have hAny : (t.support.any fun p => q <+: p && t.isFile p && pass p) = pass q := by
      rw [Bool.eq_iff_iff, List.any_eq_true]
      simp only [Bool.and_eq_true, decide_eq_true_eq]
      constructor
      · rintro ⟨p, -, ⟨hPre, hp⟩, hPass⟩
        obtain ⟨c, hc⟩ := isFile_iff.mp hp
        rwa [t.eq_of_file_prefix hFile (q := p) (by simp [hc]) hPre]
      · intro hPass
        exact ⟨q, t.mem_support q hThere, ⟨List.prefix_rfl, by simp [isFile, hFile]⟩, hPass⟩
    have hne : q ≠ [] := by
      rintro rfl
      rw [file_eq_some, t.root] at hFile
      cases hFile
    unfold file
    rw [hNode, hAny]
    rw [file_eq_some] at hFile
    cases pass q <;> simp [hne, hFile]

end Operations

/-! ## Assignments one after the other -/

section Assign

variable {κ ω : Type*} [DecidableEq κ]

/-- `m[g] := m[a]` for every pair `(a, g)` of the list, in its order. -/
def assign (m : κ → ω) (l : List (κ × κ)) : κ → ω :=
  l.foldl (fun m e => Function.update m e.2 (m e.1)) m

@[simp] theorem assign_nil (m : κ → ω) : assign m [] = m := rfl

theorem assign_cons (m : κ → ω) (e : κ × κ) (l : List (κ × κ)) :
    assign m (e :: l) = assign (Function.update m e.2 (m e.1)) l := rfl

theorem assign_concat (m : κ → ω) (l : List (κ × κ)) (e : κ × κ) :
    assign m (l ++ [e]) = Function.update (assign m l) e.2 (assign m l e.1) := by
  simp [assign]

theorem assign_of_not_mem (m : κ → ω) {l : List (κ × κ)} {k : κ} (hk : ∀ e ∈ l, e.2 ≠ k) :
    assign m l k = m k := by
  induction l generalizing m with
  | nil => rfl
  | cons e l ih =>
    rw [assign_cons, ih _ fun f hf => hk f (List.mem_cons_of_mem _ hf)]
    exact Function.update_of_ne (hk e List.mem_cons_self).symm _ _

theorem assign_isSome_iff {β : Type*} {m : κ → Option β} {l : List (κ × κ)}
    (h : ∀ e ∈ l, (m e.1).isSome = true) (k : κ) :
    (assign m l k).isSome = true ↔ (m k).isSome = true ∨ k ∈ l.map Prod.snd := by
  induction l generalizing m with
  | nil => simp
  | cons e l ih =>
    have hHead : ∀ k, (Function.update m e.2 (m e.1) k).isSome = true ↔
        (m k).isSome = true ∨ k = e.2 := by
      intro k
      by_cases hk : k = e.2
      · rw [hk, Function.update_self]
        simp [h e List.mem_cons_self]
      · rw [Function.update_of_ne hk]
        simp [hk]
    rw [assign_cons, ih fun f hf => (hHead f.1).mpr (.inl (h f (List.mem_cons_of_mem _ hf))),
      hHead, List.map_cons, List.mem_cons, or_assoc]

/-- The assignments have the effect of one simultaneous assignment exactly if no
place is read after another value was put there. -/
theorem assign_simultaneous_iff (m : κ → ω) {l : List (κ × κ)} (hNodup : (l.map Prod.snd).Nodup) :
    (∀ e ∈ l, assign m l e.2 = m e.1) ↔ l.Pairwise fun e f => e.2 = f.1 → m e.1 = m f.1 := by
  induction l using List.reverseRecOn with
  | nil => simp
  | append_singleton l f ih =>
    rw [List.map_append, List.map_singleton, List.nodup_append] at hNodup
    obtain ⟨hNodup, -, hNew⟩ := hNodup
    have hOld : ∀ e ∈ l, assign m (l ++ [f]) e.2 = assign m l e.2 := by
      intro e he
      rw [assign_concat]
      exact Function.update_of_ne
        (hNew e.2 (List.mem_map_of_mem he) f.2 List.mem_cons_self) _ _
    have hLast : assign m (l ++ [f]) f.2 = assign m l f.1 := by
      rw [assign_concat, Function.update_self]
    rw [List.pairwise_append, ← ih hNodup]
    constructor
    · intro h
      have hl : ∀ e ∈ l, assign m l e.2 = m e.1 := fun e he =>
        (hOld e he).symm.trans (h e (List.mem_append_left _ he))
      refine ⟨hl, List.pairwise_singleton _ _, fun e he g hg hEq => ?_⟩
      obtain rfl := List.mem_singleton.mp hg
      calc
        m e.1 = assign m l e.2 := (hl e he).symm
        _ = assign m l g.1 := by rw [hEq]
        _ = m g.1 := hLast.symm.trans (h g (List.mem_append_right _ hg))
    · rintro ⟨hl, -, hHazard⟩ e he
      rcases List.mem_append.mp he with he | he
      · exact (hOld e he).trans (hl e he)
      · obtain rfl := List.mem_singleton.mp he
        rw [hLast]
        by_cases hTarget : ∃ g ∈ l, g.2 = e.1
        · obtain ⟨g, hg, hEq⟩ := hTarget
          rw [← hEq, hl g hg, hHazard g hg e List.mem_cons_self hEq, hEq]
        · exact assign_of_not_mem m fun g hg hEq => hTarget ⟨g, hg, hEq⟩

theorem pairwise_iff_of_ordered {α : Type*} {S R : α → α → Prop} (hAsymm : ∀ a b, S a b → ¬S b a)
    {l : List α} (hOrder : l.Pairwise S) :
    l.Pairwise R ↔ ∀ a ∈ l, ∀ b ∈ l, S a b → R a b := by
  constructor
  · intro hPair
    have hThere : l.Pairwise fun a b => S a b → R a b :=
      hPair.imp fun {a b} (hR : R a b) (_ : S a b) => hR
    have hBack : l.Pairwise fun a b => S b a → R b a :=
      hOrder.imp fun {a b} hab (hba : S b a) => absurd hab (hAsymm b a hba)
    intro a ha b hb
    exact hThere.forall_of_forall_of_flip (fun c _ hSelf => absurd hSelf (hAsymm c c hSelf)) hBack
      ha hb
  · intro hAll
    exact hOrder.imp_of_mem fun ha hb hab => hAll _ ha _ hb hab

end Assign

end FileTree
