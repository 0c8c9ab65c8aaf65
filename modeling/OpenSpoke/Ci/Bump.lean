import Mathlib.Data.List.DropRight
import Mathlib.Logic.Function.Basic
import OpenSpoke.Lib.Lts
import OpenSpoke.Python.Text

/-!
# Manifest bumps

After its build a runner writes the new tag into manifests on the branch: it fetches,
rewrites the image lines and pushes, three times at most. A push is accepted if
nothing came in between.
-/

namespace OpenSpoke.Ci

open Lts
open Python (Text)

/-! ## Image lines -/

/-- What stands before and behind the first `p` of a line. -/
def splitFirst (p : Text) : Text → Option (Text × Text)
  | [] => if p = [] then some ([], []) else none
  | c :: t =>
    if p.isPrefixOf (c :: t) then some ([], (c :: t).drop p.length)
    else (splitFirst p t).map fun r => (c :: r.1, r.2)

/-- A tag goes on up to one of these. -/
def inTag (c : Char) : Bool := !(c = ' ' || c = '\t' || c = '#')

def imagePrefix (repo : Text) : Text := ['i', 'm', 'a', 'g', 'e', ':', ' '] ++ repo ++ [':']

/-- The `awk` program on a line. -/
def bumpLine (repo tag line : Text) : Text :=
  match splitFirst (imagePrefix repo) line with
  | some (lead, rest) => lead ++ imagePrefix repo ++ (tag ++ rest.dropWhile inTag)
  | none => line

def imageTag (repo line : Text) : Option Text :=
  (splitFirst (imagePrefix repo) line).map fun r => r.2.takeWhile inTag

/-- The lines of a manifest. -/
abbrev File := List Text

abbrev Tree := Text → Option File

def imageTags (repo : Text) (files : Tree) (p : Text) : List Text :=
  ((files p).getD []).filterMap (imageTag repo)

/-- A round of `mb_bump`, which counts the files that change. -/
def bumpPath (repo tag : Text) (acc : Tree × Nat) (p : Text) : Tree × Nat :=
  match acc.1 p with
  | none => acc
  | some f =>
    if f.map (bumpLine repo tag) = f then acc
    else (Function.update acc.1 p (some (f.map (bumpLine repo tag))), acc.2 + 1)

def mbBump (repo tag : Text) (paths : List Text) (files : Tree) : Tree × Nat :=
  paths.foldl (bumpPath repo tag) (files, 0)

/-! ## Runners -/

/-- The runners of one job of a target, in the order of their dispatch. -/
structure Runners where
  repo : Text
  tag : Nat → Text
  -- the `manifest_bump` of the commit
  paths : Nat → List Text
  tag_before : ∀ i j, i < j → Python.before (tag i) (tag j) = true
  tag_inTag : ∀ i, ∀ c ∈ tag i, inTag c = true

inductive Pc
  | fetching (tries : Nat)
  -- with the commit it has on top of `base`
  | pushing (tries base : Nat) (files : Tree)
  | succeeded
  | failed

structure World where
  -- the number of commits so far
  head : Nat
  files : Tree
  pc : Nat → Pc
  -- the runners whose accepted push changed the file
  written : Text → List Nat

def World.init (files : Tree) : World := ⟨0, files, fun _ => .fetching 0, fun _ => []⟩

inductive BumpAct
  | fetch (n : Nat) (ok : Bool)
  -- a push that is not `ok` fails for another reason
  | push (n : Nat) (ok : Bool)
  -- somebody else's commit
  | outside (files : Tree)

def retry (tries : Nat) : Pc := if tries + 1 < 3 then .fetching (tries + 1) else .failed

def World.goto (s : World) (n : Nat) (pc : Pc) : World :=
  { s with pc := Function.update s.pc n pc }

def World.step (R : Runners) (s : World) : BumpAct → Option World
  | .fetch n ok =>
    match s.pc n with
    | .fetching tries =>
      if ok then
        let r := mbBump R.repo (R.tag n) (R.paths n) s.files
        some (s.goto n (if r.2 = 0 then .succeeded else .pushing tries s.head r.1))
      else some (s.goto n (retry tries))
    | _ => none
  | .push n ok =>
    match s.pc n with
    | .pushing tries base files =>
      if ok = true ∧ base = s.head then
        some { s.goto n .succeeded with
          head := s.head + 1
          files := files
          written := fun p => if files p = s.files p then s.written p else n :: s.written p }
      else some (s.goto n (retry tries))
    | _ => none
  | .outside files => some { s with head := s.head + 1, files := files }

/-- When a push is accepted, no manifest it is about has the tag of a runner that was
dispatched later; the commits of others leave the tags alone. -/
def World.Fresh (R : Runners) (s : World) : BumpAct → Prop
  | .push n true => ∀ tries files, s.pc n = .pushing tries s.head files →
      ∀ p ∈ R.paths n, ∀ j, n < j → R.tag j ∉ imageTags R.repo s.files p
  | .outside files => ∀ p, imageTags R.repo files p = imageTags R.repo s.files p
  | _ => True

/-! ## What a bump does -/

theorem isPrefixOf_append {p x r r' : Text} (h : p.length ≤ x.length) :
    p.isPrefixOf (x ++ r) = p.isPrefixOf (x ++ r') := by
  have hBoth : ∀ r r' : Text, p <+: x ++ r → p <+: x ++ r' := fun r r' hp =>
    (List.prefix_of_prefix_length_le hp (List.prefix_append x r) h).trans (List.prefix_append x r')
  rw [Bool.eq_iff_iff, List.isPrefixOf_iff_prefix, List.isPrefixOf_iff_prefix]
  exact ⟨hBoth r r', hBoth r' r⟩

theorem splitFirst_some {p t lead rest : Text} (h : splitFirst p t = some (lead, rest)) :
    t = lead ++ p ++ rest := by
  induction t generalizing lead rest with
  | nil =>
    simp only [splitFirst, Option.ite_none_right_eq_some, Option.some.injEq, Prod.mk.injEq] at h
    obtain ⟨rfl, rfl, rfl⟩ := h
    rfl
  | cons c t ih =>
    rw [splitFirst] at h
    split at h
    next hPrefix =>
      obtain ⟨rfl, rfl⟩ := Prod.mk.inj (Option.some.inj h)
      obtain ⟨r, hr⟩ := List.isPrefixOf_iff_prefix.mp hPrefix
      rw [← hr, List.drop_left, List.nil_append]
    next =>
      obtain ⟨⟨l, r⟩, hSplit, hEq⟩ := Option.map_eq_some_iff.mp h
      obtain ⟨rfl, rfl⟩ := Prod.mk.inj hEq
      rw [ih hSplit]
      rfl

theorem splitFirst_append {p t lead rest : Text} (h : splitFirst p t = some (lead, rest))
    (rest' : Text) : splitFirst p (lead ++ p ++ rest') = some (lead, rest') := by
  induction t generalizing lead rest with
  | nil =>
    simp only [splitFirst, Option.ite_none_right_eq_some, Option.some.injEq, Prod.mk.injEq] at h
    obtain ⟨rfl, rfl, rfl⟩ := h
    cases rest' <;> simp [splitFirst]
  | cons c t ih =>
    rw [splitFirst] at h
    split at h
    next hPrefix =>
      obtain ⟨rfl, rfl⟩ := Prod.mk.inj (Option.some.inj h)
      cases p with
      | nil => cases rest' <;> simp [splitFirst]
      | cons d p =>
        have hOwn : (d :: p).isPrefixOf (d :: (p ++ rest')) = true :=
          List.isPrefixOf_iff_prefix.mpr (List.prefix_append (d :: p) rest')
        rw [List.nil_append, List.cons_append, splitFirst, if_pos hOwn, ← List.cons_append,
          List.drop_left]
    next hNot =>
      obtain ⟨⟨l, r⟩, hSplit, hEq⟩ := Option.map_eq_some_iff.mp h
      obtain ⟨rfl, rfl⟩ := Prod.mk.inj hEq
      have hSame : p.isPrefixOf (c :: l ++ p ++ r) = p.isPrefixOf (c :: l ++ p ++ rest') :=
        isPrefixOf_append (by simp; omega)
      rw [splitFirst_some hSplit] at hNot
      rw [List.cons_append, List.cons_append, splitFirst, if_neg, ih hSplit, Option.map_some]
      rw [← List.cons_append, ← List.cons_append, ← hSame]
      exact hNot

theorem takeWhile_dropWhile (p : Char → Bool) (t : Text) : (t.dropWhile p).takeWhile p = [] := by
  induction t with
  | nil => rfl
  | cons c t ih =>
    rw [List.dropWhile_cons]
    split
    · exact ih
    next hc => rw [List.takeWhile_cons, if_neg hc]

theorem map_bumpLine_eq {repo tag : Text} {f : File} (h : f.filterMap (imageTag repo) = []) :
    f.map (bumpLine repo tag) = f := by
  refine (List.map_congr_left fun line hLine => ?_).trans (List.map_id f)
  have hNone := List.filterMap_eq_nil_iff.mp h line hLine
  rw [imageTag, Option.map_eq_none_iff] at hNone
  simp only [bumpLine, hNone, id]

section Bump

variable {repo tag : Text} (hTag : ∀ c ∈ tag, inTag c = true)
include hTag

theorem imageTag_bumpLine (line : Text) :
    imageTag repo (bumpLine repo tag line) = (imageTag repo line).map fun _ => tag := by
  rw [bumpLine, imageTag, imageTag]
  cases hSplit : splitFirst (imagePrefix repo) line with
  | none =>
    simp only [hSplit]
    rfl
  | some r =>
    obtain ⟨lead, rest⟩ := r
    simp only [splitFirst_append hSplit, Option.map_some]
    rw [List.takeWhile_append_of_pos hTag, takeWhile_dropWhile, List.append_nil]

theorem bumpLine_bumpLine (line : Text) :
    bumpLine repo tag (bumpLine repo tag line) = bumpLine repo tag line := by
  cases hSplit : splitFirst (imagePrefix repo) line with
  | none => simp only [bumpLine, hSplit]
  | some r =>
    obtain ⟨lead, rest⟩ := r
    have hEnd : (rest.dropWhile inTag).dropWhile inTag = rest.dropWhile inTag :=
      List.dropWhile_idempotent _ _
    simp only [bumpLine, hSplit, splitFirst_append hSplit]
    rw [List.dropWhile_append_of_pos hTag, hEnd]

theorem mbBump_files (paths : List Text) (files : Tree) (p : Text) :
    (mbBump repo tag paths files).1 p =
      if p ∈ paths then (files p).map fun f => f.map (bumpLine repo tag) else files p := by
  have hAcc : ∀ acc : Tree × Nat, (paths.foldl (bumpPath repo tag) acc).1 p =
      if p ∈ paths then (acc.1 p).map fun f => f.map (bumpLine repo tag) else acc.1 p := by
    induction paths with
    | nil => simp
    | cons q paths ih =>
      intro acc
      have hRound : (bumpPath repo tag acc q).1 p =
          if p = q then (acc.1 p).map fun f => f.map (bumpLine repo tag) else acc.1 p := by
        by_cases hpq : p = q
        · subst hpq
          rw [if_pos rfl, bumpPath]
          cases hFile : acc.1 p with
          | none => simp [hFile]
          | some f =>
            simp only
            split
            next hSame => rw [hFile, Option.map_some, hSame]
            next => simp
        · rw [if_neg hpq, bumpPath]
          split
          · rfl
          · split
            · rfl
            · exact Function.update_of_ne hpq _ _
      have hTwice : ∀ f : Option File, (f.map fun f => f.map (bumpLine repo tag)).map
          (fun f => f.map (bumpLine repo tag)) = f.map fun f => f.map (bumpLine repo tag) := by
        intro f
        simp [Function.comp_def, bumpLine_bumpLine hTag]
      rw [List.foldl_cons, ih, hRound]
      by_cases hpq : p = q
      · subst hpq
        simp only [if_true, List.mem_cons_self]
        split
        · exact hTwice _
        · rfl
      · simp [hpq]
  exact hAcc (files, 0)

omit hTag in
theorem mbBump_eq_of_zero (paths : List Text) (files : Tree)
    (h : (mbBump repo tag paths files).2 = 0) : (mbBump repo tag paths files).1 = files := by
  have hMore : ∀ (paths : List Text) (acc : Tree × Nat),
      acc.2 ≤ (paths.foldl (bumpPath repo tag) acc).2 ∧
      ((paths.foldl (bumpPath repo tag) acc).2 = acc.2 →
        (paths.foldl (bumpPath repo tag) acc).1 = acc.1) := by
    intro paths
    induction paths with
    | nil => exact fun acc => ⟨le_rfl, fun _ => rfl⟩
    | cons q paths ih =>
      intro acc
      obtain ⟨hLe, hSame⟩ := ih (bumpPath repo tag acc q)
      have hRound : bumpPath repo tag acc q = acc ∨ (bumpPath repo tag acc q).2 = acc.2 + 1 := by
        rw [bumpPath]
        split
        · exact .inl rfl
        · split
          · exact .inl rfl
          · exact .inr rfl
      rw [List.foldl_cons]
      rcases hRound with hRound | hRound
      · rw [hRound] at hLe hSame ⊢
        exact ⟨hLe, hSame⟩
      · exact ⟨by omega, fun hEq => by omega⟩
  exact (hMore paths (files, 0)).2 h

theorem imageTags_mbBump (paths : List Text) (files : Tree) (p : Text) :
    imageTags repo (mbBump repo tag paths files).1 p =
      if p ∈ paths then (imageTags repo files p).map fun _ => tag else imageTags repo files p := by
  rw [imageTags, imageTags, mbBump_files hTag]
  split
  · cases hFile : files p with
    | none => rfl
    | some f =>
      simp only [Option.map_some, Option.getD_some, List.filterMap_map, List.map_filterMap]
      exact List.filterMap_congr fun line _ => imageTag_bumpLine hTag line
  · rfl

end Bump

/-! ## Runs -/

variable {R : Runners} {s t : World} {a : BumpAct} {acts : List BumpAct} {files : Tree}

/-- What holds as long as pushes are fresh. -/
structure Newest (R : Runners) (s : World) : Prop where
  -- a commit that can still be accepted is the bump of what the branch has
  pushing : ∀ n tries base files, s.pc n = .pushing tries base files → base ≤ s.head ∧
    (base = s.head → files = (mbBump R.repo (R.tag n) (R.paths n) s.files).1)
  written : ∀ p, ∀ i ∈ s.written p, imageTags R.repo s.files p ≠ [] ∧
    ∀ tag ∈ imageTags R.repo s.files p, ∃ j, i ≤ j ∧ tag = R.tag j
  succeeded : ∀ p n, s.pc n = .succeeded → p ∈ R.paths n → imageTags R.repo s.files p ≠ [] →
    ∃ j, s.pc j = .succeeded ∧ p ∈ R.paths j ∧ n ≤ j ∧
      ∀ tag ∈ imageTags R.repo s.files p, tag = R.tag j

theorem newest_init (R : Runners) (files : Tree) : Newest R (.init files) := by
  constructor <;> simp [World.init]

theorem retry_ne (tries : Nat) :
    retry tries ≠ .succeeded ∧ ∀ k base files, retry tries ≠ .pushing k base files := by
  rw [retry]
  split <;> simp

theorem Newest.goto (h : Newest R s) {n : Nat} (hn : s.pc n ≠ .succeeded) (pc : Pc)
    (hPushing : ∀ tries base files, pc = .pushing tries base files → base ≤ s.head ∧
      (base = s.head → files = (mbBump R.repo (R.tag n) (R.paths n) s.files).1))
    (hSucceeded : pc = .succeeded → ∀ p ∈ R.paths n, ∀ tag ∈ imageTags R.repo s.files p,
      tag = R.tag n) : Newest R (s.goto n pc) := by
  refine ⟨fun m tries base files hm => ?_, h.written, fun p m hm hp hTags => ?_⟩
  · by_cases hmn : m = n
    · subst hmn
      exact hPushing tries base files (by simpa [World.goto] using hm)
    · exact h.pushing m tries base files (by simpa [World.goto, hmn] using hm)
  · by_cases hmn : m = n
    · subst hmn
      have hDone : pc = .succeeded := by simpa [World.goto] using hm
      exact ⟨m, hm, hp, le_rfl, hSucceeded hDone p hp⟩
    · obtain ⟨j, hj, hPath, hLe, hAll⟩ :=
        h.succeeded p m (by simpa [World.goto, hmn] using hm) hp hTags
      have hjn : j ≠ n := fun hEq => hn (hEq ▸ hj)
      exact ⟨j, by simpa [World.goto, hjn] using hj, hPath, hLe, hAll⟩

theorem Newest.accept (h : Newest R s) {n tries : Nat} (hn : s.pc n = .pushing tries s.head files)
    (hFresh : s.Fresh R (.push n true)) :
    Newest R { s.goto n .succeeded with
      head := s.head + 1
      files := files
      written := fun p => if files p = s.files p then s.written p else n :: s.written p } := by
  have hFiles : files = (mbBump R.repo (R.tag n) (R.paths n) s.files).1 :=
    (h.pushing n tries s.head files hn).2 rfl
  have hTags : ∀ p, imageTags R.repo files p = if p ∈ R.paths n then
      (imageTags R.repo s.files p).map fun _ => R.tag n else imageTags R.repo s.files p := by
    intro p
    rw [hFiles]
    exact imageTags_mbBump (R.tag_inTag n) (R.paths n) s.files p
  -- no tag of a later runner is on the manifests it is about
  have hLast : ∀ p ∈ R.paths n, ∀ j, R.tag j ∈ imageTags R.repo s.files p → j ≤ n :=
    fun p hp j hMem => Nat.le_of_not_lt fun hLt => hFresh tries files hn p hp j hLt hMem
  refine ⟨fun m k base files' hm => ?_, fun p i hi => ?_, fun p m hm hp hSome => ?_⟩
  · by_cases hmn : m = n
    · subst hmn
      simp [World.goto] at hm
    · have hOld := h.pushing m k base files' (by simpa [World.goto, hmn] using hm)
      exact ⟨Nat.le_succ_of_le hOld.1, fun hEq => absurd hOld.1 (by simp only at hEq; omega)⟩
  · simp only at hi ⊢
    by_cases hp : p ∈ R.paths n
    · have hBoth : imageTags R.repo s.files p ≠ [] ∧ i ≤ n := by
        by_cases hOld : i ∈ s.written p
        · obtain ⟨hSome, hAll⟩ := h.written p i hOld
          obtain ⟨tag, hMem⟩ := List.exists_mem_of_ne_nil _ hSome
          obtain ⟨j, hLe, rfl⟩ := hAll tag hMem
          exact ⟨hSome, hLe.trans (hLast p hp j hMem)⟩
        · have hNew : files p ≠ s.files p ∧ i = n := by
            split at hi
            next => exact absurd hi hOld
            next hne => exact ⟨hne, (List.mem_cons.mp hi).resolve_right hOld⟩
          refine ⟨fun hNone => hNew.1 ?_, hNew.2.le⟩
          rw [hFiles, mbBump_files (R.tag_inTag n), if_pos hp]
          cases hFile : s.files p with
          | none => rfl
          | some f =>
            rw [imageTags, hFile, Option.getD_some] at hNone
            rw [Option.map_some, map_bumpLine_eq hNone]
      rw [hTags p, if_pos hp]
      refine ⟨by simpa using hBoth.1, fun tag hMem => ⟨n, hBoth.2, ?_⟩⟩
      obtain ⟨-, -, rfl⟩ := List.mem_map.mp hMem
      rfl
    · have hSame : files p = s.files p := by
        rw [hFiles, mbBump_files (R.tag_inTag n), if_neg hp]
      rw [if_pos hSame] at hi
      rw [hTags p, if_neg hp]
      exact h.written p i hi
  · simp only at hSome ⊢
    by_cases hpn : p ∈ R.paths n
    · rw [hTags p, if_pos hpn] at hSome ⊢
      have hLe : m ≤ n := by
        by_cases hmn : m = n
        · exact hmn.le
        · obtain ⟨j, -, -, hLe, hAll⟩ := h.succeeded p m (by simpa [World.goto, hmn] using hm) hp
            (by simpa using hSome)
          obtain ⟨tag, hMem⟩ := List.exists_mem_of_ne_nil _ (by simpa using hSome :
            imageTags R.repo s.files p ≠ [])
          exact hLe.trans (hLast p hpn j (hAll tag hMem ▸ hMem))
      refine ⟨n, by simp [World.goto], hpn, hLe, fun tag hMem => ?_⟩
      obtain ⟨-, -, rfl⟩ := List.mem_map.mp hMem
      rfl
    · rw [hTags p, if_neg hpn] at hSome ⊢
      have hmn : m ≠ n := fun hEq => hpn (hEq ▸ hp)
      obtain ⟨j, hj, hPath, hLe, hAll⟩ :=
        h.succeeded p m (by simpa [World.goto, hmn] using hm) hp hSome
      have hjn : j ≠ n := fun hEq => hpn (hEq ▸ hPath)
      exact ⟨j, by simpa [World.goto, hjn] using hj, hPath, hLe, hAll⟩

theorem newest_step (h : Newest R s) (hFresh : s.Fresh R a) (hStep : s.step R a = some t) :
    Newest R t := by
  cases a with
  | outside files =>
    cases hStep
    have hTags : ∀ p, imageTags R.repo files p = imageTags R.repo s.files p := hFresh
    refine ⟨fun n tries base files' hn => ?_, fun p i hi => ?_, fun p n hn hp hSome => ?_⟩
    · have hOld := (h.pushing n tries base files' hn).1
      exact ⟨Nat.le_succ_of_le hOld, fun hEq => absurd hOld (by simp only at hEq; omega)⟩
    · rw [hTags]
      exact h.written p i hi
    · simp only [hTags] at hSome ⊢
      exact h.succeeded p n hn hp hSome
  | fetch n ok =>
    rw [World.step] at hStep
    cases hPc : s.pc n with
    | fetching tries =>
      have hn : s.pc n ≠ .succeeded := by simp [hPc]
      simp only [hPc] at hStep
      cases ok with
      | false =>
        cases hStep
        exact h.goto hn _ (fun k base files hEq => absurd hEq ((retry_ne tries).2 k base files))
          fun hEq => absurd hEq (retry_ne tries).1
      | true =>
        simp only [if_true] at hStep
        cases hStep
        refine h.goto hn _ (fun k base files hEq => ?_) fun hEq p hp tag hMem => ?_
        · split at hEq
          · cases hEq
          · cases hEq
            exact ⟨le_rfl, fun _ => rfl⟩
        · split at hEq
          next hZero =>
            have hSame := @imageTags_mbBump R.repo _ (R.tag_inTag n) (R.paths n) s.files p
            rw [mbBump_eq_of_zero _ _ hZero, if_pos hp] at hSame
            rw [hSame] at hMem
            obtain ⟨-, -, rfl⟩ := List.mem_map.mp hMem
            rfl
          next => cases hEq
    | _ => simp [hPc] at hStep
  | push n ok =>
    rw [World.step] at hStep
    cases hPc : s.pc n with
    | pushing tries base files =>
      have hn : s.pc n ≠ .succeeded := by simp [hPc]
      simp only [hPc] at hStep
      split at hStep
      next hAccept =>
        obtain ⟨rfl, rfl⟩ := hAccept
        cases hStep
        exact h.accept hPc hFresh
      next =>
        cases hStep
        exact h.goto hn _ (fun k base files hEq => absurd hEq ((retry_ne tries).2 k base files))
          fun hEq => absurd hEq (retry_ne tries).1
    | _ => simp [hPc] at hStep

/-- In every run whose pushes are fresh, no manifest has a tag older than one written to it
before, and a manifest has the tag of the latest of the runners that have succeeded with
it. -/
theorem bumps_never_go_back (hRun : run (World.step R) (.init files) acts = some s)
    (hFresh : Along (World.step R) (World.Fresh R) (.init files) acts) :
    (∀ p, ∀ i ∈ s.written p, ∀ tag ∈ imageTags R.repo s.files p,
      Python.before tag (R.tag i) = false) ∧
    ∀ p n, s.pc n = .succeeded → p ∈ R.paths n →
      (∀ m, s.pc m = .succeeded → p ∈ R.paths m → m ≤ n) →
      ∀ tag ∈ imageTags R.repo s.files p, tag = R.tag n := by
  have h : Newest R s := Reach.invariant (newest_init R files)
    (fun _ _ _ _ hInv hOk hStep => newest_step hInv hOk hStep) (Reach.of_run hRun hFresh)
  refine ⟨fun p i hi tag hMem => ?_, fun p n hn hp hLatest tag hMem => ?_⟩
  · obtain ⟨j, hLe, rfl⟩ := (h.written p i hi).2 tag hMem
    rcases Nat.eq_or_lt_of_le hLe with rfl | hLt
    · exact Python.before_irrefl _
    · exact Bool.eq_false_iff.mpr (Python.before_asymm (R.tag_before i j hLt))
  · obtain ⟨j, hj, hPath, hLe, hAll⟩ := h.succeeded p n hn hp (List.ne_nil_of_mem hMem)
    obtain rfl : n = j := Nat.le_antisymm hLe (hLatest j hj hPath)
    exact hAll tag hMem

theorem before_replicate (c : Char) (i j : Nat) (h : i < j) :
    Python.before (List.replicate i c) (List.replicate j c) = true := by
  induction i generalizing j with
  | zero =>
    obtain ⟨j, rfl⟩ : ∃ k, j = k + 1 := ⟨j - 1, by omega⟩
    rfl
  | succ i ih =>
    obtain ⟨j, rfl⟩ : ∃ k, j = k + 1 := ⟨j - 1, by omega⟩
    simp [List.replicate_succ, Python.before_cons, ih j (by omega)]

theorem inTag_replicate {d : Char} (h : inTag d = true) (i : Nat) :
    ∀ c ∈ List.replicate i d, inTag c = true := fun c hc => by
  rw [List.eq_of_mem_replicate hc, h]

/-- Runners whose tags get longer and longer, all with one manifest. -/
def longerTags : Runners where
  repo := ['r']
  tag i := List.replicate i '1'
  paths _ := [['m']]
  tag_before := before_replicate '1'
  tag_inTag := inTag_replicate rfl

def oneManifest : Tree := fun p => if p = ['m'] then some [imagePrefix ['r'] ++ ['0', ' ', '#']]
  else none

def inTurn : List BumpAct := [.fetch 1 true, .fetch 2 true, .push 1 true, .push 2 true,
  .fetch 2 true, .push 2 true]

/-- The manifest has no tag longer than that of a runner that pushes. -/
def noLonger (s : World) : BumpAct → Bool
  | .push n _ => (imageTags ['r'] s.files ['m']).all fun tag => tag.length ≤ n
  | .fetch _ _ => true
  | .outside _ => false

theorem fresh_of_noLonger (s : World) (a : BumpAct) (h : noLonger s a = true) :
    s.Fresh longerTags a := by
  cases a with
  | fetch n ok => trivial
  | outside files => cases h
  | push n ok =>
    cases ok with
    | false => trivial
    | true =>
      intro _ _ _ p hp j hLt hMem
      obtain rfl := List.mem_singleton.mp hp
      have hLength := of_decide_eq_true (List.all_eq_true.mp h _ hMem)
      rw [show longerTags.tag j = List.replicate j '1' from rfl, List.length_replicate] at hLength
      omega

theorem inTurn_newest : ∃ s, run (World.step longerTags) (.init oneManifest) inTurn = some s ∧
    s.pc 1 = .succeeded ∧ s.pc 2 = .succeeded ∧
    ∀ tag ∈ imageTags ['r'] s.files ['m'], Python.before tag (longerTags.tag 1) = false := by
  have hShort : Along (World.step longerTags) (fun s a => noLonger s a = true) (.init oneManifest)
      inTurn := by decide
  refine ⟨_, rfl, rfl, rfl, ?_⟩
  exact (bumps_never_go_back rfl (hShort.of_invariant (fun _ => True)
    (fun s a _ => fresh_of_noLonger s a) (fun _ _ _ _ _ _ => trivial) trivial)).1 ['m'] 1 (by decide)

def overtaken : List BumpAct := [.fetch 2 true, .push 2 true, .fetch 1 true, .push 1 true]

/-- The older build writes its tag over the newer one. -/
theorem overtaken_goesBack :
    ∃ s, run (World.step longerTags) (.init oneManifest) overtaken = some s ∧
      2 ∈ s.written ['m'] ∧ imageTags ['r'] s.files ['m'] = [['1']] ∧
      Python.before ['1'] (longerTags.tag 2) = true :=
  ⟨_, rfl, by decide, by decide, by decide⟩

end OpenSpoke.Ci
