import Mathlib.Data.List.Permutation
import OpenSpoke.Hub.Ledger

/-!
# What a ledger shows of other modules

Two states that agree on the modules of a viewer, and on the paths below them, give the
viewer the same texts if they also agree on what the tools print or use of all the rest.
-/

namespace OpenSpoke.Hub

open Grouped
open Python (Text)

theorem keeps_passes {v : Viewer} {k : Key} (h : v.keeps k = true) : v.passes k = true := by
  rw [Viewer.keeps, Bool.or_eq_true] at h
  rw [Viewer.passes, Bool.or_eq_true]
  refine h.imp_right fun hShows => ?_
  cases hAllowed : v.allowed with
  | list l =>
    rw [hAllowed] at hShows
    exact hShows
  | text t =>
    simp only [hAllowed, Allowed.shows, Bool.or_eq_true, decide_eq_true_eq, List.mem_map] at hShows
    simp only [Allowed.passes, Bool.or_eq_true, Bool.and_eq_true, decide_eq_true_eq]
    refine hShows.imp_right ?_
    rintro ⟨c, hc, hFull⟩
    rw [← hFull, List.singleton_infix_iff]
    exact ⟨List.ne_nil_of_mem hc, hc⟩

/-- What the viewer is meant to see. -/
def Viewer.sees (v : Viewer) (k : Key) : Bool := v.admin || decide (v.allowed.has (Viewer.full k))

namespace FleetState

variable (p : Key → Bool) (s : FleetState)

def modules : List (Key × Module) := s.ledger.toList.flatMap Ledger.modules

def visibleModules : List (Key × Module) := s.modules.filter fun m => p m.1

/-- A path below a visible module. -/
def under (pn : Text) : Bool :=
  (modulePaths (s.visibleModules p)).any fun e => (relative e.1 pn).isSome

/-- The paths of GitRepos below visible modules, with what is printed of the GitRepos. -/
def visiblePaths (repos : List GitRepo) : List Bundle :=
  repos.flatMap fun g => ((g.paths.map rstripSlash).filter (s.under p)).map (g.bundle · [])

def index : List (Text × Key) := modpathIndex s.modules

/-- The path is assigned to a module that is not visible. -/
def taken (pn : Text) : Bool := (matched s.index pn).any fun e => !p e.2

end FleetState

variable {v : Viewer} {s t : FleetState}

/-- The same visible modules, the same paths below them, and the same dates. -/
structure Agree (p : Key → Bool) (s t : FleetState) : Prop where
  modules : s.visibleModules p = t.visibleModules p
  paths : s.visiblePaths p s.gitRepos = t.visiblePaths p t.gitRepos
  dates : ∀ l l', s.ledger = some l → t.ledger = some l' →
    l.schemaVersion = l'.schemaVersion ∧ l.updatedAt = l'.updatedAt

/-- The same in what is printed, or decides on what is printed, of the rest. -/
structure Even (p : Key → Bool) (s t : FleetState) : Prop where
  present : s.ledger.isSome = t.ledger.isSome
  titles : ∀ l l', s.ledger = some l → t.ledger = some l' → l.title = l'.title
  count : s.fetched.length = t.fetched.length
  -- the GitRepos beyond the size of the search
  beyond : s.visiblePaths p (s.gitRepos.drop 1000) = t.visiblePaths p (t.gitRepos.drop 1000)
  -- the fetched paths below visible modules that others take
  taken : ∀ b ∈ s.visiblePaths p s.fetched, s.taken p b.matchedPath = t.taken p b.matchedPath
  -- the GitRepos of which no path is left to visible modules
  others : ∀ name, (∀ b ∈ s.visiblePaths p s.fetched, b.bundleName = name →
    s.taken p b.matchedPath = true) → s.pathsOf name = t.pathsOf name

/-! ## Assignments -/

/-- What a path of a GitRepo is assigned to, if the viewer may see it. -/
def assign (v : Viewer) (index : List (Text × Key)) (b : Bundle) : Option (Key × Bundle) :=
  ((matched index b.matchedPath).filter fun e => v.passes e.2).map fun e =>
    (e.2, { b with relativePath := (relative e.1 b.matchedPath).getD [] })

theorem mem_modpathIndex {modules : List (Key × Module)} {e : Text × Key} :
    e ∈ modpathIndex modules ↔ e ∈ modulePaths modules :=
  List.mem_insertionSort longer

theorem modulePaths_filter (v : Viewer) (modules : List (Key × Module)) :
    (modulePaths modules).filter (fun e => v.passes e.2) =
      modulePaths (modules.filter fun m => v.passes m.1) := by
  induction modules with
  | nil => rfl
  | cons m modules ih =>
    simp only [modulePaths, List.filterMap_cons] at ih ⊢
    cases hp : v.passes m.1 <;> by_cases hm : rstripSlash m.2.path = [] <;>
      simp [hp, hm, ih]

theorem under_of_matched {pn : Text} {e : Text × Key} (hMatched : matched s.index pn = some e)
    (hSeen : v.passes e.2 = true) : s.under v.passes pn = true := by
  have hMem : e ∈ modulePaths s.modules :=
    mem_modpathIndex.mp (List.mem_of_find?_eq_some hMatched)
  have hFound := List.find?_some hMatched
  apply List.any_eq_true.mpr
  refine ⟨e, ?_, hFound⟩
  rw [FleetState.visibleModules, ← modulePaths_filter]
  exact List.mem_filter.mpr ⟨hMem, hSeen⟩

theorem assigned_filter (g : GitRepo) (p : Text) :
    (g.assigned s.index p).filter (fun a => v.passes a.1) =
      if s.under v.passes (rstripSlash p) then assign v s.index (g.bundle (rstripSlash p) [])
      else none := by
  unfold assign GitRepo.assigned
  simp only [GitRepo.bundle]
  cases hMatched : matched s.index (rstripSlash p) with
  | none => simp
  | some e =>
    cases hSeen : v.passes e.2 with
    | true => simp [Option.filter, hSeen, under_of_matched hMatched hSeen]
    | false => simp [Option.filter, hSeen]

theorem filter_assignments (repos : List GitRepo) :
    (assignments s.index repos).filter (fun a => v.passes a.1) =
      (s.visiblePaths v.passes repos).filterMap (assign v s.index) := by
  unfold assignments FleetState.visiblePaths
  rw [List.filter_flatMap, List.filterMap_flatMap]
  apply List.flatMap_congr
  intro g _
  rw [List.filter_filterMap, List.filterMap_map, List.filterMap_filter, List.filterMap_map]
  apply List.filterMap_congr
  intro p _
  exact assigned_filter g p

theorem matched_filter (pn : Text) :
    (matched s.index pn).filter (fun e => v.passes e.2) =
      if s.taken v.passes pn then none else matched (s.index.filter fun e => v.passes e.2) pn := by
  unfold FleetState.taken
  cases hMatched : matched s.index pn with
  | none =>
    have hNone : ∀ e ∈ s.index, ¬(relative e.1 pn).isSome = true := List.find?_eq_none.mp hMatched
    have hAlso : matched (s.index.filter fun e => v.passes e.2) pn = none := by
      apply List.find?_eq_none.mpr
      intro e he
      exact hNone e (List.mem_of_mem_filter he)
    simp [hAlso]
  | some e =>
    obtain ⟨hFound, before, after, hIndex, hBefore⟩ := List.find?_eq_some_iff_append.mp hMatched
    cases hSeen : v.passes e.2 with
    | false => simp [Option.filter, hSeen]
    | true =>
      have hAlso : matched (s.index.filter fun e => v.passes e.2) pn = some e := by
        apply List.find?_eq_some_iff_append.mpr
        refine ⟨hFound, before.filter fun e => v.passes e.2,
          after.filter fun e => v.passes e.2, ?_, ?_⟩
        · simp [hIndex, List.filter_append, hSeen]
        · intro d hd
          exact hBefore d (List.mem_of_mem_filter hd)
      simp [Option.filter, hSeen, hAlso]

theorem index_filter :
    s.index.filter (fun e => v.passes e.2) = modpathIndex (s.visibleModules v.passes) := by
  have : IsTrans (Text × Key) longer := ⟨fun a b c hab hbc => Nat.le_trans hbc hab⟩
  have : Std.Total longer := ⟨fun a b => Nat.le_total b.1.length a.1.length⟩
  rw [FleetState.index, modpathIndex, filter_insertionSort, modulePaths_filter]
  rfl

/-! ## Agreement -/

section Two

variable (h : Agree v.passes s t) (hEven : Even v.passes s t)

include h

include hEven

theorem Agree.fetched : s.visiblePaths v.passes s.fetched = t.visiblePaths v.passes t.fetched := by
  have hSplit : ∀ r : FleetState, r.visiblePaths v.passes r.gitRepos =
      r.visiblePaths v.passes r.fetched ++ r.visiblePaths v.passes (r.gitRepos.drop 1000) := by
    intro r
    have hAll : r.gitRepos = r.fetched ++ r.gitRepos.drop 1000 := (List.take_append_drop 1000 _).symm
    conv_lhs => rw [hAll]
    exact List.flatMap_append
  have hPaths := h.paths
  rw [hSplit s, hSplit t, hEven.beyond] at hPaths
  exact List.append_cancel_right hPaths

theorem Agree.assign_eq {b : Bundle} (hb : b ∈ s.visiblePaths v.passes s.fetched) :
    assign v s.index b = assign v t.index b := by
  unfold assign
  rw [matched_filter, matched_filter, index_filter, index_filter, h.modules, hEven.taken b hb]

theorem Agree.assignments :
    (assignments s.index s.fetched).filter (fun a => v.passes a.1) =
      (assignments t.index t.fetched).filter (fun a => v.passes a.1) := by
  rw [filter_assignments, filter_assignments, ← h.fetched hEven]
  apply List.filterMap_congr
  intro b hb
  exact h.assign_eq hEven hb

variable {l l' : Ledger} (hs : s.ledger = some l) (ht : t.ledger = some l')

omit h hEven in
theorem filter_modules (hs : s.ledger = some l) :
    l.modules.filter (fun m => v.passes m.1) = s.visibleModules v.passes := by
  simp [FleetState.visibleModules, FleetState.modules, hs]

omit h hEven in
theorem index_eq (hs : s.ledger = some l) : s.index = modpathIndex l.modules := by
  simp [FleetState.index, FleetState.modules, hs]

omit h hEven in
theorem filter_derived (hs : s.ledger = some l) :
    (deriveModuleBundles l s.fetched).filter (fun g => v.passes g.1) =
      (group ((assignments s.index s.fetched).filter fun a => v.passes a.1)).map
        fun g => (g.1, tidy g.2) := by
  rw [deriveModuleBundles, ← index_eq hs, List.filter_map, ← filter_group]
  rfl

include hs ht

theorem Agree.derived :
    (deriveModuleBundles l s.fetched).filter (fun g => v.passes g.1) =
      (deriveModuleBundles l' t.fetched).filter fun g => v.passes g.1 := by
  rw [filter_derived hs, filter_derived ht, h.assignments hEven]

theorem Agree.bundlesOf {k : Key} (hk : v.passes k = true) :
    bundlesOf (deriveModuleBundles l s.fetched) k = bundlesOf (deriveModuleBundles l' t.fetched) k := by
  rw [Hub.bundlesOf, Hub.bundlesOf, ← find_filter hk, h.derived hEven hs ht, find_filter hk]

omit hEven in
theorem Agree.modules_eq :
    l.modules.filter (fun m => v.passes m.1) = l'.modules.filter fun m => v.passes m.1 := by
  rw [filter_modules hs, filter_modules ht, h.modules]

omit hEven in
theorem Agree.selected (p : Key × Module → Bool) :
    (l.modules.filter p).filter (fun m => v.passes m.1) =
      (l'.modules.filter p).filter fun m => v.passes m.1 := by
  rw [List.filter_comm, h.modules_eq hs ht, List.filter_comm]

omit hEven in
theorem Agree.module {k : Key} (hk : v.passes k = true) : l.module k = l'.module k := by
  rw [Ledger.module, Ledger.module, ← find_filter hk, h.modules_eq hs ht, find_filter hk]

/-! ## Texts -/

theorem Agree.header : overviewHeader l s.fetched.length = overviewHeader l' t.fetched.length := by
  obtain ⟨hVersion, hUpdated⟩ := h.dates l l' hs ht
  simp only [overviewHeader, hVersion, hUpdated, hEven.titles l l' hs ht, hEven.count]

theorem Agree.category (name : Text) :
    overviewCategory (deriveModuleBundles l s.fetched) name
        ((l.category name).filter fun m => v.keeps m.1) =
      overviewCategory (deriveModuleBundles l' t.fetched) name
        ((l'.category name).filter fun m => v.keeps m.1) := by
  have hModules : (l.category name).filter (fun m => v.keeps m.1) =
      (l'.category name).filter fun m => v.keeps m.1 := by
    have hKept : ∀ modules : List (Key × Module), modules.filter (fun m => v.keeps m.1) =
        (modules.filter fun m => v.passes m.1).filter fun m => v.keeps m.1 := by
      intro modules
      rw [List.filter_filter]
      apply List.filter_congr
      intro m _
      cases hKeeps : v.keeps m.1 with
      | false => rfl
      | true => rw [keeps_passes hKeeps]; rfl
    rw [hKept (l.category name), hKept (l'.category name)]
    exact congrArg (List.filter _) (h.selected hs ht _)
  unfold overviewCategory
  rw [← hModules]
  split
  · rfl
  · congr 2
    apply List.flatMap_congr
    intro m hm
    have hSeen := keeps_passes (List.mem_filter.mp hm).2
    rw [h.bundlesOf hEven hs ht hSeen]

end Two

/-- No name of a module is a proper part of a text that the document of the viewer allows. -/
def Plain (v : Viewer) (s : FleetState) : Prop :=
  ∀ m ∈ s.modules, v.allowed.Plain (Viewer.full m.1)

theorem sees_eq_passes {k : Key} (hPlain : v.allowed.Plain (Viewer.full k)) :
    v.sees k = v.passes k := by
  have hFull : Viewer.full k ≠ [] := List.append_ne_nil_of_right_ne_nil _ (List.cons_ne_nil _ _)
  have hIff : v.allowed.has (Viewer.full k) ↔ v.allowed.passes (Viewer.full k) = true := by
    constructor
    · intro hHas
      cases hAllowed : v.allowed with
      | list l =>
        rw [hAllowed] at hHas
        exact decide_eq_true hHas
      | text t =>
        rw [hAllowed] at hHas
        simp only [Allowed.passes, Bool.or_eq_true, Bool.and_eq_true, decide_eq_true_eq]
        refine hHas.imp_right ?_
        rintro rfl
        exact ⟨hFull, List.infix_refl _⟩
    · exact Allowed.has_of_passes hPlain
  rw [Viewer.sees, Viewer.passes]
  congr 1
  cases hPasses : v.allowed.passes (Viewer.full k) with
  | false => exact decide_eq_false fun hHas => Bool.noConfusion (hPasses ▸ hIff.mp hHas)
  | true => exact decide_eq_true (hIff.mpr hPasses)

namespace Plain

variable (hPlain : Plain v s)

include hPlain

theorem visibleModules : s.visibleModules v.sees = s.visibleModules v.passes := by
  apply List.filter_congr
  intro m hm
  exact sees_eq_passes (hPlain m hm)

theorem under : s.under v.sees = s.under v.passes := by
  funext pn
  rw [FleetState.under, FleetState.under, hPlain.visibleModules]

theorem visiblePaths : s.visiblePaths v.sees = s.visiblePaths v.passes := by
  funext repos
  rw [FleetState.visiblePaths, FleetState.visiblePaths, hPlain.under]

theorem taken : s.taken v.sees = s.taken v.passes := by
  funext pn
  rw [FleetState.taken, FleetState.taken]
  cases hMatched : matched s.index pn with
  | none => rfl
  | some e =>
    have hMem : e ∈ modulePaths s.modules :=
      mem_modpathIndex.mp (List.mem_of_find?_eq_some hMatched)
    obtain ⟨m, hm, hPath⟩ := List.mem_filterMap.mp hMem
    have hKey : m.1 = e.2 := by
      split at hPath
      · cases hPath
      · cases hPath
        rfl
    have hSame := sees_eq_passes (hPlain m hm)
    rw [hKey] at hSame
    simp only [Option.any_some, hSame]

end Plain

theorem Agree.passes (h : Agree v.sees s t) (hPlain : Plain v s) (hPlain' : Plain v t) :
    Agree v.passes s t := by
  constructor
  · rw [← hPlain.visibleModules, ← hPlain'.visibleModules]
    exact h.modules
  · rw [← hPlain.visiblePaths, ← hPlain'.visiblePaths]
    exact h.paths
  · exact h.dates

theorem Even.passes (h : Even v.sees s t) (hPlain : Plain v s) (hPlain' : Plain v t) :
    Even v.passes s t := by
  constructor
  · exact h.present
  · exact h.titles
  · exact h.count
  · rw [← hPlain.visiblePaths, ← hPlain'.visiblePaths]
    exact h.beyond
  · rw [← hPlain.visiblePaths, ← hPlain.taken, ← hPlain'.taken]
    exact h.taken
  · rw [← hPlain.visiblePaths, ← hPlain.taken]
    exact h.others

def tunnel : Module := { noModule with path := ['m', '/', 'a'] }

def hidden : Module := { noModule with path := ['x'] }

def sampleLedger (others : List (Key × Module)) (h : ((((core, ['a']), tunnel) :: others).map
    Prod.fst).Nodup) : Ledger :=
  ⟨['1'], ['t'], ['u'], ((core, ['a']), tunnel) :: others, h⟩

def repo (paths : List Text) : GitRepo := ⟨['i'], some ['g'], paths, ['1'], ['2']⟩

def below (module : Text) : Text := module ++ manifests

def alone : FleetState := ⟨some (sampleLedger [] (by decide)), [repo [below tunnel.path]]⟩

end OpenSpoke.Hub
