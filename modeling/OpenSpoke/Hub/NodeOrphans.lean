import Mathlib.Data.List.Dedup
import OpenSpoke.Hub.NodesAggregated
import OpenSpoke.Hub.Registry

/-!
# Orphans among the aggregated nodes

`_cleanup_node_orphans_impl` reads the names of the spokes that are registered, lists the other
clusters with nodes, and deletes the nodes that do not belong to the names read. Others act
between its requests.
-/

namespace OpenSpoke.Hub.NodeOrphans

open Nodes (NodeDoc NodeIndex Cleanup)
open Python (Text)

variable {φ : Type*}

/-- `spoke_clusters` and `nodes_aggregated`. -/
structure Indices (φ : Type*) where
  clusters : SpokeIndex
  nodes : NodeIndex φ

abbrev Change (φ : Type*) := Indices φ → Indices φ

/-- What a call meets: which of its searches are answered, what comes of the deletion, and the
changes that others make before the second and before the third request. -/
structure Call (φ : Type*) where
  searched : Bool
  earlier : List (Change φ)
  aggregated : Bool
  later : List (Change φ)
  deletion : Cleanup

inductive Result
  | raised
  | skipped
  | cleaned (deleted : Nat) (removedClusters activeClusters : List Text)

/-- The result of a call, the indices at its moments, and the nodes before and after its last
request. -/
structure Run (φ : Type*) where
  result : Result
  moments : List (Indices φ)
  before : NodeIndex φ
  after : NodeIndex φ

/-- `_os_search_all`: a page of the entries, by their ids. -/
def searchAll (x : SpokeIndex) : List (Text × Spoke) :=
  (x.docs.insertionSort fun a b => Python.before b.1 a.1 = false).take 100

/-- The entry gives its name itself. -/
def Named (d : Text × Spoke) : Prop := d.2.clusterName ≠ []

instance (d : Text × Spoke) : Decidable (Named d) := inferInstanceAs (Decidable (_ ≠ _))

def activeNames (x : SpokeIndex) : List Text :=
  (((searchAll x).filter fun d => Named d).map fun d => d.2.clusterName).dedup.insertionSort
    fun s t => Python.before t s = false

/-- `orphan_query`. -/
def isOrphan (active : List Text) (d : NodeDoc φ) : Bool := d.clusterName.all (· ∉ active)

def orphanNames (active : List Text) (x : NodeIndex φ) : List Text :=
  ((x.docs.filter fun d => isOrphan active d.2).filterMap fun d => d.2.clusterName).dedup

def nodeCount (x : NodeIndex φ) (name : Text) : Nat :=
  x.docs.countP fun d => d.2.clusterName = some name

/-- The keys of the buckets: the clusters with the most nodes. -/
def removedClusters (active : List Text) (x : NodeIndex φ) : List Text :=
  ((orphanNames active x).insertionSort fun s t => nodeCount x t < nodeCount x s ∨
    nodeCount x s = nodeCount x t ∧ Python.before t s = false).take 100

def changed (w : Indices φ) (changes : List (Change φ)) : Indices φ :=
  changes.foldl (fun w change => change w) w

def momentsOf (w : Indices φ) (changes : List (Change φ)) : List (Indices φ) :=
  changes.scanl (fun w change => change w) w

/-- `_cleanup_node_orphans_impl`. -/
def cleanup (c : Call φ) (w : Indices φ) : Run φ :=
  if c.searched = false then ⟨.raised, [w], w.nodes, w.nodes⟩
  else
    let active := activeNames w.clusters
    if active = [] then ⟨.skipped, [w], w.nodes, w.nodes⟩
    else
      let counted := changed w c.earlier
      if c.aggregated = false then
        ⟨.raised, momentsOf w c.earlier, counted.nodes, counted.nodes⟩
      else
        let before := (changed counted c.later).nodes
        let after := before.discard fun id d => isOrphan active d && c.deletion.deletes id
        let result := match c.deletion with
          | .answered => Result.cleaned (before.docs.length - after.docs.length)
              (removedClusters active counted.nodes) active
          | .failed _ => .raised
        ⟨result, momentsOf w (c.earlier ++ c.later), before, after⟩

/-! ## What is asked of a call -/

/-- A spoke is registered under its name, or under the id of an entry without one. -/
def Registered (x : SpokeIndex) (name : Text) : Prop :=
  ∃ id s, x.get id = some s ∧ orElse s.clusterName id = name

/-- Nothing happens between the requests. -/
def Call.Quiet (c : Call φ) : Prop := c.earlier = [] ∧ c.later = []

def Run.Deleted (r : Run φ) (id : Text) (d : NodeDoc φ) : Prop :=
  r.before.get id = some d ∧ r.after.get id = none

structure Sound (c : Call φ) (w : Indices φ) : Prop where
  spares : ∀ id d, (cleanup c w).Deleted id d → ∃ name, d.clusterName = some name ∧
    ∃ m ∈ (cleanup c w).moments, ¬Registered m.clusters name
  -- without an answer that names a spoke
  unread : c.searched = false ∨ activeNames w.clusters = [] →
    ∀ id d, ¬(cleanup c w).Deleted id d
  clears : c.Quiet → ∀ deleted removed active,
    (cleanup c w).result = .cleaned deleted removed active →
    (∀ id d, (cleanup c w).after.get id = some d →
      ∃ name, d.clusterName = some name ∧ Registered w.clusters name) ∧
    ∀ name, name ∈ removed ↔ ∃ id d, (cleanup c w).Deleted id d ∧ d.clusterName = some name

/-! ## When a call keeps to it -/

/-- The call comes to its deletion. -/
structure Call.Reaches (c : Call φ) (w : Indices φ) : Prop where
  searched : c.searched = true
  active : activeNames w.clusters ≠ []
  aggregated : c.aggregated = true

/-- One of the first entries gives the name. -/
def Listed (x : SpokeIndex) (name : Text) : Prop :=
  ∃ d ∈ searchAll x, Named d ∧ d.2.clusterName = name

structure Spared (c : Call φ) (w : Indices φ) : Prop where
  -- a node has a cluster, and one that is registered throughout is on the page
  nodes : c.Reaches w → ∀ id d, (changed w (c.earlier ++ c.later)).nodes.get id = some d →
    c.deletion.deletes id = true → ∃ name, d.clusterName = some name ∧
      ((∀ m ∈ momentsOf w (c.earlier ++ c.later), Registered m.clusters name) →
        Listed w.clusters name)
  -- all the other clusters are in the buckets
  buckets : c.Reaches w → c.Quiet → c.deletion = .answered →
    (orphanNames (activeNames w.clusters) w.nodes).length ≤ 100

theorem mem_activeNames {x : SpokeIndex} {name : Text} :
    name ∈ activeNames x ↔ Listed x name := by
  rw [activeNames, List.mem_insertionSort, List.mem_dedup, List.mem_map]
  constructor
  · rintro ⟨d, hd, hName⟩
    obtain ⟨hMem, hNamed⟩ := List.mem_filter.mp hd
    exact ⟨d, hMem, of_decide_eq_true hNamed, hName⟩
  · rintro ⟨d, hMem, hNamed, hName⟩
    exact ⟨d, List.mem_filter.mpr ⟨hMem, decide_eq_true hNamed⟩, hName⟩

theorem mem_of_mem_searchAll {x : SpokeIndex} {d : Text × Spoke} (h : d ∈ searchAll x) :
    d ∈ x.docs :=
  (List.mem_insertionSort _).mp (List.mem_of_mem_take h)

theorem Listed.registered {x : SpokeIndex} {name : Text} (h : Listed x name) :
    Registered x name := by
  obtain ⟨d, hMem, hNamed, hName⟩ := h
  refine ⟨d.1, d.2, DocIndex.mem_docs_iff.mp (mem_of_mem_searchAll hMem), ?_⟩
  rw [orElse, if_neg hNamed, hName]

theorem isOrphan_eq_false {active : List Text} {d : NodeDoc φ} :
    isOrphan active d = false ↔ ∃ name, d.clusterName = some name ∧ name ∈ active := by
  unfold isOrphan
  cases d.clusterName with
  | none => simp
  | some name => simp

theorem isOrphan_some {active : List Text} {d : NodeDoc φ} {name : Text}
    (h : d.clusterName = some name) : isOrphan active d = true ↔ name ∉ active := by
  rw [isOrphan, h, Option.all_some, decide_eq_true_iff]

theorem mem_orphanNames {active : List Text} {x : NodeIndex φ} {name : Text} :
    name ∈ orphanNames active x ↔
      ∃ id d, x.get id = some d ∧ isOrphan active d = true ∧ d.clusterName = some name := by
  rw [orphanNames, List.mem_dedup, List.mem_filterMap]
  constructor
  · rintro ⟨d, hd, hName⟩
    obtain ⟨hMem, hOrphan⟩ := List.mem_filter.mp hd
    exact ⟨d.1, d.2, DocIndex.mem_docs_iff.mp hMem, hOrphan, hName⟩
  · rintro ⟨id, d, hGet, hOrphan, hName⟩
    exact ⟨(id, d), List.mem_filter.mpr ⟨DocIndex.mem_docs_iff.mpr hGet, hOrphan⟩, hName⟩

theorem mem_removedClusters_iff {active : List Text} {x : NodeIndex φ} :
    (∀ name, name ∈ removedClusters active x ↔ name ∈ orphanNames active x) ↔
      (orphanNames active x).length ≤ 100 := by
  set sorted := (orphanNames active x).insertionSort fun s t => nodeCount x t < nodeCount x s ∨
    nodeCount x s = nodeCount x t ∧ Python.before t s = false with hSorted
  have hPerm : sorted.Perm (orphanNames active x) := List.perm_insertionSort _ _
  have hTake : removedClusters active x = sorted.take 100 := rfl
  rw [← hPerm.length_eq]
  constructor
  · intro h
    have hSubset : sorted ⊆ sorted.take 100 := fun name hName =>
      hTake ▸ (h name).mpr (hPerm.mem_iff.mp hName)
    have hNodup : sorted.Nodup := hPerm.nodup_iff.mpr (List.nodup_dedup _)
    have hLength := (List.subperm_of_subset hNodup hSubset).length_le
    rw [List.length_take] at hLength
    omega
  · intro h name
    rw [hTake, List.take_of_length_le h]
    exact hPerm.mem_iff

/-! ## What a call deletes -/

section

variable {c : Call φ} {w : Indices φ}

theorem cleanup_of_reaches (h : c.Reaches w) :
    (cleanup c w).moments = momentsOf w (c.earlier ++ c.later) ∧
      (cleanup c w).before = (changed w (c.earlier ++ c.later)).nodes ∧
      (cleanup c w).after = (cleanup c w).before.discard
        fun id d => isOrphan (activeNames w.clusters) d && c.deletion.deletes id := by
  have hChanged : changed (changed w c.earlier) c.later = changed w (c.earlier ++ c.later) :=
    List.foldl_append.symm
  unfold cleanup
  dsimp only
  rw [h.searched, if_neg (by decide), if_neg h.active, h.aggregated, if_neg (by decide), hChanged]
  exact ⟨rfl, rfl, rfl⟩

theorem not_deleted_of_not_reaches (h : ¬c.Reaches w) (id : Text) (d : NodeDoc φ) :
    ¬(cleanup c w).Deleted id d := by
  have hSame : (cleanup c w).after = (cleanup c w).before := by
    unfold cleanup
    dsimp only
    split
    · rfl
    next hSearched =>
      split
      · rfl
      next hActive =>
        split
        · rfl
        next hAggregated =>
          exact absurd ⟨by simpa using hSearched, hActive, by simpa using hAggregated⟩ h
  rintro ⟨hBefore, hAfter⟩
  rw [hSame, hBefore] at hAfter
  cases hAfter

theorem deleted_iff (h : c.Reaches w) {id : Text} {d : NodeDoc φ} :
    (cleanup c w).Deleted id d ↔ (changed w (c.earlier ++ c.later)).nodes.get id = some d ∧
      isOrphan (activeNames w.clusters) d = true ∧ c.deletion.deletes id = true := by
  obtain ⟨-, hBefore, hAfter⟩ := cleanup_of_reaches h
  rw [Run.Deleted, hAfter, DocIndex.get_discard, hBefore]
  refine and_congr_right fun hGet => ?_
  rw [hGet]
  simp [Option.filter_some]

theorem result_of_answered (h : c.Reaches w) (hDeletion : c.deletion = .answered) :
    ∃ deleted, (cleanup c w).result = .cleaned deleted
      (removedClusters (activeNames w.clusters) (changed w c.earlier).nodes)
      (activeNames w.clusters) := by
  unfold cleanup
  dsimp only
  rw [h.searched, if_neg (by decide), if_neg h.active, h.aggregated, if_neg (by decide), hDeletion]
  exact ⟨_, rfl⟩

theorem answered_of_cleaned {deleted : Nat} {removed active : List Text}
    (hResult : (cleanup c w).result = .cleaned deleted removed active) :
    c.Reaches w ∧ c.deletion = .answered := by
  unfold cleanup at hResult
  dsimp only at hResult
  split at hResult
  · cases hResult
  next hSearched =>
    split at hResult
    · cases hResult
    next hActive =>
      split at hResult
      · cases hResult
      next hAggregated =>
        refine ⟨⟨by simpa using hSearched, hActive, by simpa using hAggregated⟩, ?_⟩
        cases hDeletion : c.deletion with
        | answered => rfl
        | failed deletes =>
          rw [hDeletion] at hResult
          cases hResult

theorem exists_deleted_iff (h : c.Reaches w) (hQuiet : c.Quiet) (hDeletion : c.deletion = .answered)
    {name : Text} : (∃ id d, (cleanup c w).Deleted id d ∧ d.clusterName = some name) ↔
      name ∈ orphanNames (activeNames w.clusters) w.nodes := by
  rw [mem_orphanNames]
  refine exists_congr fun id => exists_congr fun d => ?_
  rw [deleted_iff h, hQuiet.1, hQuiet.2, hDeletion]
  exact ⟨fun ⟨⟨hGet, hOrphan, _⟩, hName⟩ => ⟨hGet, hOrphan, hName⟩,
    fun ⟨hGet, hOrphan, hName⟩ => ⟨⟨hGet, hOrphan, rfl⟩, hName⟩⟩

theorem listed_of_kept (h : c.Reaches w) (hDeletion : c.deletion = .answered) {id : Text}
    {d : NodeDoc φ} (hGet : (cleanup c w).after.get id = some d) :
    ∃ name, d.clusterName = some name ∧ Listed w.clusters name := by
  rw [(cleanup_of_reaches h).2.2, DocIndex.get_discard, Option.filter_eq_some_iff,
    hDeletion] at hGet
  have hNot : isOrphan (activeNames w.clusters) d = false := by
    simpa [Cleanup.deletes] using hGet.2
  obtain ⟨name, hName, hActive⟩ := isOrphan_eq_false.mp hNot
  exact ⟨name, hName, mem_activeNames.mp hActive⟩

end

theorem sound_iff (c : Call φ) (w : Indices φ) : Sound c w ↔ Spared c w := by
  constructor
  · intro h
    constructor
    · intro hReaches id d hGet hDeletes
      cases hOrphan : isOrphan (activeNames w.clusters) d with
      | false =>
        obtain ⟨name, hName, hActive⟩ := isOrphan_eq_false.mp hOrphan
        exact ⟨name, hName, fun _ => mem_activeNames.mp hActive⟩
      | true =>
        obtain ⟨name, hName, m, hMem, hNot⟩ :=
          h.spares id d ((deleted_iff hReaches).mpr ⟨hGet, hOrphan, hDeletes⟩)
        rw [(cleanup_of_reaches hReaches).1] at hMem
        exact ⟨name, hName, fun hAll => absurd (hAll m hMem) hNot⟩
    · intro hReaches hQuiet hDeletion
      obtain ⟨deleted, hResult⟩ := result_of_answered hReaches hDeletion
      rw [hQuiet.1] at hResult
      refine mem_removedClusters_iff.mp fun name => ?_
      rw [← exists_deleted_iff hReaches hQuiet hDeletion]
      exact (h.clears hQuiet _ _ _ hResult).2 name
  · intro h
    constructor
    · intro id d hDeleted
      have hReaches : c.Reaches w := by
        by_contra hNot
        exact not_deleted_of_not_reaches hNot id d hDeleted
      obtain ⟨hGet, hOrphan, hDeletes⟩ := (deleted_iff hReaches).mp hDeleted
      obtain ⟨name, hName, hListed⟩ := h.nodes hReaches id d hGet hDeletes
      refine ⟨name, hName, ?_⟩
      rw [(cleanup_of_reaches hReaches).1]
      by_contra hAll
      push Not at hAll
      exact (isOrphan_some hName).mp hOrphan (mem_activeNames.mpr (hListed hAll))
    · rintro (hSearched | hActive) id d
      · refine not_deleted_of_not_reaches (fun hReaches => ?_) id d
        rw [hReaches.searched] at hSearched
        cases hSearched
      · exact not_deleted_of_not_reaches (fun hReaches => hReaches.active hActive) id d
    · intro hQuiet deleted removed active hResult
      obtain ⟨hReaches, hDeletion⟩ := answered_of_cleaned hResult
      obtain ⟨deleted', hCleaned⟩ := result_of_answered hReaches hDeletion
      rw [hResult, hQuiet.1] at hCleaned
      injection hCleaned with _ hRemoved _
      constructor
      · intro id d hGet
        obtain ⟨name, hName, hListed⟩ := listed_of_kept hReaches hDeletion hGet
        exact ⟨name, hName, hListed.registered⟩
      · intro name
        rw [exists_deleted_iff hReaches hQuiet hDeletion, hRemoved]
        exact mem_removedClusters_iff.mpr (h.buckets hReaches hQuiet hDeletion) name

def spoke (name : Text) : Spoke :=
  ⟨name, [], [], [], [], [], [], [], [], false, [], [], [], []⟩

/-- Two spokes, of which one has an entry without a name, and a node of that one. -/
def unnamed : Indices Unit where
  clusters := (DocIndex.empty.put ['a'] (spoke [])).put ['b'] (spoke ['b'])
  nodes := DocIndex.empty.put ['a', ':', 'n'] ⟨some ['a'], ['n'], (), none, none⟩

def undisturbed : Call Unit := ⟨true, [], true, [], .answered⟩

theorem registered_deleted :
    Registered unnamed.clusters ['a'] ∧
      (cleanup undisturbed unnamed).Deleted ['a', ':', 'n'] ⟨some ['a'], ['n'], (), none, none⟩ ∧
      ¬Sound undisturbed unnamed := by
  have hRegistered : Registered unnamed.clusters ['a'] := ⟨['a'], spoke [], rfl, rfl⟩
  have hDeleted : (cleanup undisturbed unnamed).Deleted ['a', ':', 'n']
      ⟨some ['a'], ['n'], (), none, none⟩ := ⟨rfl, rfl⟩
  refine ⟨hRegistered, hDeleted, fun h => ?_⟩
  obtain ⟨name, hName, m, hMem, hNot⟩ := h.spares _ _ hDeleted
  obtain rfl := Option.some_inj.mp hName
  have hMoment : m = unnamed := List.mem_singleton.mp hMem
  exact hNot (hMoment ▸ hRegistered)

end OpenSpoke.Hub.NodeOrphans
