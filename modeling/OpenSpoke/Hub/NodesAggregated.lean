import OpenSpoke.Lib.DocIndex
import OpenSpoke.Lib.Lts
import OpenSpoke.Python.Text

/-!
# The aggregated nodes

The aggregator asks each spoke for its nodes, puts a document for each into the index
`nodes_aggregated`, and deletes the documents of the spoke from before this cycle. Times
are in seconds, and characters of a name stand for themselves in a path.
-/

namespace OpenSpoke.Hub.Nodes

open DocIndex (Answer)
open Python (Text)

/-- A node as a spoke reports it. -/
structure NodeObj (φ : Type*) where
  -- empty if there is none
  kind : Text
  name : Text
  -- what the other fields become; none where `extract_node_fields` raises
  fields : Option φ

structure NodeDoc (φ : Type*) where
  clusterName : Option Text
  nodeName : Text
  fields : φ
  aggregatedAt : Option Int
  spokeStatus : Option Text

/-- What becomes of a deletion: it is answered, or of the documents that match some are
deleted, or none, without an answer. -/
inductive Cleanup
  | answered
  | failed (deleted : Text → Bool)

def Cleanup.deletes : Cleanup → Text → Bool
  | .answered, _ => true
  | .failed deleted, id => deleted id

/-- A spoke in a cycle. -/
structure Aggregation (φ : Type*) where
  name : Text
  status : Text
  time : Int
  -- each node with what becomes of its document; none if the fetch fails
  reply : Option (List (NodeObj φ × Answer))
  cleanup : Cleanup

abbrev NodeIndex (φ : Type*) := DocIndex Text (NodeDoc φ)

variable {φ : Type*}

def NodeObj.isNode (n : NodeObj φ) : Bool := n.kind = [] || n.kind = "Node".toList

def extractNodeFields (n : NodeObj φ) (clusterName : Text) : Option (NodeDoc φ) :=
  n.fields.map fun fields => ⟨some clusterName, n.name, fields, none, none⟩

def fetchK8sNodesForSpoke (clusterName : Text) (reply : Option (List (NodeObj φ × Answer))) :
    List (NodeDoc φ × Answer) :=
  ((reply.getD []).filter fun n => n.1.isNode).filterMap fun n =>
    (extractNodeFields n.1 clusterName).map fun doc => (doc, n.2)

def docId (name nodeName : Text) : Text := name ++ ':' :: if nodeName = [] then ['?'] else nodeName

/-- The id in the path of a request: a question mark begins the query. -/
def pathId (docId : Text) : Text := docId.takeWhile (· ≠ '?')

def upsertNode (x : NodeIndex φ) (docId : Text) (doc : NodeDoc φ) (answer : Answer) : NodeIndex φ :=
  if answer = .refused then x else x.put (pathId docId) doc

/-- What the deletion asks for. -/
def stale (clusterName : Text) (cycleAggregatedAt : Int) (doc : NodeDoc φ) : Bool :=
  doc.clusterName = some clusterName && doc.aggregatedAt.any (· < cycleAggregatedAt)

def deleteStaleNodesForSpoke (x : NodeIndex φ) (clusterName : Text) (cycleAggregatedAt : Int)
    (cleanup : Cleanup) : NodeIndex φ :=
  x.discard fun id doc => stale clusterName cycleAggregatedAt doc && cleanup.deletes id

namespace Aggregation

variable (c : Aggregation φ)

def upserts (x : NodeIndex φ) (nodes : List (NodeDoc φ × Answer)) : NodeIndex φ :=
  nodes.foldl (fun x n => upsertNode x (docId c.name n.1.nodeName)
    { n.1 with aggregatedAt := some c.time, spokeStatus := some c.status } n.2) x

/-- The body of the loop of `main`. -/
def run (x : NodeIndex φ) : NodeIndex φ :=
  let nodes := fetchK8sNodesForSpoke c.name c.reply
  if nodes.isEmpty then x
  else deleteStaleNodesForSpoke (c.upserts x nodes) c.name c.time c.cleanup

end Aggregation

structure NodeWorld (φ : Type*) where
  now : Int
  index : NodeIndex φ

def NodeWorld.step (w : NodeWorld φ) (c : Aggregation φ) : Option (NodeWorld φ) :=
  if w.now ≤ c.time then some ⟨c.time, c.run w.index⟩ else none

/-! ## Mirrors -/

namespace Aggregation

variable (c : Aggregation φ)

def reported : List (NodeObj φ × Answer) := (c.reply.getD []).filter fun n => n.1.isNode

def id (n : NodeObj φ) : Text := pathId (docId c.name n.name)

def doc (n : NodeObj φ) (fields : φ) : NodeDoc φ :=
  ⟨some c.name, n.name, fields, some c.time, some c.status⟩

def AllAnswered : Prop := (∀ n ∈ c.reported, n.2 = .answered) ∧ c.cleanup = .answered

structure Mirrors (x x' : NodeIndex φ) : Prop where
  unchanged : c.reported = [] → x' = x
  kept : ∀ n ∈ c.reported, (x.get (c.id n.1)).isSome → (x'.get (c.id n.1)).isSome
  others : ∀ id d, d.clusterName ≠ some c.name → (x'.get id = some d ↔ x.get id = some d)
  all : c.AllAnswered → ∀ n ∈ c.reported,
    ∃ d, x'.get (c.id n.1) = some d ∧ d.clusterName = some c.name
  only : c.AllAnswered → c.reported ≠ [] → ∀ id d, x'.get id = some d → d.clusterName = some c.name →
    ∃ n ∈ c.reported, ∃ fields, n.1.fields = some fields ∧ id = c.id n.1 ∧ d = c.doc n.1 fields

def Extracted (id : Text) : Prop := ∃ n ∈ c.reported, n.1.fields.isSome ∧ c.id n.1 = id

def Written (id : Text) : Prop :=
  ∃ n ∈ c.reported, n.1.fields.isSome ∧ n.2 ≠ .refused ∧ c.id n.1 = id

/-- When the cycle keeps to the report. -/
structure Safe (x : NodeIndex φ) : Prop where
  -- what is not put is not deleted either
  kept : ∀ n ∈ c.reported, ¬c.Written (c.id n.1) → (∃ id, c.Extracted id) →
    ∀ d, x.get (c.id n.1) = some d → stale c.name c.time d = true → c.cleanup.deletes (c.id n.1) = false
  -- no other spoke has a document under an id of this one
  others : ∀ id, c.Written id → ∀ d, x.get id = some d → d.clusterName = some c.name
  extracted : c.AllAnswered → ∀ n ∈ c.reported, c.Extracted (c.id n.1)
  -- what is not put is from a second before this one
  past : c.AllAnswered → c.reported ≠ [] → ∀ id d, x.get id = some d → d.clusterName = some c.name →
    ¬c.Extracted id → stale c.name c.time d = true

end Aggregation

/-! ## What a cycle does to a document -/

section

variable {c : Aggregation φ} {x : NodeIndex φ} {id : Text}

namespace Aggregation

def puts (c : Aggregation φ) : List (NodeDoc φ × Answer) :=
  (fetchK8sNodesForSpoke c.name c.reply).filter (·.2 ≠ .refused)

def stamped (c : Aggregation φ) (n : NodeDoc φ × Answer) : NodeDoc φ :=
  { n.1 with aggregatedAt := some c.time, spokeStatus := some c.status }

def key (c : Aggregation φ) (n : NodeDoc φ × Answer) : Text := pathId (docId c.name n.1.nodeName)

theorem mem_fetched {n : NodeDoc φ × Answer} :
    n ∈ fetchK8sNodesForSpoke c.name c.reply ↔ ∃ m ∈ c.reported, ∃ fields, m.1.fields = some fields ∧
      n = (⟨some c.name, m.1.name, fields, none, none⟩, m.2) := by
  rw [fetchK8sNodesForSpoke, List.mem_filterMap]
  refine exists_congr fun m => and_congr_right fun _ => ?_
  rw [extractNodeFields, Option.map_map, Option.map_eq_some_iff]
  exact exists_congr fun fields => and_congr_right fun _ => eq_comm

theorem get_upserts : (c.upserts x (fetchK8sNodesForSpoke c.name c.reply)).get =
    Overwrite.writes c.key (fun n => some (c.stamped n)) x.get c.puts := by
  rw [← DocIndex.get_foldl_put, puts, List.foldl_filter, upserts]
  congr 2
  funext x n
  rw [upsertNode]
  by_cases h : n.2 = .refused
  · simp [h]
  · simp [h, key, stamped]

theorem written_iff : c.Written id ↔ id ∈ c.puts.map c.key := by
  rw [List.mem_map]
  constructor
  · rintro ⟨m, hMem, hFields, hAnswer, rfl⟩
    obtain ⟨fields, hFields⟩ := Option.isSome_iff_exists.mp hFields
    refine ⟨_, List.mem_filter.mpr ⟨mem_fetched.mpr ⟨m, hMem, fields, hFields, rfl⟩, ?_⟩, rfl⟩
    simpa using hAnswer
  · rintro ⟨n, hPut, rfl⟩
    obtain ⟨hFetched, hAnswer⟩ := List.mem_filter.mp hPut
    obtain ⟨m, hMem, fields, hFields, rfl⟩ := mem_fetched.mp hFetched
    exact ⟨m, hMem, by rw [hFields]; rfl, by simpa using hAnswer, rfl⟩

theorem isEmpty_fetched : (fetchK8sNodesForSpoke c.name c.reply).isEmpty = true ↔ ¬∃ id, c.Extracted id := by
  rw [List.isEmpty_iff, List.eq_nil_iff_forall_not_mem]
  constructor
  · rintro hNone ⟨id, m, hMem, hFields, -⟩
    obtain ⟨fields, hFields⟩ := Option.isSome_iff_exists.mp hFields
    exact hNone _ (mem_fetched.mpr ⟨m, hMem, fields, hFields, rfl⟩)
  · intro hNone n hn
    obtain ⟨m, hMem, fields, hFields, -⟩ := mem_fetched.mp hn
    exact hNone ⟨_, m, hMem, by rw [hFields]; rfl, rfl⟩

theorem Written.extracted (h : c.Written id) : c.Extracted id := by
  obtain ⟨n, hMem, hFields, -, hId⟩ := h
  exact ⟨n, hMem, hFields, hId⟩

theorem run_of_nothing (h : ¬∃ id, c.Extracted id) : c.run x = x := by
  rw [run, if_pos (isEmpty_fetched.mpr h)]

theorem run_of_some (h : ∃ id, c.Extracted id) : (c.run x).get id =
    (Overwrite.writes c.key (fun n => some (c.stamped n)) x.get c.puts id).filter
      fun d => !(stale c.name c.time d && c.cleanup.deletes id) := by
  rw [run, if_neg (by rw [isEmpty_fetched, not_not]; exact h), deleteStaleNodesForSpoke, DocIndex.get_discard,
    get_upserts]

theorem get_run_of_written (h : c.Written id) : ∃ n ∈ c.reported, ∃ fields,
    n.1.fields = some fields ∧ id = c.id n.1 ∧ (c.run x).get id = some (c.doc n.1 fields) := by
  obtain ⟨n, hPut, hKey, hVal⟩ := Overwrite.exists_writes (written_iff.mp h)
  obtain ⟨m, hMem, fields, hFields, rfl⟩ := mem_fetched.mp (List.mem_filter.mp hPut).1
  refine ⟨m, hMem, fields, hFields, hKey.symm, ?_⟩
  rw [run_of_some ⟨id, h.extracted⟩, hVal]
  simp [stamped, doc, stale]

theorem get_run_of_not_written (h : ¬c.Written id) (hSome : ∃ id, c.Extracted id) :
    (c.run x).get id =
      (x.get id).filter fun d => !(stale c.name c.time d && c.cleanup.deletes id) := by
  rw [written_iff] at h
  rw [run_of_some hSome, Overwrite.writes_of_notMem h]

theorem isKept_iff :
    (∀ n ∈ c.reported, (x.get (c.id n.1)).isSome → ((c.run x).get (c.id n.1)).isSome) ↔
      ∀ n ∈ c.reported, ¬c.Written (c.id n.1) → (∃ id, c.Extracted id) →
        ∀ d, x.get (c.id n.1) = some d → stale c.name c.time d = true →
          c.cleanup.deletes (c.id n.1) = false := by
  refine forall_congr' fun n => imp_congr_right fun _ => ?_
  by_cases hWritten : c.Written (c.id n.1)
  · obtain ⟨m, -, fields, -, -, hGet⟩ := get_run_of_written (x := x) hWritten
    refine iff_of_true (fun _ => ?_) fun hNot => absurd hWritten hNot
    rw [hGet]
    rfl
  by_cases hSome : ∃ id, c.Extracted id
  · rw [get_run_of_not_written hWritten hSome]
    cases hGet : x.get (c.id n.1) with
    | none => simp
    | some d =>
      constructor
      · intro hKept _ _ d' hd hStale
        obtain rfl := Option.some.inj hd
        have hStays := hKept rfl
        rw [Option.isSome_filter] at hStays
        simpa [hStale] using hStays
      · intro hSafe _
        rw [Option.isSome_filter]
        have hSafe := hSafe hWritten hSome d rfl
        cases hStale : stale c.name c.time d with
        | false => simp [hStale]
        | true => simp [hSafe hStale]
  · rw [run_of_nothing hSome]
    exact iff_of_true (fun h => h) fun _ h => absurd h hSome

theorem others_iff :
    (∀ id d, d.clusterName ≠ some c.name → ((c.run x).get id = some d ↔ x.get id = some d)) ↔
      ∀ id, c.Written id → ∀ d, x.get id = some d → d.clusterName = some c.name := by
  constructor
  · intro hOthers id hWritten d hd
    by_contra hOther
    obtain ⟨n, -, fields, -, -, hGet⟩ := get_run_of_written (x := x) hWritten
    have hSame := (hOthers id d hOther).mpr hd
    rw [hGet] at hSame
    obtain rfl := Option.some.inj hSame
    exact hOther rfl
  · intro hSafe id d hOther
    by_cases hWritten : c.Written id
    · obtain ⟨n, -, fields, -, -, hGet⟩ := get_run_of_written (x := x) hWritten
      refine iff_of_false (fun hd => ?_) fun hd => hOther (hSafe id hWritten d hd)
      rw [hGet] at hd
      obtain rfl := Option.some.inj hd
      exact hOther rfl
    by_cases hSome : ∃ id, c.Extracted id
    · rw [get_run_of_not_written hWritten hSome, Option.filter_eq_some_iff]
      simp [stale, hOther]
    · rw [run_of_nothing hSome]

theorem written_of_answered (h : c.AllAnswered) (hExtracted : c.Extracted id) : c.Written id := by
  obtain ⟨n, hMem, hFields, hId⟩ := hExtracted
  exact ⟨n, hMem, hFields, by rw [h.1 n hMem]; simp, hId⟩

theorem exactly_of_safe (hSafe : c.Safe x) (h : c.AllAnswered) :
    (∀ n ∈ c.reported, ∃ d, (c.run x).get (c.id n.1) = some d ∧ d.clusterName = some c.name) ∧
      (c.reported ≠ [] → ∀ id d, (c.run x).get id = some d → d.clusterName = some c.name →
        ∃ n ∈ c.reported, ∃ fields, n.1.fields = some fields ∧ id = c.id n.1 ∧ d = c.doc n.1 fields) := by
  constructor
  · intro n hn
    obtain ⟨m, -, fields, -, -, hGet⟩ :=
      get_run_of_written (x := x) (written_of_answered h (hSafe.extracted h n hn))
    exact ⟨_, hGet, rfl⟩
  · intro hNe id d hd hCluster
    by_cases hWritten : c.Written id
    · obtain ⟨n, hMem, fields, hFields, hId, hGet⟩ := get_run_of_written (x := x) hWritten
      rw [hGet] at hd
      exact ⟨n, hMem, fields, hFields, hId, (Option.some.inj hd).symm⟩
    · obtain ⟨n, hn⟩ := List.exists_mem_of_ne_nil _ hNe
      rw [get_run_of_not_written hWritten ⟨_, hSafe.extracted h n hn⟩,
        Option.filter_eq_some_iff] at hd
      obtain ⟨hd, hStays⟩ := hd
      have hStale := hSafe.past h hNe id d hd hCluster fun hExtracted =>
        hWritten (written_of_answered h hExtracted)
      simp [hStale, h.2, Cleanup.deletes] at hStays

theorem mirrors_iff (c : Aggregation φ) (x : NodeIndex φ) : c.Mirrors x (c.run x) ↔ c.Safe x := by
  constructor
  · rintro ⟨-, hKept, hOthers, hAll, hOnly⟩
    have hExtracted : c.AllAnswered → ∀ n ∈ c.reported, c.Extracted (c.id n.1) := by
      intro h n hn
      obtain ⟨d, hd, hCluster⟩ := hAll h n hn
      obtain ⟨m, hm, fields, hFields, hId, -⟩ :=
        hOnly h (List.ne_nil_of_mem hn) (c.id n.1) d hd hCluster
      exact ⟨m, hm, by rw [hFields]; rfl, hId.symm⟩
    refine ⟨isKept_iff.mp hKept, others_iff.mp hOthers, hExtracted, ?_⟩
    intro h hNe id d hd hCluster hNot
    obtain ⟨n, hn⟩ := List.exists_mem_of_ne_nil _ hNe
    by_contra hStale
    have hStays : (c.run x).get id = some d := by
      rw [get_run_of_not_written (fun hWritten => hNot hWritten.extracted) ⟨_, hExtracted h n hn⟩, hd,
        Option.filter_some, if_pos]
      rw [Bool.eq_false_iff.mpr hStale]
      rfl
    obtain ⟨m, hm, fields, hFields, hId, -⟩ := hOnly h hNe id d hStays hCluster
    exact hNot ⟨m, hm, by rw [hFields]; rfl, hId.symm⟩
  · intro hSafe
    constructor
    · intro hNone
      apply run_of_nothing
      rintro ⟨id, n, hn, -⟩
      rw [hNone] at hn
      exact absurd hn List.not_mem_nil
    · exact isKept_iff.mpr hSafe.kept
    · exact others_iff.mpr hSafe.others
    · exact fun h => (exactly_of_safe hSafe h).1
    · exact fun h => (exactly_of_safe hSafe h).2

end Aggregation

end

/-- Every cycle of a run mirrors what is reported exactly if every cycle is safe. -/
theorem nodes_mirrored_iff (w : NodeWorld φ) (cycles : List (Aggregation φ)) :
    Lts.Along NodeWorld.step (fun w c => c.Mirrors w.index (c.run w.index)) w cycles ↔
      Lts.Along NodeWorld.step (fun w c => c.Safe w.index) w cycles :=
  Lts.along_congr (fun _ => True) (fun w c _ => c.mirrors_iff w.index) (fun _ _ _ _ _ _ => trivial)
    trivial cycles

def twoNodes (time : Int) (first : Answer) : Aggregation Unit where
  name := ['s']
  status := "active".toList
  time := time
  reply := some [(⟨[], ['a'], some ()⟩, first), (⟨[], ['b'], some ()⟩, .answered)]
  cleanup := .answered

/-- An upsert that fails: the document from the cycle before is deleted as stale. -/
theorem refused_upsert_deleted :
    ∃ w, Lts.run NodeWorld.step ⟨0, DocIndex.empty⟩ [twoNodes 0 .answered] = some w ∧
      (w.index.get "s:a".toList).isSome = true ∧
      (((twoNodes 60 .refused).run w.index).get "s:a".toList).isSome = false ∧
      ¬(twoNodes 60 .refused).Mirrors w.index ((twoNodes 60 .refused).run w.index) := by
  have hGone : (((twoNodes 60 .refused).run ((twoNodes 0 .answered).run DocIndex.empty)).get
      "s:a".toList).isSome = false := by decide
  refine ⟨⟨0, (twoNodes 0 .answered).run DocIndex.empty⟩, rfl, by decide, hGone, fun hMirrors => ?_⟩
  have hKept := hMirrors.kept (⟨[], ['a'], some ()⟩, .refused) List.mem_cons_self (by decide)
  rw [show (twoNodes 60 .refused).id ⟨[], ['a'], some ()⟩ = "s:a".toList from rfl, hGone] at hKept
  cases hKept

end OpenSpoke.Hub.Nodes
