import Mathlib.Data.List.AList
import Mathlib.Data.List.Perm.Basic
import OpenSpoke.Handoff.Store

/-!
# Topics as a map

`MemgraphHandoffStore` called in turn, against a map from ids to topics. The
query of `topic_upsert` is put together from the fields that are given, and its
verdict compares created_at with the time of the call.
-/

namespace OpenSpoke.Handoff

open Python (Text)

/-! ## The store -/

/-- The nodes with the label Topic, one for each id. -/
abbrev Topics := AList fun _ : Text => Topic

inductive Field
  | title
  | summary
  | content
  | category
  | module
  deriving DecidableEq

def Upsert.value (u : Upsert) : Field → Option Text
  | .title => u.title
  | .summary => u.summary
  | .content => u.content
  | .category => u.category
  | .module => u.module

/-- `set_clauses` with their parameters, after `t.updated_at = $now`. -/
def Upsert.setClauses (u : Upsert) : List (Field × Text) :=
  [Field.title, .summary, .content, .category, .module].filterMap fun field =>
    (u.value field).map fun value => (field, value)

def Topic.set (topic : Topic) : Field × Text → Topic
  | (.title, value) => { topic with title := some value }
  | (.summary, value) => { topic with summary := some value }
  | (.content, value) => { topic with content := some value }
  | (.category, value) => { topic with category := some value }
  | (.module, value) => { topic with module := some value }

/-- `ON CREATE SET t.created_at = $now`. -/
def Topic.created (nowIso : Int) : Topic :=
  ⟨none, none, none, none, none, .known nowIso, none, [], []⟩

/-- A row of `topic_get`. -/
structure TopicRow where
  id : Text
  title : Option Text
  summary : Option Text
  content : Option Text
  category : Option Text
  module : Option Text
  createdAt : CreatedAt
  updatedAt : Option Int
  deriving DecidableEq

def Topic.row (id : Text) (t : Topic) : TopicRow :=
  ⟨id, t.title, t.summary, t.content, t.category, t.module, t.createdAt, t.updatedAt⟩

/-- A row of `topics_list`. -/
structure ListRow where
  id : Text
  title : Option Text
  summary : Option Text
  category : Option Text
  module : Option Text
  updatedAt : Option Int
  deriving DecidableEq

def Topic.listRow (id : Text) (t : Topic) : ListRow :=
  ⟨id, t.title, t.summary, t.category, t.module, t.updatedAt⟩

inductive TopicOp
  -- the policy check passes
  | upsert (id : Text) (u : Upsert)
  | delete (id : Text)
  | get (id : Text)
  | list (allowedModules : Option (List Text))
  deriving DecidableEq

inductive TopicResult
  -- `action` is "created", or "updated"
  | upserted (created : Bool) (createdAt : CreatedAt) (updatedAt : Int)
  | deleted (deleted : Bool)
  | topic (row : Option TopicRow)
  | topics (rows : List ListRow)
  deriving DecidableEq

def Topics.upsert (s : Topics) (now : Int) (id : Text) (u : Upsert) : TopicResult × Topics :=
  let nowIso := seconds now
  let topic := u.setClauses.foldl Topic.set
    { (s.lookup id).getD (.created nowIso) with updatedAt := some nowIso }
  (.upserted (topic.createdAt = .known nowIso) topic.createdAt nowIso, s.insert id topic)

def Topics.delete (s : Topics) (id : Text) : TopicResult × Topics :=
  let deletedCount := if (s.lookup id).isSome then 1 else 0
  (.deleted (0 < deletedCount), s.erase id)

/-- `ORDER BY t.id ASC`. -/
def orderById (rows : List ListRow) : List ListRow :=
  rows.mergeSort fun a b => !Python.before b.id a.id

/-- What the query of `topics_list` matches. -/
def Topics.nodes (s : Topics) : Option (List Text) → List (Sigma fun _ : Text => Topic)
  | none => s.entries
  | some allowed =>
    if ['*'] ∈ allowed then s.entries
    else s.entries.filter fun node => node.2.module.any (· ∈ allowed)

def Topics.list (s : Topics) (allowedModules : Option (List Text)) : List ListRow :=
  orderById ((s.nodes allowedModules).map fun node => node.2.listRow node.1)

def Topics.call (s : Topics) (now : Int) : TopicOp → TopicResult × Topics
  | .upsert id u => s.upsert now id u
  | .delete id => s.delete id
  | .get id => (.topic ((s.lookup id).map (Topic.row id)), s)
  | .list allowedModules => (.topics (s.list allowedModules), s)

/-- The results of calls in turn, each at its time. -/
def Topics.results : Topics → List (Int × TopicOp) → List TopicResult
  | _, [] => []
  | s, (now, op) :: rest => (s.call now op).1 :: Topics.results (s.call now op).2 rest

/-! ## The map -/

abbrev TopicMap := Text → Option Topic

def TopicMap.after (m : TopicMap) (now : Int) : TopicOp → TopicMap
  | .upsert id u => Function.update m id (some (u.merge (seconds now) (m id)))
  | .delete id => Function.update m id none
  | .get _ | .list _ => m

/-- A caller with these modules sees the topic. -/
def Sees (allowedModules : Option (List Text)) (t : Topic) : Prop :=
  ∀ allowed, allowedModules = some allowed → ['*'] ∈ allowed ∨ ∃ m ∈ allowed, t.module = some m

/-- The rows of all topics that the caller sees, in the order of their ids. -/
structure Lists (m : TopicMap) (allowedModules : Option (List Text)) (rows : List ListRow) : Prop where
  ordered : rows.Pairwise fun a b => Python.before a.id b.id = true
  exact : ∀ row, row ∈ rows ↔ ∃ id t, m id = some t ∧ Sees allowedModules t ∧ row = t.listRow id

def TopicMap.Answers (m : TopicMap) (now : Int) : TopicOp → TopicResult → Prop
  | .upsert id _, r => r = .upserted (m id).isNone
      (((m id).map Topic.createdAt).getD (.known (seconds now))) (seconds now)
  | .delete id, r => r = .deleted (m id).isSome
  | .get id, r => r = .topic ((m id).map (Topic.row id))
  | .list allowedModules, r => ∃ rows, r = .topics rows ∧ Lists m allowedModules rows

/-- The results are those of the map. -/
def TopicMap.Results : TopicMap → List (Int × TopicOp) → List TopicResult → Prop
  | _, [], rs => rs = []
  | _, _ :: _, [] => False
  | m, (now, op) :: rest, r :: rs =>
    m.Answers now op r ∧ TopicMap.Results (m.after now op) rest rs

/-- The condition on a call: a topic is not upserted in the second in which it was created. -/
def Topics.later (s : Topics) (now : Int) : TopicOp → Prop
  | .upsert id _ => ∀ t, s.lookup id = some t → t.createdAt ≠ .known (seconds now)
  | _ => True

def Topics.Later : Topics → List (Int × TopicOp) → Prop
  | _, [] => True
  | s, (now, op) :: rest => s.later now op ∧ Topics.Later (s.call now op).2 rest

/-! ## One call -/

theorem setClauses_merge (u : Upsert) (nowIso : Int) (old : Option Topic) :
    u.setClauses.foldl Topic.set { old.getD (.created nowIso) with updatedAt := some nowIso } =
      u.merge nowIso old := by
  obtain ⟨title, summary, content, category, module⟩ := u
  cases title <;> cases summary <;> cases content <;> cases category <;> cases module <;> rfl

theorem merge_createdAt (u : Upsert) (nowIso : Int) (old : Option Topic) :
    (u.merge nowIso old).createdAt = (old.map Topic.createdAt).getD (.known nowIso) := by
  cases old <;> rfl

theorem upsert_eq (s : Topics) (now : Int) (id : Text) (u : Upsert) :
    s.upsert now id u =
      (.upserted (((s.lookup id).map Topic.createdAt).getD (.known (seconds now)) = .known (seconds now))
        (((s.lookup id).map Topic.createdAt).getD (.known (seconds now))) (seconds now),
      s.insert id (u.merge (seconds now) (s.lookup id))) := by
  rw [Topics.upsert, setClauses_merge, merge_createdAt]

theorem call_after (s : Topics) (now : Int) (op : TopicOp) :
    (fun id => (s.call now op).2.lookup id) = TopicMap.after (fun id => s.lookup id) now op := by
  cases op with
  | upsert id u =>
    funext i
    rw [Topics.call, upsert_eq, TopicMap.after, Function.update_apply]
    split
    next hEq => rw [hEq, AList.lookup_insert]
    next hNe => rw [AList.lookup_insert_ne hNe]
  | delete id =>
    funext i
    change (s.erase id).lookup i = _
    rw [TopicMap.after, Function.update_apply]
    split
    next hEq => rw [hEq, AList.lookup_erase]
    next hNe => rw [AList.lookup_erase_ne hNe]
  | get id => rfl
  | list allowedModules => rfl

theorem mem_nodes (s : Topics) (allowedModules : Option (List Text)) (id : Text) (t : Topic) :
    (⟨id, t⟩ : Sigma fun _ : Text => Topic) ∈ s.nodes allowedModules ↔
      s.lookup id = some t ∧ Sees allowedModules t := by
  have hEntry : s.lookup id = some t ↔ (⟨id, t⟩ : Sigma fun _ : Text => Topic) ∈ s.entries :=
    AList.mem_lookup_iff
  rw [hEntry]
  cases allowedModules with
  | none => simp [Topics.nodes, Sees]
  | some allowed =>
    simp only [Topics.nodes, Sees, Option.some.injEq, forall_eq']
    split
    next hAll => simp [hAll]
    next hAll =>
      simp only [List.mem_filter, Option.any_eq_true, decide_eq_true_eq, hAll, false_or]
      refine and_congr_right fun _ => exists_congr fun m => ?_
      exact and_comm

theorem mem_list (s : Topics) (allowedModules : Option (List Text)) (row : ListRow) :
    row ∈ s.list allowedModules ↔
      ∃ id t, s.lookup id = some t ∧ Sees allowedModules t ∧ row = t.listRow id := by
  rw [Topics.list, orderById, List.mem_mergeSort, List.mem_map]
  constructor
  · rintro ⟨⟨id, t⟩, hNode, rfl⟩
    obtain ⟨hLookup, hSees⟩ := (mem_nodes s allowedModules id t).mp hNode
    exact ⟨id, t, hLookup, hSees, rfl⟩
  · rintro ⟨id, t, hLookup, hSees, rfl⟩
    exact ⟨⟨id, t⟩, (mem_nodes s allowedModules id t).mpr ⟨hLookup, hSees⟩, rfl⟩

theorem list_ids (s : Topics) (allowedModules : Option (List Text)) :
    (s.list allowedModules).Pairwise fun a b => a.id ≠ b.id := by
  have hNodes : (s.nodes allowedModules).Pairwise fun a b => a.1 ≠ b.1 := by
    have hEntries : s.entries.Pairwise fun a b => a.1 ≠ b.1 :=
      List.nodupKeys_iff_pairwise.mp s.nodupKeys
    refine hEntries.sublist ?_
    cases allowedModules with
    | none => exact List.Sublist.refl _
    | some allowed =>
      rw [Topics.nodes]
      split
      · exact List.Sublist.refl _
      · exact List.filter_sublist
  have hRows : ((s.nodes allowedModules).map fun node => node.2.listRow node.1).Pairwise
      fun a b => a.id ≠ b.id := List.pairwise_map.mpr hNodes
  exact (List.mergeSort_perm _ _).symm.pairwise hRows fun hNe => hNe.symm

theorem lists (s : Topics) (allowedModules : Option (List Text)) :
    Lists (fun id => s.lookup id) allowedModules (s.list allowedModules) where
  ordered := by
    have hSorted : (s.list allowedModules).Pairwise fun a b => !Python.before b.id a.id := by
      refine List.pairwise_mergeSort ?_ ?_ _
      · intro a b c hab hbc
        simp only [Bool.not_eq_true'] at hab hbc ⊢
        exact Python.not_before_trans hab hbc
      · intro a b
        simpa using Python.not_before_total a.id b.id
    refine (hSorted.and (list_ids s allowedModules)).imp fun ⟨hNot, hNe⟩ => ?_
    obtain hBefore | hAfter := Python.before_total hNe
    · exact hBefore
    · rw [hAfter] at hNot
      cases hNot
  exact := mem_list s allowedModules

/-- The answer to a call is right exactly if the call meets the condition. -/
theorem call_answers (s : Topics) (now : Int) (op : TopicOp) :
    TopicMap.Answers (fun id => s.lookup id) now op (s.call now op).1 ↔ s.later now op := by
  cases op with
  | upsert id u =>
    rw [Topics.call, upsert_eq, TopicMap.Answers, Topics.later]
    cases hOld : s.lookup id with
    | none => simp
    | some t => simp
  | delete id =>
    refine iff_of_true ?_ trivial
    rw [Topics.call, Topics.delete, TopicMap.Answers]
    cases s.lookup id <;> rfl
  | get id => exact iff_of_true rfl trivial
  | list allowedModules => exact iff_of_true ⟨_, rfl, lists s allowedModules⟩ trivial

/-! ## Calls in turn -/

/-- The store answers as the map does exactly as long as no topic is upserted in the second in
which it was created. -/
theorem results_iff (s : Topics) (calls : List (Int × TopicOp)) :
    TopicMap.Results (fun id => s.lookup id) calls (s.results calls) ↔ s.Later calls := by
  induction calls generalizing s with
  | nil => exact iff_of_true rfl trivial
  | cons call rest ih =>
    obtain ⟨now, op⟩ := call
    rw [Topics.results, TopicMap.Results, Topics.Later, call_answers, ← call_after, ih]

/-- Two upserts of a topic in the second in which it is created. -/
def sameSecond : List (Int × TopicOp) :=
  [(0, .upsert ['t'] ⟨some ['a'], none, none, none, none⟩),
    (900000, .upsert ['t'] ⟨some ['b'], none, none, none, none⟩)]

theorem sameSecond_created :
    Topics.results ∅ sameSecond = [.upserted true (.known 0) 0, .upserted true (.known 0) 0] ∧
      ¬TopicMap.Results (fun _ => none) sameSecond (Topics.results ∅ sameSecond) := by
  constructor
  · decide
  · rintro ⟨-, hSecond, -⟩
    have hUpdated : TopicResult.upserted true (.known 0) 0 = .upserted false (.known 0) 0 := hSecond
    cases hUpdated

end OpenSpoke.Handoff
