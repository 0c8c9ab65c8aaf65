import Mathlib.Algebra.Order.Ring.Rat
import Mathlib.Data.List.Sort
import Mathlib.Logic.Function.Basic
import OpenSpoke.Rag.Names

/-!
# Isolation of the RAG stores

What calls for a user write to Milvus, OpenSearch, the graph and the answer cache,
and what lookups for a user read there. Scores are a parameter. Those of a collection
see that collection alone, those of the one index of all tenants see the whole index.
-/

namespace OpenSpoke.Rag

open Python (Text)

/-! ## Stores -/

structure Row where
  -- only entries of knowledge collections are found by it
  id : Text
  text : Text

structure Chunk where
  text : Text
  tenant : Text
  userId : Text
  docId : Text
  createdAt : Text

/-- What is stored in the graph for a document. -/
structure GraphDocument where
  tenant : Text
  docId : Text
  entities : List Text
  chunks : List Text

structure CacheEntry where
  question : Text
  result : Text

structure Stores where
  milvus : Text → List Row
  -- one index for all tenants
  opensearch : List Chunk
  graph : List GraphDocument
  -- `cache:<tenant>`
  cache : Text → List CacheEntry

/-- Searches, as functions of what they search in. -/
structure Engines where
  -- with the scores
  vector : Text → List Row → List (Text × Rat)
  -- the analyzed question matches the text
  hits : Text → Text → Bool
  -- the `_score` of a chunk; its statistics are those of the whole index
  score : Text → List Chunk → Chunk → Rat
  graph : Text → List GraphDocument → List Text
  -- the entry that is similar enough
  similar : Text → List CacheEntry → Option Text

structure Settings where
  wide : Char → Bool
  engines : Engines
  maxEntries : Nat

/-! ## Calls -/

def Stores.insert (s : Stores) (collection : Text) (rows : List Row) : Stores :=
  { s with milvus := Function.update s.milvus collection (s.milvus collection ++ rows) }

def opensearchIndexChunks (chunks : List Text) (userId tenant docId createdAt : Text)
    (s : Stores) : Stores :=
  { s with opensearch := s.opensearch ++ chunks.map fun t => ⟨t, tenant, userId, docId, createdAt⟩ }

def storeInNeo4j (entities chunks : List Text) (docId tenant : Text) (s : Stores) : Stores :=
  { s with graph := s.graph ++ [⟨tenant, docId, entities, chunks⟩] }

def cacheStore (maxEntries : Nat) (tenant question result : Text) (s : Stores) : Stores :=
  let entries := (⟨question, result⟩ :: s.cache tenant).take maxEntries
  { s with cache := Function.update s.cache tenant entries }

/-- Calls that index something for a user. -/
inductive Indexing
  -- texts, with the entities that are extracted from them
  | texts (texts : List Text) (docId createdAt : Text) (entities : Option (List Text))
  | code (chunks : List Text) (docId createdAt : Text)
  | knowledge (id title content : Text)
  | answer (question result : Text)

def Indexing.apply (E : Settings) (userId : Text) (s : Stores) : Indexing → Stores
  | .texts items docId createdAt entities =>
    let tenant := getTenantLabel E.wide userId
    let s := s.insert (getCollectionName E.wide userId) (items.map fun t => ⟨[], t⟩)
    let s := opensearchIndexChunks items userId tenant docId createdAt s
    match entities with
    | some names => storeInNeo4j names items docId tenant s
    | none => s
  | .code chunks docId createdAt =>
    let s := s.insert (getCodeCollectionName E.wide userId) (chunks.map fun t => ⟨[], t⟩)
    opensearchIndexChunks chunks userId (getTenantLabel E.wide userId) docId createdAt s
  | .knowledge id title content =>
    match collectionOf E.wide .knowledge userId with
    | none => s
    | some collection =>
      let kept := (s.milvus collection).filter fun row => row.id ≠ id
      let s := { s with milvus := Function.update s.milvus collection kept }
      s.insert collection [⟨id, title ++ ['\n', '\n'] ++ content⟩]
  | .answer question result =>
    cacheStore E.maxEntries (getTenantLabel E.wide userId) question result s

/-! ## Lookups -/

/-- A result of the BM25 search. -/
structure Hit where
  text : Text
  score : Rat
  createdAt : Text
  deriving DecidableEq

/-- The default of `top_k`. -/
def topK : Nat := 20

/-- What the filter and the query let through. -/
def matching (E : Settings) (question tenant : Text) (index : List Chunk) : List Chunk :=
  index.filter fun c => decide (c.tenant = tenant) && E.engines.hits question c.text

/-- The best of some chunks of the index, at equal scores in its order. -/
def best (E : Settings) (question : Text) (index chunks : List Chunk) : List Hit :=
  ((chunks.map fun c => (⟨c.text, E.engines.score question index c, c.createdAt⟩ : Hit)).insertionSort
    fun a b => b.score ≤ a.score).take topK

def opensearchSearchBm25 (E : Settings) (question tenant : Text) (s : Stores) : List Hit :=
  best E question s.opensearch (matching E question tenant s.opensearch)

def searchGraph (E : Settings) (question tenant : Text) (s : Stores) : List Text :=
  E.engines.graph question (s.graph.filter fun d => d.tenant = tenant)

def cacheCheck (E : Settings) (tenant question : Text) (s : Stores) : Option Text :=
  E.engines.similar question (s.cache tenant)

def searchCollection (E : Settings) (f : Family) (userId question : Text) (s : Stores) :
    List (Text × Rat) :=
  match collectionOf E.wide f userId with
  | none => []
  | some collection => E.engines.vector question (s.milvus collection)

/-- All that lookups for a user return for a question. -/
structure Answers where
  collections : Family → List (Text × Rat)
  bm25 : List Hit
  graph : List Text
  cached : Option Text

def lookups (E : Settings) (userId question : Text) (s : Stores) : Answers where
  collections f := searchCollection E f userId question s
  bm25 := opensearchSearchBm25 E question (getTenantLabel E.wide userId) s
  graph := searchGraph E question (getTenantLabel E.wide userId) s
  cached := cacheCheck E (getTenantLabel E.wide userId) question s

/-! ## What a call leaves alone -/

/-- What the stores have for a user. -/
structure SameFor (E : Settings) (u : Text) (s t : Stores) : Prop where
  milvus : ∀ f n, collectionOf E.wide f u = some n → t.milvus n = s.milvus n
  opensearch : (t.opensearch.filter fun c => c.tenant = getTenantLabel E.wide u) =
    s.opensearch.filter fun c => c.tenant = getTenantLabel E.wide u
  graph : (t.graph.filter fun d => d.tenant = getTenantLabel E.wide u) =
    s.graph.filter fun d => d.tenant = getTenantLabel E.wide u
  cache : t.cache (getTenantLabel E.wide u) = s.cache (getTenantLabel E.wide u)

variable {E : Settings} {u v : Text} {s t r : Stores}

theorem SameFor.refl (s : Stores) : SameFor E u s s := ⟨fun _ _ _ => rfl, rfl, rfl, rfl⟩

theorem SameFor.trans (h : SameFor E u s t) (h' : SameFor E u t r) : SameFor E u s r :=
  ⟨fun f n hn => (h'.milvus f n hn).trans (h.milvus f n hn), h'.opensearch.trans h.opensearch,
    h'.graph.trans h.graph, h'.cache.trans h.cache⟩

theorem SameFor.collection (h : SameFor E u s t) (f : Family) (question : Text) :
    searchCollection E f u question t = searchCollection E f u question s := by
  rw [searchCollection, searchCollection]
  cases hName : collectionOf E.wide f u with
  | none => rfl
  | some n => exact congrArg _ (h.milvus f n hName)

theorem SameFor.matching (h : SameFor E u s t) (question : Text) :
    matching E question (getTenantLabel E.wide u) t.opensearch =
      matching E question (getTenantLabel E.wide u) s.opensearch := by
  have hSplit : ∀ index : List Chunk, Rag.matching E question (getTenantLabel E.wide u) index =
      (index.filter fun c => c.tenant = getTenantLabel E.wide u).filter
        fun c => E.engines.hits question c.text := by
    intro index
    rw [Rag.matching, List.filter_filter]
    exact List.filter_congr fun c _ => Bool.and_comm _ _
  rw [hSplit, hSplit, h.opensearch]

section Apart

variable (hApart : Apart E.wide u v) (hne : u ≠ v)
include hApart hne

theorem sameFor_update {g : Family} {collection : Text}
    (hName : collectionOf E.wide g v = some collection) (rows : List Row) :
    SameFor E u s { s with milvus := Function.update s.milvus collection rows } := by
  refine ⟨fun f n hn => Function.update_of_ne ?_ _ _, rfl, rfl, rfl⟩
  rintro rfl
  exact hne (hApart.collections u (by simp) v (by simp) f g n hn hName).1

omit hne in
theorem sameFor_opensearch (chunks : List Text) (userId docId createdAt : Text) :
    SameFor E u s
      (opensearchIndexChunks chunks userId (getTenantLabel E.wide v) docId createdAt s) := by
  refine ⟨fun _ _ _ => rfl, ?_, rfl, rfl⟩
  have hNone : (chunks.map fun t =>
      (⟨t, getTenantLabel E.wide v, userId, docId, createdAt⟩ : Chunk)).filter
        (fun c => c.tenant = getTenantLabel E.wide u) = [] := by
    simp [List.filter_map, Function.comp_def, hApart.labels.symm]
  rw [opensearchIndexChunks, List.filter_append, hNone, List.append_nil]

omit hne in
theorem sameFor_graph (entities chunks : List Text) (docId : Text) :
    SameFor E u s (storeInNeo4j entities chunks docId (getTenantLabel E.wide v) s) := by
  refine ⟨fun _ _ _ => rfl, rfl, ?_, rfl⟩
  rw [storeInNeo4j, List.filter_append]
  simp [hApart.labels.symm]

/-- A call for `v` leaves what the stores have for `u`. -/
theorem sameFor_apply (call : Indexing) : SameFor E u s (call.apply E v s) := by
  cases call with
  | texts texts docId createdAt entities =>
    have hInsert := @sameFor_update E u v s hApart hne .documents _ rfl
      (s.milvus (getCollectionName E.wide v) ++ texts.map fun t => ⟨[], t⟩)
    have hIndexed := hInsert.trans (sameFor_opensearch hApart texts v docId createdAt)
    cases entities with
    | none => exact hIndexed
    | some names => exact hIndexed.trans (sameFor_graph hApart names texts docId)
  | code chunks docId createdAt =>
    have hInsert := @sameFor_update E u v s hApart hne .code _ rfl
      (s.milvus (getCodeCollectionName E.wide v) ++ chunks.map fun t => ⟨[], t⟩)
    exact hInsert.trans (sameFor_opensearch hApart chunks v docId createdAt)
  | knowledge id title content =>
    rw [Indexing.apply]
    cases hName : collectionOf E.wide .knowledge v with
    | none => exact .refl s
    | some collection =>
      exact (sameFor_update hApart hne hName _).trans (sameFor_update hApart hne hName _)
  | answer question result =>
    exact ⟨fun _ _ _ => rfl, rfl, rfl, Function.update_of_ne hApart.labels _ _⟩

theorem sameFor_calls (calls : List Indexing) :
    SameFor E u s (calls.foldl (fun t call => call.apply E v t) s) := by
  induction calls generalizing s with
  | nil => exact .refl s
  | cons call calls ih => exact (sameFor_apply hApart hne call).trans ih

end Apart

/-- No calls for `v` change what lookups for `u` return. -/
def Unaffected (E : Settings) (u v : Text) : Prop :=
  ∀ (s : Stores) (calls : List Indexing) (question : Text),
    lookups E u question (calls.foldl (fun t call => call.apply E v t) s) = lookups E u question s

/-- No calls for `v` change what lookups for `u` return, but for the scores of BM25: its results are
the best of what matched for `u` before, by the scores of the whole index. -/
def UnaffectedButScores (E : Settings) (u v : Text) : Prop :=
  ∀ (s : Stores) (calls : List Indexing) (question : Text),
    let t := calls.foldl (fun t call => call.apply E v t) s
    lookups E u question t = { lookups E u question s with
      bm25 := best E question t.opensearch
        (matching E question (getTenantLabel E.wide u) s.opensearch) }

theorem SameFor.lookups (h : SameFor E u s t) (question : Text) :
    lookups E u question t = { lookups E u question s with
      bm25 := best E question t.opensearch
        (Rag.matching E question (getTenantLabel E.wide u) s.opensearch) } := by
  rw [Rag.lookups, Rag.lookups, funext fun f => h.collection f question, opensearchSearchBm25,
    h.matching question, searchGraph, searchGraph, cacheCheck, cacheCheck, h.graph, h.cache]

/-- The results of BM25 are chunks of the user, whatever the scores. -/
theorem mem_bm25 {question : Text} {hit : Hit} (hMem : hit ∈ (lookups E u question s).bm25) :
    ∃ c ∈ matching E question (getTenantLabel E.wide u) s.opensearch,
      hit = ⟨c.text, E.engines.score question s.opensearch c, c.createdAt⟩ := by
  have hSorted := (List.mem_insertionSort _).mp (List.mem_of_mem_take hMem)
  obtain ⟨c, hc, rfl⟩ := List.mem_map.mp hSorted
  exact ⟨c, hc, rfl⟩

/-- Names and labels of two users are apart, and then neither's calls reach the other's
lookups, if and only if the ids are separable. -/
theorem tenants_isolated_iff (E : Settings) (u v : Text) :
    (Apart E.wide u v ∧ UnaffectedButScores E u v ∧ UnaffectedButScores E v u) ↔
      Separable E.wide u v := by
  refine ⟨fun h => apart_iff_separable.mp h.1, fun h => ?_⟩
  have hApart := apart_iff_separable.mpr h
  have hne : u ≠ v := fun hEq => h.safe (congrArg _ hEq)
  exact ⟨hApart, fun _ calls question => (sameFor_calls hApart hne calls).lookups question,
    fun _ calls question => (sameFor_calls hApart.symm hne.symm calls).lookups question⟩

/-- Two users whose ids are separable share no names, neither's calls change what lookups for the
other return but for the scores of BM25, and the results of BM25 are their own chunks. -/
theorem tenants_isolated (E : Settings) {u v : Text} (h : Separable E.wide u v) :
    Apart E.wide u v ∧ UnaffectedButScores E u v ∧ UnaffectedButScores E v u ∧
      ∀ w ∈ [u, v], ∀ (s : Stores) (question : Text), ∀ hit ∈ (lookups E w question s).bm25,
        ∃ c ∈ s.opensearch, c.tenant = getTenantLabel E.wide w ∧ hit.text = c.text ∧
          hit.createdAt = c.createdAt := by
  obtain ⟨hApart, hThere, hBack⟩ := (tenants_isolated_iff E u v).mpr h
  refine ⟨hApart, hThere, hBack, fun w _ s question hit hMem => ?_⟩
  obtain ⟨c, hc, rfl⟩ := mem_bm25 hMem
  obtain ⟨hIn, hOwn⟩ := List.mem_filter.mp hc
  exact ⟨c, hIn, of_decide_eq_true (Bool.and_eq_true_iff.mp hOwn).1, rfl, rfl⟩

/-- Searches that return all there is. The more chunks of the index do not match, the higher is the
score of those that do. -/
def plainSettings : Settings where
  wide _ := true
  engines := {
    vector := fun _ rows => rows.map fun row => (row.text, 1)
    hits := fun question text => decide (question = text)
    score := fun question index _ => (1 + index.countP (·.text ≠ question) : Nat)
    graph := fun _ documents => documents.flatMap GraphDocument.chunks
    similar := fun _ entries => entries.head?.map CacheEntry.result }
  maxEntries := 500

def Stores.empty : Stores := ⟨fun _ => [], [], [], fun _ => []⟩

theorem ab_isolated : Apart plainSettings.wide ['a'] ['b'] ∧
    UnaffectedButScores plainSettings ['a'] ['b'] := by
  have hSeparable : Separable plainSettings.wide ['a'] ['b'] :=
    ⟨by decide, by decide, fun _ _ => by decide⟩
  obtain ⟨hApart, hThere, -⟩ := tenants_isolated plainSettings hSeparable
  exact ⟨hApart, hThere⟩

/-- One text indexed for `a`. -/
def storesOfA : Stores := (Indexing.texts [['x']] ['d'] ['1'] none).apply plainSettings ['a'] .empty

/-- `a.b` and `a_b` share everything: `a.b` is sent what was indexed for `a_b`. And a text indexed
for `b` changes the score of the one that `a` finds. -/
theorem dotAndUnderscore_shared :
    ¬(Apart plainSettings.wide ['a', '.', 'b'] ['a', '_', 'b'] ∧
      Unaffected plainSettings ['a', '.', 'b'] ['a', '_', 'b']) ∧
    ((lookups plainSettings ['a', '.', 'b'] ['x'] ((Indexing.texts [['x']] ['d'] ['1'] none).apply
      plainSettings ['a', '_', 'b'] .empty)).bm25.map Hit.text) = [['x']] ∧
    ¬Unaffected plainSettings ['a'] ['b'] := by
  refine ⟨fun h => h.1.labels (by decide), by decide, fun h => ?_⟩
  have hSame := congrArg Answers.bm25 (h storesOfA [.texts [['y']] ['e'] ['2'] none] ['x'])
  exact absurd hSame (by decide)

end OpenSpoke.Rag
