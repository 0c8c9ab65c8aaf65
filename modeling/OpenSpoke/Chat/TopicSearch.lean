import Mathlib.Algebra.Order.Field.Rat
import OpenSpoke.Chat.Chunks
import OpenSpoke.Lib.DocIndex
import OpenSpoke.Lib.Stamped
import OpenSpoke.Rag.SemanticCache

/-!
# The search of topics

`_search_topics` and `_search_chunks` compare the embedding of a query with those of the topics
and of their chunks, which two caches keep with the time of the topic's last change in seconds.
Numbers are exact.
-/

namespace OpenSpoke.Chat.TopicSearch

open Chunks (Topic embedContentCharLimit)
open Python (Text strip)
open Rag.SemanticCache (dot)

/-- The embeddings, and the functions of Python on numbers. -/
structure Engine (K : Type*) where
  embed : Text → List K
  sqrt : K → K
  round4 : K → K

structure Chunk (K : Type*) where
  chunkIndex : ℕ
  text : Text
  embedding : List K
  deriving DecidableEq

structure World (K : Type*) where
  now : ℤ
  topics : DocIndex Text (ℤ × Topic)
  topicEmbeddings : Dict Text (ℤ × List K)
  topicChunks : Dict Text (ℤ × List (Chunk K))

/-- The arguments of `topic_upsert`; none leaves a field as it is. -/
structure Changes where
  title : Option Text
  summary : Option Text
  content : Option Text

/-- What the services give in a call: whether the query is embedded, the topics in the order in
which they are listed, and whether the batch of texts is embedded. -/
structure Answers where
  query : Bool
  listing : Option (List (Text × ℤ × Topic))
  batch : Bool

structure TopicHit (K : Type*) where
  id : Text
  title : Text
  summary : Text
  content : Text
  score : K
  deriving DecidableEq

structure ChunkHit (K : Type*) where
  topicId : Text
  topicTitle : Text
  chunkIndex : ℕ
  text : Text
  score : K
  deriving DecidableEq

inductive RangeReply
  | failed (error : Text)
  | empty
  | found (topicTitle : Text) (totalChunks : ℕ) (fromIndex toIndex : ℤ) (chunks : List (ℕ × Text))
  deriving DecidableEq

/-! ## The store -/

def Changes.apply (c : Changes) (t : Topic) : Topic :=
  ⟨c.title.getD t.title, c.summary.getD t.summary, c.content.getD t.content⟩

variable {K : Type*}

def World.changed (w : World K) (id : Text) (c : Changes) : Topic :=
  c.apply (((w.topics.get id).map Prod.snd).getD ⟨[], [], []⟩)

def topicUpsert (w : World K) (id : Text) (c : Changes) (time : ℤ) : World K :=
  { w with now := time, topics := w.topics.put id (time, w.changed id c) }

def topicDelete (w : World K) (id : Text) : World K := { w with topics := w.topics.delete id }

/-- The answer to the listing has all topics, in some order. -/
def Answers.Fits (a : Answers) (w : World K) : Prop := ∀ l ∈ a.listing, l.Perm w.topics.docs

instance (a : Answers) (w : World K) : Decidable (a.Fits w) :=
  match h : a.listing with
  | none => .isTrue fun l hl => by rw [h] at hl; cases hl
  | some l => decidable_of_iff (l.Perm w.topics.docs)
      ⟨fun hPerm l' hl' => by rw [h] at hl'; cases hl'; exact hPerm, fun hAll => hAll l h⟩

/-- `topic_map`; topics have different ids. -/
def Answers.topicMap (a : Answers) : List (Text × ℤ × Topic) :=
  (a.listing.getD []).filter fun d => d.1 ≠ []

/-- `topic_map.get(tid) or {}`. -/
def topicOf (topicMap : List (Text × ℤ × Topic)) (id : Text) : Topic :=
  ((Keyed.find Prod.fst id topicMap).map fun d => d.2.2).getD ⟨[], [], []⟩

/-! ## Embeddings and scores -/

/-- The text of a topic that is embedded. -/
def topicText (t : Topic) : Text :=
  strip (strip t.title ++ ' ' :: strip t.summary ++ ' ' ::
    strip (t.content.take embedContentCharLimit))

/-- `list[:limit]`. -/
def upTo {α : Type*} (limit : ℤ) (l : List α) : List α :=
  l.take (if limit < 0 then l.length + limit else limit).toNat

/-- `sort(key=lambda x: x["score"], reverse=True)`. -/
def sortHits {α : Type*} [LinearOrder K] (score : α → K) (hits : List α) : List α :=
  hits.insertionSort fun g h => score h ≤ score g

namespace Engine

variable (E : Engine K)

def topicEmbedding (t : Topic) : Option (List K) :=
  if topicText t = [] then none else some (E.embed (topicText t))

def chunk (i : ℕ) (text : Text) : Chunk K := ⟨i, text, E.embed (text.take embedContentCharLimit)⟩

def chunks (t : Topic) : Option (List (Chunk K)) :=
  if t.chunkTexts = [] then none else some (t.chunkTexts.mapIdx E.chunk)

def refreshTopicEmbeddings (w : World K) (a : Answers) : Dict Text (ℤ × List K) :=
  if a.topicMap = [] then w.topicEmbeddings
  else
    let missing := Stamped.missing E.topicEmbedding w.topicEmbeddings a.topicMap
    Stamped.prune (if missing ≠ [] ∧ a.batch then Stamped.store w.topicEmbeddings missing
      else w.topicEmbeddings) a.topicMap

def refreshTopicChunksCache (w : World K) (a : Answers) : Dict Text (ℤ × List (Chunk K)) :=
  if a.topicMap = [] then w.topicChunks
  else
    let missing := Stamped.missing E.chunks w.topicChunks a.topicMap
    if missing = [] then Stamped.prune w.topicChunks a.topicMap
    else if a.batch then Stamped.prune (Stamped.store w.topicChunks missing) a.topicMap
    else w.topicChunks

variable [Field K] [LinearOrder K]

def cosine (a b : List K) : K :=
  if a = [] ∨ b = [] ∨ a.length ≠ b.length then 0
  else if dot a a = 0 ∨ dot b b = 0 then 0
  else dot a b / (E.sqrt (dot a a) * E.sqrt (dot b b))

def topicHit (topicMap : List (Text × ℤ × Topic)) (q : List K) (minScore : K)
    (e : Text × ℤ × List K) : Option (TopicHit K) :=
  let score := E.cosine q e.2.2
  if score < minScore then none
  else
    let t := topicOf topicMap e.1
    some ⟨e.1, t.title, t.summary, t.content, E.round4 score⟩

/-- `_search_topics`; none if it raises. -/
def searchTopics (w : World K) (query : Text) (limit : ℤ) (minScore : K) (a : Answers) :
    Option (List (TopicHit K)) × World K :=
  if a.query = false then (none, w)
  else
    let cache := E.refreshTopicEmbeddings w a
    let w' := { w with topicEmbeddings := cache }
    if a.topicMap = [] then (some [], w')
    else
      let ranked := cache.entries.filterMap (E.topicHit a.topicMap (E.embed query) minScore)
      (some (upTo limit (sortHits TopicHit.score ranked)), w')

def chunkHit (id : Text) (t : Topic) (q : List K) (minScore : K) (c : Chunk K) :
    Option (ChunkHit K) :=
  let score := E.cosine q c.embedding
  if score < minScore then none
  else some ⟨id, t.title, c.chunkIndex, c.text, E.round4 score⟩

/-- `_search_chunks`; none if it raises. -/
def searchChunks (w : World K) (query : Text) (limit : ℤ) (minScore : K) (a : Answers) :
    Option (List (ChunkHit K)) × World K :=
  if a.query = false then (none, w)
  else
    let cache := E.refreshTopicChunksCache w a
    let w' := { w with topicChunks := cache }
    if a.topicMap = [] then (some [], w')
    else
      let ranked := cache.entries.flatMap fun e =>
        e.2.2.filterMap (E.chunkHit e.1 (topicOf a.topicMap e.1) (E.embed query) minScore)
      (some (upTo limit (sortHits ChunkHit.score ranked)), w')

omit [Field K] [LinearOrder K] in
def getTopicChunkRange (w : World K) (topicId : Text) (fromIndex toIndex : Option ℤ) (limit : ℤ)
    (a : Answers) : RangeReply × World K :=
  let cache := E.refreshTopicChunksCache w a
  let w' := { w with topicChunks := cache }
  match cache.get topicId with
  | none => (.failed ("topic not found or empty: ".toList ++ topicId), w')
  | some (_, chunks) =>
    if chunks = [] then (.empty, w')
    else
      let total : ℤ := chunks.length
      let fi := (fromIndex.map (max 0)).getD 0
      let ti := (toIndex.map (min (total - 1))).getD (total - 1)
      let ti := if ti < fi then fi else ti
      let ti := if limit < ti - fi + 1 then fi + limit - 1 else ti
      let selected := (upTo (ti + 1) chunks).drop fi.toNat
      (.found (topicOf a.topicMap topicId).title chunks.length fi ti
        (selected.map fun c => (c.chunkIndex, c.text)), w')

end Engine

/-! ## Runs -/

inductive Act (K : Type*)
  | upsert (id : Text) (c : Changes) (time : ℤ)
  | delete (id : Text)
  | searchTopics (query : Text) (limit : ℤ) (minScore : K) (a : Answers)
  | searchChunks (query : Text) (limit : ℤ) (minScore : K) (a : Answers)
  | chunkRange (topicId : Text) (fromIndex toIndex : Option ℤ) (limit : ℤ) (a : Answers)

variable [Field K] [LinearOrder K] (E : Engine K)

/-- The endpoints refuse a topic without an id. -/
def step (w : World K) : Act K → Option (World K)
  | .upsert id c time => if id ≠ [] ∧ w.now ≤ time then some (topicUpsert w id c time) else none
  | .delete id => some (topicDelete w id)
  | .searchTopics query limit minScore a =>
    if a.Fits w then some (E.searchTopics w query limit minScore a).2 else none
  | .searchChunks query limit minScore a =>
    if a.Fits w then some (E.searchChunks w query limit minScore a).2 else none
  | .chunkRange topicId fromIndex toIndex limit a =>
    if a.Fits w then some (E.getTopicChunkRange w topicId fromIndex toIndex limit a).2 else none

omit [Field K] [LinearOrder K] in
structure Start (w : World K) : Prop where
  ids : ∀ id d, w.topics.get id = some d → id ≠ []
  topicEmbeddings : w.topicEmbeddings = Dict.empty
  topicChunks : w.topicChunks = Dict.empty

def answering (listing : List (Text × ℤ × Topic)) : Answers := ⟨true, some listing, true⟩

/-- The hits are the first of those that `P` holds for, by their scores. -/
def Ranks {α : Type*} (score : α → K) (P : α → Prop) (limit : ℤ) (hits : List α) : Prop :=
  ∃ ranked : List α, ranked.Nodup ∧ ranked.Pairwise (fun g h => score h ≤ score g) ∧
    (∀ h, h ∈ ranked ↔ P h) ∧ hits = upTo limit ranked

/-- The hit is a topic of now with its score. -/
def IsTopicHit (w : World K) (query : Text) (minScore : K) (h : TopicHit K) : Prop :=
  ∃ id time t, w.topics.get id = some (time, t) ∧ topicText t ≠ [] ∧
    minScore ≤ E.cosine (E.embed query) (E.embed (topicText t)) ∧
    h = ⟨id, t.title, t.summary, t.content,
      E.round4 (E.cosine (E.embed query) (E.embed (topicText t)))⟩

def IsChunkHit (w : World K) (query : Text) (minScore : K) (h : ChunkHit K) : Prop :=
  ∃ id time t i text, w.topics.get id = some (time, t) ∧ t.chunkTexts[i]? = some text ∧
    minScore ≤ E.cosine (E.embed query) (E.embed (text.take embedContentCharLimit)) ∧
    h = ⟨id, t.title, i, text,
      E.round4 (E.cosine (E.embed query) (E.embed (text.take embedContentCharLimit)))⟩

/-- Searches with services that answer are answered from the topics of now. -/
structure Correct (w : World K) : Prop where
  topics : ∀ query limit minScore listing, listing.Perm w.topics.docs →
    ∃ hits, (E.searchTopics w query limit minScore (answering listing)).1 = some hits ∧
      Ranks TopicHit.score (IsTopicHit E w query minScore) limit hits
  chunks : ∀ query limit minScore listing, listing.Perm w.topics.docs →
    ∃ hits, (E.searchChunks w query limit minScore (answering listing)).1 = some hits ∧
      Ranks ChunkHit.score (IsChunkHit E w query minScore) limit hits

/-- What a cache has under an id suits a change of the topic: of the new topic something is made,
and what has been made in this second is made of it. -/
def Suits {γ : Type*} (make : Topic → Option γ) (cached : Option (ℤ × γ)) (time : ℤ) (t : Topic) :
    Prop :=
  ∀ e, cached = some e → make t ≠ none ∧ (e.1 = time → make t = some e.2)

def Kept (w : World K) : Act K → Prop
  | .upsert id c time =>
    Suits E.topicEmbedding (w.topicEmbeddings.get id) time (w.changed id c) ∧
      Suits E.chunks (w.topicChunks.get id) time (w.changed id c)
  | _ => True

/-! ## The caches -/

omit [Field K] [LinearOrder K] in
structure Inv (w : World K) : Prop where
  ids : ∀ id d, w.topics.get id = some d → id ≠ []
  topicEmbeddings : Stamped.Valid E.topicEmbedding w.topics.get w.topicEmbeddings
  topicChunks : Stamped.Valid E.chunks w.topics.get w.topicChunks

section

variable {E} {w : World K} {a : Answers}

omit [Field K] [LinearOrder K]

theorem Start.inv (h : Start w) : Inv E w where
  ids := h.ids
  topicEmbeddings := by
    rw [h.topicEmbeddings]
    exact Stamped.valid_empty
  topicChunks := by
    rw [h.topicChunks]
    exact Stamped.valid_empty

theorem mem_topicMap (hIds : ∀ id d, w.topics.get id = some d → id ≠ []) {listing}
    (hListing : a.listing = some listing) (hPerm : listing.Perm w.topics.docs)
    (d : Text × ℤ × Topic) : d ∈ a.topicMap ↔ w.topics.get d.1 = some d.2 := by
  rw [Answers.topicMap, hListing, Option.getD_some, List.mem_filter, hPerm.mem_iff,
    ← DocIndex.mem_docs_iff]
  refine ⟨And.left, fun hMem => ⟨hMem, ?_⟩⟩
  simpa using hIds d.1 d.2 (DocIndex.mem_docs_iff.mp hMem)

theorem mem_topicMap_of_ne (hIds : ∀ id d, w.topics.get id = some d → id ≠ []) (hFits : a.Fits w)
    (hNe : a.topicMap ≠ []) (d : Text × ℤ × Topic) :
    d ∈ a.topicMap ↔ w.topics.get d.1 = some d.2 := by
  cases hListing : a.listing with
  | none =>
    rw [Answers.topicMap, hListing] at hNe
    exact absurd rfl hNe
  | some listing => exact mem_topicMap hIds hListing (hFits listing hListing) d

theorem Inv.refreshed_embeddings (h : Inv E w) (hFits : a.Fits w) :
    Stamped.Valid E.topicEmbedding w.topics.get (E.refreshTopicEmbeddings w a) := by
  unfold Engine.refreshTopicEmbeddings
  split
  · exact h.topicEmbeddings
  next hNe =>
    dsimp only
    split
    · exact (h.topicEmbeddings.mirrors (mem_topicMap_of_ne h.ids hFits hNe)).valid
    · exact h.topicEmbeddings.pruned a.topicMap

theorem Inv.refreshed_chunks (h : Inv E w) (hFits : a.Fits w) :
    Stamped.Valid E.chunks w.topics.get (E.refreshTopicChunksCache w a) := by
  unfold Engine.refreshTopicChunksCache
  split
  · exact h.topicChunks
  next hNe =>
    dsimp only
    split
    · exact h.topicChunks.pruned a.topicMap
    · split
      · exact (h.topicChunks.mirrors (mem_topicMap_of_ne h.ids hFits hNe)).valid
      · exact h.topicChunks

theorem Inv.mirrored_embeddings (h : Inv E w) (hBatch : a.batch = true) (hNe : a.topicMap ≠ [])
    (hMem : ∀ d, d ∈ a.topicMap ↔ w.topics.get d.1 = some d.2) :
    Stamped.Mirrors E.topicEmbedding w.topics.get (E.refreshTopicEmbeddings w a) := by
  have hMirrors := h.topicEmbeddings.mirrors hMem
  unfold Engine.refreshTopicEmbeddings
  rw [if_neg hNe]
  dsimp only
  split
  · exact hMirrors
  next hNot =>
    have hNone : Stamped.missing E.topicEmbedding w.topicEmbeddings a.topicMap = [] := by
      by_contra hSome
      exact hNot ⟨hSome, hBatch⟩
    rw [hNone] at hMirrors
    exact hMirrors

theorem Inv.mirrored_chunks (h : Inv E w) (hBatch : a.batch = true) (hNe : a.topicMap ≠ [])
    (hMem : ∀ d, d ∈ a.topicMap ↔ w.topics.get d.1 = some d.2) :
    Stamped.Mirrors E.chunks w.topics.get (E.refreshTopicChunksCache w a) := by
  have hMirrors := h.topicChunks.mirrors hMem
  unfold Engine.refreshTopicChunksCache
  rw [if_neg hNe]
  dsimp only
  rw [if_pos hBatch]
  split
  next hNone =>
    rw [hNone] at hMirrors
    exact hMirrors
  · exact hMirrors

theorem Inv.with_embeddings (h : Inv E w) (hFits : a.Fits w) :
    Inv E { w with topicEmbeddings := E.refreshTopicEmbeddings w a } :=
  ⟨h.ids, h.refreshed_embeddings hFits, h.topicChunks⟩

theorem Inv.with_chunks (h : Inv E w) (hFits : a.Fits w) :
    Inv E { w with topicChunks := E.refreshTopicChunksCache w a } :=
  ⟨h.ids, h.topicEmbeddings, h.refreshed_chunks hFits⟩

theorem get_topicUpsert (w : World K) (id : Text) (c : Changes) (time : ℤ) :
    (topicUpsert w id c time).topics.get =
      Function.update w.topics.get id (some (time, w.changed id c)) := by
  funext k
  by_cases hKey : k = id
  · rw [hKey, Function.update_self]
    exact DocIndex.get_put_self ..
  · rw [Function.update_of_ne hKey]
    exact DocIndex.get_put_of_ne _ _ hKey

theorem get_topicDelete (w : World K) (id : Text) :
    (topicDelete w id).topics.get = Function.update w.topics.get id none := by
  funext k
  by_cases hKey : k = id
  · rw [hKey, Function.update_self]
    exact DocIndex.get_delete_self ..
  · rw [Function.update_of_ne hKey]
    exact DocIndex.get_delete_of_ne _ hKey

theorem Inv.upsert (h : Inv E w) {id : Text} (hId : id ≠ []) {c : Changes} {time : ℤ}
    (hKept : Suits E.topicEmbedding (w.topicEmbeddings.get id) time (w.changed id c) ∧
      Suits E.chunks (w.topicChunks.get id) time (w.changed id c)) :
    Inv E (topicUpsert w id c time) where
  ids k d hGet := by
    rw [get_topicUpsert] at hGet
    by_cases hKey : k = id
    · exact hKey ▸ hId
    · rw [Function.update_of_ne hKey] at hGet
      exact h.ids k d hGet
  topicEmbeddings := by
    rw [get_topicUpsert]
    exact h.topicEmbeddings.update hKept.1
  topicChunks := by
    rw [get_topicUpsert]
    exact h.topicChunks.update hKept.2

theorem Inv.delete (h : Inv E w) (id : Text) : Inv E (topicDelete w id) where
  ids k d hGet := by
    rw [get_topicDelete] at hGet
    by_cases hKey : k = id
    · rw [hKey, Function.update_self] at hGet
      cases hGet
    · rw [Function.update_of_ne hKey] at hGet
      exact h.ids k d hGet
  topicEmbeddings := by
    rw [get_topicDelete]
    exact h.topicEmbeddings.erase id
  topicChunks := by
    rw [get_topicDelete]
    exact h.topicChunks.erase id

end

theorem Inv.step {w w' : World K} (h : Inv E w) {act : Act K} (hKept : Kept E w act)
    (hStep : step E w act = some w') : Inv E w' := by
  cases act with
  | upsert id c time =>
    obtain ⟨⟨hId, -⟩, hEq⟩ := Option.ite_none_right_eq_some.mp hStep
    cases hEq
    exact h.upsert hId hKept
  | delete id =>
    cases hStep
    exact h.delete id
  | searchTopics query limit minScore a =>
    obtain ⟨hFits, hEq⟩ := Option.ite_none_right_eq_some.mp hStep
    cases hEq
    unfold Engine.searchTopics
    split
    · exact h
    · dsimp only
      split
      · exact h.with_embeddings hFits
      · exact h.with_embeddings hFits
  | searchChunks query limit minScore a =>
    obtain ⟨hFits, hEq⟩ := Option.ite_none_right_eq_some.mp hStep
    cases hEq
    unfold Engine.searchChunks
    split
    · exact h
    · dsimp only
      split
      · exact h.with_chunks hFits
      · exact h.with_chunks hFits
  | chunkRange topicId fromIndex toIndex limit a =>
    obtain ⟨hFits, hEq⟩ := Option.ite_none_right_eq_some.mp hStep
    cases hEq
    unfold Engine.getTopicChunkRange
    dsimp only
    split
    · exact h.with_chunks hFits
    · split
      · exact h.with_chunks hFits
      · exact h.with_chunks hFits

/-! ## The searches -/

section

variable {E} {w : World K}

omit [Field K] in
theorem ranks_sortHits {α : Type*} {score : α → K} {P : α → Prop} {limit : ℤ} {hits : List α}
    (hNodup : hits.Nodup) (hMem : ∀ h, h ∈ hits ↔ P h) :
    Ranks score P limit (upTo limit (sortHits score hits)) := by
  have hPerm : (sortHits score hits).Perm hits := List.perm_insertionSort _ hits
  have hTotal : Std.Total fun g h : α => score h ≤ score g := ⟨fun g h => le_total _ _⟩
  have hTrans : IsTrans α fun g h => score h ≤ score g := ⟨fun f g h hfg hgh => hgh.trans hfg⟩
  exact ⟨sortHits score hits, hPerm.nodup_iff.mpr hNodup, List.pairwise_insertionSort _ hits,
    fun h => hPerm.mem_iff.trans (hMem h), rfl⟩

omit [Field K] [LinearOrder K] in
theorem topicOf_eq {topicMap : List (Text × ℤ × Topic)} {id : Text} {time : ℤ} {t : Topic}
    (hMem : ∀ d, d ∈ topicMap ↔ w.topics.get d.1 = some d.2)
    (hGet : w.topics.get id = some (time, t)) : topicOf topicMap id = t := by
  have hListed : (id, time, t) ∈ topicMap := (hMem (id, time, t)).mpr hGet
  have hFound : Keyed.find Prod.fst id topicMap ≠ none := fun hNone =>
    Keyed.find_eq_none.mp hNone (List.mem_map_of_mem hListed)
  obtain ⟨d, hFind⟩ := Option.ne_none_iff_exists'.mp hFound
  have hThere := (hMem d).mp (Keyed.mem_of_find hFind)
  rw [Keyed.key_of_find hFind, hGet] at hThere
  rw [topicOf, hFind, Option.map_some, Option.getD_some, ← Option.some_inj.mp hThere]

omit [Field K] [LinearOrder K] in
theorem topicEmbedding_eq_some {t : Topic} {emb : List K} :
    E.topicEmbedding t = some emb ↔ topicText t ≠ [] ∧ emb = E.embed (topicText t) := by
  unfold Engine.topicEmbedding
  split
  next hEmpty => simp [hEmpty]
  next hText => simp [hText, eq_comm]

theorem topicHit_eq_some {topicMap : List (Text × ℤ × Topic)} {q : List K} {minScore : K}
    {e : Text × ℤ × List K} {h : TopicHit K} :
    E.topicHit topicMap q minScore e = some h ↔ minScore ≤ E.cosine q e.2.2 ∧
      h = ⟨e.1, (topicOf topicMap e.1).title, (topicOf topicMap e.1).summary,
        (topicOf topicMap e.1).content, E.round4 (E.cosine q e.2.2)⟩ := by
  unfold Engine.topicHit
  dsimp only
  split
  next hLow => simp [not_le.mpr hLow]
  next hHigh => simp [not_lt.mp hHigh, eq_comm]

theorem chunkHit_eq_some {id : Text} {t : Topic} {q : List K} {minScore : K} {c : Chunk K}
    {h : ChunkHit K} :
    E.chunkHit id t q minScore c = some h ↔ minScore ≤ E.cosine q c.embedding ∧
      h = ⟨id, t.title, c.chunkIndex, c.text, E.round4 (E.cosine q c.embedding)⟩ := by
  unfold Engine.chunkHit
  dsimp only
  split
  next hLow => simp [not_le.mpr hLow]
  next hHigh => simp [not_lt.mp hHigh, eq_comm]

theorem nodup_topicHits {topicMap : List (Text × ℤ × Topic)} {q : List K} {minScore : K}
    (cache : Dict Text (ℤ × List K)) :
    (cache.entries.filterMap (E.topicHit topicMap q minScore)).Nodup := by
  refine List.pairwise_filterMap.mpr ((List.pairwise_map.mp cache.distinct).imp ?_)
  rintro e e' hNe h hHit h' hHit' rfl
  have hId := (topicHit_eq_some.mp hHit).2
  rw [(topicHit_eq_some.mp hHit').2] at hId
  exact hNe (congrArg TopicHit.id hId).symm

theorem Inv.correct_topics (h : Inv E w) (query : Text) (limit : ℤ) (minScore : K)
    {listing : List (Text × ℤ × Topic)} (hPerm : listing.Perm w.topics.docs) :
    ∃ hits, (E.searchTopics w query limit minScore (answering listing)).1 = some hits ∧
      Ranks TopicHit.score (IsTopicHit E w query minScore) limit hits := by
  have hMem : ∀ d, d ∈ (answering listing).topicMap ↔ w.topics.get d.1 = some d.2 :=
    mem_topicMap h.ids rfl hPerm
  unfold Engine.searchTopics
  rw [if_neg (by simp [answering])]
  dsimp only
  split
  next hEmpty =>
    refine ⟨_, rfl, [], List.nodup_nil, List.Pairwise.nil, fun hit => ?_, List.take_nil.symm⟩
    refine iff_of_false List.not_mem_nil ?_
    rintro ⟨id, time, t, hGet, -⟩
    have hListed := (hMem (id, time, t)).mpr hGet
    rw [hEmpty] at hListed
    cases hListed
  next hNe =>
    have hMirrors := h.mirrored_embeddings rfl hNe hMem
    refine ⟨_, rfl, ranks_sortHits (nodup_topicHits _) fun hit => ?_⟩
    rw [List.mem_filterMap]
    constructor
    · rintro ⟨⟨id, time, emb⟩, hEntry, hHit⟩
      obtain ⟨t, hGet, hMake⟩ := hMirrors.mem_entries_iff.mp hEntry
      obtain ⟨hText, rfl⟩ := topicEmbedding_eq_some.mp hMake
      obtain ⟨hScore, rfl⟩ := topicHit_eq_some.mp hHit
      rw [topicOf_eq hMem hGet]
      exact ⟨id, time, t, hGet, hText, hScore, rfl⟩
    · rintro ⟨id, time, t, hGet, hText, hScore, rfl⟩
      refine ⟨(id, time, E.embed (topicText t)), hMirrors.mem_entries_iff.mpr
        ⟨t, hGet, topicEmbedding_eq_some.mpr ⟨hText, rfl⟩⟩, topicHit_eq_some.mpr ⟨hScore, ?_⟩⟩
      rw [topicOf_eq hMem hGet]

omit [Field K] [LinearOrder K] in
theorem chunks_eq_some {t : Topic} {chunks : List (Chunk K)} :
    E.chunks t = some chunks ↔ t.chunkTexts ≠ [] ∧ chunks = t.chunkTexts.mapIdx E.chunk := by
  unfold Engine.chunks
  split
  next hEmpty => simp [hEmpty]
  next hTexts => simp [hTexts, eq_comm]

omit [Field K] [LinearOrder K] in
theorem mem_chunks {texts : List Text} {c : Chunk K} :
    c ∈ texts.mapIdx E.chunk ↔ ∃ i text, texts[i]? = some text ∧ c = E.chunk i text := by
  rw [List.mem_mapIdx]
  constructor
  · rintro ⟨i, hi, rfl⟩
    exact ⟨i, texts[i], List.getElem?_eq_getElem hi, rfl⟩
  · rintro ⟨i, text, hText, rfl⟩
    obtain ⟨hi, rfl⟩ := List.getElem?_eq_some_iff.mp hText
    exact ⟨i, hi, rfl⟩

theorem mem_chunkHits {id : Text} {t : Topic} {q : List K} {minScore : K} {h : ChunkHit K} :
    h ∈ (t.chunkTexts.mapIdx E.chunk).filterMap (E.chunkHit id t q minScore) ↔
      ∃ i text, t.chunkTexts[i]? = some text ∧
        minScore ≤ E.cosine q (E.embed (text.take embedContentCharLimit)) ∧
        h = ⟨id, t.title, i, text,
          E.round4 (E.cosine q (E.embed (text.take embedContentCharLimit)))⟩ := by
  rw [List.mem_filterMap]
  constructor
  · rintro ⟨c, hChunk, hHit⟩
    obtain ⟨i, text, hText, rfl⟩ := mem_chunks.mp hChunk
    obtain ⟨hScore, rfl⟩ := chunkHit_eq_some.mp hHit
    exact ⟨i, text, hText, hScore, rfl⟩
  · rintro ⟨i, text, hText, hScore, rfl⟩
    exact ⟨E.chunk i text, mem_chunks.mpr ⟨i, text, hText, rfl⟩, chunkHit_eq_some.mpr ⟨hScore, rfl⟩⟩

theorem pairwise_chunkHits {id : Text} {t : Topic} {q : List K} {minScore : K} (texts : List Text) :
    ((texts.mapIdx E.chunk).filterMap (E.chunkHit id t q minScore)).Nodup := by
  have hIndices : (texts.mapIdx E.chunk).Pairwise fun c c' => c.chunkIndex ≠ c'.chunkIndex := by
    rw [List.pairwise_iff_getElem]
    intro i j hi hj hLt
    rw [List.getElem_mapIdx, List.getElem_mapIdx]
    exact Nat.ne_of_lt hLt
  refine List.pairwise_filterMap.mpr (hIndices.imp ?_)
  rintro c c' hNe h hHit h' hHit' rfl
  have hIndex := (chunkHit_eq_some.mp hHit).2
  rw [(chunkHit_eq_some.mp hHit').2] at hIndex
  exact hNe (congrArg ChunkHit.chunkIndex hIndex).symm

theorem Inv.correct_chunks (h : Inv E w) (query : Text) (limit : ℤ) (minScore : K)
    {listing : List (Text × ℤ × Topic)} (hPerm : listing.Perm w.topics.docs) :
    ∃ hits, (E.searchChunks w query limit minScore (answering listing)).1 = some hits ∧
      Ranks ChunkHit.score (IsChunkHit E w query minScore) limit hits := by
  have hMem : ∀ d, d ∈ (answering listing).topicMap ↔ w.topics.get d.1 = some d.2 :=
    mem_topicMap h.ids rfl hPerm
  unfold Engine.searchChunks
  rw [if_neg (by simp [answering])]
  dsimp only
  split
  next hEmpty =>
    refine ⟨_, rfl, [], List.nodup_nil, List.Pairwise.nil, fun hit => ?_, List.take_nil.symm⟩
    refine iff_of_false List.not_mem_nil ?_
    rintro ⟨id, time, t, i, text, hGet, -⟩
    have hListed := (hMem (id, time, t)).mpr hGet
    rw [hEmpty] at hListed
    cases hListed
  next hNe =>
    have hMirrors := h.mirrored_chunks rfl hNe hMem
    refine ⟨_, rfl, ranks_sortHits ?_ fun hit => ?_⟩
    · refine List.pairwise_flatMap.mpr ⟨fun e hEntry => ?_, ?_⟩
      · obtain ⟨t, -, hMake⟩ := hMirrors.mem_entries_iff.mp hEntry
        obtain ⟨-, hChunks⟩ := chunks_eq_some.mp hMake
        rw [hChunks]
        exact pairwise_chunkHits _
      · refine (List.pairwise_map.mp (Dict.distinct _)).imp ?_
        rintro e e' hNe g hg g' hg' rfl
        obtain ⟨c, -, hHit⟩ := List.mem_filterMap.mp hg
        obtain ⟨c', -, hHit'⟩ := List.mem_filterMap.mp hg'
        have hId := (chunkHit_eq_some.mp hHit).2
        rw [(chunkHit_eq_some.mp hHit').2] at hId
        exact hNe (congrArg ChunkHit.topicId hId).symm
    · rw [List.mem_flatMap]
      constructor
      · rintro ⟨⟨id, time, chunks⟩, hEntry, hHit⟩
        obtain ⟨t, hGet, hMake⟩ := hMirrors.mem_entries_iff.mp hEntry
        obtain ⟨-, rfl⟩ := chunks_eq_some.mp hMake
        rw [topicOf_eq hMem hGet] at hHit
        obtain ⟨i, text, hText, hScore, rfl⟩ := mem_chunkHits.mp hHit
        exact ⟨id, time, t, i, text, hGet, hText, hScore, rfl⟩
      · rintro ⟨id, time, t, i, text, hGet, hText, hScore, rfl⟩
        have hTexts : t.chunkTexts ≠ [] := by
          rintro hEmpty
          rw [hEmpty] at hText
          cases hText
        refine ⟨(id, time, t.chunkTexts.mapIdx E.chunk), hMirrors.mem_entries_iff.mpr
          ⟨t, hGet, chunks_eq_some.mpr ⟨hTexts, rfl⟩⟩, ?_⟩
        rw [topicOf_eq hMem hGet]
        exact mem_chunkHits.mpr ⟨i, text, hText, hScore, rfl⟩

end

/-- By induction on the run: the caches stay valid, and a refresh makes mirrors of them. -/
theorem searches_correct {w₀ w : World K} (hStart : Start w₀)
    (h : Lts.Reach (step E) (Kept E) w₀ w) : Correct E w := by
  have hInv : Inv E w :=
    h.invariant hStart.inv fun _ _ _ _ hInv hKept hStep => hInv.step E hKept hStep
  exact ⟨fun query limit minScore _ hPerm => hInv.correct_topics query limit minScore hPerm,
    fun query limit minScore _ hPerm => hInv.correct_chunks query limit minScore hPerm⟩

/-- All texts have one embedding. -/
def flat : Engine ℚ := ⟨fun _ => [1], id, id⟩

def noTopics : World ℚ := ⟨0, DocIndex.empty, Dict.empty, Dict.empty⟩

def titled (c : Char) : Changes := ⟨some [c], none, none⟩

def listed (c : Char) : List (Text × ℤ × Topic) := [(['a'], 1, ⟨[c], [], []⟩)]

/-- A topic of this title, from the second 1 on, whose chunks have been searched. -/
def searched (c : Char) : World ℚ :=
  ⟨1, DocIndex.empty.put ['a'] (1, ⟨[c], [], []⟩), Dict.empty,
    Dict.empty.set ['a'] (1, [flat.chunk 0 (['[', c, ']', '\n', '\n', c])])⟩

/-- The title of the topic is changed at a time after the search. -/
def retitled (time : ℤ) : List (Act ℚ) :=
  [.upsert ['a'] (titled 'x') 1, .searchChunks ['q'] 5 0 (answering (listed 'x')),
    .upsert ['a'] (titled 'y') time]

theorem run_searched :
    Lts.run (step flat) noTopics (retitled 1).dropLast = some (searched 'x') := rfl

theorem retitled_later_correct :
    Correct flat (topicUpsert (searched 'x') ['a'] (titled 'y') 2) := by
  have hStart : Start noTopics := ⟨by rintro id d ⟨⟩, rfl, rfl⟩
  have hFirst : Kept flat noTopics (.upsert ['a'] (titled 'x') 1) :=
    ⟨by rintro e ⟨⟩, by rintro e ⟨⟩⟩
  have hSecond : Kept flat (searched 'x') (.upsert ['a'] (titled 'y') 2) := by
    refine ⟨by rintro e ⟨⟩, ?_⟩
    rintro e ⟨⟩
    exact ⟨by decide, by rintro ⟨⟩⟩
  have hReach : Lts.Reach (step flat) (Kept flat) noTopics (searched 'x') :=
    .of_run run_searched ⟨hFirst, fun w hw => ⟨trivial, fun _ _ => trivial⟩⟩
  exact searches_correct flat hStart (hReach.tail hSecond rfl)

/-- In the same second the old title is still found. -/
theorem same_second_stale : ∃ w, Lts.run (step flat) noTopics (retitled 1) = some w ∧
    (flat.searchChunks w ['q'] 5 0 (answering (listed 'y'))).1 =
      some [⟨['a'], ['y'], 0, ['[', 'x', ']', '\n', '\n', 'x'], 1⟩] ∧ ¬Correct flat w := by
  have hHits : (flat.searchChunks (topicUpsert (searched 'x') ['a'] (titled 'y') 1) ['q'] 5 0
      (answering (listed 'y'))).1 = some [⟨['a'], ['y'], 0, ['[', 'x', ']', '\n', '\n', 'x'], 1⟩] :=
    by with_unfolding_all decide
  refine ⟨topicUpsert (searched 'x') ['a'] (titled 'y') 1, rfl, hHits, fun h => ?_⟩
  obtain ⟨hits, hSome, ranked, -, -, hMem, hTake⟩ :=
    h.chunks ['q'] 5 0 (listed 'y') (List.Perm.refl _)
  obtain rfl := Option.some_inj.mp (hSome.symm.trans hHits)
  have hFirst : (⟨['a'], ['y'], 0, ['[', 'x', ']', '\n', '\n', 'x'], 1⟩ : ChunkHit ℚ) ∈ ranked :=
    List.mem_of_mem_take (hTake ▸ List.mem_singleton_self _)
  obtain ⟨id, time, t, i, text, hGet, hText, -, hHit⟩ := (hMem _).mp hFirst
  injection hHit with hId _ hIndex hChunk _
  subst hId hIndex hChunk
  cases hGet
  exact absurd hText (by decide)

end OpenSpoke.Chat.TopicSearch
