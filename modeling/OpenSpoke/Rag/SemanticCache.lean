import Mathlib.Algebra.BigOperators.Group.List.Basic
import Mathlib.Algebra.Order.Field.Rat
import Mathlib.Algebra.Order.Ring.Cast
import Mathlib.Logic.Function.Basic
import OpenSpoke.Lib.Best
import OpenSpoke.Lib.Expiring
import OpenSpoke.Lib.Lts
import OpenSpoke.Python.Text

/-!
# The semantic cache

`/cache/store` puts the embedding of a question with its result at the head of a list of
its tenant in Valkey, trims the list and renews its expiry; `/cache/check` looks for the
most similar embedding in the list. Numbers and times are exact.
-/

namespace OpenSpoke.Rag.SemanticCache

open Expiring Lts
open Python (Text)

structure CacheConfig (K : Type*) where
  maxEntries : Int
  cacheTtl : Int
  similarityThreshold : K

structure CacheEntry (K ρ : Type*) where
  embedding : List K
  question : Text
  result : ρ
  storedAt : K
  deriving DecidableEq

inductive CacheAnswer (K ρ : Type*)
  | hit (similarity : K) (entry : CacheEntry K ρ)
  | miss (bestSimilarity : K)
  deriving DecidableEq

structure CacheStoreRequest (K ρ : Type*) where
  embedding : List K
  tenant : Text
  question : Text
  result : ρ

inductive CacheAct (K ρ : Type*)
  | store (request : CacheStoreRequest K ρ) (time : K)
  | check (embedding : List K) (tenant : Text) (time : K)

structure CacheWorld (K ρ : Type*) where
  now : K
  valkey : Text → Option (Shelf (CacheEntry K ρ) K)
  -- all that has been stored, the newest first
  stored : List (Text × CacheEntry K ρ)

def tenantKey (tenant : Text) : Text := "cache:".toList ++ tenant

/-- The elements of a list from 0 to `stop`, which may be counted from the end. -/
def valkeyRange {α : Type*} (stop : Int) (l : List α) : List α :=
  l.take (if stop < 0 then l.length + stop + 1 else stop + 1).toNat

variable {K ρ : Type*} [Field K] [LinearOrder K]

def dot (a b : List K) : K := ((a.zip b).map fun x => x.1 * x.2).sum

section

variable (sqrt : K → K)

def cosineSimilarity (a b : List K) : K :=
  if a.length ≠ b.length then 0
  else if dot a a = 0 ∨ dot b b = 0 then 0
  else dot a b / (sqrt (dot a a) * sqrt (dot b b))

/-- The cosine of two vectors of one dimension, neither of them zero. -/
def HasCosine (a b : List K) (v : K) : Prop :=
  a.length = b.length ∧ dot a a ≠ 0 ∧ dot b b ≠ 0 ∧ v = dot a b / (sqrt (dot a a) * sqrt (dot b b))

namespace CacheConfig

variable (c : CacheConfig K)

/-- `lpush`, `ltrim` and `expire`. -/
def cacheStore (time : K) (entry : CacheEntry K ρ) (s : Option (Shelf (CacheEntry K ρ) K)) :
    Option (Shelf (CacheEntry K ρ) K) :=
  let items := valkeyRange (c.maxEntries - 1) (entry :: live time s)
  if items = [] ∨ c.cacheTtl ≤ 0 then none else some ⟨items, time + c.cacheTtl⟩

def cacheCheck (time : K) (embedding : List K) (s : Option (Shelf (CacheEntry K ρ) K)) :
    CacheAnswer K ρ :=
  let entries := valkeyRange (c.maxEntries - 1) (live time s)
  let best := Best.scan (fun e => cosineSimilarity sqrt embedding e.embedding) (0, none) entries
  match best.2 with
  | some entry => if c.similarityThreshold ≤ best.1 then .hit best.1 entry else .miss best.1
  | none => .miss best.1

def step (w : CacheWorld K ρ) : CacheAct K ρ → Option (CacheWorld K ρ)
  | .store request time =>
    if w.now ≤ time then
      let entry : CacheEntry K ρ := ⟨request.embedding, request.question, request.result, time⟩
      let key := tenantKey request.tenant
      some ⟨time, Function.update w.valkey key (c.cacheStore time entry (w.valkey key)),
        (request.tenant, entry) :: w.stored⟩
    else none
  | .check _ _ time => if w.now ≤ time then some { w with now := time } else none

end CacheConfig

namespace CacheWorld

def init (time : K) : CacheWorld K ρ := ⟨time, fun _ => none, []⟩

variable (c : CacheConfig K) (w : CacheWorld K ρ) (tenant : Text)

def history : List (CacheEntry K ρ) := (w.stored.filter fun e => e.1 = tenant).map Prod.snd

/-- The entries that a check may answer with. -/
def candidates (time : K) : List (CacheEntry K ρ) :=
  window CacheEntry.storedAt c.maxEntries.toNat (c.cacheTtl : K) time (w.history tenant)

/-- The answer is the most similar of the candidates, if one is similar enough. -/
structure Exact (time : K) (embedding : List K) : Prop where
  hit_iff : (∃ v e, c.cacheCheck sqrt time embedding (w.valkey (tenantKey tenant)) = .hit v e) ↔
    ∃ e ∈ w.candidates c tenant time, ∃ v, HasCosine sqrt embedding e.embedding v ∧
      c.similarityThreshold ≤ v
  best : ∀ v e, c.cacheCheck sqrt time embedding (w.valkey (tenantKey tenant)) = .hit v e →
    e ∈ w.candidates c tenant time ∧ HasCosine sqrt embedding e.embedding v ∧
      ∀ e' ∈ w.candidates c tenant time, ∀ v', HasCosine sqrt embedding e'.embedding v' → v' ≤ v

/-- What is read and is no candidate is not similar enough, or no more similar than a
candidate. -/
structure Outdone (time : K) (embedding : List K) : Prop where
  stale : ∀ e ∈ live time (w.valkey (tenantKey tenant)),
    c.maxEntries ≤ 0 ∨ e.storedAt + c.cacheTtl < time →
      ∀ v, HasCosine sqrt embedding e.embedding v → c.similarityThreshold ≤ v →
        ∃ e' ∈ w.candidates c tenant time, ∃ v', HasCosine sqrt embedding e'.embedding v' ∧ v ≤ v'
  -- a list that may not live at all is deleted at once
  kept : c.cacheTtl = 0 → ∀ e ∈ w.candidates c tenant time,
    ∀ v, HasCosine sqrt embedding e.embedding v → v < c.similarityThreshold

end CacheWorld

theorem tenantKey_injective : Function.Injective tenantKey := fun _ _ h => List.append_cancel_left h

theorem valkeyRange_of_pos {α : Type*} {n : Int} (hn : 1 ≤ n) (l : List α) :
    valkeyRange (n - 1) l = l.take n.toNat := by
  rw [valkeyRange, if_neg (by omega), Int.sub_add_cancel]

theorem valkeyRange_zero {α : Type*} (l : List α) : valkeyRange (0 - 1) l = l := by
  rw [valkeyRange, if_pos (by omega), Int.zero_sub, Int.neg_add_cancel_right, Int.toNat_natCast,
    List.take_length]

theorem valkeyRange_of_neg {α : Type*} {n : Int} (hn : n < 0) (a : α) :
    valkeyRange (n - 1) [a] = [] := by
  rw [valkeyRange, if_pos (by omega), List.length_singleton, Int.toNat_of_nonpos (by omega),
    List.take_zero]

section

variable {sqrt} {a b : List K} {v : K}

theorem HasCosine.eq (h : HasCosine sqrt a b v) : cosineSimilarity sqrt a b = v := by
  obtain ⟨hLength, ha, hb, hv⟩ := h
  rw [cosineSimilarity, if_neg (not_not.mpr hLength), if_neg (by simp [ha, hb]), hv]

theorem hasCosine_of_ne (h : cosineSimilarity sqrt a b ≠ 0) :
    HasCosine sqrt a b (cosineSimilarity sqrt a b) := by
  by_cases hLength : a.length = b.length
  · by_cases hNorm : dot a a = 0 ∨ dot b b = 0
    · rw [cosineSimilarity, if_neg (not_not.mpr hLength), if_pos hNorm] at h
      exact absurd rfl h
    · rw [cosineSimilarity, if_neg (not_not.mpr hLength), if_neg hNorm]
      rw [not_or] at hNorm
      exact ⟨hLength, hNorm.1, hNorm.2, rfl⟩
  · rw [cosineSimilarity, if_pos hLength] at h
    exact absurd rfl h

/-- Where only a positive number matters the cosine is what the code computes. -/
theorem forall_hasCosine {floor : K} (hFloor : 0 < floor) (P : K → Prop) :
    (∀ v, HasCosine sqrt a b v → floor ≤ v → P v) ↔
      (floor ≤ cosineSimilarity sqrt a b → P (cosineSimilarity sqrt a b)) := by
  constructor
  · intro h hLe
    exact h _ (hasCosine_of_ne (ne_of_gt (lt_of_lt_of_le hFloor hLe))) hLe
  · rintro h v hv hLe
    rw [hv.eq] at h
    exact h hLe

theorem exists_hasCosine {floor : K} (hFloor : 0 < floor) :
    (∃ v, HasCosine sqrt a b v ∧ floor ≤ v) ↔ floor ≤ cosineSimilarity sqrt a b := by
  constructor
  · rintro ⟨v, hv, hLe⟩
    rwa [hv.eq]
  · intro hLe
    exact ⟨_, hasCosine_of_ne (ne_of_gt (lt_of_lt_of_le hFloor hLe)), hLe⟩

end

section

variable {sqrt} {c : CacheConfig K} {w : CacheWorld K ρ} {tenant : Text} {time : K}
  {embedding : List K}

theorem cacheCheck_eq_hit {s : Option (Shelf (CacheEntry K ρ) K)} {v : K} {e : CacheEntry K ρ} :
    c.cacheCheck sqrt time embedding s = .hit v e ↔
      Best.scan (fun e => cosineSimilarity sqrt embedding e.embedding) (0, none)
          (valkeyRange (c.maxEntries - 1) (live time s)) = (v, some e) ∧
        c.similarityThreshold ≤ v := by
  rw [CacheConfig.cacheCheck]
  generalize Best.scan (fun e : CacheEntry K ρ => cosineSimilarity sqrt embedding e.embedding)
    (0, none) (valkeyRange (c.maxEntries - 1) (live time s)) = best
  obtain ⟨value, entry⟩ := best
  cases entry with
  | none => simp
  | some entry =>
    dsimp only
    split
    · rename_i hLe
      simp only [CacheAnswer.hit.injEq, Prod.mk.injEq, Option.some.injEq]
      exact ⟨fun h => ⟨h, h.1 ▸ hLe⟩, And.left⟩
    · rename_i hLt
      simp only [reduceCtorEq, Prod.mk.injEq, Option.some.injEq, false_iff, not_and]
      rintro ⟨rfl, -⟩
      exact hLt

theorem exact_iff_answers (hThreshold : 0 < c.similarityThreshold) :
    w.Exact sqrt c tenant time embedding ↔
      Best.Answers (fun e => cosineSimilarity sqrt embedding e.embedding) c.similarityThreshold
        (w.candidates c tenant time)
        (Best.scan (fun e => cosineSimilarity sqrt embedding e.embedding) (0, none)
          (valkeyRange (c.maxEntries - 1) (live time (w.valkey (tenantKey tenant))))) := by
  have hCosine : ∀ {v} {e : CacheEntry K ρ}, c.similarityThreshold ≤ v →
      (HasCosine sqrt embedding e.embedding v ↔ cosineSimilarity sqrt embedding e.embedding = v) := by
    intro v e hLe
    refine ⟨HasCosine.eq, fun h => ?_⟩
    rw [← h] at hLe ⊢
    exact hasCosine_of_ne (ne_of_gt (lt_of_lt_of_le hThreshold hLe))
  have hBelow : ∀ {v} {e : CacheEntry K ρ}, c.similarityThreshold ≤ v →
      ((∀ v', HasCosine sqrt embedding e.embedding v' → v' ≤ v) ↔
        cosineSimilarity sqrt embedding e.embedding ≤ v) := by
    intro v e hLe
    constructor
    · intro h
      by_cases hZero : cosineSimilarity sqrt embedding e.embedding = 0
      · exact hZero ▸ le_of_lt (lt_of_lt_of_le hThreshold hLe)
      · exact h _ (hasCosine_of_ne hZero)
    · rintro h v' hv
      exact hv.eq ▸ h
  constructor
  · rintro ⟨hIff, hBest⟩
    constructor
    · simpa only [cacheCheck_eq_hit, exists_hasCosine hThreshold] using hIff
    · intro v e hScan hLe
      obtain ⟨hMem, hValue, hAll⟩ := hBest v e (cacheCheck_eq_hit.mpr ⟨hScan, hLe⟩)
      exact ⟨hMem, hValue.eq, fun e' he => (hBelow hLe).mp (hAll e' he)⟩
  · rintro ⟨hIff, hBest⟩
    constructor
    · simpa only [cacheCheck_eq_hit, exists_hasCosine hThreshold] using hIff
    · intro v e hHit
      obtain ⟨hScan, hLe⟩ := cacheCheck_eq_hit.mp hHit
      obtain ⟨hMem, hValue, hAll⟩ := hBest v e hScan hLe
      exact ⟨hMem, (hCosine hLe).mpr hValue, fun e' he => (hBelow hLe).mpr (hAll e' he)⟩

/-- Where the candidates are read first, only what comes after them can spoil an answer. -/
theorem exact_iff_of_append (hThreshold : 0 < c.similarityThreshold) {others : List (CacheEntry K ρ)}
    (hRead : valkeyRange (c.maxEntries - 1) (live time (w.valkey (tenantKey tenant))) =
      w.candidates c tenant time ++ others) :
    w.Exact sqrt c tenant time embedding ↔
      ∀ e ∈ others, ∀ v, HasCosine sqrt embedding e.embedding v → c.similarityThreshold ≤ v →
        ∃ e' ∈ w.candidates c tenant time, ∃ v', HasCosine sqrt embedding e'.embedding v' ∧ v ≤ v' := by
  rw [exact_iff_answers hThreshold, hRead, Best.answers_append_iff hThreshold]
  refine forall_congr' fun e => imp_congr_right fun _ => ?_
  rw [forall_hasCosine hThreshold]
  refine imp_congr_right fun hLe => exists_congr fun e' => and_congr_right fun _ => ?_
  rw [exists_hasCosine (lt_of_lt_of_le hThreshold hLe)]

theorem exact_iff_of_nil (hThreshold : 0 < c.similarityThreshold)
    (hRead : live time (w.valkey (tenantKey tenant)) = []) :
    w.Exact sqrt c tenant time embedding ↔ ∀ e ∈ w.candidates c tenant time,
      ∀ v, HasCosine sqrt embedding e.embedding v → v < c.similarityThreshold := by
  have hNothing : valkeyRange (c.maxEntries - 1) (live time (w.valkey (tenantKey tenant))) = [] := by
    rw [hRead, valkeyRange, List.take_nil]
  rw [exact_iff_answers hThreshold, hNothing]
  have hNone : ∀ e : CacheEntry K ρ,
      (∀ v, HasCosine sqrt embedding e.embedding v → v < c.similarityThreshold) ↔
        ¬c.similarityThreshold ≤ cosineSimilarity sqrt embedding e.embedding := by
    intro e
    rw [← exists_hasCosine hThreshold]
    simp only [not_exists, not_and, not_le]
  simp only [hNone]
  constructor
  · rintro ⟨hIff, -⟩ e he hLe
    obtain ⟨v, a, hSome, -⟩ := hIff.mpr ⟨e, he, hLe⟩
    simp [Best.scan] at hSome
  · intro hAll
    constructor
    · refine iff_of_false ?_ fun ⟨e, he, hLe⟩ => hAll e he hLe
      rintro ⟨v, a, hSome, -⟩
      simp [Best.scan] at hSome
    · intro v a hSome
      simp [Best.scan] at hSome

end

/-- What holds of every list in every run. -/
structure Shelved (c : CacheConfig K) (w : CacheWorld K ρ) : Prop where
  past : ∀ tenant, ∀ e ∈ w.history tenant, e.storedAt ≤ w.now
  follows : 1 ≤ c.maxEntries → 1 ≤ c.cacheTtl → ∀ tenant,
    Follows CacheEntry.storedAt c.maxEntries.toNat (c.cacheTtl : K) w.now (w.history tenant)
      (w.valkey (tenantKey tenant))
  absent : c.maxEntries < 0 ∨ c.cacheTtl ≤ 0 → ∀ tenant, w.valkey (tenantKey tenant) = none

section

variable {c : CacheConfig K} {w w' : CacheWorld K ρ} {time : K}

theorem cacheStore_of_pos (hMax : 1 ≤ c.maxEntries) (hTtl : 1 ≤ c.cacheTtl) (entry : CacheEntry K ρ)
    (s : Option (Shelf (CacheEntry K ρ) K)) :
    c.cacheStore time entry s =
      some (Expiring.push c.maxEntries.toNat (c.cacheTtl : K) time entry s) := by
  rw [CacheConfig.cacheStore, valkeyRange_of_pos hMax, if_neg, Expiring.push]
  rw [List.take_eq_nil_iff]
  simp
  omega

theorem cacheStore_of_absent (h : c.maxEntries < 0 ∨ c.cacheTtl ≤ 0) (entry : CacheEntry K ρ) :
    c.cacheStore time entry none = none := by
  rw [CacheConfig.cacheStore, if_pos]
  obtain hMax | hTtl := h
  · exact .inl (valkeyRange_of_neg hMax entry)
  · exact .inr hTtl

omit [Field K] [LinearOrder K] in
theorem history_store (request : CacheStoreRequest K ρ) (entry : CacheEntry K ρ) (valkey)
    (tenant : Text) :
    CacheWorld.history ⟨time, valkey, (request.tenant, entry) :: w.stored⟩ tenant =
      if request.tenant = tenant then entry :: w.history tenant else w.history tenant := by
  rw [CacheWorld.history]
  split
  · rename_i h
    rw [List.filter_cons_of_pos (by simpa using h), List.map_cons, CacheWorld.history]
  · rename_i h
    rw [List.filter_cons_of_neg (by simpa using h), CacheWorld.history]

theorem shelved_init : Shelved c (CacheWorld.init time : CacheWorld K ρ) := by
  constructor
  · intro tenant e he
    exact absurd he List.not_mem_nil
  · intro _ _ tenant
    exact Follows.nil
  · intro _ tenant
    rfl

variable [IsStrictOrderedRing K]

theorem Shelved.step (h : Shelved c w) {act : CacheAct K ρ} (hStep : c.step w act = some w') :
    Shelved c w' := by
  cases act with
  | check embedding tenant time =>
    rw [CacheConfig.step] at hStep
    split at hStep
    · rename_i hNow
      obtain rfl := Option.some.inj hStep
      constructor
      · exact fun tenant e he => (h.past tenant e he).trans hNow
      · exact fun hMax hTtl tenant => (h.follows hMax hTtl tenant).later hNow
      · exact h.absent
    · simp at hStep
  | store request time =>
    rw [CacheConfig.step] at hStep
    split at hStep
    · rename_i hNow
      obtain rfl := Option.some.inj hStep
      constructor
      · intro tenant e he
        rw [history_store] at he
        split at he
        · obtain rfl | he := List.mem_cons.mp he
          · exact le_refl time
          · exact (h.past tenant e he).trans hNow
        · exact (h.past tenant e he).trans hNow
      · intro hMax hTtl tenant
        rw [history_store]
        dsimp only
        split
        · rename_i hSame
          subst hSame
          rw [Function.update_self, cacheStore_of_pos hMax hTtl]
          exact (h.follows hMax hTtl _).push (by omega) hNow rfl
        · rename_i hOther
          rw [Function.update_of_ne (fun hKey => hOther (tenantKey_injective hKey).symm)]
          exact (h.follows hMax hTtl tenant).later hNow
      · intro hNone tenant
        dsimp only
        by_cases hSame : tenant = request.tenant
        · rw [hSame, Function.update_self, h.absent hNone, cacheStore_of_absent hNone]
        · rw [Function.update_of_ne (fun hKey => hSame (tenantKey_injective hKey)), h.absent hNone]
    · simp at hStep

theorem shelved_of_reachable {start : K}
    (h : Reachable c.step (CacheWorld.init start : CacheWorld K ρ) w) : Shelved c w :=
  h.invariant shelved_init fun _ _ _ _ hShelved _ hStep => hShelved.step hStep

variable {sqrt} {tenant : Text} {embedding : List K}

theorem Shelved.candidates_eq_nil (h : Shelved c w) (hTime : w.now ≤ time)
    (hNone : c.maxEntries < 0 ∨ c.cacheTtl < 0) : w.candidates c tenant time = [] := by
  rw [CacheWorld.candidates, window]
  obtain hMax | hTtl := hNone
  · rw [Int.toNat_of_nonpos (by omega), List.take_zero]
  · have hFilter : (w.history tenant).filter
        (fun e => Fresh CacheEntry.storedAt (c.cacheTtl : K) time e) = [] := by
      rw [List.filter_eq_nil_iff]
      intro e he hFresh
      have hFresh : time ≤ e.storedAt + (c.cacheTtl : K) := of_decide_eq_true hFresh
      have hPast := (h.past tenant e he).trans hTime
      have hLt : e.storedAt + (c.cacheTtl : K) < e.storedAt :=
        add_lt_of_neg_right e.storedAt (Int.cast_lt_zero.mpr hTtl)
      exact absurd (hFresh.trans_lt hLt) (not_lt.mpr hPast)
    rw [hFilter, List.take_nil]

theorem Shelved.exact_iff (h : Shelved c w) (hTime : w.now ≤ time)
    (hThreshold : 0 < c.similarityThreshold) :
    w.Exact sqrt c tenant time embedding ↔ w.Outdone sqrt c tenant time embedding := by
  by_cases hAbsent : c.maxEntries < 0 ∨ c.cacheTtl ≤ 0
  · have hRead : live time (w.valkey (tenantKey tenant)) = [] := by
      rw [h.absent hAbsent tenant]
      rfl
    rw [exact_iff_of_nil hThreshold hRead]
    constructor
    · intro hNone
      constructor
      · intro e he
        rw [hRead] at he
        exact absurd he List.not_mem_nil
      · exact fun _ => hNone
    · rintro ⟨-, hKept⟩ e he
      by_cases hTtl : c.cacheTtl = 0
      · exact hKept hTtl e he
      · rw [h.candidates_eq_nil hTime (hAbsent.imp_right fun hLe => by omega)] at he
        exact absurd he List.not_mem_nil
  · rw [not_or, not_lt, not_le] at hAbsent
    obtain ⟨hMax, hTtl⟩ := hAbsent
    obtain hZero | hMax : c.maxEntries = 0 ∨ 1 ≤ c.maxEntries := by omega
    · have hNone : w.candidates c tenant time = [] := by
        rw [CacheWorld.candidates, window, hZero, Int.toNat_zero, List.take_zero]
      have hRead : valkeyRange (c.maxEntries - 1) (live time (w.valkey (tenantKey tenant))) =
          w.candidates c tenant time ++ live time (w.valkey (tenantKey tenant)) := by
        rw [hZero, valkeyRange_zero, hNone, List.nil_append]
      rw [exact_iff_of_append hThreshold hRead]
      constructor
      · intro hAll
        exact ⟨fun e he _ => hAll e he, fun hEnd => absurd hEnd (by omega)⟩
      · rintro ⟨hStale, -⟩ e he
        exact hStale e he (.inl (by omega))
    · have hFollows := (h.follows hMax (by omega) tenant).later hTime
      have hRead : valkeyRange (c.maxEntries - 1) (live time (w.valkey (tenantKey tenant))) =
          w.candidates c tenant time ++
            (live time (w.valkey (tenantKey tenant))).filter fun e =>
              ¬Fresh CacheEntry.storedAt (c.cacheTtl : K) time e := by
        rw [valkeyRange_of_pos hMax, List.take_of_length_le hFollows.length_live]
        exact hFollows.live_eq
      rw [exact_iff_of_append hThreshold hRead]
      constructor
      · intro hAll
        constructor
        · intro e he hOld
          refine hAll e (List.mem_filter.mpr ⟨he, ?_⟩)
          obtain hOld | hOld := hOld
          · omega
          · simpa [Fresh] using hOld
        · exact fun hEnd => absurd hEnd (by omega)
      · rintro ⟨hStale, -⟩ e he
        obtain ⟨hMem, hOld⟩ := List.mem_filter.mp he
        exact hStale e hMem (.inr (by simpa [Fresh] using hOld))

/-- In every run an answer is right exactly if what is too old in the list is outdone. -/
theorem cache_exact_iff {start : K}
    (h : Reachable c.step (CacheWorld.init start : CacheWorld K ρ) w) (hTime : w.now ≤ time)
    (hThreshold : 0 < c.similarityThreshold) :
    w.Exact sqrt c tenant time embedding ↔ w.Outdone sqrt c tenant time embedding :=
  (shelved_of_reachable h).exact_iff hTime hThreshold

end

end

def shortLived : CacheConfig ℚ := ⟨500, 10, 9 / 10⟩

/-- Two questions eight seconds apart. -/
def twoStores : List (CacheAct ℚ Unit) :=
  [.store ⟨[1, 0], ['t'], ['p'], ()⟩ 0, .store ⟨[0, 1], ['t'], ['q'], ()⟩ 8]

def afterTwoStores : CacheWorld ℚ Unit :=
  (run shortLived.step (.init 0) twoStores).getD (.init 0)

theorem run_twoStores : run shortLived.step (.init 0) twoStores = some afterTwoStores := rfl

/-- While both are young the answer is right. -/
theorem young_exact : afterTwoStores.Exact id shortLived ['t'] 9 [1, 0] := by
  have hReach : Reachable shortLived.step (.init 0) afterTwoStores :=
    .of_run run_twoStores (.of_forall fun _ _ _ => trivial)
  have hYoung : ∀ e ∈ live 9 (afterTwoStores.valkey (tenantKey ['t'])),
      ¬(shortLived.maxEntries ≤ 0 ∨ e.storedAt + shortLived.cacheTtl < 9) := by with_unfolding_all decide
  have hOutdone : afterTwoStores.Outdone id shortLived ['t'] 9 [1, 0] := by
    constructor
    · intro e he hOld
      exact absurd hOld (hYoung e he)
    · intro hZero
      exact absurd hZero (by decide)
  exact (cache_exact_iff hReach (by with_unfolding_all decide) (by decide +kernel)).mpr hOutdone

/-- The second store keeps the first entry alive. -/
theorem stale_hit : ∃ w, run shortLived.step (.init 0) twoStores = some w ∧
    (∃ e, shortLived.cacheCheck id 15 [1, 0] (w.valkey (tenantKey ['t'])) = .hit 1 e ∧
      e.storedAt + shortLived.cacheTtl < 15) ∧
    ¬w.Exact id shortLived ['t'] 15 [1, 0] := by
  have hHit : shortLived.cacheCheck id 15 [1, 0] (afterTwoStores.valkey (tenantKey ['t'])) =
      .hit 1 ⟨[1, 0], ['p'], (), 0⟩ := by with_unfolding_all decide
  refine ⟨afterTwoStores, run_twoStores, ⟨_, hHit, by with_unfolding_all decide⟩, fun hExact => ?_⟩
  obtain ⟨hMem, -⟩ := hExact.best _ _ hHit
  exact absurd hMem (by with_unfolding_all decide)

end OpenSpoke.Rag.SemanticCache
