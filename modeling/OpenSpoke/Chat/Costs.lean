import Mathlib.Algebra.BigOperators.Group.List.Basic
import Mathlib.Algebra.Order.Ring.Rat
import Mathlib.Tactic.Linarith
import Mathlib.Tactic.Ring
import OpenSpoke.Chat.Transcript

/-!
# Two records of the cost

The usage record has a document for each call, priced as Sonnet; the message has the totals of
the turn, priced by the model.
-/

namespace OpenSpoke.Chat

/-! ## Prices -/

theorem Prices.cost_zero (p : Prices) : p.cost 0 = 0 := by
  have hZero : (0 : Tokens) = ⟨0, 0, 0, 0⟩ := rfl
  rw [hZero, Prices.cost]
  simp

theorem Prices.cost_add (p : Prices) (a b : Tokens) : p.cost (a + b) = p.cost a + p.cost b := by
  have hAdd : a + b =
      ⟨a.input + b.input, a.output + b.output, a.cacheW + b.cacheW, a.cacheR + b.cacheR⟩ := rfl
  rw [hAdd, Prices.cost, Prices.cost, Prices.cost]
  push_cast
  ring

theorem Prices.sum_cost (p : Prices) (ts : List Tokens) : (ts.map p.cost).sum = p.cost ts.sum := by
  induction ts with
  | nil => exact p.cost_zero.symm
  | cons t ts ih => rw [List.map_cons, List.sum_cons, List.sum_cons, ih, p.cost_add]

structure Prices.Below (p q : Prices) : Prop where
  input : p.input < q.input
  output : p.output < q.output
  cacheW : p.cacheW < q.cacheW
  cacheR : p.cacheR < q.cacheR

/-- Where every price is another, only no tokens cost the same. -/
theorem Prices.Below.cost_eq_iff {p q : Prices} (h : p.Below q) (t : Tokens) :
    p.cost t = q.cost t ↔ t = 0 := by
  constructor
  · intro hEq
    have hPart : ∀ (n : ℕ) {x y : ℚ}, x < y → 0 ≤ n * (y - x) :=
      fun n x y hLt => mul_nonneg (Nat.cast_nonneg n) (by linarith)
    have hNone : ∀ {n : ℕ} {x y : ℚ}, x < y → n * (y - x) ≤ 0 → n = 0 := by
      intro n x y hLt hLe
      have hMul := le_antisymm hLe (hPart n hLt)
      obtain hZero | hZero := mul_eq_zero.mp hMul
      · exact Nat.cast_eq_zero.mp hZero
      · linarith
    have hSum : t.input * (q.input - p.input) + t.output * (q.output - p.output) +
        t.cacheW * (q.cacheW - p.cacheW) + t.cacheR * (q.cacheR - p.cacheR) = 0 := by
      rw [Prices.cost, Prices.cost] at hEq
      linarith
    have hInput := hPart t.input h.input
    have hOutput := hPart t.output h.output
    have hCacheW := hPart t.cacheW h.cacheW
    have hCacheR := hPart t.cacheR h.cacheR
    apply Tokens.ext
    · exact hNone h.input (by linarith)
    · exact hNone h.output (by linarith)
    · exact hNone h.cacheW (by linarith)
    · exact hNone h.cacheR (by linarith)
  · rintro rfl
    rw [p.cost_zero, q.cost_zero]

theorem haiku_below : Prices.haiku.Below .sonnet := by
  constructor <;> norm_num [Prices.haiku, Prices.sonnet]

theorem sonnet_below : Prices.sonnet.Below .opus := by
  constructor <;> norm_num [Prices.opus, Prices.sonnet]

/-- The model is priced as in the usage record. -/
def PricedAsSonnet (model : Python.Text) : Prop :=
  ¬"opus".toList <:+: lower model ∧ ¬"haiku".toList <:+: lower model

theorem cost_agrees_iff {model : Python.Text} (hModel : isOllamaModel model = false) (t : Tokens) :
    usageCostUsd t = computeCostUsd model t ↔ PricedAsSonnet model ∨ t = 0 := by
  rw [usageCostUsd, computeCostUsd, hModel, if_neg Bool.false_ne_true, chatPrices, PricedAsSonnet]
  split
  next hOpus =>
    rw [sonnet_below.cost_eq_iff]
    exact ⟨.inr, fun h => h.resolve_left fun hNone => hNone.1 hOpus⟩
  next hOpus =>
    split
    next hHaiku =>
      rw [eq_comm, haiku_below.cost_eq_iff]
      exact ⟨.inr, fun h => h.resolve_left fun hNone => hNone.2 hHaiku⟩
    next hHaiku => exact ⟨fun _ => .inl ⟨hOpus, hHaiku⟩, fun _ => rfl⟩

namespace Turn

open Window (Context)

variable {ι μ : Type*} {env : Env ι} {ctx : Context μ}

/-! ## The documents of a turn -/

/-- The usage documents of the first calls. -/
def Env.usageDocs (env : Env ι) (ctx : Context μ) (n : ℕ) : List UsageDoc :=
  ((List.range n).filter env.recorded).map fun k => usageDoc ctx (env.tokens k)

theorem usageDocs_succ {k : ℕ} {final : Final ι} (h : Answers env k final) :
    env.usageDocs ctx (k + 1) = env.usageDocs ctx k ++
      (if env.recorded k then [usageDoc ctx final.usage.tokens] else []) := by
  have hTokens : env.tokens k = final.usage.tokens := by rw [Env.tokens, h.given]
  rw [Env.usageDocs, List.range_succ, List.filter_append, List.map_append, List.filter_singleton]
  cases env.recorded k with
  | false => rfl
  | true => exact congrArg (env.usageDocs ctx k ++ [usageDoc ctx ·]) hTokens

/-- The calls of a turn that ends with an answer, in its two records. -/
structure Counts (env : Env ι) (ctx : Context μ) (s : St ι) : Prop where
  totals : s.totals = env.total s.requests.length
  docs : s.usageDocs = env.usageDocs ctx s.requests.length
  made : ∀ k, k < s.requests.length ↔ k < chatMaxToolIterations ∧ env.Reaches k

theorem GoesOn.not_stopsAt {k : ℕ} {final other : Final ι} (h : GoesOn env k final) :
    ¬StopsAt env k other := by
  intro hStops
  obtain rfl := Except.ok.inj (h.given.symm.trans hStops.given)
  exact hStops.stops.elim h.cap fun hNot => hNot h.asks

theorem loop_counts (hReady : env.setup = .ready) (hStart : env.startEncodes = true) :
    ∀ hit, (loop env ctx).hit = some hit → Counts env ctx (loop env ctx).state := by
  unfold loop
  rw [hReady]
  refine Rounds.loop_rule (fun k s => Shape env k s ∧ s.usageDocs = env.usageDocs ctx k)
    (fun x : Exit ι => ∀ hit, x.hit = some hit → Counts env ctx x.state) ?_ ?_ ?_
    (Nat.zero_add chatMaxToolIterations) ⟨shape_start env ctx, rfl⟩
  · rintro k s t - ⟨hShape, hDocs⟩ hRound
    obtain ⟨final, hGoes, hNext⟩ | ⟨out, -, -, hOut⟩ := round_cases ctx hShape.totals
    · rw [hRound] at hNext
      obtain rfl := Sum.inl.inj hNext
      refine ⟨hShape.next hGoes, ?_⟩
      rw [usageDocs_succ hGoes.toAnswers, ← hDocs]
      rfl
    · rw [hRound] at hOut
      cases hOut
  · rintro k s out hk ⟨hShape, hDocs⟩ hRound hit hHit
    obtain ⟨final, -, hNext⟩ | ⟨out', -, hEnds, hOut⟩ := round_cases ctx hShape.totals
    · rw [hRound] at hNext
      cases hNext
    · rw [hRound] at hOut
      obtain rfl := Sum.inr.inj hOut
      obtain ⟨final, hStops, hState⟩ := hEnds.hit hHit
      obtain ⟨hTotals, hCount, -⟩ := hShape.counted ctx hStops.toAnswers
      rw [hState]
      refine ⟨hCount ▸ hTotals, ?_, fun j => ⟨fun hj => ?_, fun ⟨_, hReaches⟩ => ?_⟩⟩
      · rw [hCount, usageDocs_succ hStops.toAnswers, ← hDocs]
        rfl
      · rw [hCount] at hj
        exact ⟨by omega, hReady, hStart, fun i hi => hShape.goes i (by omega)⟩
      · rw [hCount]
        by_contra hFar
        obtain ⟨other, hGoes⟩ := hReaches.rounds k (by omega)
        exact hGoes.not_stopsAt hStops
  · rintro s ⟨hShape, hDocs⟩ hit -
    refine ⟨hShape.count ▸ hShape.totals, hShape.count ▸ hDocs, fun j => ⟨fun hj => ?_, fun hj => ?_⟩⟩
    · change j < s.requests.length at hj
      rw [hShape.count] at hj
      exact ⟨hj, hReady, hStart, fun i hi => hShape.goes i (by omega)⟩
    · change j < s.requests.length
      rw [hShape.count]
      exact hj.1

/-! ## Agreement -/

structure CostsAgree (env : Env ι) (s : St ι) (m : Saved ι) : Prop where
  cost : (s.usageDocs.map UsageDoc.costUsd).sum = m.costUsd
  tokens : (s.usageDocs.map UsageDoc.tokens).sum = m.tokens
  calls : s.usageDocs.map UsageDoc.tokens = (List.range s.requests.length).map env.tokens

theorem usageDocs_tokens_iff (env : Env ι) (ctx : Context μ) (n : ℕ) :
    (env.usageDocs ctx n).map UsageDoc.tokens = (List.range n).map env.tokens ↔
      ∀ k < n, env.recorded k = true := by
  have hAll : (∀ k ∈ List.range n, env.recorded k = true) ↔ ∀ k < n, env.recorded k = true := by
    simp only [List.mem_range]
  rw [Env.usageDocs, List.map_map, ← hAll]
  constructor
  · intro h
    have hLength := congrArg List.length h
    rw [List.length_map, List.length_map] at hLength
    exact List.length_filter_eq_length_iff.mp hLength
  · intro h
    rw [List.filter_eq_self.mpr h]
    rfl

theorem usageDocs_cost (n : ℕ) : ((env.usageDocs ctx n).map UsageDoc.costUsd).sum =
    usageCostUsd ((env.usageDocs ctx n).map UsageDoc.tokens).sum := by
  have hPriced : (env.usageDocs ctx n).map UsageDoc.costUsd =
      ((env.usageDocs ctx n).map UsageDoc.tokens).map usageCostUsd := by
    rw [Env.usageDocs, List.map_map, List.map_map, List.map_map]
    rfl
  rw [hPriced]
  exact Prices.sum_cost .sonnet _

theorem Tokens.sum_eq_zero {ts : List Tokens} : ts.sum = 0 ↔ ∀ t ∈ ts, t = 0 := by
  induction ts with
  | nil => simp
  | cons t ts ih =>
    rw [List.sum_cons, List.forall_mem_cons, ← ih]
    constructor
    · intro h
      have hInput := congrArg Tokens.input h
      have hOutput := congrArg Tokens.output h
      have hCacheW := congrArg Tokens.cacheW h
      have hCacheR := congrArg Tokens.cacheR h
      have hZero := Nat.add_eq_zero_iff.mp hInput
      have hZero' := Nat.add_eq_zero_iff.mp hOutput
      have hZeroW := Nat.add_eq_zero_iff.mp hCacheW
      have hZeroR := Nat.add_eq_zero_iff.mp hCacheR
      exact ⟨Tokens.ext hZero.1 hZero'.1 hZeroW.1 hZeroR.1,
        Tokens.ext hZero.2 hZero'.2 hZeroW.2 hZeroR.2⟩
    · rintro ⟨rfl, hRest⟩
      rw [hRest]
      rfl

theorem finish_saved {x : Exit ι} {m : Saved ι} (h : (finish env ctx x).stored = [m]) :
    (∃ hit, x.hit = some hit) ∧ m.tokens = x.state.totals ∧
      m.costUsd = computeCostUsd ctx.model x.state.totals ∧
      (finish env ctx x).state.usageDocs = x.state.usageDocs := by
  have hAll : ∀ (s : St ι) (hit : Option Limit) (stop : Option Python.Text),
      (finalizeSend env ctx s hit stop).stored = [m] → m.tokens = s.totals ∧
        m.costUsd = computeCostUsd ctx.model s.totals := by
    intro s hit stop hStored
    rw [finalizeSend] at hStored
    dsimp only at hStored
    split at hStored
    · cases hStored
    · obtain rfl := List.singleton_inj.mp hStored
      exact ⟨rfl, rfl⟩
  cases x with
  | finished s stop =>
    obtain ⟨hTokens, hCost⟩ := hAll s _ _ h
    exact ⟨⟨_, rfl⟩, hTokens, hCost, rfl⟩
  | capped s =>
    obtain ⟨hTokens, hCost⟩ := hAll s _ _ h
    exact ⟨⟨_, rfl⟩, hTokens, hCost, rfl⟩
  | exhausted s =>
    obtain ⟨hTokens, hCost⟩ := hAll s _ _ h
    exact ⟨⟨_, rfl⟩, hTokens, hCost, rfl⟩
  | failed s => cases h
  | broken s => cases h

theorem run_counts {m : Saved ι} (h : (run env ctx).stored = [m]) :
    Counts env ctx (loop env ctx).state ∧ (run env ctx).state.requests = (loop env ctx).state.requests ∧
      (run env ctx).state.usageDocs = (loop env ctx).state.usageDocs ∧
      m.tokens = (loop env ctx).state.totals ∧
      m.costUsd = computeCostUsd ctx.model (loop env ctx).state.totals := by
  cases hStart : env.startEncodes with
  | false =>
    have hRun : run env ctx = ⟨{ start ctx with events := [] }, [], .broken⟩ :=
      if_neg (by rw [hStart]; decide)
    rw [hRun] at h
    cases h
  | true =>
    have hRun : run env ctx = finish env ctx (loop env ctx) := if_pos hStart
    rw [hRun] at h ⊢
    obtain ⟨⟨hit, hHit⟩, hTokens, hCost, hDocs⟩ := finish_saved h
    have hReady : env.setup = .ready := by
      by_contra hNot
      rw [(loop_unready ctx hNot).2] at hHit
      cases hHit
    exact ⟨loop_counts hReady hStart hit hHit, finish_requests env ctx _, hDocs, hTokens, hCost⟩

/-- In a turn that stores its answer the two records agree, if and only if the usage of every
call is recorded, and the model is priced as in the record or there is nothing to pay. -/
theorem costs_agree_iff {ι μ : Type*} (env : Env ι) (ctx : Context μ)
    (hModel : isOllamaModel ctx.model = false) {m : Saved ι} (hStored : (run env ctx).stored = [m]) :
    CostsAgree env (run env ctx).state m ↔
      (∀ k < chatMaxToolIterations, env.Reaches k → env.recorded k = true) ∧
        (PricedAsSonnet ctx.model ∨
          ∀ k < chatMaxToolIterations, env.Reaches k → env.tokens k = 0) := by
  obtain ⟨hCounts, hRequests, hDocs, hTokens, hCost⟩ := run_counts hStored
  generalize hn : (loop env ctx).state.requests.length = n at *
  have hMade : ∀ p : ℕ → Prop, (∀ k < n, p k) ↔ ∀ k < chatMaxToolIterations, env.Reaches k → p k := by
    intro p
    have hIff := hCounts.made
    rw [hn] at hIff
    exact ⟨fun h k hk hReaches => h k ((hIff k).mpr ⟨hk, hReaches⟩),
      fun h k hk => h k ((hIff k).mp hk).1 ((hIff k).mp hk).2⟩
  have hTotals := hCounts.totals
  have hAll := hCounts.docs
  rw [hn] at hTotals hAll
  rw [← hMade fun k => env.recorded k = true, ← hMade fun k => env.tokens k = 0]
  have hNothing : (∀ k < n, env.tokens k = 0) ↔ env.total n = 0 := by
    rw [Env.total, Tokens.sum_eq_zero, List.forall_mem_map]
    simp only [List.mem_range]
  rw [hNothing]
  constructor
  · rintro ⟨hSum, -, hCalls⟩
    rw [hDocs, hRequests, hAll, hn] at hCalls
    rw [hDocs, hAll, usageDocs_cost, hCalls, hCost, hTotals] at hSum
    exact ⟨(usageDocs_tokens_iff env ctx n).mp hCalls, (cost_agrees_iff hModel _).mp hSum⟩
  · rintro ⟨hRecorded, hPriced⟩
    have hCalls := (usageDocs_tokens_iff env ctx n).mpr hRecorded
    refine ⟨?_, ?_, ?_⟩
    · rw [hDocs, hAll, usageDocs_cost, hCalls, hCost, hTotals]
      exact (cost_agrees_iff hModel _).mpr hPriced
    · rw [hDocs, hAll, hCalls, hTokens, hTotals, Env.total]
    · rw [hDocs, hAll, hCalls, hRequests, hn]

theorem costs_agree_one_call :
    let env : Env Unit := ⟨.ready, true, fun _ => true, fun _ => ([], []),
      fun _ => ⟨[], .ok ⟨[], some "end_turn".toList, ⟨some 2, some 1, none, none⟩⟩⟩,
      fun _ _ => .text [], fun _ => true, .answered⟩
    let ctx : Context Unit :=
      ⟨['o'], ['t'], ['q'], Window.defaultModel, [], 0, [⟨.user, ['q']⟩], [], []⟩
    ∃ m, (run env ctx).stored = [m] ∧ (CostsAgree env (run env ctx).state m ↔
      (∀ k < chatMaxToolIterations, env.Reaches k → env.recorded k = true) ∧
        (PricedAsSonnet ctx.model ∨
          ∀ k < chatMaxToolIterations, env.Reaches k → env.tokens k = 0)) :=
  ⟨_, rfl, costs_agree_iff _ _ (by decide) rfl⟩

/-- One call of Opus with one token of input. -/
theorem opus_recorded_as_sonnet :
    let env : Env Unit := ⟨.ready, true, fun _ => true, fun _ => ([], []),
      fun _ => ⟨[], .ok ⟨[], some "end_turn".toList, ⟨some 1, none, none, none⟩⟩⟩,
      fun _ _ => .text [], fun _ => true, .answered⟩
    let ctx : Context Unit :=
      ⟨['o'], ['t'], ['q'], "claude-opus-4-7".toList, [], 0, [⟨.user, ['q']⟩], [], []⟩
    isOllamaModel ctx.model = false ∧
      (run env ctx).state.usageDocs.map UsageDoc.costUsd = [3 / 1000000] ∧
      (run env ctx).stored.map Saved.costUsd = [15 / 1000000] ∧
      ∀ m ∈ (run env ctx).stored, ¬CostsAgree env (run env ctx).state m := by
  intro env ctx
  have hDocs : (run env ctx).state.usageDocs.map UsageDoc.costUsd = [3 / 1000000] := by
    with_unfolding_all decide
  have hStored : (run env ctx).stored.map Saved.costUsd = [15 / 1000000] := by
    with_unfolding_all decide
  refine ⟨by decide, hDocs, hStored, fun m hm hAgree => ?_⟩
  have hCost : m.costUsd = 15 / 1000000 := by
    have hMem := List.mem_map_of_mem (f := Saved.costUsd) hm
    rw [hStored] at hMem
    exact List.mem_singleton.mp hMem
  have hSum := hAgree.cost
  rw [hDocs, hCost] at hSum
  norm_num at hSum

end Turn

end OpenSpoke.Chat
