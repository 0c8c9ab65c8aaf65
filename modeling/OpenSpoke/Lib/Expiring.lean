import Mathlib.Algebra.Order.Group.Defs
import Mathlib.Data.List.Sort

/-!
# Capped lists with one expiry

A list keeps the newest items, so many at most, and the whole list goes when nothing has
come for some time. An item may so be much older than that time.
-/

namespace Expiring

variable {α T : Type*} [AddCommGroup T] [LinearOrder T]

structure Shelf (α T : Type*) where
  -- the newest first
  items : List α
  expiry : T

def live (now : T) : Option (Shelf α T) → List α
  | none => []
  | some s => if now ≤ s.expiry then s.items else []

def push (cap : Nat) (ttl now : T) (a : α) (s : Option (Shelf α T)) : Shelf α T :=
  ⟨(a :: live now s).take cap, now + ttl⟩

variable (stamp : α → T)

def Fresh (ttl now : T) (a : α) : Prop := now ≤ stamp a + ttl

instance (ttl now : T) : DecidablePred (Fresh stamp ttl now) := fun a =>
  inferInstanceAs (Decidable (now ≤ stamp a + ttl))

/-- The newest of the items that are not too old. -/
def window (cap : Nat) (ttl now : T) (history : List α) : List α :=
  (history.filter fun a => Fresh stamp ttl now a).take cap

/-- A shelf after all that has been pushed, the newest first. -/
structure Follows (cap : Nat) (ttl now : T) (history : List α) (s : Option (Shelf α T)) : Prop where
  sorted : history.Pairwise fun a b => stamp b ≤ stamp a
  past : ∀ a ∈ history, stamp a ≤ now
  absent : s = none → history = []
  expiry : ∀ k, s = some k → ∀ a ∈ history.head?, k.expiry = stamp a + ttl
  -- what is not there is too old, or there is no room for it
  items : ∀ k, s = some k → ∃ rest, history = k.items ++ rest ∧ k.items.length ≤ cap ∧
    k.items ≠ [] ∧ (k.items.length = cap ∨ ∀ a ∈ rest, ¬Fresh stamp ttl now a)

variable {stamp} {cap : Nat} {ttl now now' : T} {history : List α} {s : Option (Shelf α T)}

theorem Fresh.mono {a : α} (h : Fresh stamp ttl now' a) (hNow : now ≤ now') :
    Fresh stamp ttl now a := hNow.trans h

theorem Follows.nil : Follows stamp cap ttl now ([] : List α) none := by
  constructor
  · exact List.Pairwise.nil
  · simp
  · simp
  · simp
  · simp

theorem Follows.later (h : Follows stamp cap ttl now history s) (hNow : now ≤ now') :
    Follows stamp cap ttl now' history s := by
  refine ⟨h.sorted, fun a ha => (h.past a ha).trans hNow, h.absent, h.expiry, fun k hk => ?_⟩
  obtain ⟨rest, hHistory, hCap, hNe, hRest⟩ := h.items k hk
  exact ⟨rest, hHistory, hCap, hNe, hRest.imp_right fun hOld a ha hFresh => hOld a ha (hFresh.mono hNow)⟩

theorem Follows.length_live (h : Follows stamp cap ttl now history s) : (live now s).length ≤ cap := by
  cases hs : s with
  | none => exact Nat.zero_le cap
  | some k =>
    obtain ⟨-, -, hLe, -⟩ := h.items k hs
    dsimp only [live]
    split
    · exact hLe
    · exact Nat.zero_le cap

variable [IsOrderedAddMonoid T]

theorem not_fresh_of_le {a b : α} (hLe : stamp b ≤ stamp a) (ha : ¬Fresh stamp ttl now a) :
    ¬Fresh stamp ttl now b := fun hb => ha (hb.trans (add_le_add_left hLe ttl))

theorem not_fresh_of_head (hSorted : history.Pairwise fun a b => stamp b ≤ stamp a)
    (hHead : ∀ a ∈ history.head?, ¬Fresh stamp ttl now a) : ∀ a ∈ history, ¬Fresh stamp ttl now a := by
  cases history with
  | nil => simp
  | cons b history =>
    rw [List.pairwise_cons] at hSorted
    have hb := hHead b rfl
    intro a ha
    obtain rfl | ha := List.mem_cons.mp ha
    · exact hb
    · exact not_fresh_of_le (hSorted.1 a ha) hb

theorem eq_filter_append (hSorted : history.Pairwise fun a b => stamp b ≤ stamp a) :
    history = history.filter (fun a => Fresh stamp ttl now a) ++
      history.filter fun a => ¬Fresh stamp ttl now a := by
  induction history with
  | nil => rfl
  | cons b history ih =>
    have hRest := ih (List.pairwise_cons.mp hSorted).2
    by_cases hb : Fresh stamp ttl now b
    · rw [List.filter_cons_of_pos (by simpa using hb), List.filter_cons_of_neg (by simpa using hb),
        List.cons_append, ← hRest]
    · have hAll : ∀ a ∈ b :: history, ¬Fresh stamp ttl now a :=
        not_fresh_of_head hSorted (by simpa using hb)
      have hNone : (b :: history).filter (fun a => Fresh stamp ttl now a) = [] := by
        rw [List.filter_eq_nil_iff]
        exact fun a ha => by simpa using hAll a ha
      have hEvery : (b :: history).filter (fun a => ¬Fresh stamp ttl now a) = b :: history := by
        rw [List.filter_eq_self]
        exact fun a ha => by simpa using hAll a ha
      rw [hNone, hEvery, List.nil_append]

theorem Follows.not_fresh_of_expired (h : Follows stamp cap ttl now history s) {k : Shelf α T}
    (hk : s = some k) (hExpired : ¬now' ≤ k.expiry) : ∀ a ∈ history, ¬Fresh stamp ttl now' a := by
  refine not_fresh_of_head h.sorted fun a ha => ?_
  rw [Fresh, ← h.expiry k hk a ha]
  exact hExpired

theorem Follows.push (h : Follows stamp cap ttl now history s) (hCap : 1 ≤ cap) (hNow : now ≤ now')
    {a : α} (ha : stamp a = now') :
    Follows stamp cap ttl now' (a :: history) (some (push cap ttl now' a s)) := by
  have hLater := h.later hNow
  constructor
  · rw [List.pairwise_cons]
    exact ⟨fun b hb => ha ▸ hLater.past b hb, h.sorted⟩
  · intro b hb
    obtain rfl | hb := List.mem_cons.mp hb
    · exact le_of_eq ha
    · exact hLater.past b hb
  · simp
  · intro k hk b hb
    obtain rfl := Option.some.inj hk
    obtain rfl := Option.some.inj hb
    rw [ha]
    rfl
  · intro k hk
    obtain rfl := Option.some.inj hk
    rw [Expiring.push]
    have hAlone : ∀ rest : List α, (∀ b ∈ rest, ¬Fresh stamp ttl now' b) →
        ∃ rest', a :: rest = [a].take cap ++ rest' ∧ ([a].take cap).length ≤ cap ∧
          [a].take cap ≠ [] ∧
          (([a].take cap).length = cap ∨ ∀ b ∈ rest', ¬Fresh stamp ttl now' b) := by
      intro rest hOld
      rw [List.take_of_length_le (by simpa using hCap)]
      exact ⟨rest, rfl, by simpa using hCap, by simp, .inr hOld⟩
    cases hs : s with
    | none =>
      rw [h.absent hs]
      exact hAlone [] (by simp)
    | some k =>
      dsimp only [live]
      split
      · obtain ⟨rest, hHistory, hLe, -, hRest⟩ := hLater.items k hs
        refine ⟨(a :: k.items).drop cap ++ rest, ?_, List.length_take_le _ _, ?_, ?_⟩
        · rw [← List.append_assoc, List.take_append_drop, hHistory, List.cons_append]
        · rw [ne_eq, List.take_eq_nil_iff]
          simp
          omega
        · rw [List.length_take, List.length_cons]
          by_cases hRoom : cap ≤ k.items.length + 1
          · exact .inl (Nat.min_eq_left hRoom)
          · right
            rw [List.drop_eq_nil_of_le (by rw [List.length_cons]; omega), List.nil_append]
            obtain hFull | hOld := hRest
            · omega
            · exact hOld
      · rename_i hExpired
        exact hAlone history (h.not_fresh_of_expired hs hExpired)

/-- What is alive is what is fresh, and what has stayed with it. -/
theorem Follows.live_eq (h : Follows stamp cap ttl now history s) :
    live now s = window stamp cap ttl now history ++
      (live now s).filter fun a => ¬Fresh stamp ttl now a := by
  have hNone : (∀ a ∈ history, ¬Fresh stamp ttl now a) → window stamp cap ttl now history = [] := by
    intro hOld
    have hFilter : history.filter (fun a => Fresh stamp ttl now a) = [] := by
      rw [List.filter_eq_nil_iff]
      exact fun a ha => by simpa using hOld a ha
    rw [window, hFilter, List.take_nil]
  cases hs : s with
  | none =>
    rw [h.absent hs]
    simp [live, window]
  | some k =>
    dsimp only [live]
    split
    · obtain ⟨rest, hHistory, hLe, -, hRest⟩ := h.items k hs
      have hSorted := h.sorted
      rw [hHistory, List.pairwise_append] at hSorted
      obtain ⟨hItems, -, hAcross⟩ := hSorted
      have hWindow : window stamp cap ttl now history =
          k.items.filter fun a => Fresh stamp ttl now a := by
        have hGone : (∀ a ∈ rest, ¬Fresh stamp ttl now a) →
            rest.filter (fun a => Fresh stamp ttl now a) = [] := by
          intro hOld
          rw [List.filter_eq_nil_iff]
          exact fun a ha => by simpa using hOld a ha
        rw [window, hHistory, List.filter_append]
        by_cases hAll : ∀ a ∈ k.items, Fresh stamp ttl now a
        · have hFilter : k.items.filter (fun a => Fresh stamp ttl now a) = k.items := by
            rw [List.filter_eq_self]
            exact fun a ha => by simpa using hAll a ha
          rw [hFilter]
          obtain hFull | hOld := hRest
          · rw [← hFull, List.take_left]
          · rw [hGone hOld, List.append_nil, List.take_of_length_le hLe]
        · obtain ⟨b, hb, hOld⟩ : ∃ b ∈ k.items, ¬Fresh stamp ttl now b := by simpa using hAll
          rw [hGone fun a ha => not_fresh_of_le (hAcross b hb a ha) hOld, List.append_nil,
            List.take_of_length_le ((List.length_filter_le _ _).trans hLe)]
      rw [hWindow]
      exact eq_filter_append hItems
    · rename_i hExpired
      rw [hNone (h.not_fresh_of_expired hs hExpired)]
      rfl

end Expiring
