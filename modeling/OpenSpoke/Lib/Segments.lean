import Mathlib.Data.List.Basic

/-!
# Segments

A rule says whether a segment ends with an element, which it may tell from the next one.
Two rules number the same segments in the same way exactly if they end them at the same
places, the last one left out.
-/

namespace Segments

variable {α : Type*}

/-- Whether a segment ends with an element, and the next one is the second argument. -/
abbrev Rule (α : Type*) := α → Option α → Bool

def endsAt (r : Rule α) (t : List α) (p : Nat) : Bool := t[p]?.any fun c => r c t[p + 1]?

/-- The number of the segment a place is in, from 1 on. -/
def number (r : Rule α) (t : List α) (p : Nat) : Nat := (List.range p).countP (endsAt r t) + 1

/-- The segments, each with what ends it. -/
def segments (r : Rule α) : List α → List (List α)
  | [] => []
  | c :: t =>
    if r c t.head? then [c] :: segments r t
    else
      match segments r t with
      | [] => [[c]]
      | seg :: segs => (c :: seg) :: segs

/-- The segment a place is in, with those before it. -/
structure Within (r : Rule α) (t : List α) (p : Nat) (before : List (List α)) (seg : List α) :
    Prop where
  cut : ∃ after, segments r t = before ++ seg :: after
  le : before.flatten.length ≤ p
  lt : p < before.flatten.length + seg.length

variable {r r' : Rule α}

theorem endsAt_zero (c : α) (t : List α) : endsAt r (c :: t) 0 = r c t.head? := by
  rw [endsAt, List.getElem?_cons_zero, List.getElem?_cons_succ, ← List.head?_eq_getElem?]
  rfl

theorem endsAt_succ (c : α) (t : List α) (p : Nat) :
    endsAt r (c :: t) (p + 1) = endsAt r t p := rfl

theorem number_succ (t : List α) (p : Nat) :
    number r t (p + 1) = number r t p + if endsAt r t p then 1 else 0 := by
  rw [number, List.range_succ, List.countP_append, List.countP_singleton, number]
  omega

theorem number_cons (c : α) (t : List α) (p : Nat) :
    number r (c :: t) (p + 1) = number r t p + if r c t.head? then 1 else 0 := by
  induction p with
  | zero =>
    rw [number_succ, endsAt_zero]
    rfl
  | succ p ih =>
    rw [number_succ, ih, endsAt_succ, number_succ]
    omega

/-- The rules agree on the numbers exactly if they agree on where segments end. -/
theorem number_eq_iff (t : List α) :
    (∀ p, p < t.length → number r t p = number r' t p) ↔
      ∀ q, q + 1 < t.length → endsAt r t q = endsAt r' t q := by
  constructor
  · intro h q hq
    have hNext := h (q + 1) hq
    rw [number_succ, number_succ, h q (by omega)] at hNext
    cases hr : endsAt r t q <;> cases hr' : endsAt r' t q <;> simp [hr, hr'] at hNext ⊢
  · intro h p hp
    induction p with
    | zero => rfl
    | succ p ih => rw [number_succ, number_succ, ih (by omega), h p hp]

theorem number_eq_one {t : List α} {p : Nat} (h : ∀ q, q < p → endsAt r t q = false) :
    number r t p = 1 := by
  rw [number, List.countP_eq_zero.mpr]
  intro q hq
  rw [h q (List.mem_range.mp hq)]
  exact Bool.false_ne_true

theorem number_append (front t : List α) (p : Nat) :
    number r (front ++ t) (front.length + p) + 1 =
      number r (front ++ t) front.length + number r t p := by
  have hEnds : ∀ q, endsAt r (front ++ t) (front.length + q) = endsAt r t q := by
    intro q
    rw [endsAt, endsAt, Nat.add_assoc, List.getElem?_append_right (Nat.le_add_right _ _),
      List.getElem?_append_right (Nat.le_add_right _ _), Nat.add_sub_cancel_left,
      Nat.add_sub_cancel_left]
  induction p with
  | zero => rfl
  | succ p ih =>
    rw [← Nat.add_assoc, number_succ, number_succ, hEnds]
    omega

theorem endsAt_append {front : List α} {q : Nat} (t : List α) (hq : q + 1 < front.length) :
    endsAt r (front ++ t) q = endsAt r front q := by
  rw [endsAt, endsAt, List.getElem?_append_left hq, List.getElem?_append_left (by omega)]

theorem endsAt_length (front : List α) (c : α) (t : List α) :
    endsAt r (front ++ c :: t) front.length = r c t.head? := by
  have hNext : front.length + 1 - front.length = 1 := by omega
  rw [endsAt, List.getElem?_append_right (Nat.le_refl _), Nat.sub_self,
    List.getElem?_append_right (Nat.le_succ _), hNext, List.getElem?_cons_succ,
    ← List.head?_eq_getElem?]
  rfl

/-- The rules agree exactly if they say the same of any two elements that follow each other. -/
theorem number_eq_iff_pairs (t : List α) :
    (∀ p, p < t.length → number r t p = number r' t p) ↔
      ∀ front c next rest, t = front ++ c :: next :: rest → r c (some next) = r' c (some next) := by
  rw [number_eq_iff]
  constructor
  · rintro h front c next rest rfl
    have hEnds := h front.length (by
      rw [List.length_append, List.length_cons, List.length_cons]
      omega)
    rwa [endsAt_length, endsAt_length] at hEnds
  · intro h q hq
    have hSplit : t = t.take q ++ t[q] :: t[q + 1] :: t.drop (q + 2) := by
      rw [← List.drop_eq_getElem_cons, ← List.drop_eq_getElem_cons, List.take_append_drop]
    have hSame := h _ _ _ _ hSplit
    rw [endsAt, endsAt, List.getElem?_eq_getElem hq, List.getElem?_eq_getElem (by omega)]
    exact hSame

theorem exists_within {t : List α} {p : Nat} (hp : p < t.length) :
    ∃ before seg, Within r t p before seg := by
  induction t generalizing p with
  | nil => cases hp
  | cons c t ih =>
    by_cases hEnd : r c t.head? = true
    · have hSegments : segments r (c :: t) = [c] :: segments r t := by
        rw [segments, if_pos hEnd]
      cases p with
      | zero => exact ⟨[], [c], ⟨_, hSegments⟩, Nat.zero_le _, by simp⟩
      | succ p =>
        obtain ⟨before, seg, ⟨after, hCut⟩, hLe, hLt⟩ := ih (Nat.lt_of_succ_lt_succ hp)
        refine ⟨[c] :: before, seg, ⟨after, by rw [hSegments, hCut, List.cons_append]⟩, ?_, ?_⟩
        · simpa using hLe
        · simp only [List.flatten_cons, List.length_append, List.length_singleton]
          omega
    · cases hRest : segments r t with
      | nil =>
        have hSegments : segments r (c :: t) = [[c]] := by
          rw [segments, if_neg hEnd, hRest]
        have hNil : t = [] := by
          by_contra hNe
          obtain ⟨before, seg, ⟨after, hCut⟩, -, -⟩ := ih (List.length_pos_iff.mpr hNe)
          rw [hRest] at hCut
          simp at hCut
        subst hNil
        obtain rfl : p = 0 := by simpa using hp
        exact ⟨[], [c], ⟨[], hSegments⟩, Nat.zero_le _, by simp⟩
      | cons first segs =>
        have hSegments : segments r (c :: t) = (c :: first) :: segs := by
          rw [segments, if_neg hEnd, hRest]
        cases p with
        | zero => exact ⟨[], c :: first, ⟨segs, hSegments⟩, Nat.zero_le _, by simp⟩
        | succ p =>
          obtain ⟨before, seg, ⟨after, hCut⟩, hLe, hLt⟩ := ih (Nat.lt_of_succ_lt_succ hp)
          rw [hRest] at hCut
          cases before with
          | nil =>
            obtain ⟨rfl, rfl⟩ := List.cons.inj hCut
            refine ⟨[], c :: first, ⟨segs, hSegments⟩, Nat.zero_le _, ?_⟩
            simpa using hLt
          | cons b before =>
            obtain ⟨rfl, rfl⟩ := List.cons.inj hCut
            refine ⟨(c :: first) :: before, seg, ⟨after, hSegments⟩, ?_, ?_⟩
            · simp only [List.flatten_cons, List.length_append, List.length_cons] at hLe ⊢
              omega
            · simp only [List.flatten_cons, List.length_append, List.length_cons] at hLt ⊢
              omega

theorem segments_eq_nil_iff {t : List α} : segments r t = [] ↔ t = [] := by
  constructor
  · intro h
    by_contra hNe
    obtain ⟨before, seg, ⟨after, hCut⟩, -, -⟩ := exists_within (r := r) (List.length_pos_iff.mpr hNe)
    rw [h] at hCut
    simp at hCut
  · rintro rfl
    rfl

theorem Within.number_eq {t : List α} {p : Nat} {before : List (List α)} {seg : List α}
    (h : Within r t p before seg) : number r t p = before.length + 1 := by
  obtain ⟨⟨after, hCut⟩, hLe, hLt⟩ := h
  induction t generalizing p before seg with
  | nil => simp [segments] at hCut
  | cons c t ih =>
    rw [segments] at hCut
    split at hCut
    · rename_i hEnd
      cases before with
      | nil =>
        obtain ⟨rfl, -⟩ := List.cons.inj hCut
        obtain rfl : p = 0 := by simpa using hLt
        rfl
      | cons b before =>
        obtain ⟨rfl, hRest⟩ := List.cons.inj hCut
        simp only [List.flatten_cons, List.length_append, List.length_singleton] at hLe hLt
        obtain ⟨p, rfl⟩ : ∃ q, p = q + 1 := ⟨p - 1, by omega⟩
        have hNumber : number r t p = before.length + 1 := ih (by omega) (by omega) hRest
        rw [number_cons, if_pos hEnd, hNumber, List.length_cons]
    · rename_i hEnd
      split at hCut
      · rename_i hRest
        obtain rfl : before = [] := by
          cases before with
          | nil => rfl
          | cons b before => simp at hCut
        obtain ⟨rfl, -⟩ := List.cons.inj hCut
        obtain rfl : p = 0 := by simpa using hLt
        rfl
      · rename_i first segs hRest
        cases p with
        | zero =>
          cases before with
          | nil => rfl
          | cons b before =>
            obtain ⟨rfl, -⟩ := List.cons.inj hCut
            simp at hLe
        | succ p =>
          rw [number_cons, if_neg hEnd]
          cases before with
          | nil =>
            obtain ⟨rfl, rfl⟩ := List.cons.inj hCut
            have hNumber : number r t p = ([] : List (List α)).length + 1 :=
              ih (Nat.zero_le p) (by simpa using hLt) hRest
            exact hNumber
          | cons b before =>
            obtain ⟨rfl, rfl⟩ := List.cons.inj hCut
            have hNumber : number r t p = (first :: before).length + 1 := by
              refine ih ?_ ?_ hRest
              · simp only [List.flatten_cons, List.length_append, List.length_cons] at hLe ⊢
                omega
              · simp only [List.flatten_cons, List.length_append, List.length_cons] at hLt ⊢
                omega
            exact hNumber

end Segments
