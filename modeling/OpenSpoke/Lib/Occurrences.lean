import Mathlib.Algebra.GroupWithZero.Nat
import Mathlib.Data.List.Infix
import Mathlib.Data.List.Nodup
import Mathlib.Data.List.Sort

/-!
# Occurrences of a word

A search from the left that goes on behind every occurrence it finds skips those that
overlap it; one that goes on from the next place finds all. The two find the same
exactly if no two occurrences overlap.
-/

namespace Occurrences

variable {α : Type*}

def At (w t : List α) (i : Nat) : Prop := w <+: t.drop i

/-- No two occurrences overlap. -/
def Apart (w t : List α) : Prop := ∀ i j, At w t i → At w t j → i < j → i + w.length ≤ j

theorem at_zero {w t : List α} : At w t 0 ↔ w <+: t := by
  rw [At, List.drop_zero]

theorem at_succ {w : List α} {c : α} {t : List α} {i : Nat} : At w (c :: t) (i + 1) ↔ At w t i := by
  rw [At, At, List.drop_succ_cons]

theorem At.add_length_le {w t : List α} {i : Nat} (h : At w t i) (hw : w ≠ []) :
    i + w.length ≤ t.length := by
  have hLen := h.length_le
  have hPos := List.length_pos_iff.mpr hw
  rw [List.length_drop] at hLen
  omega

theorem Apart.tail {w : List α} {c : α} {t : List α} (h : Apart w (c :: t)) : Apart w t := by
  intro i j hi hj hij
  have hLe := h (i + 1) (j + 1) (at_succ.mpr hi) (at_succ.mpr hj) (by omega)
  omega

/-! ## The pieces -/

/-- What is between the occurrences at the places of a list. -/
def pieces (t : List α) (len : Nat) : Nat → List Nat → List (List α)
  | start, [] => [t.drop start]
  | start, i :: is => (t.drop start).take (i - start) :: pieces t len (i + len) is

theorem length_pieces (t : List α) (len start : Nat) (is : List Nat) :
    (pieces t len start is).length = is.length + 1 := by
  induction is generalizing start with
  | nil => rfl
  | cons i is ih => rw [pieces, List.length_cons, ih, List.length_cons]

theorem intercalate_pieces {w t : List α} {start : Nat} {is : List Nat}
    (hAt : ∀ i ∈ is, start ≤ i ∧ At w t i) (hApart : is.Pairwise (fun a b => a + w.length ≤ b)) :
    w.intercalate (pieces t w.length start is) = t.drop start := by
  induction is generalizing start with
  | nil => exact List.intercalate_singleton
  | cons i is ih =>
    rw [List.pairwise_cons] at hApart
    obtain ⟨hFrom, hHere⟩ := hAt i List.mem_cons_self
    have hLater : w.intercalate (pieces t w.length (i + w.length) is) = t.drop (i + w.length) := ih
      (fun j hj => ⟨hApart.1 j hj, (hAt j (List.mem_cons_of_mem i hj)).2⟩) hApart.2
    obtain ⟨rest, hRest⟩ := hHere
    have hDrop : t.drop (i + w.length) = rest := by
      rw [← List.drop_drop, ← hRest, List.drop_left]
    rw [pieces, List.intercalate_cons_of_ne_nil, hLater, hDrop, List.append_assoc, hRest]
    · have hBack : t.drop i = (t.drop start).drop (i - start) := by
        rw [List.drop_drop, Nat.add_sub_cancel' hFrom]
      rw [hBack, List.take_append_drop]
    · intro hNil
      have hLen := length_pieces t w.length (i + w.length) is
      rw [hNil, List.length_nil] at hLen
      omega

theorem length_intercalate_cons (w p : List α) (ps : List (List α)) :
    (w.intercalate (p :: ps)).length = p.length + (ps.map List.length).sum + ps.length * w.length := by
  induction ps generalizing p with
  | nil => simp [List.intercalate]
  | cons q ps ih =>
    rw [List.intercalate_cons_cons, List.length_append, List.length_append, ih, List.map_cons,
      List.sum_cons, List.length_cons, Nat.add_mul]
    omega

theorem intercalate_inj {w w' p q : List α} {ps : List (List α)}
    (h : w.intercalate (p :: q :: ps) = w'.intercalate (p :: q :: ps)) : w = w' := by
  have hLen := congrArg List.length h
  rw [length_intercalate_cons, length_intercalate_cons, List.length_cons] at hLen
  have hSame : w.length = w'.length := by
    have hMul : (ps.length + 1) * w.length = (ps.length + 1) * w'.length := by omega
    exact Nat.eq_of_mul_eq_mul_left (Nat.succ_pos _) hMul
  rw [List.intercalate_cons_cons, List.intercalate_cons_cons, List.append_assoc,
    List.append_assoc] at h
  exact (List.append_inj (List.append_cancel_left h) hSame).1

/-! ## The two searches -/

variable [DecidableEq α]

instance (w t : List α) : DecidablePred (At w t) := fun i =>
  inferInstanceAs (Decidable (w <+: t.drop i))

def places (w t : List α) : List Nat := (List.range (t.length + 1)).filter (At w t ·)

/-- The occurrences that a search from the left finds which goes on behind each of them: it
skips `skip` places, and the first one is number `i`. -/
def starts (w : List α) : Nat → Nat → List α → List Nat
  | _, i, [] => if w = [] then [i] else []
  | skip + 1, i, _ :: t => starts w skip (i + 1) t
  | 0, i, c :: t =>
    if w <+: c :: t then i :: starts w (w.length - 1) (i + 1) t else starts w 0 (i + 1) t

def first (w t : List α) (start : Nat) : Option Nat :=
  ((places w t).filter (start ≤ ·)).head?

theorem mem_places {w t : List α} (hw : w ≠ []) {i : Nat} : i ∈ places w t ↔ At w t i := by
  rw [places, List.mem_filter, List.mem_range, decide_eq_true_eq]
  constructor
  · exact fun h => h.2
  · intro h
    have hLen := h.add_length_le hw
    exact ⟨by omega, h⟩

theorem places_sorted (w t : List α) : (places w t).Pairwise (· < ·) :=
  List.pairwise_lt_range.filter _

theorem starts_spec {w : List α} (hw : w ≠ []) (t : List α) (skip i : Nat) :
    (∀ j ∈ starts w skip i t, i + skip ≤ j ∧ ∃ d, j = i + d ∧ At w t d) ∧
      (starts w skip i t).Pairwise (fun a b => a + w.length ≤ b) := by
  have hPos := List.length_pos_iff.mpr hw
  induction t generalizing skip i with
  | nil => simp [starts, hw]
  | cons c t ih =>
    have hShift : ∀ s, ∀ j ∈ starts w s (i + 1) t,
        i + 1 + s ≤ j ∧ ∃ d, j = i + d ∧ At w (c :: t) d := by
      intro s j hj
      obtain ⟨hLe, d, rfl, hd⟩ := (ih s (i + 1)).1 j hj
      exact ⟨hLe, d + 1, by omega, at_succ.mpr hd⟩
    cases skip with
    | succ skip =>
      constructor
      · intro j hj
        obtain ⟨hLe, hAt⟩ := hShift skip j hj
        exact ⟨by omega, hAt⟩
      · exact (ih skip (i + 1)).2
    | zero =>
      rw [starts]
      split
      · rename_i hHere
        constructor
        · intro j hj
          obtain rfl | hj := List.mem_cons.mp hj
          · exact ⟨le_rfl, 0, rfl, at_zero.mpr hHere⟩
          · obtain ⟨hLe, hAt⟩ := hShift _ j hj
            exact ⟨by omega, hAt⟩
        · rw [List.pairwise_cons]
          constructor
          · intro j hj
            have hLe := (hShift _ j hj).1
            omega
          · exact (ih _ (i + 1)).2
      · constructor
        · intro j hj
          obtain ⟨hLe, hAt⟩ := hShift 0 j hj
          exact ⟨by omega, hAt⟩
        · exact (ih 0 (i + 1)).2

theorem at_of_mem_starts {w t : List α} (hw : w ≠ []) {j : Nat} (h : j ∈ starts w 0 0 t) :
    At w t j := by
  obtain ⟨-, d, rfl, hd⟩ := (starts_spec hw t 0 0).1 j h
  rwa [Nat.zero_add]

theorem starts_sorted {w : List α} (hw : w ≠ []) (t : List α) :
    (starts w 0 0 t).Pairwise (· < ·) := by
  have hPos := List.length_pos_iff.mpr hw
  refine (starts_spec hw t 0 0).2.imp ?_
  intro a b h
  omega

theorem mem_starts_of_at {w t : List α} (hw : w ≠ []) (hApart : Apart w t) {skip d : Nat}
    (i : Nat) (hSkip : ∀ e, At w t e → skip ≤ e) (hd : At w t d) : i + d ∈ starts w skip i t := by
  have hPos := List.length_pos_iff.mpr hw
  induction t generalizing skip d i with
  | nil =>
    have hLen := hd.add_length_le hw
    rw [List.length_nil] at hLen
    omega
  | cons c t ih =>
    have hNext : ∀ {s d}, (∀ e, At w t e → s ≤ e) → At w (c :: t) (d + 1) →
        i + (d + 1) ∈ starts w s (i + 1) t := by
      intro s d hs hd
      have hMem := ih hApart.tail (i + 1) hs (at_succ.mp hd)
      rwa [Nat.add_assoc, Nat.add_comm 1] at hMem
    cases skip with
    | succ skip =>
      cases d with
      | zero =>
        have hLe := hSkip 0 hd
        omega
      | succ d =>
        refine hNext (fun e he => ?_) hd
        have hLe := hSkip (e + 1) (at_succ.mpr he)
        omega
    | zero =>
      rw [starts]
      split
      · rename_i hHere
        cases d with
        | zero => exact List.mem_cons_self
        | succ d =>
          refine List.mem_cons_of_mem _ (hNext (fun e he => ?_) hd)
          have hLe := hApart 0 (e + 1) (at_zero.mpr hHere) (at_succ.mpr he) (by omega)
          omega
      · rename_i hHere
        cases d with
        | zero => exact absurd (at_zero.mp hd) hHere
        | succ d => exact hNext (fun e _ => Nat.zero_le e) hd

theorem perm_eq {w t : List α} (hw : w ≠ []) (h : (places w t).Perm (starts w 0 0 t)) :
    places w t = starts w 0 0 t :=
  h.eq_of_pairwise (fun _ _ _ _ hab hba => absurd hab (Nat.lt_asymm hba)) (places_sorted w t)
    (starts_sorted hw t)

theorem places_eq_starts_iff {w : List α} (hw : w ≠ []) (t : List α) :
    places w t = starts w 0 0 t ↔ Apart w t := by
  constructor
  · intro hEq i j hi hj hij
    have hPairs := (starts_spec hw t 0 0).2
    rw [← hEq, List.pairwise_iff_getElem] at hPairs
    obtain ⟨m, hm, rfl⟩ := List.getElem_of_mem ((mem_places hw).mpr hi)
    obtain ⟨n, hn, rfl⟩ := List.getElem_of_mem ((mem_places hw).mpr hj)
    have hmn : m < n := by
      by_contra hNot
      have hOrder := List.pairwise_iff_getElem.mp (places_sorted w t) n m hn hm
      rcases Nat.lt_or_ge n m with h | h
      · have hBack := hOrder h
        omega
      · obtain rfl : m = n := by omega
        omega
    exact hPairs m n hm hn hmn
  · intro hApart
    apply perm_eq hw
    rw [List.perm_ext_iff_of_nodup (places_sorted w t).nodup (starts_sorted hw t).nodup]
    intro j
    rw [mem_places hw]
    constructor
    · intro hj
      have hMem := mem_starts_of_at hw hApart 0 (fun e _ => Nat.zero_le e) hj
      rwa [Nat.zero_add] at hMem
    · exact at_of_mem_starts hw

theorem length_eq_iff {w : List α} (hw : w ≠ []) (t : List α) :
    (places w t).length = (starts w 0 0 t).length ↔ Apart w t := by
  rw [← places_eq_starts_iff hw]
  constructor
  · intro hLen
    have hSub : starts w 0 0 t ⊆ places w t :=
      fun _ hj => (mem_places hw).mpr (at_of_mem_starts hw hj)
    have hSubperm := List.subperm_of_subset (starts_sorted hw t).nodup hSub
    exact perm_eq hw (hSubperm.perm_of_length_le (by omega)).symm
  · exact congrArg List.length

theorem filter_succ {w t : List α} {start i : Nat} (h : first w t start = some i) :
    (places w t).filter (start ≤ ·) = i :: (places w t).filter (i + 1 ≤ ·) := by
  have hSorted : ((places w t).filter (start ≤ ·)).Pairwise (· < ·) := (places_sorted w t).filter _
  rw [first, List.head?_eq_some_iff] at h
  obtain ⟨later, hLater⟩ := h
  rw [hLater, List.pairwise_cons] at hSorted
  have hFrom : start ≤ i := by
    have hMem : i ∈ (places w t).filter (start ≤ ·) := hLater ▸ List.mem_cons_self
    simpa using (List.mem_filter.mp hMem).2
  have hTwice : ((places w t).filter (start ≤ ·)).filter (i + 1 ≤ ·) =
      (places w t).filter (i + 1 ≤ ·) := by
    rw [List.filter_filter]
    refine List.filter_congr fun j _ => ?_
    rw [← Bool.decide_and, decide_eq_decide]
    omega
  rw [← hTwice, hLater, List.filter_cons_of_neg (by simp), List.filter_eq_self.mpr]
  intro j hj
  exact decide_eq_true (hSorted.1 j hj)

end Occurrences
