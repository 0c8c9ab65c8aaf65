import Mathlib.Data.List.AList

/-!
# Pairs put into a map

Of the values under a key a map keeps the last one. Nothing is lost when, and only
when, no key has two values.
-/

namespace LastValue

variable {α β : Type*} [DecidableEq α]

/-- The values under a key, in order. -/
def values (a : α) (l : List (α × β)) : List β := (l.filter (·.1 = a)).map Prod.snd

def collect (m : AList fun _ : α => β) (l : List (α × β)) : AList fun _ : α => β :=
  l.foldl (fun m p => m.insert p.1 p.2) m

def pairs (m : AList fun _ : α => β) : List (α × β) := m.entries.map fun e => (e.1, e.2)

variable {a : α} {l : List (α × β)}

@[simp] theorem values_nil : values a ([] : List (α × β)) = [] := rfl

@[simp] theorem values_append (l' : List (α × β)) :
    values a (l ++ l') = values a l ++ values a l' := by
  simp [values]

theorem values_cons (p : α × β) : values a (p :: l) = if p.1 = a then p.2 :: values a l
    else values a l := by
  rw [values, List.filter_cons]
  by_cases h : p.1 = a <;> simp [h, values]

theorem values_eq_nil_iff : values a l = [] ↔ ∀ p ∈ l, p.1 ≠ a := by
  simp [values, List.filter_eq_nil_iff]

theorem values_filter (p : α → Bool) :
    values a (l.filter fun e => p e.1) = if p a then values a l else [] := by
  induction l with
  | nil => simp
  | cons e l ih =>
    rw [List.filter_cons, values_cons]
    by_cases hEq : e.1 = a
    · subst hEq
      by_cases hp : p e.1 = true
      · simp_all [values_cons]
      · simp_all
    · by_cases hp : p e.1 = true
      · simp [hp, hEq, ih, values_cons]
      · simp [hp, hEq, ih]

theorem lookup_collect (m : AList fun _ : α => β) :
    (collect m l).lookup a = (values a l).getLast?.or (m.lookup a) := by
  induction l generalizing m with
  | nil => rfl
  | cons p l ih =>
    have hStep : collect m (p :: l) = collect (m.insert p.1 p.2) l := rfl
    rw [hStep, ih, values_cons]
    by_cases hEq : p.1 = a
    · subst hEq
      rw [AList.lookup_insert, if_pos rfl, List.getLast?_cons]
      cases (values p.1 l).getLast? <;> rfl
    · rw [AList.lookup_insert_ne (Ne.symm hEq), if_neg hEq]

theorem values_pairs (m : AList fun _ : α => β) : values a (pairs m) = (m.lookup a).toList := by
  have hAll : ∀ entries : List (Sigma fun _ : α => β),
      values a (entries.map fun e => (e.1, e.2)) = entries.lookupAll a := by
    intro entries
    induction entries with
    | nil => rfl
    | cons e entries ih =>
      rw [List.map_cons, values_cons, ih]
      by_cases hEq : e.1 = a
      · obtain ⟨b, v⟩ := e
        subst hEq
        rw [if_pos rfl, List.lookupAll_cons_eq]
      · rw [if_neg hEq, List.lookupAll_cons_ne _ _ (Ne.symm hEq)]
  rw [pairs, hAll, List.lookupAll_eq_dlookup a m.nodupKeys]
  rfl

theorem values_collect : values a (pairs (collect ∅ l)) = (values a l).getLast?.toList := by
  rw [values_pairs, lookup_collect, AList.lookup_empty, Option.or_none]

theorem getLast_toList_eq_iff {l : List β} : l.getLast?.toList = l ↔ l.length ≤ 1 := by
  constructor
  · intro h
    rw [← h]
    cases l.getLast? <;> simp
  · intro h
    match l, h with
    | [], _ => rfl
    | [_], _ => rfl

theorem length_values_le_one (h : (l.map Prod.fst).Nodup) : (values a l).length ≤ 1 := by
  induction l with
  | nil => simp
  | cons p l ih =>
    obtain ⟨hNew, hRest⟩ := List.nodup_cons.mp h
    rw [values_cons]
    split
    next hEq =>
      have hNone : values a l = [] := values_eq_nil_iff.mpr fun q hq hKey =>
        hNew (hEq.trans hKey.symm ▸ List.mem_map_of_mem hq)
      rw [hNone]
      exact Nat.le_refl 1
    next => exact ih hRest

end LastValue
