import Mathlib.Data.List.Nodup

/-!
# Lists with keys

A list as a table: the first entry with a key counts. An edit of the entry with
one key, its removal and a new entry leave the other keys alone.
-/

namespace Keyed

variable {α κ : Type*} [DecidableEq κ] (key : α → κ)

def find (k : κ) (l : List α) : Option α := l.find? (key · = k)

/-- `f` on the first entry with the key. -/
def edit (k : κ) (f : α → α) : List α → List α
  | [] => []
  | a :: l => if key a = k then f a :: l else a :: edit k f l

def remove (k : κ) (l : List α) : List α := l.filter (key · ≠ k)

def Distinct (l : List α) : Prop := (l.map key).Nodup

variable {key} {k : κ} {l : List α}

theorem edit_cons (f : α → α) (a : α) :
    edit key k f (a :: l) = if key a = k then f a :: l else a :: edit key k f l := rfl

theorem find_eq_none : find key k l = none ↔ k ∉ l.map key := by
  simp [find, List.find?_eq_none]

theorem key_of_find {a : α} (h : find key k l = some a) : key a = k := by
  simpa [find] using List.find?_some h

theorem mem_of_find {a : α} (h : find key k l = some a) : a ∈ l := List.mem_of_find?_eq_some h

theorem map_edit {f : α → α} (hf : ∀ a, key (f a) = key a) :
    (edit key k f l).map key = l.map key := by
  induction l with
  | nil => rfl
  | cons a l ih =>
    simp only [edit_cons]
    split <;> simp [hf, ih]

theorem mem_edit {f : α → α} {b : α} (h : b ∈ edit key k f l) :
    b ∈ l ∨ ∃ a, find key k l = some a ∧ b = f a := by
  induction l with
  | nil => cases h
  | cons a l ih =>
    simp only [edit_cons] at h
    split at h
    next hKey =>
      rcases List.mem_cons.mp h with rfl | h
      · exact .inr ⟨a, by simp [find, hKey], rfl⟩
      · exact .inl (List.mem_cons_of_mem _ h)
    next hKey =>
      rcases List.mem_cons.mp h with rfl | h
      · exact .inl List.mem_cons_self
      · rcases ih h with h | ⟨c, hc, rfl⟩
        · exact .inl (List.mem_cons_of_mem _ h)
        · exact .inr ⟨c, by simpa [find, hKey] using hc, rfl⟩

theorem find_edit_of_ne {f : α → α} (hf : ∀ a, key (f a) = key a) {k' : κ} (hne : k' ≠ k) :
    find key k' (edit key k f l) = find key k' l := by
  induction l with
  | nil => rfl
  | cons a l ih =>
    simp only [edit_cons]
    split
    next hKey => simp [find, hf, hKey, hne.symm]
    next =>
      simp only [find, List.find?_cons]
      split
      · rfl
      · exact ih

theorem find_edit_self {f : α → α} (hf : ∀ a, key (f a) = key a) :
    find key k (edit key k f l) = (find key k l).map f := by
  induction l with
  | nil => rfl
  | cons a l ih =>
    simp only [edit_cons]
    split
    next hKey => simp [find, hf, hKey]
    next hKey => simpa [find, hKey] using ih

theorem find_remove_of_ne {k' : κ} (hne : k' ≠ k) : find key k' (remove key k l) = find key k' l := by
  rw [find, remove, List.find?_filter]
  refine congrArg (List.find? · l) (funext fun a => ?_)
  by_cases hKey : key a = k'
  · simp [hKey, hne]
  · simp [hKey]

theorem find_append_of_ne {a : α} {k' : κ} (hne : k' ≠ key a) :
    find key k' (l ++ [a]) = find key k' l := by
  rw [find, List.find?_append, List.find?_singleton, if_neg (by simpa using hne.symm), Option.or_none]
  rfl

theorem Distinct.edit (h : Distinct key l) {f : α → α} (hf : ∀ a, key (f a) = key a) :
    Distinct key (edit key k f l) := by
  rw [Distinct, map_edit hf]
  exact h

theorem Distinct.remove (h : Distinct key l) : Distinct key (remove key k l) :=
  h.sublist (List.filter_sublist.map key)

theorem Distinct.append (h : Distinct key l) {a : α} (ha : find key (key a) l = none) :
    Distinct key (l ++ [a]) := by
  rw [Distinct, List.map_append, List.map_singleton, List.nodup_append_comm, List.singleton_append,
    List.nodup_cons]
  exact ⟨find_eq_none.mp ha, h⟩

end Keyed

/-! ## Rows under a key

A table that may have any number of rows under a key. A new row goes to the end. -/

namespace Rows

variable {α κ : Type*} [DecidableEq κ] {key : α → κ} {k : κ} {row : α}

def under (key : α → κ) (k : κ) (rows : List α) : List α := rows.filter (key · = k)

@[simp] theorem under_append_self (rows : List α) (row : α) :
    under key (key row) (rows ++ [row]) = under key (key row) rows ++ [row] := by
  simp [under, List.filter_append]

theorem under_append_of_ne (rows : List α) (hNe : k ≠ key row) :
    under key k (rows ++ [row]) = under key k rows := by
  simp [under, List.filter_append, Ne.symm hNe]

@[simp] theorem under_remove_self (k : κ) (rows : List α) :
    under key k (Keyed.remove key k rows) = [] := by
  rw [under, Keyed.remove, List.filter_filter, List.filter_eq_nil_iff]
  intro row _
  simp

theorem under_remove_of_ne {l : κ} (rows : List α) (hNe : k ≠ l) :
    under key k (Keyed.remove key l rows) = under key k rows := by
  rw [under, under, Keyed.remove, List.filter_filter]
  apply List.filter_congr
  intro row _
  by_cases hKey : key row = k
  · simp [hKey, hNe]
  · simp [hKey]

/-- At most one row under each key. -/
def Single (key : α → κ) (rows : List α) : Prop := ∀ k, (under key k rows).length ≤ 1

theorem Single.append {rows : List α} (h : Single key rows) (hNone : under key (key row) rows = []) :
    Single key (rows ++ [row]) := by
  intro k
  by_cases hk : k = key row
  · rw [hk, under_append_self, hNone]
    exact Nat.le_refl 1
  · rw [under_append_of_ne rows hk]
    exact h k

theorem Single.remove {rows : List α} (h : Single key rows) (l : κ) :
    Single key (Keyed.remove key l rows) := by
  intro k
  by_cases hk : k = l
  · rw [hk, under_remove_self]
    exact Nat.zero_le 1
  · rw [under_remove_of_ne rows hk]
    exact h k

end Rows
