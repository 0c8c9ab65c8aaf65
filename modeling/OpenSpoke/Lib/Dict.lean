import OpenSpoke.Lib.Keyed

/-!
# Dictionaries

A dictionary keeps its keys in the order in which they came in. To set a key that is
there leaves it in its place.
-/

structure Dict (κ β : Type*) where
  entries : List (κ × β)
  distinct : (entries.map Prod.fst).Nodup

namespace Dict

variable {κ β : Type*}

def empty : Dict κ β := ⟨[], List.nodup_nil⟩

def keys (d : Dict κ β) : List κ := d.entries.map Prod.fst

theorem nodup_keys (d : Dict κ β) : d.keys.Nodup := d.distinct

variable [DecidableEq κ]

def get (d : Dict κ β) (k : κ) : Option β := (Keyed.find Prod.fst k d.entries).map Prod.snd

def setEntries (k : κ) (v : β) : List (κ × β) → List (κ × β)
  | [] => [(k, v)]
  | e :: entries => if e.1 = k then (k, v) :: entries else e :: setEntries k v entries

theorem setEntries_fst (k : κ) (v : β) (entries : List (κ × β)) :
    (setEntries k v entries).map Prod.fst =
      if k ∈ entries.map Prod.fst then entries.map Prod.fst
      else entries.map Prod.fst ++ [k] := by
  induction entries with
  | nil => rfl
  | cons e entries ih =>
    rw [setEntries]
    split
    next hKey => simp [hKey]
    next hKey =>
      rw [List.map_cons, ih, List.map_cons]
      simp only [List.mem_cons, Ne.symm hKey, false_or]
      split <;> rfl

theorem setEntries_distinct {entries : List (κ × β)} (h : (entries.map Prod.fst).Nodup) (k : κ)
    (v : β) : ((setEntries k v entries).map Prod.fst).Nodup := by
  rw [setEntries_fst]
  split
  · exact h
  next hNew =>
    rw [List.nodup_append_comm, List.singleton_append, List.nodup_cons]
    exact ⟨hNew, h⟩

/-- `d[k] = v`. -/
def set (d : Dict κ β) (k : κ) (v : β) : Dict κ β :=
  ⟨setEntries k v d.entries, setEntries_distinct d.distinct k v⟩

theorem mem_keys_iff {d : Dict κ β} {k : κ} : k ∈ d.keys ↔ (d.get k).isSome = true := by
  constructor
  · intro h
    rw [get, Option.isSome_map, Option.isSome_iff_ne_none]
    intro hNone
    exact Keyed.find_eq_none.mp hNone h
  · intro h
    by_contra hNot
    rw [get, Keyed.find_eq_none.mpr hNot] at h
    cases h

@[simp] theorem get_empty (k : κ) : (empty : Dict κ β).get k = none := rfl

theorem find_setEntries (k k' : κ) (v : β) (entries : List (κ × β)) :
    Keyed.find Prod.fst k' (setEntries k v entries) =
      if k' = k then some (k, v) else Keyed.find Prod.fst k' entries := by
  induction entries with
  | nil =>
    rw [setEntries, Keyed.find, List.find?_singleton]
    simp [Keyed.find, eq_comm]
  | cons e entries ih =>
    rw [setEntries]
    split
    next hKey =>
      subst hKey
      simp only [Keyed.find, List.find?_cons]
      split
      next hEq => rw [if_pos (of_decide_eq_true hEq).symm]
      next hNe => rw [if_neg (Ne.symm (of_decide_eq_false hNe)), hNe]
    next hKey =>
      simp only [Keyed.find, List.find?_cons] at ih ⊢
      split
      next hEq => rw [if_neg (of_decide_eq_true hEq ▸ hKey)]
      next => exact ih

theorem get_set (d : Dict κ β) (k k' : κ) (v : β) :
    (d.set k v).get k' = if k' = k then some v else d.get k' := by
  rw [get, get, set, find_setEntries]
  split <;> rfl

theorem mem_entries_iff {d : Dict κ β} {k : κ} {v : β} : (k, v) ∈ d.entries ↔ d.get k = some v := by
  constructor
  · intro h
    have hFound : Keyed.find Prod.fst k d.entries ≠ none := fun hNone =>
      Keyed.find_eq_none.mp hNone (List.mem_map_of_mem h)
    obtain ⟨e, hFind⟩ := Option.ne_none_iff_exists'.mp hFound
    have hEq : e = (k, v) := List.inj_on_of_nodup_map d.distinct (Keyed.mem_of_find hFind) h
      (Keyed.key_of_find hFind)
    rw [get, hFind, hEq]
    rfl
  · intro h
    obtain ⟨e, hFind, rfl⟩ := Option.map_eq_some_iff.mp h
    obtain rfl := Keyed.key_of_find hFind
    exact Keyed.mem_of_find hFind

/-- The keys that `p` does not hold for are popped. -/
def filter (d : Dict κ β) (p : κ → Bool) : Dict κ β :=
  ⟨d.entries.filter fun e => p e.1, d.distinct.sublist (List.filter_sublist.map _)⟩

theorem get_filter (d : Dict κ β) (p : κ → Bool) (k : κ) :
    (d.filter p).get k = if p k then d.get k else none := by
  ext v
  rw [← mem_entries_iff, filter, List.mem_filter, mem_entries_iff]
  split
  next hKeep => simp [hKeep]
  next hDrop => simp [hDrop]

end Dict
