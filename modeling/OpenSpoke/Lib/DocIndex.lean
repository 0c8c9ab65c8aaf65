import Mathlib.Data.List.Nodup
import OpenSpoke.Lib.Keyed
import OpenSpoke.Lib.Overwrite

/-!
# Documents under ids

An index has at most one document under an id. A document that is put goes to the end,
and a search gives the first documents that match, up to a number.
-/

/-- What becomes of a request: it fails, or is carried out with its answer lost, or is
carried out and answered. -/
inductive DocIndex.Answer
  | refused
  | lost
  | answered
  deriving DecidableEq

structure DocIndex (κ δ : Type*) where
  docs : List (κ × δ)
  distinct : Keyed.Distinct Prod.fst docs

namespace DocIndex

variable {κ δ : Type*}

def empty : DocIndex κ δ := ⟨[], List.nodup_nil⟩

/-- The first documents that match, in the order of the index. -/
def search (x : DocIndex κ δ) (p : κ × δ → Bool) (size : Nat) : List (κ × δ) :=
  (x.docs.filter p).take size

theorem mem_of_mem_search {x : DocIndex κ δ} {p : κ × δ → Bool} {size : Nat} {d : κ × δ}
    (h : d ∈ x.search p size) : d ∈ x.docs ∧ p d = true :=
  List.mem_filter.mp (List.mem_of_mem_take h)

variable [DecidableEq κ]

def get (x : DocIndex κ δ) (id : κ) : Option δ := (Keyed.find Prod.fst id x.docs).map Prod.snd

theorem find_remove_self (id : κ) (docs : List (κ × δ)) :
    Keyed.find Prod.fst id (Keyed.remove Prod.fst id docs) = none := by
  rw [Keyed.find_eq_none, List.mem_map]
  rintro ⟨d, hd, hId⟩
  have hNe := (List.mem_filter.mp hd).2
  simp [hId] at hNe

def delete (x : DocIndex κ δ) (id : κ) : DocIndex κ δ where
  docs := Keyed.remove Prod.fst id x.docs
  distinct := x.distinct.remove

def put (x : DocIndex κ δ) (id : κ) (d : δ) : DocIndex κ δ where
  docs := Keyed.remove Prod.fst id x.docs ++ [(id, d)]
  distinct := x.distinct.remove.append (find_remove_self id x.docs)

/-- All documents that match are deleted. -/
def drop (x : DocIndex κ δ) (p : δ → Bool) : DocIndex κ δ where
  docs := x.docs.filter fun d => !p d.2
  distinct := x.distinct.sublist (List.filter_sublist.map _)

/-- The documents that match with their ids are deleted. -/
def discard (x : DocIndex κ δ) (p : κ → δ → Bool) : DocIndex κ δ where
  docs := x.docs.filter fun d => !p d.1 d.2
  distinct := x.distinct.sublist (List.filter_sublist.map _)

/-- A change to the document under an id, if there is one. -/
def patch (x : DocIndex κ δ) (id : κ) (f : δ → δ) : DocIndex κ δ :=
  match x.get id with
  | some d => x.put id (f d)
  | none => x

/-- A change to every document. -/
def modify (x : DocIndex κ δ) (f : κ → δ → δ) : DocIndex κ δ where
  docs := x.docs.map fun d => (d.1, f d.1 d.2)
  distinct := by
    rw [Keyed.Distinct, List.map_map]
    exact x.distinct

variable {x : DocIndex κ δ} {id k : κ} {d : δ}

theorem mem_docs_iff : (id, d) ∈ x.docs ↔ x.get id = some d := by
  constructor
  · intro h
    cases hFind : Keyed.find Prod.fst id x.docs with
    | none => exact absurd (List.mem_map_of_mem h) (Keyed.find_eq_none.mp hFind)
    | some e =>
      have hEq : e = (id, d) := by
        have hKey := Keyed.key_of_find hFind
        exact List.inj_on_of_nodup_map x.distinct (Keyed.mem_of_find hFind) h hKey
      rw [get, hFind, hEq]
      rfl
  · intro h
    obtain ⟨e, hFind, rfl⟩ := Option.map_eq_some_iff.mp h
    have hKey : e.1 = id := Keyed.key_of_find hFind
    subst hKey
    exact Keyed.mem_of_find hFind

@[simp] theorem get_delete_self (x : DocIndex κ δ) (id : κ) : (x.delete id).get id = none := by
  simp [get, delete, find_remove_self]

theorem get_delete_of_ne (x : DocIndex κ δ) (hne : k ≠ id) : (x.delete id).get k = x.get k := by
  simp only [get, delete, Keyed.find_remove_of_ne hne]

@[simp] theorem get_put_self (x : DocIndex κ δ) (id : κ) (d : δ) : (x.put id d).get id = some d := by
  rw [← mem_docs_iff]
  exact List.mem_append_right _ (List.mem_singleton_self _)

theorem get_put_of_ne (x : DocIndex κ δ) (d : δ) (hne : k ≠ id) : (x.put id d).get k = x.get k := by
  have hFind : Keyed.find Prod.fst k (Keyed.remove Prod.fst id x.docs ++ [(id, d)]) =
      Keyed.find Prod.fst k x.docs := by
    rw [Keyed.find_append_of_ne hne, Keyed.find_remove_of_ne hne]
  simp only [get, put, hFind]

@[simp] theorem get_patch_self (x : DocIndex κ δ) (id : κ) (f : δ → δ) :
    (x.patch id f).get id = (x.get id).map f := by
  unfold patch
  cases hGet : x.get id with
  | none => exact hGet
  | some d => exact get_put_self x id (f d)

theorem get_patch_of_ne (x : DocIndex κ δ) (f : δ → δ) (hne : k ≠ id) :
    (x.patch id f).get k = x.get k := by
  unfold patch
  cases x.get id with
  | none => rfl
  | some d => exact get_put_of_ne x (f d) hne

@[simp] theorem get_modify (x : DocIndex κ δ) (f : κ → δ → δ) (id : κ) :
    (x.modify f).get id = (x.get id).map (f id) := by
  rw [get, get, modify, Keyed.find, Keyed.find, List.find?_map, Option.map_map, Option.map_map]
  apply Option.map_congr
  intro d hd
  have hId : d.1 = id := by simpa using List.find?_some hd
  rw [Function.comp_apply, Function.comp_apply, hId]

theorem get_drop (x : DocIndex κ δ) (p : δ → Bool) (id : κ) :
    (x.drop p).get id = (x.get id).filter (!p ·) := by
  ext d
  rw [Option.filter_eq_some_iff, ← mem_docs_iff, ← mem_docs_iff]
  exact List.mem_filter

theorem get_discard (x : DocIndex κ δ) (p : κ → δ → Bool) (id : κ) :
    (x.discard p).get id = (x.get id).filter (!p id ·) := by
  ext d
  rw [Option.filter_eq_some_iff, ← mem_docs_iff, ← mem_docs_iff]
  exact List.mem_filter

theorem get_foldl_put {ε : Type*} (key : ε → κ) (val : ε → δ) (es : List ε) (x : DocIndex κ δ) :
    (es.foldl (fun x e => x.put (key e) (val e)) x).get =
      Overwrite.writes key (fun e => some (val e)) x.get es := by
  induction es generalizing x with
  | nil => rfl
  | cons e es ih =>
    have hPut : (x.put (key e) (val e)).get = Function.update x.get (key e) (some (val e)) := by
      funext id
      by_cases hId : id = key e
      · rw [hId, get_put_self, Function.update_self]
      · rw [get_put_of_ne x (val e) hId, Function.update_of_ne hId]
    rw [List.foldl_cons, ih, hPut, Overwrite.writes, Overwrite.writes, List.foldl_cons]

@[simp] theorem get_empty (id : κ) : (empty : DocIndex κ δ).get id = none := rfl

end DocIndex
