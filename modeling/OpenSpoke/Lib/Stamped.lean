import Mathlib.Logic.Function.Basic
import OpenSpoke.Lib.Dict
import OpenSpoke.Lib.Overwrite

/-!
# Caches that go by a stamp

A base has under a key a stamp and a thing; a cache has what is made of the thing with the stamp
of that time. What a thing of the base has another stamp than in the cache is made anew, and
keys that are not in the base are dropped. Nothing is made of some things.
-/

namespace Stamped

variable {κ τ α γ : Type*} [DecidableEq κ]

def store (c : Dict κ (τ × γ)) (made : List (κ × τ × γ)) : Dict κ (τ × γ) :=
  made.foldl (fun c d => c.set d.1 d.2) c

def prune (c : Dict κ (τ × γ)) (listing : List (κ × τ × α)) : Dict κ (τ × γ) :=
  c.filter fun k => k ∈ listing.map Prod.fst

/-- The cache has nothing for a thing that nothing is made of, and what it has with the stamp of
a thing is made of it. -/
def Valid (make : α → Option γ) (base : κ → Option (τ × α)) (c : Dict κ (τ × γ)) : Prop :=
  ∀ k t a e, base k = some (t, a) → c.get k = some e →
    make a ≠ none ∧ (e.1 = t → make a = some e.2)

/-- The cache is what is made of the base. -/
def Mirrors (make : α → Option γ) (base : κ → Option (τ × α)) (c : Dict κ (τ × γ)) : Prop :=
  ∀ k, c.get k = (base k).bind fun d => (make d.2).map fun v => (d.1, v)

variable {make : α → Option γ} {base : κ → Option (τ × α)} {c : Dict κ (τ × γ)}
  {listing : List (κ × τ × α)} {k : κ} {t : τ} {a : α} {v : γ}

theorem get_store (c : Dict κ (τ × γ)) (made : List (κ × τ × γ)) :
    (store c made).get = Overwrite.writes Prod.fst (fun d => some d.2) c.get made := by
  induction made generalizing c with
  | nil => rfl
  | cons d made ih =>
    have hSet : (c.set d.1 d.2).get = Function.update c.get d.1 (some d.2) := by
      funext k
      rw [Dict.get_set, Function.update_apply]
    rw [store, List.foldl_cons, ← store, ih, hSet, Overwrite.writes, Overwrite.writes,
      List.foldl_cons]

theorem get_prune : (prune c listing).get k =
    if k ∈ listing.map Prod.fst then c.get k else none := by
  rw [prune, Dict.get_filter]
  simp only [decide_eq_true_eq]

theorem Mirrors.valid (h : Mirrors make base c) : Valid make base c := by
  intro k t a e hBase hGet
  rw [h k, hBase, Option.bind_some] at hGet
  obtain ⟨v, hMake, rfl⟩ := Option.map_eq_some_iff.mp hGet
  exact ⟨fun hNone => by simp [hNone] at hMake, fun _ => hMake⟩

theorem Mirrors.mem_entries_iff (h : Mirrors make base c) {e : κ × τ × γ} :
    e ∈ c.entries ↔ ∃ a, base e.1 = some (e.2.1, a) ∧ make a = some e.2.2 := by
  obtain ⟨k, t, v⟩ := e
  rw [Dict.mem_entries_iff, h k, Option.bind_eq_some_iff]
  constructor
  · rintro ⟨⟨t', a⟩, hBase, hMade⟩
    obtain ⟨v', hMake, hEq⟩ := Option.map_eq_some_iff.mp hMade
    cases hEq
    exact ⟨a, hBase, hMake⟩
  · rintro ⟨a, hBase, hMake⟩
    exact ⟨(t, a), hBase, by rw [hMake]; rfl⟩

theorem Valid.pruned (h : Valid make base c) (listing : List (κ × τ × α)) :
    Valid make base (prune c listing) := by
  intro k t a e hBase hGet
  rw [get_prune] at hGet
  split at hGet
  · exact h k t a e hBase hGet
  · cases hGet

theorem Valid.update (h : Valid make base c)
    (hNew : ∀ e, c.get k = some e → make a ≠ none ∧ (e.1 = t → make a = some e.2)) :
    Valid make (Function.update base k (some (t, a))) c := by
  intro k' t' a' e hBase hGet
  by_cases hKey : k' = k
  · subst hKey
    rw [Function.update_self] at hBase
    cases hBase
    exact hNew e hGet
  · rw [Function.update_of_ne hKey] at hBase
    exact h k' t' a' e hBase hGet

theorem Valid.erase (h : Valid make base c) (k : κ) :
    Valid make (Function.update base k none) c := by
  intro k' t' a' e hBase hGet
  by_cases hKey : k' = k
  · subst hKey
    rw [Function.update_self] at hBase
    cases hBase
  · rw [Function.update_of_ne hKey] at hBase
    exact h k' t' a' e hBase hGet

theorem valid_empty : Valid make base (Dict.empty : Dict κ (τ × γ)) := by
  intro k t a e _ hGet
  cases hGet

variable [DecidableEq τ]

/-- The cache has something with the stamp. -/
def current (c : Dict κ (τ × γ)) (k : κ) (t : τ) : Bool := (c.get k).any fun e => e.1 = t

def missing (make : α → Option γ) (c : Dict κ (τ × γ)) (listing : List (κ × τ × α)) :
    List (κ × τ × γ) :=
  listing.filterMap fun d =>
    if current c d.1 d.2.1 then none else (make d.2.2).map fun v => (d.1, d.2.1, v)

theorem mem_missing : (k, t, v) ∈ missing make c listing ↔
    ∃ a, (k, t, a) ∈ listing ∧ current c k t = false ∧ make a = some v := by
  rw [missing, List.mem_filterMap]
  constructor
  · rintro ⟨⟨k', t', a⟩, hMem, hSome⟩
    split at hSome
    · cases hSome
    next hNot =>
      obtain ⟨v', hMake, hEq⟩ := Option.map_eq_some_iff.mp hSome
      cases hEq
      exact ⟨a, hMem, by simpa using hNot, hMake⟩
  · rintro ⟨a, hMem, hNot, hMake⟩
    exact ⟨(k, t, a), hMem, by simp [hNot, hMake]⟩

/-- A refresh makes the cache a mirror. -/
theorem Valid.mirrors (h : Valid make base c)
    (hListing : ∀ d, d ∈ listing ↔ base d.1 = some d.2) :
    Mirrors make base (prune (store c (missing make c listing)) listing) := by
  intro k
  have hKeys : ∀ t v, (k, t, v) ∈ missing make c listing →
      ∃ a, base k = some (t, a) ∧ current c k t = false ∧ make a = some v := by
    intro t v hMem
    obtain ⟨a, hMem, hNot, hMake⟩ := mem_missing.mp hMem
    exact ⟨a, (hListing _).mp hMem, hNot, hMake⟩
  have hKept : (∀ t v, (k, t, v) ∉ missing make c listing) →
      (store c (missing make c listing)).get k = c.get k := by
    intro hNone
    rw [get_store]
    apply Overwrite.writes_of_notMem
    rw [List.mem_map]
    rintro ⟨⟨k', t, v⟩, hMem, rfl⟩
    exact hNone t v hMem
  rw [get_prune]
  cases hBase : base k with
  | none =>
    refine if_neg fun hMem => ?_
    obtain ⟨d, hListed, rfl⟩ := List.mem_map.mp hMem
    rw [(hListing d).mp hListed] at hBase
    cases hBase
  | some d =>
    obtain ⟨t, a⟩ := d
    have hListed : (k, t, a) ∈ listing := (hListing (k, t, a)).mpr hBase
    rw [if_pos (List.mem_map_of_mem hListed), Option.bind_some]
    cases hCurrent : current c k t with
    | true =>
      obtain ⟨e, hGet, hStamp⟩ := (Option.any_eq_true _ _).mp hCurrent
      have hStamp : e.1 = t := of_decide_eq_true hStamp
      rw [hKept, hGet, (h k t a e hBase hGet).2 hStamp, Option.map_some, ← hStamp]
      intro t' v hMem
      obtain ⟨a', hBase', hNot, -⟩ := hKeys t' v hMem
      cases hBase.symm.trans hBase'
      rw [hCurrent] at hNot
      cases hNot
    | false =>
      cases hMake : make a with
      | none =>
        have hAbsent : c.get k = none := by
          by_contra hSome
          obtain ⟨e, hGet⟩ := Option.ne_none_iff_exists'.mp hSome
          exact (h k t a e hBase hGet).1 hMake
        rw [hKept, hAbsent]
        · rfl
        · intro t' v hMem
          obtain ⟨a', hBase', -, hMake'⟩ := hKeys t' v hMem
          cases hBase.symm.trans hBase'
          rw [hMake] at hMake'
          cases hMake'
      | some v =>
        have hMem : (k, t, v) ∈ missing make c listing :=
          mem_missing.mpr ⟨a, hListed, hCurrent, hMake⟩
        have hWritten : ∃ d ∈ missing make c listing, d.1 = k ∧
            Overwrite.writes Prod.fst (fun d => some d.2) c.get (missing make c listing) k =
              some d.2 := Overwrite.exists_writes (List.mem_map_of_mem hMem)
        obtain ⟨⟨k', t', v'⟩, hMem', hKey, hVal⟩ := hWritten
        dsimp only at hKey
        subst hKey
        obtain ⟨a', hBase', -, hMake'⟩ := hKeys t' v' hMem'
        cases hBase.symm.trans hBase'
        cases hMake.symm.trans hMake'
        rw [get_store]
        exact hVal

end Stamped
