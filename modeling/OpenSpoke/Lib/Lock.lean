import Mathlib.Data.List.Nodup
import Mathlib.Logic.Function.Basic

/-!
# Locks with a line

A lock that goes to those who ask for it in the order of their asking. Where each
party stands is kept beside the lock, by the program that uses it.
-/

structure Lock (α : Type*) where
  holder : Option α
  -- the next in line first
  waiting : List α

namespace Lock

variable {α : Type*}

inductive Place
  | outside
  | waiting
  | inside
  deriving DecidableEq

def free : Lock α := ⟨none, []⟩

def acquire (l : Lock α) (a : α) : Lock α :=
  match l.holder with
  | none => { l with holder := some a }
  | some _ => { l with waiting := l.waiting ++ [a] }

/-- The lock goes to the next in line. -/
def release (l : Lock α) : Lock α := ⟨l.waiting.head?, l.waiting.tail⟩

/-- Where the newcomer to a lock stands. -/
def entry (l : Lock α) : Place := if l.holder.isNone then .inside else .waiting

/-- The lock and the places of the parties agree. -/
structure Lined (l : Lock α) (place : α → Place) : Prop where
  holder : ∀ a, l.holder = some a ↔ place a = .inside
  waiting : ∀ a, a ∈ l.waiting ↔ place a = .waiting
  nodup : l.waiting.Nodup
  free : l.holder = none → l.waiting = []

variable {l : Lock α} {place place' : α → Place} {a b : α}

theorem Lined.congr (h : Lined l place) (hEq : ∀ a, place' a = place a) : Lined l place' := by
  rwa [funext hEq]

theorem lined_free (h : ∀ a, place a = .outside) : Lined free place where
  holder a := by simp [free, h a]
  waiting a := by simp [free, h a]
  nodup := List.nodup_nil
  free _ := rfl

theorem Lined.inside_unique (h : Lined l place) (ha : place a = .inside) (hb : place b = .inside) :
    a = b :=
  Option.some.inj (((h.holder a).mpr ha).symm.trans ((h.holder b).mpr hb))

section Moves

variable [DecidableEq α]

theorem Lined.acquire (h : Lined l place) (hOutside : place a = .outside)
    (hSelf : place' a = l.entry) (hOthers : ∀ b, b ≠ a → place' b = place b) :
    Lined (l.acquire a) place' := by
  unfold Lock.acquire
  split
  next hFree =>
    have hSelf : place' a = .inside := by simp [hSelf, entry, hFree]
    have hLine := h.free hFree
    refine ⟨fun b => ?_, fun b => ?_, h.nodup, fun hNone => by cases hNone⟩
    · by_cases hb : b = a
      · simp [hb, hSelf]
      · rw [hOthers b hb, ← h.holder b, hFree]
        simp [Ne.symm hb]
    · by_cases hb : b = a
      · simp [hb, hSelf, hLine]
      · rw [hOthers b hb]
        exact h.waiting b
  next c hHeld =>
    have hSelf : place' a = .waiting := by simp [hSelf, entry, hHeld]
    refine ⟨fun b => ?_, fun b => ?_, ?_, fun hNone => ?_⟩
    · by_cases hb : b = a
      · refine iff_of_false (fun hEq => ?_) (by simp [hb, hSelf])
        have hInside := (h.holder b).mp hEq
        rw [hb, hOutside] at hInside
        cases hInside
      · rw [hOthers b hb]
        exact h.holder b
    · rw [List.mem_append, List.mem_singleton, h.waiting b]
      by_cases hb : b = a
      · simp [hb, hSelf]
      · simp [hOthers b hb, hb]
    · refine List.nodup_append.mpr ⟨h.nodup, List.nodup_singleton a, fun b hb c hc hEq => ?_⟩
      have hWaiting := (h.waiting b).mp hb
      rw [hEq, List.mem_singleton.mp hc, hOutside] at hWaiting
      cases hWaiting
    · cases hHeld.symm.trans hNone

theorem Lined.release (h : Lined l place) (hInside : place a = .inside)
    (hNext : ∀ b, l.waiting.head? = some b → place' b = .inside) (hSelf : place' a = .outside)
    (hOthers : ∀ b, b ≠ a → l.waiting.head? ≠ some b → place' b = place b) :
    Lined l.release place' := by
  have hOwn : a ∉ l.waiting := fun ha => by
    cases hInside.symm.trans ((h.waiting a).mp ha)
  obtain ⟨holder, line⟩ := l
  cases line with
  | nil =>
    refine ⟨fun b => ?_, fun b => ?_, List.nodup_nil, fun _ => rfl⟩
    · refine iff_of_false (by simp [Lock.release]) fun hb => ?_
      by_cases hab : b = a
      · cases hSelf.symm.trans (hab ▸ hb)
      · exact hab (h.inside_unique (hOthers b hab (by simp) ▸ hb) hInside)
    · refine iff_of_false (by simp [Lock.release]) fun hb => ?_
      by_cases hab : b = a
      · cases hSelf.symm.trans (hab ▸ hb)
      · exact absurd ((h.waiting b).mpr (hOthers b hab (by simp) ▸ hb)) List.not_mem_nil
  | cons c rest =>
    have hNodup := List.nodup_cons.mp h.nodup
    have hc : place' c = .inside := hNext c rfl
    have hca : c ≠ a := fun hEq => hOwn (hEq ▸ List.mem_cons_self)
    refine ⟨fun b => ?_, fun b => ?_, hNodup.2, fun hNone => by cases hNone⟩
    · by_cases hbc : b = c
      · simp [hbc, hc, Lock.release]
      · refine iff_of_false (fun hEq => hbc (Option.some.inj hEq).symm) fun hb => ?_
        by_cases hab : b = a
        · cases hSelf.symm.trans (hab ▸ hb)
        · refine hab (h.inside_unique (hOthers b hab ?_ ▸ hb) hInside)
          simpa using Ne.symm hbc
    · by_cases hbc : b = c
      · exact iff_of_false (hbc ▸ hNodup.1) fun hb => by cases hc.symm.trans (hbc ▸ hb)
      · by_cases hab : b = a
        · refine iff_of_false (fun hb => hOwn (hab ▸ List.mem_cons_of_mem _ hb)) fun hb => ?_
          cases hSelf.symm.trans (hab ▸ hb)
        · rw [hOthers b hab (by simpa using Ne.symm hbc), ← h.waiting b]
          simp [Lock.release, hbc]

end Moves

end Lock
