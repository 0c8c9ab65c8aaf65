import Mathlib.Computability.Language

/-!
# Regular expressions over classes of symbols

An expression denotes a language, and its derivatives decide whether a text is
in it.
-/

namespace OpenSpoke

open Computability

inductive Regex (α : Type*)
  | fail
  | empty
  | sym (p : α → Bool)
  | alt (r s : Regex α)
  | seq (r s : Regex α)
  | star (r : Regex α)

namespace Regex

variable {α : Type*} {r s : Regex α} {p : α → Bool} {a : α} {w : List α}

def language : Regex α → Language α
  | fail => 0
  | empty => 1
  | sym p => {w | ∃ a, p a = true ∧ w = [a]}
  | alt r s => r.language + s.language
  | seq r s => r.language * s.language
  | star r => r.language∗

/-- The empty text is in the language. -/
def nullable : Regex α → Bool
  | fail | sym _ => false
  | empty | star _ => true
  | alt r s => r.nullable || s.nullable
  | seq r s => r.nullable && s.nullable

/-- What is left of the texts that begin with `a`. -/
def deriv (a : α) : Regex α → Regex α
  | fail | empty => fail
  | sym p => if p a then empty else fail
  | alt r s => alt (r.deriv a) (s.deriv a)
  | seq r s => if r.nullable then alt (seq (r.deriv a) s) (s.deriv a) else seq (r.deriv a) s
  | star r => seq (r.deriv a) (star r)

/-- The whole text is in the language. -/
def test : Regex α → List α → Bool
  | r, [] => r.nullable
  | r, a :: w => (r.deriv a).test w

theorem mem_alt : w ∈ (alt r s).language ↔ w ∈ r.language ∨ w ∈ s.language := Iff.rfl

theorem mem_seq : w ∈ (seq r s).language ↔ ∃ u ∈ r.language, ∃ v ∈ s.language, u ++ v = w :=
  Language.mem_mul

theorem mem_star : w ∈ (star r).language ↔ w ∈ r.language∗ := Iff.rfl

theorem mem_sym : w ∈ (sym p).language ↔ ∃ a, p a = true ∧ w = [a] := Iff.rfl

theorem nullable_iff (r : Regex α) : r.nullable = true ↔ [] ∈ r.language := by
  induction r with
  | fail => simp [nullable, language]
  | empty => simp [nullable, language]
  | sym p => simp [nullable, mem_sym]
  | alt r s ihr ihs => simp [nullable, mem_alt, ihr, ihs]
  | seq r s ihr ihs => simp [nullable, mem_seq, ihr, ihs]
  | star r => exact iff_of_true rfl (Language.nil_mem_kstar r.language)

theorem cons_mem_mul {l m : Language α} :
    a :: w ∈ l * m ↔ (∃ u v, a :: u ∈ l ∧ v ∈ m ∧ u ++ v = w) ∨ [] ∈ l ∧ a :: w ∈ m := by
  rw [Language.mem_mul]
  constructor
  · rintro ⟨u, hu, v, hv, hEq⟩
    cases u with
    | nil => exact .inr ⟨hu, hEq ▸ hv⟩
    | cons b u =>
      obtain ⟨rfl, rfl⟩ := List.cons.inj hEq
      exact .inl ⟨u, v, hu, hv, rfl⟩
  · rintro (⟨u, v, hu, hv, rfl⟩ | ⟨hNil, hMem⟩)
    · exact ⟨a :: u, hu, v, hv, rfl⟩
    · exact ⟨[], hNil, a :: w, hMem, rfl⟩

theorem cons_mem_kstar {l : Language α} :
    a :: w ∈ l∗ ↔ ∃ u v, a :: u ∈ l ∧ v ∈ l∗ ∧ u ++ v = w := by
  constructor
  · intro h
    obtain ⟨parts, hFlat, hParts⟩ := Language.mem_kstar_iff_exists_nonempty.mp h
    cases parts with
    | nil => simp at hFlat
    | cons part parts =>
      obtain ⟨hPart, hNonempty⟩ := hParts part (by simp)
      obtain ⟨b, u, rfl⟩ := List.exists_cons_of_ne_nil hNonempty
      obtain ⟨rfl, rfl⟩ := List.cons.inj hFlat
      exact ⟨u, parts.flatten, hPart, Language.join_mem_kstar fun y hy =>
        (hParts y (List.mem_cons_of_mem _ hy)).1, rfl⟩
  · rintro ⟨u, v, hu, hv, rfl⟩
    obtain ⟨parts, rfl, hParts⟩ := Language.mem_kstar.mp hv
    exact Language.mem_kstar.mpr ⟨(a :: u) :: parts, rfl, by
      rintro y hy
      rcases List.mem_cons.mp hy with rfl | hy
      · exact hu
      · exact hParts y hy⟩

theorem mem_deriv (r : Regex α) : w ∈ (r.deriv a).language ↔ a :: w ∈ r.language := by
  induction r generalizing w with
  | fail => simp [deriv, language]
  | empty => simp [deriv, language]
  | sym p =>
    rw [deriv]
    split
    next h =>
      constructor
      · rintro rfl
        exact ⟨a, h, rfl⟩
      · rintro ⟨b, -, hEq⟩
        exact (List.cons.inj hEq).2
    next h =>
      constructor
      · rintro ⟨⟩
      · rintro ⟨b, hb, hEq⟩
        obtain ⟨rfl, -⟩ := List.cons.inj hEq
        exact absurd hb h
  | alt r s ihr ihs => rw [deriv, mem_alt, mem_alt, ihr, ihs]
  | seq r s ihr ihs =>
    have hSplit : w ∈ (seq (r.deriv a) s).language ↔
        ∃ u v, a :: u ∈ r.language ∧ v ∈ s.language ∧ u ++ v = w := by
      rw [mem_seq]
      constructor
      · rintro ⟨u, hu, v, hv, hEq⟩
        exact ⟨u, v, ihr.mp hu, hv, hEq⟩
      · rintro ⟨u, v, hu, hv, hEq⟩
        exact ⟨u, ihr.mpr hu, v, hv, hEq⟩
    rw [deriv, language, cons_mem_mul, ← hSplit, ← nullable_iff]
    split
    next h => simp [mem_alt, ihs, h]
    next h => simp [h]
  | star r ih =>
    rw [deriv, mem_seq, mem_star, cons_mem_kstar]
    constructor
    · rintro ⟨u, hu, v, hv, hEq⟩
      exact ⟨u, v, ih.mp hu, hv, hEq⟩
    · rintro ⟨u, v, hu, hv, hEq⟩
      exact ⟨u, ih.mpr hu, v, hv, hEq⟩

theorem test_iff (r : Regex α) (w : List α) : r.test w = true ↔ w ∈ r.language := by
  induction w generalizing r with
  | nil => exact nullable_iff r
  | cons a w ih => rw [test, ih, mem_deriv]

/-! ## Words, repetitions and options -/

def word [DecidableEq α] : List α → Regex α
  | [] => empty
  | a :: w => seq (sym (· = a)) (word w)

def many (p : α → Bool) : Regex α := star (sym p)

def many1 (p : α → Bool) : Regex α := seq (sym p) (many p)

def opt (r : Regex α) : Regex α := alt r empty

theorem mem_word [DecidableEq α] (u : List α) : w ∈ (word u).language ↔ w = u := by
  induction u generalizing w with
  | nil => exact Language.mem_one w
  | cons a u ih =>
    rw [word, mem_seq]
    constructor
    · rintro ⟨_, ⟨b, hb, rfl⟩, v, hv, rfl⟩
      rw [ih.mp hv, of_decide_eq_true hb]
      rfl
    · rintro rfl
      exact ⟨[a], ⟨a, by simp, rfl⟩, u, ih.mpr rfl, rfl⟩

theorem mem_word_seq [DecidableEq α] {u : List α} :
    w ∈ (seq (word u) r).language ↔ ∃ v ∈ r.language, w = u ++ v := by
  rw [mem_seq]
  constructor
  · rintro ⟨u', hu, v, hv, rfl⟩
    rw [(mem_word u).mp hu]
    exact ⟨v, hv, rfl⟩
  · rintro ⟨v, hv, rfl⟩
    exact ⟨u, (mem_word u).mpr rfl, v, hv, rfl⟩

theorem mem_many : w ∈ (many p).language ↔ ∀ a ∈ w, p a = true := by
  induction w with
  | nil => exact iff_of_true (Language.nil_mem_kstar _) (by simp)
  | cons a w ih =>
    rw [many, mem_star, cons_mem_kstar]
    constructor
    · rintro ⟨u, v, ⟨b, hb, hEq⟩, hv, rfl⟩
      obtain ⟨rfl, rfl⟩ := List.cons.inj hEq
      exact List.forall_mem_cons.mpr ⟨hb, ih.mp hv⟩
    · intro h
      obtain ⟨ha, hw⟩ := List.forall_mem_cons.mp h
      exact ⟨[], w, ⟨a, ha, rfl⟩, ih.mpr hw, rfl⟩

theorem mem_many1 : w ∈ (many1 p).language ↔ w ≠ [] ∧ ∀ a ∈ w, p a = true := by
  rw [many1, mem_seq]
  constructor
  · rintro ⟨_, ⟨a, ha, rfl⟩, v, hv, rfl⟩
    exact ⟨by simp, List.forall_mem_cons.mpr ⟨ha, mem_many.mp hv⟩⟩
  · rintro ⟨hNonempty, h⟩
    obtain ⟨a, v, rfl⟩ := List.exists_cons_of_ne_nil hNonempty
    obtain ⟨ha, hv⟩ := List.forall_mem_cons.mp h
    exact ⟨[a], ⟨a, ha, rfl⟩, v, mem_many.mpr hv, rfl⟩

end Regex

end OpenSpoke
