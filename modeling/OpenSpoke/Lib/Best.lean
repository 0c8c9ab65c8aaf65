import Mathlib.Order.Lattice

/-!
# The best of a list

A scan keeps the first element that is better than all before it and than a floor.
-/

namespace Best

variable {α β : Type*} [LinearOrder β] (f : α → β)

def better (acc : β × Option α) (a : α) : β × Option α :=
  if acc.1 < f a then (f a, some a) else acc

def scan (acc : β × Option α) (l : List α) : β × Option α := l.foldl (better f) acc

theorem scan_append (acc : β × Option α) (l l' : List α) :
    scan f acc (l ++ l') = scan f (scan f acc l) l' :=
  List.foldl_append

theorem better_spec (acc : β × Option α) (a : α) :
    acc.1 ≤ (better f acc a).1 ∧ f a ≤ (better f acc a).1 ∧
      (better f acc a = acc ∨ better f acc a = (f a, some a) ∧ acc.1 < f a) := by
  rw [better]
  split
  · rename_i h
    exact ⟨le_of_lt h, le_refl _, .inr ⟨rfl, h⟩⟩
  · rename_i h
    exact ⟨le_refl _, not_lt.mp h, .inl rfl⟩

theorem scan_spec (acc : β × Option α) (l : List α) :
    acc.1 ≤ (scan f acc l).1 ∧ (∀ a ∈ l, f a ≤ (scan f acc l).1) ∧
      (scan f acc l = acc ∨ ∃ a ∈ l, scan f acc l = (f a, some a) ∧ acc.1 < f a) := by
  induction l generalizing acc with
  | nil => exact ⟨le_refl _, fun a ha => absurd ha List.not_mem_nil, .inl rfl⟩
  | cons a l ih =>
    obtain ⟨hAcc, hHere, hStep⟩ := better_spec f acc a
    obtain ⟨hMono, hAll, hEnd⟩ := ih (better f acc a)
    have hScan : scan f acc (a :: l) = scan f (better f acc a) l := rfl
    rw [hScan]
    refine ⟨le_trans hAcc hMono, ?_, ?_⟩
    · intro b hb
      obtain rfl | hb := List.mem_cons.mp hb
      · exact le_trans hHere hMono
      · exact hAll b hb
    · obtain hEnd | ⟨b, hb, hEnd, hLt⟩ := hEnd
      · obtain hStep | ⟨hStep, hLt⟩ := hStep
        · exact .inl (hEnd.trans hStep)
        · exact .inr ⟨a, List.mem_cons_self, hEnd.trans hStep, hLt⟩
      · exact .inr ⟨b, List.mem_cons_of_mem a hb, hEnd, lt_of_le_of_lt hAcc hLt⟩

/-- The second part of a list changes nothing, or it has an element that is better than all
of the first. -/
theorem scan_append_spec (floor : β) (l l' : List α) :
    scan f (floor, none) (l ++ l') = scan f (floor, none) l ∨
      ∃ a ∈ l', scan f (floor, none) (l ++ l') = (f a, some a) ∧ floor < f a ∧ ∀ b ∈ l, f b < f a := by
  rw [scan_append]
  obtain ⟨hFloor, hFirst, -⟩ := scan_spec f (floor, none) l
  obtain ⟨-, -, hSame | ⟨a, ha, hEnd, hLt⟩⟩ := scan_spec f (scan f (floor, none) l) l'
  · exact .inl hSame
  · exact .inr ⟨a, ha, hEnd, lt_of_le_of_lt hFloor hLt, fun b hb => lt_of_le_of_lt (hFirst b hb) hLt⟩

/-- What a scan ends with is the best of `l`, where it is good enough. -/
structure Answers (enough : β) (l : List α) (result : β × Option α) : Prop where
  found_iff : (∃ v a, result = (v, some a) ∧ enough ≤ v) ↔ ∃ a ∈ l, enough ≤ f a
  best : ∀ v a, result = (v, some a) → enough ≤ v → a ∈ l ∧ f a = v ∧ ∀ b ∈ l, f b ≤ v

variable {f} {floor enough : β} {l l' : List α}

theorem answers_self (h : floor < enough) : Answers f enough l (scan f (floor, none) l) := by
  obtain ⟨-, hAll, hStart | ⟨b, hb, hEnd, -⟩⟩ := scan_spec f (floor, none) l
  · rw [hStart] at hAll ⊢
    constructor
    · constructor
      · rintro ⟨v, a, hSome, -⟩
        simp at hSome
      · rintro ⟨a, ha, hEnough⟩
        exact absurd (hEnough.trans (hAll a ha)) (not_le.mpr h)
    · intro v a hSome
      simp at hSome
  · rw [hEnd] at hAll ⊢
    constructor
    · constructor
      · rintro ⟨v, a, hSome, hEnough⟩
        obtain ⟨rfl, -⟩ := Prod.mk.inj hSome
        exact ⟨b, hb, hEnough⟩
      · rintro ⟨a, ha, hEnough⟩
        exact ⟨f b, b, rfl, hEnough.trans (hAll a ha)⟩
    · intro v a hSome _
      obtain ⟨rfl, hSame⟩ := Prod.mk.inj hSome
      obtain rfl := Option.some.inj hSame
      exact ⟨hb, rfl, hAll⟩

/-- More elements spoil the answer only where one of them is better than all of `l`. -/
theorem answers_append_iff (h : floor < enough) :
    Answers f enough l (scan f (floor, none) (l ++ l')) ↔
      ∀ a ∈ l', enough ≤ f a → ∃ b ∈ l, f a ≤ f b := by
  obtain ⟨-, hEvery, -⟩ := scan_spec f (floor, none) (l ++ l')
  have hOther : ∀ a ∈ l', f a ≤ (scan f (floor, none) (l ++ l')).1 := fun a ha =>
    hEvery a (List.mem_append_right l ha)
  obtain hSame | ⟨b, hb, hEnd, -, hAll⟩ := scan_append_spec f floor l l'
  · rw [hSame] at hOther ⊢
    refine iff_of_true (answers_self h) fun a ha hEnough => ?_
    obtain ⟨-, -, hStart | ⟨b, hb, hEnd, -⟩⟩ := scan_spec f (floor, none) l
    · rw [hStart] at hOther
      exact absurd (hEnough.trans (hOther a ha)) (not_le.mpr h)
    · rw [hEnd] at hOther
      exact ⟨b, hb, hOther a ha⟩
  · rw [hEnd] at hOther ⊢
    have hAbove : enough ≤ f b → ¬∃ c ∈ l, f b ≤ f c := by
      rintro - ⟨c, hc, hLe⟩
      exact absurd hLe (not_le.mpr (hAll c hc))
    by_cases hEnough : enough ≤ f b
    · refine iff_of_false (fun hAnswers => ?_) fun hOutdone => hAbove hEnough (hOutdone b hb hEnough)
      obtain ⟨hMem, -⟩ := hAnswers.best (f b) b rfl hEnough
      exact lt_irrefl _ (hAll b hMem)
    · refine iff_of_true ⟨iff_of_false ?_ ?_, ?_⟩ fun a ha hLe => absurd (hLe.trans (hOther a ha)) hEnough
      · rintro ⟨v, a, hSome, hLe⟩
        obtain ⟨rfl, -⟩ := Prod.mk.inj hSome
        exact hEnough hLe
      · rintro ⟨a, ha, hLe⟩
        exact hEnough (hLe.trans (le_of_lt (hAll a ha)))
      · intro v a hSome hLe
        obtain ⟨rfl, -⟩ := Prod.mk.inj hSome
        exact absurd hLe hEnough

end Best
