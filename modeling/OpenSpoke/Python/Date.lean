import Mathlib.Algebra.BigOperators.Group.List.Basic
import Mathlib.Algebra.GroupWithZero.Nat
import Mathlib.Tactic.SplitIfs
import OpenSpoke.Python.Int

/-!
# Dates

`datetime.date` in the proleptic Gregorian calendar, from the year 1 to 9999. The
ordinal of a day places it on the line of all days; a shift by days is a shift of
the ordinal as long as that line lasts.
-/

namespace OpenSpoke.Python

def isLeap (year : Nat) : Bool := year % 4 = 0 && (year % 100 ≠ 0 || year % 400 = 0)

def daysInMonth (year month : Nat) : Nat :=
  if month = 2 then if isLeap year then 29 else 28
  else if month = 4 || month = 6 || month = 9 || month = 11 then 30
  else 31

structure Date where
  year : Nat
  month : Nat
  day : Nat
  hYear : 1 ≤ year ∧ year ≤ 9999
  hMonth : 1 ≤ month ∧ month ≤ 12
  hDay : 1 ≤ day ∧ day ≤ daysInMonth year month
  deriving DecidableEq

namespace Date

/-- `date(year, month, day)`, none if it raises. -/
def ofParts (year month day : Nat) : Option Date :=
  if h : (1 ≤ year ∧ year ≤ 9999) ∧ (1 ≤ month ∧ month ≤ 12) ∧
      1 ≤ day ∧ day ≤ daysInMonth year month then
    some ⟨year, month, day, h.1, h.2.1, h.2.2⟩
  else none

def next (d : Date) : Option Date :=
  (ofParts d.year d.month (d.day + 1)).or
    ((ofParts d.year (d.month + 1) 1).or (ofParts (d.year + 1) 1 1))

def prev (d : Date) : Option Date :=
  (ofParts d.year d.month (d.day - 1)).or
    ((ofParts d.year (d.month - 1) (daysInMonth d.year (d.month - 1))).or
      (ofParts (d.year - 1) 12 31))

def repeated (step : Date → Option Date) : Nat → Date → Option Date
  | 0, d => some d
  | n + 1, d => (step d).bind (repeated step n)

/-- `d + timedelta(days=n)`, none on an `OverflowError`. -/
def shift (d : Date) : Int → Option Date
  | .ofNat n => repeated next n d
  | .negSucc n => repeated prev (n + 1) d

def daysBeforeYear (year : Nat) : Nat :=
  let before := year - 1
  365 * before + before / 4 - before / 100 + before / 400

def daysBeforeMonth (year month : Nat) : Nat :=
  ((List.range' 1 (month - 1)).map (daysInMonth year)).sum

/-- `toordinal()`. -/
def ordinal (d : Date) : Nat := daysBeforeYear d.year + daysBeforeMonth d.year d.month + d.day

/-- The ordinal of the last day of 9999. -/
def maxOrdinal : Nat := 3652059

/-- `weekday()`: Monday is 0. -/
def weekday (d : Date) : Nat := (d.ordinal + 6) % 7

/-- `YYYY-MM-DD`. -/
def iso (d : Date) : Text :=
  zeroPad 4 d.year ++ '-' :: zeroPad 2 d.month ++ '-' :: zeroPad 2 d.day

theorem ofParts_eq_some_iff {year month day : Nat} {d : Date} :
    ofParts year month day = some d ↔ d.year = year ∧ d.month = month ∧ d.day = day := by
  constructor
  · intro h
    rw [ofParts] at h
    split at h <;> cases h
    exact ⟨rfl, rfl, rfl⟩
  · rintro ⟨rfl, rfl, rfl⟩
    exact dif_pos ⟨d.hYear, d.hMonth, d.hDay⟩

theorem ofParts_eq_none_iff {year month day : Nat} :
    ofParts year month day = none ↔ ¬((1 ≤ year ∧ year ≤ 9999) ∧ (1 ≤ month ∧ month ≤ 12) ∧
      1 ≤ day ∧ day ≤ daysInMonth year month) := by
  rw [ofParts]
  split
  next h => simp [h]
  next h => simp [h]

theorem daysInMonth_pos (year month : Nat) : 28 ≤ daysInMonth year month := by
  rw [daysInMonth]
  split
  · split <;> omega
  · split <;> omega

theorem daysBeforeMonth_succ {year month : Nat} (h : 1 ≤ month) :
    daysBeforeMonth year (month + 1) = daysBeforeMonth year month + daysInMonth year month := by
  obtain ⟨m, rfl⟩ : ∃ m, month = m + 1 := ⟨month - 1, by omega⟩
  rw [daysBeforeMonth, daysBeforeMonth, Nat.add_sub_cancel, Nat.add_sub_cancel,
    List.range'_concat, List.map_append, List.sum_append]
  simp [Nat.add_comm]

theorem daysBeforeYear_succ {year : Nat} (h : 1 ≤ year) :
    daysBeforeYear (year + 1) = daysBeforeYear year + daysBeforeMonth year 13 := by
  have hMonths : daysBeforeMonth year 13 = if isLeap year then 366 else 365 := by
    cases hLeap : isLeap year <;> simp [daysBeforeMonth, daysInMonth, hLeap, List.range']
  obtain ⟨before, rfl⟩ : ∃ before, year = before + 1 := ⟨year - 1, by omega⟩
  have hLeap : isLeap (before + 1) = true ↔
      4 ∣ before + 1 ∧ (¬ 100 ∣ before + 1 ∨ 400 ∣ before + 1) := by
    simp [isLeap, Nat.dvd_iff_mod_eq_zero]
  have hDiv : ∀ n, (before + 1) / n = before / n + if n ∣ before + 1 then 1 else 0 :=
    fun n => Nat.succ_div
  have hFewer : before / 100 ≤ before / 4 := Nat.div_le_div_left (by decide) (by decide)
  rw [hMonths, daysBeforeYear, daysBeforeYear, Nat.add_sub_cancel, Nat.add_sub_cancel]
  simp only [hDiv, hLeap]
  split_ifs <;> omega

theorem daysBeforeMonth_le {year month month' : Nat} (h : 1 ≤ month) (hLe : month ≤ month') :
    daysBeforeMonth year month ≤ daysBeforeMonth year month' := by
  induction hLe with
  | refl => exact Nat.le_refl _
  | step hLe ih =>
    rw [daysBeforeMonth_succ (Nat.le_trans h hLe)]
    omega

theorem ordinal_bounds (d : Date) :
    daysBeforeYear d.year < d.ordinal ∧ d.ordinal ≤ daysBeforeYear (d.year + 1) := by
  have hMonths : daysBeforeMonth d.year (d.month + 1) ≤ daysBeforeMonth d.year 13 :=
    daysBeforeMonth_le (Nat.succ_pos d.month) (Nat.succ_le_succ d.hMonth.2)
  have hDay := d.hDay
  rw [daysBeforeYear_succ d.hYear.1, ordinal]
  rw [daysBeforeMonth_succ d.hMonth.1] at hMonths
  omega

theorem ordinal_pos (d : Date) : 1 ≤ d.ordinal := Nat.succ_le_of_lt (Nat.zero_lt_of_lt d.ordinal_bounds.1)

theorem daysBeforeYear_mono {year year' : Nat} (h : year ≤ year') :
    daysBeforeYear year ≤ daysBeforeYear year' := by
  induction h with
  | refl => exact Nat.le_refl _
  | @step year' _ ih =>
    cases year' with
    | zero => exact ih
    | succ before =>
      have hSucc : daysBeforeYear (before + 2) =
          daysBeforeYear (before + 1) + daysBeforeMonth (before + 1) 13 :=
        daysBeforeYear_succ (Nat.succ_pos before)
      exact Nat.le_trans ih (hSucc ▸ Nat.le_add_right _ _)

theorem ordinal_le (d : Date) : d.ordinal ≤ maxOrdinal := by
  have hYear : daysBeforeYear (d.year + 1) ≤ daysBeforeYear 10000 :=
    daysBeforeYear_mono (Nat.succ_le_succ d.hYear.2)
  exact Nat.le_trans d.ordinal_bounds.2 hYear

theorem le_year_iff {year : Nat} {d : Date} :
    year ≤ d.year ↔ daysBeforeYear year < d.ordinal := by
  constructor
  · intro h
    exact Nat.lt_of_le_of_lt (daysBeforeYear_mono h) d.ordinal_bounds.1
  · intro h
    by_contra hLess
    have hYear : daysBeforeYear (d.year + 1) ≤ daysBeforeYear year :=
      daysBeforeYear_mono (Nat.lt_of_not_le hLess)
    have := d.ordinal_bounds.2
    omega

theorem next_ordinal {d d' : Date} (h : d.next = some d') : d'.ordinal = d.ordinal + 1 := by
  rw [next, Option.or_eq_some_iff, Option.or_eq_some_iff] at h
  have hDay := d.hDay
  obtain h | ⟨hNot, h | ⟨hLast, h⟩⟩ := h
  · obtain ⟨hy, hm, hd⟩ := ofParts_eq_some_iff.mp h
    rw [ordinal, ordinal, hy, hm, hd]
    omega
  · obtain ⟨hy, hm, hd⟩ := ofParts_eq_some_iff.mp h
    have hEnd := ofParts_eq_none_iff.mp hNot
    rw [ordinal, ordinal, hy, hm, hd, daysBeforeMonth_succ d.hMonth.1]
    have := d.hYear
    have := d.hMonth
    omega
  · obtain ⟨hy, hm, hd⟩ := ofParts_eq_some_iff.mp h
    have hEnd := ofParts_eq_none_iff.mp hNot
    have hDays := daysInMonth_pos d.year (d.month + 1)
    have hYear := d.hYear
    have hMonth : d.month = 12 := by
      have := ofParts_eq_none_iff.mp hLast
      have := d.hMonth
      omega
    have hSucc : daysBeforeMonth d.year 13 = daysBeforeMonth d.year 12 + daysInMonth d.year 12 :=
      daysBeforeMonth_succ (by decide)
    rw [ordinal, ordinal, hy, hm, hd, daysBeforeYear_succ d.hYear.1]
    rw [hMonth] at hEnd hDay ⊢
    have hFirst : daysBeforeMonth (d.year + 1) 1 = 0 := rfl
    omega

theorem prev_ordinal {d d' : Date} (h : d.prev = some d') : d'.ordinal + 1 = d.ordinal := by
  rw [prev, Option.or_eq_some_iff, Option.or_eq_some_iff] at h
  have hDay := d.hDay
  obtain h | ⟨hNot, h | ⟨hFirst, h⟩⟩ := h
  · obtain ⟨hy, hm, hd⟩ := ofParts_eq_some_iff.mp h
    have hDay' := d'.hDay
    rw [ordinal, ordinal, hy, hm, hd]
    omega
  · obtain ⟨hy, hm, hd⟩ := ofParts_eq_some_iff.mp h
    have hStart := ofParts_eq_none_iff.mp hNot
    have hMonth' := d'.hMonth
    have hSucc := @daysBeforeMonth_succ d.year (d.month - 1) (hm ▸ d'.hMonth.1)
    rw [Nat.sub_add_cancel d.hMonth.1] at hSucc
    rw [ordinal, ordinal, hy, hm, hd, hSucc]
    have := d.hYear
    have := d.hMonth
    omega
  · obtain ⟨hy, hm, hd⟩ := ofParts_eq_some_iff.mp h
    have hStart := ofParts_eq_none_iff.mp hNot
    have hDays := daysInMonth_pos d.year (d.month - 1)
    have hYear := d.hYear
    have hMonth : d.month = 1 := by
      have := ofParts_eq_none_iff.mp hFirst
      have := d.hMonth
      omega
    have hYear' := d'.hYear
    have hSucc := @daysBeforeYear_succ (d.year - 1) (hy ▸ hYear'.1)
    have hDec : daysBeforeMonth (d.year - 1) 13 =
        daysBeforeMonth (d.year - 1) 12 + daysInMonth (d.year - 1) 12 :=
      daysBeforeMonth_succ (by decide)
    have hLast : daysInMonth (d.year - 1) 12 = 31 := rfl
    have hJan : daysBeforeMonth d.year 1 = 0 := rfl
    rw [Nat.sub_add_cancel hYear.1] at hSucc
    rw [ordinal, ordinal, hy, hm, hd, hMonth, hSucc]
    omega

theorem next_eq_none_iff {d : Date} : d.next = none ↔ d.ordinal = maxOrdinal := by
  constructor
  · intro h
    rw [next, Option.or_eq_none_iff, Option.or_eq_none_iff] at h
    obtain ⟨hDay, hMonth, hYear⟩ := h
    have hDays := daysInMonth_pos d.year (d.month + 1)
    have hFirst : 28 ≤ daysInMonth (d.year + 1) 1 := daysInMonth_pos _ _
    have := d.hYear
    have := d.hMonth
    have := d.hDay
    rw [ofParts_eq_none_iff] at hDay hMonth hYear
    have hy : d.year = 9999 := by omega
    have hm : d.month = 12 := by omega
    have hd : d.day = 31 := by
      have hLast : daysInMonth d.year d.month = 31 := by
        rw [hm]
        rfl
      omega
    rw [ordinal, hy, hm, hd]
    rfl
  · intro h
    cases hNext : d.next with
    | none => rfl
    | some d' =>
      have := next_ordinal hNext
      have := d'.ordinal_le
      omega

theorem prev_eq_none_iff {d : Date} : d.prev = none ↔ d.ordinal = 1 := by
  constructor
  · intro h
    rw [prev, Option.or_eq_none_iff, Option.or_eq_none_iff] at h
    obtain ⟨hDay, hMonth, hYear⟩ := h
    have hDays := daysInMonth_pos d.year (d.month - 1)
    have hLast : daysInMonth (d.year - 1) 12 = 31 := rfl
    have := d.hYear
    have := d.hMonth
    have := d.hDay
    rw [ofParts_eq_none_iff] at hDay hMonth hYear
    have hd : d.day = 1 := by omega
    have hm : d.month = 1 := by omega
    have hy : d.year = 1 := by omega
    rw [ordinal, hy, hm, hd]
    rfl
  · intro h
    cases hPrev : d.prev with
    | none => rfl
    | some d' =>
      have := prev_ordinal hPrev
      have := d'.ordinal_pos
      omega

theorem repeated_next_iff {n : Nat} {d : Date} :
    (∃ d', repeated next n d = some d') ↔ d.ordinal + n ≤ maxOrdinal := by
  induction n generalizing d with
  | zero => exact iff_of_true ⟨d, rfl⟩ d.ordinal_le
  | succ n ih =>
    rw [repeated]
    cases h : d.next with
    | none =>
      have := next_eq_none_iff.mp h
      simp only [Option.bind_none, reduceCtorEq, exists_false, false_iff]
      omega
    | some e =>
      have := next_ordinal h
      rw [Option.bind_some, ih]
      omega

theorem repeated_prev_iff {n : Nat} {d : Date} :
    (∃ d', repeated prev n d = some d') ↔ n < d.ordinal := by
  induction n generalizing d with
  | zero => exact iff_of_true ⟨d, rfl⟩ d.ordinal_pos
  | succ n ih =>
    rw [repeated]
    cases h : d.prev with
    | none =>
      have := prev_eq_none_iff.mp h
      simp only [Option.bind_none, reduceCtorEq, exists_false, false_iff]
      omega
    | some e =>
      have := prev_ordinal h
      rw [Option.bind_some, ih]
      omega

theorem repeated_next_ordinal {n : Nat} {d d' : Date} (h : repeated next n d = some d') :
    d'.ordinal = d.ordinal + n := by
  induction n generalizing d with
  | zero =>
    cases h
    rfl
  | succ n ih =>
    obtain ⟨e, hNext, hRest⟩ := Option.bind_eq_some_iff.mp h
    have := next_ordinal hNext
    have := ih hRest
    omega

theorem repeated_prev_ordinal {n : Nat} {d d' : Date} (h : repeated prev n d = some d') :
    d'.ordinal + n = d.ordinal := by
  induction n generalizing d with
  | zero =>
    cases h
    rfl
  | succ n ih =>
    obtain ⟨e, hPrev, hRest⟩ := Option.bind_eq_some_iff.mp h
    have := prev_ordinal hPrev
    have := ih hRest
    omega

theorem shift_ordinal {n : Int} {d d' : Date} (h : d.shift n = some d') :
    (d'.ordinal : Int) = d.ordinal + n := by
  cases n with
  | ofNat n =>
    have := repeated_next_ordinal h
    simp only [Int.ofNat_eq_natCast]
    omega
  | negSucc n =>
    have := repeated_prev_ordinal h
    omega

theorem exists_shift_iff {n : Int} {d : Date} :
    (∃ d', d.shift n = some d') ↔ 1 ≤ d.ordinal + n ∧ d.ordinal + n ≤ maxOrdinal := by
  have hPos := d.ordinal_pos
  have hLe := d.ordinal_le
  cases n with
  | ofNat n =>
    refine repeated_next_iff.trans ?_
    simp only [Int.ofNat_eq_natCast]
    omega
  | negSucc n =>
    refine repeated_prev_iff.trans ?_
    omega

theorem zeroPad_length {w n : Nat} (hw : 0 < w) (h : n < 10 ^ w) : (zeroPad w n).length = w := by
  have := (Nat.length_toDigits_le_iff (b := 10) (by decide) hw).mpr h
  rw [zeroPad, List.length_append, List.length_replicate]
  omega

theorem day_lt (d : Date) : d.day < 10 ^ 2 := by
  have hDays : daysInMonth d.year d.month ≤ 31 := by
    rw [daysInMonth]
    split
    · split <;> omega
    · split <;> omega
  have := d.hDay
  omega

theorem iso_length (d : Date) : d.iso.length = 10 := by
  have hYear : (zeroPad 4 d.year).length = 4 :=
    zeroPad_length (by decide) (Nat.lt_succ_of_le d.hYear.2)
  have hMonth : (zeroPad 2 d.month).length = 2 :=
    zeroPad_length (by decide) (Nat.lt_of_le_of_lt d.hMonth.2 (by decide))
  have hDay : (zeroPad 2 d.day).length = 2 := zeroPad_length (by decide) d.day_lt
  simp only [iso, List.length_append, List.length_cons, hYear, hMonth, hDay]

theorem iso_inj {d d' : Date} (h : d.iso = d'.iso) : d = d' := by
  have hLen : ∀ d : Date, (zeroPad 4 d.year).length = 4 ∧ (zeroPad 2 d.month).length = 2 :=
    fun d => ⟨zeroPad_length (by decide) (Nat.lt_succ_of_le d.hYear.2),
      zeroPad_length (by decide) (Nat.lt_of_le_of_lt d.hMonth.2 (by decide))⟩
  rw [iso, iso, List.append_assoc, List.append_assoc, List.cons_append, List.cons_append] at h
  obtain ⟨hYear, hRest⟩ := List.append_inj h ((hLen d).1.trans (hLen d').1.symm)
  obtain ⟨hMonth, hDay⟩ := List.append_inj (List.cons.inj hRest).2
    ((hLen d).2.trans (hLen d').2.symm)
  have hSame := ofParts_eq_some_iff (d := d) |>.mpr ⟨zeroPad_inj hYear, zeroPad_inj hMonth,
    zeroPad_inj (List.cons.inj hDay).2⟩
  have hSelf : ofParts d'.year d'.month d'.day = some d' :=
    ofParts_eq_some_iff.mpr ⟨rfl, rfl, rfl⟩
  exact Option.some.inj (hSame.symm.trans hSelf)

example : (ofParts 2024 3 1).bind (fun d => d.shift (-2)) = ofParts 2024 2 28 := by decide

example : (ofParts 2024 2 29).map weekday = some 3 := by decide

end Date

end OpenSpoke.Python
