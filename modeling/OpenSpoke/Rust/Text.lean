import Mathlib.Algebra.Group.Nat.Defs
import Mathlib.Data.List.Basic
import OpenSpoke.Python.Int

/-!
# Text functions of Rust's standard library

`trim`, `find`, `splitn` and the parsing of `u16`, on the characters of a string.
-/

namespace OpenSpoke.Rust

abbrev Text := List Char

/-- `char::is_whitespace`. -/
def isWhitespace (c : Char) : Bool :=
  let n := c.toNat
  (9 ≤ n && n ≤ 13) || n = 0x20 || n = 0x85 || n = 0xA0 || n = 0x1680 ||
    (0x2000 ≤ n && n ≤ 0x200A) || n = 0x2028 || n = 0x2029 || n = 0x202F || n = 0x205F || n = 0x3000

def trim (t : Text) : Text := Python.stripIf isWhitespace t

/-- What stands before the first `c`. -/
def before (c : Char) (t : Text) : Text := t.takeWhile (· ≠ c)

/-- What stands after it. -/
def after (c : Char) (t : Text) : Text := (t.dropWhile (· ≠ c)).tail

/-- `splitn(n, c)`. -/
def splitn (c : Char) : Nat → Text → List Text
  | 0, _ => []
  | 1, t => [t]
  | n + 2, t => if c ∈ t then before c t :: splitn c (n + 1) (after c t) else [t]

inductive ParseIntError
  | empty
  | invalidDigit
  | posOverflow
  deriving DecidableEq

def ParseIntError.message : ParseIntError → String
  | .empty => "cannot parse integer from empty string"
  | .invalidDigit => "invalid digit found in string"
  | .posOverflow => "number too large to fit in target type"

/-- The value of decimal digits in `u16`, from the left: it stops at the first digit that is
none and at the first overflow. -/
def parseDigits (n : Nat) : Text → Except ParseIntError Nat
  | [] => .ok n
  | c :: t =>
    if ¬c.isDigit then .error .invalidDigit
    else if 2 ^ 16 ≤ 10 * n + (c.toNat - '0'.toNat) then .error .posOverflow
    else parseDigits (10 * n + (c.toNat - '0'.toNat)) t

/-- A leading plus sign says nothing. -/
def unsigned (t : Text) : Text := if t.head? = some '+' then t.tail else t

/-- `str::parse::<u16>`. -/
def parseU16 (t : Text) : Except ParseIntError Nat :=
  if t = [] then .error .empty
  else if t = ['+'] ∨ t = ['-'] then .error .invalidDigit
  else parseDigits 0 (unsigned t)

/-- A text reads as a number of 16 bits: digits after an optional plus sign. -/
def ReadsAs (t : Text) (n : Nat) : Prop :=
  n < 2 ^ 16 ∧ unsigned t ≠ [] ∧ (∀ c ∈ unsigned t, c.isDigit = true) ∧
    Nat.ofDigitChars 10 (unsigned t) 0 = n

theorem mem_before {c : Char} {t : Text} : c ∉ before c t := by
  intro h
  have := List.mem_takeWhile_imp h
  simp at this

theorem before_append {c : Char} {a : Text} (h : c ∉ a) (b : Text) : before c (a ++ c :: b) = a := by
  rw [before, List.takeWhile_append_of_pos]
  · simp
  · intro d hd
    exact decide_eq_true fun hEq => h (hEq ▸ hd)

theorem after_append {c : Char} {a : Text} (h : c ∉ a) (b : Text) : after c (a ++ c :: b) = b := by
  rw [after, List.dropWhile_append_of_pos]
  · simp
  · intro d hd
    exact decide_eq_true fun hEq => h (hEq ▸ hd)

theorem before_of_not_mem {c : Char} {t : Text} (h : c ∉ t) : before c t = t :=
  List.takeWhile_eq_self_iff.mpr fun _ hd => decide_eq_true fun hEq => h (hEq ▸ hd)

theorem before_after {c : Char} {t : Text} (h : c ∈ t) : t = before c t ++ c :: after c t := by
  obtain ⟨a, b, rfl, hNot⟩ := List.eq_append_cons_of_mem h
  rw [before_append hNot, after_append hNot]

theorem splitn_three {c : Char} {t a b d : Text} :
    splitn c 3 t = [a, b, d] ↔ t = a ++ c :: (b ++ c :: d) ∧ c ∉ a ∧ c ∉ b := by
  constructor
  · intro h
    rw [splitn] at h
    split at h
    next hFirst =>
      rw [splitn] at h
      split at h
      next hSecond =>
        simp only [splitn, List.cons.injEq, and_true] at h
        obtain ⟨rfl, rfl, rfl⟩ := h
        exact ⟨(before_after hFirst).trans (congrArg _ (congrArg _ (before_after hSecond))),
          mem_before, mem_before⟩
      next => simp at h
    next => simp at h
  · rintro ⟨rfl, hA, hB⟩
    rw [splitn, if_pos (by simp), before_append hA, after_append hA, splitn, if_pos (by simp),
      before_append hB, after_append hB, splitn]

theorem parseDigits_eq_ok_iff {n m : Nat} {t : Text} (hn : n < 2 ^ 16) :
    parseDigits n t = .ok m ↔
      m < 2 ^ 16 ∧ (∀ c ∈ t, c.isDigit = true) ∧ Nat.ofDigitChars 10 t n = m := by
  induction t generalizing n with
  | nil =>
    simp only [parseDigits, Except.ok.injEq, List.not_mem_nil, false_implies, implies_true,
      true_and, Nat.ofDigitChars_nil]
    constructor
    · rintro rfl
      exact ⟨hn, rfl⟩
    · exact And.right
  | cons c t ih =>
    rw [parseDigits]
    split
    next hNot => simp [hNot]
    next hDigit =>
      rw [not_not] at hDigit
      rw [Nat.ofDigitChars_cons]
      split
      next hOver =>
        have hLe : 10 * n + (c.toNat - '0'.toNat) ≤
            Nat.ofDigitChars 10 t (10 * n + (c.toNat - '0'.toNat)) := by
          rw [Nat.ofDigitChars_eq_ofDigitChars_zero]
          exact Nat.le_trans (Nat.le_mul_of_pos_left _ (Nat.pow_pos (by decide)))
            (Nat.le_add_right _ _)
        simp only [reduceCtorEq, false_iff]
        rintro ⟨hm, -, rfl⟩
        omega
      next hFits =>
        rw [ih (Nat.lt_of_not_le hFits)]
        simp [hDigit]

theorem parseU16_eq_ok_iff {t : Text} {n : Nat} : parseU16 t = .ok n ↔ ReadsAs t n := by
  rw [parseU16]
  split
  next hNil => simp [hNil, ReadsAs, unsigned]
  next hNe =>
    split
    next hSign =>
      simp only [reduceCtorEq, false_iff]
      rintro ⟨-, hSome, hDigits, -⟩
      obtain rfl | rfl := hSign
      · exact hSome rfl
      · exact absurd (hDigits '-' List.mem_cons_self) (by decide)
    next hSign =>
      have hSome : unsigned t ≠ [] := by
        rw [unsigned]
        split
        next hPlus =>
          obtain ⟨rest, rfl⟩ := List.head?_eq_some_iff.mp hPlus
          rintro rfl
          exact hSign (.inl rfl)
        next => exact hNe
      rw [parseDigits_eq_ok_iff (by decide), ReadsAs, and_iff_right hSome]

theorem readsAs_toDigits {n : Nat} (h : n < 2 ^ 16) : ReadsAs (Nat.toDigits 10 n) n := by
  have hUnsigned : unsigned (Nat.toDigits 10 n) = Nat.toDigits 10 n := by
    refine if_neg fun hPlus => ?_
    have := Python.toDigits_isDigit (List.mem_of_head? hPlus)
    exact absurd this (by decide)
  refine ⟨h, ?_, fun c hc => ?_, ?_⟩
  · rw [hUnsigned]
    exact Nat.toDigits_ne_nil
  · rw [hUnsigned] at hc
    exact Python.toDigits_isDigit hc
  · rw [hUnsigned, Nat.ofDigitChars_ten_toDigits]

theorem trim_eq_self_iff {t : Text} : trim t = t ↔
    (∀ c, t.head? = some c → isWhitespace c = false) ∧
      ∀ c, t.getLast? = some c → isWhitespace c = false := by
  have hDrop : t.dropWhile isWhitespace = t ↔ ∀ c, t.head? = some c → isWhitespace c = false := by
    cases t with
    | nil => simp
    | cons c t => simp [List.dropWhile_eq_self_iff]
  have hLast : t.rdropWhile isWhitespace = t ↔
      ∀ c, t.getLast? = some c → isWhitespace c = false := by
    rw [List.rdropWhile_eq_self_iff]
    constructor
    · intro h c hc
      obtain ⟨hNe, rfl⟩ := List.mem_getLast?_eq_getLast hc
      exact Bool.eq_false_iff.mpr (h hNe)
    · intro h hNe
      exact Bool.eq_false_iff.mp (h _ (List.getLast?_eq_some_getLast hNe))
  rw [trim, Python.stripIf_eq, ← hDrop, ← hLast]
  constructor
  · intro h
    have hFront : t.dropWhile isWhitespace = t := by
      have hPrefix : (t.dropWhile isWhitespace).rdropWhile isWhitespace <+: t.dropWhile isWhitespace :=
        List.rdropWhile_prefix _ _
      rw [h] at hPrefix
      exact (List.dropWhile_suffix isWhitespace).eq_of_length_le hPrefix.length_le
    rw [hFront] at h
    exact ⟨hFront, h⟩
  · rintro ⟨hFront, hBack⟩
    rw [hFront, hBack]

end OpenSpoke.Rust
