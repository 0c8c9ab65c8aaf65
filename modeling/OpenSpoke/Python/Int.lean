import OpenSpoke.Python.Text

/-!
# Decimal integers

`int` of a byte string, whose bytes are the characters with their codes, and the
way integers are written.
-/

namespace OpenSpoke.Python

/-- A space of ASCII. -/
def isAsciiSpace (c : Char) : Bool := (9 ≤ c.toNat && c.toNat ≤ 13) || c = ' '

/-- The value of digits after those with the value `n`; single underscores may stand between
digits. -/
def digitsFrom (n : Nat) (afterDigit : Bool) : Text → Option Nat
  | [] => if afterDigit then some n else none
  | c :: t =>
    if c.isDigit then digitsFrom (10 * n + (c.toNat - '0'.toNat)) true t
    else if c = '_' && afterDigit then digitsFrom n false t
    else none

/-- `int(t)`, none if it raises. That it refuses more than 4300 digits is left out: nothing that is
read with it has so many. -/
def parseInt (t : Text) : Option Int :=
  match stripIf isAsciiSpace t with
  | '-' :: t => (digitsFrom 0 false t).map fun n : Nat => -(n : Int)
  | '+' :: t => (digitsFrom 0 false t).map Int.ofNat
  | t => (digitsFrom 0 false t).map Int.ofNat

/-- The decimal digits of `i`, after its sign. -/
def decimal : Int → Text
  | .ofNat n => Nat.toDigits 10 n
  | .negSucc n => '-' :: Nat.toDigits 10 (n + 1)

theorem digitsFrom_eq {t : Text} (h : ∀ c ∈ t, c.isDigit = true) (n : Nat) (afterDigit : Bool)
    (hStart : t = [] → afterDigit = true) :
    digitsFrom n afterDigit t = some (Nat.ofDigitChars 10 t n) := by
  induction t generalizing n afterDigit with
  | nil => simp [digitsFrom, hStart rfl]
  | cons c t ih =>
    rw [digitsFrom, if_pos (h c List.mem_cons_self),
      ih (fun d hd => h d (List.mem_cons_of_mem _ hd)) _ _ fun _ => rfl, Nat.ofDigitChars_cons]

theorem digitsFrom_toDigits (n : Nat) : digitsFrom 0 false (Nat.toDigits 10 n) = some n := by
  rw [digitsFrom_eq (fun c hc => Nat.isDigit_of_mem_toDigits (by decide) (by decide) hc) 0 false
    fun hNil => absurd hNil Nat.toDigits_ne_nil, Nat.ofDigitChars_toDigits (by decide) (by decide)]

theorem toDigits_isDigit {n : Nat} {c : Char} (h : c ∈ Nat.toDigits 10 n) : c.isDigit = true :=
  Nat.isDigit_of_mem_toDigits (by decide) (by decide) h

theorem digit_bounds {c : Char} (h : c.isDigit = true) : 48 ≤ c.toNat ∧ c.toNat ≤ 57 := by
  simpa [Char.isDigit, UInt32.le_iff_toNat_le] using h

theorem decimal_mem {i : Int} {c : Char} (h : c ∈ decimal i) : c = '-' ∨ c.isDigit = true := by
  cases i with
  | ofNat n => exact .inr (toDigits_isDigit h)
  | negSucc n =>
    rcases List.mem_cons.mp h with rfl | h
    · exact .inl rfl
    · exact .inr (toDigits_isDigit h)

theorem stripIf_of_not {p : Char → Bool} {t : Text} (h : ∀ c ∈ t, p c = false) :
    stripIf p t = t := by
  have hDrop : ∀ {t : Text}, (∀ c ∈ t, p c = false) → t.dropWhile p = t := by
    intro t h
    cases t with
    | nil => rfl
    | cons c t => rw [List.dropWhile_cons, h c List.mem_cons_self, if_neg Bool.false_ne_true]
  rw [stripIf, hDrop h, hDrop fun c hc => h c (List.mem_reverse.mp hc), List.reverse_reverse]

theorem isAsciiSpace_of_isDigit {c : Char} (h : c.isDigit = true) : isAsciiSpace c = false := by
  have hBounds := digit_bounds h
  have hne : c ≠ ' ' := by
    rintro rfl
    exact absurd hBounds.1 (by decide)
  simp only [isAsciiSpace, Bool.or_eq_false_iff, Bool.and_eq_false_iff, decide_eq_false_iff_not]
  exact ⟨.inr (by omega), hne⟩

theorem parseInt_digits {t : Text} (h : ∀ c ∈ t, c.isDigit = true) (hne : t ≠ []) :
    parseInt t = some (Nat.ofDigitChars 10 t 0 : Nat) := by
  have hStrip : stripIf isAsciiSpace t = t :=
    stripIf_of_not fun c hc => isAsciiSpace_of_isDigit (h c hc)
  have hSign : ∀ c s, t = c :: s → c ≠ '-' ∧ c ≠ '+' := by
    rintro c s rfl
    have hDigit := h c List.mem_cons_self
    exact ⟨fun h => absurd (h ▸ hDigit) (by decide), fun h => absurd (h ▸ hDigit) (by decide)⟩
  rw [parseInt, hStrip]
  split
  next s => exact absurd rfl (hSign _ s rfl).1
  next s => exact absurd rfl (hSign _ s rfl).2
  next =>
    rw [digitsFrom_eq h 0 false fun hNil => absurd hNil hne]
    rfl

theorem strip_decimal (i : Int) : stripIf isAsciiSpace (decimal i) = decimal i := by
  refine stripIf_of_not fun c hc => ?_
  rcases decimal_mem hc with rfl | hDigit
  · rfl
  · exact isAsciiSpace_of_isDigit hDigit

theorem parseInt_decimal (i : Int) : parseInt (decimal i) = some i := by
  cases i with
  | negSucc n =>
    rw [parseInt, strip_decimal]
    simp only [decimal]
    rw [digitsFrom_toDigits]
    rfl
  | ofNat n =>
    rw [decimal, parseInt_digits (fun c hc => toDigits_isDigit hc) Nat.toDigits_ne_nil,
      Nat.ofDigitChars_toDigits (by decide) (by decide)]
    rfl

/-- `f"{n:0wd}"` for a number that is not negative. -/
def zeroPad (w n : Nat) : Text :=
  let digits := Nat.toDigits 10 n
  List.replicate (w - digits.length) '0' ++ digits

theorem ofDigitChars_zeroPad (w n : Nat) : Nat.ofDigitChars 10 (zeroPad w n) 0 = n := by
  rw [zeroPad, Nat.ofDigitChars_append, Nat.ofDigitChars_replicate_zero, Nat.mul_zero,
    Nat.ofDigitChars_ten_toDigits]

theorem zeroPad_inj {w m n : Nat} (h : zeroPad w m = zeroPad w n) : m = n := by
  rw [← ofDigitChars_zeroPad w m, h, ofDigitChars_zeroPad]

theorem zeroPad_isDigit {w n : Nat} {c : Char} (h : c ∈ zeroPad w n) : c.isDigit = true := by
  rcases List.mem_append.mp h with h | h
  · rw [List.eq_of_mem_replicate h]
    rfl
  · exact toDigits_isDigit h

theorem newline_not_mem_decimal (i : Int) : '\n' ∉ decimal i := by
  intro h
  rcases decimal_mem h with h | h <;> exact absurd h (by decide)

/-! ## Decimal digits of Unicode

A string of Python may write an integer with the decimal digits of any script; `int` refuses
more than 4300 of them. -/

/-- The characters of the category Nd with the value zero. -/
def zeros : List Nat :=
  [0x30, 0x660, 0x6F0, 0x7C0, 0x966, 0x9E6, 0xA66, 0xAE6, 0xB66, 0xBE6, 0xC66, 0xCE6, 0xD66,
    0xDE6, 0xE50, 0xED0, 0xF20, 0x1040, 0x1090, 0x17E0, 0x1810, 0x1946, 0x19D0, 0x1A80, 0x1A90,
    0x1B50, 0x1BB0, 0x1C40, 0x1C50, 0xA620, 0xA8D0, 0xA900, 0xA9D0, 0xA9F0, 0xAA50, 0xABF0,
    0xFF10, 0x104A0, 0x10D30, 0x11066, 0x110F0, 0x11136, 0x111D0, 0x112F0, 0x11450, 0x114D0,
    0x11650, 0x116C0, 0x11730, 0x118E0, 0x11950, 0x11C50, 0x11D50, 0x11DA0, 0x16A60, 0x16AC0,
    0x16B50, 0x1D7CE, 0x1D7D8, 0x1D7E2, 0x1D7EC, 0x1D7F6, 0x1E140, 0x1E2F0, 0x1E950, 0x1FBF0]

def digitValue (c : Char) : Option Nat :=
  (zeros.find? fun z => z ≤ c.toNat && c.toNat < z + 10).map fun z => c.toNat - z

/-- `\d`. -/
def isDecimal (c : Char) : Bool := (digitValue c).isSome

/-- `int` of digits. -/
def natOf (digits : Text) : Option Nat :=
  if 4300 < digits.length then none
  else some (digits.foldl (fun n c => 10 * n + (digitValue c).getD 0) 0)

/-- `int` of a text that matches `-?\d+`, none if it raises. -/
def intOf : Text → Option Int
  | '-' :: digits => (natOf digits).map fun n : Nat => -(n : Int)
  | digits => (natOf digits).map Int.ofNat

/-- The number of digits that an integer is written with. -/
def digitCount (i : Int) : Nat := (Nat.toDigits 10 i.natAbs).length

theorem digitValue_of_isDigit {c : Char} (h : c.isDigit = true) :
    digitValue c = some (c.toNat - 48) := by
  have hBounds := digit_bounds h
  have hZero : (48 ≤ c.toNat && c.toNat < 48 + 10) = true := by
    simp only [Bool.and_eq_true, decide_eq_true_eq]
    omega
  have hFirst : zeros = 48 :: zeros.tail := rfl
  rw [digitValue, hFirst, List.find?_cons, hZero, Option.map_some]

theorem isDecimal_of_isDigit {c : Char} (h : c.isDigit = true) : isDecimal c = true := by
  rw [isDecimal, digitValue_of_isDigit h]
  rfl

theorem natOf_toDigits {n : Nat} (h : (Nat.toDigits 10 n).length ≤ 4300) :
    natOf (Nat.toDigits 10 n) = some n := by
  have hFold : ∀ (digits : Text) (m : Nat), (∀ c ∈ digits, c.isDigit = true) →
      digits.foldl (fun n c => 10 * n + (digitValue c).getD 0) m = Nat.ofDigitChars 10 digits m := by
    intro digits
    induction digits with
    | nil => exact fun _ _ => rfl
    | cons c digits ih =>
      intro m hDigits
      rw [List.foldl_cons, ih _ fun d hd => hDigits d (List.mem_cons_of_mem c hd),
        digitValue_of_isDigit (hDigits c List.mem_cons_self), Nat.ofDigitChars_cons]
      rfl
  rw [natOf, if_neg (by omega), hFold _ _ fun c hc => toDigits_isDigit hc,
    Nat.ofDigitChars_toDigits (by decide) (by decide)]

theorem intOf_decimal {i : Int} (h : digitCount i ≤ 4300) : intOf (decimal i) = some i := by
  cases i with
  | negSucc n =>
    have hNat : natOf (Nat.toDigits 10 (n + 1)) = some (n + 1) := natOf_toDigits h
    rw [decimal, intOf, hNat]
    rfl
  | ofNat n =>
    have hSign : ∀ t, decimal (.ofNat n) ≠ '-' :: t := by
      intro t hEq
      have hMem : '-' ∈ decimal (.ofNat n) := hEq ▸ List.mem_cons_self
      exact absurd (toDigits_isDigit hMem) (by decide)
    unfold intOf
    split
    next hEq => exact absurd hEq (hSign _)
    next =>
      have hNat : natOf (Nat.toDigits 10 n) = some n := natOf_toDigits h
      rw [decimal, hNat]
      rfl

end OpenSpoke.Python
