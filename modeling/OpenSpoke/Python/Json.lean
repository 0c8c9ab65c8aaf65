import Mathlib.Algebra.Group.Nat.Defs
import Mathlib.Data.Nat.Log
import OpenSpoke.Python.Text

/-!
# JSON through the standard library

What becomes of a JSON value that `json.loads` reads and `json.dumps` writes again. A number with a
fraction or an exponent goes through a float, which has 53 binary digits and is written by the
shortest decimal that reads back as itself.
-/

namespace OpenSpoke.Python

/-! ## Floats -/

/-- `b ^ e` for an exponent of either sign. -/
def power (b : Nat) (e : Int) : Rat :=
  if 0 ≤ e then mkRat (b ^ e.toNat : Nat) 1 else mkRat 1 (b ^ (-e).toNat)

/-- The place of the leading digit of a positive number in base `b`. -/
def leading (b : Nat) (q : Rat) : Int :=
  let e := (Nat.log b q.num.natAbs : Int) - Nat.log b q.den
  if power b e ≤ q then e else e - 1

/-- The nearest integer, the even one of two. -/
def roundEven (q : Rat) : Int :=
  let rest := q - q.floor
  if rest < mkRat 1 2 ∨ rest = mkRat 1 2 ∧ q.floor % 2 = 0 then q.floor else q.floor + 1

/-- `float` of a decimal literal, none where it is infinite. -/
def toFloat (x : Rat) : Option Rat :=
  if x = 0 then some 0
  else
    let unit := power 2 (max (leading 2 x.abs - 52) (-1074))
    let d := roundEven (x / unit) * unit
    if d.abs < power 2 1024 then some d else none

/-- The decimals of `digits` digits next to a float, the nearer one first. -/
def neighbours (d : Rat) (digits : Nat) : List Rat :=
  let unit := power 10 (leading 10 d.abs - digits + 1)
  let below := (d / unit).floor
  if roundEven (d / unit) = below then [below * unit, (below + 1) * unit]
  else [(below + 1) * unit, below * unit]

/-- `repr` of a float: the shortest decimal that reads back as it. -/
def repr (d : Rat) : Rat :=
  if d = 0 then 0
  else
    let decimals := (List.range 17).flatMap fun n => neighbours d (n + 1)
    (decimals.find? fun x => toFloat x = some d).getD d

example : (toFloat (mkRat 1234567890123456789 (10 ^ 19))).map repr =
    some (mkRat 12345678901234568 (10 ^ 17)) := by decide +kernel

/-! ## Values -/

/-- The value of a JSON text. Its objects have no member twice: OpenSearch takes no others. -/
inductive Json
  | null
  | bool (b : Bool)
  | int (i : Int)
  /-- a number whose literal has a fraction or an exponent -/
  | number (x : Rat)
  | str (t : Text)
  | list (vs : List Json)
  | dict (ms : List (Text × Json))

/-- The most digits that `int` reads. -/
def intMaxStrDigits : Nat := 4300

namespace Json

mutual

/-- `json.dumps(json.loads(_))`, none where it raises; `allow_nan` is off. -/
def reencode : Json → Option Json
  | .null => some .null
  | .bool b => some (.bool b)
  | .int i => if i.natAbs < 10 ^ intMaxStrDigits then some (.int i) else none
  | .number x => (toFloat x).map fun d => .number (repr d)
  | .str t => some (.str t)
  | .list vs => (reencodeList vs).map .list
  | .dict ms => (reencodeMembers ms).map .dict

def reencodeList : List Json → Option (List Json)
  | [] => some []
  | v :: vs => (reencode v).bind fun v => (reencodeList vs).map (v :: ·)

def reencodeMembers : List (Text × Json) → Option (List (Text × Json))
  | [] => some []
  | (k, v) :: ms => (reencode v).bind fun v => (reencodeMembers ms).map ((k, v) :: ·)

end

/-- Each number in the value is what its float says. -/
inductive Exact : Json → Prop
  | null : Exact .null
  | bool (b : Bool) : Exact (.bool b)
  | int {i : Int} (h : i.natAbs < 10 ^ intMaxStrDigits) : Exact (.int i)
  | number {x : Rat} (h : (toFloat x).map repr = some x) : Exact (.number x)
  | str (t : Text) : Exact (.str t)
  | list {vs : List Json} (h : ∀ v ∈ vs, Exact v) : Exact (.list vs)
  | dict {ms : List (Text × Json)} (h : ∀ m ∈ ms, Exact m.2) : Exact (.dict ms)

mutual

theorem reencode_eq_self_iff : ∀ v : Json, v.reencode = some v ↔ Exact v
  | .null => by simp [reencode, Exact.null]
  | .bool b => by simp [reencode, Exact.bool]
  | .int i => by
    rw [reencode]
    constructor
    · intro h
      split at h
      next hLen => exact .int hLen
      next => cases h
    · intro h
      cases h with
      | int hLen => exact if_pos hLen
  | .number x => by
    rw [reencode]
    constructor
    · intro h
      obtain ⟨d, hd, hEq⟩ := Option.map_eq_some_iff.mp h
      exact .number (by rw [hd, Option.map_some, Json.number.inj hEq])
    · intro h
      cases h with
      | number hSame =>
        obtain ⟨d, hd, hEq⟩ := Option.map_eq_some_iff.mp hSame
        rw [hd, Option.map_some, hEq]
  | .str t => by simp [reencode, Exact.str]
  | .list vs => by
    rw [reencode]
    constructor
    · intro h
      obtain ⟨ws, hws, hEq⟩ := Option.map_eq_some_iff.mp h
      rw [Json.list.inj hEq] at hws
      exact .list ((reencodeList_eq_self_iff vs).mp hws)
    · intro h
      cases h with
      | list hAll => rw [(reencodeList_eq_self_iff vs).mpr hAll, Option.map_some]
  | .dict ms => by
    rw [reencode]
    constructor
    · intro h
      obtain ⟨ns, hns, hEq⟩ := Option.map_eq_some_iff.mp h
      rw [Json.dict.inj hEq] at hns
      exact .dict ((reencodeMembers_eq_self_iff ms).mp hns)
    · intro h
      cases h with
      | dict hAll => rw [(reencodeMembers_eq_self_iff ms).mpr hAll, Option.map_some]

theorem reencodeList_eq_self_iff : ∀ vs : List Json,
    reencodeList vs = some vs ↔ ∀ v ∈ vs, Exact v
  | [] => by simp [reencodeList]
  | v :: vs => by
    rw [reencodeList, List.forall_mem_cons, ← reencode_eq_self_iff v, ← reencodeList_eq_self_iff vs]
    simp only [Option.bind_eq_some_iff, Option.map_eq_some_iff, List.cons.injEq]
    constructor
    · rintro ⟨_, hv, _, hvs, rfl, rfl⟩
      exact ⟨hv, hvs⟩
    · rintro ⟨hv, hvs⟩
      exact ⟨v, hv, vs, hvs, rfl, rfl⟩

theorem reencodeMembers_eq_self_iff : ∀ ms : List (Text × Json),
    reencodeMembers ms = some ms ↔ ∀ m ∈ ms, Exact m.2
  | [] => by simp [reencodeMembers]
  | (k, v) :: ms => by
    rw [reencodeMembers, List.forall_mem_cons, ← reencode_eq_self_iff v,
      ← reencodeMembers_eq_self_iff ms]
    simp only [Option.bind_eq_some_iff, Option.map_eq_some_iff, List.cons.injEq, Prod.mk.injEq,
      true_and]
    constructor
    · rintro ⟨_, hv, _, hms, rfl, rfl⟩
      exact ⟨hv, hms⟩
    · rintro ⟨hv, hms⟩
      exact ⟨v, hv, ms, hms, rfl, rfl⟩

end

end Json

end OpenSpoke.Python
