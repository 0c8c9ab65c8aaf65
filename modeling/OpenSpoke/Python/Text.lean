import Mathlib.Data.List.DropRight
import Mathlib.Data.List.Infix

/-!
# Text functions of Python's standard library

A text is its list of code points.
-/

namespace OpenSpoke.Python

abbrev Text := List Char

instance : LawfulBEq Text := inferInstance

/-- `str.isspace` of one character. -/
def isSpace (c : Char) : Bool :=
  let n := c.toNat
  (9 ≤ n && n ≤ 13) || (28 ≤ n && n ≤ 32) || n = 0x85 || n = 0xA0 || n = 0x1680 ||
    (0x2000 ≤ n && n ≤ 0x200A) || n = 0x2028 || n = 0x2029 || n = 0x202F || n = 0x205F || n = 0x3000

def stripIf (p : Char → Bool) (t : Text) : Text :=
  ((t.dropWhile p).reverse.dropWhile p).reverse

/-- `str.strip()`. -/
def strip (t : Text) : Text := stripIf isSpace t

theorem stripIf_eq (p : Char → Bool) (t : Text) : stripIf p t = (t.dropWhile p).rdropWhile p := rfl

theorem stripIf_stripIf (p : Char → Bool) (t : Text) : stripIf p (stripIf p t) = stripIf p t := by
  have hFront : (stripIf p t).dropWhile p = stripIf p t := by
    rw [List.dropWhile_eq_self_iff]
    intro hPos
    obtain ⟨rest, hRest⟩ : stripIf p t <+: t.dropWhile p := List.rdropWhile_prefix p _
    have hHead : 0 < (t.dropWhile p).length := by
      rw [← hRest, List.length_append]
      omega
    have hEq : (stripIf p t)[0] = (t.dropWhile p)[0] := by
      simp only [← hRest, List.getElem_append_left hPos]
    rw [hEq]
    exact List.dropWhile_get_zero_not p t hHead
  rw [stripIf_eq p (stripIf p t), hFront]
  exact List.rdropWhile_idempotent p _

theorem strip_strip (t : Text) : strip (strip t) = strip t := stripIf_stripIf isSpace t

theorem stripIf_split (p : Char → Bool) (t : Text) :
    ∃ back, t = t.takeWhile p ++ (stripIf p t ++ back) ∧ (∀ c ∈ back, p c = true) ∧
      ∀ c ∈ (stripIf p t).head?, p c = false := by
  have hBack : stripIf p t ++ (t.dropWhile p).rtakeWhile p = t.dropWhile p := by
    rw [stripIf_eq, List.rdropWhile_append_rtakeWhile]
  refine ⟨(t.dropWhile p).rtakeWhile p, ?_, fun c hc => List.mem_rtakeWhile_imp hc, ?_⟩
  · rw [hBack, List.takeWhile_append_dropWhile]
  · intro c hc
    have hHead : (t.dropWhile p).head? = some c := by
      rw [← hBack, List.head?_append, hc]
      rfl
    have hNot := List.head?_dropWhile_not p t
    rw [hHead] at hNot
    exact hNot

theorem stripIf_append_of_all {p : Char → Bool} {back : Text} (h : ∀ c ∈ back, p c = true)
    (t : Text) : stripIf p (t ++ back) = stripIf p t := by
  have hBack : ∀ l : Text, (l ++ back).rdropWhile p = l.rdropWhile p := by
    intro l
    rw [List.rdropWhile, List.rdropWhile, List.reverse_append,
      List.dropWhile_append_of_pos fun c hc => h c (List.mem_reverse.mp hc)]
  rw [stripIf_eq, stripIf_eq, List.dropWhile_append]
  split
  next hEmpty =>
    rw [List.isEmpty_iff.mp hEmpty, List.dropWhile_eq_nil_iff.mpr h]
  next => exact hBack _

theorem strip_eq_nil_iff (t : Text) : strip t = [] ↔ ∀ c ∈ t, isSpace c = true := by
  obtain ⟨back, hSplit, hBack, -⟩ := stripIf_split isSpace t
  rw [strip]
  constructor
  · intro hNil c hc
    rw [hSplit, hNil, List.nil_append, List.mem_append] at hc
    obtain hc | hc := hc
    · exact List.mem_takeWhile_imp hc
    · exact hBack c hc
  · intro hAll
    have hDrop : t.dropWhile isSpace = [] := List.dropWhile_eq_nil_iff.mpr hAll
    rw [stripIf_eq, hDrop]
    rfl

/-! ## The order -/

/-- `s < t`. -/
def before : Text → Text → Bool
  | _, [] => false
  | [], _ :: _ => true
  | a :: s, b :: t => a.toNat < b.toNat || (a = b && before s t)

theorem before_nil (s : Text) : before s [] = false := by cases s <;> rfl

theorem before_cons (a b : Char) (s t : Text) :
    before (a :: s) (b :: t) = (a.toNat < b.toNat || (a = b && before s t)) := rfl

theorem before_irrefl (s : Text) : before s s = false := by
  induction s with
  | nil => rfl
  | cons a s ih => simp [before_cons, ih]

theorem before_trans {s t u : Text} (hst : before s t = true) (htu : before t u = true) :
    before s u = true := by
  induction s generalizing t u with
  | nil =>
    cases u with
    | nil => simp [before_nil] at htu
    | cons c u => rfl
  | cons a s ih =>
    cases t with
    | nil => simp [before_nil] at hst
    | cons b t =>
      cases u with
      | nil => simp [before_nil] at htu
      | cons c u =>
        simp only [before_cons, Bool.or_eq_true, decide_eq_true_eq, Bool.and_eq_true] at hst htu ⊢
        rcases hst with hab | ⟨rfl, hst⟩ <;> rcases htu with hbc | ⟨rfl, htu⟩
        · exact .inl (by omega)
        · exact .inl hab
        · exact .inl hbc
        · exact .inr ⟨rfl, ih hst htu⟩

theorem before_asymm {s t : Text} (hst : before s t = true) : ¬before t s = true := by
  intro hts
  have hLoop := before_trans hst hts
  rw [before_irrefl] at hLoop
  cases hLoop

theorem before_total {s t : Text} (hne : s ≠ t) : before s t = true ∨ before t s = true := by
  induction s generalizing t with
  | nil =>
    cases t with
    | nil => exact absurd rfl hne
    | cons b t => exact .inl rfl
  | cons a s ih =>
    cases t with
    | nil => exact .inr rfl
    | cons b t =>
      simp only [before_cons, Bool.or_eq_true, decide_eq_true_eq, Bool.and_eq_true]
      by_cases hab : a = b
      · subst hab
        rcases ih fun hEq => hne (congrArg (a :: ·) hEq) with h | h
        · exact .inl (.inr ⟨rfl, h⟩)
        · exact .inr (.inr ⟨rfl, h⟩)
      · have hNat : a.toNat ≠ b.toNat := fun hEq => hab (Char.ext (UInt32.toNat_inj.mp hEq))
        rcases Nat.lt_or_gt_of_ne hNat with h | h
        · exact .inl (.inl h)
        · exact .inr (.inl h)

theorem not_before_total (s t : Text) : before t s = false ∨ before s t = false := by
  by_contra hNot
  simp only [not_or, Bool.not_eq_false] at hNot
  exact before_asymm hNot.1 hNot.2

theorem not_before_trans {s t u : Text} (hst : before t s = false) (htu : before u t = false) :
    before u s = false := by
  by_contra hus
  rw [Bool.not_eq_false] at hus
  by_cases hEq : s = t
  · rw [hEq, htu] at hus
    cases hus
  · rcases before_total hEq with h | h
    · rw [before_trans hus h] at htu
      cases htu
    · rw [h] at hst
      cases hst

theorem not_before_antisymm {s t : Text} (hst : before t s = false) (hts : before s t = false) :
    s = t := by
  by_contra hNe
  rcases before_total hNe with h | h
  · rw [h] at hts
    cases hts
  · rw [h] at hst
    cases hst

theorem before_append (p s t : Text) : before (p ++ s) (p ++ t) = before s t := by
  induction p with
  | nil => rfl
  | cons c p ih =>
    rw [List.cons_append, List.cons_append, before_cons, ih]
    simp

/-! ## `fnmatch` -/

inductive Glob
  | star
  | one
  -- a set of ranges, or what is outside them
  | set (negated : Bool) (ranges : List (Char × Char))
  | lit (c : Char)
  deriving DecidableEq

/-- The inside of a bracket. A range that runs backwards is empty. -/
def ranges : Text → List (Char × Char)
  | a :: '-' :: b :: rest => (if a.toNat ≤ b.toNat then [(a, b)] else []) ++ ranges rest
  | a :: rest => (a, a) :: ranges rest
  | [] => []

/-- What follows an opening bracket, up to the closing one: the set and the rest. -/
def bracket (t : Text) : Option (Glob × Text) :=
  let negated := t.head? = some '!'
  let t := if negated then t.tail else t
  let lead := if t.head? = some ']' then [']'] else []
  let inside := (t.drop lead.length).takeWhile (· ≠ ']')
  match t.drop (lead.length + inside.length) with
  | _ :: rest => some (.set negated (ranges (lead ++ inside)), rest)
  | [] => none

/-- `fnmatch.translate`; every round takes a character of the pattern. -/
def globs : Nat → Text → List Glob
  | _, [] => []
  | 0, _ => []
  | n + 1, '*' :: t => .star :: globs n t
  | n + 1, '?' :: t => .one :: globs n t
  | n + 1, '[' :: t =>
    match bracket t with
    | some (g, rest) => g :: globs n rest
    | none => .lit '[' :: globs n t
  | n + 1, c :: t => .lit c :: globs n t

def Glob.accepts : Glob → Char → Bool
  | .star, _ | .one, _ => true
  | .set negated rs, c => negated != rs.any fun r => r.1.toNat ≤ c.toNat && c.toNat ≤ r.2.toNat
  | .lit d, c => c = d

def globMatch : List Glob → Text → Bool
  | [], t => t.isEmpty
  | .star :: gs, t => t.tails.any (globMatch gs)
  | _ :: _, [] => false
  | g :: gs, c :: t => g.accepts c && globMatch gs t

/-- `fnmatch.fnmatch` on a system whose file names keep their case. -/
def fnmatch (name pattern : Text) : Bool := globMatch (globs pattern.length pattern) name

example : fnmatch ['a', '.', 'p', 'y'] ['*', '.', '[', '!', 'a', '-', 'm', ']', 'y'] = true := by
  decide

end OpenSpoke.Python

/-!
## Strings with lone surrogates

A string of Python may hold a surrogate without its partner; then `str.encode` raises.
-/

namespace OpenSpoke.Python

inductive CodePoint
  | char (c : Char)
  | surrogate (n : Fin 2048)
  deriving DecidableEq

abbrev Str := List CodePoint

def CodePoint.isChar : CodePoint → Bool
  | char _ => true
  | surrogate _ => false

def CodePoint.blank : CodePoint → Bool
  | char c => isSpace c
  | surrogate _ => false

namespace Str

def lit (t : Text) : Str := t.map .char

/-- Whether `s.encode()` does not raise. -/
def encodable (s : Str) : Bool := s.all CodePoint.isChar

/-- `str.strip()`. -/
def strip (s : Str) : Str :=
  ((s.dropWhile CodePoint.blank).reverse.dropWhile CodePoint.blank).reverse

@[simp] theorem encodable_lit (t : Text) : encodable (lit t) = true := by
  rw [encodable, lit, List.all_map]
  exact List.all_eq_true.mpr fun _ _ => rfl

@[simp] theorem encodable_append (s t : Str) :
    encodable (s ++ t) = (encodable s && encodable t) := List.all_append

theorem encodable_take {s : Str} (h : encodable s = true) (n : ℕ) : encodable (s.take n) = true :=
  List.all_eq_true.mpr fun c hc => List.all_eq_true.mp h c (List.mem_of_mem_take hc)

end Str

/-- The digits with a comma before every third one, from the last digit on. -/
def commas : Text → Text
  | a :: b :: c :: d :: rest => a :: b :: c :: ',' :: commas (d :: rest)
  | t => t

/-- `f"{n:,}"`. -/
def grouped (n : ℕ) : Text := (commas (Nat.toDigits 10 n).reverse).reverse

example : grouped 3000000 = ['3', ',', '0', '0', '0', ',', '0', '0', '0'] := by decide

end OpenSpoke.Python
