import Mathlib.Data.List.Sort
import OpenSpoke.Lib.Leftmost
import OpenSpoke.Python.Date

/-!
# Temporal expressions

The date that a text names, read from its first expression: the forms relative to
the reference date in the order of the function's tables, then a month and a day,
then a full date.
-/

namespace OpenSpoke.Rag

open Python (Text Date)

/-- What Python brings: the digits of `\d` with their values, the longest text of digits that
`int` converts, whether `%Y` writes four digits, `strptime` with `%Y-%m-%d`, and today. No kana
and no ideograph is a digit. -/
structure Library where
  digit : Char → Option Nat
  maxDigits : Nat
  padsYear : Bool
  strptime : Text → Option Date
  now : Date
  hDigit : ∀ c : Char, 0x3041 ≤ c.toNat → c.toNat ≤ 0x9FFF → digit c = none

namespace Temporal

def weekOffsets : List (Text × Int) :=
  [(['先', '々', '週'], -2), (['先', '週'], -1), (['今', '週'], 0), (['来', '週'], 1)]

def weekdayMap : List (Text × Nat) :=
  [(['月', '曜'], 0), (['月', '曜', '日'], 0), (['火', '曜'], 1), (['火', '曜', '日'], 1),
    (['水', '曜'], 2), (['水', '曜', '日'], 2), (['木', '曜'], 3), (['木', '曜', '日'], 3),
    (['金', '曜'], 4), (['金', '曜', '日'], 4), (['土', '曜'], 5), (['土', '曜', '日'], 5),
    (['日', '曜'], 6), (['日', '曜', '日'], 6)]

def weekdayNames : List (Text × Nat) :=
  weekdayMap.insertionSort fun p q => q.1.length ≤ p.1.length

/-- The patterns of `relative_patterns` with their days. -/
def relativeWords : List (Text × Int) :=
  [(['一', '昨', '日'], -2), (['お', 'と', 'と', 'い'], -2), (['昨', '日'], -1),
    (['き', 'の', 'う'], -1), (['今', '日'], 0), (['き', 'ょ', 'う'], 0), (['明', '後', '日'], 2),
    (['あ', 'さ', 'っ', 'て'], 2), (['明', '日'], 1), (['あ', 'し', 'た'], 1),
    (['先', '々', '週'], -14), (['先', '週'], -7), (['今', '週'], 0), (['来', '週'], 7),
    (['先', '々', '月'], -60), (['先', '月'], -30), (['今', '月'], 0), (['来', '月'], 30),
    (['去', '年'], -365), (['昨', '年'], -365), (['今', '年'], 0), (['来', '年'], 365)]

/-- Those with a number, and the days of one unit. -/
def agoUnits : List (Text × Nat) :=
  [(['日', '前'], 1), (['週', '間', '前'], 7), (['ヶ', '月', '前'], 30), (['か', '月', '前'], 30),
    (['年', '前'], 365)]

inductive Form
  | week (weeks : Int) (weekday : Nat)
  | words (days : Int)
  | ago (digits : Text) (unit : Nat)
  deriving DecidableEq

/-- The alternatives of `week_rel_pattern`. -/
def weekForms : List (Text × Form) :=
  weekOffsets.flatMap fun p => weekdayNames.map fun q => (p.1 ++ 'の' :: q.1, .week p.2 q.2)

def weekAt (t : Text) : Option Form := (weekForms.find? fun p => p.1.isPrefixOf t).map Prod.snd

def wordAt (p : Text × Int) (t : Text) : Option Form :=
  if p.1 <+: t then some (.words p.2) else none

section Numbers

variable (lib : Library)

def isDigit (c : Char) : Bool := (lib.digit c).isSome

/-- The number that digits write. -/
def value (digits : Text) : Nat := digits.foldl (fun n c => 10 * n + (lib.digit c).getD 0) 0

/-- `int`, none if it raises. -/
def int (digits : Text) : Option Nat :=
  if digits.length ≤ lib.maxDigits then some (value lib digits) else none

def agoAt (p : Text × Nat) (t : Text) : Option Form :=
  if t.takeWhile (isDigit lib) ≠ [] ∧ p.1 <+: t.dropWhile (isDigit lib) then
    some (.ago (t.takeWhile (isDigit lib)) p.2)
  else none

/-- A number with `least` to `most` digits before the character, and what follows. -/
def numberBefore (least most : Nat) (mark : Char) (t : Text) : Option (Nat × Text) :=
  let digits := t.takeWhile (isDigit lib)
  if least ≤ digits.length ∧ digits.length ≤ most ∧ (t.dropWhile (isDigit lib)).head? = some mark then
    some (value lib digits, (t.dropWhile (isDigit lib)).tail)
  else none

/-- `abs_pattern`. -/
def monthDayAt (t : Text) : Option (Nat × Nat) :=
  (numberBefore lib 1 2 '月' t).bind fun month =>
    (numberBefore lib 1 2 '日' month.2).map fun day => (month.1, day.1)

/-- `full_date_pattern`. -/
def fullDateAt (t : Text) : Option (Nat × Nat × Nat) :=
  (numberBefore lib 4 4 '年' t).bind fun year =>
    (monthDayAt lib year.2).map fun monthDay => (year.1, monthDay)

def firstRelative (text : Text) : Option Form :=
  (Leftmost.search weekAt text).or
    ((relativeWords.findSome? fun p => Leftmost.search (wordAt p) text).or
      (agoUnits.findSome? fun p => Leftmost.search (agoAt lib p) text))

def firstMonthDay (text : Text) : Option (Nat × Nat) := Leftmost.search (monthDayAt lib) text

def firstFullDate (text : Text) : Option (Nat × Nat × Nat) := Leftmost.search (fullDateAt lib) text

/-- The day that a relative form names, none if it raises. -/
def Form.date (ref : Date) : Form → Option Date
  | .week weeks weekday =>
    (ref.shift (-ref.weekday)).bind fun thisMonday =>
      (thisMonday.shift (7 * weeks)).bind fun targetMonday => targetMonday.shift weekday
  | .words days => ref.shift days
  | .ago digits unit => (int lib digits).bind fun n => ref.shift (-(n * unit : Nat))

/-- `strftime("%Y-%m-%d")`. -/
def dateText (d : Date) : Text :=
  (if lib.padsYear then Python.zeroPad 4 d.year else Nat.toDigits 10 d.year) ++
    '-' :: Python.zeroPad 2 d.month ++ '-' :: Python.zeroPad 2 d.day

/-- The day of an absolute expression: in the reference year unless it does not exist there. -/
def absolute (ref : Date) (text : Text) : Option Date :=
  ((firstMonthDay lib text).bind fun p => Date.ofParts ref.year p.1 p.2).or
    ((firstFullDate lib text).bind fun p => Date.ofParts p.1 p.2.1 p.2.2)

def reference (referenceDate : Text) : Date :=
  if referenceDate = [] then lib.now
  else (lib.strptime (referenceDate.take 10)).getD lib.now

/-- None if it raises. -/
def resolveTemporalExpression (text referenceDate : Text) : Option Text :=
  let ref := reference lib referenceDate
  match firstRelative lib text with
  | some form => (form.date lib ref).map (dateText lib)
  | none => some ((absolute lib ref text).elim [] (dateText lib))

end Numbers

end Temporal

end OpenSpoke.Rag

/-!
## What a text resolves to

A text resolves to a date or to nothing, a full date to itself, and a relative
expression alone to the reference date with its days. A month and a day are taken
in the reference year before any full date is looked at, also those of the full
date itself.
-/

namespace OpenSpoke.Rag.Temporal

open Python (Text Date)

section Expressions

variable (lib : Library)

def Digits (t : Text) : Prop := t ≠ [] ∧ ∀ c ∈ t, isDigit lib c = true

/-- The relative expressions. -/
inductive Shows : Text → Form → Prop
  | week {word name : Text} {weeks : Int} {weekday : Nat} (hWord : (word, weeks) ∈ weekOffsets)
      (hName : (name, weekday) ∈ weekdayMap) :
      Shows (word ++ 'の' :: name) (.week weeks weekday)
  | words {word : Text} {days : Int} (hWord : (word, days) ∈ relativeWords) :
      Shows word (.words days)
  | ago {digits suffix : Text} {unit : Nat} (hDigits : Digits lib digits)
      (hUnit : (suffix, unit) ∈ agoUnits) : Shows (digits ++ suffix) (.ago digits unit)

def MonthDayForm (w : Text) : Prop :=
  ∃ months days, Digits lib months ∧ months.length ≤ 2 ∧ Digits lib days ∧ days.length ≤ 2 ∧
    w = months ++ '月' :: (days ++ ['日'])

def FullForm (d : Date) (w : Text) : Prop :=
  ∃ years months days, Digits lib years ∧ years.length ≤ 4 ∧ value lib years = d.year ∧
    Digits lib months ∧ months.length ≤ 2 ∧ value lib months = d.month ∧
    Digits lib days ∧ days.length ≤ 2 ∧ value lib days = d.day ∧
    w = years ++ '年' :: (months ++ '月' :: (days ++ ['日']))

/-- The full form of the date is in the text, and its year is not the end of a longer number. -/
def Names (d : Date) (text : Text) : Prop :=
  ∃ front w back, FullForm lib d w ∧ text = front ++ (w ++ back) ∧
    ∀ c ∈ front.getLast?, isDigit lib c = false

def Expression (w : Text) : Prop :=
  (∃ form, Shows lib w form) ∨ MonthDayForm lib w ∨ ∃ d, FullForm lib d w

/-- All expressions of the text lie within this one. -/
def Only (text w : Text) (form : Form) : Prop :=
  Shows lib w form ∧ ∃ front back, text = front ++ (w ++ back) ∧
    ∀ front' w' back', text = front' ++ (w' ++ back') → Expression lib w' →
      front.length ≤ front'.length ∧ front'.length + w'.length ≤ front.length + w.length

def NoRelative (text : Text) : Prop := ∀ w form, Shows lib w form → ¬w <:+: text

/-- The days from the reference date. -/
def Form.days (ref : Date) : Form → Int
  | .week weeks weekday => 7 * weeks + weekday - ref.weekday
  | .words days => days
  | .ago digits unit => -(value lib digits * unit : Nat)

structure Resolved (text referenceDate : Text) : Prop where
  total : ∃ t, resolveTemporalExpression lib text referenceDate = some t ∧
    (t = [] ∨ ∃ d : Date, t = d.iso)
  full : ∀ d, Names lib d text → NoRelative lib text →
    resolveTemporalExpression lib text referenceDate = some d.iso
  relative : ∀ w form, Only lib text w form → ∃ d : Date,
    (d.ordinal : Int) = (reference lib referenceDate).ordinal +
      form.days lib (reference lib referenceDate) ∧
    resolveTemporalExpression lib text referenceDate = some d.iso

/-- `%Y` writes the year with four digits. -/
def Written (year : Nat) : Prop := lib.padsYear = true ∨ 1000 ≤ year

/-- The day is between the first one that is written with ten characters and the last one. -/
def InCalendar (ordinal : Int) : Prop :=
  (if lib.padsYear then 1 else 364878) ≤ ordinal ∧ ordinal ≤ Date.maxOrdinal

def Form.Convertible : Form → Prop
  | .ago digits _ => digits.length ≤ lib.maxDigits
  | _ => True

/-- The year has that month and day. -/
def InYear (year : Nat) (monthDay : Nat × Nat) : Prop :=
  (1 ≤ year ∧ year ≤ 9999) ∧ (1 ≤ monthDay.1 ∧ monthDay.1 ≤ 12) ∧
    1 ≤ monthDay.2 ∧ monthDay.2 ≤ Python.daysInMonth year monthDay.1

/-- The first expression of the text that counts names the date. -/
structure Named (text : Text) (ref : Date) : Prop where
  relative : ∀ form, firstRelative lib text = some form →
    form.Convertible lib ∧ InCalendar lib (ref.ordinal + form.days lib ref)
  monthDay : firstRelative lib text = none → ∀ p, firstMonthDay lib text = some p →
    InYear ref.year p → Written lib ref.year ∧
      ∀ d, Names lib d text → d.year = ref.year ∧ (d.month, d.day) = p
  fullDate : firstRelative lib text = none →
    (∀ p, firstMonthDay lib text = some p → ¬InYear ref.year p) →
      (∀ year p, firstFullDate lib text = some (year, p) → InYear year p → Written lib year) ∧
      ∀ d, Names lib d text → firstFullDate lib text = some (d.year, d.month, d.day)

end Expressions

variable {lib : Library}

theorem weekForms_mem {word name : Text} {weeks : Int} {weekday : Nat}
    (hWord : (word, weeks) ∈ weekOffsets) (hName : (name, weekday) ∈ weekdayMap) :
    (word ++ 'の' :: name, Form.week weeks weekday) ∈ weekForms :=
  List.mem_flatMap.mpr ⟨_, hWord, List.mem_map.mpr
    ⟨_, (List.perm_insertionSort _ _).mem_iff.mpr hName, rfl⟩⟩

theorem shows_weekForm {p : Text × Form} (h : p ∈ weekForms) : Shows lib p.1 p.2 := by
  obtain ⟨⟨word, weeks⟩, hWord, h⟩ := List.mem_flatMap.mp h
  obtain ⟨⟨name, weekday⟩, hName, rfl⟩ := List.mem_map.mp h
  exact .week hWord ((List.perm_insertionSort _ _).mem_iff.mp hName)

theorem weekAt_shows {t : Text} {form : Form} (h : weekAt t = some form) :
    ∃ w, (w, form) ∈ weekForms ∧ w <+: t := by
  obtain ⟨⟨w, form'⟩, hFind, rfl⟩ := Option.map_eq_some_iff.mp h
  have hHead := List.find?_some hFind
  exact ⟨w, List.mem_of_find?_eq_some hFind, List.isPrefixOf_iff_prefix.mp hHead⟩

theorem weekForms_agree : ∀ p ∈ weekForms, ∀ q ∈ weekForms, p.1 <+: q.1 → p.2 = q.2 := by
  decide

theorem weekAt_append {p : Text × Form} (h : p ∈ weekForms) (rest : Text) :
    weekAt (p.1 ++ rest) = some p.2 := by
  have hSome : weekAt (p.1 ++ rest) ≠ none := by
    rw [weekAt, Ne, Option.map_eq_none_iff, List.find?_eq_none]
    intro hNone
    exact hNone p h (List.isPrefixOf_iff_prefix.mpr (List.prefix_append _ _))
  obtain ⟨form, hForm⟩ := Option.ne_none_iff_exists'.mp hSome
  obtain ⟨w, hMem, hPrefix⟩ := weekAt_shows hForm
  rw [hForm]
  obtain hLess | hMore := List.prefix_or_prefix_of_prefix hPrefix (List.prefix_append p.1 rest)
  · exact congrArg some (weekForms_agree _ hMem _ h hLess)
  · exact congrArg some (weekForms_agree _ h _ hMem hMore).symm

theorem wordAt_shows {p : Text × Int} {t : Text} {form : Form} (h : wordAt p t = some form) :
    p.1 <+: t ∧ form = .words p.2 := by
  rw [wordAt] at h
  split at h
  next hPrefix =>
    cases h
    exact ⟨hPrefix, rfl⟩
  next => cases h

theorem agoAt_shows {p : Text × Nat} {t : Text} {form : Form} (h : agoAt lib p t = some form) :
    ∃ digits, Digits lib digits ∧ digits ++ p.1 <+: t ∧ form = .ago digits p.2 := by
  rw [agoAt] at h
  split at h
  next hHere =>
    cases h
    refine ⟨_, ⟨hHere.1, fun c hc => List.mem_takeWhile_imp hc⟩, ?_, rfl⟩
    obtain ⟨rest, hRest⟩ := hHere.2
    refine ⟨rest, ?_⟩
    rw [List.append_assoc, hRest, List.takeWhile_append_dropWhile]
  next => cases h

theorem isDigit_eq_false {c : Char} (h : 0x3041 ≤ c.toNat ∧ c.toNat ≤ 0x9FFF) :
    isDigit lib c = false := by
  rw [isDigit, lib.hDigit c h.1 h.2]
  rfl

theorem agoUnits_letters : ∀ p ∈ agoUnits, p.1 ≠ [] ∧
    ∀ c ∈ p.1, 0x3041 ≤ c.toNat ∧ c.toNat ≤ 0x9FFF := by
  have hAll : (agoUnits.all fun p => p.1 ≠ [] &&
      p.1.all fun c => 0x3041 ≤ c.toNat && c.toNat ≤ 0x9FFF) = true := by decide
  simpa only [List.all_eq_true, Bool.and_eq_true, decide_eq_true_eq] using hAll

theorem agoAt_append {digits : Text} {p : Text × Nat} (hDigits : Digits lib digits)
    (h : p ∈ agoUnits) (rest : Text) : agoAt lib p (digits ++ p.1 ++ rest) = some (.ago digits p.2) := by
  obtain ⟨hNe, hLetters⟩ := agoUnits_letters p h
  obtain ⟨c, suffix, hSuffix⟩ := List.exists_cons_of_ne_nil hNe
  have hStop : isDigit lib c = false :=
    isDigit_eq_false (hLetters c (hSuffix ▸ List.mem_cons_self))
  have hTake : (digits ++ p.1 ++ rest).takeWhile (isDigit lib) = digits := by
    rw [List.append_assoc, List.takeWhile_append_of_pos hDigits.2, hSuffix, List.cons_append,
      List.takeWhile_cons, hStop, if_neg Bool.false_ne_true, List.append_nil]
  have hDrop : (digits ++ p.1 ++ rest).dropWhile (isDigit lib) = p.1 ++ rest := by
    rw [List.append_assoc, List.dropWhile_append_of_pos hDigits.2, hSuffix, List.cons_append,
      List.dropWhile_cons, hStop, if_neg Bool.false_ne_true]
  rw [agoAt, hTake, hDrop]
  exact if_pos ⟨hDigits.1, List.prefix_append _ _⟩

theorem relativeWords_short : ∀ p ∈ relativeWords, p.1.length ≤ 4 := by decide

theorem weekForms_long : ∀ p ∈ weekForms, 5 ≤ p.1.length ∧ 'の' ∈ p.1 := by decide

theorem agoUnits_no : ∀ p ∈ agoUnits, 'の' ∉ p.1 := by decide

theorem relativeWords_letters : ∀ p ∈ relativeWords,
    ∃ c ∈ p.1, (0x3041 ≤ c.toNat ∧ c.toNat ≤ 0x9FFF) ∧ ∀ q ∈ agoUnits, c ∉ q.1 := by
  have hAny : (relativeWords.all fun p => p.1.any fun c =>
      (0x3041 ≤ c.toNat && c.toNat ≤ 0x9FFF) && agoUnits.all fun q => c ∉ q.1) = true := by decide
  simpa only [List.all_eq_true, List.any_eq_true, Bool.and_eq_true, decide_eq_true_eq] using hAny

/-- A word that holds another one is looked for before it. -/
theorem relativeWords_order : relativeWords.Pairwise fun p q => ¬p.1 <:+: q.1 := by decide

theorem agoUnits_order : agoUnits.Pairwise fun p q => ∃ c ∈ p.1, c ∉ q.1 := by
  have hAny : agoUnits.Pairwise fun p q => (p.1.any fun c => c ∉ q.1) = true := by decide
  simpa only [List.any_eq_true, decide_eq_true_eq] using hAny

theorem not_infix_of_mem {c : Char} {w w' : Text} (h : c ∈ w') (hNot : c ∉ w) : ¬w' <:+: w :=
  fun hInfix => hNot (hInfix.subset h)

theorem letter_not_mem {c : Char} {digits suffix : Text} (hDigits : Digits lib digits)
    (h : 0x3041 ≤ c.toNat ∧ c.toNat ≤ 0x9FFF) (hNot : c ∉ suffix) : c ∉ digits ++ suffix := by
  intro hMem
  obtain hMem | hMem := List.mem_append.mp hMem
  · exact absurd (hDigits.2 c hMem) (by simp [isDigit_eq_false h])
  · exact hNot hMem

section Only

variable {text w : Text} {form : Form}

theorem search_none_of_only {at' : Text → Option Form} {Part : Text → Prop}
    (hSound : ∀ t form', at' t = some form' → ∃ w', Part w' ∧ Shows lib w' form' ∧ w' <+: t)
    (hOnly : Only lib text w form) (hNot : ∀ w', Part w' → ¬w' <:+: w) :
    Leftmost.search at' text = none := by
  obtain ⟨-, front, back, rfl, hWithin⟩ := hOnly
  refine Leftmost.search_eq_none_iff.mpr fun rest hRest => ?_
  by_contra hSome
  obtain ⟨form', hForm⟩ := Option.ne_none_iff_exists'.mp hSome
  obtain ⟨w', hPart, hShows, back', rfl⟩ := hSound _ _ hForm
  obtain ⟨front', hEq⟩ := hRest
  obtain ⟨hFrom, hTo⟩ := hWithin front' w' back' hEq.symm (.inl ⟨_, hShows⟩)
  exact hNot w' hPart (Leftmost.infix_of_within hEq.symm hFrom hTo)

theorem search_some_of_only {at' : Text → Option Form}
    (hSound : ∀ t form', at' t = some form' → ∃ w', Shows lib w' form' ∧ w' <+: t)
    (hOnly : Only lib text w form) (hHere : ∀ rest, at' (w ++ rest) = some form) :
    Leftmost.search at' text = some form := by
  obtain ⟨-, front, back, rfl, hWithin⟩ := hOnly
  refine Leftmost.search_append (fun early late hFront hLate => ?_) (hHere back)
  by_contra hSome
  obtain ⟨form', hForm⟩ := Option.ne_none_iff_exists'.mp hSome
  obtain ⟨w', hShows, back', hBack⟩ := hSound _ _ hForm
  have hEq : front ++ (w ++ back) = early ++ (w' ++ back') := by
    rw [hFront, List.append_assoc, hBack]
  have hFrom := (hWithin early w' back' hEq (.inl ⟨_, hShows⟩)).1
  have hLength := List.length_pos_iff.mpr hLate
  rw [hFront, List.length_append] at hFrom
  omega

theorem week_sound (t : Text) (form' : Form) (h : weekAt t = some form') :
    ∃ w', (∃ p ∈ weekForms, p.1 = w') ∧ Shows lib w' form' ∧ w' <+: t := by
  obtain ⟨w', hMem, hPrefix⟩ := weekAt_shows h
  exact ⟨w', ⟨_, hMem, rfl⟩, shows_weekForm hMem, hPrefix⟩

theorem word_sound {p : Text × Int} (hp : p ∈ relativeWords) (t : Text) (form' : Form)
    (h : wordAt p t = some form') : ∃ w', w' = p.1 ∧ Shows lib w' form' ∧ w' <+: t := by
  obtain ⟨hPrefix, rfl⟩ := wordAt_shows h
  exact ⟨p.1, rfl, .words hp, hPrefix⟩

theorem ago_sound {p : Text × Nat} (hp : p ∈ agoUnits) (t : Text) (form' : Form)
    (h : agoAt lib p t = some form') :
    ∃ w', (∃ digits, w' = digits ++ p.1) ∧ Shows lib w' form' ∧ w' <+: t := by
  obtain ⟨digits, hDigits, hPrefix, rfl⟩ := agoAt_shows h
  exact ⟨digits ++ p.1, ⟨digits, rfl⟩, .ago hDigits hp, hPrefix⟩

theorem forget {at' : Text → Option Form} {Part : Text → Prop}
    (hSound : ∀ t form', at' t = some form' → ∃ w', Part w' ∧ Shows lib w' form' ∧ w' <+: t) :
    ∀ t form', at' t = some form' → ∃ w', Shows lib w' form' ∧ w' <+: t := by
  intro t form' h
  obtain ⟨w', -, hShows, hPrefix⟩ := hSound t form' h
  exact ⟨w', hShows, hPrefix⟩

theorem firstRelative_of_only (hOnly : Only lib text w form) :
    firstRelative lib text = some form := by
  rw [firstRelative]
  cases hOnly.1 with
  | @week word name weeks weekday hWord hName =>
    have hHere := weekAt_append (weekForms_mem hWord hName)
    rw [search_some_of_only (forget week_sound) hOnly hHere, Option.some_or]
  | @words _ days hWord =>
    have hWeek : Leftmost.search weekAt text = none := by
      refine search_none_of_only week_sound hOnly ?_
      rintro w' ⟨p, hp, rfl⟩ hInfix
      have := (weekForms_long p hp).1
      have hShort : w.length ≤ 4 := relativeWords_short _ hWord
      have := hInfix.length_le
      omega
    obtain ⟨earlier, later, hSplit⟩ := List.append_of_mem hWord
    have hEarlier : ∀ p ∈ earlier, ¬p.1 <:+: w := by
      have hOrder := relativeWords_order
      rw [hSplit, List.pairwise_append] at hOrder
      exact fun p hp => hOrder.2.2 p hp _ List.mem_cons_self
    have hWords : (relativeWords.findSome? fun p => Leftmost.search (wordAt p) text) =
        some (.words days) := by
      refine List.findSome?_eq_some_iff.mpr ⟨earlier, _, later, hSplit, ?_, fun p hp => ?_⟩
      · refine search_some_of_only (forget (word_sound hWord)) hOnly fun rest => ?_
        exact if_pos (List.prefix_append _ _)
      · refine search_none_of_only (word_sound ?_) hOnly ?_
        · rw [hSplit]
          exact List.mem_append_left _ hp
        · rintro w' rfl
          exact hEarlier p hp
    rw [hWeek, hWords, Option.none_or, Option.some_or]
  | @ago digits suffix unit hDigits hUnit =>
    have hWeek : Leftmost.search weekAt text = none := by
      refine search_none_of_only week_sound hOnly ?_
      rintro w' ⟨p, hp, rfl⟩
      exact not_infix_of_mem (weekForms_long p hp).2
        (letter_not_mem hDigits (by decide) (agoUnits_no _ hUnit))
    have hWords : (relativeWords.findSome? fun p => Leftmost.search (wordAt p) text) = none := by
      refine List.findSome?_eq_none_iff.mpr fun p hp => ?_
      refine search_none_of_only (word_sound hp) hOnly ?_
      rintro w' rfl
      obtain ⟨c, hMem, hLetter, hNot⟩ := relativeWords_letters p hp
      exact not_infix_of_mem hMem (letter_not_mem hDigits hLetter (hNot _ hUnit))
    obtain ⟨earlier, later, hSplit⟩ := List.append_of_mem hUnit
    have hUnits : (agoUnits.findSome? fun p => Leftmost.search (agoAt lib p) text) =
        some (.ago digits unit) := by
      refine List.findSome?_eq_some_iff.mpr ⟨earlier, _, later, hSplit, ?_, fun p hp => ?_⟩
      · exact search_some_of_only (forget (ago_sound hUnit)) hOnly
          fun rest => agoAt_append hDigits hUnit rest
      · have hMem : p ∈ agoUnits := by
          rw [hSplit]
          exact List.mem_append_left _ hp
        refine search_none_of_only (ago_sound hMem) hOnly ?_
        rintro w' ⟨digits', rfl⟩
        have hOrder := agoUnits_order
        rw [hSplit, List.pairwise_append] at hOrder
        obtain ⟨c, hMark, hNot⟩ := hOrder.2.2 p hp _ List.mem_cons_self
        exact not_infix_of_mem (List.mem_append_right _ hMark)
          (letter_not_mem hDigits ((agoUnits_letters p hMem).2 c hMark) hNot)
    rw [hWeek, hWords, hUnits, Option.none_or, Option.none_or]

end Only

theorem shows_of_firstRelative {text : Text} {form : Form}
    (h : firstRelative lib text = some form) : ∃ w, Shows lib w form ∧ w <:+: text := by
  have hFound : ∀ {at' : Text → Option Form},
      (∀ t form', at' t = some form' → ∃ w', Shows lib w' form' ∧ w' <+: t) →
      Leftmost.search at' text = some form → ∃ w, Shows lib w form ∧ w <:+: text := by
    intro at' hSound hSearch
    obtain ⟨front, rest, rfl, hHere⟩ := Leftmost.exists_of_search hSearch
    obtain ⟨w, hShows, hPrefix⟩ := hSound _ _ hHere
    exact ⟨w, hShows, hPrefix.isInfix.trans (List.suffix_append front rest).isInfix⟩
  rw [firstRelative, Option.or_eq_some_iff, Option.or_eq_some_iff] at h
  obtain h | ⟨-, h | ⟨-, h⟩⟩ := h
  · exact hFound (forget week_sound) h
  · obtain ⟨p, hp, hSearch⟩ := List.exists_of_findSome?_eq_some h
    exact hFound (forget (word_sound hp)) hSearch
  · obtain ⟨p, hp, hSearch⟩ := List.exists_of_findSome?_eq_some h
    exact hFound (forget (ago_sound hp)) hSearch

theorem noRelative_of_firstRelative {text : Text} (h : firstRelative lib text = none) :
    NoRelative lib text := by
  have hNone : ∀ {at' : Text → Option Form} {w : Text} {form : Form},
      Leftmost.search at' text = none → (∀ rest, at' (w ++ rest) = some form) → ¬w <:+: text := by
    rintro at' w form hSearch hHere ⟨front, rest, rfl⟩
    rw [List.append_assoc] at hSearch
    have := Leftmost.search_eq_none_iff.mp hSearch _ (List.suffix_append front (w ++ rest))
    rw [hHere] at this
    cases this
  rw [firstRelative, Option.or_eq_none_iff, Option.or_eq_none_iff] at h
  obtain ⟨hWeek, hWords, hUnits⟩ := h
  intro w form hShows
  cases hShows with
  | week hWord hName => exact hNone hWeek (weekAt_append (weekForms_mem hWord hName))
  | words hWord =>
    exact hNone (List.findSome?_eq_none_iff.mp hWords _ hWord)
      fun rest => if_pos (List.prefix_append _ rest)
  | ago hDigits hUnit =>
    exact hNone (List.findSome?_eq_none_iff.mp hUnits _ hUnit) (agoAt_append hDigits hUnit)

theorem firstRelative_of_noRelative {text : Text} (h : NoRelative lib text) :
    firstRelative lib text = none := by
  by_contra hSome
  obtain ⟨form, hForm⟩ := Option.ne_none_iff_exists'.mp hSome
  obtain ⟨w, hShows, hInfix⟩ := shows_of_firstRelative hForm
  exact h w form hShows hInfix

section Dates

variable {ref : Date} {form : Form}

theorem date_ordinal {d : Date} (h : form.date lib ref = some d) :
    (d.ordinal : Int) = ref.ordinal + form.days lib ref := by
  cases form with
  | week weeks weekday =>
    obtain ⟨monday, hMonday, h⟩ := Option.bind_eq_some_iff.mp h
    obtain ⟨target, hTarget, h⟩ := Option.bind_eq_some_iff.mp h
    have := Date.shift_ordinal hMonday
    have := Date.shift_ordinal hTarget
    have := Date.shift_ordinal h
    simp only [Form.days]
    omega
  | words days => exact Date.shift_ordinal h
  | ago digits unit =>
    obtain ⟨n, hn, h⟩ := Option.bind_eq_some_iff.mp h
    rw [int] at hn
    split at hn <;> cases hn
    exact Date.shift_ordinal h

theorem weekdayMap_le : ∀ p ∈ weekdayMap, p.2 ≤ 6 := by decide

theorem exists_date_iff {w : Text} (h : Shows lib w form) :
    (∃ d, form.date lib ref = some d) ↔ form.Convertible lib ∧
      1 ≤ ref.ordinal + form.days lib ref ∧ ref.ordinal + form.days lib ref ≤ Date.maxOrdinal := by
  cases h with
  | @week word name weeks weekday hWord hName =>
    have hWeekday : weekday ≤ 6 := weekdayMap_le _ hName
    have hPos := ref.ordinal_pos
    have hLe := ref.ordinal_le
    have hRef : ref.weekday = (ref.ordinal + 6) % 7 := rfl
    constructor
    · rintro ⟨d, hd⟩
      have := date_ordinal hd
      have := d.ordinal_pos
      have := d.ordinal_le
      exact ⟨trivial, by omega, by omega⟩
    · rintro ⟨-, hFrom, hTo⟩
      simp only [Form.days] at hFrom hTo
      obtain ⟨monday, hMonday⟩ :=
        (Date.exists_shift_iff (n := -ref.weekday) (d := ref)).mpr ⟨by omega, by omega⟩
      have hMondayOrdinal := Date.shift_ordinal hMonday
      obtain ⟨target, hTarget⟩ :=
        (Date.exists_shift_iff (n := 7 * weeks) (d := monday)).mpr ⟨by omega, by omega⟩
      have hTargetOrdinal := Date.shift_ordinal hTarget
      obtain ⟨d, hd⟩ :=
        (Date.exists_shift_iff (n := weekday) (d := target)).mpr ⟨by omega, by omega⟩
      refine ⟨d, ?_⟩
      rw [Form.date, hMonday, Option.bind_some, hTarget, Option.bind_some, hd]
  | words hWord => exact Date.exists_shift_iff.trans ⟨fun h => ⟨trivial, h⟩, And.right⟩
  | @ago digits suffix unit hDigits hUnit =>
    rw [Form.date, Form.Convertible, int]
    split
    next hShort =>
      rw [Option.bind_some, Date.exists_shift_iff]
      exact (and_iff_right hShort).symm
    next hLong => simp [hLong]

theorem inCalendar_iff {d : Date} :
    InCalendar lib d.ordinal ↔ Written lib d.year := by
  have hPos := d.ordinal_pos
  have hLe := d.ordinal_le
  have hYear := @Date.le_year_iff 1000 d
  have hThousand : Date.daysBeforeYear 1000 = 364877 := by decide
  rw [InCalendar, Written, hYear, hThousand]
  cases lib.padsYear
  · simp only [Bool.false_eq_true, if_false, false_or]
    omega
  · simp only [if_true, true_or, iff_true]
    omega

theorem written_date_iff {w : Text} (h : Shows lib w form) :
    (∃ d, form.date lib ref = some d ∧ Written lib d.year) ↔
      form.Convertible lib ∧ InCalendar lib (ref.ordinal + form.days lib ref) := by
  constructor
  · rintro ⟨d, hd, hWritten⟩
    have hOrdinal := date_ordinal hd
    refine ⟨((exists_date_iff h).mp ⟨d, hd⟩).1, ?_⟩
    rw [← hOrdinal]
    exact inCalendar_iff.mpr hWritten
  · rintro ⟨hConvertible, hIn⟩
    have hFrom : 1 ≤ ref.ordinal + form.days lib ref := by
      have := hIn.1
      split at this <;> omega
    obtain ⟨d, hd⟩ := (exists_date_iff h).mpr ⟨hConvertible, hFrom, hIn.2⟩
    refine ⟨d, hd, inCalendar_iff.mp ?_⟩
    rw [date_ordinal hd]
    exact hIn

theorem dateText_of_written {d : Date} (h : Written lib d.year) : dateText lib d = d.iso := by
  rw [dateText, Date.iso]
  split
  next => rfl
  next hUnpadded =>
    have hYear : 1000 ≤ d.year := h.resolve_left hUnpadded
    have hDigits : ¬(Nat.toDigits 10 d.year).length ≤ 3 := by
      rw [Nat.length_toDigits_le_iff (by decide) (by decide)]
      omega
    have hPad : Python.zeroPad 4 d.year = Nat.toDigits 10 d.year := by
      rw [Python.zeroPad, Nat.sub_eq_zero_of_le (by omega)]
      rfl
    rw [hPad]

theorem dateText_ne_nil (d : Date) : dateText lib d ≠ [] := by
  simp [dateText]

theorem written_of_dateText {d e : Date} (h : dateText lib d = e.iso) : Written lib d.year := by
  by_contra hNot
  obtain ⟨hUnpadded, hYear⟩ := not_or.mp hNot
  have hLength := congrArg List.length h
  have hIso := d.iso_length
  have hShort : (Nat.toDigits 10 d.year).length ≤ 3 :=
    (Nat.length_toDigits_le_iff (by decide) (by decide)).mpr (Nat.lt_of_not_le hYear)
  have hPad : (Python.zeroPad 4 d.year).length = 4 :=
    Date.zeroPad_length (by decide) (Nat.lt_succ_of_le d.hYear.2)
  rw [Date.iso_length, dateText, if_neg hUnpadded] at hLength
  rw [Date.iso] at hIso
  simp only [List.length_append, List.length_cons] at hLength hIso
  omega

theorem exists_ofParts {year : Nat} {p : Nat × Nat} (h : InYear year p) :
    ∃ d, Date.ofParts year p.1 p.2 = some d ∧ d.year = year ∧ (d.month, d.day) = p :=
  ⟨⟨year, p.1, p.2, h.1, h.2.1, h.2.2⟩, dif_pos h, rfl, rfl⟩

theorem ofParts_eq_none {year : Nat} {p : Nat × Nat} (h : ¬InYear year p) :
    Date.ofParts year p.1 p.2 = none := dif_neg h

end Dates

section Resolved

variable {text referenceDate : Text}

theorem resolve_relative {form : Form} (h : firstRelative lib text = some form) :
    resolveTemporalExpression lib text referenceDate =
      (form.date lib (reference lib referenceDate)).map (dateText lib) := by
  rw [resolveTemporalExpression, h]

theorem resolve_monthDay {p : Nat × Nat} {d : Date} (h : firstRelative lib text = none)
    (hFirst : firstMonthDay lib text = some p)
    (hDay : Date.ofParts (reference lib referenceDate).year p.1 p.2 = some d) :
    resolveTemporalExpression lib text referenceDate = some (dateText lib d) := by
  rw [resolveTemporalExpression, h]
  simp only [absolute, hFirst, Option.bind_some, hDay, Option.some_or, Option.elim_some]

theorem resolve_fullDate (h : firstRelative lib text = none)
    (hNot : ∀ p, firstMonthDay lib text = some p → ¬InYear (reference lib referenceDate).year p) :
    resolveTemporalExpression lib text referenceDate =
      some (((firstFullDate lib text).bind fun p => Date.ofParts p.1 p.2.1 p.2.2).elim []
        (dateText lib)) := by
  have hNone : ((firstMonthDay lib text).bind fun p =>
      Date.ofParts (reference lib referenceDate).year p.1 p.2) = none :=
    Option.bind_eq_none_iff.mpr fun p hp => ofParts_eq_none (hNot p hp)
  rw [resolveTemporalExpression, h]
  simp only [absolute, hNone, Option.none_or]

theorem written_of_total {d : Date} (hResolved : Resolved lib text referenceDate)
    (h : resolveTemporalExpression lib text referenceDate = some (dateText lib d)) :
    Written lib d.year := by
  obtain ⟨t, hText, hDate⟩ := hResolved.total
  rw [h] at hText
  cases hText
  obtain hNil | ⟨e, hIso⟩ := hDate
  · exact absurd hNil (dateText_ne_nil d)
  · exact written_of_dateText hIso

theorem named_of_resolved (hResolved : Resolved lib text referenceDate) :
    Named lib text (reference lib referenceDate) := by
  constructor
  · intro form hForm
    obtain ⟨w, hShows, -⟩ := shows_of_firstRelative hForm
    obtain ⟨t, hText, -⟩ := hResolved.total
    rw [resolve_relative hForm] at hText
    obtain ⟨d, hd, rfl⟩ := Option.map_eq_some_iff.mp hText
    refine (written_date_iff hShows).mp ⟨d, hd, ?_⟩
    exact written_of_total hResolved (by rw [resolve_relative hForm, hd, Option.map_some])
  · intro hNone p hFirst hIn
    obtain ⟨d, hd, hYear, hParts⟩ := exists_ofParts hIn
    have hText := resolve_monthDay hNone hFirst hd
    have hWritten := written_of_total hResolved hText
    refine ⟨hYear ▸ hWritten, fun e hNames => ?_⟩
    have hIso := hResolved.full e hNames (noRelative_of_firstRelative hNone)
    rw [hText, dateText_of_written hWritten] at hIso
    cases Date.iso_inj (Option.some.inj hIso)
    exact ⟨hYear, hParts⟩
  · intro hNone hNot
    have hText := @resolve_fullDate lib text referenceDate hNone hNot
    have hFound : ∀ d, ((firstFullDate lib text).bind fun p =>
        Date.ofParts p.1 p.2.1 p.2.2) = some d → Written lib d.year := by
      intro d hd
      rw [hd, Option.elim_some] at hText
      exact written_of_total hResolved hText
    refine ⟨fun year p hFirst hIn => ?_, fun e hNames => ?_⟩
    · obtain ⟨d, hd, rfl, -⟩ := exists_ofParts hIn
      exact hFound d (by rw [hFirst, Option.bind_some, hd])
    · have hIso := hResolved.full e hNames (noRelative_of_firstRelative hNone)
      rw [hText] at hIso
      cases hd : (firstFullDate lib text).bind fun p => Date.ofParts p.1 p.2.1 p.2.2 with
      | none =>
        rw [hd, Option.elim_none] at hIso
        have hLength := congrArg List.length (Option.some.inj hIso)
        rw [Date.iso_length] at hLength
        cases hLength
      | some d =>
        rw [hd, Option.elim_some, dateText_of_written (hFound d hd)] at hIso
        cases Date.iso_inj (Option.some.inj hIso)
        obtain ⟨⟨year, month, day⟩, hFirst, hParts⟩ := Option.bind_eq_some_iff.mp hd
        obtain ⟨rfl, rfl, rfl⟩ := Date.ofParts_eq_some_iff.mp hParts
        exact hFirst

theorem resolved_of_named (hNamed : Named lib text (reference lib referenceDate)) :
    Resolved lib text referenceDate := by
  have hRelative : ∀ form, firstRelative lib text = some form →
      ∃ d, form.date lib (reference lib referenceDate) = some d ∧
        resolveTemporalExpression lib text referenceDate = some d.iso := by
    intro form hForm
    obtain ⟨w, hShows, -⟩ := shows_of_firstRelative hForm
    obtain ⟨d, hd, hWritten⟩ := (written_date_iff hShows).mpr (hNamed.relative form hForm)
    exact ⟨d, hd, by rw [resolve_relative hForm, hd, Option.map_some, dateText_of_written hWritten]⟩
  have hMonthDay : firstRelative lib text = none → ∀ p, firstMonthDay lib text = some p →
      InYear (reference lib referenceDate).year p →
      ∃ d : Date, (d.year = (reference lib referenceDate).year ∧ (d.month, d.day) = p) ∧
        resolveTemporalExpression lib text referenceDate = some d.iso := by
    intro hNone p hFirst hIn
    obtain ⟨d, hd, hYear, hParts⟩ := exists_ofParts hIn
    have hWritten := (hNamed.monthDay hNone p hFirst hIn).1
    refine ⟨d, ⟨hYear, hParts⟩, ?_⟩
    rw [resolve_monthDay hNone hFirst hd, dateText_of_written (hYear ▸ hWritten)]
  constructor
  · cases hForm : firstRelative lib text with
    | some form =>
      obtain ⟨d, -, hText⟩ := hRelative form hForm
      exact ⟨d.iso, hText, .inr ⟨d, rfl⟩⟩
    | none =>
      by_cases hIn : ∃ p, firstMonthDay lib text = some p ∧ InYear (reference lib referenceDate).year p
      · obtain ⟨p, hFirst, hIn⟩ := hIn
        obtain ⟨d, -, hText⟩ := hMonthDay hForm p hFirst hIn
        exact ⟨d.iso, hText, .inr ⟨d, rfl⟩⟩
      · have hNot : ∀ p, firstMonthDay lib text = some p →
            ¬InYear (reference lib referenceDate).year p := fun p hFirst hp => hIn ⟨p, hFirst, hp⟩
        refine ⟨_, resolve_fullDate hForm hNot, ?_⟩
        cases hd : (firstFullDate lib text).bind fun p => Date.ofParts p.1 p.2.1 p.2.2 with
        | none => exact .inl rfl
        | some d =>
          obtain ⟨⟨year, month, day⟩, hFirst, hParts⟩ := Option.bind_eq_some_iff.mp hd
          obtain ⟨rfl, rfl, rfl⟩ := Date.ofParts_eq_some_iff.mp hParts
          refine .inr ⟨d, dateText_of_written ?_⟩
          exact (hNamed.fullDate hForm hNot).1 _ _ hFirst ⟨d.hYear, d.hMonth, d.hDay⟩
  · intro d hNames hNoRelative
    have hNone := firstRelative_of_noRelative hNoRelative
    by_cases hIn : ∃ p, firstMonthDay lib text = some p ∧ InYear (reference lib referenceDate).year p
    · obtain ⟨p, hFirst, hIn⟩ := hIn
      obtain ⟨e, ⟨hYear, hParts⟩, hText⟩ := hMonthDay hNone p hFirst hIn
      obtain ⟨hSameYear, hSame⟩ := (hNamed.monthDay hNone p hFirst hIn).2 d hNames
      have hEq : d = e := by
        rw [← hParts, Prod.mk.injEq] at hSame
        have hSelf : Date.ofParts e.year e.month e.day = some d :=
          Date.ofParts_eq_some_iff.mpr ⟨hSameYear.trans hYear.symm, hSame.1, hSame.2⟩
        exact (Option.some.inj (hSelf.symm.trans (Date.ofParts_eq_some_iff.mpr ⟨rfl, rfl, rfl⟩)))
      rw [hEq]
      exact hText
    · have hNot : ∀ p, firstMonthDay lib text = some p →
          ¬InYear (reference lib referenceDate).year p := fun p hFirst hp => hIn ⟨p, hFirst, hp⟩
      obtain ⟨hWritten, hFirst⟩ := hNamed.fullDate hNone hNot
      have hFirst := hFirst d hNames
      have hDay : Date.ofParts d.year d.month d.day = some d :=
        Date.ofParts_eq_some_iff.mpr ⟨rfl, rfl, rfl⟩
      rw [resolve_fullDate hNone hNot, hFirst, Option.bind_some, hDay, Option.elim_some,
        dateText_of_written (hWritten _ _ hFirst ⟨d.hYear, d.hMonth, d.hDay⟩)]
  · intro w form hOnly
    obtain ⟨d, hd, hText⟩ := hRelative form (firstRelative_of_only hOnly)
    exact ⟨d, date_ordinal hd, hText⟩

/-- A text resolves as it should when, and only when, its first expression names the date. -/
theorem resolved_iff (lib : Library) (text referenceDate : Text) :
    Resolved lib text referenceDate ↔ Named lib text (reference lib referenceDate) :=
  ⟨named_of_resolved, resolved_of_named⟩

end Resolved

/-- Digits of ASCII, and the dates that `strptime` reads from ten characters. -/
def plain : Library where
  digit c := if c.isDigit then some (c.toNat - '0'.toNat) else none
  maxDigits := 4300
  padsYear := false
  strptime t :=
    if t.length = 10 ∧ (t.take 4 ++ (t.drop 5).take 2 ++ t.drop 8).all Char.isDigit then
      Date.ofParts (Nat.ofDigitChars 10 (t.take 4) 0) (Nat.ofDigitChars 10 ((t.drop 5).take 2) 0)
        (Nat.ofDigitChars 10 (t.drop 8) 0)
    else none
  now := ⟨2024, 6, 1, by decide, by decide, by decide⟩
  hDigit c hFrom _ := by
    have hNot : ¬c.isDigit = true := fun h => by
      have := Python.digit_bounds h
      omega
    exact if_neg hNot

/-- The fifth of March of 2023 asked for in 2024 is the one of 2024. -/
theorem full_in_reference_year : ¬Resolved plain
    ['2', '0', '2', '3', '年', '3', '月', '5', '日']
    ['2', '0', '2', '4', '-', '0', '6', '-', '0', '1'] := by
  intro hResolved
  have hFull : FullForm plain ⟨2023, 3, 5, by decide, by decide, by decide⟩
      ['2', '0', '2', '3', '年', '3', '月', '5', '日'] :=
    ⟨['2', '0', '2', '3'], ['3'], ['5'], ⟨by decide, List.all_eq_true.mp (by decide)⟩, by decide,
      by decide, ⟨by decide, List.all_eq_true.mp (by decide)⟩, by decide, by decide,
      ⟨by decide, List.all_eq_true.mp (by decide)⟩, by decide, by decide, rfl⟩
  have hIso := hResolved.full _ ⟨[], _, [], hFull, (List.append_nil _).symm, by simp⟩
    (noRelative_of_firstRelative (by decide))
  exact absurd hIso (by decide)

end OpenSpoke.Rag.Temporal
