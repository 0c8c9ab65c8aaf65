import Mathlib.Data.List.DropRight
import Mathlib.Tactic.IntervalCases

/-!
# URLs as `fetch` reads them

The parser of the URL standard for URLs of the schemes `http` and `https`, with
the authority kept as it is written. The path is cut at slashes and backslashes,
its characters are percent-encoded, and segments of one or two dots, in any
spelling, are taken as steps.
-/

namespace OpenSpoke.Web

/-- Taken out of a URL wherever it stands. -/
def tabOrNewline (c : Char) : Bool := c = '\t' || c = '\n' || c = '\r'

/-- Taken off both ends of a URL. -/
def controlOrSpace (c : Char) : Bool := c.toNat ≤ 32

def isSlash (c : Char) : Bool := c = '/' || c = '\\'

def endsPath (c : Char) : Bool := c = '?' || c = '#'

def endsAuthority (c : Char) : Bool := isSlash c || endsPath c

def queryEncoded (c : Char) : Bool :=
  c.toNat < 32 || 126 < c.toNat || [' ', '"', '#', '<', '>', '\''].contains c

def pathEncoded (c : Char) : Bool :=
  c.toNat < 32 || 126 < c.toNat ||
    [' ', '"', '#', '<', '>', '?', '^', '\x60', '\x7b', '\x7d'].contains c

def hexDigit (n : Nat) : Char := ("0123456789ABCDEF".toList.drop n).headD '0'

def percentByte (b : UInt8) : List Char := ['%', hexDigit (b.toNat / 16), hexDigit (b.toNat % 16)]

def percentEncode (encoded : Char → Bool) (c : Char) : List Char :=
  if encoded c then (String.utf8EncodeChar c).flatMap percentByte else [c]

abbrev Segment := List Char

/-- Behind a dot, in one of its spellings. -/
def dropDot : List Char → Option (List Char)
  | '.' :: rest | '%' :: '2' :: 'e' :: rest | '%' :: '2' :: 'E' :: rest => some rest
  | _ => none

def isDot (s : Segment) : Bool := dropDot s = some []

def isDoubleDot (s : Segment) : Bool := (dropDot s).bind dropDot = some []

/-- The path state, up to the steps: the text is cut, and its characters are encoded. -/
def segments (buffer : Segment) : List Char → List Segment
  | [] => [buffer]
  | c :: text =>
    if isSlash c then buffer :: segments [] text
    else segments (buffer ++ percentEncode pathEncoded c) text

/-- The path state at the end of a segment. -/
def place (path : List Segment) (s : Segment) (last : Bool) : List Segment :=
  if isDoubleDot s then if last then path.dropLast ++ [[]] else path.dropLast
  else if isDot s then if last then path ++ [[]] else path
  else path ++ [s]

def resolve (path : List Segment) : List Segment → List Segment
  | [] => path
  | [s] => place path s true
  | s :: t :: more => resolve (place path s false) (t :: more)

structure Url where
  scheme : List Char
  authority : List Char
  path : List Segment
  query : Option (List Char)
  deriving DecidableEq

def Url.pathname (u : Url) : List Char := u.path.flatMap ('/' :: ·)

def stripEnd (text : List Char) : List Char := text.rdropWhile controlOrSpace

def clean (text : List Char) : List Char := text.filter fun c => !tabOrNewline c

/-- The path start state: one leading slash is read. -/
def pathOf (text : List Char) : List Segment :=
  match text with
  | [] => resolve [] (segments [] [])
  | c :: rest => resolve [] (segments [] (if isSlash c then rest else c :: rest))

def queryOf (text : List Char) : Option (List Char) :=
  match text with
  | '?' :: rest => some ((rest.takeWhile (· ≠ '#')).flatMap (percentEncode queryEncoded))
  | _ => none

/-- From the path start state on. -/
def afterAuthority (scheme authority text : List Char) : Url where
  scheme
  authority
  path := pathOf (text.takeWhile fun c => !endsPath c)
  query := queryOf (text.dropWhile fun c => !endsPath c)

def parse (input : List Char) : Option Url :=
  let text := clean (stripEnd (input.dropWhile controlOrSpace))
  let scheme := (text.takeWhile (· ≠ ':')).map Char.toLower
  let rest := ((text.dropWhile (· ≠ ':')).drop 1).dropWhile isSlash
  let authority := rest.takeWhile fun c => !endsAuthority c
  if (scheme = "http".toList ∨ scheme = "https".toList) ∧ authority ≠ [] then
    some (afterAuthority scheme authority (rest.drop authority.length))
  else none

example : parse "http://a:1/x/%2E%2e/y\\.\\z?q=1#f".toList =
    some ⟨"http".toList, "a:1".toList, ["y".toList, "z".toList], some "q=1".toList⟩ := by decide

/-! ## The ends of a text -/

variable {text rest : List Char} {buffer : Segment} {c : Char}

/-- No character that is taken out. -/
def Bare (text : List Char) : Prop := ∀ c ∈ text, controlOrSpace c = false

theorem bare_of_all (h : text.all (fun c => !controlOrSpace c) = true) : Bare text :=
  fun c hc => by simpa using List.all_eq_true.mp h c hc

theorem stripEnd_cons (h : controlOrSpace c = false) :
    stripEnd (c :: text) = c :: stripEnd text := by
  rw [stripEnd, stripEnd, List.rdropWhile, List.rdropWhile, List.reverse_cons,
    List.dropWhile_append]
  split
  next hNil => simp [List.isEmpty_iff.mp hNil, h]
  next => rw [List.reverse_append, List.reverse_singleton, List.singleton_append]

theorem clean_cons (h : controlOrSpace c = false) : clean (c :: text) = c :: clean text := by
  refine List.filter_cons_of_pos ?_
  simp only [tabOrNewline, Bool.not_eq_true', Bool.or_eq_false_iff, decide_eq_false_iff_not]
  refine ⟨⟨?_, ?_⟩, ?_⟩ <;> rintro rfl <;> simp [controlOrSpace] at h

theorem clean_of_bare (h : Bare text) : clean text = text := by
  induction text with
  | nil => rfl
  | cons c text ih =>
    obtain ⟨hc, hText⟩ := List.forall_mem_cons.mp h
    rw [clean_cons hc, ih hText]

theorem clean_stripEnd_append {front : List Char} (h : Bare front) (text : List Char) :
    clean (stripEnd (front ++ text)) = front ++ clean (stripEnd text) := by
  induction front with
  | nil => rfl
  | cons c front ih =>
    obtain ⟨hc, hFront⟩ := List.forall_mem_cons.mp h
    rw [List.cons_append, stripEnd_cons hc, clean_cons hc, ih hFront, List.cons_append]

/-! ## The origin -/

/-- A scheme and an authority, and nothing behind them. -/
structure IsOrigin (base scheme authority : List Char) : Prop where
  known : scheme = "http".toList ∨ scheme = "https".toList
  nonempty : authority ≠ []
  inside : ∀ c ∈ authority, endsAuthority c = false
  bare : Bare authority
  eq : base = scheme ++ ("://".toList ++ authority)

variable {base scheme authority : List Char}

theorem IsOrigin.bare_base (h : IsOrigin base scheme authority) : Bare base := by
  have hScheme : Bare (scheme ++ "://".toList) := by
    rcases h.known with rfl | rfl <;> exact bare_of_all (by decide)
  rw [h.eq, ← List.append_assoc]
  exact List.forall_mem_append.mpr ⟨hScheme, h.bare⟩

theorem isOrigin_of {base scheme authority : List Char}
    (hKnown : scheme = "http".toList ∨ scheme = "https".toList) (hNonempty : authority ≠ [])
    (hAll : (authority.all fun c => !endsAuthority c && !controlOrSpace c) = true)
    (hEq : base = scheme ++ ("://".toList ++ authority)) : IsOrigin base scheme authority where
  known := hKnown
  nonempty := hNonempty
  inside := fun c hc => by simpa using (Bool.and_eq_true_iff.mp (List.all_eq_true.mp hAll c hc)).1
  bare := fun c hc => by simpa using (Bool.and_eq_true_iff.mp (List.all_eq_true.mp hAll c hc)).2
  eq := hEq

/-- Behind an origin, a path cannot change where the request goes. -/
theorem parse_origin (h : IsOrigin base scheme authority) (text : List Char) :
    parse (base ++ '/' :: text) =
      some (afterAuthority scheme authority ('/' :: clean (stripEnd text))) := by
  have hAll : (base ++ '/' :: text).dropWhile controlOrSpace = base ++ '/' :: text := by
    rw [h.eq]
    rcases h.known with rfl | rfl <;> rfl
  have hClean : clean (stripEnd (base ++ '/' :: text)) =
      scheme ++ ':' :: '/' :: '/' :: (authority ++ '/' :: clean (stripEnd text)) := by
    rw [clean_stripEnd_append h.bare_base, stripEnd_cons rfl, clean_cons rfl, h.eq,
      List.append_assoc, List.append_assoc]
    rfl
  have hSlashes : ('/' :: '/' :: (authority ++ '/' :: clean (stripEnd text))).dropWhile isSlash =
      authority ++ '/' :: clean (stripEnd text) := by
    obtain ⟨c, rest, rfl⟩ := List.exists_cons_of_ne_nil h.nonempty
    have hc := (Bool.or_eq_false_iff.mp (h.inside c (List.mem_cons_self ..))).1
    rw [List.dropWhile_cons_of_pos rfl, List.dropWhile_cons_of_pos rfl, List.cons_append,
      List.dropWhile_cons_of_neg (by simp [hc])]
  have hAuthority : (authority ++ '/' :: clean (stripEnd text)).takeWhile
      (fun c => !endsAuthority c) = authority := by
    rw [List.takeWhile_append_of_pos fun c hc => by simp [h.inside c hc],
      List.takeWhile_cons_of_neg (by decide), List.append_nil]
  have hScheme : ∀ rest, (scheme ++ ':' :: rest).takeWhile (· ≠ ':') = scheme ∧
      (scheme ++ ':' :: rest).dropWhile (· ≠ ':') = ':' :: rest ∧
        scheme.map Char.toLower = scheme := by
    intro rest
    rcases h.known with rfl | rfl <;> exact ⟨rfl, rfl, rfl⟩
  obtain ⟨hTake, hDrop, hLower⟩ := hScheme
    ('/' :: '/' :: (authority ++ '/' :: clean (stripEnd text)))
  rw [parse]
  simp only [hAll, hClean, hTake, hDrop, hLower, List.drop_succ_cons, List.drop_zero, hSlashes,
    hAuthority, List.drop_left]
  exact if_pos ⟨h.known, h.nonempty⟩

theorem query_none (h : ∀ c ∈ text, endsPath c = false) :
    (afterAuthority scheme authority ('/' :: clean (stripEnd text))).query = none := by
  have hInside : ∀ c ∈ '/' :: clean (stripEnd text), (!endsPath c) = true :=
    List.forall_mem_cons.mpr ⟨rfl, fun c hc => by
      simp [h c ((List.rdropWhile_prefix controlOrSpace text).subset (List.mem_of_mem_filter hc))]⟩
  rw [afterAuthority, List.dropWhile_eq_nil_iff.mpr hInside]
  rfl

/-! ## Steps -/

theorem segments_ne_nil (buffer : Segment) (text : List Char) : segments buffer text ≠ [] := by
  induction text generalizing buffer with
  | nil => simp [segments]
  | cons c text ih =>
    rw [segments]
    split
    · simp
    · exact ih _

theorem resolve_append (path : List Segment) {more : List Segment} (hMore : more ≠ [])
    (hSteps : ∀ s ∈ more, isDoubleDot s = false) :
    ∃ rest, rest ≠ [] ∧ resolve path more = path ++ rest := by
  induction more generalizing path with
  | nil => exact absurd rfl hMore
  | cons s more ih =>
    obtain ⟨hs, hSteps⟩ := List.forall_mem_cons.mp hSteps
    cases more with
    | nil =>
      by_cases hDot : isDot s = true
      · exact ⟨[[]], by simp, by simp [resolve, place, hs, hDot]⟩
      · exact ⟨[s], by simp, by simp [resolve, place, hs, hDot]⟩
    | cons t more =>
      obtain ⟨rest, hRest, hEq⟩ := ih (place path s false) (by simp) hSteps
      by_cases hDot : isDot s = true
      · exact ⟨rest, hRest, by rw [resolve, hEq]; simp [place, hs, hDot]⟩
      · exact ⟨s :: rest, by simp, by rw [resolve, hEq]; simp [place, hs, hDot]⟩

theorem resolve_plain (path : List Segment) {front more : List Segment} (hMore : more ≠ [])
    (hFront : ∀ s ∈ front, isDoubleDot s = false ∧ isDot s = false) :
    resolve path (front ++ more) = resolve (path ++ front) more := by
  induction front generalizing path with
  | nil => simp
  | cons s front ih =>
    obtain ⟨⟨hDouble, hDot⟩, hFront⟩ := List.forall_mem_cons.mp hFront
    obtain ⟨t, tail, hTail⟩ := List.exists_cons_of_ne_nil (l := front ++ more) (by simp [hMore])
    have hPlace : place path s false = path ++ [s] := by simp [place, hDouble, hDot]
    rw [List.cons_append, hTail, resolve, ← hTail, hPlace, ih _ hFront, List.append_assoc,
      List.singleton_append]

/-- The characters of a path that are read so far. -/
def written (path : List Segment) (buffer : Segment) : List Char :=
  path.flatMap ('/' :: ·) ++ '/' :: buffer

/-- Not the beginning of a step. -/
def Firm : Segment → Prop
  | [] => False
  | c :: _ => c ≠ '.' ∧ c ≠ '%'

theorem Firm.append {s : Segment} (h : Firm s) (t : List Char) : Firm (s ++ t) := by
  cases s with
  | nil => exact h.elim
  | cons c s => exact h

theorem Firm.no_step {s : Segment} (h : Firm s) : isDoubleDot s = false ∧ isDot s = false := by
  have hNone : dropDot s = none := by
    cases s with
    | nil => exact h.elim
    | cons c s =>
      unfold dropDot
      split
      all_goals simp_all [Firm]
  simp [isDoubleDot, isDot, hNone]

/-- What is read of a path stands at its beginning, unless a step goes back. -/
theorem written_prefix (path : List Segment) (hBuffer : buffer = [] ∨ Firm buffer)
    (hSteps : ∀ s ∈ segments buffer text, isDoubleDot s = false) :
    written path buffer <+: (resolve path (segments buffer text)).flatMap ('/' :: ·) := by
  have hEmpty : ∀ (path : List Segment) (buffer : Segment) (text : List Char),
      (∀ s ∈ segments buffer text, isDoubleDot s = false) →
      written path [] <+: (resolve path (segments buffer text)).flatMap ('/' :: ·) := by
    intro path buffer text hSteps
    obtain ⟨rest, hRest, hEq⟩ := resolve_append path (segments_ne_nil buffer text) hSteps
    obtain ⟨s, rest, rfl⟩ := List.exists_cons_of_ne_nil hRest
    rw [hEq, List.flatMap_append, written]
    exact (List.prefix_append_right_inj _).mpr ⟨s ++ rest.flatMap ('/' :: ·), rfl⟩
  induction text generalizing buffer with
  | nil =>
    rcases hBuffer with rfl | hFirm
    · exact hEmpty path [] [] hSteps
    · simp [segments, resolve, place, hFirm.no_step, written]
  | cons c text ih =>
    rcases hBuffer with rfl | hFirm
    · exact hEmpty path [] _ hSteps
    · rw [segments] at hSteps ⊢
      split at hSteps
      next hSlash =>
        obtain ⟨t, tail, hTail⟩ := List.exists_cons_of_ne_nil (segments_ne_nil [] text)
        have hPlace : place path buffer false = path ++ [buffer] := by
          simp [place, hFirm.no_step]
        rw [if_pos hSlash, hTail, resolve, ← hTail, hPlace]
        refine List.IsPrefix.trans ?_ (hEmpty (path ++ [buffer]) [] text
          (List.forall_mem_cons.mp hSteps).2)
        simp [written]
      next hSlash =>
        rw [if_neg hSlash]
        refine List.IsPrefix.trans ?_ (ih (.inr (hFirm.append _)) hSteps)
        simp [written]

theorem segments_append (front text : List Char) (buffer : Segment) :
    ∃ init stem, segments buffer front = init ++ [stem] ∧
      segments buffer (front ++ text) = init ++ segments stem text := by
  induction front generalizing buffer with
  | nil => exact ⟨[], buffer, rfl, rfl⟩
  | cons c front ih =>
    rw [List.cons_append, segments, segments]
    split
    · obtain ⟨init, stem, hFront, hAll⟩ := ih []
      exact ⟨buffer :: init, stem, by rw [hFront, List.cons_append], by rw [hAll, List.cons_append]⟩
    · exact ih _

/-- Neither encoded nor turned into a slash. -/
def kept (c : Char) : Bool := c ≠ '\\' && !pathEncoded c

theorem segments_written {front : List Char} (h : front.all kept = true) (buffer : Segment) :
    (segments buffer front).flatMap ('/' :: ·) = '/' :: (buffer ++ front) := by
  induction front generalizing buffer with
  | nil => simp [segments]
  | cons c front ih =>
    obtain ⟨hc, hFront⟩ := Bool.and_eq_true_iff.mp (List.all_cons ▸ h)
    obtain ⟨hBack, hPlain⟩ : c ≠ '\\' ∧ pathEncoded c = false := by simpa [kept] using hc
    rw [segments]
    split
    next hSlash =>
      obtain rfl : c = '/' := by simpa [isSlash, hBack] using hSlash
      rw [List.flatMap_cons, ih hFront, List.cons_append, List.nil_append]
    next hSlash =>
      rw [ih hFront, percentEncode, if_neg (by simp [hPlain]), List.append_assoc,
        List.singleton_append]

/-- A beginning of a path that no later segment can change, but for a step back. -/
def steady (front : List Char) : Bool :=
  front.all kept && (segments [] front).all fun s => s.head? ≠ some '.' && s.head? ≠ some '%'

theorem firm_of_head {s : Segment} (h : s.head? ≠ some '.' ∧ s.head? ≠ some '%') :
    s = [] ∨ Firm s := by
  cases s with
  | nil => exact .inl rfl
  | cons c s => exact .inr (by simpa [Firm] using h)

theorem no_step_of_head {s : Segment} (h : s.head? ≠ some '.' ∧ s.head? ≠ some '%') :
    isDoubleDot s = false ∧ isDot s = false := by
  rcases firm_of_head h with rfl | hFirm
  · exact ⟨rfl, rfl⟩
  · exact hFirm.no_step

theorem steady_prefix {front : List Char} (h : steady front = true)
    (hSteps : ∀ s ∈ segments [] (front ++ text), isDoubleDot s = false) :
    '/' :: front <+: (resolve [] (segments [] (front ++ text))).flatMap ('/' :: ·) := by
  obtain ⟨hKept, hHeads⟩ := Bool.and_eq_true_iff.mp h
  obtain ⟨init, stem, hFront, hAll⟩ := segments_append front text []
  have hHead : ∀ s ∈ init ++ [stem], s.head? ≠ some '.' ∧ s.head? ≠ some '%' := fun s hs => by
    simpa using List.all_eq_true.mp hHeads s (hFront ▸ hs)
  obtain ⟨hInit, hStem⟩ := List.forall_mem_append.mp hHead
  have hWritten : '/' :: front = written init stem := by
    have hFlat := segments_written hKept []
    rw [hFront, List.flatMap_append] at hFlat
    simpa [written] using hFlat.symm
  rw [hAll] at hSteps ⊢
  rw [hWritten, resolve_plain [] (segments_ne_nil stem text) fun s hs =>
    no_step_of_head (hInit s hs), List.nil_append]
  exact written_prefix init (firm_of_head (hStem stem (by simp)))
    (List.forall_mem_append.mp hSteps).2

/-- The segments of a path behind its first slash. -/
def pathSegments (text : List Char) : List Segment :=
  segments [] ((clean (stripEnd text)).takeWhile fun c => !endsPath c)

theorem bare_of_kept {front : List Char} (h : front.all kept = true) :
    Bare front ∧ ∀ c ∈ front, endsPath c = false := by
  have hPlain : ∀ c ∈ front, pathEncoded c = false := fun c hc => by
    simpa using (Bool.and_eq_true_iff.mp (List.all_eq_true.mp h c hc)).2
  constructor
  · intro c hc
    have hc := hPlain c hc
    by_contra hLow
    have hLe : c.toNat ≤ 32 := by simpa [controlOrSpace] using hLow
    rcases Nat.lt_or_eq_of_le hLe with hLt | hEq
    · simp [pathEncoded, hLt] at hc
    · obtain rfl : c = ' ' := Char.toNat_inj.mp hEq
      cases hc
  · intro c hc
    have hc := hPlain c hc
    refine Bool.or_eq_false_iff.mpr ⟨?_, ?_⟩ <;>
    · rw [decide_eq_false_iff_not]
      rintro rfl
      cases hc

/-- Behind an origin and a steady beginning, no path without a step back leads elsewhere. -/
theorem parse_steady {front : List Char} (hOrigin : IsOrigin base scheme authority)
    (h : steady front = true)
    (hSteps : ∀ s ∈ pathSegments (front ++ text), isDoubleDot s = false) :
    ∃ u, parse (base ++ '/' :: (front ++ text)) = some u ∧ u.scheme = scheme ∧
      u.authority = authority ∧ '/' :: front <+: u.pathname := by
  refine ⟨_, parse_origin hOrigin _, rfl, rfl, ?_⟩
  obtain ⟨hBare, hInside⟩ := bare_of_kept (Bool.and_eq_true_iff.mp h).1
  have hPath : (clean (stripEnd (front ++ text))).takeWhile (fun c => !endsPath c) =
      front ++ (clean (stripEnd text)).takeWhile fun c => !endsPath c := by
    rw [clean_stripEnd_append hBare,
      List.takeWhile_append_of_pos fun c hc => by simp [hInside c hc]]
  rw [pathSegments, hPath] at hSteps
  rw [Url.pathname, afterAuthority, List.takeWhile_cons_of_pos (by decide), hPath]
  exact steady_prefix h hSteps

/-! ## Paths of plain words -/

theorem segments_word {w : Segment} (h : ∀ c ∈ w, kept c = true ∧ isSlash c = false)
    (buffer : Segment) (text : List Char) :
    segments buffer (w ++ text) = segments (buffer ++ w) text := by
  induction w generalizing buffer with
  | nil => simp
  | cons c w ih =>
    obtain ⟨⟨hKept, hSlash⟩, hw⟩ := List.forall_mem_cons.mp h
    have hPlain : pathEncoded c = false := by simpa using (Bool.and_eq_true_iff.mp hKept).2
    rw [List.cons_append, segments, if_neg (by simp [hSlash]), percentEncode,
      if_neg (by simp [hPlain]), ih hw, List.append_assoc, List.singleton_append]

/-- Characters that stand in a segment as they are. -/
def Worded (words : List Segment) : Prop :=
  ∀ w ∈ words, ∀ c ∈ w, kept c = true ∧ isSlash c = false

theorem worded_nil : Worded [] := by
  rintro w ⟨⟩

theorem Worded.cons {w : Segment} {words : List Segment}
    (hw : ∀ c ∈ w, kept c = true ∧ isSlash c = false) (h : Worded words) : Worded (w :: words) :=
  List.forall_mem_cons.mpr ⟨hw, h⟩

theorem segments_intercalate {words : List Segment} (h : Worded words) (hNonempty : words ≠ []) :
    segments [] (['/'].intercalate words) = words := by
  induction words with
  | nil => exact absurd rfl hNonempty
  | cons w words ih =>
    obtain ⟨hw, hWords⟩ := List.forall_mem_cons.mp h
    cases words with
    | nil =>
      have hAll := segments_word hw [] []
      simpa [segments] using hAll
    | cons w' words =>
      rw [List.intercalate_cons_cons, List.append_assoc, segments_word hw, List.nil_append,
        List.singleton_append, segments, if_pos (by decide), ih hWords (by simp)]

theorem kept_intercalate {words : List Segment} (h : Worded words) :
    (['/'].intercalate words).all kept = true := by
  induction words with
  | nil => rfl
  | cons w words ih =>
    obtain ⟨hw, hWords⟩ := List.forall_mem_cons.mp h
    have hKept : w.all kept = true := List.all_eq_true.mpr fun c hc => (hw c hc).1
    cases words with
    | nil => simpa using hKept
    | cons w' words =>
      rw [List.intercalate_cons_cons, List.all_append, List.all_append, hKept, ih hWords]
      rfl

theorem parse_front {front : List Char} (hOrigin : IsOrigin base scheme authority)
    (h : front.all kept = true) (hRest : rest = [] ∨ ∃ r, rest = '?' :: r) :
    ∃ u, parse (base ++ '/' :: (front ++ rest)) = some u ∧ u.scheme = scheme ∧
      u.authority = authority ∧ u.path = resolve [] (segments [] front) ∧
      (rest = [] → u.query = none) := by
  obtain ⟨hBare, hInside⟩ := bare_of_kept h
  have hInside : ∀ c ∈ '/' :: front, (!endsPath c) = true :=
    List.forall_mem_cons.mpr ⟨rfl, fun c hc => by simp [hInside c hc]⟩
  have hEnd : ∃ tail, clean (stripEnd rest) = tail ∧ (tail = [] ∨ ∃ r, tail = '?' :: r) ∧
      (rest = [] → tail = []) := by
    rcases hRest with rfl | ⟨r, rfl⟩
    · exact ⟨[], rfl, .inl rfl, fun _ => rfl⟩
    · rw [stripEnd_cons rfl, clean_cons rfl]
      exact ⟨_, rfl, .inr ⟨_, rfl⟩, by simp⟩
  obtain ⟨tail, hTail, hShape, hNone⟩ := hEnd
  have hTake : tail.takeWhile (fun c => !endsPath c) = [] := by
    rcases hShape with rfl | ⟨r, rfl⟩ <;> rfl
  refine ⟨_, parse_origin hOrigin _, rfl, rfl, ?_, fun h => ?_⟩
  · rw [clean_stripEnd_append hBare, hTail, afterAuthority, ← List.cons_append,
      List.takeWhile_append_of_pos hInside, hTake, List.append_nil]
    rfl
  · rw [clean_stripEnd_append hBare, hTail, hNone h, List.append_nil, afterAuthority,
      List.dropWhile_eq_nil_iff.mpr hInside]
    rfl

theorem parse_words {words : List Segment} (hOrigin : IsOrigin base scheme authority)
    (h : Worded words) (hNonempty : words ≠ []) (hRest : rest = [] ∨ ∃ r, rest = '?' :: r) :
    ∃ u, parse (base ++ '/' :: (['/'].intercalate words ++ rest)) = some u ∧ u.scheme = scheme ∧
      u.authority = authority ∧ u.path = resolve [] words ∧ (rest = [] → u.query = none) := by
  have hFront := parse_front hOrigin (kept_intercalate h) hRest
  rwa [segments_intercalate h hNonempty] at hFront

theorem resolve_words {words : List Segment}
    (h : ∀ s ∈ words, isDoubleDot s = false ∧ isDot s = false) (path : List Segment) :
    resolve path words = path ++ words := by
  cases words using List.reverseRecOn with
  | nil => simp [resolve]
  | append_singleton words s =>
    obtain ⟨hWords, hs⟩ := List.forall_mem_append.mp h
    obtain ⟨hDouble, hDot⟩ := hs s (by simp)
    rw [resolve_plain path (by simp) hWords, resolve, place, if_neg (by simp [hDouble]),
      if_neg (by simp [hDot]), List.append_assoc]

end OpenSpoke.Web

/-!
## Form data in a query

`URLSearchParams` writes pairs of texts as a query, and a server reads them back.
-/

namespace OpenSpoke.Web

/-- Written as it is. -/
def formKept (c : Char) : Bool := c.isAlphanum || c = '*' || c = '-' || c = '.' || c = '_'

def formByte (b : UInt8) : List Char :=
  if b = 32 then ['+'] else if formKept (Char.ofUInt8 b) then [Char.ofUInt8 b] else percentByte b

def formEncode (s : String) : List Char := s.toUTF8.data.toList.flatMap formByte

def formPair (p : String × String) : List Char := formEncode p.1 ++ '=' :: formEncode p.2

def formString (l : List (String × String)) : List Char := ['&'].intercalate (l.map formPair)

def unhex (c : Char) : Option Nat :=
  if c.isDigit then some (c.toNat - 48)
  else if 'a' ≤ c ∧ c ≤ 'f' then some (c.toNat - 87)
  else if 'A' ≤ c ∧ c ≤ 'F' then some (c.toNat - 55)
  else none

/-- What is not two digits behind a percent sign stays. -/
def percentDecode : List Char → List UInt8
  | '%' :: a :: b :: rest =>
    match unhex a, unhex b with
    | some x, some y => UInt8.ofNat (16 * x + y) :: percentDecode rest
    | _, _ => 37 :: percentDecode (a :: b :: rest)
  | '+' :: rest => 32 :: percentDecode rest
  | c :: rest => String.utf8EncodeChar c ++ percentDecode rest
  | [] => []

/-- None if the bytes are no text. -/
def formDecode (t : List Char) : Option String := String.fromUTF8? ⟨(percentDecode t).toArray⟩

def formPairs (t : List Char) : List (Option String × Option String) :=
  ((t.splitOn '&').filter (· ≠ [])).map fun piece =>
    (formDecode (piece.takeWhile (· ≠ '=')), formDecode ((piece.dropWhile (· ≠ '=')).drop 1))

/-- The characters that a form is written with. -/
def formChar (c : Char) : Bool := formKept c || c = '%' || c = '+'

theorem unhex_hexDigit {n : Nat} (h : n < 16) : unhex (hexDigit n) = some n := by
  interval_cases n <;> rfl

theorem formChar_hexDigit {n : Nat} (h : n < 16) : formChar (hexDigit n) = true := by
  interval_cases n <;> rfl

theorem percentDecode_percentByte (b : UInt8) (t : List Char) :
    percentDecode (percentByte b ++ t) = b :: percentDecode t := by
  have hb : b.toNat < 256 := b.toNat_lt
  have hHigh : unhex (hexDigit (b.toNat / 16)) = some (b.toNat / 16) := unhex_hexDigit (by omega)
  have hLow : unhex (hexDigit (b.toNat % 16)) = some (b.toNat % 16) := unhex_hexDigit (by omega)
  have hAll : 16 * (b.toNat / 16) + b.toNat % 16 = b.toNat := Nat.div_add_mod ..
  simp only [percentByte, List.cons_append, List.nil_append, percentDecode, hHigh, hLow, hAll,
    UInt8.ofNat_toNat]

theorem formKept_range {c : Char} (h : formKept c = true) : 42 ≤ c.toNat ∧ c.toNat ≤ 122 := by
  have hRange : ∀ {a b : UInt32}, c.val ≥ a ∧ c.val ≤ b → a.toNat ≤ c.toNat ∧ c.toNat ≤ b.toNat :=
    fun h => ⟨UInt32.le_iff_toNat_le.mp h.1, UInt32.le_iff_toNat_le.mp h.2⟩
  have hKept : ((((c.val ≥ 65 ∧ c.val ≤ 90) || (c.val ≥ 97 && c.val ≤ 122)) ||
      (c.val ≥ 48 && c.val ≤ 57)) || c = '*' || c = '-' || c = '.' || c = '_') = true := h
  simp only [Bool.or_eq_true, Bool.and_eq_true, decide_eq_true_eq] at hKept
  rcases hKept with (((((h | h) | h) | rfl) | rfl) | rfl) | rfl
  · exact ⟨le_trans (by decide) (hRange h).1, le_trans (hRange h).2 (by decide)⟩
  · exact ⟨le_trans (by decide) (hRange h).1, le_trans (hRange h).2 (by decide)⟩
  · exact ⟨le_trans (by decide) (hRange h).1, le_trans (hRange h).2 (by decide)⟩
  all_goals decide

theorem kept_of_formKept {c : Char} (h : formKept c = true) :
    kept c = true ∧ isSlash c = false := by
  obtain ⟨hLow, hHigh⟩ := formKept_range h
  have hNot : ∀ d, formKept d = false → c ≠ d := by
    rintro d hd rfl
    simp [hd] at h
  simp only [kept, isSlash, pathEncoded, Bool.and_eq_true, decide_eq_true_eq, Bool.not_eq_true',
    Bool.or_eq_false_iff, decide_eq_false_iff_not, List.contains_eq_mem, List.mem_cons,
    List.not_mem_nil, or_false, not_or]
  exact ⟨⟨hNot _ rfl, ⟨by omega, by omega⟩, hNot _ rfl, hNot _ rfl, hNot _ rfl, hNot _ rfl,
    hNot _ rfl, hNot _ rfl, hNot _ rfl, hNot _ rfl, hNot _ rfl, hNot _ rfl⟩, hNot _ rfl, hNot _ rfl⟩

theorem utf8EncodeChar_ofUInt8 {b : UInt8} (h : (Char.ofUInt8 b).toNat < 128) :
    String.utf8EncodeChar (Char.ofUInt8 b) = [b] := by
  rw [String.utf8EncodeChar_eq_singleton
    (Char.utf8Size_eq_one_iff.mpr (UInt32.le_iff_toNat_le.mpr (Nat.le_of_lt_succ h)))]
  exact congrArg (fun x => [x]) (UInt8.toUInt8_toUInt32 b)

theorem percentDecode_cons {c : Char} (hPercent : c ≠ '%') (hPlus : c ≠ '+') (t : List Char) :
    percentDecode (c :: t) = String.utf8EncodeChar c ++ percentDecode t := by
  rw [percentDecode] <;> simp_all

theorem percentDecode_formByte (b : UInt8) (t : List Char) :
    percentDecode (formByte b ++ t) = b :: percentDecode t := by
  rw [formByte]
  split
  next h =>
    subst h
    rfl
  next =>
    split
    next h =>
      rw [List.singleton_append, percentDecode_cons]
      · rw [utf8EncodeChar_ofUInt8 (Nat.lt_of_le_of_lt (formKept_range h).2 (by decide)),
          List.singleton_append]
      · rintro hEq
        rw [hEq] at h
        cases h
      · rintro hEq
        rw [hEq] at h
        cases h
    next => exact percentDecode_percentByte b t

theorem formByte_chars (b : UInt8) : ∀ c ∈ formByte b, formChar c = true := by
  have hb : b.toNat < 256 := b.toNat_lt
  rw [formByte]
  split
  · simp [formChar]
  · split
    next h => simp [formChar, h]
    next =>
      intro c hc
      simp only [percentByte, List.mem_cons, List.not_mem_nil, or_false] at hc
      rcases hc with rfl | rfl | rfl
      · rfl
      · exact formChar_hexDigit (by omega)
      · exact formChar_hexDigit (by omega)

theorem percentDecode_formEncode (l : List UInt8) : percentDecode (l.flatMap formByte) = l := by
  induction l with
  | nil => rfl
  | cons b l ih => rw [List.flatMap_cons, percentDecode_formByte, ih]

theorem formEncode_chars (s : String) : ∀ c ∈ formEncode s, formChar c = true := by
  intro c hc
  obtain ⟨b, -, hc⟩ := List.mem_flatMap.mp hc
  exact formByte_chars b c hc

theorem formDecode_formEncode (s : String) : formDecode (formEncode s) = some s := by
  rw [formDecode, formEncode, percentDecode_formEncode, String.fromUTF8?]
  exact dif_pos s.isValidUTF8

theorem not_formChar {c : Char} (h : formChar c = true) : c ≠ '&' ∧ c ≠ '=' := by
  constructor <;>
  · rintro rfl
    cases h

theorem formPairs_formString (l : List (String × String)) :
    formPairs (formString l) = l.map fun p => (some p.1, some p.2) := by
  have hPair : ∀ p : String × String, '&' ∉ formPair p := by
    intro p hp
    rcases List.mem_append.mp hp with hp | hp
    · exact (not_formChar (formEncode_chars p.1 _ hp)).1 rfl
    · rcases List.mem_cons.mp hp with hp | hp
      · cases hp
      · exact (not_formChar (formEncode_chars p.2 _ hp)).1 rfl
  have hRead : ∀ p : String × String, (formDecode ((formPair p).takeWhile (· ≠ '=')),
      formDecode (((formPair p).dropWhile (· ≠ '=')).drop 1)) = (some p.1, some p.2) := by
    intro p
    have hName : ∀ c ∈ formEncode p.1, decide (c ≠ '=') = true := fun c hc =>
      decide_eq_true (not_formChar (formEncode_chars p.1 c hc)).2
    rw [formPair, List.takeWhile_append_of_pos hName, List.dropWhile_append_of_pos hName,
      List.takeWhile_cons_of_neg (by decide), List.dropWhile_cons_of_neg (by decide),
      List.append_nil, List.drop_succ_cons, List.drop_zero, formDecode_formEncode,
      formDecode_formEncode]
  have hPieces : ∀ piece ∈ l.map formPair, '&' ∉ piece ∧ piece ≠ [] := by
    intro piece hPiece
    obtain ⟨p, -, rfl⟩ := List.mem_map.mp hPiece
    exact ⟨hPair p, by simp [formPair]⟩
  cases l with
  | nil => rfl
  | cons p l =>
    rw [formPairs, formString, List.splitOn_intercalate _ (fun piece h => (hPieces piece h).1)
      (by simp), List.filter_eq_self.mpr fun piece h => decide_eq_true (hPieces piece h).2,
      List.map_map]
    exact List.map_congr_left fun p _ => hRead p

theorem formString_chars (l : List (String × String)) :
    ∀ c ∈ formString l, formChar c = true ∨ c = '&' ∨ c = '=' := by
  have hPair : ∀ p : String × String, ∀ c ∈ formPair p, formChar c = true ∨ c = '&' ∨ c = '=' := by
    intro p c hc
    rcases List.mem_append.mp hc with hc | hc
    · exact .inl (formEncode_chars p.1 c hc)
    · rcases List.mem_cons.mp hc with rfl | hc
      · exact .inr (.inr rfl)
      · exact .inl (formEncode_chars p.2 c hc)
  induction l with
  | nil =>
    rintro c ⟨⟩
  | cons p l ih =>
    cases l with
    | nil => simpa [formString] using hPair p
    | cons q l =>
      have hEq : formString (p :: q :: l) = formPair p ++ '&' :: formString (q :: l) := by
        rw [formString, List.map_cons, List.map_cons, List.intercalate_cons_cons, List.append_assoc]
        rfl
      rw [hEq]
      refine List.forall_mem_append.mpr ⟨hPair p, List.forall_mem_cons.mpr ⟨.inr (.inl rfl), ih⟩⟩

theorem form_plain {c : Char} (h : formChar c = true ∨ c = '&' ∨ c = '=') :
    controlOrSpace c = false ∧ queryEncoded c = false ∧ c ≠ '#' := by
  have hRange : 37 ≤ c.toNat ∧ c.toNat ≤ 122 := by
    rcases h with h | rfl | rfl
    · simp only [formChar, Bool.or_eq_true, decide_eq_true_eq] at h
      rcases h with (h | rfl) | rfl
      · have := formKept_range h
        omega
      · decide
      · decide
    all_goals decide
  have hNot : ∀ d, formChar d = false → d ≠ '&' → d ≠ '=' → c ≠ d := by
    rintro d hd hAnd hEq rfl
    simp [hd, hAnd, hEq] at h
  refine ⟨decide_eq_false (by omega), ?_, hNot '#' rfl (by decide) (by decide)⟩
  simp only [queryEncoded, Bool.or_eq_false_iff, decide_eq_false_iff_not]
  refine ⟨⟨by omega, by omega⟩, ?_⟩
  simp only [List.contains_eq_mem, decide_eq_false_iff_not, List.mem_cons, List.not_mem_nil,
    or_false, not_or]
  exact ⟨hNot ' ' rfl (by decide) (by decide), hNot '"' rfl (by decide) (by decide),
    hNot '#' rfl (by decide) (by decide), hNot '<' rfl (by decide) (by decide),
    hNot '>' rfl (by decide) (by decide), hNot '\'' rfl (by decide) (by decide)⟩

theorem formString_plain (l : List (String × String)) : Bare (formString l) ∧
    (formString l).takeWhile (· ≠ '#') = formString l ∧
    (formString l).flatMap (percentEncode queryEncoded) = formString l := by
  have hPlain := fun c hc => form_plain (formString_chars l c hc)
  refine ⟨fun c hc => (hPlain c hc).1, ?_, ?_⟩
  · rw [List.takeWhile_eq_self_iff]
    exact fun c hc => decide_eq_true (hPlain c hc).2.2
  · rw [List.flatMap_congr fun c hc => by rw [percentEncode, if_neg (by simp [(hPlain c hc).2.1])]]
    exact List.flatMap_singleton' _

/-- A server that reads the query of the URL gets the pairs. -/
theorem query_form {base scheme authority text : List Char}
    (hOrigin : IsOrigin base scheme authority) (hText : ∀ c ∈ text, endsPath c = false)
    (l : List (String × String)) :
    ∃ u, parse (base ++ '/' :: (text ++ '?' :: formString l)) = some u ∧
      u.query = some (formString l) ∧ u.path = pathOf ('/' :: clean text) := by
  obtain ⟨hBare, hTake, hEncode⟩ := formString_plain l
  have hStrip : stripEnd (text ++ '?' :: formString l) = text ++ '?' :: formString l := by
    rw [stripEnd, List.rdropWhile_eq_self_iff]
    intro hNe
    rw [List.getLast_append_of_ne_nil _ (by simp)]
    have hLast := List.getLast_mem (l := '?' :: formString l) (by simp)
    rcases List.mem_cons.mp hLast with hLast | hLast
    · rw [hLast]
      decide
    · simp [hBare _ hLast]
  have hClean : clean (text ++ '?' :: formString l) = clean text ++ '?' :: formString l := by
    rw [clean, List.filter_append, ← clean, ← clean, clean_cons rfl, clean_of_bare hBare]
  have hInside : ∀ c ∈ '/' :: clean text, (!endsPath c) = true := by
    refine List.forall_mem_cons.mpr ⟨rfl, fun c hc => ?_⟩
    simp [hText c (List.mem_of_mem_filter hc)]
  refine ⟨_, parse_origin hOrigin _, ?_, ?_⟩
  · rw [hStrip, hClean, afterAuthority, ← List.cons_append, List.dropWhile_append_of_pos hInside,
      List.dropWhile_cons_of_neg (by decide), queryOf, hTake, hEncode]
  · rw [hStrip, hClean, afterAuthority, ← List.cons_append, List.takeWhile_append_of_pos hInside,
      List.takeWhile_cons_of_neg (by decide), List.append_nil]

end OpenSpoke.Web
