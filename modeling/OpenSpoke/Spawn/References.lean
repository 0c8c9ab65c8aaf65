import OpenSpoke.Spawn.Serials

/-!
# References to spawns

`_spawn_resolve_ref` takes a full id, a serial or an alias, and tells them apart
by their text. An alias is any text that `core_spawn_submit` is given.
-/

namespace OpenSpoke.Spawn.Ref

open Lts
open Python (Text)

/-- `uuid4().hex[:8]`. -/
structure Suffix where
  val : Text
  hLength : val.length = 8
  hHex : ∀ c ∈ val, c.isDigit = true ∨ c ∈ ['a', 'b', 'c', 'd', 'e', 'f']

/-- The fields of a spawn document that references are resolved with. -/
structure Doc where
  fullId : Text
  serial : Text
  aliasName : Text
  submittedEpoch : Int
  deriving DecidableEq

abbrev Store := List Doc

/-- What `core_spawn_submit` makes a document from. -/
structure Submission where
  -- the counter that `_spawn_next_serial` has read
  counter : Int
  suffix : Suffix
  aliasName : Text
  now : Int

def spawnPrefix : Text := ['s', 'p', 'a', 'w', 'n', '-']

def Submission.fullId (x : Submission) : Text :=
  spawnPrefix ++ Serial.serialOf x.counter ++ '-' :: x.suffix.val

def Submission.doc (x : Submission) : Doc :=
  ⟨x.fullId, Serial.serialOf x.counter, x.aliasName, x.now⟩

/-- `PUT /_doc/{full_id}`. -/
def Store.submit (s : Store) (x : Submission) : Store :=
  x.doc :: s.filter fun d => d.fullId ≠ x.fullId

/-- What the resolution rests on: Python's digits, the ids that request paths name, and the
search of OpenSearch. -/
structure Externals where
  -- `str.isdigit` of one character
  isDigit : Char → Bool
  hAscii : ∀ c : Char, c.toNat < 128 → isDigit c = c.isDigit
  -- `int`, none if it raises
  int : Text → Option Nat
  -- percent codes, queries and fragments have meanings of their own
  named : Text → Text
  hNamed : ∀ id : Text, (∀ c ∈ id, c.isAlphanum = true ∨ c = '-') → named id = id
  -- the first hit of a search that is sorted by submitted_epoch, latest first
  hit : List Doc → Option Doc
  hHit : ∀ docs d, hit docs = some d → d ∈ docs ∧ ∀ e ∈ docs, e.submittedEpoch ≤ d.submittedEpoch
  hHits : ∀ docs, docs ≠ [] → (hit docs).isSome = true

def startsWithSpawn (ref : Text) : Bool := spawnPrefix.isPrefixOf ref

/-- The reference looks like a full id. -/
def isFullId (ref : Text) : Bool :=
  startsWithSpawn ref && ref.count '-' = 2 &&
    match ref.splitOn '-' with
    | [_, _, third] => third.length = 8
    | _ => false

def serialStr (ref : Text) : Text :=
  if startsWithSpawn ref then ref.drop spawnPrefix.length else ref

section Resolve

variable (X : Externals)

/-- `_spawn_get_doc(spawn_ref) is not None`. -/
def Store.holds (s : Store) (ref : Text) : Bool := s.any fun d => d.fullId = X.named ref

def isSerial (ref : Text) : Bool := serialStr ref ≠ [] && (serialStr ref).all X.isDigit

/-- The id of the first hit. -/
def Store.search (s : Store) (p : Doc → Bool) : Option Text := (X.hit (s.filter p)).map Doc.fullId

/-- `_spawn_resolve_ref`, none if it raises. -/
def Store.resolveRef (s : Store) (ref : Text) : Option (Option Text) :=
  if ref = [] then some none
  else if isFullId ref && s.holds X ref then some (some ref)
  else if isSerial X ref then
    (X.int (serialStr ref)).map fun n => s.search X fun d => d.serial = Python.zeroPad 2 n
  else some (s.search X fun d => d.aliasName = ref)

/-- The reference is resolved to the latest spawn that `p` holds of. -/
def Store.ToLatest (s : Store) (ref : Text) (p : Doc → Prop) : Prop :=
  ∃ d ∈ s, s.resolveRef X ref = some (some d.fullId) ∧ p d ∧
    ∀ e ∈ s, p e → e.submittedEpoch ≤ d.submittedEpoch

/-- References of the three kinds mean what they are. -/
structure Store.Unambiguous (s : Store) : Prop where
  fullId : ∀ d ∈ s, s.resolveRef X d.fullId = some (some d.fullId)
  aliasName : ∀ d ∈ s, d.aliasName ≠ [] → s.ToLatest X d.aliasName fun e => e.aliasName = d.aliasName
  serial : ∀ digits n, digits ≠ [] → digits.all X.isDigit = true → X.int digits = some n →
    ∀ d ∈ s, d.serial = Python.zeroPad 2 n →
      (s.ToLatest X digits fun e => e.serial = d.serial) ∧
      s.ToLatest X (spawnPrefix ++ digits) fun e => e.serial = d.serial

/-- A reference that is resolved otherwise than as an alias. -/
def Store.taken (s : Store) (ref : Text) : Bool :=
  isSerial X ref || isFullId ref && s.holds X ref

/-- The condition on a submission: its alias is neither a serial nor the full id of a spawn, and
its full id is not an alias. -/
def Store.clear (s : Store) (x : Submission) : Bool :=
  (s.submit x).all fun d => d.aliasName = [] || !(s.submit x).taken X d.aliasName

end Resolve

/-- `core_spawn_submit`, where the request is answered. -/
def step (s : Store) (x : Submission) : Option Store := some (s.submit x)

/-! ## Full ids -/

theorem serialOf_isDigit {counter : Int} {c : Char} (h : c ∈ Serial.serialOf counter) :
    c.isDigit = true := Python.zeroPad_isDigit h

theorem Suffix.isAlphanum (x : Suffix) {c : Char} (h : c ∈ x.val) : c.isAlphanum = true := by
  obtain hDigit | hLetter := x.hHex c h
  · rw [Char.isAlphanum, hDigit, Bool.or_true]
  · have hAll : ∀ c ∈ ['a', 'b', 'c', 'd', 'e', 'f'], c.isAlphanum = true :=
      List.all_eq_true.mp (by decide)
    exact hAll c hLetter

theorem dash_not_mem_serialOf (counter : Int) : '-' ∉ Serial.serialOf counter :=
  fun h => absurd (serialOf_isDigit h) (by decide)

theorem Suffix.dash_not_mem (x : Suffix) : '-' ∉ x.val :=
  fun h => absurd (x.isAlphanum h) (by decide)

theorem Submission.splitOn_fullId (x : Submission) :
    x.fullId.splitOn '-' =
      [['s', 'p', 'a', 'w', 'n'], Serial.serialOf x.counter, x.suffix.val] := by
  have hText : x.fullId =
      ['s', 'p', 'a', 'w', 'n'] ++ '-' :: (Serial.serialOf x.counter ++ '-' :: x.suffix.val) := by
    simp [fullId, spawnPrefix]
  rw [hText, List.splitOn_append_cons_self, List.splitOn_append_cons_self,
    List.splitOn_eq_singleton (dash_not_mem_serialOf x.counter),
    List.splitOn_eq_singleton x.suffix.dash_not_mem]
  rfl

theorem Submission.isFullId_fullId (x : Submission) : isFullId x.fullId = true := by
  have hStart : startsWithSpawn x.fullId = true := by
    rw [startsWithSpawn, List.isPrefixOf_iff_prefix, fullId, List.append_assoc]
    exact List.prefix_append _ _
  have hCount : x.fullId.count '-' = 2 := by
    rw [fullId, List.count_append, List.count_append, List.count_cons_self,
      List.count_eq_zero.mpr (dash_not_mem_serialOf x.counter),
      List.count_eq_zero.mpr x.suffix.dash_not_mem]
    rfl
  rw [isFullId, hStart, hCount, x.splitOn_fullId]
  simp [x.suffix.hLength]

theorem Submission.fullId_plain (x : Submission) :
    ∀ c ∈ x.fullId, c.isAlphanum = true ∨ c = '-' := by
  intro c hc
  simp only [fullId, List.mem_append, List.mem_cons] at hc
  obtain (hc | hc) | rfl | hc := hc
  · have hAll : (spawnPrefix.all fun c => c.isAlphanum || c = '-') = true := by decide
    simpa only [Bool.or_eq_true, decide_eq_true_eq] using List.all_eq_true.mp hAll c hc
  · left
    rw [Char.isAlphanum, serialOf_isDigit hc, Bool.or_true]
  · exact .inr rfl
  · exact .inl (x.suffix.isAlphanum hc)

theorem Submission.fullId_ne_nil (x : Submission) : x.fullId ≠ [] := by
  rw [fullId]
  exact nofun

/-! ## The three kinds -/

section Kinds

variable {X : Externals} {s : Store}

theorem search_latest {p : Doc → Bool} (h : ∃ d ∈ s, p d = true) :
    ∃ d ∈ s, s.search X p = some d.fullId ∧ p d = true ∧
      ∀ e ∈ s, p e = true → e.submittedEpoch ≤ d.submittedEpoch := by
  obtain ⟨d₀, hMem₀, hp₀⟩ := h
  have hNe : s.filter p ≠ [] := List.ne_nil_of_mem (List.mem_filter.mpr ⟨hMem₀, hp₀⟩)
  obtain ⟨d, hd⟩ := Option.isSome_iff_exists.mp (X.hHits _ hNe)
  obtain ⟨hMem, hLatest⟩ := X.hHit _ d hd
  obtain ⟨hMem, hp⟩ := List.mem_filter.mp hMem
  refine ⟨d, hMem, by rw [Store.search, hd]; rfl, hp, fun e he hpe => ?_⟩
  exact hLatest e (List.mem_filter.mpr ⟨he, hpe⟩)

theorem resolveRef_fullId {x : Submission} (h : x.doc ∈ s) :
    s.resolveRef X x.fullId = some (some x.fullId) := by
  have hHolds : s.holds X x.fullId = true := by
    rw [Store.holds, X.hNamed x.fullId x.fullId_plain, List.any_eq_true]
    exact ⟨x.doc, h, decide_eq_true rfl⟩
  rw [Store.resolveRef, if_neg x.fullId_ne_nil, x.isFullId_fullId, hHolds]
  rfl

theorem toLatest_alias {d : Doc} (hMem : d ∈ s) (hNe : d.aliasName ≠ [])
    (hFree : s.taken X d.aliasName = false) :
    s.ToLatest X d.aliasName fun e => e.aliasName = d.aliasName := by
  rw [Store.taken, Bool.or_eq_false_iff] at hFree
  obtain ⟨e, he, hSearch, hAlias, hLatest⟩ := search_latest (X := X) (s := s)
    (p := fun e => e.aliasName = d.aliasName) ⟨d, hMem, decide_eq_true rfl⟩
  refine ⟨e, he, ?_, of_decide_eq_true hAlias, fun f hf hEq => hLatest f hf (decide_eq_true hEq)⟩
  rw [Store.resolveRef, if_neg hNe, hFree.2, hFree.1, hSearch]
  rfl

theorem not_mem_digits {digits : Text} (h : digits.all X.isDigit = true) {c : Char}
    (hAscii : c.toNat < 128) (hc : c.isDigit = false) : c ∉ digits := by
  intro hMem
  have hDigit := List.all_eq_true.mp h c hMem
  rw [X.hAscii c hAscii, hc] at hDigit
  cases hDigit

theorem serialStr_digits {digits : Text} (h : digits.all X.isDigit = true) :
    startsWithSpawn digits = false ∧ serialStr digits = digits := by
  have hStart : startsWithSpawn digits = false := by
    rw [← Bool.not_eq_true]
    intro hStart
    have hPrefix := List.isPrefixOf_iff_prefix.mp hStart
    exact not_mem_digits h (c := 's') (by decide) rfl (hPrefix.mem (by decide))
  refine ⟨hStart, ?_⟩
  rw [serialStr, hStart]
  rfl

theorem serialStr_spawn (digits : Text) : serialStr (spawnPrefix ++ digits) = digits := by
  have hStart : startsWithSpawn (spawnPrefix ++ digits) = true :=
    List.isPrefixOf_iff_prefix.mpr (List.prefix_append _ _)
  rw [serialStr, hStart, if_pos rfl, List.drop_left]

theorem toLatest_serial {ref digits : Text} {n : Nat} {d : Doc} (hNe : digits ≠ [])
    (hDigits : digits.all X.isDigit = true) (hInt : X.int digits = some n) (hMem : d ∈ s)
    (hSerial : d.serial = Python.zeroPad 2 n) (hRef : ref ≠ []) (hStr : serialStr ref = digits)
    (hFull : isFullId ref = false) : s.ToLatest X ref fun e => e.serial = d.serial := by
  obtain ⟨e, he, hSearch, hEq, hLatest⟩ := search_latest (X := X) (s := s)
    (p := fun e => e.serial = Python.zeroPad 2 n) ⟨d, hMem, decide_eq_true hSerial⟩
  refine ⟨e, he, ?_, (of_decide_eq_true hEq).trans hSerial.symm, fun f hf hf' => ?_⟩
  · have hIs : isSerial X ref = true := by
      rw [isSerial, hStr, hDigits, Bool.and_true]
      exact decide_eq_true hNe
    rw [Store.resolveRef, if_neg hRef, hFull, Bool.false_and, if_neg Bool.false_ne_true, if_pos hIs,
      hStr, hInt, Option.map_some, hSearch]
  · exact hLatest f hf (decide_eq_true (hf'.trans hSerial))

theorem unambiguous_of_free (hDocs : ∀ d ∈ s, ∃ x : Submission, d = x.doc)
    (hFree : ∀ d ∈ s, d.aliasName = [] ∨ s.taken X d.aliasName = false) : s.Unambiguous X where
  fullId := by
    intro d hd
    obtain ⟨x, rfl⟩ := hDocs d hd
    exact resolveRef_fullId hd
  aliasName := by
    intro d hd hNe
    obtain hNil | hFree := hFree d hd
    · exact absurd hNil hNe
    · exact toLatest_alias hd hNe hFree
  serial := by
    intro digits n hNe hDigits hInt d hd hSerial
    have hDash : '-' ∉ digits := not_mem_digits hDigits (by decide) rfl
    constructor
    · obtain ⟨hStart, hStr⟩ := serialStr_digits hDigits
      refine toLatest_serial hNe hDigits hInt hd hSerial hNe hStr ?_
      rw [isFullId, hStart]
      rfl
    · refine toLatest_serial hNe hDigits hInt hd hSerial (by simp [spawnPrefix])
        (serialStr_spawn digits) ?_
      have hCount : (spawnPrefix ++ digits).count '-' = 1 := by
        rw [List.count_append, List.count_eq_zero.mpr hDash]
        rfl
      rw [isFullId, hCount]
      simp

end Kinds

/-! ## Whole runs -/

/-- The store holds what has been submitted, and no alias is taken. -/
structure Inv (X : Externals) (s : Store) : Prop where
  docs : ∀ d ∈ s, ∃ x : Submission, d = x.doc
  free : ∀ d ∈ s, d.aliasName = [] ∨ s.taken X d.aliasName = false

theorem Inv.submit {X : Externals} {s : Store} (hInv : Inv X s) {x : Submission}
    (hClear : s.clear X x = true) : Inv X (s.submit x) where
  docs := by
    intro d hd
    obtain rfl | hd := List.mem_cons.mp hd
    · exact ⟨x, rfl⟩
    · exact hInv.docs d (List.mem_filter.mp hd).1
  free := by
    intro d hd
    have hOk := List.all_eq_true.mp hClear d hd
    simpa using hOk

/-- In every store built by submissions that meet the condition, references are unambiguous. -/
theorem references_unambiguous {X : Externals} {s : Store}
    (h : Reach step (fun s x => s.clear X x = true) [] s) : s.Unambiguous X := by
  have hInv : Inv X s := by
    refine @Reach.invariant _ _ _ _ (Inv X) _ _ ⟨by simp, by simp⟩ ?_ h
    rintro t x u - hInv hClear ⟨⟩
    exact hInv.submit hClear
  exact unambiguous_of_free hInv.docs hInv.free

/-! ## Two stores -/

/-- The later of two documents, the first of two of one time. -/
def later (d : Doc) : Option Doc → Doc
  | some e => if e.submittedEpoch ≤ d.submittedEpoch then d else e
  | none => d

def latest : List Doc → Option Doc
  | [] => none
  | d :: docs => some (later d (latest docs))

theorem latest_spec {docs : List Doc} {d : Doc} (h : latest docs = some d) :
    d ∈ docs ∧ ∀ e ∈ docs, e.submittedEpoch ≤ d.submittedEpoch := by
  induction docs generalizing d with
  | nil => cases h
  | cons c docs ih =>
    cases h
    cases hRest : latest docs with
    | none =>
      cases docs with
      | nil => simp [later]
      | cons e docs => cases hRest
    | some e =>
      obtain ⟨hMem, hLatest⟩ := ih hRest
      rw [later]
      split
      next hLe =>
        refine ⟨List.mem_cons_self, fun f hf => ?_⟩
        obtain rfl | hf := List.mem_cons.mp hf
        · exact Int.le_refl _
        · exact Int.le_trans (hLatest f hf) hLe
      next hNot =>
        refine ⟨List.mem_cons_of_mem _ hMem, fun f hf => ?_⟩
        obtain rfl | hf := List.mem_cons.mp hf
        · omega
        · exact hLatest f hf

/-- ASCII digits, ids without percent codes, and the search as it is. -/
def externals : Externals where
  isDigit := Char.isDigit
  hAscii _ _ := rfl
  int digits := some (Nat.ofDigitChars 10 digits 0)
  named id := id
  hNamed _ _ := rfl
  hit := latest
  hHit _ _ h := latest_spec h
  hHits docs h := by
    cases docs with
    | nil => exact absurd rfl h
    | cons d docs => rfl

def suffix (c : Char) (h : c ∈ ['a', 'b', 'c', 'd', 'e', 'f']) : Suffix where
  val := List.replicate 8 c
  hLength := rfl
  hHex d hd := by
    rw [List.eq_of_mem_replicate hd]
    exact .inr h

def submission (counter : Int) (suffix : Suffix) (aliasName : Text) : Submission :=
  ⟨counter, suffix, aliasName, counter⟩

/-- A spawn with the serial 05, and one with the alias `b`. -/
def named : List Submission :=
  [submission 5 (suffix 'a' (by decide)) [], submission 6 (suffix 'b' (by decide)) ['b']]

theorem named_unambiguous : ∃ s, run step [] named = some s ∧ s.length = 2 ∧
    s.Unambiguous externals := by
  refine ⟨_, rfl, by decide, references_unambiguous (@Reach.of_run _ _ _ _ _ _ named rfl ?_)⟩
  decide

/-- The second spawn has the alias `5`. -/
def numbered : List Submission :=
  [submission 5 (suffix 'a' (by decide)) [], submission 6 (suffix 'b' (by decide)) ['5']]

def numberedStore : Store := numbered.foldl Store.submit []

/-- The alias is resolved to the spawn with the serial 05, which does not have it. -/
theorem numbered_ambiguous : ∃ s, run step [] numbered = some s ∧
    s.resolveRef externals ['5'] = some (some (submission 5 (suffix 'a' (by decide)) []).fullId) ∧
    ¬s.Unambiguous externals := by
  refine ⟨numberedStore, rfl, by decide, fun h => ?_⟩
  obtain ⟨d, hd, hResolve, hAlias, -⟩ := h.aliasName
    (submission 6 (suffix 'b' (by decide)) ['5']).doc (by decide) (by decide)
  have hOther : ∀ d ∈ numberedStore, d.aliasName = ['5'] →
      numberedStore.resolveRef externals ['5'] ≠ some (some d.fullId) := by decide
  exact hOther d hd hAlias hResolve

end OpenSpoke.Spawn.Ref
