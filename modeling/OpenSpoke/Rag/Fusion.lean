import Mathlib.Algebra.BigOperators.Group.List.Basic
import Mathlib.Algebra.Order.Field.Rat
import Mathlib.Data.List.Sort
import OpenSpoke.Lib.Dict
import OpenSpoke.Python.Text

/-!
# Reciprocal rank fusion

Result lists are merged under the first 200 characters of the texts, which stand for
the texts here as they do where the search results are rid of duplicates. The scores
of all places at which a key occurs add up.
-/

namespace OpenSpoke.Rag.Fusion

open Python (Text)

structure Doc (φ : Type) where
  text : Text
  -- none if it is missing or null
  createdAt : Option Text
  rrfScore : Option ℚ
  rest : φ

variable {φ : Type}

def textKey (doc : Doc φ) : Text := doc.text.take 200

/-- `doc.get("created_at")` where it is true. -/
def Doc.dated (doc : Doc φ) : Option Text := doc.createdAt.filter (· ≠ [])

/-! ## The merge -/

structure Tables (φ : Type) where
  scores : Dict Text ℚ
  texts : Dict Text (Doc φ)
  dates : Dict Text Text

def Tables.empty : Tables φ := ⟨.empty, .empty, .empty⟩

def Tables.addScore (t : Tables φ) (doc : Doc φ) (rrfScore : ℚ) : Tables φ :=
  match t.scores.get (textKey doc) with
  | some old => { t with scores := t.scores.set (textKey doc) (old + rrfScore) }
  | none =>
    { t with
      scores := t.scores.set (textKey doc) rrfScore
      texts := t.texts.set (textKey doc) doc }

def Tables.addDate (t : Tables φ) (doc : Doc φ) : Tables φ :=
  match doc.dated, t.dates.get (textKey doc) with
  | some date, none => { t with dates := t.dates.set (textKey doc) date }
  | _, _ => t

/-- The body of the inner loop. -/
def Tables.add (t : Tables φ) (doc : Doc φ) (rrfScore : ℚ) : Tables φ :=
  (t.addScore doc rrfScore).addDate doc

def Tables.addList (k : ℕ) (w : ℚ) (t : Tables φ) (resultList : List (Doc φ)) : Tables φ :=
  resultList.zipIdx.foldl (fun t e => t.add e.1 (w / (k + e.2 + 1))) t

/-- The entry of a key in `merged`, none if it raises. -/
def Tables.merged (t : Tables φ) (key : Text) : Option (Doc φ) := do
  let doc ← t.texts.get key
  let score ← t.scores.get key
  some { doc with rrfScore := some score, createdAt := (t.dates.get key).or doc.createdAt }

def Tables.score (t : Tables φ) (key : Text) : ℚ := (t.scores.get key).getD 0

/-- Each list with its weight. -/
def weighted (resultLists : List (List (Doc φ))) (weights : Option (List ℚ)) :
    List (ℚ × List (Doc φ)) :=
  let weights := weights.getD (List.replicate resultLists.length 1)
  resultLists.zipIdx.map fun e => (weights.getD e.2 1, e.1)

def tables (k : ℕ) (pairs : List (ℚ × List (Doc φ))) : Tables φ :=
  pairs.foldl (fun t p => t.addList k p.1 p.2) .empty

def rrfMerge (resultLists : List (List (Doc φ))) (k : ℕ) (weights : Option (List ℚ)) :
    Option (List (Doc φ)) :=
  let t := tables k (weighted resultLists weights)
  (t.scores.keys.insertionSort fun a b => t.score b ≤ t.score a).mapM t.merged

/-! ## What is at the places of the lists -/

/-- The places of a list, with their scores. -/
def places (k : ℕ) (w : ℚ) (resultList : List (Doc φ)) : List (Doc φ × ℚ) :=
  resultList.zipIdx.map fun e => (e.1, w / (k + e.2 + 1))

def allPlaces (k : ℕ) (pairs : List (ℚ × List (Doc φ))) : List (Doc φ × ℚ) :=
  pairs.flatMap fun p => places k p.1 p.2

/-- The sum over the places of a key. -/
def keyScore (places : List (Doc φ × ℚ)) (key : Text) : ℚ :=
  ((places.filter fun e => textKey e.1 = key).map Prod.snd).sum

def firstDoc (places : List (Doc φ × ℚ)) (key : Text) : Option (Doc φ) :=
  (places.find? fun e => textKey e.1 = key).map Prod.fst

def firstDate (places : List (Doc φ × ℚ)) (key : Text) : Option Text :=
  places.findSome? fun e => if textKey e.1 = key then e.1.dated else none

/-- The tables after some places. -/
structure Holds (t : Tables φ) (places : List (Doc φ × ℚ)) : Prop where
  scores : ∀ key, t.scores.get key = (firstDoc places key).map fun _ => keyScore places key
  texts : ∀ key, t.texts.get key = firstDoc places key
  dates : ∀ key, t.dates.get key = firstDate places key

theorem holds_empty : Holds (φ := φ) .empty [] := ⟨fun _ => rfl, fun _ => rfl, fun _ => rfl⟩

theorem keyScore_snoc (places : List (Doc φ × ℚ)) (e : Doc φ × ℚ) (key : Text) :
    keyScore (places ++ [e]) key = keyScore places key + if textKey e.1 = key then e.2 else 0 := by
  rw [keyScore, List.filter_append, List.map_append, List.sum_append, keyScore]
  congr 1
  split
  next hKey => simp [hKey]
  next hKey => simp [hKey]

theorem firstDoc_snoc (places : List (Doc φ × ℚ)) (e : Doc φ × ℚ) (key : Text) :
    firstDoc (places ++ [e]) key =
      (firstDoc places key).or (if textKey e.1 = key then some e.1 else none) := by
  rw [firstDoc, List.find?_append, List.find?_singleton, firstDoc, Option.map_or]
  congr 1
  split
  next hKey => simp [of_decide_eq_true hKey]
  next hKey => simp [of_decide_eq_false (Bool.eq_false_iff.mpr hKey)]

theorem firstDoc_eq_none {places : List (Doc φ × ℚ)} {key : Text} :
    firstDoc places key = none ↔ ∀ e ∈ places, textKey e.1 ≠ key := by
  rw [firstDoc, Option.map_eq_none_iff, List.find?_eq_none]
  simp

theorem keyScore_of_none {places : List (Doc φ × ℚ)} {key : Text} (h : firstDoc places key = none) :
    keyScore places key = 0 := by
  have hNil : places.filter (fun e => textKey e.1 = key) = [] := by
    rw [List.filter_eq_nil_iff]
    intro e he hKey
    exact firstDoc_eq_none.mp h e he (of_decide_eq_true hKey)
  rw [keyScore, hNil]
  rfl

theorem Holds.addScore {t : Tables φ} {places : List (Doc φ × ℚ)} (h : Holds t places) (doc : Doc φ)
    (x : ℚ) (key : Text) :
    (t.addScore doc x).scores.get key = ((firstDoc (places ++ [(doc, x)]) key).map fun _ =>
          keyScore (places ++ [(doc, x)]) key) ∧
      (t.addScore doc x).texts.get key = firstDoc (places ++ [(doc, x)]) key := by
  have hHere := h.scores (textKey doc)
  rw [keyScore_snoc, firstDoc_snoc]
  unfold Tables.addScore
  cases hFirst : firstDoc places (textKey doc) with
  | some old =>
    rw [hFirst, Option.map_some] at hHere
    rw [hHere]
    constructor
    · rw [Dict.get_set, h.scores]
      by_cases hKey : key = textKey doc
      · subst hKey
        simp [hFirst]
      · simp [hKey, Ne.symm hKey]
    · rw [h.texts]
      by_cases hKey : key = textKey doc
      · subst hKey
        simp [hFirst]
      · simp [Ne.symm hKey]
  | none =>
    rw [hFirst, Option.map_none] at hHere
    rw [hHere]
    constructor
    · rw [Dict.get_set, h.scores]
      by_cases hKey : key = textKey doc
      · subst hKey
        simp [hFirst, keyScore_of_none hFirst]
      · simp [hKey, Ne.symm hKey]
    · rw [Dict.get_set, h.texts]
      by_cases hKey : key = textKey doc
      · subst hKey
        simp [hFirst]
      · simp [hKey, Ne.symm hKey]

theorem addScore_dates (t : Tables φ) (doc : Doc φ) (x : ℚ) : (t.addScore doc x).dates = t.dates := by
  unfold Tables.addScore
  split <;> rfl

theorem addDate_scores (t : Tables φ) (doc : Doc φ) : (t.addDate doc).scores = t.scores := by
  unfold Tables.addDate
  split <;> rfl

theorem addDate_texts (t : Tables φ) (doc : Doc φ) : (t.addDate doc).texts = t.texts := by
  unfold Tables.addDate
  split <;> rfl

theorem addDate_dates (t : Tables φ) (doc : Doc φ) (key : Text) :
    (t.addDate doc).dates.get key =
      (t.dates.get key).or (if textKey doc = key then doc.dated else none) := by
  unfold Tables.addDate
  split
  next date hDated hNone =>
    rw [Dict.get_set]
    split
    next hKey => simp [hKey, hNone, hDated]
    next hKey => simp [Ne.symm hKey]
  next hNot =>
    split
    next hKey =>
      subst hKey
      cases hDated : doc.dated with
      | none => simp
      | some date =>
        cases hOld : t.dates.get (textKey doc) with
        | none => exact absurd hOld (hNot date hDated)
        | some old => rfl
    next => simp

theorem Holds.add {t : Tables φ} {places : List (Doc φ × ℚ)} (h : Holds t places) (doc : Doc φ)
    (x : ℚ) : Holds (t.add doc x) (places ++ [(doc, x)]) where
  scores key := by
    rw [Tables.add, addDate_scores]
    exact (h.addScore doc x key).1
  texts key := by
    rw [Tables.add, addDate_texts]
    exact (h.addScore doc x key).2
  dates key := by
    rw [Tables.add, addDate_dates, addScore_dates, h.dates, firstDate, firstDate,
      List.findSome?_append, List.findSome?_singleton]

theorem Holds.addList {t : Tables φ} {before : List (Doc φ × ℚ)} (h : Holds t before) (k : ℕ) (w : ℚ)
    (resultList : List (Doc φ)) : Holds (t.addList k w resultList) (before ++ places k w resultList) := by
  rw [Tables.addList, places]
  induction resultList.zipIdx generalizing t before with
  | nil => simpa using h
  | cons e rest ih =>
    rw [List.foldl_cons, List.map_cons, List.append_cons]
    exact ih (h.add e.1 _)

theorem holds_tables (k : ℕ) (pairs : List (ℚ × List (Doc φ))) :
    Holds (tables k pairs) (allPlaces k pairs) := by
  have hAll : ∀ (t : Tables φ) (before : List (Doc φ × ℚ)), Holds t before →
      Holds (pairs.foldl (fun t p => t.addList k p.1 p.2) t) (before ++ allPlaces k pairs) := by
    induction pairs with
    | nil =>
      intro t before h
      simpa [allPlaces] using h
    | cons p pairs ih =>
      intro t before h
      rw [List.foldl_cons, allPlaces, List.flatMap_cons, ← List.append_assoc]
      exact ih _ _ (h.addList k p.1 p.2)
  exact hAll .empty [] holds_empty

end OpenSpoke.Rag.Fusion
