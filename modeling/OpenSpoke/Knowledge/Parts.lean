import Mathlib.Data.List.Perm.Subperm
import Mathlib.Data.List.Sort
import OpenSpoke.Knowledge.Collection
import OpenSpoke.Python.Int

/-!
# Parts that are staged and pushed

`core_github_push_from_knowledge` on the collection that its namespace stands for, while others
write entries there. It finds the parts of a file by a pattern and deletes them by their ids
behind the push.
-/

namespace OpenSpoke.Knowledge.Staged

open DocIndex (Answer)
open Python (Text)

/-! ## The parts -/

/-- The pattern language of Milvus. -/
def like : Text → Text → Bool
  | [], t => t.isEmpty
  | c :: p, t =>
    if c = '%' then t.tails.any (like p)
    else match t with
      | [] => false
      | d :: t => (c = '_' || c = d) && like p t

def idPrefix (stagingId : Text) : Text :=
  ['g', 'i', 't', 'h', 'u', 'b', '_', 's', 't', 'a', 'g', 'i', 'n', 'g', '_'] ++ stagingId ++
    ['_', 'p', 'a', 'r', 't', '_']

/-- The rows that the query asks for. -/
def matching (stagingId : Text) (rows : List Row) : List Row :=
  rows.filter fun r => like (idPrefix stagingId ++ ['%']) r.id

/-- The number of rows that the query asks for. -/
def limit : Nat := 1000

/-- A number with three digits at least. -/
def padded (k : Nat) : Text :=
  let digits := Nat.toDigits 10 k
  List.replicate (3 - digits.length) '0' ++ digits

/-- The id of the `k`-th part. -/
def partId (stagingId : Text) (k : Nat) : Text := idPrefix stagingId ++ padded k

def sortRows (rows : List Row) : List Row :=
  rows.insertionSort fun a b => Python.before b.id a.id = false

inductive SequenceError
  | invalidId (id : Text)
  | expected (want got : Int)
  deriving DecidableEq

/-- The errors of the check for gaps, from the row that should have number `want` on. -/
def sequenceErrors (stagingId : Text) : Int → List Row → List SequenceError
  | _, [] => []
  | want, r :: rows =>
    match Python.parseInt (r.id.drop (idPrefix stagingId).length) with
    | none => .invalidId r.id :: sequenceErrors stagingId want rows
    | some seq =>
      (if seq = want then [] else [.expected want seq]) ++ sequenceErrors stagingId (seq + 1) rows

def combined (rows : List Row) : Text := (rows.map Row.content).flatten

/-! ## The calls -/

structure Request where
  tenant : Text
  stagingId : Text
  owner : Text
  repo : Text
  path : Text
  message : Text
  deleteAfterPush : Bool

def Request.stripped (r : Request) : Request :=
  { r with
    tenant := Python.strip r.tenant, stagingId := Python.strip r.stagingId
    owner := Python.strip r.owner, repo := Python.strip r.repo
    path := Python.strip r.path, message := Python.strip r.message }

/-- The checks of the stripped fields. -/
def Request.valid (r : Request) : Bool :=
  r.tenant ≠ [] && r.stagingId ≠ [] && (r.stagingId.all fun c => c.isAlphanum || c = '_') &&
    r.owner ≠ [] && r.repo ≠ [] && r.path ≠ [] && r.message ≠ []

/-- Where a call is, with the rows of the collection when it asked, what it found there, and what
it has deleted. -/
inductive Pc
  | querying (r : Request)
  | putting (r : Request) (rows results : List Row)
  | deleting (r : Request) (rows results : List Row) (sent : Text)
  | done (r : Request) (rows results : List Row) (sent : Text) (gone : List Row)
  | refused

def collect (r : Request) (rows found : List Row) : Pc :=
  let results := sortRows found
  if results = [] then .refused
  else if sequenceErrors r.stagingId 1 results = [] then .putting r rows results
  else .refused

structure State where
  world : World
  calls : List Pc

inductive Act
  -- a step of an upsert or a delete of an entry
  | entry (act : Knowledge.Act)
  | push (r : Request)
  -- the token, the collection or the query fails
  | fails (n : Nat)
  | found (n : Nat) (rows : List Row)
  | put (n : Nat) (ok : Bool)
  | delete (n : Nat) (a : Answer)

namespace State

variable (s : State)

def call (n : Nat) : Pc := s.calls.getD n .refused

def begin (pc : Pc) : State := { s with calls := s.calls ++ [pc] }

def goto (n : Nat) (pc : Pc) : State := { s with calls := s.calls.set n pc }

/-- The delete of the ids that were pushed. Its failure is only logged. -/
def clean (n : Nat) (a : Answer) (r : Request) (rows results : List Row) (sent : Text) : State :=
  if a = .refused then s.goto n (.done r rows results sent [])
  else
    let (gone, kept) := s.world.rows.partition fun row => row.id ∈ results.map Row.id
    { world := { s.world with rows := kept }
      calls := s.calls.set n (.done r rows results sent gone) }

def step : Act → Option State
  | .entry act => (s.world.step act).map fun w => { s with world := w }
  | .push r => some (s.begin (if r.stripped.valid then .querying r.stripped else .refused))
  | .fails n =>
    match s.call n with
    | .querying _ => some (s.goto n .refused)
    | _ => none
  | .found n rows =>
    match s.call n with
    | .querying r =>
      let asked := matching r.stagingId s.world.rows
      if rows.Subperm asked ∧ rows.length = min limit asked.length then
        some (s.goto n (collect r s.world.rows rows))
      else none
    | _ => none
  | .put n ok =>
    match s.call n with
    | .putting r rows results =>
      some (s.goto n (if ok = false then .refused
        else if r.deleteAfterPush then .deleting r rows results (combined results)
        else .done r rows results (combined results) []))
    | _ => none
  | .delete n a =>
    match s.call n with
    | .deleting r rows results sent => some (s.clean n a r rows results sent)
    | _ => none

end State

end OpenSpoke.Knowledge.Staged

/-!
## Parts that are collected whole

If every row that the pattern of a push matches is one of its parts up to the 999th, a push
collects all of them in the order of their numbers, and in no other case are the parts of a
complete set collected without fail.
-/

namespace OpenSpoke.Knowledge.Staged

open Python (Text)

variable {sid : Text} {k n : Nat} {rows found results : List Row} {row : Row} {r : Request}

/-! ## The numbers -/

theorem padded_isDigit {c : Char} (h : c ∈ padded k) : c.isDigit = true := Python.zeroPad_isDigit h

theorem parseInt_padded (k : Nat) : Python.parseInt (padded k) = some (k : Int) := by
  have hne : padded k ≠ [] := fun h => Nat.toDigits_ne_nil (List.append_eq_nil_iff.mp h).2
  rw [Python.parseInt_digits (fun c => padded_isDigit) hne]
  exact congrArg (fun n : Nat => some (n : Int)) (Python.ofDigitChars_zeroPad 3 k)

theorem padded_eq (hk : k < 1000) :
    padded k = [Nat.digitChar (k / 100), Nat.digitChar (k / 10 % 10), Nat.digitChar (k % 10)] := by
  have hTen : 1 < 10 := by decide
  unfold padded
  by_cases h10 : k < 10
  · have h0 : k / 100 = 0 := by omega
    have h1 : k / 10 % 10 = 0 := by omega
    rw [Nat.toDigits_of_lt_base h10, h0, h1, Nat.mod_eq_of_lt h10]
    rfl
  · rw [Nat.toDigits_of_base_le hTen (by omega)]
    by_cases h100 : k < 100
    · have h0 : k / 100 = 0 := by omega
      have h1 : k / 10 % 10 = k / 10 := by omega
      have hLt : k / 10 < 10 := by omega
      rw [Nat.toDigits_of_lt_base hLt, h0, h1]
      rfl
    · have h2 : k / 10 / 10 = k / 100 := by omega
      have hLe : 10 ≤ k / 10 := by omega
      have hLt : k / 10 / 10 < 10 := by omega
      rw [Nat.toDigits_of_base_le hTen hLe, Nat.toDigits_of_lt_base hLt, h2]
      rfl

theorem padded_before {j : Nat} (hj : j < k) (hk : k < 1000) :
    Python.before (padded j) (padded k) = true := by
  rw [padded_eq hk, padded_eq (hj.trans hk)]
  have hChar {a b : Nat} (ha : a < 10) (hb : b < 10) :
      Nat.digitChar a = Nat.digitChar b ↔ a = b := by
    constructor
    · intro hEq
      have hNat := congrArg Char.toNat hEq
      rw [Nat.toNat_digitChar_of_lt_ten ha, Nat.toNat_digitChar_of_lt_ten hb] at hNat
      omega
    · exact congrArg _
  have h100 : ∀ i < 1000, i / 100 < 10 ∧ i / 10 % 10 < 10 ∧ i % 10 < 10 := by omega
  obtain ⟨hj1, hj2, hj3⟩ := h100 j (hj.trans hk)
  obtain ⟨hk1, hk2, hk3⟩ := h100 k hk
  simp only [Python.before_cons, Python.before_nil, Nat.toNat_digitChar_of_lt_ten hj1, Nat.toNat_digitChar_of_lt_ten hj2, Nat.toNat_digitChar_of_lt_ten hj3,
    Nat.toNat_digitChar_of_lt_ten hk1, Nat.toNat_digitChar_of_lt_ten hk2, Nat.toNat_digitChar_of_lt_ten hk3, hChar hj1 hk1, hChar hj2 hk2,
    Bool.or_eq_true, Bool.and_eq_true, decide_eq_true_eq, Bool.and_false, Bool.or_false]
  omega

theorem partId_inj {j : Nat} (h : partId sid j = partId sid k) : j = k :=
  Python.zeroPad_inj (List.append_cancel_left h)

/-! ## The pattern -/

theorem like_prefix (p t : Text) : like (p ++ ['%']) (p ++ t) = true := by
  induction p with
  | nil =>
    have hAny : (t.tails.any (like [])) = true :=
      List.any_eq_true.mpr ⟨[], (List.mem_tails _ _).mpr List.nil_suffix, rfl⟩
    simpa only [List.nil_append, like, if_true] using hAny
  | cons c p ih =>
    simp only [List.cons_append, like]
    split
    · rw [List.any_eq_true]
      exact ⟨p ++ t, (List.mem_tails _ _).mpr (List.suffix_cons c _), ih⟩
    · simp [ih]

theorem part_matches (hRow : row ∈ rows) (hId : row.id = partId sid k) : row ∈ matching sid rows := by
  refine List.mem_filter.mpr ⟨hRow, ?_⟩
  rw [hId]
  exact like_prefix (idPrefix sid) (padded k)

/-! ## The check for gaps -/

def parts (sid : Text) (want m : Nat) : List Text := (List.range' want m).map (partId sid)

theorem suffix_partId (sid : Text) (k : Nat) :
    (partId sid k).drop (idPrefix sid).length = padded k := List.drop_left

theorem ids_of_sequence {want : Nat}
    (hParts : ∀ row ∈ rows, ∃ k, 1 ≤ k ∧ k < 1000 ∧ row.id = partId sid k)
    (h : sequenceErrors sid want rows = []) : rows.map Row.id = parts sid want rows.length := by
  induction rows generalizing want with
  | nil => rfl
  | cons row rows ih =>
    obtain ⟨k, -, hk, hId⟩ := hParts row List.mem_cons_self
    simp only [sequenceErrors, hId, suffix_partId, parseInt_padded, List.append_eq_nil_iff] at h
    obtain ⟨hHead, hRest⟩ := h
    have hWant : k = want := by
      by_contra hNe
      have hInt : (k : Int) ≠ want := by omega
      rw [if_neg hInt] at hHead
      cases hHead
    subst hWant
    rw [List.map_cons, hId, ih (fun row' h' => hParts row' (List.mem_cons_of_mem row h')) hRest]
    rfl

theorem sequence_of_ids {want : Nat} (hWant : want + rows.length ≤ 1000)
    (h : rows.map Row.id = parts sid want rows.length) : sequenceErrors sid want rows = [] := by
  induction rows generalizing want with
  | nil => rfl
  | cons row rows ih =>
    rw [List.length_cons] at hWant
    obtain ⟨hId, hRest⟩ := List.cons.inj h
    have hLt : want < 1000 := by omega
    have hNext := @ih (want + 1) (by omega) hRest
    simp only [sequenceErrors, hId, suffix_partId, parseInt_padded, if_true, List.nil_append]
    exact hNext

/-! ## The rows that are collected -/

theorem sort_perm (rows : List Row) : (sortRows rows).Perm rows := List.perm_insertionSort _ rows

theorem sort_sorted (rows : List Row) :
    (sortRows rows).Pairwise fun a b => Python.before b.id a.id = false := by
  have hTotal : Std.Total fun a b : Row => Python.before b.id a.id = false :=
    ⟨fun a b => Python.not_before_total a.id b.id⟩
  have hTrans : IsTrans Row fun a b => Python.before b.id a.id = false :=
    ⟨fun a b c => Python.not_before_trans⟩
  exact List.pairwise_insertionSort _ rows

/-- Every row that the pattern matches is a part up to the 999th. -/
def Tidy (sid : Text) (rows : List Row) : Prop :=
  ∀ row ∈ matching sid rows, ∃ k, 1 ≤ k ∧ k < 1000 ∧ row.id = partId sid k

/-- The results are the parts of a staging id among the rows, from the first on. -/
structure Collected (sid : Text) (rows results : List Row) : Prop where
  nonempty : results ≠ []
  ids : results.map Row.id = parts sid 1 results.length
  found : ∀ row ∈ results, row ∈ rows
  all : ∀ row ∈ rows, ∀ k, row.id = partId sid k → row ∈ results

/-- What a query for the matching rows may find. -/
structure Answered (sid : Text) (rows found : List Row) : Prop where
  subperm : found.Subperm (matching sid rows)
  length : found.length = min limit (matching sid rows).length

theorem Answered.perm (h : Answered sid rows found) (hFew : (matching sid rows).length ≤ limit) :
    found.Perm (matching sid rows) := by
  apply h.subperm.perm_of_length_le
  have hLength := h.length
  omega

theorem collect_cases (r : Request) (rows found : List Row) :
    collect r rows found = .refused ∨
      collect r rows found = .putting r rows (sortRows found) ∧ sortRows found ≠ [] ∧
        sequenceErrors r.stagingId 1 (sortRows found) = [] := by
  simp only [collect]
  split
  · exact .inl rfl
  next hNil =>
    split
    next hErrors => exact .inr ⟨rfl, hNil, hErrors⟩
    · exact .inl rfl

theorem Tidy.collected (hTidy : Tidy sid rows) (hFound : Answered sid rows found)
    (hNil : sortRows found ≠ []) (hErrors : sequenceErrors sid 1 (sortRows found) = []) :
    Collected sid rows (sortRows found) := by
  have hPerm := sort_perm found
  have hParts : ∀ row ∈ sortRows found, ∃ k, 1 ≤ k ∧ k < 1000 ∧ row.id = partId sid k :=
    fun row hRow => hTidy row (hFound.subperm.subset (hPerm.mem_iff.mp hRow))
  have hIds := ids_of_sequence hParts hErrors
  have hLength : (sortRows found).length < 1000 := by
    by_contra hLen
    have hMin := hFound.length
    have hThousand : (sortRows found).length = 1000 := by
      rw [hPerm.length_eq] at hLen ⊢
      simp only [limit] at hMin
      omega
    have hLast : partId sid 1000 ∈ (sortRows found).map Row.id := by
      have hRange : 1000 ∈ List.range' 1 1000 := List.mem_range'_1.mpr ⟨by decide, by decide⟩
      rw [hIds, hThousand]
      exact List.mem_map_of_mem hRange
    obtain ⟨row, hRow, hId⟩ := List.mem_map.mp hLast
    obtain ⟨k, -, hk, hPart⟩ := hParts row hRow
    have hThousand : k = 1000 := partId_inj (hPart.symm.trans hId)
    omega
  have hAll : found.Perm (matching sid rows) := by
    apply hFound.perm
    have hMin := hFound.length
    rw [hPerm.length_eq] at hLength
    simp only [limit] at hMin ⊢
    omega
  refine ⟨hNil, hIds, ?_, ?_⟩
  · intro row hRow
    exact List.mem_of_mem_filter (hFound.subperm.subset (hPerm.mem_iff.mp hRow))
  · intro row hRow k hId
    exact hPerm.mem_iff.mpr (hAll.mem_iff.mpr (part_matches hRow hId))

/-! ## Complete sets -/

/-- The rows have each of the first `n` parts once and no other. -/
def CompleteSet (sid : Text) (n : Nat) (rows : List Row) : Prop :=
  ∀ k, (Rows.under Row.id (partId sid k) rows).length = if 1 ≤ k ∧ k ≤ n then 1 else 0

/-- However a query is answered, the first `n` parts are collected. -/
def Accepted (r : Request) (n : Nat) (rows : List Row) : Prop :=
  ∀ found, Answered r.stagingId rows found → ∃ results,
    collect r rows found = .putting r rows results ∧ results.map Row.id = parts r.stagingId 1 n

theorem mem_parts {id : Text} : id ∈ parts sid 1 n ↔ ∃ k, 1 ≤ k ∧ k ≤ n ∧ id = partId sid k := by
  simp only [parts, List.mem_map, List.mem_range'_1]
  constructor
  · rintro ⟨k, ⟨hOne, hLt⟩, rfl⟩
    exact ⟨k, hOne, by omega, rfl⟩
  · rintro ⟨k, hOne, hLe, rfl⟩
    exact ⟨k, ⟨hOne, by omega⟩, rfl⟩

theorem parts_nodup : (parts sid 1 n).Nodup :=
  List.Nodup.map (fun _ _ => partId_inj) List.nodup_range'

theorem parts_sorted (hn : n < 1000) :
    (parts sid 1 n).Pairwise fun a b => Python.before b a = false := by
  rw [parts, List.pairwise_map]
  have hRange : (List.range' 1 n).Pairwise (· < ·) := List.pairwise_lt_range'
  refine hRange.imp_of_mem ?_
  intro j k hj hk hLt
  rw [List.mem_range'_1] at hj hk
  have hBefore := padded_before hLt (by omega)
  rw [partId, partId, Python.before_append]
  exact Bool.not_eq_true _ ▸ Python.before_asymm hBefore

theorem thousand_not_sorted : ¬(parts sid 1 1000).Pairwise fun a b => Python.before b a = false := by
  intro hSorted
  rw [parts, List.pairwise_map, List.pairwise_iff_getElem] at hSorted
  have hPair := hSorted 100 999 (by simp) (by simp) (by decide)
  simp only [List.getElem_range', partId, Python.before_append] at hPair
  exact absurd hPair (by decide)

theorem sort_ids (found : List Row) :
    ((sortRows found).map Row.id).Pairwise fun a b => Python.before b a = false :=
  List.pairwise_map.mpr (sort_sorted found)

theorem CompleteSet.nodup (hSet : CompleteSet sid n rows)
    (hParts : ∀ row ∈ matching sid rows, ∃ k, 1 ≤ k ∧ k ≤ n ∧ row.id = partId sid k) :
    ((matching sid rows).map Row.id).Nodup := by
  rw [List.nodup_iff_count_le_one]
  intro id
  by_cases hMem : id ∈ (matching sid rows).map Row.id
  · obtain ⟨row, hRow, rfl⟩ := List.mem_map.mp hMem
    obtain ⟨k, -, -, hId⟩ := hParts row hRow
    have hUnder := hSet k
    rw [← hId] at hUnder
    have hLe : ((matching sid rows).map Row.id).count row.id ≤
        (Rows.under Row.id row.id rows).length := by
      rw [List.count_eq_countP, List.countP_map, List.countP_eq_length_filter, Rows.under]
      have hSub := (List.filter_sublist (l := rows)
        (p := fun r => like (idPrefix sid ++ ['%']) r.id)).filter (fun r => decide (r.id = row.id))
      have hEq : ((· == row.id) ∘ Row.id) = fun r : Row => decide (r.id = row.id) := by
        funext r
        exact beq_eq_decide r.id row.id
      rw [hEq]
      exact hSub.length_le
    split at hUnder
    · omega
    · omega
  · rw [List.count_eq_zero_of_not_mem hMem]
    exact Nat.zero_le 1

theorem CompleteSet.perm (hSet : CompleteSet sid n rows)
    (hParts : ∀ row ∈ matching sid rows, ∃ k, 1 ≤ k ∧ k ≤ n ∧ row.id = partId sid k) :
    ((matching sid rows).map Row.id).Perm (parts sid 1 n) := by
  rw [List.perm_ext_iff_of_nodup (hSet.nodup hParts) parts_nodup]
  intro id
  rw [mem_parts, List.mem_map]
  constructor
  · rintro ⟨row, hRow, rfl⟩
    exact hParts row hRow
  · rintro ⟨k, hOne, hLe, rfl⟩
    have hUnder := hSet k
    rw [if_pos ⟨hOne, hLe⟩] at hUnder
    obtain ⟨row, hRows⟩ := List.length_eq_one_iff.mp hUnder
    have hMem : row ∈ Rows.under Row.id (partId sid k) rows := hRows ▸ List.mem_cons_self
    obtain ⟨hRow, hId⟩ := List.mem_filter.mp hMem
    exact ⟨row, part_matches hRow (of_decide_eq_true hId), of_decide_eq_true hId⟩

theorem accepted_iff (hn : 1 ≤ n) (hSet : CompleteSet r.stagingId n rows) :
    Accepted r n rows ↔ n < 1000 ∧ ∀ row ∈ matching r.stagingId rows,
      ∃ k, 1 ≤ k ∧ k ≤ n ∧ row.id = partId r.stagingId k := by
  constructor
  · intro hAccepted
    have hFound : Answered r.stagingId rows ((matching r.stagingId rows).take limit) :=
      ⟨(List.take_sublist _ _).subperm, List.length_take⟩
    obtain ⟨results, hCollect, hIds⟩ := hAccepted _ hFound
    obtain hRefused | ⟨hPutting, -, -⟩ := collect_cases r rows
      ((matching r.stagingId rows).take limit)
    · rw [hRefused] at hCollect
      cases hCollect
    · rw [hPutting] at hCollect
      obtain rfl := (Pc.putting.inj hCollect).2.2
      have hLength := congrArg List.length hIds
      rw [List.length_map, (sort_perm _).length_eq, hFound.length, parts, List.length_map,
        List.length_range'] at hLength
      have hNe : n ≠ 1000 := by
        rintro rfl
        exact thousand_not_sorted (hIds ▸ sort_ids _)
      simp only [limit] at hLength
      refine ⟨by omega, fun row hRow => ?_⟩
      have hAll := hFound.perm (by simp only [limit]; omega)
      have hMem : row ∈ sortRows ((matching r.stagingId rows).take limit) :=
        (sort_perm _).mem_iff.mpr (hAll.mem_iff.mpr hRow)
      exact mem_parts.mp (hIds ▸ List.mem_map_of_mem hMem)
  · rintro ⟨hLt, hParts⟩ found hFound
    have hPerm := hSet.perm hParts
    have hLength := hPerm.length_eq
    rw [List.length_map, parts, List.length_map, List.length_range'] at hLength
    have hAll := hFound.perm (by simp only [limit]; omega)
    have hIds : (sortRows found).map Row.id = parts r.stagingId 1 n := by
      apply List.Perm.eq_of_pairwise _ (sort_ids found) (parts_sorted hLt)
      · exact (((sort_perm found).trans hAll).map Row.id).trans hPerm
      · intro a b _ _ hab hba
        exact Python.not_before_antisymm hab hba
    have hResults : (sortRows found).length = n := by
      rw [(sort_perm found).length_eq, hAll.length_eq, hLength]
    have hNil : sortRows found ≠ [] := List.ne_nil_of_length_pos (by omega)
    have hErrors : sequenceErrors r.stagingId 1 (sortRows found) = [] :=
      @sequence_of_ids r.stagingId (sortRows found) 1 (by omega) (hResults.symm ▸ hIds)
    refine ⟨sortRows found, ?_, hIds⟩
    simp only [collect, if_neg hNil, if_pos hErrors]

end OpenSpoke.Knowledge.Staged
