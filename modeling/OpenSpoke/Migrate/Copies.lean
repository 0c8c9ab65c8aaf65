import OpenSpoke.Migrate.Knowledge

/-!
# Copies of knowledge

A report without a failure means a complete copy of a collection if its rows are all found and
written under its own name, and in no other case but that of rows that were there already.
-/

namespace OpenSpoke.Migrate.Knowledge

open OpenSpoke.Knowledge (Row)
open Python (Text)

/-! ## The condition -/

/-- The query of the export finds every row. -/
structure Whole (rows : List Row) : Prop where
  few : rows.length ≤ limit
  named : ∀ row ∈ rows, row.id ≠ []

/-- The rows of an id agree, and none is without a category. -/
def Plain (rows : List Row) : Prop :=
  ∀ row ∈ rows, row.category ≠ [] ∧
    ∀ other ∈ rows, other.id = row.id → fieldsOf other = fieldsOf row

/-- The rows are there already, and where the upserts write them as well. -/
def Present (rows : List Row) (before : Text → List Fields) (there : Text → List Fields) : Prop :=
  ∀ row ∈ rows, before row.id = [fieldsOf row] ∧ there row.id = [(exported row).fields]

/-- The turn of a collection copies it to where it is. -/
def Exact (wide : Char → Bool) (rows : List Row) (coll : Text) (s : Store) : Prop :=
  Whole rows ∧ if dest wide coll = coll then Plain rows
    else Present rows (view (s coll)) (view (s (dest wide coll)))

/-! ## Copies -/

/-- Every row of a collection is in its copy, and no other entry of the store has changed than
those of the collections that are pulled. -/
structure Complete (src : Store) (names : List Text) (coll : Text) (before after : Store)
    (r : Report Trouble) : Prop where
  holds : ∀ row ∈ src coll, view (after coll) row.id = [fieldsOf row]
  others : ∀ c id, (c ∈ names → ∀ row ∈ src c, id ≠ row.id) →
    view (after c) id = view (before c) id
  fetched : r.fetched = (src coll).length
  upserted : r.upserted = (src coll).length

/-- The other kernel's collections answer the queries of an export. -/
def Answers (src : Store) (c : Text × Net) : Prop :=
  ∀ found, c.2.answer = .found found → Found (src c.1) found

variable {wide : Char → Bool} {mode : Text} {dryRun : Bool} {coll id : Text} {src s t : Store}
  {r : Report Trouble} {net : Net} {out : Option (Report Trouble)} {rows found : List Row}
  {l : List (Text × Net)} {p : Pulled Text Store (Report Trouble)}

theorem fields_exported {row : Row} (h : row.category ≠ []) :
    (exported row).fields = fieldsOf row := by
  simp only [exported, Entry.fields, fieldsOf, categoryOr, if_neg h]

theorem mem_export {e : Entry} (hFound : Found rows found) (he : e ∈ knowledgeMigrateExport found) :
    e.id ≠ [] ∧ ∃ row ∈ rows, e = exported row := by
  obtain ⟨row, hRow, rfl⟩ := List.mem_map.mp he
  obtain ⟨hMem, hId⟩ := List.mem_filter.mp hRow
  have hRows := hFound.matching.subset hMem
  exact ⟨of_decide_eq_true hId, row, (List.mem_filter.mp hRows).1, rfl⟩

theorem Found.whole (hFound : Found rows found)
    (h : (knowledgeMigrateExport found).length = rows.length) : Whole rows := by
  have hExport : (knowledgeMigrateExport found).length ≤ found.length := by
    rw [knowledgeMigrateExport, List.length_map]
    exact List.length_filter_le _ _
  have hFilter : (rows.filter (·.id ≠ [])).length ≤ rows.length := List.length_filter_le _ _
  have hLength := hFound.length
  constructor
  · omega
  · have hAll : (rows.filter (·.id ≠ [])).length = rows.length := by omega
    intro row hRow
    exact of_decide_eq_true (List.length_filter_eq_length_iff.mp hAll row hRow)

theorem Whole.perm (h : Whole rows) (hFound : Found rows found) : found.Perm rows := by
  have hAll : rows.filter (·.id ≠ []) = rows :=
    List.filter_eq_self.mpr fun row hRow => decide_eq_true (h.named row hRow)
  obtain ⟨hMatching, hLength⟩ := hFound
  rw [hAll] at hMatching hLength
  apply hMatching.perm_of_length_le
  have hFew := h.few
  omega

theorem Whole.export (h : Whole rows) (hFound : Found rows found) :
    knowledgeMigrateExport found = found.map exported := by
  have hAll : found.filter (·.id ≠ []) = found := by
    rw [List.filter_eq_self]
    intro row hRow
    exact decide_eq_true (h.named row ((h.perm hFound).mem_iff.mp hRow))
  rw [knowledgeMigrateExport, hAll]

theorem Whole.writes (h : Whole rows) (hFound : Found rows found) {f : Text → List Fields}
    {row : Row} (hRow : row ∈ rows) :
    ∃ row' ∈ rows, row'.id = row.id ∧
      Overwrite.writes Entry.id (fun e => [e.fields]) f (knowledgeMigrateExport found) row.id =
        [(exported row').fields] := by
  have hKey : row.id ∈ (knowledgeMigrateExport found).map Entry.id := by
    rw [h.export hFound, List.map_map]
    exact List.mem_map_of_mem (f := Entry.id ∘ exported) ((h.perm hFound).mem_iff.mpr hRow)
  obtain ⟨e, he, hId, hWrites⟩ := Overwrite.exists_writes hKey
  obtain ⟨-, row', hRow', rfl⟩ := mem_export hFound he
  exact ⟨row', hRow', hId, hWrites⟩

/-! ## One turn -/

theorem turn_cases (h : turn wide mode dryRun coll net s = some (t, out)) :
    (t = s ∧ ∀ r, out = some r → ¬r.Clean) ∨ dryRun = false ∧ ∃ found, net.answer = .found found ∧
      let entries := knowledgeMigrateExport found
      let o := importEntries wide mode coll net.requests 0 entries s ⟨entries.length, 0, 0, [], false⟩
      t = o.1 ∧ out = some o.2 := by
  have hError (e : Trouble) : ¬(⟨0, 0, 0, [e], dryRun⟩ : Report Trouble).Clean :=
    fun hClean => nomatch hClean.errors
  simp only [turn] at h
  split at h
  · obtain ⟨rfl, rfl⟩ := Prod.mk.inj (Option.some.inj h)
    exact .inl ⟨rfl, fun r hr => Option.some.inj hr ▸ hError _⟩
  · obtain ⟨rfl, rfl⟩ := Prod.mk.inj (Option.some.inj h)
    exact .inl ⟨rfl, fun r hr => Option.some.inj hr ▸ hError _⟩
  · obtain ⟨rfl, rfl⟩ := Prod.mk.inj (Option.some.inj h)
    exact .inl ⟨rfl, nofun⟩
  next found hFound =>
    have hAnswer : net.answer = .found found := by
      split at hFound
      · cases hFound
      · exact hFound
    split at h
    next hDry =>
      obtain ⟨rfl, rfl⟩ := Prod.mk.inj (Option.some.inj h)
      refine .inl ⟨rfl, fun r hr hClean => ?_⟩
      obtain rfl := Option.some.inj hr
      exact absurd (hDry.symm.trans hClean.dryRun) nofun
    next hDry =>
      obtain rfl := Bool.not_eq_true _ ▸ hDry
      obtain ⟨rfl, rfl⟩ := Prod.mk.inj (Option.some.inj h)
      exact .inr ⟨rfl, found, hAnswer, rfl, rfl⟩

theorem turn_other (hAnswers : Answers src (coll, net))
    (h : turn wide mode dryRun coll net s = some (t, out)) {c : Text}
    (hc : c = dest wide coll → ∀ row ∈ src coll, id ≠ row.id) : view (t c) id = view (s c) id := by
  obtain ⟨rfl, -⟩ | ⟨-, found, hFound, rfl, -⟩ := turn_cases h
  · rfl
  · apply congrArg (List.map fieldsOf)
    apply importEntries_other
    intro hDest e he
    obtain ⟨-, row, hRow, rfl⟩ := mem_export (hAnswers found hFound) he
    exact hc hDest row hRow

theorem turn_clean (hAnswers : Answers src (coll, net))
    (h : turn wide mode dryRun coll net s = some (t, some r)) (hClean : r.Clean) :
    ∃ found, Found (src coll) found ∧ r.fetched = (knowledgeMigrateExport found).length ∧
      r.upserted = (knowledgeMigrateExport found).length ∧
      view (t (dest wide coll)) = Overwrite.writes Entry.id (fun e => [e.fields])
        (view (s (dest wide coll))) (knowledgeMigrateExport found) := by
  obtain ⟨-, hNot⟩ | ⟨-, found, hFound, rfl, hOut⟩ := turn_cases h
  · exact absurd hClean (hNot r rfl)
  · obtain rfl := Option.some.inj hOut
    have hIds := fun e he => (mem_export (hAnswers found hFound) (e := e) he).1
    obtain ⟨-, hFetched, hUpserted, hView⟩ := importEntries_clean hIds hClean
    rw [Nat.zero_add] at hUpserted
    exact ⟨found, hAnswers found hFound, hFetched, hUpserted, hView⟩

/-- What a clean turn on rows that are all found leaves under the id of a row. -/
theorem Whole.view_turn (hWhole : Whole (src coll)) (hAnswers : Answers src (coll, net))
    (h : turn wide mode dryRun coll net s = some (t, some r)) (hClean : r.Clean) {row : Row}
    (hRow : row ∈ src coll) :
    ∃ row' ∈ src coll, row'.id = row.id ∧
      view (t (dest wide coll)) row.id = [(exported row').fields] := by
  obtain ⟨found, hFound, -, -, hView⟩ := turn_clean hAnswers h hClean
  obtain ⟨row', hRow', hId, hWrites⟩ := hWhole.writes hFound hRow
  exact ⟨row', hRow', hId, (congrFun hView row.id).trans hWrites⟩

theorem Exact.complete (hExact : Exact wide (src coll) coll s) (hAnswers : Answers src (coll, net))
    (h : turn wide mode dryRun coll net s = some (t, some r)) (hClean : r.Clean) :
    Complete src [coll] coll s t r := by
  obtain ⟨hWhole, hCopied⟩ := hExact
  obtain ⟨found, hFound, hFetched, hUpserted, -⟩ := turn_clean hAnswers h hClean
  have hLength : (knowledgeMigrateExport found).length = (src coll).length := by
    rw [hWhole.export hFound, List.length_map, (hWhole.perm hFound).length_eq]
  rw [hLength] at hFetched hUpserted
  split at hCopied
  next hDest =>
    refine ⟨?_, ?_, hFetched, hUpserted⟩
    · intro row hRow
      obtain ⟨row', hRow', hId, hView⟩ := hWhole.view_turn hAnswers h hClean hRow
      rw [hDest] at hView
      rw [hView, fields_exported (hCopied row' hRow').1, (hCopied row hRow).2 row' hRow' hId]
    · intro c id hOther
      apply turn_other hAnswers h
      intro hc
      rw [hDest] at hc
      subst hc
      exact hOther List.mem_cons_self
  next hDest =>
    refine ⟨?_, ?_, hFetched, hUpserted⟩
    · intro row hRow
      rw [turn_other hAnswers h fun hc => absurd hc.symm hDest]
      exact (hCopied row hRow).1
    · intro c id hOther
      by_cases hId : ∃ row ∈ src coll, id = row.id
      · obtain ⟨row, hRow, rfl⟩ := hId
        by_cases hc : c = dest wide coll
        · obtain ⟨row', hRow', hId, hView⟩ := hWhole.view_turn hAnswers h hClean hRow
          rw [hc, hView, ← hId]
          exact (hCopied row' hRow').2.symm
        · exact turn_other hAnswers h fun hDest => absurd hDest hc
      · apply turn_other hAnswers h
        intro _ row hRow hEq
        exact hId ⟨row, hRow, hEq⟩

/-- What is exact of a store is exact of its complete copy. -/
theorem Exact.after (hExact : Exact wide (src coll) coll s) (hComplete : Complete src [coll] coll s t r) :
    Exact wide (src coll) coll t := by
  refine ⟨hExact.1, ?_⟩
  have hCopied := hExact.2
  split at hCopied
  next hDest => exact (if_pos hDest).symm ▸ hCopied
  next hDest =>
    rw [if_neg hDest]
    intro row hRow
    refine ⟨hComplete.holds row hRow, ?_⟩
    rw [hComplete.others _ _ fun hMem => absurd (List.mem_singleton.mp hMem) hDest]
    exact (hCopied row hRow).2

/-- Two complete copies, one after the other, are the same. -/
theorem Complete.again {names names' : List Text} {u : Store} {r' : Report Trouble}
    (h : Complete src names coll s t r) (h' : Complete src names' coll t u r') {c : Text}
    (hc : ∀ name ∈ names', name = c → name = coll) : view (u c) = view (t c) := by
  funext id
  by_cases hOwn : c = coll ∧ ∃ row ∈ src coll, id = row.id
  · obtain ⟨rfl, row, hRow, rfl⟩ := hOwn
    rw [h'.holds row hRow, h.holds row hRow]
  · apply h'.others
    intro hMem row hRow hEq
    have hColl := hc c hMem rfl
    exact hOwn ⟨hColl, row, hColl ▸ hRow, hEq⟩

/-! ## Whole pulls -/

theorem pull_isSome : (knowledgeMigratePull wide mode dryRun l s).isSome := by
  apply Migrate.pull_isSome
  intro c _ s
  simp only [turn]
  split
  · rfl
  · rfl
  · rfl
  · split
    · rfl
    · rfl

end OpenSpoke.Migrate.Knowledge
