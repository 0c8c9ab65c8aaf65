import OpenSpoke.Knowledge.Alone
import OpenSpoke.Lib.Overwrite
import OpenSpoke.Migrate.Pull
import OpenSpoke.Rag.Names

/-!
# A pull of knowledge

`knowledge_migrate_export` of one kernel and `knowledge_migrate_pull` of another, which writes
what it has got by upserts of its own kernel, one after the other.
-/

namespace OpenSpoke.Migrate.Knowledge

open OpenSpoke.Knowledge (Reply Row Upsert World)
open Python (Text)

def topic : Text := ['t', 'o', 'p', 'i', 'c']

def categoryOr (category : Text) : Text := if category = [] then topic else category

structure Entry where
  id : Text
  title : Text
  content : Text
  category : Text

structure Fields where
  title : Text
  content : Text
  category : Text
  deriving DecidableEq

def Entry.fields (e : Entry) : Fields := ⟨e.title, e.content, categoryOr e.category⟩

def fieldsOf (r : Row) : Fields := ⟨r.title, r.content, r.category⟩

def exported (r : Row) : Entry := ⟨r.id, r.title, r.content, categoryOr r.category⟩

/-- The entries that an export makes of the rows that its query has found. -/
def knowledgeMigrateExport (found : List Row) : List Entry :=
  (found.filter (·.id ≠ [])).map exported

/-- What becomes of the call of the export. -/
inductive Export
  | raised
  | notOk
  -- an answer that is no object raises where nothing catches it
  | malformed
  | found (rows : List Row)

/-- The number of rows that the pull asks for. -/
def limit : Nat := 10000

/-- The answer of a query for rows, in any order. -/
structure Found (rows found : List Row) : Prop where
  matching : found.Subperm (rows.filter (·.id ≠ []))
  length : found.length = min limit (rows.filter (·.id ≠ [])).length

/-- A request to the own `core_knowledge_upsert`: what the upsert is answered, and whether its
own answer is heard. -/
structure Request where
  replies : List Reply
  heard : Bool

/-- What becomes of the requests in the turn of a collection. -/
structure Net where
  answer : Export
  requests : Nat → Request

inductive Trouble
  | exportRaised
  | exportNotOk
  | upsert (id : Text)
  | upsertRaised (id : Text)
  deriving DecidableEq

abbrev Store := Text → List Row

variable (wide : Char → Bool) (mode : Text) (dryRun : Bool)

/-- The user id that is made of the name of a collection. -/
def userIdOf (coll : Text) : Text :=
  if Rag.knowledgeCollectionPrefix.isPrefixOf coll then
    coll.drop Rag.knowledgeCollectionPrefix.length
  else coll

/-- The collection that the upserts of a turn write. -/
def dest (coll : Text) : Text := Rag.knowledgeResolveCollection wide (userIdOf coll)

def Entry.upsert (e : Entry) : Upsert :=
  ⟨e.id, e.title, e.content, categoryOr e.category,
    if mode = [] then OpenSpoke.Knowledge.upsert else mode⟩

/-- `core_knowledge_upsert` on an entry, and whether it answers ok. -/
def put (coll : Text) (s : Store) (e : Entry) (replies : List Reply) : Store × Bool :=
  if Rag.knowledgeValidateUserId wide (userIdOf coll) = none then
    let w := World.alone (s (dest wide coll)) (e.upsert mode) replies
    (Function.update s (dest wide coll) w.rows, (w.call 0).ok)
  else (s, false)

/-- The loop over the entries, from the `n`-th on. -/
def importEntries (coll : Text) (requests : Nat → Request) :
    Nat → List Entry → Store → Report Trouble → Store × Report Trouble
  | _, [], s, r => (s, r)
  | n, e :: es, s, r =>
    if e.id = [] then importEntries coll requests (n + 1) es s r
    else
      let out := put wide mode coll s e (requests n).replies
      importEntries coll requests (n + 1) es out.1
        (if (requests n).heard = false then r.fail 1 (.upsertRaised e.id)
        else if out.2 then { r with upserted := r.upserted + 1 }
        else r.fail 1 (.upsert e.id))

/-- The turn of a collection. Where the export fails, nothing but its error is reported. -/
def turn (coll : Text) (net : Net) (s : Store) : Option (Store × Option (Report Trouble)) :=
  match if coll = [] then Export.notOk else net.answer with
  | .raised => some (s, some ⟨0, 0, 0, [.exportRaised], dryRun⟩)
  | .notOk => some (s, some ⟨0, 0, 0, [.exportNotOk], dryRun⟩)
  | .malformed => some (s, none)
  | .found rows =>
    let entries := knowledgeMigrateExport rows
    let r : Report Trouble := ⟨entries.length, 0, 0, [], dryRun⟩
    if dryRun then some (s, some r)
    else
      let out := importEntries wide mode coll net.requests 0 entries s r
      some (out.1, some out.2)

def knowledgeMigratePull (l : List (Text × Net)) (s : Store) :
    Option (Pulled Text Store (Report Trouble)) :=
  pull (turn wide mode dryRun) l s fun _ => none

/-! ## One collection -/

/-- What a collection says under an id. -/
def view (rows : List Row) (id : Text) : List Fields := (Rows.under Row.id id rows).map fieldsOf

variable {wide mode dryRun} {coll id : Text} {s t : Store} {e : Entry} {es : List Entry} {n : Nat}
  {requests : Nat → Request} {replies : List Reply} {r r' : Report Trouble} {net : Net}
  {out : Option (Report Trouble)} {rows : List Row}

theorem put_other {c : Text} (h : c = dest wide coll → id ≠ e.id) :
    Rows.under Row.id id ((put wide mode coll s e replies).1 c) = Rows.under Row.id id (s c) := by
  unfold put
  split
  · by_cases hc : c = dest wide coll
    · subst hc
      simp only [Function.update_self]
      exact World.alone_other _ _ _ (h rfl)
    · simp only [Function.update_of_ne hc]
  · rfl

theorem view_put (h : (put wide mode coll s e replies).2 = true) :
    view ((put wide mode coll s e replies).1 (dest wide coll)) =
      Function.update (view (s (dest wide coll))) e.id [e.fields] := by
  funext id
  by_cases hId : id = e.id
  · rw [hId, Function.update_self]
    unfold put at h ⊢
    split at h
    next hValid =>
      obtain ⟨created, now, hRows⟩ := World.alone_saved h
      simp only [if_pos hValid, Function.update_self]
      rw [view]
      exact congrArg (List.map fieldsOf) hRows
    · cases h
  · rw [Function.update_of_ne hId]
    exact congrArg (List.map fieldsOf) (put_other fun _ => hId)

theorem importEntries_other {c : Text} (h : c = dest wide coll → ∀ e ∈ es, id ≠ e.id) :
    Rows.under Row.id id ((importEntries wide mode coll requests n es s r).1 c) =
      Rows.under Row.id id (s c) := by
  induction es generalizing n s r with
  | nil => rfl
  | cons e es ih =>
    have hRest := fun hc e' he' => h hc e' (List.mem_cons_of_mem e he')
    simp only [importEntries]
    split
    · exact ih hRest
    · exact (ih hRest).trans (put_other fun hc => h hc e List.mem_cons_self)

theorem importEntries_clean (hIds : ∀ e ∈ es, e.id ≠ [])
    (h : (importEntries wide mode coll requests n es s r).2.Clean) :
    r.Clean ∧ (importEntries wide mode coll requests n es s r).2.fetched = r.fetched ∧
      (importEntries wide mode coll requests n es s r).2.upserted = r.upserted + es.length ∧
      view ((importEntries wide mode coll requests n es s r).1 (dest wide coll)) =
        Overwrite.writes Entry.id (fun e => [e.fields]) (view (s (dest wide coll))) es := by
  induction es generalizing n s r with
  | nil => exact ⟨h, rfl, rfl, rfl⟩
  | cons e es ih =>
    have hRest := fun e' he' => hIds e' (List.mem_cons_of_mem e he')
    simp only [importEntries, if_neg (hIds e List.mem_cons_self)] at h ⊢
    obtain ⟨hStep, hFetched, hUpserted, hView⟩ := ih hRest h
    split at hStep
    · cases Report.fail_not_clean Nat.one_pos hStep
    next hHeard =>
      split at hStep
      next hOk =>
        simp only [if_neg hHeard, if_pos hOk] at hFetched hUpserted hView ⊢
        rw [view_put hOk] at hView
        refine ⟨⟨hStep.failed, hStep.errors, hStep.dryRun⟩, hFetched, ?_, hView⟩
        rw [hUpserted, List.length_cons, Nat.add_assoc, Nat.add_comm 1]
      · cases Report.fail_not_clean Nat.one_pos hStep

end OpenSpoke.Migrate.Knowledge
