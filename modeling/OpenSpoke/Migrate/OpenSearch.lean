import OpenSpoke.Lib.Calls
import OpenSpoke.Lib.DocIndex
import OpenSpoke.Lib.Overwrite
import OpenSpoke.Migrate.Pull
import OpenSpoke.Python.Text

/-!
# A pull of OpenSearch

`opensearch_migrate_export` of one kernel and `opensearch_migrate_pull` of another, a page at a
time. The source of a document is the value of its JSON. Both decode it and encode it anew, and
`reencode` is what it says then.
-/

namespace OpenSpoke.Migrate.OpenSearch

open Python (Text)

section Model

variable (δ : Type*)

abbrev Page := List (Text × δ)

/-- The other kernel's OpenSearch. A scroll gives each document once and then an empty page. -/
structure Source where
  index : Text → DocIndex Text δ
  pages : Text → List (Page δ)
  once : ∀ name, (pages name).flatten.Perm (index name).docs
  nonempty : ∀ name, [] ∉ pages name

end Model

variable {δ : Type*}

/-- Why a call of the export gives no page. -/
inductive ExportFailure
  | raised
  | notOk
  -- an answer that is no object raises where nothing catches it
  | malformed

/-- What becomes of a bulk request, and which of its documents are written. -/
inductive Bulk
  | raised (written : Text → Bool)
  | http (written : Text → Bool)
  | items (written : Text → Bool)

def Bulk.written : Bulk → Text → Bool
  | .raised written | .http written | .items written => written

/-- What the network does in the turn of an index: to its calls of the export and to the bulk
request behind each. -/
structure Net where
  fails : Nat → Option ExportFailure
  bulk : Nat → Bulk

inductive Trouble
  | exportRaised
  | exportNotOk
  | bulkHttp
  | bulkItem (id : Text)
  | bulkRaised
  deriving DecidableEq

/-- An item of the answer to a bulk request. -/
def count (written : Text → Bool) (r : Report Trouble) (d : Text × δ) : Report Trouble :=
  if written d.1 then { r with upserted := r.upserted + 1 } else r.fail 1 (.bulkItem d.1)

def bulk (docs : Page δ) (r : Report Trouble) : Bulk → Report Trouble
  | .raised _ => r.fail docs.length .bulkRaised
  | .http _ => r.fail docs.length .bulkHttp
  | .items written => docs.foldl (count written) r

def fetch (docs : Page δ) (r : Report Trouble) : Report Trouble :=
  { r with fetched := r.fetched + docs.length }

/-- An error of the export is kept in any case, but `sample_errors` are five. -/
def stop (e : Trouble) (r : Report Trouble) : Report Trouble :=
  { r with errors := (r.errors ++ [e]).take 5 }

/-- The documents of a page as the bulk request has them. -/
def encoded (reencode : δ → Option δ) (docs : Page δ) : Page δ :=
  docs.filterMap fun d => (reencode d.2).map fun e => (d.1, e)

def writeAll (x : DocIndex Text δ) (docs : Page δ) : DocIndex Text δ :=
  docs.foldl (fun x d => x.put d.1 d.2) x

section Pull

variable (reencode : δ → Option δ)

/-- The loop of `opensearch_migrate_pull` from its `k`-th call of the export on, which follows the
scroll id of the one before. -/
def loop (pages : List (Page δ)) (net : Net) :
    Nat → Nat → DocIndex Text δ → Report Trouble → Option (DocIndex Text δ × Option (Report Trouble))
  | 0, _, _, _ => none
  | fuel + 1, k, x, r =>
    match net.fails k with
    | some .malformed => some (x, none)
    | some .raised => some (x, some (stop .exportRaised r))
    | some .notOk => some (x, some (stop .exportNotOk r))
    | none =>
      let docs := pages.getD k []
      -- the export raises where one of them cannot be encoded
      if docs.any fun d => (reencode d.2).isNone then some (x, some (stop .exportRaised r))
      else if docs = [] then some (x, some r)
      else if r.dryRun then loop pages net fuel (k + 1) x (fetch docs r)
      else
        let b := net.bulk k
        let docs := encoded reencode docs
        loop pages net fuel (k + 1) (writeAll x (docs.filter (b.written ·.1)))
          (bulk docs (fetch docs r) b)

/-- The turn of an index. The export reads the index of the stripped name. -/
def turn (src : Source δ) (dryRun : Bool) (fuel : Nat) (name : Text) (net : Net)
    (s : Text → DocIndex Text δ) : Option ((Text → DocIndex Text δ) × Option (Report Trouble)) :=
  let r : Report Trouble := ⟨0, 0, 0, [], dryRun⟩
  if Python.strip name = [] then some (s, some (stop .exportNotOk r))
  else (loop reencode (src.pages (Python.strip name)) net fuel 0 (s name) r).map fun out =>
    (Function.update s name out.1, out.2)

def opensearchMigratePull (src : Source δ) (dryRun : Bool) (fuel : Nat) (l : List (Text × Net))
    (s : Text → DocIndex Text δ) : Option (Pulled Text (Text → DocIndex Text δ) (Report Trouble)) :=
  pull (turn reencode src dryRun fuel) l s fun _ => none

end Pull

/-! ## One index -/

def writes (f : Text → Option δ) (docs : Page δ) : Text → Option δ :=
  Overwrite.writes Prod.fst (fun d => some d.2) f docs

theorem get_put (x : DocIndex Text δ) (id : Text) (d : δ) :
    (x.put id d).get = Function.update x.get id (some d) := by
  funext k
  by_cases hk : k = id
  · rw [hk, DocIndex.get_put_self, Function.update_self]
  · rw [DocIndex.get_put_of_ne x d hk, Function.update_of_ne hk]

variable {reencode : δ → Option δ} {pages : List (Page δ)} {net : Net} {fuel k : Nat} {x y : DocIndex Text δ} {r r' : Report Trouble}
  {docs : Page δ} {out : Option (Report Trouble)} {written : Text → Bool}

/-- A page that the export can encode. -/
def Encodes (reencode : δ → Option δ) (docs : Page δ) : Prop := ∀ d ∈ docs, (reencode d.2).isSome

theorem Encodes.ids (h : Encodes reencode docs) :
    (encoded reencode docs).map Prod.fst = docs.map Prod.fst := by
  induction docs with
  | nil => rfl
  | cons d docs ih =>
    obtain ⟨hHead, hRest⟩ := List.forall_mem_cons.mp h
    obtain ⟨e, he⟩ := Option.isSome_iff_exists.mp hHead
    have hTail := ih hRest
    rw [encoded] at hTail
    simp [encoded, he, hTail]

theorem Encodes.length (h : Encodes reencode docs) :
    (encoded reencode docs).length = docs.length := by
  simpa using congrArg List.length h.ids

/-- Enough calls of the export end the loop. -/
theorem loop_isSome (hk : k ≤ pages.length) (hFuel : pages.length < fuel + k) :
    (loop reencode pages net fuel k x r).isSome := by
  induction fuel generalizing k x r with
  | zero => omega
  | succ fuel ih =>
    simp only [loop]
    split
    · rfl
    · rfl
    · rfl
    · split
      · rfl
      · split
        · rfl
        next hDocs =>
          have hLt : k < pages.length := Calls.lt_of_ne hDocs
          split
          · exact ih hLt (by omega)
          · exact ih hLt (by omega)

/-- A call of the export ends the loop, or the loop goes on behind its page. -/
inductive LoopMove (reencode : δ → Option δ) (pages : List (Page δ)) (net : Net) (fuel k : Nat)
    (x : DocIndex Text δ) (r : Report Trouble) : DocIndex Text δ × Option (Report Trouble) → Prop
  | crashed : LoopMove reencode pages net fuel k x r (x, none)
  | stopped (e : Trouble) : LoopMove reencode pages net fuel k x r (x, some (stop e r))
  | ended (hDocs : pages.getD k [] = []) : LoopMove reencode pages net fuel k x r (x, some r)
  | dry {res : DocIndex Text δ × Option (Report Trouble)} (hDocs : pages.getD k [] ≠ [])
      (hDry : r.dryRun = true)
      (h : loop reencode pages net fuel (k + 1) x (fetch (pages.getD k []) r) = some res) :
      LoopMove reencode pages net fuel k x r res
  | written {res : DocIndex Text δ × Option (Report Trouble)} (hDocs : pages.getD k [] ≠ [])
      (hDry : r.dryRun ≠ true) (hEncodes : Encodes reencode (pages.getD k []))
      (h : loop reencode pages net fuel (k + 1)
        (writeAll x ((encoded reencode (pages.getD k [])).filter ((net.bulk k).written ·.1)))
        (bulk (encoded reencode (pages.getD k [])) (fetch (encoded reencode (pages.getD k [])) r)
          (net.bulk k)) = some res) :
      LoopMove reencode pages net fuel k x r res

/-- A copy of the documents of an index. -/
structure Complete (docs : Page δ) (before after : DocIndex Text δ) (r : Report Trouble) : Prop where
  holds : ∀ d ∈ docs, after.get d.1 = some d.2
  others : ∀ id, id ∉ docs.map Prod.fst → after.get id = before.get id
  fetched : r.fetched = docs.length
  upserted : r.upserted = docs.length

/-- A copy of the documents as they are when encoded anew. -/
structure Copied (reencode : δ → Option δ) (docs : Page δ) (before after : DocIndex Text δ)
    (r : Report Trouble) : Prop where
  holds : ∀ d ∈ docs, ∃ e, reencode d.2 = some e ∧ after.get d.1 = some e
  others : ∀ id, id ∉ docs.map Prod.fst → after.get id = before.get id
  fetched : r.fetched = docs.length
  upserted : r.upserted = docs.length

variable {src again : Source δ} {dryRun : Bool} {name : Text} {s t : Text → DocIndex Text δ}
  {l : List (Text × Net)} {p q : Pulled Text (Text → DocIndex Text δ) (Report Trouble)}

theorem turn_isSome (h : (src.pages (Python.strip name)).length < fuel) :
    (turn reencode src dryRun fuel name net s).isSome := by
  simp only [turn]
  split
  · rfl
  · rw [Option.isSome_map]
    exact loop_isSome (Nat.zero_le _) h

theorem turn_cases (h : turn reencode src dryRun fuel name net s = some (t, out)) :
    (t = s ∧ out = some (stop .exportNotOk ⟨0, 0, 0, [], dryRun⟩)) ∨
      ∃ y, loop reencode (src.pages (Python.strip name)) net fuel 0 (s name)
        ⟨0, 0, 0, [], dryRun⟩ = some (y, out) ∧ t = Function.update s name y := by
  simp only [turn] at h
  split at h
  · obtain ⟨rfl, rfl⟩ := Prod.mk.inj (Option.some.inj h)
    exact .inl ⟨rfl, rfl⟩
  · obtain ⟨⟨y, out'⟩, hLoop, hOut⟩ := Option.map_eq_some_iff.mp h
    obtain ⟨rfl, rfl⟩ := Prod.mk.inj hOut
    exact .inr ⟨y, hLoop, rfl⟩

theorem turn_other (h : turn reencode src dryRun fuel name net s = some (t, out)) {other : Text}
    (hNe : other ≠ name) : t other = s other := by
  obtain ⟨rfl, -⟩ | ⟨y, -, rfl⟩ := turn_cases h
  · rfl
  · exact Function.update_of_ne hNe _ _

theorem pull_isSome (h : ∀ c ∈ l, (src.pages (Python.strip c.1)).length < fuel) :
    (opensearchMigratePull reencode src dryRun fuel l s).isSome :=
  Migrate.pull_isSome fun c hc _ => turn_isSome (h c hc)

end OpenSpoke.Migrate.OpenSearch
