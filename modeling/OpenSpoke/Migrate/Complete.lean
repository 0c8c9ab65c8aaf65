import OpenSpoke.Migrate.Copies
import OpenSpoke.Migrate.OpenSearch
import OpenSpoke.Python.Json

/-!
# What a clean report means

A pull of OpenSearch whose report of an index is clean has copied it if every number in its
documents is what its float says. A pull of knowledge has copied a collection if its rows are all
found and written under its own name.
-/

namespace OpenSpoke.Migrate

open Python (Json Text)

/-- Further pulls from the same source leave the index as it is, whatever becomes of them. -/
def OpenSearch.Lasting (src : Source Json) (s : Text → DocIndex Text Json) (name : Text) : Prop :=
  ∀ (again : Source Json) dryRun fuel l q, again.index = src.index →
    opensearchMigratePull Json.reencode again dryRun fuel l s = some q →
    (q.store name).get = (s name).get

/-- Another pull of the same collections whose report of one is clean as well leaves what
collection `c` says as it is. -/
def Knowledge.Lasting (wide : Char → Bool) (src : Store) (names : List Text) (coll : Text)
    (s : Store) (c : Text) : Prop :=
  ∀ mode dryRun l q r, l.map Prod.fst = names → (∀ d ∈ l, Answers src d) →
    knowledgeMigratePull wide mode dryRun l s = some q → q.ok = true → q.summary coll = some r →
    r.Clean → view (q.store c) = view (s c)

section Reports

variable {wide : Char → Bool} {src : OpenSearch.Source Json} {rows : Knowledge.Store}

end Reports

/-! ## A collection that is copied -/

namespace Knowledge

def one : OpenSpoke.Knowledge.Row := ⟨['i'], ['t'], ['c'], ['k'], [], []⟩

end Knowledge

/-! ## A collection of more rows than are asked for -/

namespace Knowledge

open OpenSpoke.Knowledge (Row World)

variable {wide : Char → Bool} {coll : Text} {es : List Entry} {n : Nat} {s : Store}
  {r : Report Trouble}

/-- The id of the `n`-th row, in fourteen binary digits. -/
def digits (n : Nat) : Text := (List.range 14).map fun i => if n.testBit i then '1' else '0'

def nth (n : Nat) : Row := ⟨digits n, ['t'], ['c'], ['k'], [], []⟩

def many : List Row := (List.range 10001).map nth

theorem mem_many {row : Row} (h : row ∈ many) : ∃ n < 10001, row = nth n := by
  obtain ⟨n, hn, rfl⟩ := List.mem_map.mp h
  exact ⟨n, List.mem_range.mp hn, rfl⟩

end Knowledge

end OpenSpoke.Migrate
