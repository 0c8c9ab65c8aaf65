import Mathlib.Data.Char
import Mathlib.Data.List.Lex
import OpenSpoke.Hub.Writers

/-!
# The publisher of `fleet_state`

Each minute `publish.py` writes what Fleet reports into the index that the tools record in,
and deletes what it has not written this time. A request is a step of its own.
-/

namespace OpenSpoke.Hub

open DocIndex (Answer)
open Lts
open Python (Text)

inductive Kind
  | cluster
  | gitrepo
  | bundle
  | bundleDeployment
  deriving DecidableEq

def Kind.text : Kind → Text
  | .cluster => "Cluster".toList
  | .gitrepo => "GitRepo".toList
  | .bundle => "Bundle".toList
  | .bundleDeployment => "BundleDeployment".toList

namespace Publisher

/-! ## What is written -/

def kindField : Text := "kind".toList

def aggregatedAt : Text := "_aggregated_at".toList

def name : Text := "name".toList

def namespaceField : Text := "namespace".toList

def nsForBd : Text := "ns_for_bd".toList

def conditionsKv : Text := "conditions_kv".toList

def readyMessage : Text := "ready_message".toList

def typeField : Text := "type".toList

def statusField : Text := "status".toList

/-- The text of a value. -/
def str : Value → Text
  | .leaf _ t => t
  | .object _ => []

def empty : Value := .text []

def zero : Value := .leaf false ['0']

def noItems : Value := .leaf false ['[', ']']

def getD (f : Fields) (k : Text) (default : Value) : Value := (f.get k).getD default

/-- `x or y`. -/
def or (x y : Value) : Value := if x.isTrue then x else y

/-- An object that Fleet reports, with its document. -/
structure Object where
  kind : Kind
  ns : Text
  name : Text
  doc : Fields

def docId (kind : Kind) (ns name : Text) : Text :=
  match kind with
  | .cluster => clusterDoc name
  | .gitrepo => ['g', 'i', 't', 'r', 'e', 'p', 'o', ':'] ++ name
  | .bundle => ['b', 'u', 'n', 'd', 'l', 'e', ':'] ++ name
  | .bundleDeployment => ['b', 'd', ':'] ++ ns ++ ['_', '_'] ++ name

def Object.id (o : Object) : Text := docId o.kind o.ns o.name

def published (kind : Kind) (time : Text) (objectName ns : Value) (rest : Fields) : Object where
  kind := kind
  ns := str ns
  name := str objectName
  doc := (aggregatedAt, .text time) :: (kindField, .text kind.text) :: (name, objectName) ::
    (namespaceField, ns) :: rest

def copied (f : Fields) (defaults : List (Text × Value)) : Fields :=
  defaults.map fun d => (d.1, getD f d.1 d.2)

def clusterObject (time : Text) (c : Fields) : Object :=
  published .cluster time (getD c name empty) (getD c namespaceField empty)
    ((clusterName, or (getD c clusterName empty) (getD c name empty)) ::
      copied c
        [ (nsForBd, empty),
          ("ready_bundles".toList, empty),
          ("state".toList, empty),
          (conditionsKv, .object []) ])

/-- A GitRepo, whose parts are objects or missing. -/
structure GitRepo where
  metadata : Fields
  spec : Fields
  status : Fields
  display : Fields
  conditions : List Fields

def GitRepo.ready (r : GitRepo) : Value :=
  match r.conditions.find? fun c => c.get typeField = some (.text "Ready".toList) with
  | some c => getD c "message".toList empty
  | none => empty

def gitrepoObject (time : Text) (r : GitRepo) : Object :=
  published .gitrepo time (getD r.metadata name empty)
    (getD r.metadata namespaceField (.text "fleet-default".toList))
    [ ("repo".toList, getD r.spec "repo".toList empty),
      ("branch".toList, getD r.spec "branch".toList empty),
      ("paths".toList, or (getD r.spec "paths".toList noItems) noItems),
      ("polling_interval".toList, getD r.spec "pollingInterval".toList empty),
      ("commit".toList, getD r.status "commit".toList empty),
      ("ready_clusters".toList, getD r.status "readyClusters".toList zero),
      ("desired_ready_clusters".toList, getD r.status "desiredReadyClusters".toList zero),
      ("ready_bundle_deployments".toList, getD r.display "readyBundleDeployments".toList empty),
      -- the last condition of a type counts
      (conditionsKv, .object (r.conditions.reverse.map fun c =>
        (str (getD c typeField empty), getD c statusField empty))),
      (readyMessage, .text ((str r.ready).take 500)) ]

def bundleObject (time : Text) (b : Fields) : Object :=
  published .bundle time (getD b name empty)
    (getD b namespaceField (.text "fleet-default".toList))
    (copied b
      [ ("gitrepo".toList, empty),
        ("summary".toList, .object []),
        ("display_state".toList, empty),
        ("display_ready_clusters".toList, empty),
        (conditionsKv, .object []),
        (readyMessage, empty) ])

/-- `cluster_ns_to_name`, in which the last cluster counts. -/
def clusterNsToName (clusters : List Fields) (ns : Value) : Value :=
  match clusters.reverse.find? fun c =>
    (getD c nsForBd empty).isTrue && getD c nsForBd empty = ns with
  | some c => or (getD c clusterName empty) (getD c name empty)
  | none => ns

def bdObject (time : Text) (clusters : List Fields) (bd : Fields) : Object :=
  published .bundleDeployment time (getD bd name empty) (getD bd namespaceField empty)
    ((clusterName, clusterNsToName clusters (getD bd namespaceField empty)) ::
      copied bd
        [ ("bundle".toList, empty),
          ("gitrepo".toList, empty),
          ("deployed".toList, .leaf false "false".toList),
          ("ready".toList, .leaf false "false".toList),
          ("non_modified".toList, .leaf true "true".toList),
          ("modified_count".toList, zero),
          ("non_ready_count".toList, zero),
          ("modified_status".toList, noItems),
          ("non_ready_status".toList, noItems),
          ("display_state".toList, empty),
          ("display_deployed".toList, empty),
          ("display_monitored".toList, empty),
          (conditionsKv, .object []),
          (readyMessage, empty) ])

/-- What is fetched; a list that cannot be fetched is empty. -/
structure Report where
  clusters : List Fields
  gitrepos : List GitRepo
  bundles : List Fields
  bundleDeployments : List Fields
  -- the kinds of which Fleet has no more objects
  complete : Kind → Bool

def Report.objects (r : Report) (time : Text) : Kind → List Object
  | .cluster => r.clusters.map (clusterObject time)
  | .gitrepo => r.gitrepos.map (gitrepoObject time)
  | .bundle => r.bundles.map (bundleObject time)
  | .bundleDeployment => r.bundleDeployments.map (bdObject time r.clusters)

def Report.all (r : Report) (time : Text) : List Object :=
  [.cluster, .gitrepo, .bundle, .bundleDeployment].flatMap (r.objects time)

/-- A kind without objects is not swept. -/
def Report.sweeps (r : Report) (time : Text) : List Kind :=
  [.gitrepo, .cluster, .bundle, .bundleDeployment].filter fun k => !(r.objects time k).isEmpty

/-- The kind that a document says it has. -/
def kindOf (d : Fields) : Option Text := (d.get kindField).map str

/-- `delete_stale_by_kind`; times of one format are ordered as texts are. -/
def stale (kind : Kind) (time : Text) (d : Fields) : Bool :=
  kindOf d = some kind.text && (d.get aggregatedAt).any fun v => str v < time

/-! ## The index -/

structure Cycle where
  time : Text
  report : Report
  puts : List Object
  sweeps : List Kind
  -- no request has failed
  ok : Bool

structure World where
  docs : FleetIndex
  call : Nat → Writers.Pc
  cycle : Option Cycle
  clock : Text
  -- the fields that the tools have written
  recorded : Text → List Text

inductive Act
  | fetch (r : Report) (time : Text)
  | publish (a : Answer)
  -- the end of a cycle, wherever it is
  | stop
  | call (n : Nat) (op : Writers.Op)
  | request (n : Nat) (a : Answer)
  | delete (id : Text) (a : Answer)

/-- The fields that a tool has written once this document is put. -/
def noted (d : Fields) (present : Option Fields) (old : List Text) : Writers.Pc → List Text
  | .recordPut .. => if present.isSome then extra :: updatedAt :: old else d.map Prod.fst
  | _ => d.map Prod.fst

namespace World

-- where the paths with ids lead
variable (doc : Text → Option Text) (w : World)

def goto (n : Nat) (pc : Writers.Pc) : World := { w with call := Function.update w.call n pc }

def read (id : Text) (a : Answer) : Option Fields :=
  if a = .answered then (doc id).bind w.docs.get else none

/-- A request of a cycle; one that fails is passed over. -/
def publish (c : Cycle) (a : Answer) : Option World :=
  match c.puts, c.sweeps with
  | o :: rest, _ =>
    match if a = .refused then none else doc o.id with
    | some id => some { w with
        docs := w.docs.put id o.doc
        cycle := some { c with puts := rest, ok := c.ok && a = .answered } }
    | none => some { w with cycle := some { c with puts := rest, ok := false } }
  | [], k :: rest => some { w with
      docs := if a = .refused then w.docs else w.docs.drop (stale k c.time)
      cycle := some { c with sweeps := rest, ok := c.ok && a = .answered } }
  | [], [] => none

def finish (n : Nat) (a : Answer) : World :=
  match if a = .refused then none else (w.call n).write doc with
  | some (id, d) =>
    { w.goto n (.done (a = .answered)) with
      docs := w.docs.put id d
      recorded := Function.update w.recorded id
        (noted d (w.docs.get id) (w.recorded id) (w.call n)) }
  | none => w.goto n (.done false)

/-- `fleet_state_delete`. -/
def delete (id : Text) (a : Answer) : World :=
  match if a = .refused then none else doc id with
  | some id => { w with
      docs := w.docs.delete id
      recorded := Function.update w.recorded id [] }
  | none => w

def request (n : Nat) (a : Answer) : Option World :=
  match w.call n with
  | .upsertGet u now => some (w.goto n (.upsertPut u now (created now (w.read doc u.docId a))))
  | .recordGet name fields now =>
    match updateClusterDoc name fields now (w.read doc (clusterDoc name) a) with
    | some d => some (w.goto n (.recordPut name fields now d))
    | none => some (w.goto n (.done false))
  | .upsertPut .. | .recordPut .. => some (w.finish doc n a)
  | _ => none

/-- One cycle at a time, and the clock does not go back. -/
def step : Act → Option World
  | .fetch r time =>
    if w.cycle.isNone ∧ w.clock ≤ time then
      some { w with clock := time, cycle := some ⟨time, r, r.all time, r.sweeps time, true⟩ }
    else none
  | .publish a => w.cycle.bind fun c => w.publish doc c a
  | .stop => some { w with cycle := none }
  | .call n op =>
    match w.call n with
    | .absent => some (w.goto n op.begin)
    | _ => none
  | .request n a => w.request doc n a
  | .delete id a => some (w.delete doc id a)

end World

end Publisher

end OpenSpoke.Hub
