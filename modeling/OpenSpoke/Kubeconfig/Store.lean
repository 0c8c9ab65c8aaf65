import Mathlib.Tactic.Simps.Basic
import OpenSpoke.Lib.Lts
import OpenSpoke.Python.Text

/-!
# The kubeconfig of a cluster

The document of one cluster in the index `kubeconfigs` with the calls that act on
it: `kubeconfig_upsert`, `kubeconfig_delete` and `_autofetch_one`. A request to
OpenSearch is one step. The calls to the spoke that an autofetch makes are one
step too, for they touch no document.
-/

namespace OpenSpoke.Kubeconfig

open Python (Text)

structure Entry where
  k8sVersion : Text
  kubeconfigYaml : Text
  serverUrlOverride : Text
  -- empty if it is missing
  source : Text
  notes : Text
  createdAt : Text
  updatedAt : Text
  deriving DecidableEq

/-- The body of `kubeconfig_upsert`, but for the name of the cluster. -/
structure Upsert where
  k8sVersion : Text
  kubeconfigYaml : Text
  serverUrlOverride : Option Text
  notes : Option Text
  source : Text
  deriving DecidableEq

def manual : Text := ['m', 'a', 'n', 'u', 'a', 'l']

def auto : Text := ['a', 'u', 't', 'o']

def Entry.isManual (e : Entry) : Bool := Python.strip e.source = manual

/-- `(body.source or "manual").strip().lower()`. No other letter than these has them as its
lower case. -/
def Upsert.requestedSource (u : Upsert) : Text :=
  (Python.strip (if u.source = [] then manual else u.source)).map Char.toLower

/-- `_validate_k8s_version`; `$` matches before a last newline. -/
def validVersion (version : Text) : Bool :=
  match version with
  | [] => true
  | c :: rest =>
    let rest := if rest.getLast? = some '\n' then rest.dropLast else rest
    let parts := rest.splitOn '.'
    c = 'v' && (parts.length = 2 || parts.length = 3) &&
      parts.all fun part => !part.isEmpty && part.all Char.isDigit

/-- What becomes of a get. -/
inductive Probe
  | answered
  -- a status other than 200 and 404
  | badStatus
  -- the body is no JSON
  | badBody
  | raises
  deriving DecidableEq

/-- `src.get("created_at") or now`. -/
def createdAt (now : Text) (existing : Option Entry) : Text :=
  match existing with
  | some e => if e.createdAt = [] then now else e.createdAt
  | none => now

structure NodeExec where
  exitCode : Int
  stdout : Text
  deriving DecidableEq

/-- The kubeconfig of the first node on which it can be read, and the node; none is a node
whose call raises. -/
def readKubeconfig : List (Text × Option NodeExec) → Option (Text × Text)
  | [] => none
  | (node, some r) :: rest =>
    if r.exitCode = 0 ∧ Python.strip r.stdout ≠ [] then some (r.stdout, node)
    else readKubeconfig rest
  | (_, none) :: rest => readKubeconfig rest

def defaultVersion : Text := ['v', '1', '.', '3', '2']

/-- `f"auto-fetched from {used_node} at {now}"`. -/
def fetchNotes (node now : Text) : Text :=
  ['a', 'u', 't', 'o', '-', 'f', 'e', 't', 'c', 'h', 'e', 'd', ' ', 'f', 'r', 'o', 'm', ' '] ++ node ++
    [' ', 'a', 't', ' '] ++ now

inductive Api
  | upsert (u : Upsert)
  | autofetch
  | delete
  deriving DecidableEq

inductive Reply
  | ok
  | skipped
  | failed
  deriving DecidableEq

inductive CallPc
  | absent
  -- about to get the entry
  | checking (now : Text)
  -- about to call the spoke
  | fetching
  -- about to get created_at
  | dating (kubeconfigYaml version node now : Text)
  | putting (e : Entry)
  | deleting
  | replied (r : Reply)
  deriving DecidableEq

structure Call where
  api : Api
  pc : CallPc
  deriving DecidableEq

structure World where
  entry : Option Entry
  nextCall : Nat
  call : Nat → Call
  -- history: the check of the call has overlooked a manual entry, or one has been stored
  -- since, and it has not been deleted
  missed : Nat → Bool

def World.init (entry : Option Entry) : World where
  entry := entry
  nextCall := 0
  call _ := ⟨.delete, .absent⟩
  missed _ := false

inductive CallEv
  | get (p : Probe)
  -- what the nodes answer, none if they cannot be listed, and the version that is found
  | fetch (nodes : Option (List (Text × Option NodeExec))) (version : Option Text) (now : Text)
  -- the put or the delete
  | write
  -- it fails
  | refuse
  deriving DecidableEq

inductive KubeAct
  | request (api : Api) (now : Text)
  | call (n : Nat) (e : CallEv)
  deriving DecidableEq

def Api.begin (now : Text) : Api → CallPc
  | .upsert u => if validVersion u.k8sVersion then .checking now else .replied .failed
  | .autofetch => .checking now
  | .delete => .deleting

/-- `kubeconfig_upsert` once it has seen `existing`. -/
def Upsert.checked (u : Upsert) (now : Text) (existing : Option Entry) : CallPc :=
  let source := u.requestedSource
  if source ≠ manual ∧ source ≠ auto then .replied .failed
  else if source = auto ∧ existing.any Entry.isManual then .replied .skipped
  else
    .putting
      { k8sVersion := u.k8sVersion
        kubeconfigYaml := u.kubeconfigYaml
        serverUrlOverride := u.serverUrlOverride.getD []
        source := source
        notes := u.notes.getD []
        createdAt := createdAt now existing
        updatedAt := now }

/-- What a call does after the check of the entry. -/
def Api.checked (entry : Option Entry) (now : Text) (p : Probe) : Api → CallPc
  | .upsert u =>
    match p with
    | .answered => u.checked now entry
    | .badStatus | .badBody => u.checked now none
    | .raises => .replied .failed
  | .autofetch =>
    if p = .answered ∧ entry.any Entry.isManual then .replied .skipped else .fetching
  | .delete => .replied .failed

/-- `_autofetch_one` from the list of the nodes on. -/
def fetched (nodes : Option (List (Text × Option NodeExec))) (version : Option Text) (now : Text) :
    CallPc :=
  match (nodes.getD []), readKubeconfig (nodes.getD []) with
  | [], _ | _, none => .replied .failed
  | _, some (kubeconfigYaml, node) => .dating kubeconfigYaml (version.getD defaultVersion) node now

def dated (entry : Option Entry) (p : Probe) (kubeconfigYaml version node now : Text) : CallPc :=
  let put := fun existing => CallPc.putting
    { k8sVersion := version
      kubeconfigYaml := kubeconfigYaml
      serverUrlOverride := []
      source := auto
      notes := fetchNotes node now
      createdAt := createdAt now existing
      updatedAt := now }
  match p with
  | .answered => put entry
  | .badStatus => put none
  | .badBody | .raises => .replied .failed

namespace World

@[simps -fullyApplied] def callTo (s : World) (n : Nat) (pc : CallPc) : World :=
  { s with call := Function.update s.call n { s.call n with pc := pc } }

@[simps -fullyApplied] def check (s : World) (n : Nat) : World :=
  { s with missed := Function.update s.missed n (s.entry.any Entry.isManual) }

@[simps -fullyApplied] def put (s : World) (e : Entry) : World :=
  { s with
    entry := some e
    missed := fun n => e.isManual || s.missed n }

@[simps -fullyApplied] def drop (s : World) : World :=
  { s with
    entry := none
    missed := fun _ => false }

def callStep (s : World) (n : Nat) (e : CallEv) : Option World :=
  match (s.call n).pc, e with
  | .checking now, .get p => some ((s.check n).callTo n ((s.call n).api.checked s.entry now p))
  | .fetching, .fetch nodes version now => some (s.callTo n (fetched nodes version now))
  | .dating yaml version node now, .get p =>
    some (s.callTo n (dated s.entry p yaml version node now))
  | .putting entry, .write => some ((s.put entry).callTo n (.replied .ok))
  | .deleting, .write =>
    some (s.drop.callTo n (.replied (if s.entry.isSome then .ok else .failed)))
  | .putting _, .refuse | .deleting, .refuse => some (s.callTo n (.replied .failed))
  | _, _ => none

def step (s : World) : KubeAct → Option World
  | .request api now =>
    some { s with
      call := Function.update s.call s.nextCall ⟨api, api.begin now⟩
      nextCall := s.nextCall + 1 }
  | .call n e => s.callStep n e

end World

end OpenSpoke.Kubeconfig
