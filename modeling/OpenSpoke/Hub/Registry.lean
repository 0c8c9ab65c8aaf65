import Mathlib.Data.List.DropRight
import Mathlib.Data.List.Sort
import Mathlib.Logic.Function.Basic
import OpenSpoke.Lib.DocIndex
import OpenSpoke.Lib.Lts
import OpenSpoke.Python.Text

/-!
# The spoke registry

`list_clusters`, `spoke_register`, `spoke_update`, `spoke_delete`, and the tools that call a
spoke with the key of the hub. A request to OpenSearch is a step of its own.
-/

namespace OpenSpoke.Hub

open Python (Text)

structure Spoke where
  clusterName : Text
  url : Text
  description : Text
  env : Text
  k8sDistribution : Text
  cloudflareTunnelId : Text
  purpose : Text
  owner : Text
  status : Text
  rancherManaged : Bool
  notes : Text
  kind : Text
  createdAt : Text
  updatedAt : Text
  deriving DecidableEq

/-- The arguments of `spoke_update`; none leaves a field as it is. -/
structure Changes where
  url : Option Text
  description : Option Text
  env : Option Text
  k8sDistribution : Option Text
  cloudflareTunnelId : Option Text
  purpose : Option Text
  owner : Option Text
  status : Option Text
  rancherManaged : Option Bool
  notes : Option Text
  kind : Option Text
  deriving DecidableEq

def orElse (t default : Text) : Text := if t = [] then default else t

/-- `rstrip("/")`. -/
def rstripSlash (t : Text) : Text := t.rdropWhile (· = '/')

theorem rstripSlash_rstripSlash (t : Text) : rstripSlash (rstripSlash t) = rstripSlash t :=
  List.rdropWhile_idempotent _ t

namespace Changes

def nothing : Changes := ⟨none, none, none, none, none, none, none, none, none, none, none⟩

/-- `current.update(updates)`, the name and the time. -/
def apply (c : Changes) (name now : Text) (s : Spoke) : Spoke where
  clusterName := name
  url := (c.url.map rstripSlash).getD s.url
  description := c.description.getD s.description
  env := c.env.getD s.env
  k8sDistribution := c.k8sDistribution.getD s.k8sDistribution
  cloudflareTunnelId := c.cloudflareTunnelId.getD s.cloudflareTunnelId
  purpose := c.purpose.getD s.purpose
  owner := c.owner.getD s.owner
  status := c.status.getD s.status
  rancherManaged := c.rancherManaged.getD s.rancherManaged
  notes := c.notes.getD s.notes
  kind := c.kind.getD s.kind
  createdAt := s.createdAt
  updatedAt := now

end Changes

def clusterKind : Text := ['c', 'l', 'u', 's', 't', 'e', 'r']

def disabled : Text := ['d', 'i', 's', 'a', 'b', 'l', 'e', 'd']

/-- The document that `spoke_register` writes. -/
def Spoke.registered (s : Spoke) (now : Text) : Spoke :=
  { s with
    url := rstripSlash s.url
    kind := orElse s.kind clusterKind
    createdAt := now
    updatedAt := now }

/-- What `_update_cluster_doc` makes of an entry, or of none. -/
def recorded (now : Text) (old : Option Spoke) : Spoke :=
  { old.getD ⟨[], [], [], [], [], [], [], [], [], false, [], [], now, []⟩ with updatedAt := now }

abbrev SpokeIndex := DocIndex Text Spoke

/-- `_load_registry`: pairs of a name and an entry. -/
def load (x : SpokeIndex) : List (Text × Spoke) :=
  (x.search (fun d => d.2.status ≠ disabled) 1000).map fun d => (orElse d.2.clusterName d.1, d.2)

/-- An entry that comes later takes the place of one with the same name. -/
def entry (clusters : List (Text × Spoke)) (name : Text) : Option Spoke :=
  (clusters.reverse.find? fun d => d.1 = name).map Prod.snd

def names (clusters : List (Text × Spoke)) : List Text :=
  (clusters.map Prod.fst).dedup.insertionSort fun a b => Python.before b a = false

/-- One entry for each name, in the order of the names. -/
def listed (clusters : List (Text × Spoke)) : List (Text × Spoke) :=
  (names clusters).filterMap fun name => (entry clusters name).map fun s => (name, s)

inductive Unresolved
  | noSpokes
  | unknown (known : List Text)
  | noUrl
  deriving DecidableEq

/-- `_resolve_cluster`. -/
def resolve (clusters : List (Text × Spoke)) (cluster : Text) : Except Unresolved Text :=
  if clusters = [] then .error .noSpokes
  else
    match entry clusters cluster with
    | none => .error (.unknown (names clusters))
    | some s => if rstripSlash s.url = [] then .error .noUrl else .ok (rstripSlash s.url)

/-! ## What users may reach -/

/-- The value of `allowed_clusters`: a text or a list of texts. -/
inductive Allowed
  | text (t : Text)
  | list (l : List Text)
  deriving DecidableEq

namespace Allowed

/-- The clusters that are meant: all of them for `*`. -/
def has (cluster : Text) : Allowed → Prop
  | text t => t = ['*'] ∨ t = cluster
  | list l => cluster ∈ l

instance (cluster : Text) : (a : Allowed) → Decidable (a.has cluster)
  | text _ => inferInstanceAs (Decidable (_ ∨ _))
  | list _ => inferInstanceAs (Decidable (_ ∈ _))

/-- `_check_cluster_allowed`, where `in` on a text looks for a part of it. -/
def passes (cluster : Text) : Allowed → Bool
  | text t => t = ['*'] || t ≠ [] && decide (cluster <:+: t)
  | list l => cluster ∈ l

/-- `_filter_clusters_by_acl`, where a text is the set of its characters. -/
def shows (cluster : Text) : Allowed → Bool
  | text t => t = ['*'] || cluster ∈ t.map fun c => [c]
  | list l => cluster ∈ l

/-- No text that a cluster is only a part of. -/
def Plain (cluster : Text) : Allowed → Prop
  | .text t => t = ['*'] ∨ (cluster <:+: t → cluster = t)
  | .list _ => True

instance (cluster : Text) : (a : Allowed) → Decidable (a.Plain cluster)
  | .text t => inferInstanceAs (Decidable (t = ['*'] ∨ _))
  | .list _ => .isTrue trivial

theorem has_of_passes {a : Allowed} {cluster : Text} (hPlain : a.Plain cluster)
    (h : a.passes cluster = true) : a.has cluster := by
  cases a with
  | list l =>
    simp only [Allowed.passes, decide_eq_true_eq] at h
    exact h
  | text t =>
    simp only [Allowed.passes, Bool.or_eq_true, Bool.and_eq_true, decide_eq_true_eq] at h
    rcases h with hAll | ⟨-, hPart⟩
    · exact .inl hAll
    · rcases hPlain with hAll | hWhole
      · exact .inl hAll
      · exact .inr (hWhole hPart).symm

end Allowed

/-! ## Calls -/

inductive Op
  | listClusters
  | spokeRegister (s : Spoke) (now : Text)
  | spokeUpdate (name : Text) (changes : Changes) (now : Text)
  | spokeDelete (name : Text)
  -- any `cluster_*` tool
  | clusterTool (cluster : Text)

inductive Failure
  | required
  | exists
  | missing
  | failed
  deriving DecidableEq

inductive Result
  | noneRegistered
  | noneAccessible
  | shown (clusters : List (Text × Spoke))
  | saved
  | noChanges
  | error (f : Failure)
  | denied (allowed : Allowed)
  | unresolved (e : Unresolved)
  | reached (url answer : Text)

inductive Pc
  | absent
  | listing
  | filtering (clusters : List (Text × Spoke))
  | heading (s : Spoke) (now : Text)
  | registering (s : Spoke)
  | getting (name : Text) (changes : Changes) (now : Text)
  | updating (name : Text) (changes : Changes) (old : Spoke) (now : Text)
  | deleting (name : Text)
  | checking (cluster : Text)
  -- none is allowed everything
  | resolving (cluster : Text) (allowed : Option Allowed)
  -- the tool has the text that it returns
  | replied (result : Result)
  -- `_update_cluster_doc`
  | recordGet (key now : Text) (result : Result)
  | recordPut (key now : Text) (old : Option Spoke) (result : Result)
  | done (result : Result)

/-- A call of a spoke with the key of the hub. -/
structure Visit where
  user : Text
  cluster : Text
  url : Text
  -- what an administrator had last given to the cluster by then
  given : Option Text
  -- what the document of the user allowed, none for an administrator
  allowed : Option Allowed
  deriving DecidableEq

structure World where
  registry : SpokeIndex
  acl : Text → Allowed
  call : Text → Nat → Pc
  -- the URLs that administrators have given to clusters
  given : Text → Option Text
  called : List Visit

/-- What the tools do not decide: who is an administrator, and where paths lead. -/
structure Host where
  admin : Text → Bool
  -- the document that the path with a cluster name leads to
  doc : Text → Option Text
  -- the document of the registry that a path into `fleet_state` leads to, if it leads there
  astray : Text → Option Text

inductive Answer
  | refused
  | lost
  | answered
  deriving DecidableEq

/-- The steps: the user, the number of the call, and what comes back. -/
inductive Act
  | call (u : Text) (n : Nat) (op : Op)
  | request (u : Text) (n : Nat) (a : Answer)
  | acl (u : Text) (n : Nat) (answered : Bool)
  -- the spoke is looked up and called
  | reach (u : Text) (n : Nat) (a : Answer) (answer : Text)
  -- what the tool records its work under, if it does
  | record (u : Text) (n : Nat) (key : Option Text) (now : Text)
  -- an administrator edits the document of a user
  | grant (u : Text) (allowed : Allowed)

def Act.user : Act → Option Text
  | call u _ _ | request u _ _ | acl u _ _ | reach u _ _ _ | record u _ _ _ => some u
  | grant _ _ => none

def Op.begin : Op → Pc
  | listClusters => .listing
  | spokeRegister s now =>
    if s.clusterName = [] ∨ s.url = [] then .done (.error .required) else .heading s now
  | spokeUpdate name changes now => .getting name changes now
  | spokeDelete name => .deleting name
  | clusterTool cluster => .checking cluster

namespace World

variable (E : Host) (w : World)

def goto (u : Text) (n : Nat) (pc : Pc) : World :=
  { w with call := Function.update w.call u (Function.update (w.call u) n pc) }

def get (name : Text) : Option Spoke := (E.doc name).bind w.registry.get

/-- What an administrator gives to a cluster, if the user is one. -/
def give (u name : Text) (url : Option Text) : World :=
  if E.admin u then { w with given := Function.update w.given name url } else w

def put (id : Option Text) (s : Spoke) : World :=
  match id with
  | some id => { w with registry := w.registry.put id s }
  | none => w

def delete (id : Option Text) : World :=
  match id with
  | some id => { w with registry := w.registry.delete id }
  | none => w

def saved (a : Answer) (id : Option Text) : Result :=
  if a = .answered ∧ id.isSome then .saved else .error .failed

def request (u : Text) (n : Nat) (a : Answer) : Option World :=
  match w.call u n with
  | .listing =>
    let clusters := if a = .answered then load w.registry else []
    some (w.goto u n (if clusters = [] then .done .noneRegistered else .filtering clusters))
  | .heading s now =>
    if a = .answered ∧ (w.get E s.clusterName).isSome then some (w.goto u n (.done (.error .exists)))
    else some (w.goto u n (.registering (s.registered now)))
  | .registering s =>
    let w' := w.goto u n (.done (saved a (E.doc s.clusterName)))
    some (if a = .refused then w'
      else (w'.put (E.doc s.clusterName) s).give E u s.clusterName (some (rstripSlash s.url)))
  | .getting name changes now =>
    match if a = .answered then w.get E name else none with
    | none => some (w.goto u n (.done (.error .missing)))
    | some old =>
      if changes = .nothing then some (w.goto u n (.done .noChanges))
      else some (w.goto u n (.updating name changes old now))
  | .updating name changes old now =>
    let w' := w.goto u n (.done (saved a (E.doc name)))
    let w'' := w'.put (E.doc name) (changes.apply name now old)
    some (if a = .refused then w'
      else
        match changes.url with
        | some url => w''.give E u name (some (rstripSlash url))
        | none => w'')
  | .deleting name =>
    let result :=
      if a ≠ .answered then .error .failed
      else if (w.get E name).isSome then .saved else .error .missing
    let w' := w.goto u n (.done result)
    some (if a = .refused then w' else (w'.delete (E.doc name)).give E u name none)
  | .recordGet key now result =>
    let old := if a = .answered then (E.astray key).bind w.registry.get else none
    some (w.goto u n (.recordPut key now old result))
  | .recordPut key now old result =>
    let w' := w.goto u n (.done result)
    some (if a = .refused then w' else w'.put (E.astray key) (recorded now old))
  | _ => none

/-- `get_current_acl`; without an answer nothing is allowed. -/
def currentAcl (u : Text) (answered : Bool) : Allowed := if answered then w.acl u else .list []

def checked (u : Text) (n : Nat) (answered : Bool) : Option World :=
  let allowed := w.currentAcl u answered
  match w.call u n with
  | .filtering clusters =>
    let shown := clusters.filter fun d => E.admin u || allowed.shows d.1
    some (w.goto u n (.done (if shown = [] then .noneAccessible else .shown (listed shown))))
  | .checking cluster =>
    some (w.goto u n
      (if E.admin u then .resolving cluster none
        else if allowed.passes cluster then .resolving cluster (some allowed)
        else .replied (.denied allowed)))
  | _ => none

/-- Nothing happens between the lookup of the URL and the call. -/
def reach (u : Text) (n : Nat) (a : Answer) (answer : Text) : Option World :=
  match w.call u n with
  | .resolving cluster allowed =>
    match resolve (if a = .answered then load w.registry else []) cluster with
    | .error e => some (w.goto u n (.replied (.unresolved e)))
    | .ok url =>
      some { w.goto u n (.replied (.reached url answer)) with
        called := ⟨u, cluster, url, w.given cluster, allowed⟩ :: w.called }
  | _ => none

def record (u : Text) (n : Nat) (key : Option Text) (now : Text) : Option World :=
  match w.call u n with
  | .replied result =>
    match key with
    | some key => some (w.goto u n (.recordGet key now result))
    | none => some (w.goto u n (.done result))
  | _ => none

def step : Act → Option World
  | .call u n op =>
    match w.call u n with
    | .absent => some (w.goto u n op.begin)
    | _ => none
  | .request u n a => w.request E u n a
  | .acl u n answered => w.checked E u n answered
  | .reach u n a answer => w.reach u n a answer
  | .record u n key now => w.record u n key now
  | .grant u allowed => some { w with acl := Function.update w.acl u allowed }

end World

end OpenSpoke.Hub
