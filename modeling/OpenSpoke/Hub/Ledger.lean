import OpenSpoke.Hub.Registry
import OpenSpoke.Lib.Grouped
import OpenSpoke.Python.Int

/-!
# The ledger

`ledger_overview`, `ledger_module` and `ledger_bundle` print what the ledger and the
documents of the Fleet GitRepos say, as far as a user may see it.
-/

namespace OpenSpoke.Hub

open Grouped
open Python (Text decimal before)

structure Policy where
  restartSafety : Text
  editSafety : Text
  desiredState : Text
  notes : Text
  deriving DecidableEq

/-- A module of the ledger; none is a policy that is missing or empty. -/
structure Module where
  path : Text
  liveCluster : Option Text
  fleet : Bool
  canonicalProductionHub : Bool
  role : Text
  dependsOn : Text
  policy : Option Policy
  bundlePolicies : List (Text × Option Policy)
  -- the module as `json.dumps` prints it
  json : Text
  deriving DecidableEq

/-- The name of a category and the name of a module. -/
abbrev Key := Text × Text

structure Ledger where
  schemaVersion : Text
  title : Text
  updatedAt : Text
  -- the modules of all categories, in order
  modules : List (Key × Module)
  distinct : (modules.map Prod.fst).Nodup

structure GitRepo where
  id : Text
  name : Option Text
  paths : List Text
  readyClusters : Text
  readyBundleDeployments : Text
  deriving DecidableEq

/-- The documents that the tools read. -/
structure FleetState where
  ledger : Option Ledger
  gitRepos : List GitRepo

structure Bundle where
  bundleName : Text
  matchedPath : Text
  relativePath : Text
  readyClusters : Text
  readyBundleDeployments : Text
  deriving DecidableEq

/-- Who asks. -/
structure Viewer where
  admin : Bool
  allowed : Allowed

namespace Viewer

variable (v : Viewer)

def full (k : Key) : Text := k.1 ++ '/' :: k.2

/-- `_filter_modules_by_acl`. -/
def keeps (k : Key) : Bool := v.admin || v.allowed.shows (full k)

/-- `_check_module_allowed`. -/
def passes (k : Key) : Bool := v.admin || v.allowed.passes (full k)

end Viewer

/-- `_fleet_gitrepos_fetch`. -/
def FleetState.fetched (s : FleetState) : List GitRepo := s.gitRepos.take 1000

/-! ## Bundles of modules -/

def GitRepo.shownName (g : GitRepo) : Text :=
  match g.name with
  | some name => orElse name g.id
  | none => g.id

def manifests : Text := ['/', 'm', 'a', 'n', 'i', 'f', 'e', 's', 't', 's']

/-- Where a path lies below the manifests of a module. -/
def relative (modulePath pn : Text) : Option Text :=
  let top := modulePath ++ manifests
  if pn = top ∨ top ++ ['/'] <+: pn then some ((pn.drop top.length).dropWhile (· = '/')) else none

def modulePaths (modules : List (Key × Module)) : List (Text × Key) :=
  modules.filterMap fun m =>
    if rstripSlash m.2.path = [] then none else some (rstripSlash m.2.path, m.1)

/-- Longer paths come first. -/
def longer (a b : Text × Key) : Prop := b.1.length ≤ a.1.length

instance : DecidableRel longer := fun a b => inferInstanceAs (Decidable (b.1.length ≤ a.1.length))

def modpathIndex (modules : List (Key × Module)) : List (Text × Key) :=
  (modulePaths modules).insertionSort longer

/-- The module that a path is assigned to. -/
def matched (index : List (Text × Key)) (pn : Text) : Option (Text × Key) :=
  index.find? fun e => (relative e.1 pn).isSome

def GitRepo.bundle (g : GitRepo) (pn rel : Text) : Bundle :=
  ⟨g.shownName, pn, rel, g.readyClusters, g.readyBundleDeployments⟩

def GitRepo.assigned (index : List (Text × Key)) (g : GitRepo) (p : Text) : Option (Key × Bundle) :=
  let pn := rstripSlash p
  (matched index pn).map fun e => (e.2, g.bundle pn ((relative e.1 pn).getD []))

def assignments (index : List (Text × Key)) (repos : List GitRepo) : List (Key × Bundle) :=
  repos.flatMap fun g => g.paths.filterMap (g.assigned index)

def Bundle.sortsBefore (a b : Bundle) : Prop :=
  before b.relativePath a.relativePath = false ∧
    (a.relativePath = b.relativePath → before b.bundleName a.bundleName = false)

instance : DecidableRel Bundle.sortsBefore := fun _ _ => inferInstanceAs (Decidable (_ ∧ _))

def tidy (bundles : List Bundle) : List Bundle :=
  (uniqueBy (fun b => (b.bundleName, b.matchedPath)) bundles).insertionSort Bundle.sortsBefore

def deriveModuleBundles (l : Ledger) (repos : List GitRepo) : List (Key × List Bundle) :=
  (group (assignments (modpathIndex l.modules) repos)).map fun g => (g.1, tidy g.2)

def bundlesOf (derived : List (Key × List Bundle)) (k : Key) : List Bundle :=
  ((derived.find? fun g => g.1 = k).map Prod.snd).getD []

/-! ## Texts -/

def joined (sep : Text) (parts : List Text) : Text := sep.intercalate parts

def unlines (lines : List Text) : Text := joined ['\n'] lines

def sorted (names : List Text) : List Text := names.insertionSort fun a b => before b a = false

def commas (names : List Text) : Text := joined [',', ' '] names

/-- `_ledger_format_policy`. -/
def formatPolicy : Option Policy → Text
  | none => "⚠️ 方針層未設定 (編集前に the operator要確認)".toList
  | some p =>
    let parts := [("再起動".toList, p.restartSafety), ("編集".toList, p.editSafety),
      ("あるべき状態".toList, p.desiredState), ("備考".toList, p.notes)].filter fun e => e.2 ≠ []
    if parts = [] then "(policy 空)".toList
    else joined " / ".toList (parts.map fun e => e.1 ++ '=' :: e.2)

inductive Source
  | bundle
  | module

/-- The policies for bundles that Fleet does not have. -/
def orphans (m : Module) (bundles : List Bundle) : List Text :=
  (m.bundlePolicies.map Prod.fst).filter fun name => name ∉ bundles.map Bundle.bundleName

def when (b : Bool) (line : Text) : List Text := if b then [line] else []

def orphanWarning (names : List Text) : Text :=
  "⚠️ 孤児 bundle個別方針 (該当 bundle が Fleet に無し): ".toList ++ commas (sorted names)

def overviewModule (name : Text) (m : Module) (bundles : List Bundle) : List Text :=
  let policies := m.bundlePolicies.map Prod.fst
  [ "  - ".toList ++ name ++ (if m.canonicalProductionHub then " ★本番ハブ".toList else []),
    "      live=".toList ++ m.liveCluster.getD ['-'] ++ "  type=".toList ++
      (if m.fleet then "Fleet".toList else "手動/未登録".toList) ++
      "  bundle件数(Fleet導出)=".toList ++ decimal bundles.length ] ++
  when (m.role ≠ []) ("      role=".toList ++ m.role) ++
  when (m.dependsOn ≠ []) ("      depends_on=".toList ++ m.dependsOn) ++
  [ "      policy: ".toList ++ formatPolicy m.policy ] ++
  when (policies ≠ []) ("      bundle個別方針: ".toList ++ decimal policies.length ++
    " 件 (".toList ++ commas (sorted policies) ++ [')']) ++
  when (orphans m bundles ≠ []) ("      ".toList ++ orphanWarning (orphans m bundles))

def core : Text := ['C', 'o', 'r', 'e']

def application : Text := ['A', 'p', 'p', 'l', 'i', 'c', 'a', 't', 'i', 'o', 'n']

def Ledger.category (l : Ledger) (name : Text) : List (Key × Module) :=
  l.modules.filter fun m => m.1.1 = name

/-- The part of an overview for a category, of which the viewer sees these modules. -/
def overviewCategory (derived : List (Key × List Bundle)) (name : Text)
    (modules : List (Key × Module)) : List Text :=
  if modules = [] then []
  else ("## ".toList ++ name) ::
    (modules.flatMap fun m => overviewModule m.1.2 m.2 (bundlesOf derived m.1)) ++ [[]]

def overviewHeader (l : Ledger) (repos : Nat) : List Text :=
  [ "# OpenSpoke 運用台帳 v".toList ++ l.schemaVersion,
    "  title=".toList ++ l.title,
    "  updated_at=".toList ++ l.updatedAt,
    "  (bundle 一覧は Fleet GitRepo から動的導出、 GitRepo 総数=".toList ++ decimal repos ++ [')'],
    [] ]

namespace FleetState

variable (v : Viewer) (s : FleetState)

end FleetState

/-- The modules with this name, in all categories. -/
def Ledger.named (l : Ledger) (name : Text) : List (Key × Module) :=
  l.modules.filter fun m => m.1.2 = name

namespace FleetState

variable (v : Viewer) (s : FleetState)

end FleetState

def Ledger.module (l : Ledger) (k : Key) : Option Module :=
  (l.modules.find? fun m => m.1 = k).map Prod.snd

def noModule : Module := ⟨[], none, false, false, [], [], none, [], []⟩

/-- A list of texts as Python prints it. -/
def printed (quote : Text → Text) (ts : List Text) : Text := '[' :: commas (ts.map quote) ++ [']']

namespace FleetState

variable (v : Viewer) (s : FleetState)

/-- The paths of the first GitRepo with this name. -/
def pathsOf (name : Text) : Option (List Text) :=
  (s.fetched.find? fun g => g.name = some name).map GitRepo.paths

end FleetState

end OpenSpoke.Hub
