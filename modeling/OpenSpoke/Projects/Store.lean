import Mathlib.Tactic.Simps.Basic
import OpenSpoke.Lib.Keyed
import OpenSpoke.Lib.Lts
import OpenSpoke.Python.Text

/-!
# Projects

The documents of the projects index with the calls that change them:
`core_project_create`, `update`, `archive`, `add_member`, `remove_member` and the
calls for Figma files and frames. A request to OpenSearch is one step, and a call
fails if its request does.
-/

namespace OpenSpoke.Projects

open Python (Text)

structure Frame where
  name : Text
  nodeId : Text
  kind : Text
  deriving DecidableEq

structure FigmaFile where
  fileKey : Text
  url : Text
  purpose : Text
  environment : Text
  description : Text
  frames : List Frame
  deriving DecidableEq

structure Project where
  name : Text
  description : Text
  status : Text
  owners : List Text
  members : List Text
  -- the files
  figma : List FigmaFile
  createdAt : Text
  updatedAt : Text
  deriving DecidableEq

def lower (t : Text) : Text := t.map Char.toLower

def orElse (t default : Text) : Text := if t = [] then default else t

def ownerRole : Text := ['o', 'w', 'n', 'e', 'r']

def memberRole : Text := ['m', 'e', 'm', 'b', 'e', 'r']

def archived : Text := ['a', 'r', 'c', 'h', 'i', 'v', 'e', 'd']

def activeStatus : Text := ['a', 'c', 't', 'i', 'v', 'e']

def statuses : List Text := [activeStatus, "completed".toList, archived]

/-- `_FIGMA_PURPOSES`. -/
def purposes : List Text :=
  ["screen_design".toList, "design_token".toList, "icon_set".toList, "component_library".toList,
    "design_system".toList]

/-- `_FIGMA_ENVIRONMENTS`. -/
def environments : List Text := ["prototype".toList, "staging".toList, "production".toList]

/-- `_FIGMA_FRAME_KINDS`. -/
def frameKinds : List Text :=
  ["screen".toList, "component".toList, "section".toList, "flow".toList]

/-- A call with its fields; the text is empty where a field without another default is
missing. -/
inductive Op
  | create (name description : Text) (owners members : List Text)
  | update (name description status : Option Text)
  | archive
  | addMember (user role : Text)
  | removeMember (user : Text)
  | addFile (key url purpose environment description : Text)
  | updateFile (key : Text) (url purpose environment description : Option Text)
  | deleteFile (key : Text)
  | addFrame (key node name kind : Text)
  | updateFrame (key node : Text) (name kind : Option Text)
  | deleteFrame (key node : Text)
  deriving DecidableEq

/-- The call with its fields as it goes on with them; none if it refuses them. -/
def Op.accept : Op → Option Op
  | .create name description owners members =>
    let name := Python.strip name
    if name = [] then none
    else some (.create name description (owners.filter (· ≠ [])) (members.filter (· ≠ [])))
  | .update name description status => some (.update name description status)
  | .archive => some .archive
  | .addMember user role =>
    if user = [] then none else some (.addMember user (lower (orElse role memberRole)))
  | .removeMember user => if user = [] then none else some (.removeMember user)
  | .addFile key url purpose environment description =>
    let key := Python.strip key
    let purpose := orElse purpose "screen_design".toList
    let environment := orElse environment "production".toList
    if key = [] ∨ purpose ∉ purposes ∨ environment ∉ environments then none
    else some (.addFile key url purpose environment description)
  | .updateFile key url purpose environment description =>
    let key := Python.strip key
    if key = [] then none else some (.updateFile key url purpose environment description)
  | .deleteFile key =>
    let key := Python.strip key
    if key = [] then none else some (.deleteFile key)
  | .addFrame key node name kind =>
    let key := Python.strip key
    let node := Python.strip node
    let name := Python.strip name
    let kind := orElse kind "screen".toList
    if key = [] ∨ node = [] ∨ name = [] ∨ kind ∉ frameKinds then none
    else some (.addFrame key node name kind)
  | .updateFrame key node name kind =>
    let key := Python.strip key
    let node := Python.strip node
    if key = [] ∨ node = [] then none else some (.updateFrame key node name kind)
  | .deleteFrame key node =>
    let key := Python.strip key
    let node := Python.strip node
    if key = [] ∨ node = [] then none else some (.deleteFrame key node)

/-- The partial document of an update, but for `updated_at`. -/
structure Patch where
  name : Option Text
  description : Option Text
  status : Option Text
  -- the owners and the members
  people : Option (List Text × List Text)
  figma : Option (List FigmaFile)
  deriving DecidableEq

def Patch.empty : Patch := ⟨none, none, none, none, none⟩

def Patch.apply (patch : Patch) (now : Text) (p : Project) : Project :=
  { p with
    name := patch.name.getD p.name
    description := patch.description.getD p.description
    status := patch.status.getD p.status
    owners := (patch.people.map Prod.fst).getD p.owners
    members := (patch.people.map Prod.snd).getD p.members
    figma := patch.figma.getD p.figma
    updatedAt := now }

/-- What a call makes of the document that it has read. -/
inductive Plan
  | refuse
  -- nothing is to be updated
  | nothing
  | put (patch : Patch)
  deriving DecidableEq

/-- `_project_figma_find_file`. -/
def Project.findFile (p : Project) (key : Text) : Option FigmaFile :=
  Keyed.find FigmaFile.fileKey key p.figma

def putFigma (files : List FigmaFile) : Plan := .put { Patch.empty with figma := some files }

def putPeople (owners members : List Text) : Plan :=
  .put { Patch.empty with people := some (owners, members) }

def Project.setFrames (p : Project) (key : Text) (f : List Frame → List Frame) : Plan :=
  putFigma (Keyed.edit FigmaFile.fileKey key (fun file => { file with frames := f file.frames })
    p.figma)

/-- The new name, if the document has another one. -/
def Op.newName (p : Project) : Op → Option Text
  | .update (some name) _ _ =>
    let name := Python.strip name
    if name ≠ [] ∧ name ≠ p.name then some name else none
  | _ => none

def Op.plan (p : Project) (op : Op) : Plan :=
  match op with
  | .create _ _ _ _ => .refuse
  | .update _ description status =>
    let status := status.map lower
    if status.any (· ∉ statuses) then .refuse
    else
      let patch := { Patch.empty with
        name := op.newName p
        description := description
        status := status }
      if patch = Patch.empty then .nothing else .put patch
  | .archive => .put { Patch.empty with status := some archived }
  | .addMember user role =>
    if role = ownerRole then
      putPeople (if user ∈ p.owners then p.owners else p.owners ++ [user]) p.members
    else putPeople p.owners (if user ∈ p.members then p.members else p.members ++ [user])
  | .removeMember user => putPeople (p.owners.filter (· ≠ user)) (p.members.filter (· ≠ user))
  | .addFile key url purpose environment description =>
    if (p.findFile key).isSome then .refuse
    else
      putFigma (p.figma ++
        [{ fileKey := key
           url := url
           purpose := purpose
           environment := environment
           description := description
           frames := [] }])
  | .updateFile key url purpose environment description =>
    if (p.findFile key).isNone ∨ purpose.any (· ∉ purposes) ∨
        environment.any (· ∉ environments) then .refuse
    else
      putFigma (Keyed.edit FigmaFile.fileKey key
        (fun file =>
          { file with
            url := url.getD file.url
            purpose := purpose.getD file.purpose
            environment := environment.getD file.environment
            description := description.getD file.description })
        p.figma)
  | .deleteFile key =>
    let files := Keyed.remove FigmaFile.fileKey key p.figma
    if files.length = p.figma.length then .refuse else putFigma files
  | .addFrame key node name kind =>
    match p.findFile key with
    | none => .refuse
    | some file =>
      if (Keyed.find Frame.nodeId node file.frames).isSome then .refuse
      else p.setFrames key fun frames => frames ++ [⟨name, node, kind⟩]
  | .updateFrame key node name kind =>
    match p.findFile key with
    | none => .refuse
    | some file =>
      if (Keyed.find Frame.nodeId node file.frames).isNone ∨
          name.any (Python.strip · = []) ∨ kind.any (· ∉ frameKinds) then .refuse
      else
        p.setFrames key (Keyed.edit Frame.nodeId node fun frame =>
          { frame with
            name := (name.map Python.strip).getD frame.name
            kind := kind.getD frame.kind })
  | .deleteFrame key node =>
    match p.findFile key with
    | none => .refuse
    | some file =>
      if (Keyed.remove Frame.nodeId node file.frames).length = file.frames.length then .refuse
      else p.setFrames key (Keyed.remove Frame.nodeId node)

/-- The document that a create puts. -/
def Op.newProject (now : Text) : Op → Option Project
  | .create name description owners members =>
    some
      { name := name
        description := description
        status := activeStatus
        owners := owners
        members := members
        figma := []
        createdAt := now
        updatedAt := now }
  | _ => none

/-! ## The index -/

structure Store where
  doc : Text → Option Project
  ids : List Text
  covered : ∀ id, (doc id).isSome = true → id ∈ ids

namespace Store

def put (s : Store) (id : Text) (p : Project) : Store where
  doc := Function.update s.doc id (some p)
  ids := id :: s.ids
  covered := by
    intro i hi
    rcases eq_or_ne i id with rfl | hne
    · exact List.mem_cons_self
    · rw [Function.update_of_ne hne] at hi
      exact List.mem_cons_of_mem _ (s.covered i hi)

/-- The projects of the name. -/
def named (s : Store) (name : Text) : List Text :=
  s.ids.filter fun id => (s.doc id).any (·.name = name)

/-- A hit that a search for the name may give; it gives one if there is any. -/
def finds (s : Store) (name : Text) : Option Text → Bool
  | none => s.named name = []
  | some id => id ∈ s.named name

end Store

/-! ## The calls -/

inductive CallPc
  | absent
  -- about to get the document
  | getting
  -- about to search for the name; with the document that an update has read
  | searching (name : Text) (seen : Option Project)
  -- about to put the new document
  | creating (id now : Text)
  -- about to update the document that it has read
  | updating (seen : Project) (patch : Patch) (now : Text)
  | replied (ok : Bool)
  deriving DecidableEq

structure Call where
  op : Op
  project : Text
  pc : CallPc
  deriving DecidableEq

/-- A call that has returned ok. The project of a create is the new one. -/
structure Done where
  call : Nat
  op : Op
  project : Text
  now : Text
  deriving DecidableEq

structure World where
  store : Store
  nextCall : Nat
  call : Nat → Call
  -- history: the calls that have returned ok, in the order of their last requests
  log : List Done

def World.init (store : Store) : World where
  store := store
  nextCall := 0
  call _ := ⟨.archive, [], .absent⟩
  log := []

inductive CallEv
  | get (answered : Bool) (now : Text)
  -- the hit of the search, if it answers, and the id that a create draws
  | search (answer : Option (Option Text)) (id now : Text)
  | write
  -- the request fails
  | refuse
  deriving DecidableEq

inductive ProjectAct
  | request (op : Op) (project : Text)
  | call (n : Nat) (e : CallEv)
  deriving DecidableEq

def Op.begin (project : Text) : Op → CallPc
  | .create name _ _ _ => .searching name none
  | _ => if project = [] then .replied false else .getting

def begin (op : Op) (project : Text) : Call :=
  match op.accept with
  | none => ⟨op, project, .replied false⟩
  | some op => ⟨op, project, op.begin project⟩

namespace World

@[simps -fullyApplied] def callTo (s : World) (n : Nat) (pc : CallPc) : World :=
  { s with call := Function.update s.call n { s.call n with pc := pc } }

@[simps -fullyApplied] def finish (s : World) (n : Nat) (project now : Text) : World :=
  { s with
    call := Function.update s.call n { s.call n with pc := .replied true }
    log := s.log ++ [⟨n, (s.call n).op, project, now⟩] }

@[simps -fullyApplied] def put (s : World) (id : Text) (p : Project) : World :=
  { s with store := s.store.put id p }

def planned (s : World) (n : Nat) (p : Project) (now : Text) : World :=
  match (s.call n).op.plan p with
  | .refuse => s.callTo n (.replied false)
  | .nothing => s.finish n (s.call n).project now
  | .put patch => s.callTo n (.updating p patch now)

def callStep (s : World) (n : Nat) (e : CallEv) : Option World :=
  let c := s.call n
  match c.pc, e with
  | .getting, .get answered now =>
    match if answered then s.store.doc c.project else none with
    | none => some (s.callTo n (.replied false))
    | some p =>
      match c.op.newName p with
      | some name => some (s.callTo n (.searching name (some p)))
      | none => some (s.planned n p now)
  | .searching name seen, .search answer id now =>
    if answer.all (s.store.finds name) then
      match seen with
      | none =>
        if answer.join.isSome then some (s.callTo n (.replied false))
        else some (s.callTo n (.creating id now))
      | some p =>
        if answer.join.any (· ≠ c.project) then some (s.callTo n (.replied false))
        else some (s.planned n p now)
    else none
  | .creating id now, .write =>
    (c.op.newProject now).map fun p => (s.put id p).finish n id now
  | .updating _ patch now, .write =>
    match s.store.doc c.project with
    | none => some (s.callTo n (.replied false))
    | some p => some ((s.put c.project (patch.apply now p)).finish n c.project now)
  | .getting, .refuse | .searching _ _, .refuse | .creating _ _, .refuse | .updating _ _ _, .refuse =>
    some (s.callTo n (.replied false))
  | _, _ => none

def step (s : World) : ProjectAct → Option World
  | .request op project =>
    some { s with
      call := Function.update s.call s.nextCall (begin op project)
      nextCall := s.nextCall + 1 }
  | .call n e => s.callStep n e

end World

end OpenSpoke.Projects
