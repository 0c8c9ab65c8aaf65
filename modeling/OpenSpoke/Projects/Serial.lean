import OpenSpoke.Projects.Store

/-!
# One call after another

No update of a project names the version that it has read, and names are checked
in a request of its own. What a call writes is what it would write alone if the
fields that it has read are as it has read them.
-/

namespace OpenSpoke.Projects

open Lts
open Python (Text)

/-! ## Calls alone -/

/-- The store after a call that nothing comes between, if it returns ok. -/
def Store.perform (s : Store) (d : Done) : Option Store :=
  match d.op.newProject d.now with
  | some p => if s.named p.name = [] then some (s.put d.project p) else none
  | none =>
    match s.doc d.project with
    | none => none
    | some p =>
      if (d.op.newName p).any fun name => (s.named name).any (· ≠ d.project) then none
      else
        match d.op.plan p with
        | .refuse => none
        | .nothing => some s
        | .put patch => some (s.put d.project (patch.apply d.now p))

/-- The fields that the call reads are the same. -/
def Op.agrees (p q : Project) : Op → Bool
  | .create _ _ _ _ | .archive => true
  | .update name _ _ => (name.map Python.strip).getD [] = [] || p.name = q.name
  | .addMember _ _ | .removeMember _ => p.owners = q.owners && p.members = q.members
  | .addFile _ _ _ _ _ | .updateFile _ _ _ _ _ | .deleteFile _ | .addFrame _ _ _ _
  | .updateFrame _ _ _ _ | .deleteFrame _ _ => p.figma = q.figma

/-- The condition on a step: nothing has come between that touches what the call has read. -/
def World.undisturbed (s : World) : ProjectAct → Bool
  | .call n .write =>
    let c := s.call n
    match c.pc with
    | .creating id now =>
      (s.store.doc id).isNone && (c.op.newProject now).all fun p => s.store.named p.name = []
    | .updating seen patch _ =>
      (s.store.doc c.project).all (c.op.agrees seen) &&
        patch.name.all fun name => (s.store.named name).all (· = c.project)
    | _ => true
  | _ => true

theorem Op.newName_congr {op : Op} {p q : Project} (h : op.agrees p q = true) :
    op.newName p = op.newName q := by
  cases op with
  | update name description status =>
    cases name with
    | none => rfl
    | some name =>
      simp only [agrees, Option.map_some, Option.getD_some, Bool.or_eq_true, decide_eq_true_eq] at h
      simp only [newName]
      rcases h with hEmpty | hName
      · simp [hEmpty]
      · rw [hName]
  | _ => rfl

theorem Op.plan_congr {op : Op} {p q : Project} (h : op.agrees p q = true) :
    op.plan p = op.plan q := by
  have hName := newName_congr h
  cases op with
  | update name description status =>
    unfold plan
    dsimp only
    rw [hName]
  | addMember user role | removeMember user =>
    simp only [agrees, Bool.and_eq_true, decide_eq_true_eq] at h
    unfold plan
    dsimp only
    rw [h.1, h.2]
  | addFile | updateFile | deleteFile | addFrame | updateFrame | deleteFrame =>
    obtain ⟨⟩ := p
    obtain ⟨⟩ := q
    have hFigma := of_decide_eq_true h
    cases hFigma
    rfl
  | _ => rfl

theorem Op.plan_name {op : Op} {p : Project} {patch : Patch} (h : op.plan p = .put patch) :
    patch.name = op.newName p := by
  cases op with
  | update name description status =>
    unfold plan at h
    dsimp only at h
    split at h
    · cases h
    · split at h <;> cases h
      rfl
  | create => cases h
  | archive => cases h; rfl
  | addMember =>
    unfold plan putPeople at h
    dsimp only at h
    split at h <;> cases h <;> rfl
  | removeMember => cases h; rfl
  | addFile | updateFile | deleteFile =>
    unfold plan putFigma at h
    dsimp only at h
    split at h <;> cases h
    rfl
  | addFrame | updateFrame | deleteFrame =>
    unfold plan Project.setFrames putFigma at h
    dsimp only at h
    split at h
    · cases h
    · split at h <;> cases h
      rfl

theorem Op.newProject_of_plan {op : Op} {p : Project} (h : op.plan p ≠ .refuse) (now : Text) :
    op.newProject now = none := by
  cases op with
  | create => exact absurd rfl h
  | _ => rfl

theorem Op.plan_ne_nothing {op : Op} {p : Project} {name : Text} (h : op.newName p = some name) :
    op.plan p ≠ .nothing := by
  cases op with
  | update n description status =>
    unfold plan
    dsimp only
    rw [h]
    split
    · simp
    · simp [Patch.empty]
  | _ => cases h

/-! ## What is distinct -/

structure Project.Distinct (p : Project) : Prop where
  files : Keyed.Distinct FigmaFile.fileKey p.figma
  frames : ∀ file ∈ p.figma, Keyed.Distinct Frame.nodeId file.frames

structure Store.Distinct (s : Store) : Prop where
  names : ∀ i j p q, s.doc i = some p → s.doc j = some q → p.name = q.name → i = j
  projects : ∀ id p, s.doc id = some p → p.Distinct

theorem Store.mem_named {s : Store} {name id : Text} :
    id ∈ s.named name ↔ ∃ p, s.doc id = some p ∧ p.name = name := by
  simp only [named, List.mem_filter, Option.any_eq_true, decide_eq_true_eq]
  exact ⟨fun h => h.2, fun ⟨p, hp, hName⟩ => ⟨s.covered id (by simp [hp]), p, hp, hName⟩⟩

theorem Store.put_self (s : Store) (id : Text) (p : Project) : (s.put id p).doc id = some p :=
  Function.update_self ..

theorem Store.put_of_ne (s : Store) {id id' : Text} (p : Project) (hne : id' ≠ id) :
    (s.put id p).doc id' = s.doc id' := Function.update_of_ne hne ..

theorem Store.Distinct.put {s : Store} (hs : s.Distinct) {id : Text} {p : Project} (hp : p.Distinct)
    (hName : ∀ i ∈ s.named p.name, i = id) : (s.put id p).Distinct := by
  have hOther : ∀ i q, i ≠ id → s.doc i = some q → q.name ≠ p.name := fun i q hne hq hEq =>
    hne (hName i (mem_named.mpr ⟨q, hq, hEq⟩))
  constructor
  · intro i j q r hq hr hEq
    rcases eq_or_ne i id with rfl | hi <;> rcases eq_or_ne j i with rfl | hj
    · rfl
    · rw [put_self] at hq
      rw [put_of_ne _ _ hj] at hr
      cases hq
      exact absurd hEq.symm (hOther j r hj hr)
    · rfl
    · rw [put_of_ne _ _ hi] at hq
      rcases eq_or_ne j id with rfl | hj'
      · rw [put_self] at hr
        cases hr
        exact absurd hEq (hOther i q hi hq)
      · rw [put_of_ne _ _ hj'] at hr
        exact hs.names i j q r hq hr hEq
  · intro i q hq
    rcases eq_or_ne i id with rfl | hi
    · rw [put_self] at hq
      cases hq
      exact hp
    · rw [put_of_ne _ _ hi] at hq
      exact hs.projects i q hq

theorem Project.Distinct.edit {p : Project} (hp : p.Distinct) {key : Text} {f : FigmaFile → FigmaFile}
    (hKey : ∀ file, (f file).fileKey = file.fileKey)
    (hFrames : ∀ file, p.findFile key = some file → Keyed.Distinct Frame.nodeId (f file).frames) :
    Keyed.Distinct FigmaFile.fileKey (Keyed.edit FigmaFile.fileKey key f p.figma) ∧
      ∀ file ∈ Keyed.edit FigmaFile.fileKey key f p.figma,
        Keyed.Distinct Frame.nodeId file.frames := by
  refine ⟨hp.files.edit hKey, fun file hFile => ?_⟩
  rcases Keyed.mem_edit hFile with hFile | ⟨old, hOld, rfl⟩
  · exact hp.frames file hFile
  · exact hFrames old hOld

theorem Project.Distinct.of_find {p : Project} (hp : p.Distinct) {key : Text} {file : FigmaFile}
    (h : p.findFile key = some file) : Keyed.Distinct Frame.nodeId file.frames :=
  hp.frames file (Keyed.mem_of_find h)

/-- A call keeps file keys and node ids distinct. -/
theorem Op.plan_distinct {op : Op} {p : Project} (hp : p.Distinct) {patch : Patch}
    (h : op.plan p = .put patch) (now : Text) : (patch.apply now p).Distinct := by
  have hFigma : ∀ {files : List FigmaFile}, putFigma files = .put patch →
      Keyed.Distinct FigmaFile.fileKey files ∧
        (∀ file ∈ files, Keyed.Distinct Frame.nodeId file.frames) →
          (patch.apply now p).Distinct := fun h hFiles => by
    cases h
    exact ⟨hFiles.1, hFiles.2⟩
  cases op with
  | create => cases h
  | update =>
    simp only [plan] at h
    split at h
    · cases h
    · split at h <;> cases h
      exact ⟨hp.files, hp.frames⟩
  | archive => cases h; exact ⟨hp.files, hp.frames⟩
  | addMember =>
    simp only [plan, putPeople] at h
    split at h <;> cases h <;> exact ⟨hp.files, hp.frames⟩
  | removeMember => cases h; exact ⟨hp.files, hp.frames⟩
  | addFile key =>
    simp only [plan] at h
    split at h
    · cases h
    next hNew =>
      refine hFigma h ⟨hp.files.append ?_, fun file hFile => ?_⟩
      · simpa [Project.findFile] using hNew
      · rcases List.mem_append.mp hFile with hFile | hFile
        · exact hp.frames file hFile
        · rw [List.mem_singleton.mp hFile]
          exact List.nodup_nil
  | updateFile key =>
    simp only [plan] at h
    split at h
    · cases h
    · exact hFigma h (hp.edit (fun _ => rfl) fun file hFile => hp.frames file (Keyed.mem_of_find hFile))
  | deleteFile key =>
    simp only [plan] at h
    split at h
    · cases h
    · exact hFigma h ⟨hp.files.remove, fun file hFile => hp.frames file (List.mem_of_mem_filter hFile)⟩
  | addFrame key node name kind =>
    simp only [plan] at h
    split at h
    · cases h
    next file hFile =>
      split at h
      · cases h
      next hNew =>
        refine hFigma h (hp.edit (fun _ => rfl) fun file' hFile' => ?_)
        cases Option.some.inj (hFile.symm.trans hFile')
        exact (hp.of_find hFile).append (by simpa using hNew)
  | updateFrame key node name kind =>
    simp only [plan] at h
    split at h
    · cases h
    · split at h
      · cases h
      · exact hFigma h (hp.edit (fun _ => rfl) fun file hFile => (hp.of_find hFile).edit fun _ => rfl)
  | deleteFrame key node =>
    simp only [plan] at h
    split at h
    · cases h
    · split at h
      · cases h
      · exact hFigma h (hp.edit (fun _ => rfl) fun file hFile => (hp.of_find hFile).remove)

theorem Op.newProject_distinct {op : Op} {now : Text} {p : Project}
    (h : op.newProject now = some p) : p.Distinct := by
  cases op with
  | create =>
    cases h
    exact ⟨List.nodup_nil, fun _ hFile => (nomatch hFile)⟩
  | _ => cases h

/-! ## What is left alone -/

/-- The user whom a call adds or removes. -/
def Op.user : Op → Option Text
  | .addMember user _ | .removeMember user => some user
  | _ => none

/-- The call is about the file as such. -/
def Op.hitsFile (key : Text) : Op → Bool
  | .addFile k _ _ _ _ | .updateFile k _ _ _ _ | .deleteFile k => k = key
  | _ => false

/-- The call is about the frame, or about all frames of its file. -/
def Op.hitsFrame (key node : Text) : Op → Bool
  | .addFile k _ _ _ _ | .deleteFile k => k = key
  | .addFrame k n _ _ | .updateFrame k n _ _ | .deleteFrame k n => k = key && n = node
  | _ => false

def Project.findFrame (p : Project) (key node : Text) : Option Frame :=
  (p.findFile key).bind fun file => Keyed.find Frame.nodeId node file.frames

/-- The file but for its frames. -/
def FigmaFile.head (file : FigmaFile) : FigmaFile := { file with frames := [] }

/-- Users, files and frames that the call is not about are the same before and after. -/
structure Spared (op : Op) (p q : Project) : Prop where
  owners : ∀ user, op.user ≠ some user → (user ∈ q.owners ↔ user ∈ p.owners)
  members : ∀ user, op.user ≠ some user → (user ∈ q.members ↔ user ∈ p.members)
  files : ∀ key, op.hitsFile key = false →
    (q.findFile key).map FigmaFile.head = (p.findFile key).map FigmaFile.head
  frames : ∀ key node, op.hitsFrame key node = false → q.findFrame key node = p.findFrame key node

theorem Spared.of_figma {op : Op} {p q : Project} (h : q.figma = p.figma)
    (hOwners : ∀ user, op.user ≠ some user → (user ∈ q.owners ↔ user ∈ p.owners))
    (hMembers : ∀ user, op.user ≠ some user → (user ∈ q.members ↔ user ∈ p.members)) :
    Spared op p q := by
  have hFile : ∀ key, q.findFile key = p.findFile key := fun key => by simp [Project.findFile, h]
  exact ⟨hOwners, hMembers, fun key _ => by rw [hFile], fun key node _ => by
    simp [Project.findFrame, hFile]⟩

theorem Spared.of_files {op : Op} {p : Project} {files : List FigmaFile} {patch : Patch}
    (h : putFigma files = .put patch) (now : Text)
    (hFiles : ∀ key, op.hitsFile key = false →
      (Keyed.find FigmaFile.fileKey key files).map FigmaFile.head =
        (p.findFile key).map FigmaFile.head)
    (hFrames : ∀ key node, op.hitsFrame key node = false →
      ((Keyed.find FigmaFile.fileKey key files).bind fun file =>
        Keyed.find Frame.nodeId node file.frames) = p.findFrame key node) :
    Spared op p (patch.apply now p) := by
  cases h
  exact ⟨fun _ _ => Iff.rfl, fun _ _ => Iff.rfl, hFiles, hFrames⟩

theorem Spared.of_edit {op : Op} {p : Project} {k : Text} {f : FigmaFile → FigmaFile} {patch : Patch}
    (h : putFigma (Keyed.edit FigmaFile.fileKey k f p.figma) = .put patch) (now : Text)
    (hKey : ∀ file, (f file).fileKey = file.fileKey)
    (hHead : op.hitsFile k = false → ∀ file, (f file).head = file.head)
    (hFrames : ∀ node, op.hitsFrame k node = false → ∀ file,
      Keyed.find Frame.nodeId node (f file).frames = Keyed.find Frame.nodeId node file.frames) :
    Spared op p (patch.apply now p) := by
  refine of_files h now (fun key hHits => ?_) (fun key node hHits => ?_)
  · rcases eq_or_ne key k with rfl | hne
    · rw [Keyed.find_edit_self hKey, Option.map_map]
      exact Option.map_congr fun file _ => hHead hHits file
    · rw [Keyed.find_edit_of_ne hKey hne]
      rfl
  · rcases eq_or_ne key k with rfl | hne
    · rw [Keyed.find_edit_self hKey, Option.bind_map]
      exact Option.bind_congr fun file _ => hFrames node hHits file
    · rw [Keyed.find_edit_of_ne hKey hne]
      rfl

/-- A call leaves everything alone that it is not about. -/
theorem Op.plan_spares {op : Op} {p : Project} {patch : Patch} (h : op.plan p = .put patch)
    (now : Text) : Spared op p (patch.apply now p) := by
  have hSame : ∀ {a b : Text} {l : List Text}, b ≠ a → (a ∈ l ++ [b] ↔ a ∈ l) := fun hne => by
    simp [hne.symm]
  cases op with
  | create => cases h
  | update =>
    simp only [plan] at h
    split at h
    · cases h
    · split at h <;> cases h
      exact .of_figma rfl (fun _ _ => Iff.rfl) fun _ _ => Iff.rfl
  | archive => cases h; exact .of_figma rfl (fun _ _ => Iff.rfl) fun _ _ => Iff.rfl
  | addMember user role =>
    have hAdd : ∀ {u : Text} {l : List Text}, some user ≠ some u →
        (u ∈ (if user ∈ l then l else l ++ [user]) ↔ u ∈ l) := fun hne => by
      split
      · exact Iff.rfl
      · exact hSame fun hEq => hne (congrArg some hEq)
    simp only [plan, putPeople] at h
    split at h <;> cases h
    · exact .of_figma rfl (fun _ hne => hAdd hne) fun _ _ => Iff.rfl
    · exact .of_figma rfl (fun _ _ => Iff.rfl) fun _ hne => hAdd hne
  | removeMember user =>
    have hRemove : ∀ {u : Text} {l : List Text}, some user ≠ some u →
        (u ∈ l.filter (· ≠ user) ↔ u ∈ l) := fun hne => by
      have hne : _ ≠ user := fun hEq => hne (congrArg some hEq.symm)
      simp [hne]
    cases h
    exact .of_figma rfl (fun _ hne => hRemove hne) fun _ hne => hRemove hne
  | addFile key =>
    simp only [plan] at h
    split at h
    · cases h
    · have hFind : ∀ {k}, decide (key = k) = false → ∀ file : FigmaFile, file.fileKey = key →
          Keyed.find FigmaFile.fileKey k (p.figma ++ [file]) = p.findFile k := fun hHits file hKey =>
        Keyed.find_append_of_ne fun hEq => of_decide_eq_false hHits (hKey ▸ hEq.symm)
      refine .of_files h now (fun k hHits => ?_) fun k node hHits => ?_
      · rw [hFind hHits _ rfl]
      · rw [hFind hHits _ rfl]
        rfl
  | updateFile key =>
    simp only [plan] at h
    split at h
    · cases h
    · refine .of_edit h now (fun _ => rfl) (fun hHits => ?_) fun _ _ _ => rfl
      simp [hitsFile] at hHits
  | deleteFile key =>
    simp only [plan] at h
    split at h
    · cases h
    · have hFind : ∀ {k}, decide (key = k) = false →
          Keyed.find FigmaFile.fileKey k (Keyed.remove FigmaFile.fileKey key p.figma) =
            p.findFile k := fun hHits =>
        Keyed.find_remove_of_ne fun hEq => of_decide_eq_false hHits hEq.symm
      refine .of_files h now (fun k hHits => ?_) fun k node hHits => ?_
      · rw [hFind hHits]
      · rw [hFind hHits]
        rfl
  | addFrame key node name kind =>
    simp only [plan] at h
    split at h
    · cases h
    · split at h
      · cases h
      · refine .of_edit h now (fun _ => rfl) (fun _ _ => rfl) fun n hHits file => ?_
        refine Keyed.find_append_of_ne fun hEq => ?_
        simp [hitsFrame, hEq] at hHits
  | updateFrame key node name kind =>
    simp only [plan] at h
    split at h
    · cases h
    · split at h
      · cases h
      · refine .of_edit h now (fun _ => rfl) (fun _ _ => rfl) fun n hHits file => ?_
        have hne : n ≠ node := fun hEq => by simp [hitsFrame, hEq] at hHits
        refine Keyed.find_edit_of_ne ?_ hne
        exact fun _ => rfl
  | deleteFrame key node =>
    simp only [plan] at h
    split at h
    · cases h
    · split at h
      · cases h
      · refine .of_edit h now (fun _ => rfl) (fun _ _ => rfl) fun n hHits file => ?_
        refine Keyed.find_remove_of_ne fun hEq => ?_
        simp [hitsFrame, hEq] at hHits

/-! ## Runs -/

namespace World

/-- A step of a call leaves other projects alone, and in its own what it is not about. -/
def Spares (s : World) (a : ProjectAct) : Prop :=
  ∀ t, s.step a = some t → ∀ id p, s.store.doc id = some p → ∃ q, t.store.doc id = some q ∧
    (q = p ∨ ∃ n e, a = .call n e ∧ (s.call n).project = id ∧ Spared (s.call n).op p q)

/-- What the state of a call says about what it has read. -/
def Fits (c : Call) : Prop :=
  match c.pc with
  | .searching name (some seen) => c.op.newName seen = some name
  | .updating seen patch _ => c.op.plan seen = .put patch
  | _ => True

theorem fits_begin (op : Op) (project : Text) : Fits (begin op project) := by
  unfold begin
  split
  · trivial
  next op _ =>
    cases op
    case create => trivial
    all_goals
      simp only [Op.begin]
      split <;> trivial

theorem begin_ne_ok (op : Op) (project : Text) : (begin op project).pc ≠ .replied true := by
  unfold begin
  split
  · simp
  next op _ =>
    cases op
    case create => simp [Op.begin]
    all_goals
      simp only [Op.begin]
      split <;> simp

/-- The log explains the store. -/
structure Serial (store : Store) (s : World) : Prop where
  explained : run Store.perform store s.log = some s.store
  once : (s.log.map Done.call).Nodup
  replied : ∀ n, n ∈ s.log.map Done.call ↔ (s.call n).pc = .replied true
  own : ∀ d ∈ s.log, d.op = (s.call d.call).op ∧
    (d.op.newProject d.now = none → d.project = (s.call d.call).project)
  distinct : s.store.Distinct
  fits : ∀ n, Fits (s.call n)
  fresh : ∀ n, s.nextCall ≤ n → (s.call n).pc = .absent

theorem serial_init {store : Store} (h : store.Distinct) : (init store).Serial store where
  explained := rfl
  once := List.nodup_nil
  replied _ := ⟨fun h => (nomatch h), fun h => (nomatch h)⟩
  own _ hd := nomatch hd
  distinct := h
  fits _ := trivial
  fresh _ _ := rfl

theorem callStep_lt {store : Store} {s t : World} (hs : s.Serial store) {n : Nat} {e : CallEv}
    (h : s.callStep n e = some t) : n < s.nextCall := by
  by_contra hLe
  simp [callStep, hs.fresh n (Nat.le_of_not_lt hLe)] at h

section Steps

variable {store : Store} {s : World} {n : Nat}

theorem Serial.callTo (hs : s.Serial store) (hn : n < s.nextCall)
    (hOpen : (s.call n).pc ≠ .replied true) {pc : CallPc} (hPc : pc ≠ .replied true)
    (hFits : Fits { s.call n with pc := pc }) : (s.callTo n pc).Serial store := by
  have hNotIn : n ∉ s.log.map Done.call := fun hMem => hOpen ((hs.replied n).mp hMem)
  refine ⟨hs.explained, hs.once, fun m => ?_, fun d hd => ?_, hs.distinct, fun m => ?_,
    fun m hm => ?_⟩
  · rcases eq_or_ne m n with rfl | hne
    · simpa [hPc] using hNotIn
    · simpa [hne] using hs.replied m
  · have hne : d.call ≠ n := fun hEq => hNotIn (List.mem_map.mpr ⟨d, hd, hEq⟩)
    simpa [hne] using hs.own d hd
  · rcases eq_or_ne m n with rfl | hne
    · simpa using hFits
    · simpa [hne] using hs.fits m
  · have hne : m ≠ n := fun hEq => Nat.not_lt.mpr hm (hEq ▸ hn)
    simpa [hne] using hs.fresh m hm

theorem Serial.finish (hs : s.Serial store) (hn : n < s.nextCall)
    (hOpen : (s.call n).pc ≠ .replied true) {project now : Text} {store' : Store}
    (hPerform : s.store.perform ⟨n, (s.call n).op, project, now⟩ = some store')
    (hProject : (s.call n).op.newProject now = none → project = (s.call n).project)
    (hDistinct : store'.Distinct) :
    ({ s with store := store' }.finish n project now : World).Serial store := by
  have hNotIn : n ∉ s.log.map Done.call := fun hMem => hOpen ((hs.replied n).mp hMem)
  refine ⟨run_snoc _ hs.explained hPerform, ?_, fun m => ?_, fun d hd => ?_, hDistinct,
    fun m => ?_, fun m hm => ?_⟩
  · simp only [finish_log, List.map_append, List.map_singleton]
    exact List.nodup_append_comm.mp (List.nodup_cons.mpr ⟨hNotIn, hs.once⟩)
  · simp only [finish_log, List.map_append, List.map_singleton, List.mem_append,
      List.mem_singleton]
    rcases eq_or_ne m n with rfl | hne
    · simp
    · simpa [hne] using hs.replied m
  · rcases List.mem_append.mp hd with hd | hd
    · have hne : d.call ≠ n := fun hEq => hNotIn (List.mem_map.mpr ⟨d, hd, hEq⟩)
      simpa [hne] using hs.own d hd
    · rw [List.mem_singleton.mp hd]
      simpa using hProject
  · rcases eq_or_ne m n with rfl | hne
    · rw [finish_call, Function.update_self]
      trivial
    · simpa [hne] using hs.fits m
  · have hne : m ≠ n := fun hEq => Nat.not_lt.mpr hm (hEq ▸ hn)
    simpa [hne] using hs.fresh m hm

theorem Serial.planned (hs : s.Serial store) (hn : n < s.nextCall)
    (hOpen : (s.call n).pc ≠ .replied true) {p : Project} {now : Text}
    (hNothing : (s.call n).op.plan p = .nothing → s.store.doc (s.call n).project = some p ∧
      (s.call n).op.newName p = none) : (s.planned n p now).Serial store := by
  simp only [World.planned]
  split
  · exact hs.callTo hn hOpen (by simp) trivial
  next hPlan =>
    obtain ⟨hDoc, hName⟩ := hNothing hPlan
    have hNone := Op.newProject_of_plan (by rw [hPlan]; simp) now
    refine hs.finish hn hOpen ?_ (fun _ => rfl) hs.distinct
    simp [Store.perform, hNone, hDoc, hName, hPlan]
  next patch hPlan => exact hs.callTo hn hOpen (by simp) hPlan

/-- The update that a call sends, undisturbed, is the one that it would send now. -/
theorem Serial.plan_now (hs : s.Serial store) {seen p : Project} {patch : Patch} {now : Text}
    (hPc : (s.call n).pc = .updating seen patch now)
    (hOk : s.undisturbed (.call n .write) = true) (hDoc : s.store.doc (s.call n).project = some p) :
    (s.call n).op.plan p = .put patch ∧
      ∀ name, patch.name = some name → ∀ i ∈ s.store.named name, i = (s.call n).project := by
  simp only [undisturbed, hPc, hDoc, Option.all_some, Bool.and_eq_true] at hOk
  have hSeen : (s.call n).op.plan seen = .put patch := by
    have hFits := hs.fits n
    simpa only [Fits, hPc] using hFits
  refine ⟨(Op.plan_congr hOk.1).symm.trans hSeen, fun name hName i hi => ?_⟩
  have hAll := hOk.2
  rw [hName, Option.all_some, List.all_eq_true] at hAll
  exact of_decide_eq_true (hAll i hi)

theorem Serial.create (hs : s.Serial store) {id now : Text} {p : Project}
    (hPc : (s.call n).pc = .creating id now) (hNew : (s.call n).op.newProject now = some p)
    (hOk : s.undisturbed (.call n .write) = true) (hn : n < s.nextCall) :
    ((s.put id p).finish n id now).Serial store := by
  simp only [undisturbed, hPc, hNew, Option.all_some, Bool.and_eq_true, decide_eq_true_eq] at hOk
  refine hs.finish hn (by simp [hPc]) ?_ (fun hNone => ?_)
    (hs.distinct.put (Op.newProject_distinct hNew) (by simp [hOk.2]))
  · simp [Store.perform, hNew, hOk.2]
  · rw [hNew] at hNone
    cases hNone

theorem Serial.update (hs : s.Serial store) {seen p : Project} {patch : Patch} {now : Text}
    (hPc : (s.call n).pc = .updating seen patch now)
    (hDoc : s.store.doc (s.call n).project = some p)
    (hOk : s.undisturbed (.call n .write) = true) (hn : n < s.nextCall) :
    ((s.put (s.call n).project (patch.apply now p)).finish n (s.call n).project now).Serial
      store := by
  obtain ⟨hPlan, hName⟩ := hs.plan_now hPc hOk hDoc
  have hNone := Op.newProject_of_plan (by rw [hPlan]; simp) now
  refine hs.finish hn (by simp [hPc]) ?_ (fun _ => rfl)
    (hs.distinct.put (Op.plan_distinct (hs.distinct.projects _ _ hDoc) hPlan now) ?_)
  · have hFree : ¬((s.call n).op.newName p).any (fun name =>
        (s.store.named name).any (· ≠ (s.call n).project)) = true := by
      rw [← Op.plan_name hPlan]
      intro hTaken
      obtain ⟨name, hEq, hTaken⟩ := (Option.any_eq_true _ _).mp hTaken
      obtain ⟨i, hi, hne⟩ := List.any_eq_true.mp hTaken
      exact of_decide_eq_true hne (hName name hEq i hi)
    simp only [Store.perform, hNone, hDoc, hFree, hPlan]
    rfl
  · intro i hi
    cases hPatch : patch.name with
    | some name => exact hName name hPatch i (by simpa [Patch.apply, hPatch] using hi)
    | none =>
      obtain ⟨q, hq, hEq⟩ := Store.mem_named.mp hi
      exact hs.distinct.names i _ q p hq hDoc (by simpa [Patch.apply, hPatch] using hEq)

theorem Serial.step {a : ProjectAct} {t : World} (hs : s.Serial store)
    (hOk : s.undisturbed a = true) (h : s.step a = some t) : t.Serial store := by
  cases a with
  | request op project =>
    cases h
    have hAbsent := hs.fresh s.nextCall (Nat.le_refl _)
    have hNotIn : s.nextCall ∉ s.log.map Done.call := fun hMem => by
      have hReplied := (hs.replied _).mp hMem
      rw [hAbsent] at hReplied
      cases hReplied
    refine ⟨hs.explained, hs.once, fun m => ?_, fun d hd => ?_, hs.distinct, fun m => ?_,
      fun m hm => ?_⟩
    · rcases eq_or_ne m s.nextCall with rfl | hne
      · simpa [begin_ne_ok] using hNotIn
      · simpa [hne] using hs.replied m
    · have hne : d.call ≠ s.nextCall := fun hEq => hNotIn (List.mem_map.mpr ⟨d, hd, hEq⟩)
      simpa [hne] using hs.own d hd
    · rcases eq_or_ne m s.nextCall with rfl | hne
      · simpa using fits_begin op project
      · simpa [hne] using hs.fits m
    · have hm : s.nextCall + 1 ≤ m := hm
      have hne : m ≠ s.nextCall := by omega
      simpa [hne] using hs.fresh m (by omega)
  | call n e =>
    have hn := callStep_lt hs h
    simp only [World.step, callStep] at h
    split at h
    next answered now hPc =>
      have hOpen : (s.call n).pc ≠ .replied true := by simp [hPc]
      split at h
      · cases h
        exact hs.callTo hn hOpen (by simp) trivial
      next p hDoc =>
        split at h
        next name hName =>
          cases h
          exact hs.callTo hn hOpen (by simp) hName
        next hName =>
          cases h
          refine hs.planned hn hOpen fun _ => ⟨?_, hName⟩
          split at hDoc
          · exact hDoc
          · cases hDoc
    next name seen answer id now hPc =>
      have hOpen : (s.call n).pc ≠ .replied true := by simp [hPc]
      split at h
      next =>
        split at h
        · split at h <;> cases h <;> exact hs.callTo hn hOpen (by simp) trivial
        next p =>
          split at h <;> cases h
          · exact hs.callTo hn hOpen (by simp) trivial
          · have hName : (s.call n).op.newName p = some name := by
              have hFits := hs.fits n
              simpa only [Fits, hPc] using hFits
            exact hs.planned hn hOpen fun hPlan => absurd hPlan (Op.plan_ne_nothing hName)
      next => cases h
    next id now hPc =>
      obtain ⟨p, hNew, rfl⟩ := Option.map_eq_some_iff.mp h
      exact hs.create hPc hNew hOk hn
    next seen patch now hPc =>
      split at h
      · cases h
        exact hs.callTo hn (by simp [hPc]) (by simp) trivial
      next p hDoc =>
        cases h
        exact hs.update hPc hDoc hOk hn
    next hPc => cases h; exact hs.callTo hn (by simp [hPc]) (by simp) trivial
    next hPc => cases h; exact hs.callTo hn (by simp [hPc]) (by simp) trivial
    next hPc => cases h; exact hs.callTo hn (by simp [hPc]) (by simp) trivial
    next hPc => cases h; exact hs.callTo hn (by simp [hPc]) (by simp) trivial
    next => cases h

theorem planned_store (s : World) (n : Nat) (p : Project) (now : Text) :
    (s.planned n p now).store = s.store := by
  simp only [World.planned]
  split <;> rfl

theorem callStep_store {t : World} {e : CallEv} (h : s.callStep n e = some t) :
    t.store = s.store ∨ e = .write ∧
      ((∃ id now p, (s.call n).pc = .creating id now ∧ t.store = s.store.put id p) ∨
        ∃ seen patch now p, (s.call n).pc = .updating seen patch now ∧
          s.store.doc (s.call n).project = some p ∧
          t.store = s.store.put (s.call n).project (patch.apply now p)) := by
  simp only [callStep] at h
  split at h
  next =>
    split at h
    · cases h
      exact .inl rfl
    · split at h <;> cases h
      · exact .inl rfl
      · exact .inl (planned_store _ _ _ _)
  next =>
    split at h
    next =>
      split at h
      · split at h <;> cases h <;> exact .inl rfl
      · split at h <;> cases h
        · exact .inl rfl
        · exact .inl (planned_store _ _ _ _)
    next => cases h
  next id now hPc =>
    obtain ⟨p, _, rfl⟩ := Option.map_eq_some_iff.mp h
    exact .inr ⟨rfl, .inl ⟨id, now, p, hPc, rfl⟩⟩
  next seen patch now hPc =>
    split at h <;> cases h
    · exact .inl rfl
    next p hDoc => exact .inr ⟨rfl, .inr ⟨seen, patch, now, p, hPc, hDoc, rfl⟩⟩
  next => cases h; exact .inl rfl
  next => cases h; exact .inl rfl
  next => cases h; exact .inl rfl
  next => cases h; exact .inl rfl
  next => cases h

theorem Serial.spares {a : ProjectAct} (hs : s.Serial store) (hOk : s.undisturbed a = true) :
    s.Spares a := by
  intro t h id p hDoc
  cases a with
  | request op project =>
    cases h
    exact ⟨p, hDoc, .inl rfl⟩
  | call n e =>
    rcases callStep_store h with hStore | ⟨rfl, ⟨id', now, q, hPc, hStore⟩ |
      ⟨seen, patch, now, q, hPc, hOwn, hStore⟩⟩
    · exact ⟨p, by rw [hStore, hDoc], .inl rfl⟩
    · have hne : id ≠ id' := by
        rintro rfl
        simp [undisturbed, hPc, hDoc] at hOk
      exact ⟨p, by rw [hStore, Store.put_of_ne _ _ hne, hDoc], .inl rfl⟩
    · rcases eq_or_ne id (s.call n).project with rfl | hne
      · cases Option.some.inj (hOwn.symm.trans hDoc)
        obtain ⟨hPlan, -⟩ := hs.plan_now hPc hOk hDoc
        exact ⟨_, by rw [hStore, Store.put_self],
          .inr ⟨n, .write, rfl, rfl, Op.plan_spares hPlan now⟩⟩
      · exact ⟨p, by rw [hStore, Store.put_of_ne _ _ hne, hDoc], .inl rfl⟩

end Steps

/-- The store is that of the calls that have returned ok, each alone, in some order. -/
def Serialisable (store : Store) (s : World) : Prop :=
  ∃ order : List Done, run Store.perform store order = some s.store ∧
    (order.map Done.call).Nodup ∧
    (∀ n < s.nextCall, n ∈ order.map Done.call ↔ (s.call n).pc = .replied true) ∧
    ∀ d ∈ order, d.call < s.nextCall ∧ d.op = (s.call d.call).op ∧
      (d.op.newProject d.now = none → d.project = (s.call d.call).project)

theorem Serial.serialisable {store : Store} {s : World} (hs : s.Serial store) :
    s.Serialisable store := by
  refine ⟨s.log, hs.explained, hs.once, fun n _ => hs.replied n, fun d hd => ⟨?_, hs.own d hd⟩⟩
  by_contra hLe
  have hReplied := (hs.replied d.call).mp (List.mem_map.mpr ⟨d, hd, rfl⟩)
  rw [hs.fresh d.call (Nat.le_of_not_lt hLe)] at hReplied
  cases hReplied

end World

/-- In every run whose writes find what the calls have read, the calls that return ok
have the effect of one after another, in some order; names, file keys and node ids stay
distinct, and every step leaves the users, files and frames alone that it is not about. -/
theorem project_operations_serialisable {store : Store} (hStore : store.Distinct)
    {acts : List ProjectAct}
    (hAlong : Along World.step (fun s a => s.undisturbed a = true) (.init store) acts) :
    Along World.step World.Spares (.init store) acts ∧
      ∀ s, run World.step (.init store) acts = some s →
        s.Serialisable store ∧ s.store.Distinct := by
  have hStep : ∀ (s : World) a t, s.Serial store → s.undisturbed a = true → s.step a = some t →
      t.Serial store := fun _ _ _ hs hOk h => hs.step hOk h
  refine ⟨Along.of_invariant (World.Serial store) (fun _ _ hs hOk => hs.spares hOk) hStep
    (World.serial_init hStore) hAlong, fun s hRun => ?_⟩
  have hs : s.Serial store := by
    refine (Reach.of_run hRun hAlong).invariant (World.serial_init hStore) ?_
    exact fun s a t _ hs hOk h => hStep s a t hs hOk h
  exact ⟨hs.serialisable, hs.distinct⟩

/-- A project without members. -/
def soloProject : Project where
  name := ['n']
  description := []
  status := activeStatus
  owners := []
  members := []
  figma := []
  createdAt := []
  updatedAt := []

def soloStore : Store where
  doc id := if id = ['p'] then some soloProject else none
  ids := [['p']]
  covered := by
    intro id h
    by_cases hId : id = ['p'] <;> simp_all

theorem soloStore_distinct : soloStore.Distinct := by
  constructor
  · intro i j p q hp hq _
    simp only [soloStore, Option.ite_none_right_eq_some] at hp hq
    rw [hp.1, hq.1]
  · intro i p hp
    simp only [soloStore, Option.ite_none_right_eq_some] at hp
    cases hp.2
    exact ⟨List.nodup_nil, fun _ hFile => (nomatch hFile)⟩

/-- Two users are added while the project is described, and archived in between. -/
def addedInTurn : List ProjectAct :=
  [.request (.addMember ['u'] []) ['p'], .request (.update none (some ['d']) none) ['p'],
    .call 1 (.get true ['1']), .call 0 (.get true ['2']), .request .archive ['p'], .call 0 .write,
    .call 2 (.get true ['3']), .call 1 .write, .request (.addMember ['v'] []) ['p'],
    .call 3 (.get true ['4']), .call 2 .write, .call 3 .write]

theorem addedInTurn_serialisable :
    ∃ s, run World.step (.init soloStore) addedInTurn = some s ∧ s.Serialisable soloStore ∧
      (s.store.doc ['p']).map Project.members = some [['u'], ['v']] := by
  obtain ⟨s, hRun, hs⟩ := exists_run_of_any World.step (.init soloStore) addedInTurn
    (fun s => (s.store.doc ['p']).map Project.members = some [['u'], ['v']]) (by decide)
  have hAlong : Along World.step (fun s a => s.undisturbed a = true) (.init soloStore)
      addedInTurn := by decide
  have hAll := project_operations_serialisable soloStore_distinct hAlong
  exact ⟨s, hRun, (hAll.2 s hRun).1, of_decide_eq_true hs⟩

/-- Two users are added at once. -/
def addedAtOnce : List ProjectAct :=
  [.request (.addMember ['u'] []) ['p'], .request (.addMember ['v'] []) ['p'],
    .call 0 (.get true ['1']), .call 1 (.get true ['2']), .call 0 .write, .call 1 .write]

theorem addedAtOnce_lost :
    ∃ s, run World.step (.init soloStore) addedAtOnce = some s ∧ ¬s.Serialisable soloStore := by
  obtain ⟨s, hRun, hs⟩ := exists_run_of_any World.step (.init soloStore) addedAtOnce
    (fun s => s.nextCall = 2 && s.call 0 = ⟨.addMember ['u'] memberRole, ['p'], .replied true⟩ &&
      s.call 1 = ⟨.addMember ['v'] memberRole, ['p'], .replied true⟩ &&
      (s.store.doc ['p']).map Project.members = some [['v']]) (by decide)
  simp only [Bool.and_eq_true, decide_eq_true_eq] at hs
  obtain ⟨⟨⟨hNext, hFirst⟩, hSecond⟩, hMembers⟩ := hs
  refine ⟨s, hRun, fun ⟨order, hOrder, hOnce, hReplied, hOwn⟩ => ?_⟩
  have hFirstIn := (hReplied 0 (by omega)).mpr (by rw [hFirst])
  have hSecondIn := (hReplied 1 (by omega)).mpr (by rw [hSecond])
  have hForm : ∀ d ∈ order, d = ⟨0, .addMember ['u'] memberRole, ['p'], d.now⟩ ∨
      d = ⟨1, .addMember ['v'] memberRole, ['p'], d.now⟩ := by
    rintro ⟨c, op, project, now⟩ hd
    obtain ⟨hLt, hOp, hProject⟩ := hOwn _ hd
    rw [hNext] at hLt
    have hCall : c = 0 ∨ c = 1 := by
      have hLt : c < 2 := hLt
      omega
    rcases hCall with rfl | rfl
    · rw [hFirst] at hOp hProject
      cases hOp
      cases hProject rfl
      exact .inl rfl
    · rw [hSecond] at hOp hProject
      cases hOp
      cases hProject rfl
      exact .inr rfl
  have hEnd : (run Store.perform soloStore order).map (fun t =>
      (t.doc ['p']).map Project.members) = some (some [['v']]) := by
    rw [hOrder, Option.map_some, hMembers]
  rcases order with _ | ⟨a, _ | ⟨b, _ | ⟨c, rest⟩⟩⟩
  · cases hFirstIn
  · simp only [List.map_singleton, List.mem_singleton] at hFirstIn hSecondIn
    omega
  · simp only [List.map_cons, List.map_nil, List.nodup_cons, List.mem_singleton] at hOnce
    rcases hForm a (by simp) with ha | ha <;> rcases hForm b (by simp) with hb | hb <;>
      rw [ha, hb] at hEnd hOnce
    · exact hOnce.1 rfl
    · cases hEnd
    · cases hEnd
    · exact hOnce.1 rfl
  · have ha := (hOwn a (by simp)).1
    have hb := (hOwn b (by simp)).1
    have hc := (hOwn c (by simp)).1
    simp only [List.map_cons, List.nodup_cons, List.mem_cons, not_or] at hOnce
    omega

end OpenSpoke.Projects
