import Mathlib.Logic.Function.Basic
import OpenSpoke.Lib.Lts
import OpenSpoke.Mcp.Identity

/-!
# The user_acl index

`get_current_acl` looks the document of the caller up, brings it up to date, or registers
the caller if the lookup is not answered with 200. Every request to OpenSearch is a step
of its own, and may fail, with or without its effect.
-/

namespace OpenSpoke.Mcp

open Lts
open Python (Text)

structure AclDoc where
  username : Text
  displayName : Text
  email : Text
  allowedClusters : List Text
  allowedModules : List Text
  notes : Text
  createdAt : Text
  updatedAt : Text
  updatedBy : Text
  lastSeenAt : Text
  deriving DecidableEq

/-- What administrators give, and note about it. -/
def AclDoc.granted (d : AclDoc) : List Text × List Text × Text × Text × Text :=
  (d.allowedClusters, d.allowedModules, d.notes, d.createdAt, d.updatedBy)

/-- What a call of `_get_user_acl_doc` is about. -/
structure Caller where
  username : Text
  displayName : Text
  email : Text
  now : Text

/-- The `doc` of an update. -/
structure Partial where
  lastSeenAt : Text
  displayName : Option Text
  email : Option Text
  deriving DecidableEq

def Partial.of (c : Caller) (src : AclDoc) : Partial where
  lastSeenAt := c.now
  displayName :=
    if c.displayName ≠ [] ∧ src.displayName ≠ c.displayName then some c.displayName else none
  email := if c.email ≠ [] ∧ src.email ≠ c.email then some c.email else none

def AclDoc.update (d : AclDoc) (p : Partial) : AclDoc :=
  { d with
    lastSeenAt := p.lastSeenAt
    displayName := p.displayName.getD d.displayName
    email := p.email.getD d.email }

/-- The document of a user who is registered: nothing is allowed. -/
def Caller.register (c : Caller) : AclDoc where
  username := c.username
  displayName := if c.displayName ≠ [] then c.displayName else c.username
  email := c.email
  allowedClusters := []
  allowedModules := []
  notes := []
  createdAt := c.now
  updatedAt := c.now
  updatedBy := []
  lastSeenAt := c.now

inductive Acl
  | everything (username displayName : Text)
  | nothing
  | granted (doc : AclDoc)

inductive AclPc
  | absent
  -- `_ensure_user_acl_index`
  | heading
  | creating
  -- `_get_user_acl_doc`
  | getting
  | updating (src : AclDoc) (doc : Partial)
  | putting
  | done (acl : Acl)

structure AclCall where
  caller : Caller
  pc : AclPc

structure AclIndex where
  docs : Text → Option AclDoc
  -- `_user_acl_index_ensured`
  ensured : Bool
  call : Nat → AclCall

/-- What OpenSearch makes of paths with a user name in them. -/
structure Paths where
  -- the document that `/user_acl/_doc/` with the name addresses
  doc : Text → Option Text
  -- the document that `/user_acl/_update/` with the name addresses
  update : Text → Option Text

/-- The steps, which say whether a request is answered well, or whether it has its effect. -/
inductive AclAct
  | call (n : Nat) (payload : Payload) (now : Text)
  | head (n : Nat) (ok : Bool)
  | create (n : Nat) (ok : Bool)
  | get (n : Nat) (ok : Bool)
  | update (n : Nat) (applied : Bool)
  | put (n : Nat) (applied : Bool)
  -- what an administrator makes of a user's document
  | edit (username : Text) (doc : Option AclDoc)

namespace AclIndex

def init (docs : Text → Option AclDoc) : AclIndex where
  docs := docs
  ensured := false
  call _ := ⟨⟨[], [], [], []⟩, .absent⟩

variable (s : AclIndex)

def pc (n : Nat) : AclPc := (s.call n).pc

def caller (n : Nat) : Caller := (s.call n).caller

def goto (n : Nat) (pc : AclPc) : AclIndex :=
  { s with call := Function.update s.call n ⟨s.caller n, pc⟩ }

def put (id : Option Text) (doc : AclDoc) : AclIndex :=
  match id with
  | some id => { s with docs := Function.update s.docs id (some doc) }
  | none => s

/-- An update of a document that is not there does nothing. -/
def applyUpdate (id : Option Text) (doc : Partial) : AclIndex :=
  match id with
  | some id => { s with docs := Function.update s.docs id ((s.docs id).map (·.update doc)) }
  | none => s

def step (auth : Auth) (paths : Paths) (s : AclIndex) : AclAct → Option AclIndex
  | .call n payload now =>
    match s.pc n, auth.getCurrentAcl payload with
    | .absent, .admin username displayName =>
      some (s.goto n (.done (.everything username displayName)))
    | .absent, .nobody => some (s.goto n (.done .nothing))
    | .absent, .document username displayName email =>
      let c : Caller := ⟨username, displayName, email, now⟩
      let pc := if s.ensured then AclPc.getting else .heading
      some { s with call := Function.update s.call n ⟨c, pc⟩ }
    | _, _ => none
  | .head n ok =>
    match s.pc n with
    | .heading =>
      some (if ok then { s.goto n .getting with ensured := true } else s.goto n .creating)
    | _ => none
  | .create n ok =>
    match s.pc n with
    | .creating => some { s.goto n .getting with ensured := s.ensured || ok }
    | _ => none
  | .get n ok =>
    match s.pc n with
    | .getting =>
      match if ok then (paths.doc (s.caller n).username).bind s.docs else none with
      | some src => some (s.goto n (.updating src (.of (s.caller n) src)))
      | none => some (s.goto n .putting)
    | _ => none
  | .update n applied =>
    match s.pc n with
    | .updating src doc =>
      let s := s.goto n (.done (.granted (src.update doc)))
      some (if applied then s.applyUpdate (paths.update (s.caller n).username) doc else s)
    | _ => none
  | .put n applied =>
    match s.pc n with
    | .putting =>
      let doc := (s.caller n).register
      let s := s.goto n (.done (.granted doc))
      some (if applied then s.put (paths.doc (s.caller n).username) doc else s)
    | _ => none
  | .edit username doc => some { s with docs := Function.update s.docs username doc }

/-- Names address their own documents, a lookup fails only where there is no document, and
no document of a user comes into being while a call is about to register the user. -/
def Careful (auth : Auth) (paths : Paths) (s : AclIndex) : AclAct → Prop
  | .call _ payload _ => ∀ username displayName email,
      auth.getCurrentAcl payload = .document username displayName email →
      paths.doc username = some username ∧ paths.update username = some username
  | .get n ok => ok = false → s.docs (s.caller n).username = none
  | .put n true => ∀ m, m ≠ n → s.pc m = .putting →
      (s.caller m).username ≠ (s.caller n).username
  | .edit username (some _) => ∀ m, s.pc m = .putting → (s.caller m).username ≠ username
  | _ => True

end AclIndex

/-- The call of which a step is one. -/
def AclAct.actor : AclAct → Option Nat
  | .call n _ _ | .head n _ | .create n _ | .get n _ | .update n _ | .put n _ => some n
  | .edit _ _ => none

def AclPc.busy : AclPc → Bool
  | .absent | .done _ => false
  | _ => true

/-- The kinds of steps. -/
inductive AclMove (auth : Auth) (paths : Paths) (s : AclIndex) : AclAct → AclIndex → Prop
  | asks (n : Nat) (payload : Payload) (now : Text) (c : Caller) (pc : AclPc)
      (hPc : s.pc n = .absent)
      (hAcl : auth.getCurrentAcl payload = .document c.username c.displayName c.email)
      (hNext : pc ≠ .putting) :
      AclMove auth paths s (.call n payload now)
        { s with call := Function.update s.call n ⟨c, pc⟩ }
  -- a step without an effect on documents
  | goes (a : AclAct) (n : Nat) (pc : AclPc) (ensured : Bool) (hActor : a.actor = some n)
      (hBusy : pc.busy = true → (s.pc n).busy = true) (hNext : pc ≠ .putting) :
      AclMove auth paths s a { s.goto n pc with ensured := ensured }
  | misses (n : Nat) (ok : Bool) (hPc : s.pc n = .getting)
      (hMiss : ok = true → (paths.doc (s.caller n).username).bind s.docs = none) :
      AclMove auth paths s (.get n ok) (s.goto n .putting)
  | updates (n : Nat) (src : AclDoc) (doc : Partial) (pc : AclPc) (hPc : s.pc n = .updating src doc)
      (hNext : pc.busy = false) :
      AclMove auth paths s (.update n true)
        ((s.goto n pc).applyUpdate (paths.update (s.caller n).username) doc)
  | registers (n : Nat) (pc : AclPc) (hPc : s.pc n = .putting) (hNext : pc.busy = false) :
      AclMove auth paths s (.put n true)
        ((s.goto n pc).put (paths.doc (s.caller n).username) (s.caller n).register)
  | edits (username : Text) (doc : Option AclDoc) :
      AclMove auth paths s (.edit username doc)
        { s with docs := Function.update s.docs username doc }

namespace AclIndex

variable {auth : Auth} {paths : Paths} {s t : AclIndex} {a : AclAct} {n m : Nat}

theorem caller_goto {pc : AclPc} : (s.goto n pc).caller m = s.caller m := by
  by_cases h : m = n
  · subst h
    simp [goto, AclIndex.caller]
  · simp [goto, AclIndex.caller, h]

theorem pc_goto_self {pc : AclPc} : (s.goto n pc).pc n = pc := by simp [goto, AclIndex.pc]

theorem pc_goto_of_ne {pc : AclPc} (h : m ≠ n) : (s.goto n pc).pc m = s.pc m := by
  simp [goto, AclIndex.pc, h]

theorem step_move (h : s.step auth paths a = some t) : AclMove auth paths s a t := by
  cases a with
  | call n payload now =>
    cases hPc : s.pc n <;> cases hAcl : auth.getCurrentAcl payload <;>
      simp only [step, hPc, hAcl] at h
    case absent.document username displayName email =>
      cases h
      refine .asks n payload now ⟨username, displayName, email, now⟩ _ hPc hAcl ?_
      split <;> exact AclPc.noConfusion
    case absent.admin =>
      cases h
      exact .goes _ n _ s.ensured rfl (fun h => nomatch h) AclPc.noConfusion
    case absent.nobody =>
      cases h
      exact .goes _ n _ s.ensured rfl (fun h => nomatch h) AclPc.noConfusion
    all_goals cases h
  | head n ok =>
    cases hPc : s.pc n <;> simp only [step, hPc] at h
    case heading =>
      have hBusy : (s.pc n).busy = true := by rw [hPc]; rfl
      cases ok with
      | true =>
        cases h
        exact .goes _ n .getting true rfl (fun _ => hBusy) AclPc.noConfusion
      | false =>
        cases h
        exact .goes _ n .creating s.ensured rfl (fun _ => hBusy) AclPc.noConfusion
    all_goals cases h
  | create n ok =>
    cases hPc : s.pc n <;> simp only [step, hPc] at h
    case creating =>
      cases h
      exact .goes _ n .getting _ rfl (fun _ => by rw [hPc]; rfl) AclPc.noConfusion
    all_goals cases h
  | get n ok =>
    cases hPc : s.pc n <;> simp only [step, hPc] at h
    case getting =>
      split at h
      next src hFound =>
        cases h
        exact .goes _ n _ s.ensured rfl (fun _ => by rw [hPc]; rfl) AclPc.noConfusion
      next hMiss =>
        cases h
        exact .misses n ok hPc fun hOk => by simpa [hOk] using hMiss
    all_goals cases h
  | update n applied =>
    cases hPc : s.pc n <;> simp only [step, hPc] at h
    case updating src doc =>
      cases applied with
      | true =>
        cases h
        rw [if_pos rfl, caller_goto]
        exact .updates n src doc _ hPc rfl
      | false =>
        cases h
        exact .goes _ n _ s.ensured rfl (fun h => nomatch h) AclPc.noConfusion
    all_goals cases h
  | put n applied =>
    cases hPc : s.pc n <;> simp only [step, hPc] at h
    case putting =>
      cases applied with
      | true =>
        cases h
        rw [if_pos rfl, caller_goto]
        exact .registers n _ hPc rfl
      | false =>
        cases h
        exact .goes _ n _ s.ensured rfl (fun h => nomatch h) AclPc.noConfusion
    all_goals cases h
  | edit username doc =>
    cases h
    exact .edits username doc

/-! ## Documents of others -/

/-- A call that makes requests yet addresses the document of its user, which is not there
when it is to be registered. -/
structure Addressed (paths : Paths) (s : AclIndex) : Prop where
  own : ∀ n, (s.pc n).busy = true → paths.doc (s.caller n).username = some (s.caller n).username ∧
    paths.update (s.caller n).username = some (s.caller n).username
  fresh : ∀ n, s.pc n = .putting → s.docs (s.caller n).username = none

theorem Addressed.init (docs : Text → Option AclDoc) : Addressed paths (init docs) where
  own n hBusy := by cases hBusy
  fresh n hPc := by cases hPc

theorem Addressed.goto (h : Addressed paths s) {pc : AclPc}
    (hBusy : pc.busy = true → (s.pc n).busy = true)
    (hFresh : pc = .putting → s.docs (s.caller n).username = none) : Addressed paths (s.goto n pc) where
  own m hm := by
    rw [caller_goto]
    by_cases hmn : m = n
    · rw [hmn, pc_goto_self] at hm
      exact hmn ▸ h.own n (hBusy hm)
    · rw [pc_goto_of_ne hmn] at hm
      exact h.own m hm
  fresh m hm := by
    rw [caller_goto]
    by_cases hmn : m = n
    · rw [hmn, pc_goto_self] at hm
      exact hmn ▸ hFresh hm
    · rw [pc_goto_of_ne hmn] at hm
      exact h.fresh m hm

theorem Addressed.of_docs (h : Addressed paths s) {docs : Text → Option AclDoc}
    (hNone : ∀ n, s.pc n = .putting → s.docs (s.caller n).username = none →
      docs (s.caller n).username = none) : Addressed paths { s with docs := docs } where
  own := h.own
  fresh n hPc := hNone n hPc (h.fresh n hPc)

theorem applyUpdate_own (h : Addressed paths s) (hBusy : (s.pc n).busy = true) (pc : AclPc)
    (doc : Partial) : (s.goto n pc).applyUpdate (paths.update (s.caller n).username) doc =
      { s.goto n pc with
        docs := Function.update s.docs (s.caller n).username
          ((s.docs (s.caller n).username).map (·.update doc)) } := by
  rw [(h.own n hBusy).2]
  rfl

theorem put_own (h : Addressed paths s) (hBusy : (s.pc n).busy = true) (pc : AclPc)
    (doc : AclDoc) : (s.goto n pc).put (paths.doc (s.caller n).username) doc =
      { s.goto n pc with docs := Function.update s.docs (s.caller n).username (some doc) } := by
  rw [(h.own n hBusy).1]
  rfl

theorem not_putting {pc : AclPc} (h : pc.busy = false) : pc ≠ .putting := fun hEq => by
  rw [hEq] at h
  cases h

theorem Addressed.move (h : Addressed paths s) (hMove : AclMove auth paths s a t)
    (hCareful : s.Careful auth paths a) : Addressed paths t := by
  cases hMove with
  | asks n payload now c pc hPc hAcl hNext =>
    refine ⟨fun m hm => ?_, fun m hm => ?_⟩
    · by_cases hmn : m = n
      · subst hmn
        simpa [AclIndex.caller] using hCareful c.username c.displayName c.email hAcl
      · simpa [AclIndex.caller, hmn] using h.own m (by simpa [AclIndex.pc, hmn] using hm)
    · by_cases hmn : m = n
      · subst hmn
        exact absurd (by simpa [AclIndex.pc] using hm) hNext
      · simpa [AclIndex.caller, hmn] using h.fresh m (by simpa [AclIndex.pc, hmn] using hm)
  | goes a n pc ensured hActor hBusy hNext =>
    have hGoto := h.goto hBusy fun hPc => absurd hPc hNext
    exact ⟨hGoto.own, hGoto.fresh⟩
  | misses n ok hPc hMiss =>
    have hBusy : (s.pc n).busy = true := by rw [hPc]; rfl
    refine h.goto (fun _ => hBusy) fun _ => ?_
    cases ok with
    | true => simpa [(h.own n hBusy).1] using hMiss rfl
    | false => exact hCareful rfl
  | updates n src doc pc hPc hNext =>
    have hBusy : (s.pc n).busy = true := by rw [hPc]; rfl
    rw [applyUpdate_own h hBusy]
    refine (h.goto (fun hm => by rw [hNext] at hm; cases hm)
      fun hm => absurd hm (not_putting hNext)).of_docs fun m _ hNone => ?_
    by_cases hUser : ((s.goto n pc).caller m).username = (s.caller n).username
    · rw [hUser, Function.update_self, ← hUser]
      simp [show s.docs _ = none from hNone]
    · rw [Function.update_of_ne hUser]
      exact hNone
  | registers n pc hPc hNext =>
    have hBusy : (s.pc n).busy = true := by rw [hPc]; rfl
    rw [put_own h hBusy]
    refine (h.goto (fun hm => by rw [hNext] at hm; cases hm)
      fun hm => absurd hm (not_putting hNext)).of_docs fun m hm hNone => ?_
    by_cases hmn : m = n
    · rw [hmn, pc_goto_self] at hm
      exact absurd hm (not_putting hNext)
    · rw [pc_goto_of_ne hmn] at hm
      rw [caller_goto] at hNone ⊢
      rw [Function.update_of_ne (hCareful m hmn hm)]
      exact hNone
  | edits username doc =>
    refine h.of_docs fun m hm hNone => ?_
    by_cases hUser : (s.caller m).username = username
    · cases doc with
      | none => rw [hUser, Function.update_self]
      | some d => exact absurd hUser (hCareful m hm)
    · rw [Function.update_of_ne hUser]
      exact hNone

/-- What a step may do to documents. -/
structure OnlyByEdits (s : AclIndex) (a : AclAct) (t : AclIndex) : Prop where
  -- what administrators give is changed by their edits
  granted : ∀ u d, s.docs u = some d → (∀ doc, a ≠ .edit u doc) →
    ∃ d', t.docs u = some d' ∧ d'.granted = d.granted
  -- a registration is of a user without a document
  registers : ∀ n u, a = .put n true → t.docs u ≠ s.docs u →
    u = (s.caller n).username ∧ s.docs u = none
  -- a call leaves the documents of other users alone
  own : ∀ n u, a.actor = some n → u ≠ (s.caller n).username → t.docs u = s.docs u

theorem OnlyByEdits.of_docs_eq (hDocs : t.docs = s.docs) : OnlyByEdits s a t where
  granted u d hDoc _ := ⟨d, by rw [hDocs, hDoc], rfl⟩
  registers n u _ hChanged := absurd (congrFun hDocs u) hChanged
  own n u _ _ := congrFun hDocs u

/-- In a run whose steps are careful the documents of users change only by edits of
administrators, apart from what each user's own calls note. -/
theorem acl_changed_by_edits {docs : Text → Option AclDoc}
    (h : Reach (step auth paths) (Careful auth paths) (init docs) s)
    (hStep : step auth paths s a = some t) (hCareful : s.Careful auth paths a) :
    OnlyByEdits s a t := by
  have hs : Addressed paths s := h.invariant (Addressed.init docs)
    fun _ _ _ _ hInv hOk hs => hInv.move (step_move hs) hOk
  cases step_move hStep with
  | asks | goes | misses => exact .of_docs_eq rfl
  | updates n src doc pc hPc =>
    have hBusy : (s.pc n).busy = true := by rw [hPc]; rfl
    rw [applyUpdate_own hs hBusy]
    refine ⟨fun u d hDoc _ => ?_, fun m u hPut _ => (nomatch hPut), fun m u hActor hne => ?_⟩
    · by_cases hUser : u = (s.caller n).username
      · refine ⟨d.update doc, ?_, rfl⟩
        subst hUser
        exact (Function.update_self _ _ _).trans (congrArg (Option.map (·.update doc)) hDoc)
      · exact ⟨d, (Function.update_of_ne hUser _ _).trans hDoc, rfl⟩
    · cases hActor
      exact Function.update_of_ne hne _ _
  | registers n pc hPc =>
    have hBusy : (s.pc n).busy = true := by rw [hPc]; rfl
    have hFresh := hs.fresh n hPc
    rw [put_own hs hBusy]
    refine ⟨fun u d hDoc _ => ⟨d, ?_, rfl⟩, fun m u hPut hChanged => ?_, fun m u hActor hne => ?_⟩
    · have hne : u ≠ (s.caller n).username := fun hUser => by
        rw [hUser, hFresh] at hDoc
        cases hDoc
      exact (Function.update_of_ne hne _ _).trans hDoc
    · cases hPut
      have hUser : u = (s.caller n).username := by
        by_contra hne
        exact hChanged (Function.update_of_ne hne _ _)
      exact ⟨hUser, hUser ▸ hFresh⟩
    · cases hActor
      exact Function.update_of_ne hne _ _
  | edits username doc =>
    refine ⟨fun u d hDoc hEdit => ⟨d, ?_, rfl⟩, fun m u hPut _ => (nomatch hPut),
      fun m u hActor _ => (nomatch hActor)⟩
    have hne : u ≠ username := fun hUser => hEdit doc (hUser ▸ rfl)
    exact (Function.update_of_ne hne _ _).trans hDoc

end AclIndex

/-! ## A lookup that fails -/

/-- The document of a user who may use cluster c. -/
def annDoc : AclDoc := ⟨['a', 'n', 'n'], [], [], [['c']], [['m']], [], ['1'], ['1'], ['r'], ['1']⟩

def annDocs : Text → Option AclDoc := Function.update (fun _ => none) ['a', 'n', 'n'] (some annDoc)

def ann : Payload := ⟨['a', 'n', 'n'], [], [], [], []⟩

/-- Nobody is an administrator by name. -/
def noBootstrap : Auth := ⟨['k'], fun _ => none, []⟩

/-- Every name addresses its own document. -/
def plainPaths : Paths := ⟨some, some⟩

/-- A call of a registered user, whose lookup is answered or fails. -/
def annCalls (ok : Bool) : List AclAct := [.call 0 ann ['2'], .head 0 true, .get 0 ok]

theorem answered_kept : ∃ s t,
    run (AclIndex.step noBootstrap plainPaths) (.init annDocs) (annCalls true) = some s ∧
      AclIndex.step noBootstrap plainPaths s (.update 0 true) = some t ∧
      AclIndex.OnlyByEdits s (.update 0 true) t := by
  obtain ⟨s, hRun, hs⟩ := exists_run_of_any (AclIndex.step noBootstrap plainPaths) (.init annDocs)
    (annCalls true) (fun s => (s.step noBootstrap plainPaths (.update 0 true)).isSome) (by decide)
  obtain ⟨t, hStep⟩ := Option.isSome_iff_exists.mp hs
  have hAlong : Along (AclIndex.step noBootstrap plainPaths)
      (AclIndex.Careful noBootstrap plainPaths) (.init annDocs) (annCalls true) := by
    refine ⟨fun username displayName email hAcl => ⟨rfl, rfl⟩, fun t hs => ⟨trivial, fun u hu => ?_⟩⟩
    exact ⟨fun hFalse => (nomatch hFalse), fun _ _ => trivial⟩
  exact ⟨s, t, hRun, hStep, AclIndex.acl_changed_by_edits (.of_run hRun hAlong) hStep trivial⟩

/-- A lookup that fails takes a user's grants away, without an edit. -/
theorem failed_resets : ∃ s t,
    run (AclIndex.step noBootstrap plainPaths) (.init annDocs) (annCalls false) = some s ∧
      AclIndex.step noBootstrap plainPaths s (.put 0 true) = some t ∧
      (t.docs ['a', 'n', 'n']).map AclDoc.allowedClusters = some [] ∧
      ¬AclIndex.OnlyByEdits s (.put 0 true) t := by
  obtain ⟨s, hRun, hs⟩ := exists_run_of_any (AclIndex.step noBootstrap plainPaths) (.init annDocs)
    (annCalls false) (fun s => decide (s.docs ['a', 'n', 'n'] = some annDoc) &&
      (s.step noBootstrap plainPaths (.put 0 true)).any fun t =>
        (t.docs ['a', 'n', 'n']).map AclDoc.allowedClusters = some []) (by decide)
  rw [Bool.and_eq_true, decide_eq_true_eq, Option.any_eq_true] at hs
  obtain ⟨hDoc, t, hStep, hReset⟩ := hs
  have hReset := of_decide_eq_true hReset
  refine ⟨s, t, hRun, hStep, hReset, fun hOnly => ?_⟩
  obtain ⟨d, hNew, hGranted⟩ := hOnly.granted _ annDoc hDoc fun doc hEdit => by cases hEdit
  have hClusters : d.allowedClusters = [['c']] := congrArg Prod.fst hGranted
  rw [hNew, Option.map_some, hClusters] at hReset
  cases hReset

end OpenSpoke.Mcp
