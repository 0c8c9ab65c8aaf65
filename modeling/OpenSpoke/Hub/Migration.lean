import OpenSpoke.Hub.FleetTools

/-!
# What is recorded of migrations

Calls of the migration tools, each by any user, in any order. The requests that record a
call are steps of their own.
-/

namespace OpenSpoke.Hub.Migration

open Lts
open Python (Text)

inductive Pc
  | absent
  | calling (t : Tool)
  | reading (t : Tool) (o : Outcome) (key : Text) (fields : Fields) (now : Text)
  | writing (t : Tool) (o : Outcome) (key : Text) (doc : Fields)
  -- the document that has been updated
  | done (t : Tool) (o : Outcome) (wrote : Option Text)

structure World where
  docs : FleetIndex
  call : Nat → Pc
  -- the status of the last call on a document that the spoke has executed
  last : Text → Option Text

/-- How texts are quoted, and the document that the path with an id leads to. -/
structure Host where
  quote : Text → Text
  doc : Text → Option Text

inductive Act
  | call (n : Nat) (t : Tool)
  -- what the user is allowed, the registry and the reply at the time of the call
  | reply (n : Nat) (allowed : Option Allowed) (clusters : List (Text × Spoke)) (r : Reply) (now : Text)
  | request (n : Nat) (a : Answer)

namespace World

variable (E : Host) (w : World)

def goto (n : Nat) (pc : Pc) : World := { w with call := Function.update w.call n pc }

/-- The document of the cluster that a call is about. -/
def subject (t : Tool) (o : Outcome) : Option Text :=
  (t.docKey ((o.result E.quote t.cluster).getD [])).map clusterDoc

def finish (n : Nat) (t : Tool) (o : Outcome) (wrote : Option Text) : World :=
  { w.goto n (.done t o wrote) with
    last :=
      match if o.executed then subject E t o else none with
      | some id => Function.update w.last id (some t.status)
      | none => w.last }

def read (key : Text) (a : Answer) : Option Fields :=
  if a = .answered then (E.doc (clusterDoc key)).bind w.docs.get else none

def put (id : Option Text) (d : Fields) : World :=
  match id with
  | some id => { w with docs := w.docs.put id d }
  | none => w

def step : Act → Option World
  | .call n t =>
    match w.call n with
    | .absent => some (w.goto n (.calling t))
    | _ => none
  | .reply n allowed clusters r now =>
    match w.call n with
    | .calling t =>
      let o := spokeCall allowed clusters t.cluster r
      match t.record (o.result E.quote t.cluster) now with
      | some (key, fields) => some (w.goto n (.reading t o key fields now))
      | none => some (w.finish E n t o none)
    | _ => none
  | .request n a =>
    match w.call n with
    | .reading t o key fields now =>
      match updateClusterDoc key fields now (w.read E key a) with
      | some d => some (w.goto n (.writing t o key d))
      | none => some (w.finish E n t o none)
    | .writing t o key d =>
      let id := if a = .refused then none else E.doc (clusterDoc key)
      some ((w.put id d).finish E n t o id)
    | _ => none

end World

/-! ## The condition -/

def statusOf (d : Fields) : Option Text :=
  match recordedIn d migrationStatus with
  | some (.leaf _ t) => some t
  | _ => none

namespace World

variable {E : Host} {w t : World} {n : Nat}

def ReplyOk (E : Host) (allowed : Option Allowed) (clusters : List (Text × Spoke)) (r : Reply) :
    Pc → Prop
  | .calling t =>
    let o := spokeCall allowed clusters t.cluster r
    o.Clear E.quote t.cluster ∧ (o.executed = true → (subject E t o).isSome = true)
  | _ => True

def RequestOk (E : Host) (w : World) (a : Answer) : Pc → Prop
  | .reading _ _ key _ _ => ((w.read E key a).all fun d => (extraOf d).isSome) = true
  | .writing _ _ key _ => a ≠ .refused ∧ E.doc (clusterDoc key) = some (clusterDoc key)
  | _ => True

/-- The text that the tool gets tells what has happened, and it can be recorded. -/
def Accurate (E : Host) (w : World) : Act → Prop
  | .call .. => True
  | .reply n allowed clusters r _ => ReplyOk E allowed clusters r (w.call n)
  | .request n a => RequestOk E w a (w.call n)

instance {allowed : Option Allowed} {clusters : List (Text × Spoke)} {r : Reply} :
    (pc : Pc) → Decidable (ReplyOk E allowed clusters r pc)
  | .calling _ => inferInstanceAs (Decidable (_ ∧ _))
  | .absent | .reading .. | .writing .. | .done .. => .isTrue trivial

instance {a : Answer} : (pc : Pc) → Decidable (RequestOk E w a pc)
  | .reading .. => inferInstanceAs (Decidable (_ = true))
  | .writing .. => inferInstanceAs (Decidable (_ ∧ _))
  | .absent | .calling _ | .done .. => .isTrue trivial

instance : (act : Act) → Decidable (w.Accurate E act)
  | .call .. => .isTrue trivial
  | .reply .. => inferInstanceAs (Decidable (ReplyOk ..))
  | .request .. => inferInstanceAs (Decidable (RequestOk ..))

/-! ## The invariant -/

def CallOk (E : Host) : Pc → Prop
  | .reading t o key fields _ => o.executed = true ∧ subject E t o = some (clusterDoc key) ∧
    fields.get migrationStatus = some (.text t.status)
  | .writing t o key d => o.executed = true ∧ subject E t o = some (clusterDoc key) ∧
    statusOf d = some t.status
  | .done t o wrote => wrote = (if o.executed = true then subject E t o else none) ∧
    (o.executed = true → (subject E t o).isSome = true)
  | _ => True

structure Inv (E : Host) (docs : FleetIndex) (w : World) : Prop where
  calls : ∀ n, CallOk E (w.call n)
  last : ∀ id s, w.last id = some s → (w.docs.get id).bind statusOf = some s
  untouched : ∀ id, w.last id = none → w.docs.get id = docs.get id

/-! ## Steps -/

theorem record_some {tool : Tool} {result : Option Text} {now key : Text} {fields : Fields}
    (h : tool.record result now = some (key, fields)) :
    ∃ r, result = some r ∧ ¬MentionsError r ∧ tool.docKey r = some key ∧
      fields.get migrationStatus = some (.text tool.status) := by
  unfold Tool.record at h
  split at h
  next r =>
    split at h
    · cases h
    next hNot =>
      obtain ⟨k, hKey, hEq⟩ := Option.map_eq_some_iff.mp h
      cases hEq
      refine ⟨r, rfl, hNot, hKey, ?_⟩
      unfold Tool.fields
      exact Fields.get_cons_self
  · cases h

theorem record_of_taken {tool : Tool} {o : Outcome} {now : Text}
    (hTaken : o.Taken E.quote tool.cluster) (hSubject : (subject E tool o).isSome = true) :
    tool.record (o.result E.quote tool.cluster) now ≠ none := by
  obtain ⟨r, hr, hNot⟩ := hTaken
  rw [subject, hr, Option.getD_some, Option.isSome_map] at hSubject
  obtain ⟨key, hKey⟩ := Option.isSome_iff_exists.mp hSubject
  simp [Tool.record, hr, hNot, hKey]

theorem statusOf_updated {tool : Tool} {name now : Text} {fields d : Fields}
    {existing : Option Fields} (h : updateClusterDoc name fields now existing = some d)
    (hStatus : fields.get migrationStatus = some (.text tool.status)) :
    statusOf d = some tool.status := by
  obtain ⟨old, hExtra, hOld⟩ := updateClusterDoc_extra h
  have hGet : old.get migrationStatus = some (.text tool.status) := by
    rw [hOld migrationStatus (by decide), hStatus, Option.some_or]
  have hNe : updatedAt ≠ migrationStatus := by decide
  rw [statusOf, recordedIn_object hExtra, Fields.get_cons, if_neg hNe, hGet]
  rfl

variable {docs : FleetIndex} {id : Text}

theorem Inv.goto (h : w.Inv E docs) {pc : Pc} (hPc : CallOk E pc) : (w.goto n pc).Inv E docs where
  last := h.last
  untouched := h.untouched
  calls m := by
    by_cases hm : m = n
    · subst hm
      simpa [World.goto] using hPc
    · simpa [World.goto, hm] using h.calls m

theorem Inv.ended (h : w.Inv E docs) {tool : Tool} {o : Outcome} (hNot : o.executed = false) :
    (w.finish E n tool o none).Inv E docs := by
  have hPc : CallOk E (.done tool o none) := by
    constructor
    · rw [if_neg (by simp [hNot])]
    · simp [hNot]
  have hSame : w.finish E n tool o none = w.goto n (.done tool o none) := by
    simp [World.finish, hNot, World.goto]
  rw [hSame]
  exact h.goto hPc

theorem Inv.updated (h : w.Inv E docs) {tool : Tool} {o : Outcome} {d : Fields}
    (hRan : o.executed = true) (hSubject : subject E tool o = some id)
    (hStatus : statusOf d = some tool.status) :
    ((w.put (some id) d).finish E n tool o (some id)).Inv E docs := by
  have hPc : CallOk E (.done tool o (some id)) := by
    constructor
    · rw [if_pos hRan, hSubject]
    · simp [hSubject]
  have hLast : ((w.put (some id) d).finish E n tool o (some id)).last =
      Function.update w.last id (some tool.status) := by
    simp [World.finish, World.put, World.goto, hRan, hSubject]
  constructor
  · exact (h.goto (n := n) hPc).calls
  · intro k s hk
    rw [hLast] at hk
    change ((w.docs.put id d).get k).bind statusOf = some s
    by_cases hId : k = id
    · subst hId
      rw [Function.update_self] at hk
      cases hk
      rw [DocIndex.get_put_self]
      exact hStatus
    · rw [Function.update_of_ne hId] at hk
      rw [DocIndex.get_put_of_ne _ _ hId]
      exact h.last k s hk
  · intro k hk
    rw [hLast] at hk
    change (w.docs.put id d).get k = docs.get k
    by_cases hId : k = id
    · subst hId
      rw [Function.update_self] at hk
      cases hk
    · rw [Function.update_of_ne hId] at hk
      rw [DocIndex.get_put_of_ne _ _ hId]
      exact h.untouched k hk

theorem Inv.step (h : w.Inv E docs) {act : Act} (hOk : w.Accurate E act)
    (hs : w.step E act = some t) : t.Inv E docs := by
  cases act with
  | call n tool =>
    simp only [World.step] at hs
    split at hs <;> cases hs
    exact h.goto trivial
  | reply n allowed clusters r now =>
    simp only [World.step] at hs
    rw [Accurate] at hOk
    split at hs
    next tool hPc =>
      rw [hPc] at hOk
      obtain ⟨hClear, hSubject⟩ := hOk
      have hTaken := Outcome.taken_iff.mpr hClear
      split at hs
      next key fields hRecord =>
        cases hs
        apply h.goto
        obtain ⟨text, hText, hNot, hKey, hStatus⟩ := record_some hRecord
        have hRan := hTaken.mp ⟨text, hText, hNot⟩
        refine ⟨hRan, ?_, hStatus⟩
        rw [subject, hText, Option.getD_some, hKey]
        rfl
      next hRecord =>
        cases hs
        apply h.ended
        cases hRan : (spokeCall allowed clusters tool.cluster r).executed with
        | false => rfl
        | true => exact absurd hRecord (record_of_taken (hTaken.mpr hRan) (hSubject hRan))
    · cases hs
  | request n a =>
    have hCall := h.calls n
    simp only [World.step] at hs
    rw [Accurate] at hOk
    split at hs
    next tool o key fields now hPc =>
      rw [hPc] at hOk hCall
      obtain ⟨hRan, hSubject, hStatus⟩ := hCall
      split at hs
      next d hDoc =>
        cases hs
        apply h.goto
        exact ⟨hRan, hSubject, statusOf_updated hDoc hStatus⟩
      next hDoc =>
        cases hRead : w.read E key a with
        | none => simp [hRead, updateClusterDoc] at hDoc
        | some src =>
          simp only [RequestOk, hRead, Option.all_some] at hOk
          simp only [hRead, updateClusterDoc, Option.map_eq_none_iff] at hDoc
          rw [hDoc] at hOk
          cases hOk
    next tool o key d hPc =>
      rw [hPc] at hOk hCall
      obtain ⟨hRan, hSubject, hStatus⟩ := hCall
      obtain ⟨hA, hDoc⟩ := hOk
      cases hs
      rw [if_neg hA, hDoc]
      exact h.updated hRan hSubject hStatus
    · cases hs

structure Initial (w : World) : Prop where
  absent : ∀ n, w.call n = .absent
  last : ∀ id, w.last id = none

theorem Initial.inv (h : w.Initial) : w.Inv E w.docs where
  calls n := by
    rw [h.absent n]
    trivial
  last id s hs := by
    rw [h.last id] at hs
    cases hs
  untouched _ _ := rfl

/-- A call updates the document of its cluster if the spoke has executed it and no document
otherwise; the status in a document is that of the last call on it that was executed, and
a document without one is as it was. -/
theorem migration_recorded {w₀ : World} (hInit : w₀.Initial)
    (h : Reach (World.step E) (Accurate E) w₀ w) :
    (∀ n tool o wrote, w.call n = .done tool o wrote →
      (wrote.isSome = true ↔ o.executed = true) ∧ ∀ id ∈ wrote, subject E tool o = some id) ∧
    ∀ id, match w.last id with
      | some status => (w.docs.get id).bind statusOf = some status
      | none => w.docs.get id = w₀.docs.get id := by
  have hInv : w.Inv E w₀.docs :=
    h.invariant hInit.inv fun _ _ _ _ hInv hOk hs => hInv.step hOk hs
  constructor
  · intro n tool o wrote hDone
    have hCall := hInv.calls n
    rw [hDone] at hCall
    obtain ⟨rfl, hSubject⟩ := hCall
    cases hRan : o.executed with
    | false => simp
    | true => simpa using hSubject hRan
  · intro id
    split
    next status hLast => exact hInv.last id status hLast
    next hLast => exact hInv.untouched id hLast

/-! ## Two installations -/

def aye : Text := ['a']

def plainHost : Host := ⟨fun t => t, some⟩

def spoke : Spoke := ⟨aye, ['x'], [], [], [], [], [], [], [], true, [], clusterKind, [], []⟩

def start : World := ⟨.empty, fun _ => .absent, fun _ => none⟩

/-- An agent is to be installed by someone who may reach these clusters. -/
def installRun (allowed : Option Allowed) : List Act :=
  [.call 0 (.agentInstall aye), .reply 0 allowed [(aye, spoke)] (.answered [['o', 'k']]) [],
    .request 0 .answered, .request 0 .answered]

def ended : Pc → Option (Bool × Option Text)
  | .done _ o wrote => some (o.executed, wrote)
  | _ => none

theorem ended_some {pc : Pc} {ran : Bool} {wrote : Option Text} (h : ended pc = some (ran, wrote)) :
    ∃ tool o, pc = .done tool o wrote ∧ o.executed = ran := by
  cases pc with
  | done tool o wrote =>
    cases h
    exact ⟨tool, o, rfl, rfl⟩
  | _ => cases h

theorem install_recorded : ∃ w, run (World.step plainHost) start (installRun none) = some w ∧
    ∃ tool o wrote, w.call 0 = .done tool o wrote ∧ wrote.isSome = true ∧
      (w.docs.get (clusterDoc aye)).bind statusOf = some "agent-installed".toList := by
  obtain ⟨w, hRun, hw⟩ := exists_run_of_any (World.step plainHost) start (installRun none)
    (fun w => decide (ended (w.call 0) = some (true, some (clusterDoc aye)) ∧
      w.last (clusterDoc aye) = some "agent-installed".toList)) (by decide)
  obtain ⟨hEnded, hLast⟩ := of_decide_eq_true hw
  obtain ⟨tool, o, hDone, hRan⟩ := ended_some hEnded
  have hOk : Along (World.step plainHost) (Accurate plainHost) start (installRun none) := by
    decide
  obtain ⟨hCalls, hDocs⟩ :=
    migration_recorded ⟨fun _ => rfl, fun _ => rfl⟩ (Reach.of_run hRun hOk)
  refine ⟨w, hRun, tool, o, _, hDone, (hCalls 0 tool o _ hDone).1.mpr hRan, ?_⟩
  have hStatus := hDocs (clusterDoc aye)
  rw [hLast] at hStatus
  exact hStatus

/-- The refusal of a user mentions no error, and is recorded as an installation. -/
theorem refusal_recorded :
    ∃ w, run (World.step plainHost) start (installRun (some (.list []))) = some w ∧
      ∃ tool o, w.call 0 = .done tool o (some (clusterDoc aye)) ∧ o.executed = false ∧
        (w.docs.get (clusterDoc aye)).bind statusOf = some "agent-installed".toList := by
  obtain ⟨w, hRun, hw⟩ := exists_run_of_any (World.step plainHost) start
    (installRun (some (.list [])))
    (fun w => decide (ended (w.call 0) = some (false, some (clusterDoc aye)) ∧
      (w.docs.get (clusterDoc aye)).bind statusOf = some "agent-installed".toList))
    (by decide +kernel)
  obtain ⟨hEnded, hStatus⟩ := of_decide_eq_true hw
  obtain ⟨tool, o, hDone, hRan⟩ := ended_some hEnded
  exact ⟨w, hRun, tool, o, hDone, hRan, hStatus⟩

end World

end OpenSpoke.Hub.Migration
