import OpenSpoke.Hub.Entries
import OpenSpoke.Hub.FleetDocs

/-!
# Documents of `fleet_state` under overlapping calls

`_update_cluster_doc` and `fleet_state_upsert` read a document and write it whole. Beside
the documents go those in which each call that succeeds merges its fields in one step.
-/

namespace OpenSpoke.Hub

open Lts
open Python (Text)

/-- An upsert that leaves all else in the document. -/
def Upsert.merged (u : Upsert) (now : Text) (old : Option Fields) : Fields :=
  (createdAt, created now old) ::
    ((old.getD []).filter fun e => e.1 = Hub.extra) ++ (u.fields now ++ old.getD [])

/-- An upsert sets every field that a document has, and nothing is recorded there. -/
def Upsert.Covers (u : Upsert) (now : Text) (d : Fields) : Prop :=
  ∀ e ∈ d, e.1 ≠ Hub.extra ∧ (e.1 = createdAt ∨ ((u.fields now).get e.1).isSome = true)

instance (u : Upsert) (now : Text) (d : Fields) : Decidable (u.Covers now d) :=
  inferInstanceAs (Decidable (∀ e ∈ d, _))

theorem Upsert.Covers.get_extra {u : Upsert} {now : Text} {d : Fields} (h : u.Covers now d) :
    d.get Hub.extra = none := by
  rw [Fields.get, Option.map_eq_none_iff, Keyed.find_eq_none, List.mem_map]
  rintro ⟨e, he, hName⟩
  exact (h e he).1 hName

theorem Upsert.Covers.get_none {u : Upsert} {now k : Text} {d : Fields} (h : u.Covers now d)
    (hk : k ≠ createdAt) (hNone : (u.fields now).get k = none) : d.get k = none := by
  rw [Fields.get, Option.map_eq_none_iff, Keyed.find_eq_none, List.mem_map]
  rintro ⟨e, he, rfl⟩
  rcases (h e he).2 with hCreated | hSet
  · exact hk hCreated
  · rw [hNone] at hSet
    cases hSet

theorem Upsert.alike_merged {u : Upsert} {now : Text} {x y : Option Fields}
    (h : Option.Rel Alike x y) (hCovers : ∀ d ∈ x, u.Covers now d) :
    Alike (u.doc now x) (u.merged now y) := by
  have hNone : ∀ k, k ≠ createdAt → (u.fields now).get k = none →
      Fields.get (y.getD []) k = none := by
    intro k hk hSet
    cases h with
    | none => rfl
    | @some d e h =>
      have hd := (hCovers d rfl).get_none hk hSet
      by_cases hExtra : k = Hub.extra
      · have hLeaf := h.leaf
        rw [← hExtra, hd, Option.map_none] at hLeaf
        exact Option.map_eq_none_iff.mp hLeaf.symm
      · rw [Option.getD_some, ← h.fields k hExtra]
        exact hd
  have hFilter : ((y.getD []).filter fun e => e.1 = Hub.extra) = [] := by
    cases h with
    | none => rfl
    | @some d e h =>
      have hd := (hCovers d rfl).get_extra
      have hLeaf := h.leaf
      rw [hd, Option.map_none] at hLeaf
      have he : Fields.get e Hub.extra = none := Option.map_eq_none_iff.mp hLeaf.symm
      rw [Fields.get, Option.map_eq_none_iff, Keyed.find_eq_none, List.mem_map] at he
      rw [List.filter_eq_nil_iff]
      intro f hf hName
      exact he ⟨f, hf, of_decide_eq_true hName⟩
  apply Alike.of_get
  intro k
  rw [Upsert.doc, Upsert.merged, hFilter, Alike.rel_created h, List.cons_append, List.nil_append,
    Fields.get_cons, Fields.get_cons, Fields.get_append]
  split
  · rfl
  next hk =>
    cases hSet : (u.fields now).get k with
    | some v => rfl
    | none => rw [Option.none_or, hNone k (Ne.symm hk) hSet]

namespace Writers

inductive Op
  | upsert (u : Upsert) (now : Text)
  | record (name : Text) (fields : Fields) (now : Text)

inductive Pc
  | absent
  | upsertGet (u : Upsert) (now : Text)
  | upsertPut (u : Upsert) (now : Text) (kept : Value)
  | recordGet (name : Text) (fields : Fields) (now : Text)
  | recordPut (name : Text) (fields : Fields) (now : Text) (d : Fields)
  | done (saved : Bool)

structure World where
  docs : FleetIndex
  call : Nat → Pc
  -- the documents as they should be
  merged : Text → Option Fields

inductive Act
  | call (n : Nat) (op : Op)
  | request (n : Nat) (a : Answer)

def Op.begin : Op → Pc
  | upsert u now => .upsertGet u now
  | record name fields now => .recordGet name fields now

/-- The document that a call is about to write, and what is there afterwards. -/
def Pc.write (doc : Text → Option Text) : Pc → Option (Text × Fields)
  | upsertPut u now kept => (doc u.docId).map fun id => (id, (createdAt, kept) :: u.fields now)
  | recordPut name _ _ d => (doc (clusterDoc name)).map fun id => (id, d)
  | _ => none

/-- What should become of the document. -/
def Pc.merge (old : Option Fields) : Pc → Option Fields
  | upsertPut u now _ => some (u.merged now old)
  | recordPut name fields now _ => updateClusterDoc name fields now old
  | _ => old

namespace World

-- where the paths with ids lead
variable (doc : Text → Option Text) (w : World)

def goto (n : Nat) (pc : Pc) : World := { w with call := Function.update w.call n pc }

def read (id : Text) (a : Answer) : Option Fields :=
  if a = .answered then (doc id).bind w.docs.get else none

def finish (n : Nat) (a : Answer) : World :=
  match if a = .refused then none else (w.call n).write doc with
  | some (id, d) =>
    { w.goto n (.done (a = .answered)) with
      docs := w.docs.put id d
      merged := if a = .answered then Function.update w.merged id ((w.call n).merge (w.merged id))
        else w.merged }
  | none => w.goto n (.done false)

def step : Act → Option World
  | .call n op =>
    match w.call n with
    | .absent => some (w.goto n op.begin)
    | _ => none
  | .request n a =>
    match w.call n with
    | .upsertGet u now => some (w.goto n (.upsertPut u now (created now (w.read doc u.docId a))))
    | .recordGet name fields now =>
      match updateClusterDoc name fields now (w.read doc (clusterDoc name) a) with
      | some d => some (w.goto n (.recordPut name fields now d))
      | none => some (w.goto n (.done false))
    | .upsertPut .. | .recordPut .. => some (w.finish doc n a)
    | _ => none

end World

/-! ## Calls that do not get in each other's way -/

/-- What a call has read still holds of the document with this id, as far as it matters. -/
def Pc.Fits (doc : Text → Option Text) (id : Text) (d : Option Fields) : Pc → Prop
  | upsertPut u now kept => doc u.docId = some id → kept = created now d
  | recordPut name fields now e => doc (clusterDoc name) = some id →
    ∃ e', updateClusterDoc name fields now d = some e' ∧ Alike e e'
  | _ => True

def Prompt (doc : Text → Option Text) (w : World) (a : Answer) : Pc → Prop
  | .upsertGet .. | .recordGet .. => a = .answered
  | .upsertPut u now _ => a ≠ .lost ∧
    (a = .answered → ((doc u.docId).bind w.docs.get).all (fun d => u.Covers now d) = true)
  | .recordPut .. => a ≠ .lost
  | _ => True

instance (doc : Text → Option Text) (w : World) (a : Answer) : (pc : Pc) → Decidable (Prompt doc w a pc)
  | .upsertGet .. | .recordGet .. => inferInstanceAs (Decidable (a = _))
  | .upsertPut .. => inferInstanceAs (Decidable (_ ∧ _))
  | .recordPut .. => inferInstanceAs (Decidable (a ≠ _))
  | .absent | .done _ => .isTrue trivial

/-- A write leaves what the other calls have read as it is, as far as it matters to them. -/
def Undisturbed (doc : Text → Option Text) (w : World) (n : Nat) (a : Answer) : Prop :=
  a ≠ .refused → ∀ id d, (w.call n).write doc = some (id, d) →
    ∀ m, m ≠ n → (w.call m).Fits doc id (some d)

/-- Reads are answered, a request that fails does nothing, an upsert covers the document, and
no write comes between the read and the write of another call. -/
def Apart (doc : Text → Option Text) (w : World) : Act → Prop
  | .request n a => Prompt doc w a (w.call n) ∧ Undisturbed doc w n a
  | .call .. => True

structure Inv (doc : Text → Option Text) (w : World) : Prop where
  reads : ∀ n id, (w.call n).Fits doc id (w.docs.get id)
  docs : ∀ id, Option.Rel Alike (w.docs.get id) (w.merged id)

variable {doc : Text → Option Text} {w t : World} {n : Nat} {a : Answer}

theorem Inv.goto (h : Inv doc w) {pc : Pc} (hPc : ∀ id, pc.Fits doc id (w.docs.get id)) :
    Inv doc (w.goto n pc) where
  docs := h.docs
  reads m id := by
    by_cases hm : m = n
    · subst hm
      simpa [World.goto] using hPc id
    · simpa [World.goto, hm] using h.reads m id

theorem Inv.merge (h : Inv doc w) {id : Text} {d : Fields}
    (hWrite : (w.call n).write doc = some (id, d))
    (hPrompt : Prompt doc w .answered (w.call n)) :
    Option.Rel Alike (some d) ((w.call n).merge (w.merged id)) := by
  have hFits := h.reads n id
  cases hPc : w.call n with
  | upsertPut u now kept =>
    rw [hPc] at hWrite hPrompt hFits
    obtain ⟨k, hDoc, hEq⟩ := Option.map_eq_some_iff.mp hWrite
    cases hEq
    have hKept : kept = created now (w.docs.get id) := hFits hDoc
    have hCovers : ∀ d ∈ w.docs.get id, u.Covers now d := by
      intro d hd
      have hAll := hPrompt.2 rfl
      rw [hDoc, Option.bind_some, hd, Option.all_some] at hAll
      exact of_decide_eq_true hAll
    rw [hKept]
    exact .some (Upsert.alike_merged (h.docs id) hCovers)
  | recordPut name fields now e =>
    rw [hPc] at hWrite hFits
    obtain ⟨k, hDoc, hEq⟩ := Option.map_eq_some_iff.mp hWrite
    cases hEq
    obtain ⟨e', hUpdate, hAlike⟩ := hFits hDoc
    obtain ⟨e'', hMerge, hAlike'⟩ := Alike.rel_update (h.docs id) hUpdate
    rw [Pc.merge, hMerge]
    exact .some (hAlike.trans hAlike')
  | _ =>
    rw [hPc] at hWrite
    cases hWrite

theorem Prompt.answered {id : Text} {d : Fields} (h : Prompt doc w a (w.call n))
    (hWrite : (w.call n).write doc = some (id, d)) (hA : a ≠ .refused) : a = .answered := by
  have hLost : a ≠ .lost := by
    cases hPc : w.call n with
    | upsertPut u now kept =>
      rw [hPc] at h
      exact h.1
    | recordPut name fields now e =>
      rw [hPc] at h
      exact h
    | _ =>
      rw [hPc] at hWrite
      cases hWrite
  cases a with
  | refused => exact absurd rfl hA
  | lost => exact absurd rfl hLost
  | answered => rfl

theorem Inv.finish (h : Inv doc w) (hPrompt : Prompt doc w a (w.call n))
    (hApart : Undisturbed doc w n a) : Inv doc (w.finish doc n a) := by
  unfold World.finish
  split
  next id d hSome =>
    have hA : a ≠ .refused := by
      rintro rfl
      cases hSome
    rw [if_neg hA] at hSome
    obtain rfl := hPrompt.answered hSome hA
    constructor
    · intro m k
      by_cases hm : m = n
      · subst hm
        simp [World.goto, Pc.Fits]
      · simp only [World.goto, Function.update_of_ne hm]
        by_cases hk : k = id
        · rw [hk, DocIndex.get_put_self]
          exact hApart hA id d hSome m hm
        · rw [DocIndex.get_put_of_ne _ _ hk]
          exact h.reads m k
    · intro k
      change Option.Rel Alike ((w.docs.put id d).get k)
        (Function.update w.merged id ((w.call n).merge (w.merged id)) k)
      by_cases hk : k = id
      · rw [hk, DocIndex.get_put_self, Function.update_self]
        exact h.merge hSome hPrompt
      · rw [DocIndex.get_put_of_ne _ _ hk, Function.update_of_ne hk]
        exact h.docs k
  next => exact h.goto fun _ => trivial

theorem read_answered {id k : Text} (hDoc : doc id = some k) : w.read doc id .answered = w.docs.get k := by
  rw [World.read, if_pos rfl, hDoc, Option.bind_some]

theorem Inv.step (h : Inv doc w) {act : Act} (hOk : Apart doc w act)
    (hs : w.step doc act = some t) : Inv doc t := by
  cases act with
  | call n op =>
    simp only [World.step] at hs
    split at hs <;> cases hs
    apply h.goto
    intro id
    cases op with
    | upsert u now => trivial
    | record name fields now => trivial
  | request n a =>
    obtain ⟨hPrompt, hApart⟩ := hOk
    simp only [World.step] at hs
    split at hs
    next u now hPc =>
      cases hs
      rw [hPc] at hPrompt
      obtain rfl : a = .answered := hPrompt
      apply h.goto
      intro id hDoc
      rw [read_answered hDoc]
    next name fields now hPc =>
      rw [hPc] at hPrompt
      obtain rfl : a = .answered := hPrompt
      split at hs <;> cases hs
      next d hUpdate =>
        apply h.goto
        intro id hDoc
        rw [read_answered hDoc] at hUpdate
        exact ⟨d, hUpdate, .refl d⟩
      · exact h.goto fun _ => trivial
    · cases hs
      exact h.finish hPrompt hApart
    · cases hs
      exact h.finish hPrompt hApart
    · cases hs

/-! ## What a write leaves -/

/-- What the writes of the two kinds leave in a document. -/
structure Leaves (pc : Pc) (d e : Fields) : Prop where
  created : ∀ v, d.get createdAt = some v → v.isTrue = true → e.get createdAt = some v
  recorded : ∀ u now kept, pc = .upsertPut u now kept →
    ∀ k v, recordedIn d k = some v → recordedIn e k = some v
  texts : ∀ name fields now d', pc = .recordPut name fields now d' →
    e.get title = d.get title ∧ e.get content = d.get content

theorem Leaves.refl (pc : Pc) (d : Fields) : Leaves pc d d :=
  ⟨fun _ h _ => h, fun _ _ _ _ _ _ h => h, fun _ _ _ _ _ => ⟨rfl, rfl⟩⟩

theorem Inv.leaves (h : Inv doc w) {id : Text} {d e : Fields}
    (hWrite : (w.call n).write doc = some (id, e)) (hPrompt : Prompt doc w .answered (w.call n))
    (hd : w.docs.get id = some d) : Leaves (w.call n) d e := by
  have hFits := h.reads n id
  cases hPc : w.call n with
  | upsertPut u now kept =>
    rw [hPc] at hWrite hPrompt hFits
    obtain ⟨k, hDoc, hEq⟩ := Option.map_eq_some_iff.mp hWrite
    cases hEq
    have hKept : kept = created now (some d) := hd ▸ hFits hDoc
    have hCovers : u.Covers now d := by
      have hAll := hPrompt.2 rfl
      rw [hDoc, Option.bind_some, hd, Option.all_some] at hAll
      exact of_decide_eq_true hAll
    constructor
    · intro v hv hTrue
      rw [Fields.get_cons_self, hKept]
      simp only [created, Option.bind_some, hv, hTrue, if_true]
    · intro _ _ _ _ k v hv
      simp [recordedIn, extraOf, hCovers.get_extra] at hv
    · intro _ _ _ _ hEq
      cases hEq
  | recordPut name fields now e' =>
    rw [hPc] at hWrite hFits
    obtain ⟨k, hDoc, hEq⟩ := Option.map_eq_some_iff.mp hWrite
    cases hEq
    obtain ⟨d', hUpdate, hAlike⟩ := hFits hDoc
    rw [hd] at hUpdate
    have hSame : ∀ k, k ≠ extra → k ≠ updatedAt → Fields.get e k = d.get k := by
      intro k hExtra hUpdated
      exact (hAlike.fields k hExtra).trans (updateClusterDoc_get hUpdate hExtra hUpdated)
    constructor
    · intro v hv _
      rw [hSame createdAt createdAt_ne_extra (by decide)]
      exact hv
    · intro _ _ _ hEq
      cases hEq
    · intro _ _ _ _ _
      constructor
      · exact hSame title (by decide) (by decide)
      · exact hSame content (by decide) (by decide)
  | _ =>
    rw [hPc] at hWrite
    cases hWrite

theorem Inv.finish_leaves (h : Inv doc w) (hPrompt : Prompt doc w a (w.call n)) {id : Text}
    {d : Fields} (hd : w.docs.get id = some d) :
    ∃ e, (w.finish doc n a).docs.get id = some e ∧ Leaves (w.call n) d e := by
  unfold World.finish
  split
  next k e hSome =>
    have hA : a ≠ .refused := by
      rintro rfl
      cases hSome
    rw [if_neg hA] at hSome
    obtain rfl := hPrompt.answered hSome hA
    by_cases hk : id = k
    · subst hk
      exact ⟨e, DocIndex.get_put_self _ _ _, h.leaves hSome hPrompt hd⟩
    · refine ⟨d, ?_, .refl _ d⟩
      exact (DocIndex.get_put_of_ne _ _ hk).trans hd
  next => exact ⟨d, hd, .refl _ d⟩

theorem Inv.request_leaves (h : Inv doc w) (hPrompt : Prompt doc w a (w.call n))
    (hs : w.step doc (.request n a) = some t) {id : Text} {d : Fields}
    (hd : w.docs.get id = some d) : ∃ e, t.docs.get id = some e ∧ Leaves (w.call n) d e := by
  simp only [World.step] at hs
  split at hs
  · cases hs
    exact ⟨d, hd, .refl _ d⟩
  · split at hs <;> cases hs
    · exact ⟨d, hd, .refl _ d⟩
    · exact ⟨d, hd, .refl _ d⟩
  · cases hs
    exact h.finish_leaves hPrompt hd
  · cases hs
    exact h.finish_leaves hPrompt hd
  · cases hs

/-- The two indices, the calls on them under way. -/
structure Runs (E : Host) (doc : Text → Option Text) where
  start : Hub.World
  idle : ∀ u n, start.call u n = .absent
  docs : World
  free : ∀ n, docs.call n = .absent
  same : docs.merged = docs.docs.get

theorem Runs.inv {E : Host} (r : Runs E doc) : Inv doc r.docs where
  reads n id := by
    rw [r.free n]
    trivial
  docs id := by
    rw [r.same]
    cases r.docs.docs.get id with
    | none => exact .none
    | some d => exact .some (.refl d)

/-- Nothing is clobbered: `spoke_register` writes only where there is no entry, entries and
documents are what the calls that have succeeded make of them one by one, and each write
leaves what is the other's in the document, and the time of its creation. -/
theorem documents_kept {E : Host} (r : Runs E doc) {v : Hub.World} {entries : Text → Option Spoke}
    (hEntries : Reach (Hub.World.Twin.step E) (fun p => p.1.Apart E)
      (r.start, r.start.registry.get) (v, entries))
    (hDocs : Reach (World.step doc) (Apart doc) r.docs w) :
    (∀ u n s, v.call u n = .registering s → v.get E s.clusterName = none) ∧
    (∀ id, v.registry.get id = entries id) ∧
    (∀ id, Option.Rel Alike (w.docs.get id) (w.merged id)) ∧
    ∀ n a t, Apart doc w (.request n a) → w.step doc (.request n a) = some t →
      ∀ id d, w.docs.get id = some d → ∃ e, t.docs.get id = some e ∧ Leaves (w.call n) d e := by
  have hInv : Inv doc w := hDocs.invariant r.inv fun _ _ _ _ hInv hOk hs => hInv.step hOk hs
  obtain ⟨hSame, hNew⟩ := Hub.World.entries_kept r.idle hEntries
  refine ⟨hNew, hSame, hInv.docs, ?_⟩
  intro n a t hOk hs id d hd
  exact hInv.request_leaves hOk.1 hs hd

/-! ## A registration and an update, a record and another one -/

def aye : Text := ['a']

def blank : Hub.World := ⟨.empty, fun _ => .list [], fun _ _ => .absent, fun _ => none, []⟩

def plainHost : Host := ⟨fun _ => true, some, fun _ => none⟩

def noDocs : World := ⟨.empty, fun _ => .absent, fun _ => none⟩

def freshRuns : Runs plainHost some where
  start := blank
  idle _ _ := rfl
  docs := noDocs
  free _ := rfl
  same := rfl

def registerRun : List Hub.Act :=
  [.call aye 0 (.spokeRegister (World.spokeAt ['x']) []), .request aye 0 .answered,
    .request aye 0 .answered]

def updateRun : List Hub.Act :=
  [.call aye 1 (.spokeUpdate aye { Changes.nothing with notes := some ['n'] } []),
    .request aye 1 .answered, .request aye 1 .answered]

def bee : Text := ['b']

def status : Fields := [(aye, .text ['s'])]

def moreStatus : Fields := [(bee, .text ['t'])]

def recordRun : List Act := [.call 0 (.record aye status []), .request 0 .answered, .request 0 .answered]

def recordMoreRun : List Act :=
  [.call 1 (.record aye moreStatus []), .request 1 .answered, .request 1 .answered]

def Pc.idle : Pc → Bool
  | .absent | .done _ => true
  | _ => false

theorem Pc.fits_of_idle {pc : Pc} (h : pc.idle = true) (id : Text) (d : Option Fields) :
    pc.Fits doc id d := by
  cases pc <;> trivial

def Lone (doc : Text → Option Text) (n : Nat) (w : World) : Act → Prop
  | .call m _ => m = n
  | .request m a => m = n ∧ Prompt doc w a (w.call m)

instance : (act : Act) → Decidable (Lone doc n w act)
  | .call .. => inferInstanceAs (Decidable (_ = _))
  | .request .. => inferInstanceAs (Decidable (_ ∧ _))

def Alone (n : Nat) (w : World) : Prop := ∀ m, m ≠ n → (w.call m).idle = true

theorem Alone.next (h : Alone n w) (hEnded : (w.call n).idle = true) (n' : Nat) : Alone n' w := by
  intro m _
  by_cases hMine : m = n
  · rwa [hMine]
  · exact h m hMine

theorem Alone.apart (h : Alone n w) {act : Act} (hOk : Lone doc n w act) : Apart doc w act := by
  cases act with
  | call m op => trivial
  | request m a =>
    obtain ⟨rfl, hPrompt⟩ := hOk
    refine ⟨hPrompt, ?_⟩
    intro _ id d _ k hOther
    exact Pc.fits_of_idle (h k hOther) _ _

theorem Alone.goto (h : Alone n w) (pc : Pc) : Alone n (w.goto n pc) := by
  intro m hOther
  simp only [World.goto, Function.update_of_ne hOther]
  exact h m hOther

theorem Alone.step (h : Alone n w) {act : Act} (hOk : Lone doc n w act)
    (hs : w.step doc act = some t) : Alone n t := by
  cases act with
  | call m op =>
    obtain rfl : m = n := hOk
    simp only [World.step] at hs
    split at hs <;> cases hs
    exact h.goto _
  | request m a =>
    obtain ⟨rfl, -⟩ := hOk
    have hFinish : Alone m (w.finish doc m a) := by
      unfold World.finish
      split
      · intro k hOther
        exact (h.goto (.done (a = .answered))) k hOther
      · exact h.goto _
    simp only [World.step] at hs
    split at hs
    · cases hs
      exact h.goto _
    · split at hs <;> cases hs
      · exact h.goto _
      · exact h.goto _
    · cases hs
      exact hFinish
    · cases hs
      exact hFinish
    · cases hs

theorem Alone.reach {acts : List Act} (h : Alone n w) (hRun : run (World.step doc) w acts = some t)
    (hLone : Along (World.step doc) (Lone doc n) w acts) :
    Reach (World.step doc) (Apart doc) w t ∧ Alone n t := by
  constructor
  · exact .of_run hRun (hLone.of_invariant (Alone n) (fun _ _ hAlone hOk => hAlone.apart hOk)
      (fun _ _ _ hAlone hOk hs => hAlone.step hOk hs) h)
  · exact (Reach.of_run hRun hLone).invariant h fun _ _ _ _ hAlone hOk hs => hAlone.step hOk hs

theorem Alone.reach_next {first second : List Act} {u : World} (h : Alone n w)
    (hRun : run (World.step doc) w first = some t) (hLone : Along (World.step doc) (Lone doc n) w first)
    (hEnded : (t.call n).idle = true) {m : Nat} (hRun' : run (World.step doc) t second = some u)
    (hLone' : Along (World.step doc) (Lone doc m) t second) :
    Reach (World.step doc) (Apart doc) w u := by
  obtain ⟨hReach, hAlone⟩ := h.reach hRun hLone
  exact hReach.trans ((hAlone.next hEnded m).reach hRun' hLone').1

def textOf : Value → Option Text
  | .leaf _ t => some t
  | .object _ => none

def recordedText (w : World) (id k : Text) : Option Text :=
  ((w.docs.get id).bind (recordedIn · k)).bind textOf

def noted (p : Hub.World.Twin) : Bool := (p.2 aye).map Spoke.notes = some ['n']

def recordedBoth (w : World) : Bool :=
  recordedText w (clusterDoc aye) aye = some ['s'] ∧ recordedText w (clusterDoc aye) bee = some ['t']

theorem registered_and_recorded : ∃ v₀ v entries w₀ w,
    run (Hub.World.Twin.step plainHost) (blank, blank.registry.get) registerRun = some v₀ ∧
      run (Hub.World.Twin.step plainHost) v₀ updateRun = some (v, entries) ∧
      run (World.step some) noDocs recordRun = some w₀ ∧
      run (World.step some) w₀ recordMoreRun = some w ∧
      v.registry.get aye = entries aye ∧ (entries aye).map Spoke.notes = some ['n'] ∧
      Option.Rel Alike (w.docs.get (clusterDoc aye)) (w.merged (clusterDoc aye)) ∧
      recordedText w (clusterDoc aye) aye = some ['s'] ∧
      recordedText w (clusterDoc aye) bee = some ['t'] := by
  obtain ⟨v₀, hRun, hv₀⟩ := exists_run_of_any (Hub.World.Twin.step plainHost)
    (blank, blank.registry.get) registerRun (fun p => (p.1.call aye 0).idle &&
      decide (Along (Hub.World.Twin.step plainHost) (Hub.World.Lone plainHost aye 1) p updateRun) &&
      (run (Hub.World.Twin.step plainHost) p updateRun).any noted) (by decide)
  obtain ⟨w₀, hRecord, hw₀⟩ := exists_run_of_any (World.step some) noDocs recordRun
    (fun w => (w.call 0).idle &&
      decide (Along (World.step some) (Lone some 1) w recordMoreRun) &&
      (run (World.step some) w recordMoreRun).any recordedBoth) (by decide)
  simp only [Bool.and_eq_true, decide_eq_true_eq] at hv₀ hw₀
  obtain ⟨⟨hEnded, hLone⟩, hAny⟩ := hv₀
  obtain ⟨⟨hEnded', hLone'⟩, hAny'⟩ := hw₀
  obtain ⟨⟨v, entries⟩, hRun', hNotes⟩ := exists_run_of_any _ v₀ updateRun _ hAny
  obtain ⟨w, hRecord', hTexts⟩ := exists_run_of_any _ w₀ recordMoreRun _ hAny'
  have hReach := Hub.World.Alone.reach_next (u := aye) (n := 0) (fun _ _ _ => rfl) hRun (by decide)
    hEnded hRun' hLone
  have hReach' := Alone.reach_next (n := 0) (fun _ _ => rfl) hRecord (by decide) hEnded' hRecord' hLone'
  obtain ⟨-, hSame, hAlike, -⟩ := documents_kept freshRuns hReach hReach'
  exact ⟨v₀, v, entries, w₀, w, hRun, hRun', hRecord, hRecord', hSame aye, of_decide_eq_true hNotes,
    hAlike _, of_decide_eq_true hTexts⟩

/-- An upsert by another call, after the record. -/
def dropRun : List Act :=
  recordRun ++ [.call 1 (.upsert ⟨clusterDoc aye, aye, aye, aye, []⟩ []), .request 1 .answered,
    .request 1 .answered]

def saved : Pc → Bool
  | .done saved => saved
  | _ => false

/-- An upsert drops what has been recorded in the document. -/
theorem upsert_drops :
    (∃ w, run (World.step some) noDocs recordRun = some w ∧ saved (w.call 0) = true ∧
      recordedText w (clusterDoc aye) aye = some ['s']) ∧
    ∃ w, run (World.step some) noDocs dropRun = some w ∧ saved (w.call 1) = true ∧
      recordedText w (clusterDoc aye) aye = none := by
  constructor
  · obtain ⟨w, hRun, hw⟩ := exists_run_of_any (World.step some) noDocs recordRun
      (fun w => decide (saved (w.call 0) = true ∧
        recordedText w (clusterDoc aye) aye = some ['s'])) (by decide)
    exact ⟨w, hRun, of_decide_eq_true hw⟩
  · obtain ⟨w, hRun, hw⟩ := exists_run_of_any (World.step some) noDocs dropRun
      (fun w => decide (saved (w.call 1) = true ∧
        recordedText w (clusterDoc aye) aye = none)) (by decide)
    exact ⟨w, hRun, of_decide_eq_true hw⟩

end Writers

end OpenSpoke.Hub
