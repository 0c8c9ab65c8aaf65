import OpenSpoke.Hub.Publisher

/-!
# What the publisher keeps

If the tools and the publisher write different documents, and a put fails only where nothing
is stored, the published documents are what Fleet has reported.
-/

namespace OpenSpoke.Hub.Publisher

open DocIndex (Answer)
open Lts
open Python (Text)

/-! ## Ids and objects -/

def kinds : List Kind := [.cluster, .gitrepo, .bundle, .bundleDeployment]

theorem mem_kinds (k : Kind) : k ∈ kinds := by
  cases k <;> decide

theorem kind_text_injective {k l : Kind} (h : k.text = l.text) : k = l := by
  cases k <;> cases l <;> first | rfl | exact absurd h (by decide)

theorem append_underscores {ns ns' name name' : Text} (hNs : '_' ∉ ns) (hNs' : '_' ∉ ns')
    (h : ns ++ ['_', '_'] ++ name = ns' ++ ['_', '_'] ++ name') : ns = ns' ∧ name = name' := by
  have hBefore : ∀ t rest : Text, '_' ∉ t →
      (t ++ ['_', '_'] ++ rest).takeWhile (· ≠ '_') = t := by
    intro t rest ht
    rw [List.append_assoc, List.takeWhile_append_of_pos]
    · simp
    · intro c hc
      apply decide_eq_true
      rintro rfl
      exact ht hc
  have hEq : ns = ns' := by
    rw [← hBefore ns name hNs, ← hBefore ns' name' hNs', h]
  rw [hEq] at h
  exact ⟨hEq, List.append_cancel_left h⟩

theorem clusterDoc_eq (name : Text) :
    clusterDoc name = ['c', 'l', 'u', 's', 't', 'e', 'r', ':'] ++ name := by
  have hTag : "cluster:".toList = ['c', 'l', 'u', 's', 't', 'e', 'r', ':'] := by decide
  unfold clusterDoc
  rw [hTag]

theorem docId_eq_iff {k k' : Kind} {ns ns' name name' : Text} (hNs : '_' ∉ ns) (hNs' : '_' ∉ ns') :
    docId k ns name = docId k' ns' name' ↔
      k = k' ∧ name = name' ∧ (k = .bundleDeployment → ns = ns') := by
  constructor
  · intro h
    have hTags := congrArg (List.take 2) h
    cases k <;> cases k' <;> simp only [docId, clusterDoc_eq] at h hTags
    case cluster.cluster | gitrepo.gitrepo | bundle.bundle =>
      exact ⟨rfl, List.append_cancel_left h, nofun⟩
    case bundleDeployment.bundleDeployment =>
      rw [List.append_assoc ['b', 'd', ':'], List.append_assoc ['b', 'd', ':'],
        List.append_assoc ['b', 'd', ':'], List.append_assoc ['b', 'd', ':']] at h
      obtain ⟨rfl, rfl⟩ := append_underscores hNs hNs' (List.append_cancel_left h)
      exact ⟨rfl, rfl, fun _ => rfl⟩
    all_goals simp at hTags
  · rintro ⟨rfl, rfl, hSame⟩
    cases k with
    | bundleDeployment => rw [hSame rfl]
    | cluster | gitrepo | bundle => rfl

theorem aggregatedAt_ne_kindField : aggregatedAt ≠ kindField := by decide

/-- The document of an object says its kind, and when it was published. -/
structure Object.At (o : Object) (k : Kind) (time : Text) : Prop where
  kind : o.kind = k
  tells : kindOf o.doc = some k.text
  stamp : o.doc.get aggregatedAt = some (.text time)

theorem published_at (k : Kind) (time : Text) (objectName ns : Value) (rest : Fields) :
    (published k time objectName ns rest).At k time where
  kind := rfl
  tells := by
    rw [kindOf, published, Fields.get_cons, if_neg aggregatedAt_ne_kindField, Fields.get_cons_self]
    rfl
  stamp := Fields.get_cons_self

variable {r : Report} {time : Text} {o : Object} {k : Kind}

theorem objects_at (h : o ∈ r.objects time k) : o.At k time := by
  cases k with
  | cluster | gitrepo | bundle | bundleDeployment =>
    obtain ⟨x, -, rfl⟩ := List.mem_map.mp h
    exact published_at ..

theorem mem_all : o ∈ r.all time ↔ o ∈ r.objects time o.kind := by
  constructor
  · intro h
    obtain ⟨k, -, hk⟩ := List.mem_flatMap.mp h
    rw [(objects_at hk).kind]
    exact hk
  · intro h
    exact List.mem_flatMap.mpr ⟨o.kind, mem_kinds o.kind, h⟩

theorem Object.At.not_stale (h : o.At k time) (l : Kind) : stale l time o.doc = false := by
  rw [stale, h.stamp, Option.any_some]
  have hNot : ¬str (.text time) < time := List.lt_irrefl time
  rw [decide_eq_false hNot, Bool.and_false]

theorem stale_kind {d : Fields} (h : stale k time d = true) : kindOf d = some k.text :=
  of_decide_eq_true (Bool.and_eq_true _ _ ▸ h).1

/-! ## The condition -/

/-- Two objects of one kind share a name only if they are deployments. -/
def Object.Apart (o p : Object) : Prop :=
  o.kind = p.kind → o.name = p.name → o.kind = .bundleDeployment ∧ o.ns ≠ p.ns

instance : DecidableRel Object.Apart := fun _ _ => inferInstanceAs (Decidable (_ → _ → _ ∧ _))

def Report.ids (r : Report) (time : Text) : List Text := (r.all time).map Object.id

namespace World

-- where the paths with ids lead
variable (doc : Text → Option Text) (w : World)

/-- A report in which only deployments share a name, of documents that no tool has written. -/
structure Fetches (r : Report) (time : Text) : Prop where
  names : (r.all time).Pairwise Object.Apart
  plain : ∀ o ∈ r.all time, '_' ∉ o.ns
  apart : ∀ id ∈ r.ids time, doc id = some id ∧ w.recorded id = []
  partly : ∀ k ∈ kinds, r.complete k = false → (r.objects time k).isEmpty
  rest : ∀ k ∈ kinds, r.complete k → ∀ d ∈ w.docs.docs, kindOf d.2 = some k.text →
    d.1 ∈ (r.objects time k).map Object.id ∨
      ((r.objects time k).isEmpty = false ∧ stale k time d.2)

instance (r : Report) (time : Text) : Decidable (w.Fetches doc r time) :=
  decidable_of_iff (_ ∧ _ ∧ _ ∧ _ ∧ _)
    ⟨fun ⟨h₁, h₂, h₃, h₄, h₅⟩ => ⟨h₁, h₂, h₃, h₄, h₅⟩,
      fun ⟨h₁, h₂, h₃, h₄, h₅⟩ => ⟨h₁, h₂, h₃, h₄, h₅⟩⟩

/-- The cycle in progress does not report an object with this id. -/
def Unreported (id : Text) : Prop := ∀ c ∈ w.cycle, id ∉ c.report.ids c.time

instance (id : Text) : Decidable (w.Unreported id) := inferInstanceAs (Decidable (∀ c ∈ _, _))

/-- What a tool writes is what it would write now. -/
def AsRead (present : Option Fields) (d : Fields) : Writers.Pc → Prop
  | .upsertPut _ now kept => kept = created now present
  | .recordPut name fields now _ => updateClusterDoc name fields now present = some d
  | _ => True

instance (present : Option Fields) (d : Fields) : (pc : Writers.Pc) → Decidable (AsRead present d pc)
  | .upsertPut .. => inferInstanceAs (Decidable (_ = _))
  | .recordPut .. => inferInstanceAs (Decidable (_ = _))
  | .absent | .upsertGet .. | .recordGet .. | .done _ => .isTrue trivial

def Careful : Act → Prop
  | .fetch r time => w.Fetches doc r time
  | .publish a => ∀ c ∈ w.cycle, ∀ o ∈ c.puts.head?, a = .refused → w.docs.get o.id = none
  | .request n a => a ≠ .refused → ∀ p ∈ (w.call n).write doc,
    AsRead (w.docs.get p.1) p.2 (w.call n) ∧ kindOf p.2 = none ∧ w.Unreported p.1
  | .delete id a => a ≠ .refused → ∀ i ∈ doc id, w.Unreported i
  | _ => True

instance : (act : Act) → Decidable (w.Careful doc act)
  | .fetch .. => inferInstanceAs (Decidable (Fetches ..))
  | .publish _ => inferInstanceAs (Decidable (∀ c ∈ _, ∀ o ∈ _, _ → _))
  | .request .. => inferInstanceAs (Decidable (_ → ∀ p ∈ _, _ ∧ _ ∧ _))
  | .delete .. => inferInstanceAs (Decidable (_ → ∀ i ∈ _, _))
  | .stop | .call .. => .isTrue trivial

/-! ## The invariant -/

structure CycleInv (c : Cycle) : Prop where
  suffix : c.puts <:+ c.report.all c.time
  distinct : (c.report.ids c.time).Nodup
  apart : ∀ id ∈ c.report.ids c.time, doc id = some id ∧ w.recorded id = []
  sweeps : ∀ k ∈ c.sweeps, c.report.complete k
  written : ∀ o ∈ c.report.all c.time, o ∉ c.puts →
    w.docs.get o.id = some o.doc ∨ (w.docs.get o.id = none ∧ c.ok = false)
  rest : c.ok → ∀ k, c.report.complete k → ∀ id d, w.docs.get id = some d →
    kindOf d = some k.text →
      id ∈ (c.report.objects c.time k).map Object.id ∨ (k ∈ c.sweeps ∧ stale k c.time d)

structure Inv : Prop where
  cycle : ∀ c, w.cycle = some c → w.CycleInv doc c
  recorded : ∀ id d, w.recorded id ≠ [] → w.docs.get id = some d → kindOf d = none

variable {doc w} {t : World} {n : Nat} {a : Answer} {c : Cycle} {id : Text}

theorem Fetches.distinct {r : Report} {time : Text} (h : w.Fetches doc r time) :
    (r.ids time).Nodup := by
  rw [Report.ids, List.Nodup, List.pairwise_map]
  apply h.names.imp_of_mem
  intro o p ho hp hNames hId
  obtain ⟨hKind, hName, hNs⟩ := (docId_eq_iff (h.plain o ho) (h.plain p hp)).mp hId
  obtain ⟨hDeployment, hNe⟩ := hNames hKind hName
  exact hNe (hNs hDeployment)

theorem Inv.fetch (h : Inv doc w) {r : Report} {time : Text} (hOk : w.Fetches doc r time) :
    Inv doc { w with clock := time, cycle := some ⟨time, r, r.all time, r.sweeps time, true⟩ } where
  recorded := h.recorded
  cycle c hc := by
    obtain rfl := Option.some.inj hc
    refine ⟨List.suffix_rfl, hOk.distinct, hOk.apart, ?_, ?_, ?_⟩
    · intro k hk
      have hSome := (List.mem_filter.mp hk).2
      by_contra hNot
      rw [hOk.partly k (mem_kinds k) (Bool.not_eq_true _ ▸ hNot)] at hSome
      cases hSome
    · intro o ho hNot
      exact absurd ho hNot
    · intro _ k hComplete id d hGet hKind
      rcases hOk.rest k (mem_kinds k) hComplete (id, d) (DocIndex.mem_docs_iff.mpr hGet) hKind with
        hIn | ⟨hSome, hStale⟩
      · exact .inl hIn
      · refine .inr ⟨List.mem_filter.mpr ⟨?_, ?_⟩, hStale⟩
        · cases k <;> decide
        · rw [hSome]
          rfl

theorem CycleInv.head {o : Object} {rest : List Object} (h : w.CycleInv doc c)
    (hPuts : c.puts = o :: rest) : o ∈ c.report.all c.time ∧ o ∉ rest ∧
      ∀ p ∈ c.report.all c.time, p.id = o.id → p = o := by
  have hSuffix := h.suffix
  rw [hPuts] at hSuffix
  have hMem := hSuffix.subset (List.mem_cons_self ..)
  refine ⟨hMem, ?_, ?_⟩
  · have hNodup : (o :: rest).Nodup := h.distinct.of_map.sublist hSuffix.sublist
    exact (List.nodup_cons.mp hNodup).1
  · intro p hp hId
    exact List.inj_on_of_nodup_map h.distinct hp hMem hId

theorem Inv.put (h : Inv doc w) {o : Object} {rest : List Object} (hc : w.cycle = some c)
    (hPuts : c.puts = o :: rest) : Inv doc { w with
      docs := w.docs.put o.id o.doc
      cycle := some { c with puts := rest, ok := c.ok && a = .answered } } := by
  have hCycle := h.cycle c hc
  obtain ⟨hMem, hOnce, hOnly⟩ := hCycle.head hPuts
  obtain ⟨hPlain, hNone⟩ := hCycle.apart o.id (List.mem_map_of_mem hMem)
  constructor
  · intro c' hc'
    obtain rfl := Option.some.inj hc'
    refine ⟨?_, hCycle.distinct, hCycle.apart, hCycle.sweeps, ?_, ?_⟩
    · have hSuffix := hCycle.suffix
      rw [hPuts] at hSuffix
      exact (List.suffix_cons o rest).trans hSuffix
    · intro p hp hNot
      by_cases hId : p.id = o.id
      · obtain rfl := hOnly p hp hId
        exact .inl (DocIndex.get_put_self ..)
      · have hNotPuts : p ∉ c.puts := by
          rw [hPuts, List.mem_cons, not_or]
          refine ⟨?_, hNot⟩
          rintro rfl
          exact hId rfl
        simp only
        rw [DocIndex.get_put_of_ne _ _ hId]
        exact (hCycle.written p hp hNotPuts).imp_right fun hAbsent => ⟨hAbsent.1, by rw [hAbsent.2]; rfl⟩
    · intro hOk k hComplete id d hGet hKind
      by_cases hId : id = o.id
      · subst hId
        rw [DocIndex.get_put_self, Option.some_inj] at hGet
        have hAt := objects_at (mem_all.mp hMem)
        rw [← hGet, hAt.tells, Option.some_inj] at hKind
        obtain rfl := kind_text_injective hKind
        exact .inl (List.mem_map_of_mem (mem_all.mp hMem))
      · rw [DocIndex.get_put_of_ne _ _ hId] at hGet
        exact hCycle.rest (Bool.and_eq_true _ _ ▸ hOk).1 k hComplete id d hGet hKind
  · intro id d hRecorded hGet
    have hNe : id ≠ o.id := by
      rintro rfl
      exact hRecorded hNone
    rw [DocIndex.get_put_of_ne _ _ hNe] at hGet
    exact h.recorded id d hRecorded hGet

theorem Inv.passed (h : Inv doc w) {o : Object} {rest : List Object} (hc : w.cycle = some c)
    (hPuts : c.puts = o :: rest) (hAbsent : w.docs.get o.id = none) :
    Inv doc { w with cycle := some { c with puts := rest, ok := false } } where
  recorded := h.recorded
  cycle c' hc' := by
    have hCycle := h.cycle c hc
    obtain rfl := Option.some.inj hc'
    refine ⟨?_, hCycle.distinct, hCycle.apart, hCycle.sweeps, ?_, nofun⟩
    · have hSuffix := hCycle.suffix
      rw [hPuts] at hSuffix
      exact (List.suffix_cons o rest).trans hSuffix
    · intro p hp hNot
      by_cases hHere : p = o
      · exact .inr ⟨hHere ▸ hAbsent, rfl⟩
      · have hNotPuts : p ∉ c.puts := by
          rw [hPuts, List.mem_cons, not_or]
          exact ⟨hHere, hNot⟩
        exact (hCycle.written p hp hNotPuts).imp_right fun hGone => ⟨hGone.1, rfl⟩

theorem CycleInv.swept (h : w.CycleInv doc c) (hPuts : c.puts = []) {o : Object}
    (ho : o ∈ c.report.all c.time) (k : Kind) :
    (w.docs.drop (stale k c.time)).get o.id = w.docs.get o.id := by
  rw [DocIndex.get_drop]
  have hNot : o ∉ c.puts := by
    rw [hPuts]
    exact List.not_mem_nil
  rcases h.written o ho hNot with hGet | ⟨hGet, -⟩
  · rw [hGet, Option.filter_some, (objects_at (mem_all.mp ho)).not_stale]
    rfl
  · rw [hGet]
    rfl

theorem get_of_drop {p : Fields → Bool} {d : Fields} (h : (w.docs.drop p).get id = some d) :
    w.docs.get id = some d ∧ p d = false := by
  rw [DocIndex.get_drop, Option.filter_eq_some_iff] at h
  exact ⟨h.1, Bool.not_eq_true' _ ▸ h.2⟩

theorem Inv.sweep (h : Inv doc w) {k : Kind} {rest : List Kind} (hc : w.cycle = some c)
    (hPuts : c.puts = []) (hSweeps : c.sweeps = k :: rest) : Inv doc { w with
      docs := if a = .refused then w.docs else w.docs.drop (stale k c.time)
      cycle := some { c with sweeps := rest, ok := c.ok && a = .answered } } := by
  have hCycle := h.cycle c hc
  have hSub : ∀ id d, (if a = .refused then w.docs else w.docs.drop (stale k c.time)).get id = some d →
      w.docs.get id = some d := by
    intro id d hGet
    split at hGet
    · exact hGet
    · exact (get_of_drop hGet).1
  constructor
  · intro c' hc'
    obtain rfl := Option.some.inj hc'
    refine ⟨hCycle.suffix, hCycle.distinct, hCycle.apart, ?_, ?_, ?_⟩
    · intro l hl
      apply hCycle.sweeps l
      rw [hSweeps]
      exact List.mem_cons_of_mem k hl
    · intro o ho hNot
      have hSame : (if a = .refused then w.docs else w.docs.drop (stale k c.time)).get o.id =
          w.docs.get o.id := by
        split
        · rfl
        · exact hCycle.swept hPuts ho k
      simp only
      rw [hSame]
      exact (hCycle.written o ho hNot).imp_right fun hAbsent => ⟨hAbsent.1, by rw [hAbsent.2]; rfl⟩
    · intro hOk l hComplete id d hGet hKind
      obtain ⟨hBefore, hAnswered⟩ := Bool.and_eq_true _ _ ▸ hOk
      obtain rfl : a = .answered := of_decide_eq_true hAnswered
      rcases hCycle.rest hBefore l hComplete id d (hSub id d hGet) hKind with hIn | ⟨hLeft, hStale⟩
      · exact .inl hIn
      · rw [hSweeps, List.mem_cons] at hLeft
        rcases hLeft with rfl | hLeft
        · rw [(get_of_drop hGet).2] at hStale
          cases hStale
        · exact .inr ⟨hLeft, hStale⟩
  · intro id d hRecorded hGet
    exact h.recorded id d hRecorded (hSub id d hGet)

theorem Inv.publish (h : Inv doc w) (hc : w.cycle = some c) (hOk : w.Careful doc (.publish a))
    (hs : w.publish doc c a = some t) : Inv doc t := by
  rw [World.publish] at hs
  split at hs
  next o rest hPuts =>
    obtain ⟨hMem, -, -⟩ := (h.cycle c hc).head hPuts
    obtain ⟨hPlain, -⟩ := (h.cycle c hc).apart o.id (List.mem_map_of_mem hMem)
    rw [hPlain] at hs
    split at hs
    next id hId =>
      split at hId
      · cases hId
      · obtain rfl := Option.some.inj hId
        exact Option.some.inj hs ▸ h.put hc hPuts
    next hNone =>
      split at hNone
      next hRefused =>
        have hHead : o ∈ c.puts.head? := by
          rw [hPuts]
          rfl
        exact Option.some.inj hs ▸ h.passed hc hPuts (hOk c hc o hHead hRefused)
      · cases hNone
  next k rest hPuts hSweeps => exact Option.some.inj hs ▸ h.sweep hc hPuts hSweeps
  · cases hs

theorem Inv.wrote (h : Inv doc w) (hUnreported : w.Unreported id) {x : FleetIndex}
    {recorded : Text → List Text} {pc : Nat → Writers.Pc} (hDocs : ∀ k, k ≠ id → x.get k = w.docs.get k)
    (hKind : ∀ d, x.get id = some d → kindOf d = none)
    (hRecorded : ∀ k, k ≠ id → recorded k = w.recorded k) :
    Inv doc { w with docs := x, recorded := recorded, call := pc } := by
  constructor
  · intro c hc
    have hCycle := h.cycle c hc
    have hNe : ∀ o ∈ c.report.all c.time, o.id ≠ id := by
      rintro o ho rfl
      exact hUnreported c hc (List.mem_map_of_mem ho)
    refine ⟨hCycle.suffix, hCycle.distinct, ?_, hCycle.sweeps, ?_, ?_⟩
    · intro k hk
      obtain ⟨o, ho, rfl⟩ := List.mem_map.mp hk
      simp only
      rw [hRecorded o.id (hNe o ho)]
      exact hCycle.apart o.id hk
    · intro o ho hNot
      simp only
      rw [hDocs o.id (hNe o ho)]
      exact hCycle.written o ho hNot
    · intro hOk k hComplete i d hGet hSays
      by_cases hi : i = id
      · subst hi
        rw [hKind d hGet] at hSays
        cases hSays
      · exact hCycle.rest hOk k hComplete i d ((hDocs i hi).symm.trans hGet) hSays
  · intro i d hSome hGet
    by_cases hi : i = id
    · subst hi
      exact hKind d hGet
    · simp only at hSome hGet
      rw [hRecorded i hi] at hSome
      exact h.recorded i d hSome ((hDocs i hi).symm.trans hGet)

theorem Inv.goto (h : Inv doc w) (n : Nat) (pc : Writers.Pc) : Inv doc (w.goto n pc) :=
  ⟨fun c hc => have hCycle := h.cycle c hc
    ⟨hCycle.suffix, hCycle.distinct, hCycle.apart, hCycle.sweeps, hCycle.written, hCycle.rest⟩,
    h.recorded⟩

theorem Inv.finish (h : Inv doc w) (hOk : w.Careful doc (.request n a)) :
    Inv doc (w.finish doc n a) := by
  rw [World.finish]
  split
  next id d hWrite =>
    split at hWrite
    · cases hWrite
    next hCarried =>
      obtain ⟨-, hKind, hUnreported⟩ := hOk hCarried (id, d) hWrite
      apply h.wrote hUnreported
      · intro k hk
        exact DocIndex.get_put_of_ne _ _ hk
      · intro e he
        rw [DocIndex.get_put_self] at he
        exact Option.some.inj he ▸ hKind
      · intro k hk
        exact Function.update_of_ne hk ..
  · exact h.goto n _

theorem Inv.delete (h : Inv doc w) (hOk : w.Careful doc (.delete id a)) : Inv doc (w.delete doc id a) := by
  rw [World.delete]
  split
  next i hPath =>
    split at hPath
    · cases hPath
    next hCarried =>
      apply h.wrote (hOk hCarried i hPath)
      · intro k hk
        exact DocIndex.get_delete_of_ne _ hk
      · intro d hd
        rw [DocIndex.get_delete_self] at hd
        cases hd
      · intro k hk
        exact Function.update_of_ne hk ..
  · exact h

theorem Inv.step (h : Inv doc w) {act : Act} (hOk : w.Careful doc act)
    (hs : w.step doc act = some t) : Inv doc t := by
  cases act with
  | fetch r time =>
    rw [World.step] at hs
    split at hs
    · exact Option.some.inj hs ▸ h.fetch hOk
    · cases hs
  | publish a =>
    obtain ⟨c, hc, hs⟩ := Option.bind_eq_some_iff.mp hs
    exact h.publish hc hOk hs
  | stop => exact Option.some.inj hs ▸ ⟨nofun, h.recorded⟩
  | call n op =>
    rw [World.step] at hs
    split at hs
    · exact Option.some.inj hs ▸ h.goto n _
    · cases hs
  | request n a =>
    rw [World.step, World.request] at hs
    split at hs
    · exact Option.some.inj hs ▸ h.goto n _
    · split at hs
      · exact Option.some.inj hs ▸ h.goto n _
      · exact Option.some.inj hs ▸ h.goto n _
    · exact Option.some.inj hs ▸ h.finish hOk
    · exact Option.some.inj hs ▸ h.finish hOk
    · cases hs
  | delete id a => exact Option.some.inj hs ▸ h.delete hOk

theorem inv_reach {w₀ : World} (hRecorded : ∀ id, w₀.recorded id = []) (hCycle : w₀.cycle = none)
    (h : Reach (step doc) (Careful doc) w₀ w) : Inv doc w := by
  have hStart : Inv doc w₀ := by
    constructor
    · intro c hc
      rw [hCycle] at hc
      cases hc
    · intro id d hSome
      exact absurd (hRecorded id) hSome
  exact h.invariant hStart fun _ _ _ _ hInv hOk hs => hInv.step hOk hs

/-! ## What a step leaves -/

def field (w : World) (id k : Text) : Option Value := (w.docs.get id).bind (·.get k)

/-- The fields that a tool's put is for. -/
def Sets (present : Option Fields) (k : Text) : Writers.Pc → Prop
  | .recordPut .. => present = none ∨ k = extra ∨ k = updatedAt
  | _ => True

/-- The step is a tool's, and is for this field of the document. -/
def Writes (doc : Text → Option Text) (w : World) (id k : Text) : Act → Prop
  | .request n a => a ≠ .refused ∧ ∃ d, (w.call n).write doc = some (id, d) ∧
    Sets (w.docs.get id) k (w.call n)
  | .delete i a => a ≠ .refused ∧ doc i = some id
  | _ => False

theorem field_congr (h : t.docs.get id = w.docs.get id) (k : Text) : field t id k = field w id k := by
  rw [field, field, h]

theorem update_get {name now k : Text} {fields src d : Fields}
    (h : updateClusterDoc name fields now (some src) = some d) (hExtra : k ≠ extra)
    (hUpdated : k ≠ updatedAt) : d.get k = src.get k := by
  obtain ⟨old, -, rfl⟩ := Option.map_eq_some_iff.mp h
  rw [Fields.get_cons, if_neg hUpdated.symm, Fields.get_cons, if_neg hExtra.symm]

theorem Inv.field_publish (h : Inv doc w) (hc : w.cycle = some c) (hSome : w.recorded id ≠ [])
    (hs : w.publish doc c a = some t) : t.docs.get id = w.docs.get id := by
  rw [World.publish] at hs
  split at hs
  next o rest hPuts =>
    obtain ⟨hMem, -, -⟩ := (h.cycle c hc).head hPuts
    obtain ⟨hPlain, hNone⟩ := (h.cycle c hc).apart o.id (List.mem_map_of_mem hMem)
    rw [hPlain] at hs
    split at hs
    next i hId =>
      split at hId
      · cases hId
      · obtain rfl := Option.some.inj hId
        obtain rfl := Option.some.inj hs
        apply DocIndex.get_put_of_ne
        rintro rfl
        exact hSome hNone
    · exact Option.some.inj hs ▸ rfl
  next k rest hPuts hSweeps =>
    obtain rfl := Option.some.inj hs
    simp only
    split
    · rfl
    · rw [DocIndex.get_drop]
      cases hGet : w.docs.get id with
      | none => rfl
      | some d =>
        have hKind := h.recorded id d hSome hGet
        have hFresh : stale k c.time d = false := by
          by_contra hStale
          rw [stale_kind (Bool.not_eq_false _ ▸ hStale)] at hKind
          cases hKind
        rw [Option.filter_some, hFresh]
        rfl
  · cases hs

theorem field_finish (hOk : w.Careful doc (.request n a)) (k : Text) :
    field (w.finish doc n a) id k = field w id k ∨ Writes doc w id k (.request n a) := by
  rw [World.finish]
  split
  next i d hWrite =>
    split at hWrite
    · cases hWrite
    next hCarried =>
      obtain ⟨hRead, -, -⟩ := hOk hCarried (i, d) hWrite
      by_cases hi : id = i
      · subst hi
        by_cases hSets : Sets (w.docs.get id) k (w.call n)
        · exact .inr ⟨hCarried, d, hWrite, hSets⟩
        · left
          cases hPc : w.call n with
          | recordPut name fields now e =>
            rw [hPc] at hRead hSets
            simp only [Sets, not_or] at hSets
            obtain ⟨hSome, hExtra, hUpdated⟩ := hSets
            obtain ⟨src, hSrc⟩ := Option.ne_none_iff_exists'.mp hSome
            have hUpdate : updateClusterDoc name fields now (some src) = some d := hSrc ▸ hRead
            rw [field, field, hSrc]
            exact (congrArg (Option.bind · (Fields.get · k)) (DocIndex.get_put_self w.docs id d)).trans
              (update_get hUpdate hExtra hUpdated)
          | _ =>
            rw [hPc] at hSets
            exact absurd trivial hSets
      · left
        exact field_congr (DocIndex.get_put_of_ne _ _ hi) k
  · exact .inl rfl

theorem Inv.field_step (h : Inv doc w) {act : Act} {k : Text} (hk : k ∈ w.recorded id)
    (hOk : w.Careful doc act) (hs : w.step doc act = some t) :
    field t id k = field w id k ∨ Writes doc w id k act := by
  cases act with
  | fetch r time =>
    rw [World.step] at hs
    split at hs
    · exact .inl (Option.some.inj hs ▸ rfl)
    · cases hs
  | publish a =>
    obtain ⟨c, hc, hs⟩ := Option.bind_eq_some_iff.mp hs
    exact .inl (field_congr (h.field_publish hc (List.ne_nil_of_mem hk) hs) k)
  | stop => exact .inl (Option.some.inj hs ▸ rfl)
  | call n op =>
    rw [World.step] at hs
    split at hs
    · exact .inl (Option.some.inj hs ▸ rfl)
    · cases hs
  | request n a =>
    rw [World.step, World.request] at hs
    split at hs
    · exact .inl (Option.some.inj hs ▸ rfl)
    · split at hs
      · exact .inl (Option.some.inj hs ▸ rfl)
      · exact .inl (Option.some.inj hs ▸ rfl)
    · exact Option.some.inj hs ▸ field_finish hOk k
    · exact Option.some.inj hs ▸ field_finish hOk k
    · cases hs
  | delete i a =>
    obtain rfl := Option.some.inj hs
    rw [World.delete]
    split
    next j hPath =>
      split at hPath
      · cases hPath
      next hCarried =>
        by_cases hj : id = j
        · subst hj
          exact .inr ⟨hCarried, hPath⟩
        · exact .inl (field_congr (DocIndex.get_delete_of_ne _ hj) k)
    · exact .inl rfl

theorem publish_keeps (hs : w.publish doc c a = some t)
    (hKept : ∀ k ∈ c.sweeps, c.puts = [] → ∀ d, w.docs.get id = some d → stale k c.time d = false)
    (hGet : (w.docs.get id).isSome) : (t.docs.get id).isSome := by
  rw [World.publish] at hs
  split at hs
  next o rest hPuts =>
    split at hs
    next i hId =>
      obtain rfl := Option.some.inj hs
      by_cases hi : id = i
      · subst hi
        exact Option.isSome_iff_exists.mpr ⟨_, DocIndex.get_put_self ..⟩
      · exact (congrArg Option.isSome (DocIndex.get_put_of_ne w.docs o.doc hi)).trans hGet
    · exact Option.some.inj hs ▸ hGet
  next k rest hPuts hSweeps =>
    obtain rfl := Option.some.inj hs
    simp only
    split
    · exact hGet
    · obtain ⟨d, hd⟩ := Option.isSome_iff_exists.mp hGet
      have hFresh : stale k c.time d = false :=
        hKept k (hSweeps ▸ List.mem_cons_self ..) hPuts d hd
      rw [DocIndex.get_drop, hd, Option.filter_some, hFresh]
      rfl
  · cases hs

/-- Recorded fields are changed by the tools only; different objects have different documents;
a kind that is fetched in part loses none, and an object that is reported does not lose its
own; and after a cycle without a failure the documents of a kind are the reported objects. -/
theorem fleet_state_mirrored {w₀ : World} (hRecorded : ∀ id, w₀.recorded id = [])
    (hCycle : w₀.cycle = none) (h : Reach (step doc) (Careful doc) w₀ w) :
    (∀ act t id k, w.Careful doc act → w.step doc act = some t → k ∈ w.recorded id →
      field t id k = field w id k ∨ Writes doc w id k act) ∧
    (∀ o p : Object, '_' ∉ o.ns → '_' ∉ p.ns → (o.kind, o.ns, o.name) ≠ (p.kind, p.ns, p.name) →
      (o.id ≠ p.id ↔ ¬(o.kind = p.kind ∧ o.name = p.name ∧ o.kind ≠ .bundleDeployment))) ∧
    (∀ c a t, w.cycle = some c → w.publish doc c a = some t →
      (∀ k id d, c.report.complete k = false → w.docs.get id = some d → kindOf d = some k.text →
        (t.docs.get id).isSome = true) ∧
      ∀ o ∈ c.report.all c.time, (w.docs.get o.id).isSome = true → (t.docs.get o.id).isSome = true) ∧
    ∀ c, w.cycle = some c → c.puts = [] → c.sweeps = [] → c.ok = true →
      ∀ k, c.report.complete k = true → ∀ id d,
        (w.docs.get id = some d ∧ kindOf d = some k.text) ↔
          ∃ o ∈ c.report.objects c.time k, o.id = id ∧ o.doc = d := by
  have hInv := inv_reach hRecorded hCycle h
  refine ⟨?_, ?_, ?_, ?_⟩
  · intro act t id k hOk hs hk
    exact hInv.field_step hk hOk hs
  · intro o p ho hp hNe
    rw [Object.id, Object.id, ne_eq, docId_eq_iff ho hp, not_iff_not]
    constructor
    · rintro ⟨hKind, hName, hNs⟩
      refine ⟨hKind, hName, fun hDeployment => hNe ?_⟩
      rw [hKind, hName, hNs hDeployment]
    · rintro ⟨hKind, hName, hOther⟩
      exact ⟨hKind, hName, fun hDeployment => absurd hDeployment hOther⟩
  · intro c a t hc hs
    constructor
    · intro k id d hPart hGet hKind
      apply publish_keeps hs _ (Option.isSome_iff_exists.mpr ⟨d, hGet⟩)
      intro l hl _ e he
      rw [hGet, Option.some_inj] at he
      by_contra hStale
      have hSame := stale_kind (Bool.not_eq_false _ ▸ hStale)
      rw [← he, hKind, Option.some_inj] at hSame
      have hComplete := (hInv.cycle c hc).sweeps l hl
      rw [← kind_text_injective hSame, hPart] at hComplete
      cases hComplete
    · intro o ho hGet
      apply publish_keeps hs _ hGet
      intro l hl hPuts e he
      have hNot : o ∉ c.puts := hPuts ▸ List.not_mem_nil
      rcases (hInv.cycle c hc).written o ho hNot with hDoc | ⟨hNone, -⟩
      · rw [hDoc, Option.some_inj] at he
        exact he ▸ (objects_at (mem_all.mp ho)).not_stale l
      · rw [hNone] at he
        cases he
  · intro c hc hPuts hSweeps hOk k hComplete id d
    have hCycleInv := hInv.cycle c hc
    have hWritten : ∀ o ∈ c.report.objects c.time k, w.docs.get o.id = some o.doc := by
      intro o ho
      have hAll : o ∈ c.report.all c.time := by
        rw [mem_all, (objects_at ho).kind]
        exact ho
      rcases hCycleInv.written o hAll (hPuts ▸ List.not_mem_nil) with hDoc | ⟨-, hFailed⟩
      · exact hDoc
      · rw [hOk] at hFailed
        cases hFailed
    constructor
    · rintro ⟨hGet, hKind⟩
      rcases hCycleInv.rest hOk k hComplete id d hGet hKind with hIn | ⟨hLeft, -⟩
      · obtain ⟨o, ho, rfl⟩ := List.mem_map.mp hIn
        rw [hWritten o ho, Option.some_inj] at hGet
        exact ⟨o, ho, rfl, hGet⟩
      · rw [hSweeps] at hLeft
        cases hLeft
    · rintro ⟨o, ho, rfl, rfl⟩
      exact ⟨hWritten o ho, (objects_at ho).tells⟩

/-! ## A cluster with a title -/

def start : World := ⟨.empty, fun _ => .absent, none, [], fun _ => []⟩

/-- A cycle that reports one cluster. -/
def oneCluster : Report where
  clusters := [[(name, .text ['c'])]]
  gitrepos := []
  bundles := []
  bundleDeployments := []
  complete k := k = .cluster

def titled (id : Text) : Upsert := ⟨id, ['t'], ['x'], ['n'], []⟩

def titleRun (id : Text) : List Act :=
  [.call 0 (.upsert (titled id) ['1']), .request 0 .answered, .request 0 .answered,
    .fetch oneCluster ['2']]

def noteRun : List Act := titleRun ['n'] ++ [.publish .answered, .publish .answered]

theorem cluster_published :
    ∃ w, run (step some) start noteRun = some w ∧
      ∃ d, w.docs.get (docId .cluster [] ['c']) = some d ∧ kindOf d = some Kind.cluster.text := by
  obtain ⟨w, hRun, hw⟩ := exists_run_of_any (step some) start noteRun
    (fun w => w.cycle.any fun c => c.puts.isEmpty && c.sweeps.isEmpty && c.ok &&
      c.report.complete .cluster &&
      ((c.report.objects c.time .cluster).map Object.id).contains (docId .cluster [] ['c']))
    (by decide)
  have hOk : Along (step some) (Careful some) start noteRun := by decide
  obtain ⟨-, -, -, hAll⟩ := fleet_state_mirrored (fun _ => rfl) rfl (Reach.of_run hRun hOk)
  obtain ⟨c, hc, hEnd⟩ := (Option.any_eq_true _ _).mp hw
  simp only [Bool.and_eq_true, List.isEmpty_iff, List.contains_iff_mem, List.mem_map] at hEnd
  obtain ⟨⟨⟨⟨hPuts, hSweeps⟩, hGood⟩, hComplete⟩, o, ho, hId⟩ := hEnd
  obtain ⟨hGet, hKind⟩ := (hAll c hc hPuts hSweeps hGood .cluster hComplete o.id o.doc).mpr ⟨o, ho, rfl, rfl⟩
  exact ⟨w, hRun, o.doc, hId ▸ hGet, hKind⟩

/-- The publisher takes the title of a cluster away. -/
theorem title_lost :
    ∃ w, run (step some) start (titleRun (docId .cluster [] ['c'])) = some w ∧
      title ∈ w.recorded (docId .cluster [] ['c']) ∧
      (field w (docId .cluster [] ['c']) title).isSome = true ∧
      ∃ t, w.step some (.publish .answered) = some t ∧
        field t (docId .cluster [] ['c']) title = none := by
  obtain ⟨w, hRun, hw⟩ := exists_run_of_any (step some) start (titleRun (docId .cluster [] ['c']))
    (fun w => decide (title ∈ w.recorded (docId .cluster [] ['c']) ∧
      (field w (docId .cluster [] ['c']) title).isSome = true) &&
      (w.step some (.publish .answered)).any fun t =>
        decide (field t (docId .cluster [] ['c']) title = none)) (by decide)
  obtain ⟨hBefore, hAfter⟩ := Bool.and_eq_true _ _ ▸ hw
  obtain ⟨hRecorded, hSome⟩ := of_decide_eq_true hBefore
  obtain ⟨t, ht, hNone⟩ := (Option.any_eq_true _ _).mp hAfter
  exact ⟨w, hRun, hRecorded, hSome, t, ht, of_decide_eq_true hNone⟩

end World

end OpenSpoke.Hub.Publisher
