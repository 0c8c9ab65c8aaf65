import Mathlib.Data.List.Dedup
import OpenSpoke.Handoff.Policy

/-!
# Tags and their edges

`topic_set_tags` deletes the HAS_TAG edges and sets the property in one session
run, and creates the edges in the next. A run of another call may come between.
-/

namespace OpenSpoke.Handoff

open Lts
open Python (Text)

/-- The loop over the tags; `lower` is `str.lower`. -/
def cleanTags (lower : Text → Text) (tags : List Text) : List Text :=
  let cleaned := tags.map fun raw =>
    (lower (Python.strip raw)).map fun c => if c = ' ' || c = '-' then '_' else c
  (cleaned.filter fun s => !s.isEmpty && !(['e', 'r', 'r', 'o', 'r'].isPrefixOf s)).eraseDups

/-- A request of `topic_set_tags`. -/
def setTagsRequest (lower : Text → Text) (id : Text) (tags : List Text) : StoreAct :=
  .request id (.setTags (cleanTags lower tags))

namespace World

/-- What a step writes to the tags property of the topic; a new topic has none. -/
def tagWrites (id : Text) (s : World) : StoreAct → List (List Text)
  | .call n .run =>
    if (s.call n).id = id then
      match (s.call n).pc, (s.call n).api, s.store id with
      | .tagging, .setTags cleaned, some _ => [cleaned]
      | .merging _ _, .upsert _, none => [[]]
      | _, _, _ => []
    else []
  | _ => []

/-- No call is between its two statements for the topic. -/
def Idle (s : World) (id : Text) : Prop :=
  ∀ n, (s.call n).id = id → (s.call n).pc ≠ .linking

/-- The tags property and the edges have the same names, those that `tags` has. -/
structure Tagged (topic : Topic) (tags : List Text) : Prop where
  edges : ∀ name, name ∈ topic.hasTag ↔ name ∈ topic.tags
  property : topic.tags = tags

/-- The condition on a second statement: the property names all tags that it links, and it is
not lost while the property is its call's. -/
def linksOwn (s : World) : StoreAct → Bool
  | .call n .run =>
    match (s.call n).pc, (s.call n).api, s.store (s.call n).id with
    | .linking, .setTags cleaned, some topic => cleaned.all (· ∈ topic.tags)
    | _, _, _ => true
  | .call n .fail =>
    match (s.call n).pc, (s.call n).api, s.store (s.call n).id with
    | .linking, .setTags cleaned, some topic =>
      topic.tags ≠ cleaned || topic.tags.all (· ∈ topic.hasTag)
    | _, _, _ => true
  | _ => true

/-! ## One step -/

/-- What a call does about tags. -/
inductive TagMove (s : World) (n : Nat) : CallEv → World → Prop
  -- the topic stays as it is
  | stay (e : CallEv) (t : World) (pc : CallPc) (hStore : t.store = s.store)
      (hCall : t.call = (s.callTo n pc).call) (hPc : pc ≠ .linking)
      (hWas : (s.call n).pc = .linking → s.store (s.call n).id = none ∨ e = .fail)
      (hWrites : s.tagWrites (s.call n).id (.call n e) = []) : TagMove s n e t
  | merged (nowIso : Int) (validated : Bool) (u : Upsert) (pc : CallPc)
      (hWas : (s.call n).pc = .merging nowIso validated) (hApi : (s.call n).api = .upsert u)
      (hPc : pc ≠ .linking) :
      TagMove s n .run ((s.setTopic n (some (u.merge nowIso (s.store (s.call n).id)))).callTo n pc)
  | deleted (pc : CallPc) (hWas : (s.call n).pc = .deleting) (hPc : pc ≠ .linking) :
      TagMove s n .run ((s.setTopic n none).callTo n pc)
  | tagged (cleaned : List Text) (topic : Topic) (pc : CallPc) (hWas : (s.call n).pc = .tagging)
      (hApi : (s.call n).api = .setTags cleaned) (hOld : s.store (s.call n).id = some topic)
      (hPc : pc = .linking ∨ cleaned = [] ∧ pc ≠ .linking) :
      TagMove s n .run
        ((s.setTopic n (some { topic with tags := cleaned, hasTag := [] })).callTo n pc)
  | linked (cleaned : List Text) (topic : Topic) (pc : CallPc) (hWas : (s.call n).pc = .linking)
      (hApi : (s.call n).api = .setTags cleaned) (hOld : s.store (s.call n).id = some topic)
      (hPc : pc ≠ .linking) :
      TagMove s n .run
        ((s.setTopic n (some { topic with hasTag := topic.hasTag ∪ cleaned })).callTo n pc)

theorem callStep_tagMove {s t : World} {n : Nat} {e : CallEv} (h : s.callStep n e = some t) :
    TagMove s n e t := by
  unfold callStep at h
  dsimp only at h
  split at h
  next hPc =>
    split at h <;> cases h
    all_goals exact .stay _ _ _ rfl rfl (by simp) (by simp [hPc]) (by simp [tagWrites, hPc])
  next hPc => cases h; exact .stay _ _ _ rfl rfl (by simp) (by simp [hPc]) rfl
  next hPc => cases h; exact .stay _ _ _ rfl rfl (by simp) (by simp [hPc]) rfl
  next hPc => cases h; exact .stay _ _ _ rfl rfl (by simp) (by simp [hPc]) rfl
  next nowIso validated u hPc hApi => cases h; exact .merged nowIso validated u _ hPc hApi (by simp)
  next hPc =>
    split at h <;> cases h
    · exact .stay _ _ _ rfl rfl (by simp) (by simp [hPc]) (by simp [tagWrites, hPc])
    · exact .deleted _ hPc (by simp)
  next cleaned hPc hApi =>
    split at h <;> cases h
    · next hOld => exact .stay _ _ _ rfl rfl (by simp) (by simp [hPc]) (by simp [tagWrites, hPc, hOld])
    · next topic hOld =>
      refine .tagged cleaned topic _ hPc hApi hOld ?_
      split
      next hNil => exact .inr ⟨hNil, by simp⟩
      next => exact .inl rfl
  next cleaned hPc hApi =>
    split at h <;> cases h
    · next hOld =>
      exact .stay _ _ _ rfl rfl (by simp) (fun _ => .inl hOld) (by simp [tagWrites, hPc])
    · next topic hOld => exact .linked cleaned topic _ hPc hApi hOld (by simp)
  next hPc => cases h; exact .stay _ _ _ rfl rfl (by simp) (fun _ => .inr rfl) rfl
  next hPc => cases h; exact .stay _ _ _ rfl rfl (by simp) (fun _ => .inr rfl) rfl
  next hPc => cases h; exact .stay _ _ _ rfl rfl (by simp) (fun _ => .inr rfl) rfl
  next hPc => cases h; exact .stay _ _ _ rfl rfl (by simp) (fun _ => .inr rfl) rfl
  next hPc => cases h; exact .stay _ _ _ rfl rfl (by simp) (fun _ => .inr rfl) rfl
  next => cases h

theorem store_of_ne {s t : World} {n : Nat} {e : CallEv} (h : TagMove s n e t) {id : Text}
    (hId : (s.call n).id ≠ id) : t.store id = s.store id := by
  cases h with
  | stay e t pc hStore => rw [hStore]
  | _ => simp [Ne.symm hId]

theorem tags_step {s t : World} {a : StoreAct} (h : s.step a = some t) {id : Text} {topic : Topic}
    (hTopic : t.store id = some topic) :
    s.tagWrites id a = [topic.tags] ∨
      s.tagWrites id a = [] ∧ ∃ old, s.store id = some old ∧ old.tags = topic.tags := by
  cases a with
  | tick d => cases h; exact .inr ⟨rfl, topic, hTopic, rfl⟩
  | request id' api => cases h; exact .inr ⟨rfl, topic, hTopic, rfl⟩
  | call n e =>
    have hMove := callStep_tagMove h
    by_cases hId : (s.call n).id = id
    · subst hId
      cases hMove with
      | stay e t pc hStore hCall hPc hWas hWrites =>
        rw [hStore] at hTopic
        exact .inr ⟨hWrites, topic, hTopic, rfl⟩
      | merged nowIso validated u pc hWas hApi hPc =>
        obtain rfl : u.merge nowIso (s.store (s.call n).id) = topic := by simpa using hTopic
        cases hOld : s.store (s.call n).id with
        | none => exact .inl (by simp [tagWrites, hWas, hApi, hOld, Upsert.merge])
        | some old => exact .inr ⟨by simp [tagWrites, hWas, hApi, hOld], old, rfl, rfl⟩
      | deleted pc hWas hPc => simp at hTopic
      | tagged cleaned old pc hWas hApi hOld hPc =>
        obtain rfl := Option.some.inj ((by simpa using hTopic : some _ = some topic))
        exact .inl (by simp [tagWrites, hWas, hApi, hOld])
      | linked cleaned old pc hWas hApi hOld hPc =>
        obtain rfl := Option.some.inj ((by simpa using hTopic : some _ = some topic))
        exact .inr ⟨by simp [tagWrites, hWas], old, hOld, rfl⟩
    · rw [store_of_ne hMove hId] at hTopic
      refine .inr ⟨?_, topic, hTopic, rfl⟩
      cases e <;> simp [tagWrites, hId]

/-! ## The invariant -/

/-- The call has set these tags, and has not linked them yet. -/
structure Links (s : World) (n : Nat) (id : Text) (tags : List Text) : Prop where
  hId : (s.call n).id = id
  hApi : (s.call n).api = .setTags tags
  hPc : (s.call n).pc = .linking

/-- All edges are of tags in the property, and of all tags there unless the call that has set
them is about to link them. -/
structure Covered (s : World) : Prop where
  edges : ∀ id topic, s.store id = some topic → ∀ name ∈ topic.hasTag, name ∈ topic.tags
  tags : ∀ id topic, s.store id = some topic →
    (∀ name ∈ topic.tags, name ∈ topic.hasTag) ∨ ∃ n, s.Links n id topic.tags

theorem Links.of_call {s t : World} {m : Nat} {id : Text} {tags : List Text}
    (h : s.Links m id tags) (hCall : t.call m = s.call m) : t.Links m id tags :=
  ⟨hCall ▸ h.hId, hCall ▸ h.hApi, hCall ▸ h.hPc⟩

theorem Covered.of_store {s t : World} (hCovered : s.Covered) (hStore : t.store = s.store)
    (hCall : ∀ id topic n, s.store id = some topic → s.Links n id topic.tags →
      t.Links n id topic.tags ∨ ∀ name ∈ topic.tags, name ∈ topic.hasTag) : t.Covered where
  edges := by
    intro id topic hTopic
    rw [hStore] at hTopic
    exact hCovered.edges id topic hTopic
  tags := by
    intro id topic hTopic
    rw [hStore] at hTopic
    obtain hAll | ⟨n, hLinks⟩ := hCovered.tags id topic hTopic
    · exact .inl hAll
    · obtain hLinks | hAll := hCall id topic n hTopic hLinks
      · exact .inr ⟨n, hLinks⟩
      · exact .inl hAll

theorem Covered.set {s : World} (hCovered : s.Covered) {n : Nat} {new : Option Topic} {pc : CallPc}
    (hEdges : ∀ topic, new = some topic → ∀ name ∈ topic.hasTag, name ∈ topic.tags)
    (hTags : ∀ topic, new = some topic → (∀ name ∈ topic.tags, name ∈ topic.hasTag) ∨
      (∃ m, m ≠ n ∧ s.Links m (s.call n).id topic.tags) ∨
        pc = .linking ∧ (s.call n).api = .setTags topic.tags) :
    ((s.setTopic n new).callTo n pc).Covered := by
  have hOther : ∀ {m : Nat} {id : Text} {tags : List Text}, m ≠ n → s.Links m id tags →
      ((s.setTopic n new).callTo n pc).Links m id tags := by
    intro m id tags hne hLinks
    exact hLinks.of_call (by simp [hne])
  constructor
  · intro id topic hTopic
    rcases eq_or_ne id (s.call n).id with rfl | hne
    · exact hEdges topic (by simpa using hTopic)
    · exact hCovered.edges id topic (by simpa [hne] using hTopic)
  · intro id topic hTopic
    rcases eq_or_ne id (s.call n).id with rfl | hne
    · obtain hAll | ⟨m, hm, hLinks⟩ | ⟨rfl, hApi⟩ := hTags topic (by simpa using hTopic)
      · exact .inl hAll
      · exact .inr ⟨m, hOther hm hLinks⟩
      · exact .inr ⟨n, by simp, by simpa using hApi, by simp⟩
    · obtain hAll | ⟨m, hLinks⟩ := hCovered.tags id topic (by simpa [hne] using hTopic)
      · exact .inl hAll
      · refine .inr ⟨m, hOther ?_ hLinks⟩
        rintro rfl
        exact hne hLinks.hId.symm

theorem Covered.callStep {s t : World} (hCovered : s.Covered) {n : Nat} {e : CallEv}
    (hOk : s.linksOwn (.call n e) = true) (h : s.callStep n e = some t) : t.Covered := by
  cases callStep_tagMove h with
  | stay e t pc hStore hCall hPc hWas hWrites =>
    refine hCovered.of_store hStore fun id topic m hTopic hLinks => ?_
    rcases eq_or_ne m n with rfl | hne
    · refine .inr ?_
      rw [← hLinks.hId] at hTopic
      obtain hNone | rfl := hWas hLinks.hPc
      · rw [hNone] at hTopic
        cases hTopic
      · simpa [linksOwn, hLinks.hPc, hLinks.hApi, hTopic] using hOk
    · exact .inl (hLinks.of_call (by simp [hCall, hne]))
  | merged nowIso validated u pc hWas hApi hPc =>
    refine hCovered.set ?_ ?_
    · rintro _ ⟨⟩
      cases hOld : s.store (s.call n).id with
      | none => simp [Upsert.merge]
      | some old => exact hCovered.edges _ old hOld
    · rintro _ ⟨⟩
      cases hOld : s.store (s.call n).id with
      | none => exact .inl (by simp [Upsert.merge])
      | some old =>
        obtain hAll | ⟨m, hLinks⟩ := hCovered.tags _ old hOld
        · exact .inl hAll
        · refine .inr (.inl ⟨m, ?_, hLinks⟩)
          rintro rfl
          rw [hLinks.hPc] at hWas
          cases hWas
  | deleted pc hWas hPc =>
    refine hCovered.set ?_ ?_
    · rintro _ ⟨⟩
    · rintro _ ⟨⟩
  | tagged cleaned topic pc hWas hApi hOld hPc =>
    refine hCovered.set ?_ ?_
    · rintro _ ⟨⟩ name hName
      cases hName
    · rintro _ ⟨⟩
      obtain rfl | ⟨rfl, -⟩ := hPc
      · exact .inr (.inr ⟨rfl, hApi⟩)
      · exact .inl (List.forall_mem_nil _)
  | linked cleaned topic pc hWas hApi hOld hPc =>
    have hOwn : ∀ name ∈ cleaned, name ∈ topic.tags := by
      simpa [linksOwn, hWas, hApi, hOld] using hOk
    refine hCovered.set ?_ ?_
    · rintro _ ⟨⟩ name hName
      obtain hName | hName := List.mem_union_iff.mp hName
      · exact hCovered.edges _ topic hOld name hName
      · exact hOwn name hName
    · rintro _ ⟨⟩
      obtain hAll | ⟨m, hLinks⟩ := hCovered.tags _ topic hOld
      · exact .inl fun name hName => List.mem_union_iff.mpr (.inl (hAll name hName))
      · rcases eq_or_ne m n with rfl | hne
        · obtain rfl : cleaned = topic.tags := by simpa using hApi.symm.trans hLinks.hApi
          exact .inl fun name hName => List.mem_union_iff.mpr (.inr hName)
        · exact .inr (.inl ⟨m, hne, hLinks⟩)

theorem Covered.step {s t : World} (hKept : s.Kept) (hCovered : s.Covered) {a : StoreAct}
    (hOk : s.linksOwn a = true) (h : s.step a = some t) : t.Covered := by
  cases a with
  | tick d =>
    cases h
    exact hCovered.of_store rfl fun id topic m _ hLinks => .inl (hLinks.of_call rfl)
  | request id api =>
    cases h
    refine hCovered.of_store rfl fun id' topic m _ hLinks => .inl (hLinks.of_call ?_)
    have hne : m ≠ s.nextCall := by
      rintro rfl
      have hPc := hLinks.hPc
      rw [(hKept.fresh s.nextCall (Nat.le_refl _)).1] at hPc
      cases hPc
    exact Function.update_of_ne hne _ _
  | call n e => exact hCovered.callStep hOk h

/-! ## Whole runs -/

section Runs

variable {enforce : Bool} {cutoff : Option Int} {now : Int} {store : Text → Option Topic}
  {approved : List Text}

theorem covered_init
    (hStore : ∀ id topic, store id = some topic → ∀ name, name ∈ topic.hasTag ↔ name ∈ topic.tags) :
    (init enforce cutoff now store approved).Covered :=
  ⟨fun id topic h name => (hStore id topic h name).mp,
    fun id topic h => .inl fun name => (hStore id topic h name).mpr⟩

theorem run_tags {t : World} {acts : List StoreAct}
    (hRun : run step (init enforce cutoff now store approved) acts = some t) {id : Text}
    {topic : Topic} (hTopic : t.store id = some topic) :
    topic.tags = (trace step (tagWrites id) (init enforce cutoff now store approved) acts).getLast?.getD
      ((store id).elim [] Topic.tags) := by
  refine run_induction (motive := fun acts t => ∀ topic, t.store id = some topic → topic.tags =
    (trace step (tagWrites id) (init enforce cutoff now store approved) acts).getLast?.getD
      ((store id).elim [] Topic.tags)) hRun ?_ ?_ topic hTopic
  · intro topic hTopic
    have hTopic : store id = some topic := hTopic
    simp [trace, hTopic]
  · intro acts t a u hRun ih hs topic hTopic
    rw [trace_snoc step _ a hRun]
    obtain hWrites | ⟨hWrites, old, hOld, hTags⟩ := tags_step hs hTopic
    · simp [hWrites]
    · rw [hWrites, List.append_nil, ← ih old hOld, hTags]

/-- A topic that no call is about to link has the edges and the property of the last write, if
all calls have linked their own tags. -/
theorem tags_agree {t : World} {acts : List StoreAct}
    (hStore : ∀ id topic, store id = some topic → ∀ name, name ∈ topic.hasTag ↔ name ∈ topic.tags)
    (hRun : run step (init enforce cutoff now store approved) acts = some t)
    (hOwn : Along step (fun s a => s.linksOwn a = true) (init enforce cutoff now store approved) acts)
    {id : Text} {topic : Topic} (hTopic : t.store id = some topic) (hIdle : t.Idle id) :
    Tagged topic ((trace step (tagWrites id) (init enforce cutoff now store approved)
      acts).getLast?.getD ((store id).elim [] Topic.tags)) := by
  have hInv : t.Kept ∧ t.Covered := by
    refine @Reach.invariant _ _ _ _ (fun s => s.Kept ∧ s.Covered) _ _
      ⟨kept_init .., covered_init hStore⟩ ?_ (Reach.of_run hRun hOwn)
    intro t a u _ hInv hOk hs
    exact ⟨hInv.1.step hs, hInv.2.step hInv.1 hOk hs⟩
  refine ⟨fun name => ⟨hInv.2.edges id topic hTopic name, ?_⟩, run_tags hRun hTopic⟩
  obtain hAll | ⟨n, hLinks⟩ := hInv.2.tags id topic hTopic
  · exact hAll name
  · exact absurd hLinks.hPc (hIdle n hLinks.hId)

end Runs

theorem idle_of_calls {s : World} (hKept : s.Kept)
    (h : ∀ n < s.nextCall, (s.call n).pc ≠ .linking) (id : Text) : s.Idle id := by
  intro n _ hPc
  rcases Nat.lt_or_ge n s.nextCall with hLt | hGe
  · exact h n hLt hPc
  · rw [(hKept.fresh n hGe).1] at hPc
    cases hPc

/-- A store with the one topic `t`, which has no tags. -/
def oneTopic : Text → Option Topic := fun id =>
  if id = ['t'] then some ⟨none, none, none, none, none, .unknown, none, [], []⟩ else none

def start : World := init false none 0 oneTopic []

theorem oneTopic_edges (id : Text) (topic : Topic) (h : oneTopic id = some topic) (name : Text) :
    name ∈ topic.hasTag ↔ name ∈ topic.tags := by
  rw [oneTopic] at h
  split at h <;> cases h
  exact Iff.rfl

/-- What is checked of the last state of a run: the calls, the property and the edges. -/
def showsTags (property edges : List Text) (s : World) : Bool :=
  decide (∀ n < s.nextCall, (s.call n).pc ≠ .linking) &&
    (s.store ['t']).any fun topic => topic.tags = property && topic.hasTag = edges

theorem exists_tags {acts : List StoreAct} {property edges : List Text}
    (h : (run step start acts).any (showsTags property edges) = true) :
    ∃ t topic, run step start acts = some t ∧ t.store ['t'] = some topic ∧ t.Idle ['t'] ∧
      topic.tags = property ∧ topic.hasTag = edges := by
  obtain ⟨t, hRun, hShows⟩ := exists_run_of_any step start acts _ h
  simp only [showsTags, Bool.and_eq_true, decide_eq_true_eq, Option.any_eq_true] at hShows
  obtain ⟨hCalls, topic, hTopic, hTags, hEdges⟩ := hShows
  have hReach : Reach step (fun _ _ => True) start t :=
    Reach.of_run hRun (Along.of_forall fun _ _ _ => trivial)
  have hKept : t.Kept := hReach.invariant (kept_init ..) fun _ _ _ _ hInv _ hs => hInv.step hs
  exact ⟨t, topic, hRun, hTopic, idle_of_calls hKept hCalls ['t'], hTags, hEdges⟩

/-- One call after another. -/
def retagging : List StoreAct :=
  [setTagsRequest (List.map Char.toLower) ['t'] [['A'], ['a', ' ', 'b'], ['a']], .call 0 .run,
    .call 0 .run, setTagsRequest (List.map Char.toLower) ['t'] [['B']], .call 1 .run, .call 1 .run]

theorem retagging_agrees : ∃ t topic, run step start retagging = some t ∧
    t.store ['t'] = some topic ∧ Tagged topic [['b']] := by
  obtain ⟨t, topic, hRun, hTopic, hIdle, -, -⟩ :=
    @exists_tags retagging [['b']] [['b']] (by decide)
  exact ⟨t, topic, hRun, hTopic, tags_agree oneTopic_edges hRun (by decide) hTopic hIdle⟩

/-- The property is set to `a` and then to `b` before either call links its tag. -/
def crossing : List StoreAct :=
  [setTagsRequest (List.map Char.toLower) ['t'] [['a']],
    setTagsRequest (List.map Char.toLower) ['t'] [['b']],
    .call 0 .run, .call 1 .run, .call 0 .run, .call 1 .run]

theorem crossing_disagrees : ∃ t topic, run step start crossing = some t ∧
    t.store ['t'] = some topic ∧ t.Idle ['t'] ∧ topic.tags = [['b']] ∧
    topic.hasTag = [['a'], ['b']] ∧ ∀ tags, ¬Tagged topic tags := by
  obtain ⟨t, topic, hRun, hTopic, hIdle, hTags, hEdges⟩ :=
    @exists_tags crossing [['b']] [['a'], ['b']] (by decide)
  refine ⟨t, topic, hRun, hTopic, hIdle, hTags, hEdges, fun tags hTagged => ?_⟩
  have hEdge := hTagged.edges ['a']
  rw [hTags, hEdges] at hEdge
  exact absurd (hEdge.mp (by decide)) (by decide)

end World

end OpenSpoke.Handoff
