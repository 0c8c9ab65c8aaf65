import OpenSpoke.Handoff.Store

/-!
# The policy of the knowledge base

`enforce_sysml_policy` looks at created_at in one session, and `MERGE` writes in
another. A topic that was exempt when it was looked at may be gone by then, and
`MERGE` creates a new one with the content that nobody has validated.
-/

namespace OpenSpoke.Handoff

open Lts
open Python (Text)

/-- The time is at or after the cutoff. -/
def binds (cutoff : Option Int) (created : CreatedAt) : Bool :=
  match cutoff, created with
  | some c, .known time => c ≤ time
  | _, _ => false

/-- The stored topic is exempt; or there is none, and one made at this time would be. -/
def exempts (cutoff : Option Int) (nowIso : Int) : Option Topic → Bool
  | some topic => !binds cutoff topic.createdAt
  | none => !binds cutoff (.known nowIso)

theorem exempts_merge (cutoff : Option Int) (nowIso : Int) (u : Upsert) (stored : Option Topic) :
    exempts cutoff nowIso stored = !binds cutoff (u.merge nowIso stored).createdAt := by
  cases stored <;> rfl

namespace World

/-- The policy holds for every stored topic. -/
def Policy (s : World) : Prop :=
  ∀ id topic, s.store id = some topic → binds s.cutoff topic.createdAt = true →
    ∀ content, topic.content = some content → content ∈ s.approved

/-- What the store promises in a step. -/
structure Upheld (s : World) (a : StoreAct) : Prop where
  policy : ∀ t, s.step a = some t → t.Policy
  refused : ∀ n, (s.call n).pc = .replied .policyError → s.wrote n = false
  older : ∀ t id topic topic', s.step a = some t → s.store id = some topic →
    t.store id = some topic' → topic'.createdAt = topic.createdAt

/-- The condition on a step: a content that has not been validated is merged into a topic that
is exempt, still. -/
def exemptStill (s : World) : StoreAct → Bool
  | .call n .run =>
    match (s.call n).pc, (s.call n).api with
    | .merging nowIso validated, .upsert u =>
      validated || u.content.isNone || u.content.any (· ∈ s.approved) ||
        exempts s.cutoff nowIso (s.store (s.call n).id)
    | _, _ => true
  | _ => true

/-- The content of the call has been accepted. -/
def Accepted (s : World) (n : Nat) : Prop :=
  ∀ text, content (s.call n).api = some text → text ∈ s.approved

/-- A reply that is no refusal. -/
def CallPc.settled : CallPc → Bool
  | .linking => true
  | .replied r => r ≠ .policyError
  | _ => false

def CallPc.vouched : CallPc → Bool
  | .stamping validated | .merging _ validated => validated
  | _ => false

/-- Calls that merge a validated content, and calls that have changed the store. -/
structure Kept (s : World) : Prop where
  vouched : ∀ n, CallPc.vouched (s.call n).pc = true → s.Accepted n
  wrote : ∀ n, s.wrote n = true → CallPc.settled (s.call n).pc = true
  fresh : ∀ n, s.nextCall ≤ n → (s.call n).pc = .absent ∧ s.wrote n = false

/-- What a call can do. -/
inductive CallMove (s : World) (n : Nat) : CallEv → World → Prop
  | go (e : CallEv) (pc : CallPc)
      (hVouched : CallPc.vouched pc = true → CallPc.vouched (s.call n).pc = true)
      (hSettled : CallPc.settled (s.call n).pc = true → CallPc.settled pc = true)
      (hMerging : e = .run → ∀ nowIso validated u, (s.call n).pc = .merging nowIso validated →
        (s.call n).api ≠ .upsert u) : CallMove s n e (s.callTo n pc)
  | accepted (e : CallEv) (hPc : (s.call n).pc = .validating) (hEv : e ≠ .run) :
      CallMove s n e ((s.callTo n (.stamping true)).approve (content (s.call n).api))
  | merged (nowIso : Int) (validated : Bool) (u : Upsert) (r : Reply)
      (hPc : (s.call n).pc = .merging nowIso validated) (hApi : (s.call n).api = .upsert u)
      (hReply : r ≠ .policyError) :
      CallMove s n .run
        ((s.setTopic n (some (u.merge nowIso (s.store (s.call n).id)))).callTo n (.replied r))
  -- a topic is deleted, or its tags are set
  | changed (topic : Topic) (new : Option Topic) (pc : CallPc)
      (hOld : s.store (s.call n).id = some topic)
      (hNew : ∀ t, new = some t → t.createdAt = topic.createdAt ∧ t.content = topic.content)
      (hPc : CallPc.vouched pc = false) (hSettled : CallPc.settled pc = true)
      (hMerging : ∀ nowIso validated u, (s.call n).pc = .merging nowIso validated →
        (s.call n).api ≠ .upsert u) :
      CallMove s n .run ((s.setTopic n new).callTo n pc)

theorem callStep_move {s t : World} {n : Nat} {e : CallEv} (h : s.callStep n e = some t) :
    CallMove s n e t := by
  unfold callStep at h
  dsimp only at h
  split at h
  next hPc =>
    split at h <;> cases h
    all_goals exact .go _ _ (by simp [CallPc.vouched]) (by simp [CallPc.settled, hPc]) (by simp [hPc])
  next hPc => cases h; exact .accepted _ hPc (by simp)
  next hPc =>
    cases h
    exact .go _ _ (by simp [CallPc.vouched]) (by simp [CallPc.settled, hPc]) (by simp [hPc])
  next validated hPc =>
    cases h
    exact .go _ _ (by simp [CallPc.vouched, hPc]) (by simp [CallPc.settled, hPc]) (by simp [hPc])
  next nowIso validated u hPc hApi => cases h; exact .merged nowIso validated u _ hPc hApi (by simp)
  next hPc =>
    split at h <;> cases h
    · exact .go _ _ (by simp [CallPc.vouched]) (by simp [CallPc.settled, hPc]) (by simp [hPc])
    · next topic hOld =>
      exact .changed topic none _ hOld (by simp) rfl (by simp [CallPc.settled]) (by simp [hPc])
  next cleaned hPc hApi =>
    split at h <;> cases h
    · exact .go _ _ (by simp [CallPc.vouched]) (by simp [CallPc.settled, hPc]) (by simp [hPc])
    · next topic hOld =>
      refine .changed topic _ _ hOld ?_ ?_ ?_ (by simp [hPc])
      · rintro _ ⟨⟩
        exact ⟨rfl, rfl⟩
      · split <;> rfl
      · split <;> rfl
  next cleaned hPc hApi =>
    split at h <;> cases h
    · exact .go _ _ (by simp [CallPc.vouched]) (by simp [CallPc.settled]) (by simp [hPc])
    · next topic hOld =>
      refine .changed topic _ _ hOld ?_ rfl rfl (by simp [hPc])
      rintro _ ⟨⟩
      exact ⟨rfl, rfl⟩
  next => cases h; exact .go _ _ (by simp [CallPc.vouched]) (by simp [CallPc.settled]) (by simp)
  next => cases h; exact .go _ _ (by simp [CallPc.vouched]) (by simp [CallPc.settled]) (by simp)
  next => cases h; exact .go _ _ (by simp [CallPc.vouched]) (by simp [CallPc.settled]) (by simp)
  next => cases h; exact .go _ _ (by simp [CallPc.vouched]) (by simp [CallPc.settled]) (by simp)
  next => cases h; exact .go _ _ (by simp [CallPc.vouched]) (by simp [CallPc.settled]) (by simp)
  next => cases h

theorem callStep_lt {s t : World} (hs : s.Kept) {n : Nat} {e : CallEv} (h : s.callStep n e = some t) :
    n < s.nextCall := by
  by_contra hLe
  unfold callStep at h
  dsimp only at h
  rw [(hs.fresh n (Nat.le_of_not_lt hLe)).1] at h
  cases h

theorem Kept.callTo {s : World} (hs : s.Kept) {n : Nat} {pc : CallPc} (hn : n < s.nextCall)
    (hVouched : CallPc.vouched pc = true → s.Accepted n)
    (hSettled : s.wrote n = true → CallPc.settled pc = true) : (s.callTo n pc).Kept := by
  refine ⟨fun m hm => ?_, fun m hm => ?_, fun m hm => ?_⟩
  · rcases eq_or_ne m n with rfl | hne
    · have hAccepted := hVouched (by simpa using hm)
      simpa [Accepted] using hAccepted
    · have hAccepted := hs.vouched m (by simpa [hne] using hm)
      simpa [Accepted, hne] using hAccepted
  · rcases eq_or_ne m n with rfl | hne
    · simpa using hSettled hm
    · simpa [hne] using hs.wrote m hm
  · have hne : m ≠ n := fun hEq => Nat.not_lt.mpr hm (hEq ▸ hn)
    simpa [hne] using hs.fresh m hm

theorem Kept.setTopic {s : World} (hs : s.Kept) {n : Nat} {topic : Option Topic} {pc : CallPc}
    (hn : n < s.nextCall) (hVouched : CallPc.vouched pc = false) (hSettled : CallPc.settled pc = true) :
    ((s.setTopic n topic).callTo n pc).Kept := by
  refine ⟨fun m hm => ?_, fun m hm => ?_, fun m hm => ?_⟩
  · rcases eq_or_ne m n with rfl | hne
    · simp [hVouched] at hm
    · have hAccepted := hs.vouched m (by simpa [hne] using hm)
      simpa [Accepted, hne] using hAccepted
  · rcases eq_or_ne m n with rfl | hne
    · simpa using hSettled
    · simpa [hne] using hs.wrote m (by simpa [hne] using hm)
  · have hne : m ≠ n := fun hEq => Nat.not_lt.mpr hm (hEq ▸ hn)
    simpa [hne] using hs.fresh m hm

theorem Kept.step {s t : World} (hs : s.Kept) {a : StoreAct} (h : s.step a = some t) : t.Kept := by
  cases a with
  | tick d =>
    cases h
    exact ⟨hs.vouched, hs.wrote, hs.fresh⟩
  | request id api =>
    cases h
    have hNew : CallPc.vouched (s.begin api) = false := by
      cases api with
      | upsert u =>
        simp only [begin]
        split <;> rfl
      | _ => rfl
    refine ⟨fun m hm => ?_, fun m hm => ?_, fun m hm => ?_⟩
    · rcases eq_or_ne m s.nextCall with rfl | hne
      · simp [hNew] at hm
      · have hAccepted := hs.vouched m (by simpa [hne] using hm)
        simpa [Accepted, hne] using hAccepted
    · have hne : m ≠ s.nextCall := by
        rintro rfl
        rw [(hs.fresh s.nextCall (Nat.le_refl _)).2] at hm
        cases hm
      simpa [hne] using hs.wrote m hm
    · have hm : s.nextCall + 1 ≤ m := hm
      have hne : m ≠ s.nextCall := by omega
      simpa [hne] using hs.fresh m (by omega)
  | call n e =>
    have hn := callStep_lt hs h
    cases callStep_move h with
    | go e pc hVouched hSettled hMerging =>
      exact hs.callTo hn (fun hv => hs.vouched n (hVouched hv)) fun hw => hSettled (hs.wrote n hw)
    | accepted e hPc hEv =>
      have hAdd : ∀ m, s.Accepted m → (s.approve (content (s.call n).api)).Accepted m :=
        fun m hm text hText => List.mem_append_left _ (hm text hText)
      have hApproved : (s.approve (content (s.call n).api)).Kept :=
        ⟨fun m hm => hAdd m (hs.vouched m hm), hs.wrote, hs.fresh⟩
      refine hApproved.callTo hn (fun _ text hText => ?_) fun hw => ?_
      · exact List.mem_append_right _ (by simpa using hText)
      · have hWas := hs.wrote n hw
        simp [hPc, CallPc.settled] at hWas
    | merged nowIso validated u r hPc hApi hReply =>
      exact hs.setTopic hn rfl (by simpa [CallPc.settled] using hReply)
    | changed topic new pc hOld hNew hPc hSettled hMerging => exact hs.setTopic hn hPc hSettled

theorem kept_init (enforce : Bool) (cutoff : Option Int) (now : Int) (store : Text → Option Topic)
    (approved : List Text) : (init enforce cutoff now store approved).Kept :=
  ⟨fun _ h => (nomatch h), fun _ h => (nomatch h), fun _ _ => ⟨rfl, rfl⟩⟩

theorem policy_merged {s : World} (hs : s.Policy) {n : Nat} {nowIso : Int} {u : Upsert} {pc : CallPc} :
    ((s.setTopic n (some (u.merge nowIso (s.store (s.call n).id)))).callTo n pc).Policy ↔
      (binds s.cutoff (u.merge nowIso (s.store (s.call n).id)).createdAt = true →
        ∀ text, u.content = some text → text ∈ s.approved) := by
  refine ⟨fun hNew hBinds text hText => ?_, fun hMerged id topic hTopic hBinds text hText => ?_⟩
  · exact hNew (s.call n).id _ (by simp) hBinds text (by simp [Upsert.merge, hText])
  · rcases eq_or_ne id (s.call n).id with rfl | hne
    · obtain rfl : u.merge nowIso (s.store (s.call n).id) = topic := by simpa using hTopic
      cases hContent : u.content with
      | some text' =>
        obtain rfl : text' = text := by simpa [Upsert.merge, hContent] using hText
        exact hMerged hBinds text' hContent
      | none =>
        cases hOld : s.store (s.call n).id with
        | none => simp [Upsert.merge, hContent, hOld] at hText
        | some old =>
          refine hs _ old hOld (by simpa [Upsert.merge, hOld] using hBinds) text ?_
          simpa [Upsert.merge, hContent, hOld] using hText
    · exact hs id topic (by simpa [hne] using hTopic) hBinds text hText

theorem policy_changed {s : World} (hs : s.Policy) {n : Nat} {topic : Topic} {new : Option Topic}
    {pc : CallPc} (hOld : s.store (s.call n).id = some topic)
    (hNew : ∀ t, new = some t → t.createdAt = topic.createdAt ∧ t.content = topic.content) :
    ((s.setTopic n new).callTo n pc).Policy := by
  intro id topic' hTopic hBinds text hText
  rcases eq_or_ne id (s.call n).id with rfl | hne
  · obtain ⟨hCreated, hContent⟩ := hNew topic' (by simpa using hTopic)
    exact hs _ topic hOld (by rwa [← hCreated]) text (by rwa [← hContent])
  · exact hs id topic' (by simpa [hne] using hTopic) hBinds text hText

/-- The policy survives a step exactly if the step meets the condition. -/
theorem policy_step {s : World} (hs : s.Kept) (hPolicy : s.Policy) (a : StoreAct) :
    s.exemptStill a = true ↔ ∀ t, s.step a = some t → t.Policy := by
  have hTrue : s.exemptStill a = true → (∀ t, s.step a = some t → t.Policy) →
      (s.exemptStill a = true ↔ ∀ t, s.step a = some t → t.Policy) := fun h h' => iff_of_true h h'
  cases a with
  | tick d =>
    refine hTrue rfl fun t h => ?_
    cases h
    exact hPolicy
  | request id api =>
    refine hTrue rfl fun t h => ?_
    cases h
    exact hPolicy
  | call n e =>
    by_cases hMerge : e = .run ∧ ∃ nowIso validated u, (s.call n).pc = .merging nowIso validated ∧
        (s.call n).api = .upsert u
    · obtain ⟨rfl, nowIso, validated, u, hPc, hApi⟩ := hMerge
      have hStep : s.step (.call n .run) = some ((s.setTopic n (some (u.merge nowIso
          (s.store (s.call n).id)))).callTo n (.replied (.upserted
            ((u.merge nowIso (s.store (s.call n).id)).createdAt = .known nowIso)
            (u.merge nowIso (s.store (s.call n).id)).createdAt))) := by
        change s.callStep n .run = _
        unfold callStep
        dsimp only
        rw [hPc, hApi]
      have hVouched : validated = true → ∀ text, u.content = some text → text ∈ s.approved := by
        rintro rfl text hText
        exact hs.vouched n (by rw [hPc]; rfl) text (by rw [hApi]; exact hText)
      simp only [hStep, Option.some.injEq, forall_eq', policy_merged hPolicy, exemptStill, hPc, hApi,
        exempts_merge _ _ u, Bool.or_eq_true, Bool.not_eq_true']
      cases hContent : u.content with
      | none => simp
      | some text =>
        have hVouched : validated = true → text ∈ s.approved := fun hv => hVouched hv text hContent
        cases binds s.cutoff (u.merge nowIso (s.store (s.call n).id)).createdAt <;>
          cases validated <;> simp_all
    · have hNot : s.exemptStill (.call n e) = true := by
        unfold exemptStill
        split
        · next m hEq =>
          cases hEq
          split
          · next nowIso validated u hPc hApi =>
            exact absurd ⟨rfl, nowIso, validated, u, hPc, hApi⟩ hMerge
          · rfl
        · rfl
      refine hTrue hNot fun t h => ?_
      cases callStep_move h with
      | go e pc => exact hPolicy
      | accepted e hPc hEv =>
        exact fun id topic hTopic hBinds text hText =>
          List.mem_append_left _ (hPolicy id topic hTopic hBinds text hText)
      | merged nowIso validated u r hPc hApi hReply =>
        exact absurd ⟨rfl, nowIso, validated, u, hPc, hApi⟩ hMerge
      | changed topic new pc hOld hNew => exact policy_changed hPolicy hOld hNew

theorem createdAt_step {s t : World} {a : StoreAct} (h : s.step a = some t) {id : Text}
    {topic topic' : Topic} (hOld : s.store id = some topic) (hNew : t.store id = some topic') :
    topic'.createdAt = topic.createdAt := by
  have hSame : t.store id = s.store id → topic'.createdAt = topic.createdAt := fun hEq => by
    rw [hEq, hOld] at hNew
    rw [Option.some.inj hNew]
  cases a with
  | tick d =>
    cases h
    exact hSame rfl
  | request id api =>
    cases h
    exact hSame rfl
  | call n e =>
    cases callStep_move h with
    | go | accepted => exact hSame rfl
    | merged nowIso validated u r hPc hApi hReply =>
      rcases eq_or_ne id (s.call n).id with rfl | hne
      · obtain rfl : u.merge nowIso (s.store (s.call n).id) = topic' := by simpa using hNew
        simp [Upsert.merge, hOld]
      · exact hSame (by simp [hne])
    | changed topic₀ new pc hOld₀ hNew₀ =>
      rcases eq_or_ne id (s.call n).id with rfl | hne
      · obtain rfl := Option.some.inj (hOld.symm.trans hOld₀)
        exact (hNew₀ topic' (by simpa using hNew)).1
      · exact hSame (by simp [hne])

end World

/-- From a store that meets the policy, every step upholds it, refuses without a
change and keeps the created_at of every topic, exactly if in every step a content
that has not been validated is merged into a topic that is exempt, still. -/
theorem policy_upheld (enforce : Bool) (cutoff : Option Int) (now : Int) (store : Text → Option Topic)
    (approved : List Text) (hStore : (World.init enforce cutoff now store approved).Policy)
    (acts : List StoreAct) :
    Along World.step (fun s a => s.exemptStill a = true) (.init enforce cutoff now store approved) acts ↔
      Along World.step World.Upheld (.init enforce cutoff now store approved) acts := by
  refine along_congr (fun s => s.Kept ∧ s.Policy) (fun s a hs => ?_) (fun s a t hs hUpheld h => ?_)
    ⟨World.kept_init _ _ _ _ _, hStore⟩ acts
  · rw [World.policy_step hs.1 hs.2 a]
    refine ⟨fun hPolicy => ⟨hPolicy, fun n hPc => ?_, fun t id topic topic' h hOld hNew => ?_⟩,
      fun hUpheld => hUpheld.policy⟩
    · refine Bool.eq_false_iff.mpr fun hWrote => ?_
      have hSettled := hs.1.wrote n hWrote
      simp [hPc, World.CallPc.settled] at hSettled
    · exact World.createdAt_step h hOld hNew
  · exact ⟨hs.1.step h, hUpheld.policy t h⟩

/-- A topic from before the cutoff, in Markdown. -/
def oldTopic : Topic := ⟨none, none, some ['#'], none, none, .known 5000000, none, [], []⟩

def oldStore : Text → Option Topic := fun id => if id = ['t'] then some oldTopic else none

/-- The old topic is updated without validation, and a new one with it. -/
def updateOldAndNew : List StoreAct :=
  [.request ['t'] (.upsert ⟨none, none, some ['x'], none, none⟩), .call 0 .run, .call 0 .stamp,
    .call 0 .run, .request ['u'] (.upsert ⟨none, none, some ['y'], none, none⟩), .call 1 .run,
    .call 1 (.verdict (some true)), .call 1 .stamp, .call 1 .run]

theorem updateOldAndNew_upheld :
    Along World.step World.Upheld (.init true (some 10000000) 20000000 oldStore []) updateOldAndNew := by
  have hStore : (World.init true (some 10000000) 20000000 oldStore []).Policy := by
    intro id topic hTopic hBinds
    have hTopic : oldStore id = some topic := hTopic
    unfold oldStore at hTopic
    split at hTopic
    · cases hTopic
      cases hBinds
    · cases hTopic
  exact (policy_upheld true (some 10000000) 20000000 oldStore [] hStore _).mp (by decide)

/-- The old topic is deleted after the check and before the merge. -/
theorem deletedMeanwhile_unvalidated :
    ∃ s, run World.step (.init true (some 10000000) 20000000 oldStore [])
        [.request ['t'] (.upsert ⟨none, none, some ['x'], none, none⟩), .call 0 .run, .call 0 .stamp,
          .request ['t'] .delete, .call 1 .run, .call 0 .run] = some s ∧ ¬ s.Policy := by
  obtain ⟨s, hRun, hs⟩ := exists_run_of_any World.step (.init true (some 10000000) 20000000 oldStore [])
    [.request ['t'] (.upsert ⟨none, none, some ['x'], none, none⟩), .call 0 .run, .call 0 .stamp,
      .request ['t'] .delete, .call 1 .run, .call 0 .run]
    (fun s => s.store ['t'] =
        some ⟨none, none, some ['x'], none, none, .known 20000000, some 20000000, [], []⟩ &&
      s.cutoff = some 10000000 && s.approved = []) (by decide)
  simp only [Bool.and_eq_true, decide_eq_true_eq] at hs
  obtain ⟨⟨hTopic, hCutoff⟩, hApproved⟩ := hs
  refine ⟨s, hRun, fun hPolicy => ?_⟩
  have hMem := hPolicy ['t'] _ hTopic (by simp [hCutoff, binds]) ['x'] rfl
  simp [hApproved] at hMem

end OpenSpoke.Handoff
