import OpenSpoke.Spawn.Answers
import OpenSpoke.Spawn.Cancel
import OpenSpoke.Spawn.Pickup

/-!
# Questions and answers

The history of a spawn that says which question each answer was given to, and in
reply to which question the worker has put it into the conversation. The queue
does not know the question: an answer that is appended second, or while the
worker goes on, is the reply to the next question, and an answer taken in the
last turn is read by nobody.
-/

namespace OpenSpoke.Spawn

open Lts
open Python (Text)

structure Talk where
  world : World
  -- the questions that the worker has asked
  asked : Nat
  -- the number of the question whose waiting_user was written last
  posed : Nat
  -- no answer has been appended since then
  free : Bool
  -- update call ↦ the number of the question that it writes
  poses : Nat → Nat
  -- the answer calls whose entries are queued
  owners : List Nat
  -- answer call ↦ the question that was posed when it was appended
  appended : Nat → Option Nat
  -- pop call ↦ the answer call whose entry it has removed
  took : Nat → Option Nat
  -- question and answer call that returned ok while the question was open
  accepted : List (Nat × Nat)
  -- question and answer call whose entry the worker has put after it
  replies : List (Nat × Nat)
  -- no Claude turn has begun since the last reply
  unseen : Bool
  -- a force_state has taken effect
  forced : Bool

namespace Talk

def init (isSupervisor : Bool) (mode : Mode) : Talk where
  world := .init isSupervisor mode
  asked := 0
  posed := 0
  free := false
  poses _ := 0
  owners := []
  appended _ := none
  took _ := none
  accepted := []
  replies := []
  unseen := false
  forced := false

/-- Call `n` writes `u`, or finds it written. -/
def writes (h : Talk) (n : Nat) (u : Update) : Talk :=
  match u with
  | .updateState v =>
    if v.state = some .waitingUser then { h with posed := h.poses n, free := true } else h
  | .answer _ =>
    { h with
      owners := h.owners ++ [n]
      appended := Function.update h.appended n (some h.posed)
      free := false }
  | .popAnswer => { h with owners := h.owners.tail, took := Function.update h.took n h.owners.head? }
  | .forceState _ => { h with owners := [], forced := true }
  | _ => h

/-- Call `n` is about to confirm an answer while a question is open. -/
def accepts (h : Talk) (n : Nat) : Bool :=
  match (h.world.call n).pc, (h.world.call n).api with
  | .reply .ok, .answer _ => (h.world.call n).reply.isNone && h.world.state = .waitingUser
  | _, _ => false

/-- The history after a step of the run `n` of `process_job`. -/
def works (h : Talk) (n : Nat) (e : JobEv) : Talk :=
  match (h.world.job n).pc, e with
  | .stream, .streamed (some text) =>
    if (extractBlockingQuestion text).isSome then
      { h with
        asked := h.asked + 1
        poses := Function.update h.poses h.world.nextCall (h.asked + 1) }
    else h
  | .popping m, .tau =>
    match (h.world.call m).reply with
    | some (.entry (some _) _) =>
      { h with
        replies := h.replies ++ (h.took m).toList.map (fun a => (h.asked, a))
        unseen := true }
    | _ => h
  | .turn, .tau => { h with unseen := h.unseen && !h.world.startsTurn (.job n e) }
  | _, _ => h

def record (h : Talk) : SpawnAct → Talk
  | .call n .land => (h.world.lands (.call n .land)).elim h (h.writes n)
  | .call n .noop =>
    match (h.world.call n).pc with
    | .update u _ _ _ => h.writes n u
    | _ => h
  | .call n .ret => if h.accepts n then { h with accepted := h.accepted ++ [(h.posed, n)] } else h
  | .job n e => h.works n e
  | _ => h

def step (h : Talk) (a : SpawnAct) : Option Talk :=
  (h.world.step a).map fun t => { h.record a with world := t }

/-- The worker reports the spawn done. -/
def reportsDone (h : Talk) : SpawnAct → Bool
  | .job n .tau => (h.world.job n).pc = .turn ∧ ¬ (h.world.job n).turnNum < (h.world.job n).maxTurns
  | .job n (.streamed (some text)) =>
    (h.world.job n).pc = .stream ∧ extractBlockingQuestion text = none
  | .job n (.answered true) => (h.world.job n).pc = .gemma
  | _ => false

/-- The answers reach their questions in this step. -/
structure Faithful (h : Talk) (a : SpawnAct) : Prop where
  once : (h.replies.map Prod.snd).Nodup
  own : ∀ q n, (q, n) ∈ h.accepted → ∀ q', (q', n) ∈ h.replies → q' = q
  before : h.world.startsTurn a = true → ∀ q n, (q, n) ∈ h.accepted → (q, n) ∈ h.replies
  seen : h.reportsDone a = true → h.unseen = false

/-- The condition on a step. -/
def orderly (h : Talk) : SpawnAct → Bool
  | .call n .land =>
    match h.world.lands (.call n .land) with
    | some (.answer _) => h.free
    -- the worker awaits this pop, and its handler has not given up
    | some .popAnswer => (h.world.call n).reply.isNone &&
        (List.range h.world.nextCall).any fun j => (h.world.job j).pc = .popping n
    | _ => true
  | .call n .ret => !h.accepts n || h.appended n = some h.posed
  | .job n .timeout =>
    match (h.world.job n).pc with
    | .popping m => (h.took m).isNone
    | _ => true
  | .job n .tau => !h.world.answered n || (h.world.job n).turnNum < (h.world.job n).maxTurns
  | _ => true

end Talk

/-- The run awaits an answer. -/
def JobPc.awaits : JobPc → Bool
  | .asking _ | .poll | .popping _ => true
  | _ => false

/-- The run has sent its last state. -/
def JobPc.over : JobPc → Bool
  | .closing _ _ | .finalizing _ | .ended => true
  | _ => false

namespace World

/-- A run works on the spawn because a pickup has returned it. -/
def Started (s : World) : Prop := ∀ n, (s.job n).pc ≠ .absent → s.Returned n

theorem callStep_job {s t : World} {n : Nat} {e : CallEv} (h : s.callStep n e = some t) :
    t.job = s.job := by
  cases callStep_move h <;> rfl

theorem jobStep_other {s t : World} {n m : Nat} {e : JobEv} (h : s.jobStep n e = some t)
    (hm : m ≠ n) : t.job m = s.job m := by
  cases jobStep_effect h <;> simp [hm]

theorem jobStep_present {s t : World} {n : Nat} {e : JobEv} (h : s.jobStep n e = some t) :
    (s.job n).pc ≠ .absent := by
  intro hPc
  simp [jobStep, hPc] at h

theorem startStep_move {s t : World} {n : Nat} (h : s.startStep n = some t) :
    s.Returned n ∧ (s.job n).pc = .absent ∧ t.call = s.call ∧ t.nextCall = s.nextCall ∧ t.doc = s.doc ∧
      ∃ pc b, (pc = .triage ∨ pc = .turn) ∧ t.job = Function.update s.job n ⟨pc, 0, b⟩ := by
  unfold startStep at h
  split at h
  next d hApi hReply hJob =>
    refine ⟨⟨d, hReply⟩, hJob, ?_⟩
    split at h <;> cases h
    · exact ⟨rfl, rfl, rfl, .triage, d.isSupervisor, .inl rfl, rfl⟩
    · exact ⟨rfl, rfl, rfl, .turn, d.isSupervisor, .inr rfl, rfl⟩
  next => cases h

theorem Returned.lt {s : World} (hs : s.Fresh) {n : Nat} (h : s.Returned n) : n < s.nextCall := by
  obtain ⟨d, hd⟩ := h
  by_contra hLe
  rw [(hs n (Nat.le_of_not_lt hLe)).2.1] at hd
  cases hd

theorem started_step {s t : World} {a : SpawnAct} (hFresh : s.Fresh) (hs : s.Started)
    (h : s.step a = some t) : t.Started := by
  intro n hn
  have hWas : s.Returned n := by
    cases a with
    | request api =>
      simp only [step] at h
      split at h <;> cases h
      exact hs n hn
    | call m e => exact hs n (by rwa [← callStep_job h])
    | start m =>
      obtain ⟨hReturned, -, -, -, -, pc, b, -, hJob⟩ := startStep_move h
      rcases eq_or_ne n m with rfl | hne
      · exact hReturned
      · exact hs n (by simpa [hJob, hne] using hn)
    | job m e =>
      rcases eq_or_ne n m with rfl | hne
      · exact hs n (jobStep_present h)
      · exact hs n (by rwa [← jobStep_other h hne])
  obtain ⟨d, hd⟩ := hWas
  exact ⟨d, (step_replies h).2 n (Returned.lt hFresh ⟨d, hd⟩) _ hd⟩

structure Base (s : World) : Prop where
  picking : s.Picking
  planned : s.Planned
  fresh : s.Fresh
  started : s.Started

theorem base_init (isSupervisor : Bool) (mode : Mode) : (init isSupervisor mode).Base :=
  ⟨picking_init isSupervisor mode, planned_init isSupervisor mode, fresh_init isSupervisor mode,
    fun _ hn => absurd rfl hn⟩

theorem Base.step {s t : World} (hs : s.Base) {a : SpawnAct} (h : s.step a = some t) : t.Base :=
  ⟨hs.picking.step h, hs.planned.step h, fresh_step hs.fresh h, started_step hs.fresh hs.started h⟩

theorem Base.one {s : World} (hs : s.Base) {n m : Nat} (hn : (s.job n).pc ≠ .absent)
    (hm : (s.job m).pc ≠ .absent) : n = m :=
  hs.picking.one n m (.inr (hs.started n hn)) (.inr (hs.started m hm))

def Only (s : World) (n : Nat) : Prop := ∀ m ≠ n, (s.job m).pc = .absent

theorem Base.only {s : World} (hs : s.Base) {n : Nat} (hn : (s.job n).pc ≠ .absent) : s.Only n := by
  intro m hm
  by_contra hPresent
  exact hm (hs.one hPresent hn)

theorem Only.step {s t : World} {n : Nat} {e : JobEv} (hs : s.Only n) (h : s.jobStep n e = some t) :
    t.Only n := by
  intro m hm
  rw [jobStep_other h hm]
  exact hs m hm

def Awaits (s : World) : Prop := ∃ n, (s.job n).pc.awaits = true

def Live (s : World) : Prop := ∀ n, (s.job n).pc.over = false

theorem Only.awaits_iff {s : World} {n : Nat} (hs : s.Only n) :
    s.Awaits ↔ (s.job n).pc.awaits = true := by
  refine ⟨fun ⟨m, hm⟩ => ?_, fun hn => ⟨n, hn⟩⟩
  rcases eq_or_ne m n with rfl | hne
  · exact hm
  · rw [hs m hne] at hm
    cases hm

theorem Only.live_iff {s : World} {n : Nat} (hs : s.Only n) :
    s.Live ↔ (s.job n).pc.over = false := by
  refine ⟨fun h => h n, fun hn m => ?_⟩
  rcases eq_or_ne m n with rfl | hne
  · exact hn
  · rw [hs m hne]
    rfl

end World

/-- The call is about to write waiting_user. -/
def CallPc.poses : CallPc → Bool
  | .update (.updateState u) _ _ _ => u.state = some .waitingUser
  | _ => false

/-- The update of the call, if it makes one, has not been answered. -/
def CallPc.pending : CallPc → Bool
  | .reply _ | .over => false
  | _ => true

def CallPc.handed : CallPc → Option Text
  | .reply r => r.handed
  | _ => none

/-- The entry that the call has returned or is about to return. -/
def Call.gives (c : Call) : Option Text := c.reply.elim c.pc.handed Reply.handed

theorem Api.begin_handed (api : Api) : api.begin.handed = none := by
  cases api with
  | forceState new | answer text =>
    simp only [Api.begin]
    split <;> rfl
  | _ => rfl

theorem Api.afterRead_handed (api : Api) (i : Nat) (d : SpawnDoc) :
    (api.afterRead i d).handed = none := by
  cases api with
  | updateState u | finalize => rfl
  | _ =>
    simp only [Api.afterRead]
    split <;> rfl

theorem Api.begin_poses {api : Api} (hPublic : api.isPublic = true) : api.begin.poses = false := by
  cases api with
  | forceState new | answer text =>
    simp only [Api.begin]
    split <;> rfl
  | updateState u => cases hPublic
  | _ => rfl

theorem Api.afterRead_poses {api : Api} (hBegin : api.begin = .read) (i : Nat) (d : SpawnDoc) :
    (api.afterRead i d).poses = false := by
  cases api with
  | updateState u => cases hBegin
  | finalize => rfl
  | _ =>
    simp only [Api.afterRead]
    split <;> rfl

/-- Only the update of a pop that takes effect gives a call an entry to return. -/
theorem World.callStep_gives {s t : World} {n : Nat} {e : CallEv} (h : s.callStep n e = some t)
    (hPlans : (s.call n).pc.Plans s.doc (s.call n).api) : (t.call n).gives =
      if s.lands (.call n e) = some .popAnswer ∧ (s.call n).reply = none then
        s.doc.cur.answerQueue.head?
      else (s.call n).gives := by
  cases callStep_move h with
  | read i hPc hi =>
    have hRead := Api.afterRead_handed (s.call n).api i (s.doc.version i)
    simp [lands, Call.gives, hPc, hRead, show CallPc.read.handed = none from rfl]
  | unread hPc => simp [lands, Call.gives, hPc, CallPc.handed, Reply.handed]
  | failed u guard done conflict hPc => simp [lands, Call.gives, hPc, CallPc.handed, Reply.handed]
  | landed u guard done conflict d hPc hLand =>
    rw [hPc] at hPlans
    have hLands : s.lands (.call n .land) = some u := by simp [lands, hPc, hLand]
    cases hApi : (s.call n).api with
    | popAnswer =>
      rw [hApi] at hPlans
      obtain ⟨rfl, -, i, e, rest, rfl, -, hQueue, hDone⟩ := hPlans
      rw [(Document.update_some hLand).1, hQueue, hLands]
      cases hReply : (s.call n).reply <;> simp [Call.gives, CallPc.handed, hReply, hDone]
    | answer text =>
      rw [hApi] at hPlans
      obtain ⟨rfl, -, rfl, -⟩ := hPlans
      simp [hLands, Call.gives, CallPc.handed, hPc, Reply.handed]
    | _ =>
      rw [hApi] at hPlans
      obtain ⟨hPop, -, hDone, -⟩ := hPlans
      simp [hLands, hPop, Call.gives, CallPc.handed, hPc, hDone]
  | refused u guard done conflict hPc hLand =>
    rw [hPc] at hPlans
    have hLands : s.lands (.call n .land) = none := by simp [lands, hPc, hLand]
    have hConflict : conflict.handed = none := by
      cases hApi : (s.call n).api <;> rw [hApi] at hPlans
      case popAnswer => exact hPlans.2.1
      case answer => rw [hPlans.2.2.2]; rfl
      all_goals exact hPlans.2.2.2
    simp [hLands, Call.gives, CallPc.handed, hPc, hConflict]
  | noop u guard done conflict hPc hPartial hSame hCur =>
    rw [hPc] at hPlans
    have hDone : done.handed = none := by
      cases hApi : (s.call n).api <;> rw [hApi] at hPlans
      case popAnswer =>
        obtain ⟨rfl, -⟩ := hPlans
        cases hPartial
      case answer => rw [hPlans.2.2.1]; rfl
      all_goals exact hPlans.2.2.1
    simp [lands, Call.gives, CallPc.handed, hPc, hDone]
  | abandon u guard done conflict hPc hReply =>
    simp [lands, Call.gives, CallPc.handed, hPc, hReply, Reply.handed]
  | ret r hPc =>
    cases hReply : (s.call n).reply <;> simp [lands, Call.gives, CallPc.handed, hPc, hReply]

namespace Talk

/-- The worker has taken the entry of answer call `n` and not yet gone on. -/
def Taken (h : Talk) (n : Nat) : Prop :=
  ∃ j m, (h.world.job j).pc = .popping m ∧ h.took m = some n

/-- The entry of answer call `n` is queued, or taken and not yet in the conversation. -/
def Hangs (h : Talk) (n : Nat) : Prop := n ∈ h.owners ∨ h.Taken n

/-- The invariant while the worker has not sent its last state. -/
structure Course (h : Talk) : Prop where
  posing : ∀ n, (h.world.call n).pc.poses = true → h.poses n = h.asked ∧ h.posed + 1 = h.asked
  lone : ∀ n m, (h.world.call n).pc.poses = true → (h.world.call m).pc.poses = true → n = m
  landed : ∀ n q, h.appended n = some q → (q, n) ∈ h.replies ∨ h.Hangs n
  hangs : ∀ n, h.Hangs n → h.appended n = some h.asked ∧ h.posed = h.asked ∧ h.free = false ∧
    h.world.Awaits ∧ ∀ q, (q, n) ∉ h.replies
  single : h.owners.length ≤ 1
  alone : ∀ n, h.Taken n → h.owners = []
  free : h.free = true → h.posed = h.asked ∧ h.world.Awaits ∧ ∀ n, ¬ h.Hangs n
  posed : h.posed = h.asked ∨ h.posed + 1 = h.asked ∧ h.world.Awaits
  unseen : h.unseen = true → ∃ j, ((h.world.job j).pc = .turn ∨ ∃ m, (h.world.job j).pc = .resuming m) ∧
    (h.world.job j).turnNum < (h.world.job j).maxTurns

/-- The invariant of orderly runs without a force_state. -/
structure Tidy (h : Talk) : Prop where
  base : h.world.Base
  len : h.owners.length = h.world.doc.cur.answerQueue.length
  pending : ∀ n, (h.world.call n).pc.pending = true → h.appended n = none
  took : ∀ n, (h.took n).isSome = (h.world.call n).gives.isSome
  replied : ∀ q n, (q, n) ∈ h.replies → h.appended n = some q
  nodup : (h.replies.map Prod.snd).Nodup
  accepted : ∀ q n, (q, n) ∈ h.accepted → h.appended n = some q
  course : h.world.Live → h.Course

theorem Tidy.faithful {h : Talk} (hs : h.Tidy) (a : SpawnAct) : h.Faithful a := by
  have hLive : ∀ j, (h.world.job j).pc ≠ .absent → (h.world.job j).pc.over = false → h.world.Live :=
    fun j hj => (hs.base.only hj).live_iff.mpr
  refine ⟨hs.nodup, fun q n hAccepted q' hReplied => ?_, fun hStarts q n hAccepted => ?_,
    fun hDone => ?_⟩
  · exact Option.some.inj ((hs.replied q' n hReplied).symm.trans (hs.accepted q n hAccepted))
  · unfold World.startsTurn at hStarts
    split at hStarts
    next j =>
      have hPc : (h.world.job j).pc = .turn := by simpa using (of_decide_eq_true hStarts).1
      have hCourse := hs.course (hLive j (by simp [hPc]) (by rw [hPc]; rfl))
      refine (hCourse.landed n q (hs.accepted q n hAccepted)).resolve_right fun hHangs => ?_
      obtain ⟨k, hk⟩ := (hCourse.hangs n hHangs).2.2.2.1
      obtain rfl := hs.base.one (n := k) (m := j) (by rintro hAbsent; simp [hAbsent, JobPc.awaits] at hk)
        (by simp [hPc])
      simp [hPc, JobPc.awaits] at hk
    next => cases hStarts
  · have hUnseen : ∀ j, (h.world.job j).pc ≠ .absent → (h.world.job j).pc.over = false →
        ((h.world.job j).pc = .turn → ¬ (h.world.job j).turnNum < (h.world.job j).maxTurns) →
        (∀ m, (h.world.job j).pc ≠ .resuming m) → h.unseen = false := by
      intro j hj hOver hTurn hResuming
      refine Bool.eq_false_iff.mpr fun hUnseen => ?_
      obtain ⟨k, hPc, hLt⟩ := (hs.course (hLive j hj hOver)).unseen hUnseen
      obtain rfl := hs.base.one (n := k) (m := j)
        (by rcases hPc with hPc | ⟨m, hPc⟩ <;> simp [hPc]) hj
      rcases hPc with hPc | ⟨m, hPc⟩
      · exact hTurn hPc hLt
      · exact hResuming m hPc
    unfold reportsDone at hDone
    split at hDone
    next j =>
      obtain ⟨hPc, hTurns⟩ := of_decide_eq_true hDone
      exact hUnseen j (by simp [hPc]) (by rw [hPc]; rfl) (fun _ => hTurns) (by simp [hPc])
    next j text =>
      obtain ⟨hPc, -⟩ := of_decide_eq_true hDone
      exact hUnseen j (by simp [hPc]) (by rw [hPc]; rfl) (by simp [hPc]) (by simp [hPc])
    next j =>
      have hPc := of_decide_eq_true hDone
      exact hUnseen j (by simp [hPc]) (by rw [hPc]; rfl) (by simp [hPc]) (by simp [hPc])
    next => cases hDone

theorem tidy_init (isSupervisor : Bool) (mode : Mode) : (init isSupervisor mode).Tidy where
  base := World.base_init isSupervisor mode
  len := rfl
  pending _ _ := rfl
  took _ := rfl
  replied _ _ h := by cases h
  nodup := List.nodup_nil
  accepted _ _ h := by cases h
  course _ :=
    { posing := fun _ h => by cases h
      lone := fun _ _ h => by cases h
      landed := fun _ _ h => by cases h
      hangs := fun _ h => by rcases h with h | ⟨_, _, h, _⟩ <;> cases h
      single := Nat.zero_le 1
      alone := fun _ _ => rfl
      free := fun h => by cases h
      posed := .inl rfl
      unseen := fun h => by cases h }

theorem taken_iff {h : Talk} {j : Nat} (hOnly : h.world.Only j) (n : Nat) :
    h.Taken n ↔ ∃ m, (h.world.job j).pc = .popping m ∧ h.took m = some n := by
  refine ⟨fun ⟨k, m, hPc, hTook⟩ => ?_, fun ⟨m, hm⟩ => ⟨j, m, hm⟩⟩
  rcases eq_or_ne k j with rfl | hne
  · exact ⟨m, hPc, hTook⟩
  · rw [hOnly k hne] at hPc
    cases hPc

/-- While the worker does not wait, no answer is under way and no question is being written. -/
theorem Course.calm {h : Talk} (hs : h.Course) (hAwaits : ¬ h.world.Awaits) :
    (∀ n, ¬ h.Hangs n) ∧ h.free = false ∧ h.posed = h.asked ∧
      ∀ n, (h.world.call n).pc.poses = false := by
  have hPosed : h.posed = h.asked := hs.posed.resolve_right fun hOpen => hAwaits hOpen.2
  refine ⟨fun n hHangs => hAwaits (hs.hangs n hHangs).2.2.2.1,
    Bool.eq_false_iff.mpr fun hFree => hAwaits (hs.free hFree).2.1, hPosed,
    fun n => Bool.eq_false_iff.mpr fun hPoses => ?_⟩
  have := (hs.posing n hPoses).2
  omega

theorem Course.unseen_at {h : Talk} (hs : h.Course) {n : Nat} (hOnly : h.world.Only n)
    (hUnseen : h.unseen = true) :
    ((h.world.job n).pc = .turn ∨ ∃ m, (h.world.job n).pc = .resuming m) ∧
      (h.world.job n).turnNum < (h.world.job n).maxTurns := by
  obtain ⟨j, hPc, hLt⟩ := hs.unseen hUnseen
  rcases eq_or_ne j n with rfl | hne
  · exact ⟨hPc, hLt⟩
  · simp [hOnly j hne] at hPc

theorem Course.move {h : Talk} {t : World} (hs : h.Course)
    (hPoses : ∀ n, (t.call n).pc.poses = true → (h.world.call n).pc.poses = true)
    (hAwaits : h.world.Awaits → t.Awaits)
    (hTaken : ∀ n, Taken { h with world := t } n ↔ h.Taken n)
    (hUnseen : h.unseen = true → ∃ j, ((t.job j).pc = .turn ∨ ∃ m, (t.job j).pc = .resuming m) ∧
      (t.job j).turnNum < (t.job j).maxTurns) : Course { h with world := t } := by
  have hHangs : ∀ n, Hangs { h with world := t } n ↔ h.Hangs n := fun n => or_congr_right (hTaken n)
  exact
    { posing := fun n hn => hs.posing n (hPoses n hn)
      lone := fun n m hn hm => hs.lone n m (hPoses n hn) (hPoses m hm)
      landed := fun n q hq => by
        rw [hHangs]
        exact hs.landed n q hq
      hangs := fun n hn => by
        obtain ⟨hAppended, hPosed, hFree, hOpen, hReplied⟩ := hs.hangs n ((hHangs n).mp hn)
        exact ⟨hAppended, hPosed, hFree, hAwaits hOpen, hReplied⟩
      single := hs.single
      alone := fun n hn => hs.alone n ((hTaken n).mp hn)
      free := fun hFree => by
        obtain ⟨hPosed, hOpen, hNone⟩ := hs.free hFree
        exact ⟨hPosed, hAwaits hOpen, fun n hn => hNone n ((hHangs n).mp hn)⟩
      posed := hs.posed.imp_right fun hOpen => ⟨hOpen.1, hAwaits hOpen.2⟩
      unseen := hUnseen }

theorem Course.serve {h : Talk} {t : World} (hs : h.Course) (hJob : t.job = h.world.job)
    (hPoses : ∀ n, (t.call n).pc.poses = true → (h.world.call n).pc.poses = true) :
    Course { h with world := t } := by
  refine hs.move hPoses ?_ (fun n => ?_) ?_
  · rintro ⟨j, hj⟩
    exact ⟨j, by rwa [hJob]⟩
  · simp only [Taken, hJob]
  · rw [hJob]
    exact hs.unseen

theorem Course.work {h : Talk} {t : World} (hs : h.Course) {n : Nat} (hOnly : h.world.Only n)
    (hOnly' : t.Only n)
    (hPoses : ∀ n, (t.call n).pc.poses = true → (h.world.call n).pc.poses = true)
    (hPc : (h.world.job n).pc.awaits = false) (hPc' : (t.job n).pc.awaits = false)
    (hUnseen : h.unseen = true → ((t.job n).pc = .turn ∨ ∃ m, (t.job n).pc = .resuming m) ∧
      (t.job n).turnNum < (t.job n).maxTurns) : Course { h with world := t } := by
  refine hs.move hPoses (fun hAwaits => ?_) (fun k => ?_) fun hu => ⟨n, hUnseen hu⟩
  · rw [hOnly.awaits_iff, hPc] at hAwaits
    cases hAwaits
  · rw [taken_iff hOnly, taken_iff (h := { h with world := t }) hOnly']
    refine iff_of_false ?_ ?_
    · rintro ⟨m, hm : (t.job n).pc = .popping m, -⟩
      simp [hm, JobPc.awaits] at hPc'
    · rintro ⟨m, hm, -⟩
      simp [hm, JobPc.awaits] at hPc

theorem Course.wait {h : Talk} {t : World} (hs : h.Course) {n : Nat} (hOnly : h.world.Only n)
    (hOnly' : t.Only n)
    (hPoses : ∀ n, (t.call n).pc.poses = true → (h.world.call n).pc.poses = true)
    (hPc : (h.world.job n).pc.awaits = true) (hPc' : (t.job n).pc.awaits = true)
    (hTook : ∀ m, (h.world.job n).pc = .popping m ∨ (t.job n).pc = .popping m → h.took m = none) :
    Course { h with world := t } := by
  refine hs.move hPoses (fun _ => hOnly'.awaits_iff.mpr hPc') (fun k => ?_) fun hu => ?_
  · rw [taken_iff hOnly, taken_iff (h := { h with world := t }) hOnly']
    refine iff_of_false ?_ ?_
    · rintro ⟨m, hm, hk⟩
      simp [hTook m (.inr hm)] at hk
    · rintro ⟨m, hm, hk⟩
      simp [hTook m (.inl hm)] at hk
  · rcases (hs.unseen_at hOnly hu).1 with hTurn | ⟨m, hResuming⟩
    · simp [hTurn, JobPc.awaits] at hPc
    · simp [hResuming, JobPc.awaits] at hPc

theorem Tidy.move {h : Talk} {t : World} (hs : h.Tidy) (hBase : t.Base)
    (hQueue : t.doc.cur.answerQueue.length = h.world.doc.cur.answerQueue.length)
    (hPending : ∀ n, (t.call n).pc.pending = true → (h.world.call n).pc.pending = true)
    (hGives : ∀ n, (t.call n).gives = (h.world.call n).gives)
    (hCourse : t.Live → Course { h with world := t }) : Tidy { h with world := t } where
  base := hBase
  len := hs.len.trans hQueue.symm
  pending n hn := hs.pending n (hPending n hn)
  took n := by rw [hs.took n, hGives n]
  replied := hs.replied
  nodup := hs.nodup
  accepted := hs.accepted
  course := hCourse

/-- What an answer does, a pop and the question that a worker writes: the step of call `n`. -/
structure Serves (s : World) (n : Nat) (t : World) : Prop where
  base : t.Base
  job : t.job = s.job
  waits : (s.call n).pc.pending = true
  served : (t.call n).pc.pending = false
  other : ∀ m ≠ n, t.call m = s.call m

theorem Serves.poses {s : World} {n : Nat} {t : World} (hStep : Serves s n t) {m : Nat}
    (hm : (t.call m).pc.poses = true) : m ≠ n ∧ (s.call m).pc.poses = true := by
  rcases eq_or_ne m n with rfl | hne
  · have hServed := hStep.served
    cases hPc : (t.call m).pc <;> simp_all [CallPc.poses, CallPc.pending]
  · exact ⟨hne, by rwa [← hStep.other m hne]⟩

theorem Serves.pending {s : World} {n : Nat} {t : World} (hStep : Serves s n t) {m : Nat}
    (hm : (t.call m).pc.pending = true) : m ≠ n ∧ (s.call m).pc.pending = true := by
  rcases eq_or_ne m n with rfl | hne
  · rw [hStep.served] at hm
    cases hm
  · exact ⟨hne, by rwa [← hStep.other m hne]⟩

theorem Serves.live {s : World} {n : Nat} {t : World} (hStep : Serves s n t) (hLive : t.Live) :
    s.Live := by
  intro j
  rw [← hStep.job]
  exact hLive j

theorem Serves.awaits {s : World} {n : Nat} {t : World} (hStep : Serves s n t)
    (hAwaits : s.Awaits) : t.Awaits := by
  obtain ⟨j, hj⟩ := hAwaits
  exact ⟨j, by rwa [hStep.job]⟩

theorem Tidy.pose {h : Talk} {t : World} (hs : h.Tidy) {n : Nat} (hStep : Serves h.world n t)
    (hPoses : (h.world.call n).pc.poses = true)
    (hQueue : t.doc.cur.answerQueue.length = h.world.doc.cur.answerQueue.length)
    (hGives : ∀ m, (t.call m).gives = (h.world.call m).gives) :
    Tidy { h with world := t, posed := h.poses n, free := true } where
  base := hStep.base
  len := hs.len.trans hQueue.symm
  pending m hm := hs.pending m (hStep.pending hm).2
  took m := by rw [hs.took m, hGives m]
  replied := hs.replied
  nodup := hs.nodup
  accepted := hs.accepted
  course hLive := by
    have hCourse := hs.course (hStep.live hLive)
    obtain ⟨hAsked, hOpen⟩ := hCourse.posing n hPoses
    have hAwaits : h.world.Awaits := (hCourse.posed.resolve_left (by omega)).2
    have hNone : ∀ k, ¬ h.Hangs k := fun k hk => by
      have := (hCourse.hangs k hk).2.1
      omega
    have hHangs : ∀ k, ¬ Hangs { h with world := t, posed := h.poses n, free := true } k := by
      intro k hk
      refine hNone k (hk.imp_right ?_)
      rintro ⟨j, m, hj, hm⟩
      exact ⟨j, m, hStep.job ▸ hj, hm⟩
    exact
      { posing := fun m hm => by
          obtain ⟨hne, hm⟩ := hStep.poses hm
          exact absurd (hCourse.lone m n hm hPoses) hne
        lone := fun m k hm hk => hCourse.lone m k (hStep.poses hm).2 (hStep.poses hk).2
        landed := fun k q hq => .inl ((hCourse.landed k q hq).resolve_right (hNone k))
        hangs := fun k hk => absurd hk (hHangs k)
        single := hCourse.single
        alone := fun k hk => absurd (.inr hk) (hHangs k)
        free := fun _ => ⟨hAsked, hStep.awaits hAwaits, hHangs⟩
        posed := .inl hAsked
        unseen := fun hu => by
          obtain ⟨j, hj⟩ := hCourse.unseen hu
          exact ⟨j, by rwa [hStep.job]⟩ }

/-- An answer takes effect, the first one to the question that is posed. -/
theorem Tidy.answer {h : Talk} {t : World} (hs : h.Tidy) {n : Nat} (hStep : Serves h.world n t)
    (hFree : h.free = true)
    (hQueue : t.doc.cur.answerQueue.length = h.world.doc.cur.answerQueue.length + 1)
    (hGives : ∀ m, (t.call m).gives = (h.world.call m).gives) :
    Tidy { h with
      world := t
      owners := h.owners ++ [n]
      appended := Function.update h.appended n (some h.posed)
      free := false } where
  base := hStep.base
  len := by simp [hs.len, hQueue]
  pending m hm := by
    obtain ⟨hne, hm⟩ := hStep.pending hm
    simpa [hne] using hs.pending m hm
  took m := by rw [hs.took m, hGives m]
  replied q m hm := by
    have hWas := hs.replied q m hm
    have hne : m ≠ n := by
      rintro rfl
      rw [hs.pending m hStep.waits] at hWas
      cases hWas
    simpa [hne] using hWas
  nodup := hs.nodup
  accepted q m hm := by
    have hWas := hs.accepted q m hm
    have hne : m ≠ n := by
      rintro rfl
      rw [hs.pending m hStep.waits] at hWas
      cases hWas
    simpa [hne] using hWas
  course hLive := by
    have hCourse := hs.course (hStep.live hLive)
    obtain ⟨hPosed, hAwaits, hNone⟩ := hCourse.free hFree
    have hOwners : h.owners = [] := List.eq_nil_iff_forall_not_mem.mpr fun k hk => hNone k (.inl hk)
    have hTaken : ∀ k, ¬ ∃ j m, (t.job j).pc = .popping m ∧ h.took m = some k := by
      rintro k ⟨j, m, hj, hm⟩
      exact hNone k (.inr ⟨j, m, hStep.job ▸ hj, hm⟩)
    have hHangs : ∀ k, Hangs { h with
        world := t
        owners := h.owners ++ [n]
        appended := Function.update h.appended n (some h.posed)
        free := false } k ↔ k = n := by
      intro k
      simp only [Hangs, Taken, hTaken k, or_false, hOwners, List.nil_append, List.mem_singleton]
    have hReplied : ∀ q, (q, n) ∉ h.replies := by
      intro q hq
      have hWas := hs.replied q n hq
      rw [hs.pending n hStep.waits] at hWas
      cases hWas
    exact
      { posing := fun m hm => hCourse.posing m (hStep.poses hm).2
        lone := fun m k hm hk => hCourse.lone m k (hStep.poses hm).2 (hStep.poses hk).2
        landed := fun k q hq => by
          rw [hHangs]
          rcases eq_or_ne k n with rfl | hne
          · exact .inr rfl
          · have hq : h.appended k = some q := by simpa [hne] using hq
            exact .inl ((hCourse.landed k q hq).resolve_right (hNone k))
        hangs := fun k hk => by
          obtain rfl := (hHangs k).mp hk
          exact ⟨by simp [hPosed], hPosed, rfl, hStep.awaits hAwaits, hReplied⟩
        single := by simp [hOwners]
        alone := fun k hk => absurd hk (hTaken k)
        free := fun hFree => by cases hFree
        posed := .inl hPosed
        unseen := fun hu => by
          obtain ⟨j, hj⟩ := hCourse.unseen hu
          exact ⟨j, by rwa [hStep.job]⟩ }

/-- The pop that run `j` awaits takes effect. -/
theorem Tidy.pop {h : Talk} {t : World} (hs : h.Tidy) {n j : Nat} (hStep : Serves h.world n t)
    (hPc : (h.world.job j).pc = .popping n)
    (hQueue : h.world.doc.cur.answerQueue.length = t.doc.cur.answerQueue.length + 1)
    (hGive : (t.call n).gives.isSome = true)
    (hGives : ∀ m ≠ n, (t.call m).gives = (h.world.call m).gives) :
    Tidy { h with
      world := t
      owners := h.owners.tail
      took := Function.update h.took n h.owners.head? } where
  base := hStep.base
  len := by rw [List.length_tail, hs.len, hQueue, Nat.add_sub_cancel]
  pending m hm := hs.pending m (hStep.pending hm).2
  took m := by
    show (Function.update h.took n h.owners.head? m).isSome = _
    rcases eq_or_ne m n with rfl | hne
    · have hLen := hs.len
      rw [hQueue] at hLen
      rw [hGive, Function.update_self]
      cases hOwners : h.owners with
      | nil => simp [hOwners] at hLen
      | cons a rest => rfl
    · rw [Function.update_of_ne hne, hs.took m, hGives m hne]
  replied := hs.replied
  nodup := hs.nodup
  accepted := hs.accepted
  course hLive := by
    have hCourse := hs.course (hStep.live hLive)
    have hOnly : h.world.Only j := hs.base.only (by simp [hPc])
    have hOnly' : t.Only j := fun m hm => by
      rw [hStep.job]
      exact hOnly m hm
    obtain ⟨a, hOwners⟩ : ∃ a, h.owners = [a] :=
      List.length_eq_one_iff.mp (le_antisymm hCourse.single (by rw [hs.len, hQueue]; omega))
    have hWas : ∀ k, h.Hangs k ↔ k = a := by
      intro k
      have hNot : ¬ h.Taken k := fun hk => by simp [hCourse.alone k hk] at hOwners
      simp [Hangs, hNot, hOwners]
    have hTaken : ∀ k, Taken { h with
        world := t
        owners := h.owners.tail
        took := Function.update h.took n h.owners.head? } k ↔ k = a := by
      intro k
      rw [taken_iff hOnly']
      simp [hStep.job, hPc, hOwners, eq_comm]
    have hHangs : ∀ k, Hangs { h with
        world := t
        owners := h.owners.tail
        took := Function.update h.took n h.owners.head? } k ↔ h.Hangs k := by
      intro k
      rw [hWas, Hangs, hTaken]
      simp [hOwners]
    exact
      { posing := fun m hm => hCourse.posing m (hStep.poses hm).2
        lone := fun m k hm hk => hCourse.lone m k (hStep.poses hm).2 (hStep.poses hk).2
        landed := fun k q hq => by
          rw [hHangs]
          exact hCourse.landed k q hq
        hangs := fun k hk => by
          obtain ⟨hAppended, hPosed, hFree, hOpen, hReplied⟩ := hCourse.hangs k ((hHangs k).mp hk)
          exact ⟨hAppended, hPosed, hFree, hStep.awaits hOpen, hReplied⟩
        single := by simp [hOwners]
        alone := fun k hk => by simp [hOwners]
        free := fun hFree => by
          obtain ⟨hPosed, hOpen, hNone⟩ := hCourse.free hFree
          exact ⟨hPosed, hStep.awaits hOpen, fun k hk => hNone k ((hHangs k).mp hk)⟩
        posed := hCourse.posed.imp_right fun hOpen => ⟨hOpen.1, hStep.awaits hOpen.2⟩
        unseen := fun hu => by
          obtain ⟨k, hk⟩ := hCourse.unseen hu
          exact ⟨k, by rwa [hStep.job]⟩ }

theorem Tidy.accept {h : Talk} (hs : h.Tidy) {n : Nat} (hOwn : h.appended n = some h.posed) :
    Tidy { h with accepted := h.accepted ++ [(h.posed, n)] } where
  base := hs.base
  len := hs.len
  pending := hs.pending
  took := hs.took
  replied := hs.replied
  nodup := hs.nodup
  accepted q m hm := by
    rcases List.mem_append.mp hm with hm | hm
    · exact hs.accepted q m hm
    · obtain ⟨rfl, rfl⟩ := Prod.mk.injEq .. ▸ List.mem_singleton.mp hm
      exact hOwn
  course hLive :=
    have hCourse := hs.course hLive
    ⟨hCourse.posing, hCourse.lone, hCourse.landed, hCourse.hangs, hCourse.single, hCourse.alone,
      hCourse.free, hCourse.posed, hCourse.unseen⟩

/-- A Claude turn has the replies before it in its conversation. -/
theorem Tidy.saw {h : Talk} (hs : h.Tidy) : Tidy { h with unseen := false } where
  base := hs.base
  len := hs.len
  pending := hs.pending
  took := hs.took
  replied := hs.replied
  nodup := hs.nodup
  accepted := hs.accepted
  course hLive :=
    have hCourse := hs.course hLive
    ⟨hCourse.posing, hCourse.lone, hCourse.landed, hCourse.hangs, hCourse.single, hCourse.alone,
      hCourse.free, hCourse.posed, fun hu => by cases hu⟩

/-- What a step of the run `n` of `process_job` leaves alone. -/
structure Works (s : World) (n : Nat) (t : World) : Prop where
  base : t.Base
  only : s.Only n
  only' : t.Only n
  doc : t.doc = s.doc
  pending : ∀ m, (t.call m).pc.pending = true → (s.call m).pc.pending = true
  gives : ∀ m, (t.call m).gives = (s.call m).gives

theorem Tidy.work {h : Talk} {n : Nat} {t : World} (hs : h.Tidy) (hStep : Works h.world n t)
    (hCourse : t.Live → Course { h with world := t }) : Tidy { h with world := t } :=
  hs.move hStep.base (by rw [hStep.doc]) hStep.pending hStep.gives hCourse

theorem Tidy.prepare {h : Talk} {n : Nat} {t : World} (hs : h.Tidy) (hStep : Works h.world n t)
    (hPoses : ∀ m, (t.call m).pc.poses = true → (h.world.call m).pc.poses = true)
    (hLive : (h.world.job n).pc.over = false) (hPc : (h.world.job n).pc.awaits = false)
    (hPc' : (t.job n).pc.awaits = false) (hTurn : (h.world.job n).pc ≠ .turn)
    (hResuming : ∀ m, (h.world.job n).pc ≠ .resuming m) : Tidy { h with world := t } := by
  have hCourse := hs.course (hStep.only.live_iff.mpr hLive)
  refine hs.work hStep fun _ => ?_
  refine hCourse.work hStep.only hStep.only' hPoses hPc hPc' fun hUnseen => ?_
  obtain ⟨hWas | ⟨m, hWas⟩, -⟩ := hCourse.unseen_at hStep.only hUnseen
  · exact absurd hWas hTurn
  · exact absurd hWas (hResuming m)

theorem Tidy.ask {h : Talk} {n c : Nat} {t : World} (hs : h.Tidy) (hStep : Works h.world n t)
    (hPc : (h.world.job n).pc = .stream) (hAsking : (t.job n).pc = .asking c)
    (hPoses : ∀ m, (t.call m).pc.poses = true → m = c ∨ (h.world.call m).pc.poses = true) :
    Tidy { h with
      world := t
      asked := h.asked + 1
      poses := Function.update h.poses c (h.asked + 1) } where
  base := hStep.base
  len := by rw [hStep.doc]; exact hs.len
  pending m hm := hs.pending m (hStep.pending m hm)
  took m := by rw [hs.took m, hStep.gives m]
  replied := hs.replied
  nodup := hs.nodup
  accepted := hs.accepted
  course _ := by
    have hCourse := hs.course (hStep.only.live_iff.mpr (by rw [hPc]; rfl))
    obtain ⟨hNone, hFree, hPosed, hWritten⟩ := hCourse.calm (by simp [hStep.only.awaits_iff, hPc, JobPc.awaits])
    have hOnce : ∀ m, (t.call m).pc.poses = true → m = c := fun m hm =>
      (hPoses m hm).resolve_right (by simp [hWritten m])
    have hTaken : ∀ k, ¬ ∃ j m, (t.job j).pc = .popping m ∧ h.took m = some k := by
      rintro k ⟨j, m, hj, -⟩
      rcases eq_or_ne j n with rfl | hne
      · simp [hAsking] at hj
      · simp [hStep.only' j hne] at hj
    have hHangs : ∀ k, ¬ Hangs { h with
        world := t
        asked := h.asked + 1
        poses := Function.update h.poses c (h.asked + 1) } k := by
      rintro k (hk | hk)
      · exact hNone k (.inl hk)
      · exact hTaken k hk
    exact
      { posing := fun m hm => by
          obtain rfl := hOnce m hm
          exact ⟨by simp, by simp [hPosed]⟩
        lone := fun m k hm hk => (hOnce m hm).trans (hOnce k hk).symm
        landed := fun k q hq => .inl ((hCourse.landed k q hq).resolve_right (hNone k))
        hangs := fun k hk => absurd hk (hHangs k)
        single := hCourse.single
        alone := fun k hk => absurd hk (hTaken k)
        free := fun hu => by simp [hFree] at hu
        posed := .inr ⟨by simp [hPosed], hStep.only'.awaits_iff.mpr (by rw [hAsking]; rfl)⟩
        unseen := fun hu => by simpa [hPc] using hCourse.unseen_at hStep.only hu }

theorem Tidy.take {h : Talk} {n m a c : Nat} {t : World} (hs : h.Tidy) (hStep : Works h.world n t)
    (hPc : (h.world.job n).pc = .popping m) (hTook : h.took m = some a)
    (hResuming : (t.job n).pc = .resuming c) (hTurns : (t.job n).turnNum < (t.job n).maxTurns)
    (hPoses : ∀ k, (t.call k).pc.poses = true → (h.world.call k).pc.poses = true) :
    Tidy { h with
      world := t
      replies := h.replies ++ [(h.asked, a)]
      unseen := true } := by
  have hCourse := hs.course (hStep.only.live_iff.mpr (by rw [hPc]; rfl))
  have hTaken : h.Taken a := ⟨n, m, hPc, hTook⟩
  obtain ⟨hAppended, hPosed, hFree, -, hReplied⟩ := hCourse.hangs a (.inr hTaken)
  have hOwners := hCourse.alone a hTaken
  have hWas : ∀ k, h.Hangs k → k = a := by
    rintro k (hk | hk)
    · simp [hOwners] at hk
    · obtain ⟨m', hm', hk⟩ := (taken_iff hStep.only k).mp hk
      obtain rfl : m = m' := by simpa [hPc] using hm'
      exact Option.some.inj (hk.symm.trans hTook)
  have hGone : ∀ k, ¬ ∃ j m, (t.job j).pc = .popping m ∧ h.took m = some k := by
    rintro k ⟨j, m', hj, -⟩
    rcases eq_or_ne j n with rfl | hne
    · simp [hResuming] at hj
    · simp [hStep.only' j hne] at hj
  have hHangs : ∀ k, ¬ Hangs { h with
      world := t
      replies := h.replies ++ [(h.asked, a)]
      unseen := true } k := by
    rintro k (hk | hk)
    · simp [hOwners] at hk
    · exact hGone k hk
  have hNoPose : ∀ k, (h.world.call k).pc.poses = false := fun k =>
    Bool.eq_false_iff.mpr fun hk => by
      have := (hCourse.posing k hk).2
      omega
  exact
    { base := hStep.base
      len := by rw [hStep.doc]; exact hs.len
      pending := fun k hk => hs.pending k (hStep.pending k hk)
      took := fun k => by rw [hs.took k, hStep.gives k]
      replied := fun q k hk => by
        rcases List.mem_append.mp hk with hk | hk
        · exact hs.replied q k hk
        · obtain ⟨rfl, rfl⟩ := Prod.mk.injEq .. ▸ List.mem_singleton.mp hk
          exact hAppended
      nodup := by
        rw [List.map_append]
        refine List.nodup_append.mpr ⟨hs.nodup, by simp, fun k hk b hb => ?_⟩
        obtain ⟨⟨q, _⟩, hq, rfl⟩ := List.mem_map.mp hk
        rintro rfl
        obtain rfl := List.mem_singleton.mp hb
        exact hReplied q hq
      accepted := hs.accepted
      course := fun _ =>
        { posing := fun k hk => by
            have hWasPosing := hPoses k hk
            simp [hNoPose k] at hWasPosing
          lone := fun k _ hk _ => by simpa [hNoPose k] using hPoses k hk
          landed := fun k q hq => by
            refine .inl (List.mem_append.mpr ?_)
            refine (hCourse.landed k q hq).imp id fun hk => ?_
            obtain rfl := hWas k hk
            obtain rfl := Option.some.inj (hAppended.symm.trans hq)
            exact List.mem_singleton_self _
          hangs := fun k hk => absurd hk (hHangs k)
          single := hCourse.single
          alone := fun k hk => absurd hk (hGone k)
          free := fun hu => by simp [hFree] at hu
          posed := .inl hPosed
          unseen := fun _ => ⟨n, .inr ⟨c, hResuming⟩, hTurns⟩ } }

theorem step_idle {s t : World} {a : SpawnAct} (hFresh : s.Fresh) (hAct : ∀ n e, a ≠ .call n e)
    (h : s.step a = some t) : t.doc = s.doc ∧
      (∀ m, (t.call m).pc.pending = true → (s.call m).pc.pending = true) ∧
      ∀ m, (t.call m).gives = (s.call m).gives := by
  cases World.step_calls h with
  | none _ _ _ _ hCall hDoc => simp [hDoc, hCall]
  | request _ _ api _ _ _ hCall hDoc =>
    obtain ⟨hPc, hReply, -⟩ := hFresh s.nextCall le_rfl
    refine ⟨hDoc, fun m hm => ?_, fun m => ?_⟩
    · rcases eq_or_ne m s.nextCall with rfl | hne
      · rw [hPc]
        rfl
      · simpa [hCall, hne] using hm
    · rcases eq_or_ne m s.nextCall with rfl | hne
      · simp [hCall, hPc, hReply, Call.gives, Api.begin_handed, show CallPc.absent.handed = none from rfl]
      · simp [hCall, hne]
  | move n e => exact absurd rfl (hAct n e)

theorem request_poses {s : World} {api : Api} (hApi : api.begin.poses = false) (m : Nat)
    (hm : ((s.request api).call m).pc.poses = true) : (s.call m).pc.poses = true := by
  rcases eq_or_ne m s.nextCall with rfl | hne
  · simp [hApi] at hm
  · simpa [hne] using hm

/-- The run waits before the step and after it. -/
theorem Tidy.wait {h : Talk} {n : Nat} {t : World} (hs : h.Tidy) (hStep : Works h.world n t)
    (hPoses : ∀ m, (t.call m).pc.poses = true → (h.world.call m).pc.poses = true)
    (hPc : (h.world.job n).pc.awaits = true) (hPc' : (t.job n).pc.awaits = true)
    (hTook : ∀ m, (h.world.job n).pc = .popping m ∨ (t.job n).pc = .popping m → h.took m = none) :
    Tidy { h with world := t } := by
  have hLive : (h.world.job n).pc.over = false := by
    cases hAt : (h.world.job n).pc <;> rw [hAt] at hPc <;> first | rfl | cases hPc
  have hCourse := hs.course (hStep.only.live_iff.mpr hLive)
  exact hs.work hStep fun _ => hCourse.wait hStep.only hStep.only' hPoses hPc hPc' hTook

theorem Tidy.rest {h : Talk} {n : Nat} {t : World} (hs : h.Tidy) (hStep : Works h.world n t)
    (hOver : (t.job n).pc.over = true) : Tidy { h with world := t } := by
  refine hs.work hStep fun hLive => ?_
  rw [hStep.only'.live_iff, hOver] at hLive
  cases hLive

/-- A pop that is not handed an answer has taken none. -/
theorem Tidy.took_none {h : Talk} {m : Nat} {r : Reply} (hs : h.Tidy)
    (hReply : (h.world.call m).reply = some r) (hEntry : ∀ entry st, r ≠ .entry (some entry) st) :
    h.took m = none := by
  have hTook := hs.took m
  cases r with
  | entry entry st =>
    cases entry with
    | none => simpa [Call.gives, hReply, Reply.handed] using hTook
    | some entry => exact absurd rfl (hEntry entry st)
  | _ => simpa [Call.gives, hReply, Reply.handed] using hTook

theorem Tidy.job {h : Talk} {n : Nat} {e : JobEv} {t : World} (hs : h.Tidy)
    (hOrderly : h.orderly (.job n e) = true) (hBase : t.Base) (hJob : h.world.jobStep n e = some t) :
    Tidy { h.works n e with world := t } := by
  obtain ⟨hDoc, hPending, hGives⟩ := step_idle hs.base.fresh (a := .job n e) (by simp) hJob
  have hOnly := hs.base.only (World.jobStep_present hJob)
  have hStep : Works h.world n t := ⟨hBase, hOnly, hOnly.step hJob, hDoc, hPending, hGives⟩
  have hCourse : (h.world.job n).pc.over = false → h.Course := fun hPc =>
    hs.course (hOnly.live_iff.mpr hPc)
  have hEnd : h.works n e = h → (t.job n).pc.over = true → Tidy { h.works n e with world := t } := by
    intro hWorks hOver
    rw [hWorks]
    exact hs.rest hStep hOver
  cases World.jobStep_move hJob with
  | triaged simple hPc =>
    rw [show h.works n (.triaged simple) = h by simp [works, hPc]]
    exact hs.prepare hStep (request_poses rfl) (by rw [hPc]; rfl) (by rw [hPc]; rfl)
      (by simp [JobPc.awaits]) (by simp [hPc]) (by simp [hPc])
  | simple m e hPc hResumes | complex m e hPc hResumes =>
    rw [show h.works n e = h by simp [works, hPc]]
    exact hs.prepare hStep (fun _ => id) (by rw [hPc]; rfl) (by rw [hPc]; rfl)
      (by simp [JobPc.awaits]) (by simp [hPc]) (by simp [hPc])
  | gemmaFailed hPc =>
    rw [show h.works n (.answered false) = h by simp [works, hPc]]
    exact hs.prepare hStep (fun _ => id) (by rw [hPc]; rfl) (by rw [hPc]; rfl)
      (by simp [JobPc.awaits]) (by simp [hPc]) (by simp [hPc])
  | turn hPc hTurns =>
    have hC := hs.saw.course (hOnly.live_iff.mpr (by rw [hPc]; rfl))
    rw [show h.works n .tau = { h with unseen := false } by
      simp [works, hPc, World.startsTurn, hTurns]]
    exact hs.saw.work hStep fun _ => hC.work hOnly hStep.only' (fun _ => id) (by rw [hPc]; rfl)
      (by simp [JobPc.awaits]) fun hu => by cases hu
  | resumed m e hPc hResumes =>
    have hC := hCourse (by rw [hPc]; rfl)
    rw [show h.works n e = h by simp [works, hPc]]
    exact hs.work hStep fun _ => hC.work hOnly hStep.only' (fun _ => id) (by rw [hPc]; rfl)
      (by simp [JobPc.awaits]) fun hu => ⟨.inl (by simp), by simpa [Job.maxTurns] using (hC.unseen_at hOnly hu).2⟩
  | asked m e hPc hResumes =>
    rw [show h.works n e = h by simp [works, hPc]]
    exact hs.wait hStep (fun _ => id) (by rw [hPc]; rfl) (by simp [JobPc.awaits]) (by simp [hPc])
  | pop hPc =>
    rw [show h.works n .tau = h by simp [works, hPc]]
    refine hs.wait hStep (request_poses rfl) (by rw [hPc]; rfl) (by simp [JobPc.awaits]) fun m hm => ?_
    obtain rfl : h.world.nextCall = m := by simpa [hPc] using hm
    obtain ⟨hNew, hReply, -⟩ := hs.base.fresh h.world.nextCall le_rfl
    have hTook := hs.took h.world.nextCall
    simpa [Call.gives, hNew, hReply, CallPc.handed] using hTook
  | nothing m r hPc hReply hEntry =>
    rw [show h.works n .tau = h by
      simp only [works, hPc, hReply]
      split
      · next hr => simp_all
      · rfl]
    refine hs.wait hStep (fun _ => id) (by rw [hPc]; rfl) (by simp [JobPc.awaits]) fun m' hm => ?_
    obtain rfl : m = m' := by simpa [hPc] using hm
    exact hs.took_none hReply hEntry
  | popTimeout m hPc =>
    rw [show h.works n .timeout = h by simp [works, hPc]]
    refine hs.wait hStep (fun _ => id) (by rw [hPc]; rfl) (by simp [JobPc.awaits]) fun m' hm => ?_
    obtain rfl : m = m' := by simpa [hPc] using hm
    simpa [orderly, hPc] using hOrderly
  | ask text question hPc hText =>
    rw [show h.works n (.streamed (some text)) = { h with
        asked := h.asked + 1
        poses := Function.update h.poses h.world.nextCall (h.asked + 1) } by simp [works, hPc, hText]]
    refine hs.ask hStep hPc (by simp) fun m hm => ?_
    rcases eq_or_ne m h.world.nextCall with rfl | hne
    · exact .inl rfl
    · exact .inr (by simpa [hne] using hm)
  | take m entry st hPc hReply =>
    have hTook : (h.took m).isSome = true := by simp [hs.took m, Call.gives, hReply, Reply.handed]
    obtain ⟨a, ha⟩ := Option.isSome_iff_exists.mp hTook
    rw [show h.works n .tau = { h with
        replies := h.replies ++ [(h.asked, a)]
        unseen := true } by simp [works, hPc, hReply, ha]]
    have hTurns : (h.world.job n).turnNum < (h.world.job n).maxTurns := by
      simpa [orderly, World.answered, hPc, hReply] using hOrderly
    exact hs.take (c := h.world.nextCall) hStep hPc ha (by simp) (by simpa [Job.maxTurns] using hTurns) (request_poses rfl)
  | limit hPc hTurns =>
    exact hEnd (by simp [works, hPc, World.startsTurn, hTurns]) (by simp [World.close, JobPc.over])
  | gemmaDone hPc | unstreamed hPc | deadline hPc =>
    exact hEnd (by simp [works, hPc]) (by simp [World.close, JobPc.over])
  | finished text hPc hText =>
    exact hEnd (by simp [works, hPc, hText]) (by simp [World.close, JobPc.over])
  | cancelled m hPc hReply =>
    exact hEnd (by simp [works, hPc, hReply]) (by simp [World.close, JobPc.over])
  | finalize m e hPc hResumes => exact hEnd (by simp [works, hPc]) (by simp [JobPc.over])
  | leave e hPc =>
    obtain ⟨m, hPc | hPc⟩ := hPc
    · exact hEnd (by simp [works, hPc]) (by simp [JobPc.over])
    · exact hEnd (by simp [works, hPc]) (by simp [JobPc.over])
  | raised hPc =>
    obtain hPc | hPc | hPc := hPc
    · exact hEnd (by simp [works, hPc]) (by simp [World.close, JobPc.over])
    · exact hEnd (by simp [works, hPc]) (by simp [World.close, JobPc.over])
    · exact hEnd (by simp [works, hPc]) (by simp [World.close, JobPc.over])

theorem Tidy.call_gives {h : Talk} {n : Nat} {e : CallEv} {t : World} (hs : h.Tidy)
    (hCall : h.world.callStep n e = some t) (hLands : h.world.lands (.call n e) ≠ some .popAnswer)
    (m : Nat) : (t.call m).gives = (h.world.call m).gives := by
  rcases eq_or_ne m n with rfl | hne
  · rw [World.callStep_gives hCall (hs.base.planned.plans m), if_neg fun hu => hLands hu.1]
  · rw [World.callStep_other hCall hne]

/-- A step of a call that the history does not record. -/
theorem Tidy.quiet {h : Talk} {n : Nat} {e : CallEv} {t : World} (hs : h.Tidy) (hBase : t.Base)
    (hCall : h.world.callStep n e = some t) (hLands : h.world.lands (.call n e) ≠ some .popAnswer)
    (hQueue : t.doc.cur.answerQueue.length = h.world.doc.cur.answerQueue.length)
    (hPending : (t.call n).pc.pending = true → (h.world.call n).pc.pending = true)
    (hPoses : (t.call n).pc.poses = true → (h.world.call n).pc.poses = true) :
    Tidy { h with world := t } := by
  have hJob := World.callStep_job hCall
  refine hs.move hBase hQueue (fun m hm => ?_) (hs.call_gives hCall hLands) fun hLive =>
    (hs.course fun j => by rw [← hJob]; exact hLive j).serve hJob fun m hm => ?_
  · rcases eq_or_ne m n with rfl | hne
    · exact hPending hm
    · rwa [← World.callStep_other hCall hne]
  · rcases eq_or_ne m n with rfl | hne
    · exact hPoses hm
    · rwa [← World.callStep_other hCall hne]

/-- An update that is applied, or would change nothing. -/
theorem Tidy.writes {h : Talk} {n : Nat} {e : CallEv} {t : World} {u : Update} (hs : h.Tidy)
    (hBase : t.Base) (hCall : h.world.callStep n e = some t)
    (hLands : h.world.lands (.call n e) ≠ some .popAnswer)
    (hQueue : t.doc.cur.answerQueue.length = h.world.doc.cur.answerQueue.length)
    (hWaits : (h.world.call n).pc.pending = true) (hServed : (t.call n).pc.pending = false)
    (hPoses : (∃ v, u = .updateState v ∧ v.state = some .waitingUser) →
      (h.world.call n).pc.poses = true)
    (hForced : (h.writes n u).forced = false) (hAnswer : ∀ text, u ≠ .answer text)
    (hPop : u ≠ .popAnswer) : Tidy { h.writes n u with world := t } := by
  have hStays : h.writes n u = h → Tidy { h.writes n u with world := t } := by
    intro hKeep
    rw [hKeep]
    refine hs.quiet hBase hCall hLands hQueue (by simp [hServed]) fun hu => ?_
    cases hPc : (t.call n).pc <;> simp_all [CallPc.poses, CallPc.pending]
  cases u with
  | updateState v =>
    by_cases hWaiting : v.state = some .waitingUser
    · rw [show h.writes n (.updateState v) = { h with posed := h.poses n, free := true } by
        simp [Talk.writes, hWaiting]]
      exact hs.pose ⟨hBase, World.callStep_job hCall, hWaits, hServed,
        fun m hm => World.callStep_other hCall hm⟩ (hPoses ⟨v, rfl, hWaiting⟩) hQueue
        (hs.call_gives hCall hLands)
    · exact hStays (by simp [Talk.writes, hWaiting])
  | answer text => exact absurd rfl (hAnswer text)
  | popAnswer => exact absurd rfl hPop
  | forceState new => simp [Talk.writes] at hForced
  | _ => exact hStays rfl

/-- An answer call that appended to the posed question returns to the user. -/
theorem Tidy.returned {h : Talk} {n : Nat} {t : World} (hs : h.Tidy) (hBase : t.Base)
    (hCall : h.world.callStep n .ret = some t) (hQuiet : (t.call n).pc.pending = false)
    (hSilent : (t.call n).pc.poses = false) (hDoc : t.doc = h.world.doc)
    (hOwn : h.appended n = some h.posed) :
    Tidy { h with world := t, accepted := h.accepted ++ [(h.posed, n)] } := by
  have hNew := hs.accept hOwn
  have hJob := World.callStep_job hCall
  have hOther : ∀ m ≠ n, t.call m = h.world.call m := fun m hm => World.callStep_other hCall hm
  refine hNew.move hBase (by rw [hDoc]) (fun m hm => ?_) (hs.call_gives hCall (by simp [World.lands]))
    fun hLive => (hNew.course fun j => by rw [← hJob]; exact hLive j).serve hJob fun m hm => ?_
  · rcases eq_or_ne m n with rfl | hne
    · simp [hQuiet] at hm
    · rwa [← hOther m hne]
  · rcases eq_or_ne m n with rfl | hne
    · simp [hSilent] at hm
    · rwa [← hOther m hne]

theorem plans_queued {s : World} {n : Nat} {guard : Option Nat} {done conflict : Reply}
    {d : Document SpawnDoc} (hPlans : (s.call n).pc.Plans s.doc (s.call n).api)
    (hPc : (s.call n).pc = .update .popAnswer guard done conflict)
    (hLand : s.doc.update guard (Update.popAnswer).apply = some d) :
    ∃ entry rest, s.doc.cur.answerQueue = entry :: rest := by
  rw [hPc] at hPlans
  cases hApi : (s.call n).api <;> rw [hApi] at hPlans
  case popAnswer =>
    obtain ⟨-, -, i, entry, rest, rfl, -, hQueue, -⟩ := hPlans
    exact ⟨entry, rest, by rw [(Document.update_some hLand).1, hQueue]⟩
  case answer => cases hPlans.1
  all_goals exact absurd rfl hPlans.1

theorem Tidy.landed {h : Talk} {n : Nat} {u : Update} {guard : Option Nat} {done conflict : Reply}
    {d : Document SpawnDoc} {t : World} (hs : h.Tidy) (hOrderly : h.orderly (.call n .land) = true)
    (hForced : (h.writes n u).forced = false) (hBase : t.Base)
    (hCall : h.world.callStep n .land = some t)
    (hPc : (h.world.call n).pc = .update u guard done conflict)
    (hLand : h.world.doc.update guard u.apply = some d)
    (hServed : (t.call n).pc.pending = false) : Tidy { h.writes n u with world := t } := by
  have hLands : h.world.lands (.call n .land) = some u := by simp [World.lands, hPc, hLand]
  have hDoc := World.step_doc (s := h.world) (a := .call n .land) hCall
  have hOther : ∀ m ≠ n, t.call m = h.world.call m := fun m hm => World.callStep_other hCall hm
  have hWaits : (h.world.call n).pc.pending = true := by rw [hPc]; rfl
  have hServes : Serves h.world n t :=
    ⟨hBase, World.callStep_job hCall, hWaits, hServed, hOther⟩
  rw [hLands, Option.elim_some] at hDoc
  by_cases hAnswer : ∃ text, u = .answer text
  · obtain ⟨text, rfl⟩ := hAnswer
    have hFree : h.free = true := by simpa [orderly, hLands] using hOrderly
    exact hs.answer hServes hFree (by rw [hDoc]; simp [Update.apply])
      (hs.call_gives hCall (by simp [hLands]))
  by_cases hPop : u = .popAnswer
  · subst hPop
    simp only [orderly, hLands, Bool.and_eq_true, List.any_eq_true] at hOrderly
    obtain ⟨hReply, j, -, hj⟩ := hOrderly
    have hj : (h.world.job j).pc = .popping n := by simpa using hj
    have hGive := World.callStep_gives hCall (hs.base.planned.plans n)
    rw [hLands, if_pos ⟨rfl, by simpa using hReply⟩] at hGive
    obtain ⟨entry, rest, hQueue⟩ := plans_queued (hs.base.planned.plans n) hPc hLand
    refine hs.pop hServes hj (by rw [hDoc]; simp [Update.apply, hQueue]) (by rw [hGive, hQueue]; rfl) ?_
    intro m hm
    rw [hOther m hm]
  · refine hs.writes hBase hCall (by simpa [hLands] using hPop) ?_ hWaits hServed ?_ hForced
      (fun text hu => hAnswer ⟨text, hu⟩) hPop
    · rw [hDoc]
      cases u <;> simp_all [Update.apply]
      simp [Talk.writes] at hForced
    · rintro ⟨v, rfl, hv⟩
      simp [hPc, CallPc.poses, hv]

theorem Tidy.call {h : Talk} {n : Nat} {e : CallEv} {t : World} (hs : h.Tidy)
    (hOrderly : h.orderly (.call n e) = true) (hForced : (h.record (.call n e)).forced = false)
    (hBase : t.Base) (hCall : h.world.callStep n e = some t) :
    Tidy { h.record (.call n e) with world := t } := by
  -- a step that the history does not record
  have hQuiet : h.record (.call n e) = h → h.world.lands (.call n e) ≠ some .popAnswer →
      t.doc.cur.answerQueue.length = h.world.doc.cur.answerQueue.length →
      ((t.call n).pc.pending = true → (h.world.call n).pc.pending = true) →
      ((t.call n).pc.poses = true → (h.world.call n).pc.poses = true) →
      Tidy { h.record (.call n e) with world := t } := by
    intro hRecord hLands hQueue hPending hPoses
    rw [hRecord]
    exact hs.quiet hBase hCall hLands hQueue hPending hPoses
  cases World.callStep_move hCall with
  | read i hPc hi =>
    have hBegin := hs.base.picking.sound.calls n
    rw [hPc] at hBegin
    refine hQuiet rfl (by simp [World.lands]) rfl (fun _ => by rw [hPc]; rfl) fun hPoses => ?_
    simp [Api.afterRead_poses hBegin] at hPoses
  | unread hPc =>
    exact hQuiet rfl (by simp [World.lands]) rfl (by simp [CallPc.pending]) (by simp [CallPc.poses])
  | failed u guard done conflict hPc =>
    exact hQuiet rfl (by simp [World.lands]) rfl (by simp [CallPc.pending]) (by simp [CallPc.poses])
  | abandon u guard done conflict hPc hReply =>
    exact hQuiet rfl (by simp [World.lands]) rfl (by simp) (by simp)
  | refused u guard done conflict hPc hLand =>
    have hLands : h.world.lands (.call n .land) = none := by simp [World.lands, hPc, hLand]
    exact hQuiet (by simp [record, hLands]) (by simp [hLands]) rfl (by simp [CallPc.pending])
      (by simp [CallPc.poses])
  | noop u guard done conflict hPc hPartial hKeep hCur =>
    rw [show h.record (.call n .noop) = h.writes n u by simp [record, hPc]] at hForced ⊢
    refine hs.writes hBase hCall (by simp [World.lands]) rfl (by rw [hPc]; rfl)
      (by simp [CallPc.pending]) ?_ hForced ?_ ?_
    · rintro ⟨v, rfl, hv⟩
      simp [hPc, CallPc.poses, hv]
    · rintro text rfl
      cases hPartial
    · rintro rfl
      cases hPartial
  | ret r hPc =>
    by_cases hAccepts : h.accepts n = true
    · have hOwn : h.appended n = some h.posed := by simpa [orderly, hAccepts] using hOrderly
      rw [show h.record (.call n .ret) = { h with accepted := h.accepted ++ [(h.posed, n)] } by
        simp [record, hAccepts]]
      exact hs.returned hBase hCall (by simp [CallPc.pending]) (by simp [CallPc.poses]) rfl hOwn
    · exact hQuiet (by simp [record, hAccepts]) (by simp [World.lands]) rfl (by simp [CallPc.pending])
        (by simp [CallPc.poses])
  | landed u guard done conflict d hPc hLand =>
    rw [show h.record (.call n .land) = h.writes n u by
      simp [record, World.lands, hPc, hLand]] at hForced ⊢
    exact hs.landed hOrderly hForced hBase hCall hPc hLand (by simp [CallPc.pending])

theorem record_forced (h : Talk) (a : SpawnAct) (hForced : (h.record a).forced = false) :
    h.forced = false := by
  have hWrites : ∀ n u, (h.writes n u).forced = false → h.forced = false := by
    intro n u
    cases u with
    | updateState v =>
      simp only [writes]
      split <;> exact id
    | forceState new => exact fun hf => by cases hf
    | _ => exact id
  cases a with
  | call n e =>
    cases e with
    | land =>
      cases hLands : h.world.lands (.call n .land) with
      | none => simpa [record, hLands] using hForced
      | some u => exact hWrites n u (by simpa [record, hLands] using hForced)
    | noop =>
      simp only [record] at hForced
      split at hForced
      · exact hWrites n _ hForced
      · exact hForced
    | ret =>
      simp only [record] at hForced
      split at hForced <;> exact hForced
    | _ => exact hForced
  | job n e =>
    simp only [record, works] at hForced
    split at hForced
    · split at hForced <;> exact hForced
    · split at hForced <;> exact hForced
    · exact hForced
    · exact hForced
  | _ => exact hForced

theorem Tidy.step {h h' : Talk} {a : SpawnAct} (hs : h.Tidy) (hOrderly : h.orderly a = true)
    (hForced : (h.record a).forced = false) (hStep : h.step a = some h') : h'.Tidy := by
  obtain ⟨t, ht, rfl⟩ := Option.map_eq_some_iff.mp hStep
  have hBase := hs.base.step ht
  cases a with
  | request api =>
    obtain ⟨hDoc, hPending, hGives⟩ := step_idle hs.base.fresh (by simp) ht
    obtain ⟨hPublic, hEq⟩ := Option.ite_none_right_eq_some.mp ht
    cases hEq
    exact hs.move hBase (by rw [hDoc]) hPending hGives fun hLive =>
      (hs.course hLive).serve rfl (request_poses (Api.begin_poses hPublic))
  | call n e => exact hs.call hOrderly hForced hBase ht
  | start n =>
    obtain ⟨hDoc, hPending, hGives⟩ := step_idle hs.base.fresh (by simp) ht
    obtain ⟨-, hAbsent, hCall, -, -, pc, b, hPc, hJob⟩ := World.startStep_move ht
    have hStarted : (t.job n).pc = pc := by simp [hJob]
    have hOnly' : t.Only n := hBase.only (by rcases hPc with rfl | rfl <;> simp [hStarted])
    have hOnly : h.world.Only n := fun m hm => by simpa [hJob, hm] using hOnly' m hm
    refine hs.move hBase (by rw [hDoc]) hPending hGives fun _ => ?_
    have hCourse := hs.course (hOnly.live_iff.mpr (by rw [hAbsent]; rfl))
    refine hCourse.work hOnly hOnly' (by simp [hCall]) (by rw [hAbsent]; rfl)
      (by rcases hPc with rfl | rfl <;> simp [hStarted, JobPc.awaits]) fun hu => ?_
    simpa [hAbsent] using (hCourse.unseen_at hOnly hu).1
  | job n e => exact hs.job hOrderly hBase ht

/-- While every step is orderly, answers reach the questions they answer, unless a
force_state takes effect. -/
theorem answers_reach_questions (isSupervisor : Bool) (mode : Mode) (acts : List SpawnAct)
    (hOrderly : Along step (fun h a => h.orderly a = true) (init isSupervisor mode) acts) :
    Along step (fun h a => h.forced = false → h.Faithful a) (init isSupervisor mode) acts := by
  refine Along.of_invariant (fun h => h.forced = false → h.Tidy)
    (fun h a hs _ hForced => (hs hForced).faithful a) (fun h a h' hs hOk hStep hForced => ?_)
    (fun _ => tidy_init isSupervisor mode) hOrderly
  have hRecord : (h.record a).forced = false := by
    obtain ⟨t, -, rfl⟩ := Option.map_eq_some_iff.mp hStep
    exact hForced
  exact (hs (record_forced h a hRecord)).step hOk hRecord hStep

/-- The worker waits for the answer to its first question. -/
def waiting : List SpawnAct := Spawn.asked ++ [.call 1 .ret, .job 0 .tau]

/-- The answer is appended, taken and read in the next turn, and the spawn is done. -/
def questionAnswered : List SpawnAct :=
  waiting ++ [.request (.answer ['a']), .call 2 (.read 2), .call 2 .land, .call 2 .ret, .job 0 .tau,
    .call 3 (.read 3), .call 3 .land, .call 3 .ret, .job 0 .tau, .call 4 .land, .call 4 .ret,
    .job 0 .tau, .job 0 .tau, .job 0 (.streamed (some []))]

theorem questionAnswered_faithful :
    (∃ h, run step (init false .claude) questionAnswered = some h ∧ h.accepted = [(1, 2)] ∧
      h.replies = [(1, 2)]) ∧
    Along step (fun h a => h.forced = false → h.Faithful a) (init false .claude) questionAnswered := by
  obtain ⟨h, hRun, hh⟩ := exists_run_of_any step (init false .claude) questionAnswered
    (fun h => h.accepted = [(1, 2)] && h.replies = [(1, 2)]) (by decide)
  simp only [Bool.and_eq_true, decide_eq_true_eq] at hh
  exact ⟨⟨h, hRun, hh⟩, answers_reach_questions false .claude questionAnswered (by decide)⟩

/-- Two answers are confirmed while the first question is open; the second one becomes
the reply to the second question. -/
def answeredTwice : List SpawnAct :=
  waiting ++ [.request (.answer ['a']), .request (.answer ['b']), .call 2 (.read 2), .call 3 (.read 2),
    .call 2 .land, .call 3 .land, .call 2 .ret, .call 3 .ret, .job 0 .tau, .call 4 (.read 4),
    .call 4 .land, .call 4 .ret, .job 0 .tau, .call 5 .land, .call 5 .ret, .job 0 .tau, .job 0 .tau,
    .job 0 (.streamed (some blockingTag)), .call 6 .land, .call 6 .ret, .job 0 .tau, .job 0 .tau,
    .call 7 (.read 7), .call 7 .land, .call 7 .ret, .job 0 .tau]

theorem answeredTwice_misplaced : ¬ Along step (fun h a => h.forced = false → h.Faithful a)
    (init false .claude) (answeredTwice ++ [.call 8 .land]) := by
  obtain ⟨h, hRun, hh⟩ := exists_run_of_any step (init false .claude) answeredTwice
    (fun h => h.forced = false && (1, 3) ∈ h.accepted && (2, 3) ∈ h.replies) (by decide)
  simp only [Bool.and_eq_true, decide_eq_true_eq] at hh
  obtain ⟨⟨hForced, hAccepted⟩, hReplied⟩ := hh
  intro hAlong
  cases (hAlong.at hRun hForced).own 1 3 hAccepted 2 hReplied

end Talk

end OpenSpoke.Spawn
