import OpenSpoke.Lib.Lts
import OpenSpoke.Spawn.Step

/-!
# Finished spawns

Only an unconditional write can change the state of a finished spawn: a pickup
names the version it has read, which was queued, and no write makes a spawn
queued again.
-/

namespace OpenSpoke.Spawn

open Lts
open Python (Text)

/-- No worker asks for the state in which a spawn is submitted. -/
def Api.Sound (api : Api) : Prop := ∀ u, api = .updateState u → u.state ≠ some .queued

/-- The states that the endpoints write. -/
def Update.Legal : Update → Prop
  | .cancel new => new = .cancelled ∨ new = .cancelRequested
  | .forceState new => new = .cancelled ∨ new = .failed
  | .updateState u => u.state ≠ some .queued
  | _ => True

theorem Update.Legal.sets_ne {u : Update} (h : u.Legal) : u.sets ≠ some .queued := by
  cases u with
  | cancel new | forceState new => rcases h with rfl | rfl <;> simp [Update.sets]
  | updateState u => exact h
  | _ => simp [Update.sets]

/-- What a call of `api` may still do and say, given the versions of the document. -/
def CallPc.Ok (d : Document SpawnDoc) (api : Api) : CallPc → Prop
  | .read => api.begin = .read
  | .update u guard done conflict =>
    u.Legal ∧ (u = .pickup → guard ≠ none) ∧
      (∀ i ∈ guard, u.sets ≠ none → i ≤ d.seqNo ∧ (d.version i).state = .queued) ∧
      (∀ st, done = .spawn st → u.sets = some st) ∧ ∀ st, conflict ≠ .spawn st
  | .reply (.spawn _) => d.cur.state ≠ .queued
  | _ => True

theorem Api.begin_ok (d : Document SpawnDoc) {api : Api} (hSound : api.Sound) :
    api.begin.Ok d api := by
  cases api with
  | forceState new =>
    simp only [Api.begin]
    split
    · next hNew => exact if_pos hNew
    · trivial
  | answer text =>
    simp only [Api.begin]
    split
    · trivial
    · next hText => exact if_neg hText
  | updateState u => exact ⟨hSound u rfl, by simp, by simp, by simp, by simp⟩
  | cancel | pickup | popAnswer | finalize => rfl

theorem Api.afterRead_ok {d : Document SpawnDoc} {api : Api} (hBegin : api.begin = .read)
    (hDoc : d.Initially (·.state = .queued)) {i : Nat} (hi : i ≤ d.seqNo) :
    (api.afterRead i (d.version i)).Ok d api := by
  have hFinal : (d.version i).state.final = true → d.cur.state ≠ .queued := by
    intro hFinal hCur
    rw [hDoc.version_of_cur hCur hi] at hFinal
    cases hFinal
  cases api with
  | cancel =>
    simp only [Api.afterRead]
    split
    · next hEnd => exact hFinal hEnd
    · refine ⟨?_, by simp, by simp, by simp [Update.sets], by simp⟩
      split
      · exact .inl rfl
      · exact .inr rfl
  | forceState new =>
    simp only [Api.afterRead]
    split
    · next hEnd => exact hFinal hEnd
    · refine ⟨?_, by simp, by simp, by simp [Update.sets], by simp⟩
      simp only [Api.begin] at hBegin
      split at hBegin
      · next hNew => exact hNew
      · cases hBegin
  | answer text =>
    simp only [Api.afterRead]
    split
    · exact ⟨trivial, by simp, by simp [Update.sets], by simp, by simp⟩
    · trivial
  | pickup =>
    simp only [Api.afterRead]
    split
    · next hQueued =>
      refine ⟨trivial, by simp, ?_, by simp, by simp⟩
      rintro _ ⟨⟩ -
      exact ⟨hi, hQueued⟩
    · trivial
  | popAnswer =>
    simp only [Api.afterRead]
    split
    · trivial
    · exact ⟨trivial, by simp, by simp [Update.sets], by simp, by simp⟩
  | updateState u => cases hBegin
  | finalize => exact ⟨trivial, by simp, by simp [Update.sets], by simp, by simp⟩

theorem CallPc.Ok.put {d : Document SpawnDoc} {api : Api} {pc : CallPc} (h : pc.Ok d api)
    {v : SpawnDoc} (hv : v.state = .queued → d.cur.state = .queued) : pc.Ok (d.put v) api := by
  cases pc with
  | update u guard done conflict =>
    obtain ⟨hLegal, hPickup, hGuard, hReply⟩ := h
    refine ⟨hLegal, hPickup, fun i hi hu => ?_, hReply⟩
    obtain ⟨hLe, hQueued⟩ := hGuard i hi hu
    exact ⟨Nat.le_succ_of_le hLe, by rwa [d.version_put v hLe]⟩
  | reply r =>
    cases r with
    | spawn st =>
      show (d.put v).cur.state ≠ .queued
      rw [Document.cur_put]
      exact fun hQueued => h (hv hQueued)
    | _ => trivial
  | _ => exact h

/-- The run has nothing to send but an end that it has already sent, or an
answer to what it finds in the document. -/
def JobPc.settled : JobPc → Bool
  | .absent | .asking _ | .poll | .popping _ | .closing _ _ | .finalizing _ | .ended => true
  | _ => false

/-- The state that the call is still to write under no guard. -/
def CallPc.unguarded : CallPc → Option SpawnState
  | .update u none _ _ => u.sets
  | _ => none

/-- The endpoints that look at the state and then write one. -/
def Api.decides : Api → Bool
  | .cancel | .forceState _ => true
  | _ => false

namespace World

structure Sound (s : World) : Prop where
  doc : s.doc.Initially (·.state = .queued)
  calls : ∀ n, (s.call n).pc.Ok s.doc (s.call n).api

/-- The document and the calls under way stay, but for new calls. -/
structure Quiet (s t : World) : Prop where
  doc : t.doc = s.doc
  acked : t.acked = s.acked
  calls : ∀ m, t.call m = s.call m ∨ ∃ api : Api, api.Sound ∧ t.call m = ⟨api, api.begin, none⟩

theorem Quiet.of_eq {s t : World} (hDoc : t.doc = s.doc) (hAcked : t.acked = s.acked)
    (hCall : t.call = s.call) : Quiet s t := ⟨hDoc, hAcked, fun m => .inl (by rw [hCall])⟩

theorem Quiet.request (s : World) {api : Api} (hApi : api.Sound) {t : World} (hDoc : t.doc = s.doc)
    (hAcked : t.acked = s.acked) (hCall : t.call = (s.request api).call) : Quiet s t := by
  refine ⟨hDoc, hAcked, fun m => ?_⟩
  by_cases hm : m = s.nextCall
  · exact .inr ⟨api, hApi, by rw [hCall]; simp [hm]⟩
  · exact .inl (by rw [hCall]; simp [hm])

/-- A run of `process_job` changes itself and makes calls, no more. -/
inductive JobEffect (s : World) (n : Nat) : World → Prop
  | go (j : Job) : JobEffect s n (s.setJob n j)
  | call (j : Job) : JobEffect s n (s.setJob n j).note
  | post (api : Api) (pc : Nat → JobPc) (hApi : api.Sound) : JobEffect s n (s.post n api pc)

theorem jobEffect_close (s : World) (n : Nat) {state : SpawnState} (hState : state ≠ .queued)
    (finalize : Bool) : JobEffect s n (s.close n state finalize) :=
  .post _ _ (by rintro u ⟨⟩; simpa using hState)

/-- What a run of `process_job` can do. -/
inductive JobMove (s : World) (n : Nat) : JobEv → World → Prop
  | triaged (simple : Option Bool) (hPc : (s.job n).pc = .triage) :
      JobMove s n (.triaged simple)
        (s.post n (.updateState ⟨none, none⟩) (.verdict · (simple = some true)))
  | simple (m : Nat) (e : JobEv) (hPc : (s.job n).pc = .verdict m true)
      (hResumes : s.resumes m e = true) : JobMove s n e (s.jobTo n .gemma).note
  | complex (m : Nat) (e : JobEv) (hPc : (s.job n).pc = .verdict m false)
      (hResumes : s.resumes m e = true) : JobMove s n e (s.jobTo n .turn)
  | gemmaDone (hPc : (s.job n).pc = .gemma) : JobMove s n (.answered true) (s.close n .done true)
  | gemmaFailed (hPc : (s.job n).pc = .gemma) : JobMove s n (.answered false) (s.jobTo n .turn)
  | turn (hPc : (s.job n).pc = .turn) (hTurns : (s.job n).turnNum < (s.job n).maxTurns) :
      JobMove s n .tau
        (s.setJob n { s.job n with pc := .stream, turnNum := (s.job n).turnNum + 1 }).note
  | limit (hPc : (s.job n).pc = .turn) (hTurns : ¬ (s.job n).turnNum < (s.job n).maxTurns) :
      JobMove s n .tau (s.close n .done true)
  | unstreamed (hPc : (s.job n).pc = .stream) : JobMove s n (.streamed none) (s.close n .failed true)
  | finished (text : Text) (hPc : (s.job n).pc = .stream)
      (hText : extractBlockingQuestion text = none) :
      JobMove s n (.streamed (some text)) (s.close n .done true)
  | ask (text question : Text) (hPc : (s.job n).pc = .stream)
      (hText : extractBlockingQuestion text = some question) :
      JobMove s n (.streamed (some text))
        (s.post n (.updateState ⟨some .waitingUser, some question⟩) .asking)
  | asked (m : Nat) (e : JobEv) (hPc : (s.job n).pc = .asking m) (hResumes : s.resumes m e = true) :
      JobMove s n e (s.jobTo n .poll)
  | pop (hPc : (s.job n).pc = .poll) : JobMove s n .tau (s.post n .popAnswer .popping)
  | deadline (hPc : (s.job n).pc = .poll) : JobMove s n .deadline (s.close n .failed true)
  | take (m : Nat) (entry : Text) (st : SpawnState) (hPc : (s.job n).pc = .popping m)
      (hReply : (s.call m).reply = some (.entry (some entry) st)) :
      JobMove s n .tau (s.post n (.updateState ⟨some .running, some []⟩) .resuming)
  | cancelled (m : Nat) (hPc : (s.job n).pc = .popping m)
      (hReply : (s.call m).reply = some (.entry none .cancelRequested)) :
      JobMove s n .tau (s.close n .cancelled true)
  | nothing (m : Nat) (r : Reply) (hPc : (s.job n).pc = .popping m) (hReply : (s.call m).reply = some r)
      (hEntry : ∀ entry st, r ≠ .entry (some entry) st) : JobMove s n .tau (s.jobTo n .poll)
  | popTimeout (m : Nat) (hPc : (s.job n).pc = .popping m) : JobMove s n .timeout (s.jobTo n .poll)
  | resumed (m : Nat) (e : JobEv) (hPc : (s.job n).pc = .resuming m)
      (hResumes : s.resumes m e = true) : JobMove s n e (s.jobTo n .turn)
  | finalize (m : Nat) (e : JobEv) (hPc : (s.job n).pc = .closing m true)
      (hResumes : s.resumes m e = true) : JobMove s n e (s.post n .finalize .finalizing)
  | leave (e : JobEv) (hPc : ∃ m, (s.job n).pc = .closing m false ∨ (s.job n).pc = .finalizing m) :
      JobMove s n e (s.jobTo n .ended)
  | raised (hPc : (s.job n).pc = .triage ∨ (s.job n).pc = .gemma ∨ (s.job n).pc = .stream) :
      JobMove s n .raised (s.close n .failed false)

theorem jobStep_move {s t : World} {n : Nat} {e : JobEv} (h : s.jobStep n e = some t) :
    JobMove s n e t := by
  unfold jobStep at h
  dsimp only at h
  split at h
  next simple hPc => cases h; exact .triaged simple hPc
  next m simple hPc =>
    split at h
    next hResumes =>
      split at h <;> cases h
      next hSimple => exact .simple m _ (hSimple ▸ hPc) hResumes
      next hSimple => exact .complex m _ ((Bool.eq_false_iff.mpr hSimple) ▸ hPc) hResumes
    next => cases h
  next hPc => cases h; exact .gemmaDone hPc
  next hPc => cases h; exact .gemmaFailed hPc
  next hPc =>
    split at h <;> cases h
    · exact .turn hPc ‹_›
    · exact .limit hPc ‹_›
  next hPc => cases h; exact .unstreamed hPc
  next text hPc =>
    split at h <;> cases h
    next hText => exact .finished text hPc hText
    next question hText => exact .ask text question hPc hText
  next m hPc => split at h <;> cases h; exact .asked m _ hPc ‹_›
  next hPc => cases h; exact .pop hPc
  next hPc => cases h; exact .deadline hPc
  next m hPc =>
    split at h <;> cases h
    next entry st hReply => exact .take m entry st hPc hReply
    next hReply => exact .cancelled m hPc hReply
    next r hEntry hCancel hReply => exact .nothing m r hPc hReply (by simpa using hEntry)
  next m hPc => cases h; exact .popTimeout m hPc
  next m hPc => split at h <;> cases h; exact .resumed m _ hPc ‹_›
  next m finalize hPc =>
    split at h
    next hResumes =>
      split at h <;> cases h
      next hFinalize => exact .finalize m _ (hFinalize ▸ hPc) hResumes
      next hFinalize => exact .leave _ ⟨m, .inl ((Bool.eq_false_iff.mpr hFinalize) ▸ hPc)⟩
    next => cases h
  next m hPc => split at h <;> cases h; exact .leave _ ⟨m, .inr hPc⟩
  next hPc => cases h; exact .raised (.inl hPc)
  next hPc => cases h; exact .raised (.inr (.inl hPc))
  next hPc => cases h; exact .raised (.inr (.inr hPc))
  next => cases h

theorem jobStep_effect {s t : World} {n : Nat} {e : JobEv} (h : s.jobStep n e = some t) :
    JobEffect s n t := by
  have hUpdate : ∀ {u : Updates}, u.state ≠ some .queued → (Api.updateState u).Sound := by
    rintro u hu v ⟨⟩
    exact hu
  have hOther : ∀ {api : Api}, (∀ u, api ≠ .updateState u) → api.Sound := fun hApi u hu =>
    absurd hu (hApi u)
  cases jobStep_move h with
  | triaged | ask | take => exact .post _ _ (hUpdate (by simp))
  | pop | finalize => exact .post _ _ (hOther (by simp))
  | simple | turn => exact .call _
  | complex | gemmaFailed | asked | nothing | popTimeout | resumed | leave => exact .go _
  | gemmaDone | limit | unstreamed | finished | deadline | cancelled =>
    exact jobEffect_close s n (by simp) true
  | raised => exact jobEffect_close s n (by simp) false

theorem JobEffect.quiet {s t : World} {n : Nat} (h : JobEffect s n t) : Quiet s t := by
  cases h with
  | go j | call j => exact .of_eq rfl rfl rfl
  | post api pc hApi => exact .request s hApi rfl rfl rfl

theorem step_cases {s t : World} {a : SpawnAct} (h : s.step a = some t) :
    Quiet s t ∨ ∃ n e, a = .call n e ∧ s.callStep n e = some t := by
  cases a with
  | request api =>
    simp only [step] at h
    split at h <;> cases h
    next hPublic =>
      refine .inl (.request s ?_ rfl rfl rfl)
      rintro u rfl
      cases hPublic
  | call n e => exact .inr ⟨n, e, rfl, h⟩
  | start n =>
    simp only [step, startStep] at h
    split at h
    · split at h <;> cases h <;> exact .inl (.of_eq rfl rfl rfl)
    · cases h
  | job n e => exact .inl (jobStep_effect h).quiet

/-- What a handler of the kernel can do. -/
inductive CallMove (s : World) (n : Nat) : CallEv → World → Prop
  | read (i : Nat) (hPc : (s.call n).pc = .read) (hi : i ≤ s.doc.seqNo) :
      CallMove s n (.read i) (s.callTo n ((s.call n).api.afterRead i (s.doc.version i)))
  | unread (hPc : (s.call n).pc = .read) : CallMove s n .fail (s.callTo n (.reply .error))
  | landed (u : Update) (guard : Option Nat) (done conflict : Reply) (d : Document SpawnDoc)
      (hPc : (s.call n).pc = .update u guard done conflict)
      (hLand : s.doc.update guard u.apply = some d) :
      CallMove s n .land ((s.setDoc d).callTo n (.reply done))
  | refused (u : Update) (guard : Option Nat) (done conflict : Reply)
      (hPc : (s.call n).pc = .update u guard done conflict)
      (hLand : s.doc.update guard u.apply = none) : CallMove s n .land (s.callTo n (.reply conflict))
  | noop (u : Update) (guard : Option Nat) (done conflict : Reply)
      (hPc : (s.call n).pc = .update u guard done conflict) (hPartial : u.partialDoc = true)
      (hSame : u.apply s.doc.cur = s.doc.cur) (hGuard : ∀ i ∈ guard, i = s.doc.seqNo) :
      CallMove s n .noop (s.callTo n (.reply done))
  | failed (u : Update) (guard : Option Nat) (done conflict : Reply)
      (hPc : (s.call n).pc = .update u guard done conflict) :
      CallMove s n .fail (s.callTo n (.reply .error))
  | abandon (u : Update) (guard : Option Nat) (done conflict : Reply)
      (hPc : (s.call n).pc = .update u guard done conflict) (hReply : (s.call n).reply = none) :
      CallMove s n .abandon (s.setCall n { s.call n with reply := some .error })
  | ret (r : Reply) (hPc : (s.call n).pc = .reply r) :
      CallMove s n .ret
        { s.setCall n { s.call n with pc := .over, reply := (s.call n).reply.or (some r) } with
          acked := s.acked || acks (s.call n) r }

theorem callStep_move {s t : World} {n : Nat} {e : CallEv} (h : s.callStep n e = some t) :
    CallMove s n e t := by
  unfold callStep at h
  dsimp only at h
  split at h
  next i hPc => split at h <;> cases h; exact .read i hPc ‹_›
  next hPc => cases h; exact .unread hPc
  next u guard done conflict hPc =>
    split at h <;> cases h
    · exact .landed u guard done conflict _ hPc ‹_›
    · exact .refused u guard done conflict hPc ‹_›
  next u guard done conflict hPc =>
    obtain ⟨⟨hPartial, hSame, hGuard⟩, hEq⟩ := Option.ite_none_right_eq_some.mp h
    cases hEq
    exact .noop u guard done conflict hPc hPartial hSame hGuard
  next u guard done conflict hPc => cases h; exact .failed u guard done conflict hPc
  next u guard done conflict hPc =>
    split at h <;> cases h
    exact .abandon u guard done conflict hPc ‹_›
  next r hPc => cases h; exact .ret r hPc
  next => cases h

theorem callStep_other {s t : World} {n m : Nat} {e : CallEv} (h : s.callStep n e = some t)
    (hm : m ≠ n) : t.call m = s.call m := by
  cases callStep_move h <;> simp [hm]

theorem callStep_api {s t : World} {n : Nat} {e : CallEv} (h : s.callStep n e = some t) :
    (t.call n).api = (s.call n).api := by
  cases callStep_move h <;> simp

theorem callStep_nextCall {s t : World} {n : Nat} {e : CallEv} (h : s.callStep n e = some t) :
    t.nextCall = s.nextCall := by
  cases callStep_move h <;> rfl

/-- What a step does to the calls: it makes a new one, or moves one, or none. -/
inductive CallEffect (s : World) : SpawnAct → World → Prop
  | none (a : SpawnAct) (t : World) (hAct : ∀ n e, a ≠ .call n e) (hNext : t.nextCall = s.nextCall)
      (hCall : t.call = s.call) (hDoc : t.doc = s.doc) : CallEffect s a t
  | request (a : SpawnAct) (t : World) (api : Api) (hApi : api.Sound) (hAct : ∀ n e, a ≠ .call n e)
      (hNext : t.nextCall = s.nextCall + 1) (hCall : t.call = (s.request api).call)
      (hDoc : t.doc = s.doc) : CallEffect s a t
  | move (n : Nat) (e : CallEv) (t : World) (hNext : t.nextCall = s.nextCall)
      (hStep : s.callStep n e = some t) (hOther : ∀ m ≠ n, t.call m = s.call m) :
      CallEffect s (.call n e) t

theorem step_calls {s t : World} {a : SpawnAct} (h : s.step a = some t) : CallEffect s a t := by
  cases a with
  | request api =>
    simp only [step] at h
    split at h <;> cases h
    next hPublic =>
      refine .request _ _ api ?_ (by simp) rfl rfl rfl
      rintro u rfl
      cases hPublic
  | call n e => exact .move n e t (callStep_nextCall h) h fun m hm => callStep_other h hm
  | start n =>
    simp only [step, startStep] at h
    split at h
    · split at h <;> cases h <;> exact .none _ _ (by simp) rfl rfl rfl
    · cases h
  | job n e =>
    cases jobStep_effect h with
    | go j | call j => exact .none _ _ (by simp) rfl rfl rfl
    | post api pc hApi => exact .request _ _ api hApi (by simp) rfl rfl rfl

theorem Sound.setDoc {s : World} (h : s.Sound) {v : SpawnDoc}
    (hv : v.state = .queued → s.state = .queued) : (s.setDoc (s.doc.put v)).Sound :=
  ⟨h.doc.put hv, fun n => (h.calls n).put hv⟩

theorem Sound.setCall {s : World} (h : s.Sound) (n : Nat) {c : Call} (hc : c.pc.Ok s.doc c.api) :
    (s.setCall n c).Sound := by
  refine ⟨h.doc, fun m => ?_⟩
  by_cases hm : m = n
  · simpa [hm] using hc
  · simpa [hm] using h.calls m

theorem Sound.quiet {s t : World} (h : s.Sound) (hQuiet : Quiet s t) : t.Sound := by
  refine ⟨hQuiet.doc ▸ h.doc, fun m => ?_⟩
  rw [hQuiet.doc]
  rcases hQuiet.calls m with hEq | ⟨api, hApi, hEq⟩
  · rw [hEq]
    exact h.calls m
  · rw [hEq]
    exact api.begin_ok s.doc hApi

theorem callStep_sound {s t : World} (hs : s.Sound) {n : Nat} {e : CallEv}
    (h : s.callStep n e = some t) : t.Sound := by
  have hOk := hs.calls n
  unfold callStep at h
  dsimp only at h
  split at h
  next i hPc =>
    split at h <;> cases h
    next hi =>
      rw [hPc] at hOk
      exact hs.setCall n (Api.afterRead_ok hOk hs.doc hi)
  next => cases h; exact hs.setCall n trivial
  next u guard done conflict hPc =>
    rw [hPc] at hOk
    obtain ⟨hLegal, -, -, hDone, hConflict⟩ := hOk
    split at h <;> cases h
    · next d hLand =>
      rw [Document.update_eq_some hLand]
      have hv : (u.apply s.doc.cur).state = .queued → s.state = .queued := by
        rw [Update.apply_state]
        cases hu : u.sets with
        | none => exact id
        | some st =>
          rintro rfl
          exact absurd hu hLegal.sets_ne
      refine (hs.setDoc hv).setCall n ?_
      cases done with
      | spawn st =>
        show (s.doc.put (u.apply s.doc.cur)).cur.state ≠ .queued
        rw [Document.cur_put, Update.apply_state, hDone st rfl]
        rintro rfl
        exact hLegal.sets_ne (hDone _ rfl)
      | _ => trivial
    · refine hs.setCall n ?_
      cases conflict with
      | spawn st => exact absurd rfl (hConflict st)
      | _ => trivial
  next u guard done _ hPc =>
    rw [hPc] at hOk
    obtain ⟨hLegal, -, -, hDone, -⟩ := hOk
    split at h <;> cases h
    next hNoop =>
      refine hs.setCall n ?_
      cases done with
      | spawn st =>
        intro hQueued
        have hSame := congrArg SpawnDoc.state hNoop.2.1
        rw [Update.apply_state, hDone st rfl] at hSame
        exact hLegal.sets_ne (by rw [hDone st rfl]; exact congrArg some (hSame.trans hQueued))
      | _ => trivial
  next => cases h; exact hs.setCall n trivial
  next => split at h <;> cases h; exact hs.setCall n hOk
  next r _ =>
    cases h
    have hs' := hs.setCall n (c := { s.call n with pc := .over, reply := (s.call n).reply.or (some r) })
      trivial
    exact ⟨hs'.doc, hs'.calls⟩
  next => cases h

theorem sound_init (isSupervisor : Bool) (mode : Mode) : (init isSupervisor mode).Sound :=
  ⟨Document.initially_new _ _, fun _ => trivial⟩

theorem sound_step {s t : World} {a : SpawnAct} (hs : s.Sound) (h : s.step a = some t) :
    t.Sound := by
  rcases step_cases h with hQuiet | ⟨n, e, rfl, hCall⟩
  · exact hs.quiet hQuiet
  · exact callStep_sound hs hCall

/-- The update that the step lands, if it takes effect. -/
def lands (s : World) : SpawnAct → Option Update
  | .call n .land =>
    match (s.call n).pc with
    | .update u guard _ _ => if (s.doc.update guard u.apply).isSome then some u else none
    | _ => none
  | _ => none

theorem step_doc {s t : World} {a : SpawnAct} (h : s.step a = some t) :
    t.doc = (s.lands a).elim s.doc fun u => s.doc.put (u.apply s.doc.cur) := by
  cases a with
  | call n e =>
    simp only [step, callStep] at h
    split at h
    next hPc => split at h <;> cases h; rfl
    next => cases h; rfl
    next u guard done conflict hPc =>
      simp only [lands, hPc]
      split at h <;> cases h
      · next d hLand => simp [hLand, Document.update_eq_some hLand]
      · next hLand => simp [hLand]
    next => split at h <;> cases h; rfl
    next => cases h; rfl
    next => split at h <;> cases h; rfl
    next => cases h; rfl
    next => cases h
  | _ =>
    rcases step_cases h with hQuiet | ⟨_, _, hAct, -⟩
    · exact hQuiet.doc
    · cases hAct

theorem step_state {s t : World} {a : SpawnAct} (h : s.step a = some t) :
    t.state = ((s.lands a).bind Update.sets).getD s.state := by
  rw [state, step_doc h]
  cases s.lands a with
  | none => rfl
  | some u => simp [Update.apply_state]

/-- A finished spawn stays in its state. -/
def Final (s : World) (a : SpawnAct) : Prop :=
  s.state.final = true → ∀ t, s.step a = some t → t.state = s.state

instance (s : World) (a : SpawnAct) : Decidable (s.Final a) :=
  decidable_of_iff (s.state.final = true → (s.step a).all (fun t => t.state = s.state) = true)
    (by simp [Final, Option.all_eq_true])

/-- `pop_answer` has returned an answer to run `n`. -/
def answered (s : World) (n : Nat) : Bool :=
  match (s.job n).pc with
  | .popping m =>
    match (s.call m).reply with
    | some (.entry (some _) _) => true
    | _ => false
  | _ => false

/-- `pop_answer` has told run `n` that a cancellation is asked for. -/
def toldCancel (s : World) (n : Nat) : Bool :=
  match (s.job n).pc with
  | .popping m => (s.call m).reply = some (.entry none .cancelRequested)
  | _ => false

/-- No call but `n` is to write another state, and every run waits for an answer
or has sent its last state. -/
def Settled (s : World) (n : Nat) (st : SpawnState) : Prop :=
  ∀ m < s.nextCall, (s.job m).pc.settled = true ∧
    (m ≠ n → ∀ other ∈ (s.call m).pc.unguarded, other = st)

instance (s : World) (n : Nat) (st : SpawnState) : Decidable (s.Settled n st) :=
  inferInstanceAs (Decidable (∀ m < s.nextCall, _ ∧ _))

/-- A spawn is finished when all is settled. From then on no cancel and no force_state reads
what it was before, and no run begins, is told anything by `pop_answer` or waits out its time,
unless it would end in the same state. -/
def settles (s : World) : SpawnAct → Prop
  | .call n .land => s.state.final = false → ∀ u ∈ s.lands (.call n .land), ∀ st ∈ u.sets,
    st.final = true → s.Settled n st
  | .call n (.read i) => s.state.final = true → (s.call n).api.decides = true →
    (s.doc.version i).state.final = true
  | .start _ => s.state.final = false
  | .job _ .deadline => s.state.final = true → s.state = .failed
  | .job n .tau => s.state.final = true → s.answered n = false ∧
    (s.toldCancel n = true → s.state = .cancelled)
  | _ => True

instance (s : World) : (a : SpawnAct) → Decidable (s.settles a)
  | .call n .land => inferInstanceAs (Decidable (s.state.final = false →
    ∀ u ∈ s.lands (.call n .land), ∀ st ∈ u.sets, st.final = true → s.Settled n st))
  | .call n (.read i) => inferInstanceAs (Decidable (s.state.final = true →
    (s.call n).api.decides = true → (s.doc.version i).state.final = true))
  | .start _ => inferInstanceAs (Decidable (s.state.final = false))
  | .job _ .deadline => inferInstanceAs (Decidable (s.state.final = true → s.state = .failed))
  | .job n .tau => inferInstanceAs (Decidable (s.state.final = true → s.answered n = false ∧
    (s.toldCancel n = true → s.state = .cancelled)))
  | .request _ | .call _ .fail | .call _ .noop | .call _ .abandon | .call _ .ret
  | .job _ (.triaged _) | .job _ (.answered _) | .job _ (.streamed _) | .job _ .timeout
  | .job _ .raised => .isTrue trivial

/-- Calls and runs get their numbers one after the other. -/
def Fresh (s : World) : Prop :=
  ∀ n, s.nextCall ≤ n → (s.call n).pc = .absent ∧ (s.call n).reply = none ∧ (s.job n).pc = .absent

theorem Fresh.mono {s t : World} (h : s.Fresh) (hNext : s.nextCall ≤ t.nextCall)
    (hCall : ∀ n, t.nextCall ≤ n → t.call n = s.call n)
    (hJob : ∀ n, t.nextCall ≤ n → t.job n = s.job n) : t.Fresh := by
  intro n hn
  rw [hCall n hn, hJob n hn]
  exact h n (Nat.le_trans hNext hn)

theorem fresh_init (isSupervisor : Bool) (mode : Mode) : (init isSupervisor mode).Fresh :=
  fun _ _ => ⟨rfl, rfl, rfl⟩

theorem fresh_step {s t : World} {a : SpawnAct} (hs : s.Fresh) (h : s.step a = some t) :
    t.Fresh := by
  cases a with
  | request api =>
    simp only [step] at h
    split at h <;> cases h
    refine hs.mono (Nat.le_succ _) (fun n hn => ?_) (fun _ _ => rfl)
    have hne : n ≠ s.nextCall := by
      rw [request_nextCall] at hn
      omega
    simp [hne]
  | call n e =>
    have hLt : n < s.nextCall := by
      by_contra hLe
      simp [step, callStep, (hs n (Nat.le_of_not_lt hLe)).1] at h
    have hNext : t.nextCall = s.nextCall ∧ t.job = s.job ∧ ∃ c, t.call = Function.update s.call n c := by
      simp only [step, callStep] at h
      split at h <;> (try split at h) <;> cases h <;> exact ⟨rfl, rfl, _, rfl⟩
    obtain ⟨hNext, hJob, c, hCall⟩ := hNext
    refine hs.mono (Nat.le_of_eq hNext.symm) (fun m hm => ?_) (fun _ _ => by rw [hJob])
    have hne : m ≠ n := by omega
    rw [hCall]
    simp [hne]
  | start n =>
    have hLt : n < s.nextCall := by
      by_contra hLe
      simp [step, startStep, (hs n (Nat.le_of_not_lt hLe)).2.1] at h
    have hNext : t.nextCall = s.nextCall ∧ t.call = s.call ∧ ∃ j, t.job = Function.update s.job n j := by
      simp only [step, startStep] at h
      split at h <;> (try split at h) <;> cases h <;> exact ⟨rfl, rfl, _, rfl⟩
    obtain ⟨hNext, hCall, j, hJob⟩ := hNext
    refine hs.mono (Nat.le_of_eq hNext.symm) (fun _ _ => by rw [hCall]) (fun m hm => ?_)
    have hne : m ≠ n := by omega
    rw [hJob]
    simp [hne]
  | job n e =>
    have hLt : n < s.nextCall := by
      by_contra hLe
      simp [step, jobStep, (hs n (Nat.le_of_not_lt hLe)).2.2] at h
    cases jobStep_effect h with
    | go j | call j =>
      refine hs.mono (Nat.le_refl _) (fun _ _ => rfl) (fun m hm => ?_)
      have hne : m ≠ n := fun hEq => Nat.not_lt.mpr hm (hEq ▸ hLt)
      simp [hne]
    | post api pc hApi =>
      refine hs.mono (Nat.le_succ _) (fun m hm => ?_) (fun m hm => ?_)
      · have hne : m ≠ s.nextCall := by
          rw [post_nextCall] at hm
          omega
        simp [hne]
      · have hne : m ≠ n := by
          rw [post_nextCall] at hm
          omega
        simp [hne]

/-- What a run does that waits for an answer or has sent its last state. -/
inductive SettledMove (s : World) (n : Nat) : JobEv → World → Prop
  | go (e : JobEv) (pc : JobPc) (hPc : pc.settled = true) : SettledMove s n e (s.jobTo n pc)
  | post (e : JobEv) (api : Api) (pc : Nat → JobPc) (hPc : ∀ m, (pc m).settled = true)
      (hApi : api.begin.unguarded = none) : SettledMove s n e (s.post n api pc)
  | take (t : World) (hAnswer : s.answered n = true) : SettledMove s n .tau t
  | cancelled (hTold : s.toldCancel n = true) : SettledMove s n .tau (s.close n .cancelled true)
  | deadline : SettledMove s n .deadline (s.close n .failed true)

theorem jobStep_settled {s t : World} {n : Nat} {e : JobEv} (hJob : (s.job n).pc.settled = true)
    (h : s.jobStep n e = some t) : SettledMove s n e t := by
  cases jobStep_move h with
  | asked | nothing | popTimeout => exact .go _ _ rfl
  | leave => exact .go _ _ rfl
  | pop | finalize => exact .post _ _ _ (fun _ => rfl) rfl
  | deadline => exact .deadline
  | take m entry st hPc hReply => exact .take _ (by simp [answered, hPc, hReply])
  | cancelled m hPc hReply => exact .cancelled (by simp [toldCancel, hPc, hReply])
  | raised hPc => rcases hPc with hPc | hPc | hPc <;> rw [hPc] at hJob <;> cases hJob
  | triaged _ hPc | simple _ _ hPc | complex _ _ hPc | gemmaDone hPc | gemmaFailed hPc
  | turn hPc | limit hPc | unstreamed hPc | finished _ hPc | ask _ _ hPc | resumed _ _ hPc =>
    rw [hPc] at hJob
    cases hJob

/-- An update under no guard lands on a spawn that is finished in another state. -/
def overwrites (s : World) : SpawnAct → Bool
  | .call n .land =>
    match (s.call n).pc with
    | .update u none _ _ => s.state.final && u.sets.any (· ≠ s.state)
    | _ => false
  | _ => false

/-- A write under a guard does not meet a finished spawn, if it sets the state at all. -/
theorem Sound.guarded {s : World} (hs : s.Sound) {n i : Nat} {u : Update} {done conflict : Reply}
    (hPc : (s.call n).pc = .update u (some i) done conflict)
    (hLand : (s.doc.update (some i) u.apply).isSome = true) (hSets : u.sets ≠ none) :
    s.state = .queued := by
  have hOk := hs.calls n
  rw [hPc] at hOk
  obtain ⟨-, -, hGuard, -⟩ := hOk
  obtain ⟨d, hd⟩ := Option.isSome_iff_exists.mp hLand
  rw [state, (Document.update_some hd).1]
  exact (hGuard i rfl hSets).2

theorem lands_eq_some {s : World} {a : SpawnAct} {u : Update} (h : s.lands a = some u) :
    ∃ n guard done conflict, a = .call n .land ∧ (s.call n).pc = .update u guard done conflict ∧
      (s.doc.update guard u.apply).isSome = true := by
  unfold lands at h
  split at h
  · next n =>
    split at h
    · next v guard done conflict hPc =>
      split at h <;> cases h
      next hLand => exact ⟨n, guard, done, conflict, rfl, hPc, hLand⟩
    · cases h
  · cases h

theorem Sound.lands_legal {s : World} (hs : s.Sound) {a : SpawnAct} {u : Update}
    (h : s.lands a = some u) : u.Legal := by
  obtain ⟨n, guard, done, conflict, -, hPc, -⟩ := lands_eq_some h
  have hOk := hs.calls n
  rw [hPc] at hOk
  exact hOk.1

theorem final_iff_not_overwrites {s : World} (hs : s.Sound) (a : SpawnAct) :
    s.Final a ↔ s.overwrites a = false := by
  cases hLands : s.lands a with
  | none =>
    refine iff_of_true (fun _ t hStep => by rw [step_state hStep, hLands]; rfl) ?_
    unfold overwrites
    split
    · next n =>
      split
      · next u _ _ hPc => simp [lands, hPc] at hLands
      · rfl
    · rfl
  | some u =>
    obtain ⟨n, guard, done, conflict, rfl, hPc, hLand⟩ := lands_eq_some hLands
    cases guard with
    | none =>
      obtain ⟨d, hd⟩ := Option.isSome_iff_exists.mp hLand
      have hNext : s.step (.call n .land) = some ((s.setDoc d).callTo n (.reply done)) := by
        simp only [step, callStep, hPc, hd]
      have hState := step_state hNext
      rw [hLands, Option.bind_some] at hState
      simp only [Final, overwrites, hPc, hNext, Option.some.injEq, forall_eq', hState]
      cases u.sets with
      | none => simp
      | some st => by_cases hEnd : s.state.final = true <;> simp [hEnd]
    | some i =>
      refine iff_of_true (fun hEnd t hNext => ?_) (by simp only [overwrites, hPc])
      rw [step_state hNext, hLands, Option.bind_some]
      cases hSets : u.sets with
      | none => rfl
      | some st =>
        rw [hs.guarded hPc hLand (by simp [hSets])] at hEnd
        cases hEnd

/-- The runs and calls of a finished spawn have nothing else to write. -/
def Rests (s : World) : Prop :=
  s.state.final = true → ∀ m, (s.job m).pc.settled = true ∧
    ∀ other ∈ (s.call m).pc.unguarded, other = s.state

/-- What holds all along a run in which spawns are finished when all is settled. -/
structure Settling (s : World) : Prop where
  sound : s.Sound
  fresh : s.Fresh
  rests : s.Rests

theorem settling_init (isSupervisor : Bool) (mode : Mode) : (init isSupervisor mode).Settling :=
  ⟨sound_init isSupervisor mode, fresh_init isSupervisor mode, fun hEnd => by cases hEnd⟩

theorem not_overwrites {s : World} (h : s.Rests) (a : SpawnAct) : s.overwrites a = false := by
  unfold overwrites
  split
  · next n =>
    split
    · next u done conflict hPc =>
      cases hEnd : s.state.final with
      | false => rfl
      | true =>
        have hSame := (h hEnd n).2
        rw [hPc] at hSame
        cases hSets : u.sets with
        | none => rfl
        | some st => simpa [hEnd] using hSame st hSets
    · rfl
  · rfl

theorem Fresh.settled_iff {s : World} (h : s.Fresh) {n : Nat} {st : SpawnState} :
    s.Settled n st ↔ ∀ m, (s.job m).pc.settled = true ∧
      (m ≠ n → ∀ other ∈ (s.call m).pc.unguarded, other = st) := by
  refine ⟨fun hSettled m => ?_, fun hSettled m _ => hSettled m⟩
  rcases Nat.lt_or_ge m s.nextCall with hm | hm
  · exact hSettled m hm
  · obtain ⟨hCall, -, hJob⟩ := h m hm
    rw [hCall, hJob]
    exact ⟨rfl, fun _ other hOther => by cases hOther⟩

theorem Api.begin_unguarded {api : Api} (h : api.isPublic = true) : api.begin.unguarded = none := by
  cases api with
  | forceState new | answer text =>
    simp only [Api.begin]
    split <;> rfl
  | updateState u | finalize => cases h
  | _ => rfl

/-- What a call is still to write once it has read a finished version, or does not decide. -/
theorem Api.afterRead_unguarded {api : Api} {i : Nat} {d : SpawnDoc} (hBegin : api.begin = .read)
    (h : api.decides = true → d.state.final = true) : (api.afterRead i d).unguarded = none := by
  cases api with
  | cancel | forceState new =>
    simp only [Api.afterRead, if_pos (h rfl)]
    rfl
  | updateState u => cases hBegin
  | finalize => rfl
  | answer text | pickup | popAnswer =>
    simp only [Api.afterRead]
    split <;> rfl

theorem callStep_unguarded {s t : World} (hs : s.Sound) (hEnd : s.state.final = true) {n : Nat}
    {e : CallEv} (hSettles : s.settles (.call n e)) (h : s.callStep n e = some t) {m : Nat}
    {other : SpawnState} (hOther : other ∈ (t.call m).pc.unguarded) :
    other ∈ (s.call m).pc.unguarded := by
  by_cases hm : m = n
  swap
  · rwa [callStep_other h hm] at hOther
  subst hm
  cases callStep_move h with
  | read i hPc hi =>
    have hOk := hs.calls m
    rw [hPc] at hOk
    simp [Api.afterRead_unguarded hOk (hSettles hEnd)] at hOther
  | abandon u guard done conflict hPc hReply => simpa using hOther
  | _ => simp [CallPc.unguarded] at hOther

/-- A step on a finished spawn leaves runs and calls at rest. -/
theorem rests_kept {s t : World} {a : SpawnAct} (hs : s.Settling) (hEnd : s.state.final = true)
    (hSettles : s.settles a) (h : s.step a = some t) (m : Nat) :
    (t.job m).pc.settled = true ∧ ∀ other ∈ (t.call m).pc.unguarded, other = s.state := by
  obtain ⟨hJob, hCall⟩ := hs.rests hEnd m
  have hSet : ∀ {n : Nat} {j : Job}, j.pc.settled = true →
      (Function.update s.job n j m).pc.settled = true := by
    intro n j hj
    by_cases hm : m = n <;> simp [hm, hj]
    exact (hs.rests hEnd m).1
  have hNew : ∀ {api : Api}, (∀ other ∈ api.begin.unguarded, other = s.state) →
      ∀ other ∈ ((s.request api).call m).pc.unguarded, other = s.state := by
    intro api hApi
    by_cases hm : m = s.nextCall
    · simpa [hm] using hApi
    · simpa [hm] using hCall
  cases a with
  | request api =>
    simp only [step] at h
    split at h <;> cases h
    next hPublic => exact ⟨hJob, hNew (by simp [Api.begin_unguarded hPublic])⟩
  | call n e =>
    refine ⟨?_, fun other hOther => hCall other (callStep_unguarded hs.sound hEnd hSettles h hOther)⟩
    have hSame : t.job = s.job := by cases callStep_move h <;> rfl
    rwa [hSame]
  | start n => exact absurd (hEnd.symm.trans hSettles) (by simp)
  | job n e =>
    cases jobStep_settled (hs.rests hEnd n).1 h with
    | go e pc hPc => exact ⟨hSet hPc, hCall⟩
    | post e api pc hPc hApi => exact ⟨hSet (hPc _), hNew (by simp [hApi])⟩
    | take t hAnswer => simp [(hSettles hEnd).1] at hAnswer
    | cancelled hTold =>
      refine ⟨hSet rfl, hNew ?_⟩
      rintro other ⟨⟩
      exact ((hSettles hEnd).2 hTold).symm
    | deadline =>
      refine ⟨hSet rfl, hNew ?_⟩
      rintro other ⟨⟩
      exact (hSettles hEnd).symm

/-- A step that finishes the spawn leaves runs and calls at rest. -/
theorem rests_finished {s t : World} {a : SpawnAct} (hs : s.Settling) (hEnd : s.state.final = false)
    (hSettles : s.settles a) (h : s.step a = some t) (hFinal : t.state.final = true) (m : Nat) :
    (t.job m).pc.settled = true ∧ ∀ other ∈ (t.call m).pc.unguarded, other = t.state := by
  have hState := step_state h
  cases hSets : (s.lands a).bind Update.sets with
  | none =>
    rw [hSets] at hState
    rw [hState] at hFinal
    exact absurd (hEnd.symm.trans hFinal) (by simp)
  | some st =>
    rw [hSets] at hState
    rw [hState] at hFinal ⊢
    obtain ⟨u, hLands, hu⟩ := Option.bind_eq_some_iff.mp hSets
    obtain ⟨n, guard, done, conflict, rfl, hPc, hLand⟩ := lands_eq_some hLands
    have hSettled := hs.fresh.settled_iff.mp (hSettles hEnd u hLands st hu hFinal)
    obtain ⟨d, hd⟩ := Option.isSome_iff_exists.mp hLand
    have hNext : s.step (.call n .land) = some ((s.setDoc d).callTo n (.reply done)) := by
      simp only [step, callStep, hPc, hd]
    cases h.symm.trans hNext
    refine ⟨(hSettled m).1, fun other hOther => ?_⟩
    by_cases hm : m = n
    · simp [hm, CallPc.unguarded] at hOther
    · exact (hSettled m).2 hm other (by simpa [hm] using hOther)

theorem settling_step {s t : World} {a : SpawnAct} (hs : s.Settling) (hSettles : s.settles a)
    (h : s.step a = some t) : t.Settling := by
  refine ⟨sound_step hs.sound h, fresh_step hs.fresh h, fun hFinal m => ?_⟩
  cases hEnd : s.state.final with
  | false => exact rests_finished hs hEnd hSettles h hFinal m
  | true =>
    have hSame : t.state = s.state :=
      (final_iff_not_overwrites hs.sound a).mpr (not_overwrites hs.rests a) hEnd t h
    rw [hSame]
    exact rests_kept hs hEnd hSettles h m

end World

/-- In a run in which spawns are finished when all is settled, finished states are final. -/
theorem terminal_states_final (isSupervisor : Bool) (mode : Mode) (acts : List SpawnAct)
    (hSettles : Along World.step World.settles (.init isSupervisor mode) acts) :
    Along World.step World.Final (.init isSupervisor mode) acts :=
  Along.of_invariant World.Settling
    (fun _ a hs _ => (World.final_iff_not_overwrites hs.sound a).mpr (World.not_overwrites hs.rests a))
    (fun _ _ _ hs hStep h => World.settling_step hs hStep h)
    (World.settling_init isSupervisor mode) hSettles

/-- A spawn is failed while its worker waits, whose time then runs out; a late cancel is told so. -/
def failWhileWaiting : List SpawnAct :=
  [.request .pickup, .call 0 (.read 0), .call 0 .land, .call 0 .ret, .start 0, .job 0 .tau,
    .job 0 (.streamed (some blockingTag)), .call 1 .land, .call 1 .ret, .job 0 .tau,
    .request (.forceState .failed), .call 2 (.read 2), .call 2 .land, .call 2 .ret,
    .job 0 .deadline, .call 3 .land, .request .cancel, .call 4 (.read 3), .call 4 .ret]

theorem failWhileWaiting_final : Along World.step World.Final (.init false .claude) failWhileWaiting ∧
    (run World.step (.init false .claude) failWhileWaiting).map World.state = some .failed :=
  ⟨terminal_states_final false .claude failWhileWaiting (by decide), by decide⟩

/-- An admin fails a running spawn, and the worker's result makes it done. -/
theorem forced_failure_becomes_done : ¬Along World.step World.Final (.init false .claude)
    [.request .pickup, .call 0 (.read 0), .call 0 .land, .call 0 .ret, .start 0, .job 0 .tau,
      .request (.forceState .failed), .call 1 (.read 1), .call 1 .land, .call 1 .ret,
      .job 0 (.streamed (some [])), .call 2 .land] := by
  decide

end OpenSpoke.Spawn
