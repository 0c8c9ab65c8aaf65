import OpenSpoke.Spawn.Terminal

/-!
# The answer queue

`core_spawn_answer` appends in one request. `core_spawn_pop_answer` reads the first
entry in one request and removes the first entry in another, which names the
version it has read. What the calls put in and take out is a queue, whatever the
other endpoints write meanwhile; only `core_spawn_force_state` empties it.
-/

namespace OpenSpoke.Spawn

open Lts
open Python (Text)

/-- The entry that a reply hands over. -/
def Reply.handed : Reply → Option Text
  | .entry e _ => e
  | _ => none

/-- The plans of a call for the queue. -/
def CallPc.Plans (d : Document SpawnDoc) (api : Api) : CallPc → Prop
  | .update u guard done conflict =>
    match api with
    | .popAnswer => u = .popAnswer ∧ conflict.handed = none ∧ ∃ i e rest, guard = some i ∧
        i ≤ d.seqNo ∧ (d.version i).answerQueue = e :: rest ∧ done.handed = some e
    | .answer text => u = .answer text ∧ guard = none ∧ done = .ok ∧ conflict = .error
    | _ => u ≠ .popAnswer ∧ (∀ e, u ≠ .answer e) ∧ done.handed = none ∧ conflict.handed = none
  | _ => True

namespace World

/-- What the step takes from the queue. -/
def takes (s : World) (a : SpawnAct) : List Text :=
  match s.lands a with
  | some .popAnswer => s.doc.cur.answerQueue.take 1
  | _ => []

/-- What the step puts into the queue. -/
def puts (s : World) (a : SpawnAct) : List Text :=
  match s.lands a with
  | some (.answer e) => [e]
  | _ => []

/-- The step is the update of a force_state, which clears the queue. -/
def clears (s : World) (a : SpawnAct) : Bool :=
  match s.lands a with
  | some (.forceState _) => true
  | _ => false

/-- The share of call `n`. -/
def ofCall (n : Nat) (emit : World → SpawnAct → List Text) (s : World) (a : SpawnAct) : List Text :=
  match a with
  | .call m _ => if m = n then emit s a else []
  | _ => []

end World

/-- What call `api` has taken and put once it replies `r`. -/
def Api.Settled (api : Api) (r : Reply) (taken put : List Text) : Prop :=
  match api with
  | .popAnswer => taken = r.handed.toList ∧ put = []
  | .answer text => taken = [] ∧ put = if r = .ok then [text] else []
  | _ => taken = [] ∧ put = []

/-- What a call has taken and put so far; its handler has not given up on a request. -/
def Call.Honest (c : Call) (taken put : List Text) : Prop :=
  match c.pc with
  | .reply r => c.reply = none ∧ c.api.Settled r taken put
  | .over => ∃ r, c.reply = some r ∧ c.api.Settled r taken put
  | _ => c.reply = none ∧ taken = [] ∧ put = []

theorem Api.begin_plans (d : Document SpawnDoc) (api : Api) : api.begin.Plans d api := by
  cases api with
  | forceState new =>
    simp only [Api.begin]
    split <;> trivial
  | answer text =>
    simp only [Api.begin]
    split <;> trivial
  | updateState u => exact ⟨by simp, by simp, rfl, rfl⟩
  | _ => trivial

theorem Api.afterRead_plans {d : Document SpawnDoc} (api : Api) {i : Nat} (hi : i ≤ d.seqNo) :
    (api.afterRead i (d.version i)).Plans d api := by
  cases api with
  | popAnswer =>
    simp only [Api.afterRead]
    split
    · trivial
    next e rest hQueue => exact ⟨rfl, rfl, i, e, rest, rfl, hi, hQueue, rfl⟩
  | answer text =>
    simp only [Api.afterRead]
    split
    · exact ⟨rfl, rfl, rfl, rfl⟩
    · trivial
  | updateState u | finalize => exact ⟨by simp, by simp, rfl, rfl⟩
  | _ =>
    simp only [Api.afterRead]
    split
    · first | trivial | exact ⟨by simp, by simp, rfl, rfl⟩
    · first | trivial | exact ⟨by simp, by simp, rfl, rfl⟩

theorem CallPc.Plans.put {d : Document SpawnDoc} {api : Api} {pc : CallPc} (h : pc.Plans d api)
    (v : SpawnDoc) : pc.Plans (d.put v) api := by
  cases pc with
  | update u guard done conflict =>
    cases api with
    | popAnswer =>
      obtain ⟨hu, hConflict, i, e, rest, hGuard, hi, hQueue, hDone⟩ := h
      exact ⟨hu, hConflict, i, e, rest, hGuard, Nat.le_succ_of_le hi,
        by rwa [d.version_put v hi], hDone⟩
    | _ => exact h
  | _ => trivial

theorem Api.Settled.idle {api : Api} {r : Reply} (hEntry : r.handed = none)
    (hOk : ∀ text, api = .answer text → r ≠ .ok) : api.Settled r [] [] := by
  cases api with
  | popAnswer => exact ⟨by simp [hEntry], rfl⟩
  | answer text => exact ⟨rfl, by simp [hOk text rfl]⟩
  | _ => exact ⟨rfl, rfl⟩

theorem Api.begin_honest (api : Api) : Call.Honest ⟨api, api.begin, none⟩ [] [] := by
  cases api with
  | forceState new =>
    simp only [Api.begin]
    split
    · exact ⟨rfl, rfl, rfl⟩
    · exact ⟨rfl, rfl, rfl⟩
  | answer text =>
    simp only [Api.begin]
    split
    · exact ⟨rfl, .idle rfl (by simp)⟩
    · exact ⟨rfl, rfl, rfl⟩
  | _ => exact ⟨rfl, rfl, rfl⟩

theorem Api.afterRead_honest (api : Api) (i : Nat) (d : SpawnDoc) :
    Call.Honest ⟨api, api.afterRead i d, none⟩ [] [] := by
  cases api with
  | updateState u | finalize => exact ⟨rfl, rfl, rfl⟩
  | _ =>
    simp only [Api.afterRead]
    split
    · exact ⟨rfl, rfl, rfl⟩
    · exact ⟨rfl, rfl, rfl⟩

namespace World

theorem callStep_plans {s t : World} {n : Nat} {e : CallEv} (h : s.callStep n e = some t)
    (hPlans : (s.call n).pc.Plans s.doc (s.call n).api) : (t.call n).pc.Plans t.doc (t.call n).api := by
  rw [callStep_api h]
  cases callStep_move h with
  | read i hPc hi => simpa using Api.afterRead_plans (s.call n).api hi
  | abandon u guard done conflict hPc => simpa [hPc] using hPlans
  | _ => simp [CallPc.Plans]

theorem callStep_honest {s t : World} {n : Nat} {e : CallEv} (h : s.callStep n e = some t)
    (hAbandon : e ≠ .abandon) (hPlans : (s.call n).pc.Plans s.doc (s.call n).api)
    {taken put : List Text} (hHonest : (s.call n).Honest taken put) :
    (t.call n).Honest (taken ++ s.takes (.call n e)) (put ++ s.puts (.call n e)) := by
  cases callStep_move h with
  | read i hPc hi =>
    simp only [Call.Honest, hPc] at hHonest
    obtain ⟨hReply, rfl, rfl⟩ := hHonest
    have hNew := Api.afterRead_honest (s.call n).api i (s.doc.version i)
    simpa [takes, puts, lands, hReply] using hNew
  | unread hPc =>
    simp only [Call.Honest, hPc] at hHonest
    obtain ⟨hReply, rfl, rfl⟩ := hHonest
    simpa [takes, puts, lands, Call.Honest, hReply] using Api.Settled.idle rfl (by simp)
  | failed u guard done conflict hPc =>
    simp only [Call.Honest, hPc] at hHonest
    obtain ⟨hReply, rfl, rfl⟩ := hHonest
    simpa [takes, puts, lands, Call.Honest, hReply] using Api.Settled.idle rfl (by simp)
  | landed u guard done conflict d hPc hLand =>
    simp only [Call.Honest, hPc] at hHonest
    obtain ⟨hReply, rfl, rfl⟩ := hHonest
    rw [hPc] at hPlans
    have hLands : s.lands (.call n .land) = some u := by simp [lands, hPc, hLand]
    suffices hNew : (s.call n).api.Settled done ([] ++ s.takes (.call n .land))
        ([] ++ s.puts (.call n .land)) by
      simpa [Call.Honest, hReply] using hNew
    simp only [takes, puts, hLands, List.nil_append]
    cases hApi : (s.call n).api with
    | popAnswer =>
      rw [hApi] at hPlans
      obtain ⟨rfl, -, i, e, rest, rfl, -, hQueue, hDone⟩ := hPlans
      exact ⟨by rw [(Document.update_some hLand).1, hQueue, hDone]; rfl, rfl⟩
    | answer text =>
      rw [hApi] at hPlans
      obtain ⟨rfl, -, rfl, -⟩ := hPlans
      exact ⟨rfl, rfl⟩
    | _ =>
      rw [hApi] at hPlans
      obtain ⟨hPop, hAnswer, -⟩ := hPlans
      cases u <;> simp_all [Api.Settled]
  | refused u guard done conflict hPc hLand =>
    simp only [Call.Honest, hPc] at hHonest
    obtain ⟨hReply, rfl, rfl⟩ := hHonest
    rw [hPc] at hPlans
    have hLands : s.lands (.call n .land) = none := by simp [lands, hPc, hLand]
    have hNew : (s.call n).api.Settled conflict [] [] := by
      cases hApi : (s.call n).api with
      | popAnswer =>
        rw [hApi] at hPlans
        exact .idle hPlans.2.1 (by simp)
      | answer text =>
        rw [hApi] at hPlans
        obtain ⟨-, -, -, rfl⟩ := hPlans
        exact .idle rfl (by simp)
      | _ => exact ⟨rfl, rfl⟩
    simpa [takes, puts, hLands, Call.Honest, hReply] using hNew
  | noop u guard done conflict hPc hPartial hSame hCur =>
    simp only [Call.Honest, hPc] at hHonest
    obtain ⟨hReply, rfl, rfl⟩ := hHonest
    rw [hPc] at hPlans
    -- the scripts of answer and pop_answer are no partial documents
    have hNew : (s.call n).api.Settled done [] [] := by
      cases hApi : (s.call n).api with
      | popAnswer =>
        rw [hApi] at hPlans
        obtain ⟨rfl, -⟩ := hPlans
        cases hPartial
      | answer text =>
        rw [hApi] at hPlans
        obtain ⟨rfl, -⟩ := hPlans
        cases hPartial
      | _ => exact ⟨rfl, rfl⟩
    simpa [takes, puts, lands, Call.Honest, hReply] using hNew
  | abandon u guard done conflict hPc => exact absurd rfl hAbandon
  | ret r hPc =>
    simp only [Call.Honest, hPc] at hHonest
    obtain ⟨hReply, hSettled⟩ := hHonest
    simpa [takes, puts, lands, Call.Honest, hReply] using hSettled

/-- The calls of a run: the plans of each, and its number. -/
structure Planned (s : World) : Prop where
  plans : ∀ n, (s.call n).pc.Plans s.doc (s.call n).api
  unused : ∀ n, s.nextCall ≤ n → (s.call n).pc = .absent ∧ (s.call n).reply = none

theorem planned_init (isSupervisor : Bool) (mode : Mode) : (init isSupervisor mode).Planned :=
  ⟨fun _ => trivial, fun _ _ => ⟨rfl, rfl⟩⟩

theorem Planned.step {s t : World} {a : SpawnAct} (hs : s.Planned) (h : s.step a = some t) :
    t.Planned := by
  have hPut : ∀ n, (s.call n).pc.Plans t.doc (s.call n).api := by
    intro n
    rw [step_doc h]
    cases s.lands a with
    | none => exact hs.plans n
    | some u => exact (hs.plans n).put _
  cases step_calls h with
  | none _ _ _ hNext hCall => exact ⟨hCall ▸ hPut, by rw [hNext, hCall]; exact hs.unused⟩
  | request _ _ api _ _ hNext hCall =>
    refine ⟨fun n => ?_, fun n hn => ?_⟩
    · rw [hCall, request_call]
      rcases eq_or_ne n s.nextCall with rfl | hne
      · simpa using Api.begin_plans t.doc api
      · simpa [hne] using hPut n
    · rw [hNext] at hn
      rw [hCall, request_call, Function.update_of_ne (by omega)]
      exact hs.unused n (by omega)
  | move n e _ hNext hStep hOther =>
    refine ⟨fun m => ?_, fun m hm => ?_⟩
    · rcases eq_or_ne m n with rfl | hne
      · exact callStep_plans hStep (hs.plans m)
      · simpa only [hOther m hne] using hPut m
    · rw [hNext] at hm
      have hUnused := hs.unused m hm
      rcases eq_or_ne m n with rfl | hne
      · simp [callStep, hUnused.1] at hStep
      · rwa [hOther m hne]

theorem planned_run {isSupervisor : Bool} {mode : Mode} {acts : List SpawnAct} {s : World}
    (hRun : run step (init isSupervisor mode) acts = some s) : s.Planned :=
  run_induction (motive := fun _ s => s.Planned) hRun (planned_init isSupervisor mode)
    fun _ _ _ _ _ hs h => hs.step h

theorem queue_step {s t : World} {a : SpawnAct} (h : s.step a = some t)
    (hClears : s.clears a = false) :
    s.doc.cur.answerQueue ++ s.puts a = s.takes a ++ t.doc.cur.answerQueue := by
  rw [step_doc h]
  cases hLands : s.lands a with
  | none => simp [puts, takes, hLands]
  | some u =>
    simp only [puts, takes, hLands, Option.elim_some, Document.cur_put]
    cases u with
    | forceState new => simp [clears, hLands] at hClears
    | popAnswer => cases hQueue : s.doc.cur.answerQueue <;> simp [Update.apply, hQueue]
    | _ => simp [Update.apply]

/-- What a call has taken and put is settled by its own steps. -/
theorem honest_run {isSupervisor : Bool} {mode : Mode} {acts : List SpawnAct} {s : World}
    (hRun : run step (init isSupervisor mode) acts = some s) {n : Nat}
    (hAbandon : .call n .abandon ∉ acts) :
    (s.call n).Honest (trace step (ofCall n takes) (init isSupervisor mode) acts)
      (trace step (ofCall n puts) (init isSupervisor mode) acts) := by
  refine run_induction (motive := fun acts s => .call n .abandon ∉ acts →
    (s.call n).Honest (trace step (ofCall n takes) (init isSupervisor mode) acts)
      (trace step (ofCall n puts) (init isSupervisor mode) acts)) hRun
    (fun _ => ⟨rfl, rfl, rfl⟩) ?_ hAbandon
  intro acts s a t hBefore ih hStep hAbandon
  obtain ⟨hOld, hLast⟩ : .call n .abandon ∉ acts ∧ a ≠ .call n .abandon := by
    simp only [List.mem_append, List.mem_singleton, not_or] at hAbandon
    exact ⟨hAbandon.1, Ne.symm hAbandon.2⟩
  have ih := ih hOld
  rw [trace_snoc _ _ a hBefore, trace_snoc _ _ a hBefore]
  have hIdle : (∀ e, a ≠ .call n e) → ofCall n takes s a = [] ∧ ofCall n puts s a = [] := by
    intro hAct
    unfold ofCall
    split
    · next m e =>
      have hm : m ≠ n := by
        rintro rfl
        exact hAct e rfl
      simp [hm]
    · exact ⟨rfl, rfl⟩
  cases step_calls hStep with
  | none _ _ hAct _ hCall =>
    obtain ⟨hTakes, hPuts⟩ := hIdle (hAct n)
    rwa [hTakes, hPuts, hCall, List.append_nil, List.append_nil]
  | request _ _ api _ hAct _ hCall =>
    obtain ⟨hTakes, hPuts⟩ := hIdle (hAct n)
    rw [hTakes, hPuts, List.append_nil, List.append_nil, hCall, request_call]
    rcases eq_or_ne n s.nextCall with rfl | hne
    · -- a call that has not been made has done nothing
      obtain ⟨hPc, -⟩ := (planned_run hBefore).unused s.nextCall le_rfl
      simp only [Call.Honest, hPc] at ih
      rw [ih.2.1, ih.2.2, Function.update_self]
      exact api.begin_honest
    · rwa [Function.update_of_ne hne]
  | move m e _ _ hMove hOther =>
    rcases eq_or_ne n m with rfl | hne
    · have hNew := callStep_honest hMove (by rintro rfl; exact hLast rfl)
        ((planned_run hBefore).plans n) ih
      simpa only [ofCall, if_true] using hNew
    · obtain ⟨hTakes, hPuts⟩ := hIdle (by rintro e' ⟨⟩; exact hne rfl)
      rwa [hTakes, hPuts, hOther n hne, List.append_nil, List.append_nil]

end World

/-- In every run in which no force_state clears the queue, the entries that the
updates of pop_answer remove, followed by those still queued, are those that the
updates of answer append, in the order of the updates. A call that does not give
up on its request returns what its update has removed, or ok if it has appended. -/
theorem answer_queue_fifo (isSupervisor : Bool) (mode : Mode) {acts : List SpawnAct} {s : World}
    (hRun : run World.step (.init isSupervisor mode) acts = some s) :
    (Along World.step (fun s a => s.clears a = false) (.init isSupervisor mode) acts →
      trace World.step World.takes (.init isSupervisor mode) acts ++ s.doc.cur.answerQueue =
        trace World.step World.puts (.init isSupervisor mode) acts) ∧
    ∀ n, .call n .abandon ∉ acts → ∀ r, (s.call n).reply = some r →
      (s.call n).api.Settled r
        (trace World.step (World.ofCall n World.takes) (.init isSupervisor mode) acts)
        (trace World.step (World.ofCall n World.puts) (.init isSupervisor mode) acts) := by
  refine ⟨fun hClears => ?_, fun n hAbandon r hReply => ?_⟩
  · refine run_induction (motive := fun acts s => Along World.step
        (fun s a => s.clears a = false) (.init isSupervisor mode) acts →
      trace World.step World.takes (.init isSupervisor mode) acts ++ s.doc.cur.answerQueue =
        trace World.step World.puts (.init isSupervisor mode) acts) hRun (fun _ => rfl) ?_ hClears
    intro acts s a t hBefore ih hStep hClears
    obtain ⟨hOld, hLast⟩ := (along_snoc _ _ a hBefore).mp hClears
    rw [trace_snoc _ _ a hBefore, trace_snoc _ _ a hBefore, ← ih hOld, List.append_assoc,
      List.append_assoc, World.queue_step hStep hLast]
  · have hHonest := World.honest_run hRun hAbandon
    unfold Call.Honest at hHonest
    split at hHonest
    · rw [hHonest.1] at hReply
      cases hReply
    · obtain ⟨r', hr', hSettled⟩ := hHonest
      obtain rfl := Option.some.inj (hr'.symm.trans hReply)
      exact hSettled
    · rw [hHonest.1] at hReply
      cases hReply

def asked : List SpawnAct :=
  [.request .pickup, .call 0 (.read 0), .call 0 .land, .call 0 .ret, .start 0, .job 0 .tau,
    .job 0 (.streamed (some blockingTag)), .call 1 .land]

/-- Two answers cross each other, and a pop takes the one that was appended first. -/
def twoAnswers : List SpawnAct :=
  asked ++ [.request (.answer ['a']), .request (.answer ['b']), .call 2 (.read 2), .call 3 (.read 2),
    .call 3 .land, .call 2 .land, .call 2 .ret, .call 3 .ret, .request .popAnswer, .call 4 (.read 4),
    .call 4 .land, .call 4 .ret]

theorem twoAnswers_fifo : ∃ s, run World.step (.init false .claude) twoAnswers = some s ∧
    s.doc.cur.answerQueue = [['a']] ∧
    trace World.step World.takes (.init false .claude) twoAnswers ++ s.doc.cur.answerQueue =
      trace World.step World.puts (.init false .claude) twoAnswers ∧
    (s.call 4).api.Settled (.entry (some ['b']) .waitingUser)
      (trace World.step (World.ofCall 4 World.takes) (.init false .claude) twoAnswers)
      (trace World.step (World.ofCall 4 World.puts) (.init false .claude) twoAnswers) := by
  obtain ⟨s, hRun, hs⟩ := exists_run_of_any World.step (.init false .claude) twoAnswers
    (fun s => s.doc.cur.answerQueue = [['a']] &&
      (s.call 4).reply = some (.entry (some ['b']) .waitingUser)) (by decide)
  simp only [Bool.and_eq_true, decide_eq_true_eq] at hs
  obtain ⟨hQueue, hReply⟩ := hs
  obtain ⟨hFifo, hCalls⟩ := answer_queue_fifo false .claude hRun
  exact ⟨s, hRun, hQueue, hFifo (by decide), hCalls 4 (by decide) _ hReply⟩

/-- An answer is confirmed; the handler of a pop gives up on its update, which then
removes the answer: the pop has returned an error and the answer is gone. -/
theorem abandonedPop_loses_answer :
    ∃ s, run World.step (.init false .claude) (asked ++ [.request (.answer ['a']), .call 2 (.read 2),
        .call 2 .land, .call 2 .ret, .request .popAnswer, .call 3 (.read 3), .call 3 .abandon,
        .call 3 .land, .call 3 .ret]) = some s ∧
      (s.call 2).api = .answer ['a'] ∧ (s.call 2).reply = some .ok ∧
      (s.call 3).api = .popAnswer ∧ (s.call 3).reply = some .error ∧
      s.doc.cur.answerQueue = [] ∧ s.nextCall = 4 := by
  obtain ⟨s, hRun, hs⟩ := exists_run_of_any World.step (.init false .claude)
    (asked ++ [.request (.answer ['a']), .call 2 (.read 2), .call 2 .land, .call 2 .ret,
      .request .popAnswer, .call 3 (.read 3), .call 3 .abandon, .call 3 .land, .call 3 .ret])
    (fun s => (s.call 2).api = .answer ['a'] && (s.call 2).reply = some .ok &&
      (s.call 3).api = .popAnswer && (s.call 3).reply = some .error &&
      s.doc.cur.answerQueue = [] && s.nextCall = 4) (by decide)
  simp only [Bool.and_eq_true, decide_eq_true_eq] at hs
  obtain ⟨⟨⟨⟨⟨hAnswer, hOk⟩, hPop⟩, hError⟩, hQueue⟩, hNext⟩ := hs
  exact ⟨s, hRun, hAnswer, hOk, hPop, hError, hQueue, hNext⟩

end OpenSpoke.Spawn
