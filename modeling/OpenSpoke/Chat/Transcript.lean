import Mathlib.Data.List.Chain
import OpenSpoke.Chat.Turn

/-!
# The transcript and the record of a turn

Every tool the model asks for has one result, and what is stored is what was streamed, unless
the result of a tool cannot be written as an event: then it is answered a second time.
-/

namespace OpenSpoke.Chat.Turn

open DocIndex (Answer)
open Python (Text Str)
open Python.Str (lit encodable strip)
open Window (Context)

section

variable {ι μ : Type*} {env : Env ι} {ctx : Context μ} {s t : St ι}

/-! ## What a transcript says -/

/-- A message without the marks of the cache, a plain text as its one part. -/
def Msg.view (m : Msg ι) : Role × List (Part ι) :=
  (m.role, match m.content with
    | .plain t => [.text t]
    | .parts ps => ps.map Marked.part)

def Request.view (r : Request ι) : List (Role × List (Part ι)) := r.messages.map Msg.view

def toolUseIds (ps : List (Part ι)) : List Text :=
  ps.filterMap fun
    | .toolUse u => some u.id
    | _ => none

def resultIds (ps : List (Part ι)) : List Text :=
  ps.filterMap fun
    | .toolResult id _ _ => some id
    | _ => none

/-- The tools that an assistant message asks for have their results in the next message. -/
structure Answered (ms : List (Role × List (Part ι))) : Prop where
  next : ms.IsChain fun a b => a.1 = .assistant → resultIds b.2 = toolUseIds a.2
  last : ∀ a ∈ ms.getLast?, a.1 = .assistant → toolUseIds a.2 = []

/-- A request is the one before it with an assistant message and its results. -/
def Grows (r r' : Request ι) : Prop :=
  ∃ asks results, r'.view = r.view ++ [(.assistant, asks), (.user, results)]

structure Transcript (requests : List (Request ι)) : Prop where
  few : requests.length ≤ chatMaxToolIterations
  answered : ∀ r ∈ requests, Answered r.view
  grows : requests.IsChain Grows

theorem markLast_parts (ps : List (Marked ι)) : (markLast ps).map Marked.part = ps.map Marked.part := by
  rcases List.eq_nil_or_concat' ps with rfl | ⟨front, p, rfl⟩
  · rfl
  · simp [markLast]

theorem view_cacheControl (msgs : List (Msg ι)) :
    (messagesWithCacheControl msgs).map Msg.view = msgs.map Msg.view := by
  rcases List.eq_nil_or_concat' msgs with rfl | ⟨front, ⟨role, content⟩, rfl⟩
  · rfl
  · rw [messagesWithCacheControl, List.getLast?_concat]
    cases content with
    | plain t => simp [Msg.view]
    | parts ps =>
      cases ps with
      | nil => rfl
      | cons p ps => simp [Msg.view, markLast_parts]

theorem view_request (msgs : List (Msg ι)) : (request ctx msgs).view = msgs.map Msg.view :=
  view_cacheControl msgs

theorem Answered.turn {ms : List (Role × List (Part ι))} (h : Answered ms)
    {asks results : List (Part ι)} (hAsks : resultIds asks = [])
    (hResults : resultIds results = toolUseIds asks) :
    Answered (ms ++ [(.assistant, asks), (.user, results)]) := by
  constructor
  · refine List.isChain_append.mpr ⟨h.next, ?_, ?_⟩
    · exact List.isChain_cons_cons.mpr ⟨fun _ => hResults, .singleton _⟩
    · intro a ha b hb hRole
      obtain rfl := Option.some_inj.mp hb
      rw [h.last a ha hRole]
      exact hAsks
  · intro a ha hRole
    rw [List.getLast?_append_cons] at ha
    obtain rfl := Option.some_inj.mp ha
    cases hRole

theorem Answered.of_turn {ms : List (Role × List (Part ι))} {asks results : List (Part ι)}
    (h : Answered (ms ++ [(.assistant, asks), (.user, results)])) :
    resultIds results = toolUseIds asks := by
  obtain ⟨-, hTurn, -⟩ := List.isChain_append.mp h.next
  exact (List.isChain_cons_cons.mp hTurn).1 rfl

/-- What is streamed. -/
def deltas (events : List (Event ι)) : List Str :=
  events.filterMap fun
    | .delta t => some t
    | _ => none

def toolUses (events : List (Event ι)) : List (Text × ι) :=
  events.filterMap fun
    | .toolUse name input => some (name, input)
    | _ => none

def toolResults (events : List (Event ι)) : List (Text × Bool × Str) :=
  events.filterMap fun
    | .toolResult name ok _ brief => some (name, ok, brief)
    | _ => none

/-! ## Events -/

theorem emit_ok_iff {e : Event ι} :
    emit env e s = .ok t ↔ e.encodable env = true ∧ t = { s with events := s.events ++ [e] } := by
  unfold emit
  split
  next hEnc => simp [hEnc, eq_comm]
  next hEnc => simp [hEnc]

theorem emit_error {e : Event ι} {x : Raised} (h : emit env e s = .error (t, x)) :
    t = s ∧ x = raisedBy env e ∧ e.encodable env = false := by
  unfold emit at h
  split at h
  · cases h
  next hEnc =>
    obtain ⟨rfl, rfl⟩ := Prod.mk.inj (Except.error.inj h)
    exact ⟨rfl, rfl, by simpa using hEnc⟩

/-- The texts of the stream that are not empty. -/
def solidChunks (chunks : List Str) : List Str := chunks.filter (· ≠ [])

theorem emitDeltas_ok_iff {chunks : List Str} :
    emitDeltas env chunks s = .ok t ↔ (∀ c ∈ chunks, encodable c = true) ∧
      t = { s with
        parts := s.parts ++ solidChunks chunks
        events := s.events ++ (solidChunks chunks).map .delta } := by
  induction chunks generalizing s with
  | nil =>
    rw [emitDeltas, Except.ok.injEq, eq_comm]
    simp [solidChunks]
  | cons c chunks ih =>
    rw [emitDeltas]
    split
    next hNil =>
      subst hNil
      rw [ih]
      simp [solidChunks, encodable]
    next hNe =>
      cases hEmit : emit env (.delta c) { s with parts := s.parts ++ [c] } with
      | ok u =>
        obtain ⟨hEnc, rfl⟩ := emit_ok_iff.mp hEmit
        have hc : encodable c = true := hEnc
        rw [ih]
        simp [solidChunks, hNe, hc]
      | error e =>
        have hc : encodable c = false := (emit_error hEmit).2.2
        simp [hc]

theorem emitDeltas_error {chunks : List Str} {x : Raised}
    (h : emitDeltas env chunks s = .error (t, x)) : t.requests = s.requests := by
  induction chunks generalizing s with
  | nil => cases h
  | cons c chunks ih =>
    rw [emitDeltas] at h
    split at h
    · exact ih h
    · cases hEmit : emit env (.delta c) { s with parts := s.parts ++ [c] } with
      | ok u =>
        rw [hEmit] at h
        obtain ⟨-, rfl⟩ := emit_ok_iff.mp hEmit
        have hSame := ih h
        exact hSame
      | error e =>
        rw [hEmit] at h
        obtain rfl := Except.error.inj h
        rw [(emit_error hEmit).1]

/-! ## Tools -/

/-- The beginning of a tool's text can be written. -/
def Outcome.Fine : Outcome → Prop
  | .text t => encodable (t.take toolResultBriefCharLimit) = true
  | .raised _ => True

instance : DecidablePred Outcome.Fine
  | .text _ => inferInstanceAs (Decidable (encodable _ = true))
  | .raised _ => inferInstanceAs (Decidable True)

/-- The text of a tool's exception can be written. -/
def Outcome.Shown : Outcome → Prop
  | .text _ => True
  | .raised e => encodable (errMsg e) = true

def brief (u : Use ι) (t : Str) : Str := (contentOf u.name t).take toolResultBriefCharLimit

theorem take_truncated (t : Str) :
    (truncated t).take toolResultBriefCharLimit = t.take toolResultBriefCharLimit := by
  unfold truncated
  split
  next hLong =>
    have hTake : toolResultBriefCharLimit ≤ (t.take mcpToolResultMaxChars).length := by
      rw [List.length_take_of_le hLong.le]
      decide
    rw [List.take_append_of_le_length hTake, List.take_take]
    rfl
  next => rfl

theorem encodable_brief (u : Use ι) (t : Str) :
    encodable (brief u t) = encodable (t.take toolResultBriefCharLimit) := by
  rw [brief, contentOf, take_truncated]
  split
  next => rfl
  next hEmpty =>
    have hNil : t = [] := by
      by_contra hNe
      exact hEmpty (.inr hNe)
    rw [hNil]
    decide

/-- The result that is put in the transcript, the call that is recorded and the event. -/
def resultOf (p : Use ι × Outcome) : Marked ι :=
  match p.2 with
  | .text t => ⟨.toolResult p.1.id (contentOf p.1.name t) false, false⟩
  | .raised e => ⟨.toolResult p.1.id (errMsg e) true, false⟩

def callOf (p : Use ι × Outcome) : ToolCall ι :=
  match p.2 with
  | .text t => ⟨p.1.name, p.1.input, brief p.1 t, true⟩
  | .raised e => ⟨p.1.name, p.1.input, errMsg e, false⟩

def eventOf (p : Use ι × Outcome) : Event ι :=
  match p.2 with
  | .text t => .toolResult p.1.name true none (brief p.1 t)
  | .raised e => .toolResult p.1.name false (some e.type) (errMsg e)

/-- What an event that cannot be written raises, in the place of the tool's text. -/
def unwritten (env : Env ι) (p : Use ι × Outcome) : Use ι × Outcome :=
  (p.1, .raised (raisedBy env (eventOf p)))

/-- What is recorded for a tool: its outcome, and if that cannot be written what is raised. -/
def recorded (env : Env ι) (p : Use ι × Outcome) : List (Use ι × Outcome) :=
  if p.2.Fine then [p] else [p, unwritten env p]

/-- What is emitted for it. -/
def written (env : Env ι) (p : Use ι × Outcome) : Use ι × Outcome :=
  if p.2.Fine then p else unwritten env p

def St.ran (s : St ι) (env : Env ι) (p : Use ι × Outcome) : St ι :=
  { s with
    invoked := s.invoked ++ [p]
    results := s.results ++ (recorded env p).map resultOf
    calls := s.calls ++ (recorded env p).map callOf
    events := s.events ++ [.toolUse p.1.name p.1.input, eventOf (written env p)] }

theorem encodable_errMsg_raisedBy (e : Event ι) : encodable (errMsg (raisedBy env e)) = true := by
  rw [errMsg, Python.Str.encodable_append, Python.Str.encodable_lit, Bool.true_and]
  exact Python.Str.encodable_take (Python.Str.encodable_lit _) 120

theorem toolFailed_ok_iff {u : Use ι} {e : Raised} :
    toolFailed env u e s = .ok t ↔ encodable (errMsg e) = true ∧ t = { s with
      results := s.results ++ [resultOf (u, .raised e)]
      calls := s.calls ++ [callOf (u, .raised e)]
      events := s.events ++ [eventOf (u, .raised e)] } := emit_ok_iff

theorem toolAnswered_ok_iff {u : Use ι} {x : Str} :
    toolAnswered env u x s = .ok t ↔ t = { s with
      results := s.results ++ (recorded env (u, .text x)).map resultOf
      calls := s.calls ++ (recorded env (u, .text x)).map callOf
      events := s.events ++ [eventOf (written env (u, .text x))] } := by
  unfold toolAnswered
  dsimp only
  split
  next s' hEmit =>
    obtain ⟨hEnc, rfl⟩ := emit_ok_iff.mp hEmit
    have hFine : (Outcome.text x).Fine := (encodable_brief u x).symm.trans hEnc
    rw [Except.ok.injEq, eq_comm, recorded, if_pos hFine, written, if_pos hFine]
    rfl
  next s' e hEmit =>
    obtain ⟨rfl, rfl, hEnc⟩ := emit_error hEmit
    have hBrief : encodable (brief u x) = false := hEnc
    have hFine : ¬(Outcome.text x).Fine := by
      intro hFine
      rw [encodable_brief] at hBrief
      exact Bool.false_ne_true (hBrief.symm.trans hFine)
    rw [toolFailed_ok_iff, recorded, if_neg hFine, written, if_neg hFine]
    simp only [encodable_errMsg_raisedBy, true_and, List.append_assoc]
    rfl

theorem runTool_ok_iff {u : Use ι} {o : Outcome} :
    runTool env u o s = .ok t ↔ env.encodes u.input = true ∧ o.Shown ∧ t = s.ran env (u, o) := by
  rw [runTool]
  cases hEmit : emit env (.toolUse u.name u.input) s with
  | error e =>
    have hEnc : env.encodes u.input = false := (emit_error hEmit).2.2
    simp [hEnc]
  | ok s' =>
    obtain ⟨hEnc, rfl⟩ := emit_ok_iff.mp hEmit
    have hInput : env.encodes u.input = true := hEnc
    cases o with
    | raised e =>
      have hFine : (Outcome.raised e).Fine := trivial
      dsimp only
      rw [toolFailed_ok_iff, St.ran, recorded, if_pos hFine, written, if_pos hFine]
      simp [hInput, Outcome.Shown]
    | text x =>
      dsimp only
      rw [toolAnswered_ok_iff, St.ran]
      simp [hInput, Outcome.Shown]

theorem toolFailed_error {u : Use ι} {e x : Raised} (h : toolFailed env u e s = .error (t, x)) :
    t.requests = s.requests := by
  rw [(emit_error h).1]

theorem runTool_error {u : Use ι} {o : Outcome} {x : Raised}
    (h : runTool env u o s = .error (t, x)) : t.requests = s.requests := by
  rw [runTool] at h
  cases hEmit : emit env (.toolUse u.name u.input) s with
  | error e =>
    rw [hEmit] at h
    obtain rfl := Except.error.inj h
    rw [(emit_error hEmit).1]
  | ok s' =>
    rw [hEmit] at h
    obtain ⟨-, rfl⟩ := emit_ok_iff.mp hEmit
    cases o with
    | raised e =>
      have hSame := toolFailed_error h
      exact hSame
    | text y =>
      change toolAnswered env u y _ = _ at h
      unfold toolAnswered at h
      dsimp only at h
      split at h
      · cases h
      next s'' e hEmit' =>
        rw [toolFailed_error h, (emit_error hEmit').1]

theorem runTools_ok_iff {ps : List (Use ι × Outcome)} :
    runTools env ps s = .ok t ↔
      (∀ p ∈ ps, env.encodes p.1.input = true ∧ p.2.Shown) ∧ t = ps.foldl (·.ran env ·) s := by
  induction ps generalizing s with
  | nil =>
    rw [runTools, Except.ok.injEq, eq_comm]
    simp
  | cons p ps ih =>
    obtain ⟨u, o⟩ := p
    rw [runTools]
    cases hRun : runTool env u o s with
    | ok s' =>
      obtain ⟨hInput, hShown, rfl⟩ := runTool_ok_iff.mp hRun
      dsimp only
      rw [ih, List.forall_mem_cons, List.foldl_cons]
      simp [hInput, hShown]
    | error e =>
      have hNot : ¬(env.encodes u.input = true ∧ o.Shown) := by
        rintro ⟨hInput, hShown⟩
        rw [runTool_ok_iff.mpr ⟨hInput, hShown, rfl⟩] at hRun
        cases hRun
      simp [hNot]

theorem runTools_error {ps : List (Use ι × Outcome)} {x : Raised}
    (h : runTools env ps s = .error (t, x)) : t.requests = s.requests := by
  induction ps generalizing s with
  | nil => cases h
  | cons p ps ih =>
    obtain ⟨u, o⟩ := p
    rw [runTools] at h
    cases hRun : runTool env u o s with
    | ok s' =>
      rw [hRun] at h
      obtain ⟨-, -, rfl⟩ := runTool_ok_iff.mp hRun
      have hSame := ih h
      exact hSame
    | error e =>
      rw [hRun] at h
      obtain rfl := Except.error.inj h
      exact runTool_error hRun

/-- By induction on the tools: each appends what is recorded and emitted for it. -/
theorem foldl_ran (ps : List (Use ι × Outcome)) : ps.foldl (·.ran env ·) s = { s with
    invoked := s.invoked ++ ps
    results := s.results ++ (ps.flatMap (recorded env)).map resultOf
    calls := s.calls ++ (ps.flatMap (recorded env)).map callOf
    events := s.events ++ ps.flatMap fun p =>
      [.toolUse p.1.name p.1.input, eventOf (written env p)] } := by
  induction ps generalizing s with
  | nil => simp
  | cons p ps ih =>
    rw [List.foldl_cons, ih]
    simp [St.ran]

/-! ## Rounds -/

def Env.tokens (env : Env ι) (k : ℕ) : Tokens :=
  match (env.reply k).final with
  | .ok final => final.usage.tokens
  | .error _ => 0

def Env.total (env : Env ι) (k : ℕ) : Tokens := ((List.range k).map env.tokens).sum

def Env.overCap (env : Env ι) (k : ℕ) : Prop :=
  chatAccumulatedTokensCap < (env.total k).input + (env.total k).output

structure Answers (env : Env ι) (k : ℕ) (final : Final ι) : Prop where
  given : (env.reply k).final = .ok final
  chunks : ∀ c ∈ (env.reply k).chunks, encodable c = true

/-- The round with a number asks for tools, which are run, and the next one follows. -/
structure GoesOn (env : Env ι) (k : ℕ) (final : Final ι) : Prop extends Answers env k final where
  cap : ¬env.overCap (k + 1)
  asks : final.stopReason = some "tool_use".toList
  tools : ∀ p ∈ invocations env k final.content, env.encodes p.1.input = true ∧ p.2.Shown

structure StopsAt (env : Env ι) (k : ℕ) (final : Final ι) : Prop extends Answers env k final where
  stops : env.overCap (k + 1) ∨ final.stopReason ≠ some "tool_use".toList

theorem total_succ {k : ℕ} {final : Final ι} (h : (env.reply k).final = .ok final) :
    env.total (k + 1) = env.total k + final.usage.tokens := by
  rw [Env.total, List.range_succ, List.map_append, List.sum_append, List.map_singleton,
    List.sum_singleton, Env.tokens, h]
  rfl

def St.counted (s : St ι) (env : Env ι) (ctx : Context μ) (k : ℕ) (final : Final ι) : St ι :=
  { s with
    requests := s.requests ++ [request ctx s.msgs]
    parts := s.parts ++ solidChunks (env.reply k).chunks
    events := s.events ++ (solidChunks (env.reply k).chunks).map .delta
    totals := s.totals + final.usage.tokens
    usageDocs := s.usageDocs ++
      (if env.recorded k then [usageDoc ctx final.usage.tokens] else []) }

def St.next (s : St ι) (env : Env ι) (ctx : Context μ) (k : ℕ) (final : Final ι) : St ι :=
  let c := s.counted env ctx k final
  let ps := invocations env k final.content
  let results := (ps.flatMap (Turn.recorded env)).map resultOf
  { c with
    msgs := s.msgs ++ [⟨.assistant, .parts (assistantContent final.content)⟩, ⟨.user, .parts results⟩]
    results := results
    calls := s.calls ++ (ps.flatMap (Turn.recorded env)).map callOf
    events := c.events ++ ps.flatMap fun p =>
      [.toolUse p.1.name p.1.input, eventOf (written env p)]
    invoked := s.invoked ++ ps }

def Exit.state : Exit ι → St ι
  | .finished s _ | .capped s | .exhausted s | .failed s | .broken s => s

/-- How a round ends the turn: by the answer of its call, or by an error. -/
inductive Ends (env : Env ι) (ctx : Context μ) (k : ℕ) (s : St ι) : Exit ι → Prop
  | finished {final : Final ι} (h : StopsAt env k final) :
      Ends env ctx k s (.finished (s.counted env ctx k final) final.stopReason)
  | capped {final : Final ι} (h : StopsAt env k final) :
      Ends env ctx k s (.capped (s.counted env ctx k final))
  | failed {t : St ι} (h : t.requests = s.requests ++ [request ctx s.msgs]) :
      Ends env ctx k s (.failed t)
  | broken {t : St ι} (h : t.requests = s.requests ++ [request ctx s.msgs]) :
      Ends env ctx k s (.broken t)

theorem ends_outerError {k : ℕ} {x : Raised} (h : t.requests = s.requests ++ [request ctx s.msgs]) :
    Ends env ctx k s (outerError env t x) := by
  unfold outerError
  split
  next u hEmit =>
    obtain ⟨-, rfl⟩ := emit_ok_iff.mp hEmit
    exact .failed h
  next u e hEmit =>
    obtain ⟨rfl, -⟩ := emit_error hEmit
    exact .broken h

theorem ends_streamError {k : ℕ} {x : Raised} (h : t.requests = s.requests ++ [request ctx s.msgs]) :
    Ends env ctx k s (streamError env t x) := by
  unfold streamError
  split
  next u hEmit =>
    obtain ⟨-, rfl⟩ := emit_ok_iff.mp hEmit
    exact .failed h
  next u e hEmit =>
    obtain ⟨rfl, -⟩ := emit_error hEmit
    exact ends_outerError h

theorem round_cases (ctx : Context μ) {k : ℕ} (hTotals : s.totals = env.total k) :
    (∃ final, GoesOn env k final ∧ round env ctx k s = .inl (s.next env ctx k final)) ∨
      ∃ out, (∀ final, ¬GoesOn env k final) ∧ Ends env ctx k s out ∧ round env ctx k s = .inr out := by
  unfold round
  dsimp only
  split
  next u x hDeltas =>
    refine .inr ⟨_, fun final h => ?_, ends_streamError (emitDeltas_error hDeltas), rfl⟩
    rw [emitDeltas_ok_iff.mpr ⟨h.chunks, rfl⟩] at hDeltas
    cases hDeltas
  next u hDeltas =>
    obtain ⟨hChunks, rfl⟩ := emitDeltas_ok_iff.mp hDeltas
    split
    next x hFinal =>
      refine .inr ⟨_, fun final h => ?_, ends_streamError rfl, rfl⟩
      cases hFinal.symm.trans h.given
    next final hFinal =>
      have hAnswers : Answers env k final := ⟨hFinal, hChunks⟩
      have hSame : ∀ other, GoesOn env k other → other = final := by
        intro other h
        exact Except.ok.inj (h.given.symm.trans hFinal)
      have hTotal : s.totals + final.usage.tokens = env.total (k + 1) := by
        rw [total_succ hFinal, hTotals]
      split
      next hCap =>
        rw [hTotal] at hCap
        refine .inr ⟨_, fun other h => ?_, .capped ⟨hAnswers, .inl hCap⟩, rfl⟩
        exact h.cap hCap
      next hCap =>
        rw [hTotal] at hCap
        split
        next hStop =>
          refine .inr ⟨_, fun other h => ?_, .finished ⟨hAnswers, .inr hStop⟩, rfl⟩
          obtain rfl := hSame other h
          exact hStop h.asks
        next hAsks =>
          split
          next v x hTools =>
            refine .inr ⟨_, fun other h => ?_, ends_outerError ?_, rfl⟩
            · obtain rfl := hSame other h
              rw [runTools_ok_iff.mpr ⟨h.tools, rfl⟩] at hTools
              cases hTools
            · have hRequests := runTools_error hTools
              exact hRequests
          next v hTools =>
            obtain ⟨hAll, rfl⟩ := runTools_ok_iff.mp hTools
            refine .inl ⟨final, ⟨hAnswers, hCap, of_not_not hAsks, hAll⟩, ?_⟩
            rw [foldl_ran]
            simp [St.next, St.counted]

/-! ## What is stored -/

def Env.ran (env : Env ι) (k : ℕ) : List (Use ι × Outcome) :=
  match (env.reply k).final with
  | .ok final => invocations env k final.content
  | .error _ => []

structure Env.Reaches (env : Env ι) (k : ℕ) : Prop where
  ready : env.setup = .ready
  start : env.startEncodes = true
  rounds : ∀ j < k, ∃ final, GoesOn env j final

/-- The turn ends with an answer, or when its rounds are used up. -/
def Env.EndsDone (env : Env ι) : Prop :=
  ∃ k ≤ chatMaxToolIterations, env.Reaches k ∧
    (k < chatMaxToolIterations → ∃ final, StopsAt env k final)

/-- In every round that goes on, the beginning of each tool's text can be written. -/
def Env.Fine (env : Env ι) : Prop :=
  ∀ k < chatMaxToolIterations, env.Reaches (k + 1) → ∀ p ∈ env.ran k, p.2.Fine

structure Recorded (env : Env ι) (s : St ι) (hit : Option Limit) (m : Saved ι) : Prop where
  role : m.role = .assistant
  text : m.content = noticed (strip (deltas s.events).flatten) hit
  uses : m.toolCalls.map (fun c => (c.name, c.input)) = toolUses s.events
  outcomes : m.toolCalls = s.invoked.map callOf
  results : m.toolCalls.map (fun c => (c.name, c.ok, c.resultBrief)) = toolResults s.events
  tokens : m.tokens = env.total s.requests.length

structure Kept (env : Env ι) (out : Out ι) : Prop where
  transcript : Transcript out.state.requests
  done : ∀ hit, out.ended = .done hit → ∃ m, out.stored = [m] ∧ Recorded env out.state hit m
  otherwise : (∀ hit, out.ended ≠ .done hit) → out.stored = []

/-! ## Invariants -/

/-- What holds after so many rounds. -/
structure Shape (env : Env ι) (k : ℕ) (s : St ι) : Prop where
  goes : ∀ j < k, ∃ final, GoesOn env j final
  totals : s.totals = env.total k
  count : s.requests.length = k
  deltas : deltas s.events = s.parts
  uses : toolUses s.events = s.invoked.map fun p => (p.1.name, p.1.input)
  results : toolResults s.events =
    ((s.invoked.map (written env)).map callOf).map fun c => (c.name, c.ok, c.resultBrief)
  calls : s.calls = (s.invoked.flatMap (Turn.recorded env)).map callOf
  ran : ∀ p ∈ s.invoked, ∃ j < k, p ∈ env.ran j

theorem Answers.ran_eq {k : ℕ} {final : Final ι} (h : Answers env k final) :
    env.ran k = invocations env k final.content := by
  rw [Env.ran, h.given]

theorem deltas_append (es es' : List (Event ι)) : deltas (es ++ es') = deltas es ++ deltas es' :=
  List.filterMap_append

theorem toolUses_append (es es' : List (Event ι)) :
    toolUses (es ++ es') = toolUses es ++ toolUses es' := List.filterMap_append

theorem toolResults_append (es es' : List (Event ι)) :
    toolResults (es ++ es') = toolResults es ++ toolResults es' := List.filterMap_append

theorem deltas_map (chunks : List Str) : deltas (chunks.map (Event.delta (ι := ι))) = chunks := by
  rw [deltas, List.filterMap_map]
  exact List.filterMap_some

theorem toolUses_map_delta (chunks : List Str) :
    toolUses (chunks.map (Event.delta (ι := ι))) = [] := by
  rw [toolUses, List.filterMap_map]
  exact List.filterMap_eq_nil_iff.mpr fun _ _ => rfl

theorem toolResults_map_delta (chunks : List Str) :
    toolResults (chunks.map (Event.delta (ι := ι))) = [] := by
  rw [toolResults, List.filterMap_map]
  exact List.filterMap_eq_nil_iff.mpr fun _ _ => rfl

theorem tool_events (ps : List (Use ι × Outcome)) (f : Use ι × Outcome → Use ι × Outcome) :
    let events := ps.flatMap fun p => [Event.toolUse p.1.name p.1.input, eventOf (f p)]
    deltas events = [] ∧ toolUses events = ps.map (fun p => (p.1.name, p.1.input)) ∧
      toolResults events = ((ps.map f).map callOf).map fun c => (c.name, c.ok, c.resultBrief) := by
  induction ps with
  | nil => exact ⟨rfl, rfl, rfl⟩
  | cons p ps ih =>
    obtain ⟨hDeltas, hUses, hResults⟩ := ih
    have hOne : ∀ q : Use ι × Outcome,
        deltas [Event.toolUse p.1.name p.1.input, eventOf q] = [] ∧
        toolUses [Event.toolUse p.1.name p.1.input, eventOf q] = [(p.1.name, p.1.input)] ∧
        toolResults [Event.toolUse p.1.name p.1.input, eventOf q] =
          [((callOf q).name, (callOf q).ok, (callOf q).resultBrief)] := by
      rintro ⟨u, o⟩
      cases o <;> exact ⟨rfl, rfl, rfl⟩
    obtain ⟨hDelta, hUse, hResult⟩ := hOne (f p)
    dsimp only
    rw [List.flatMap_cons, deltas_append, toolUses_append, toolResults_append, hDeltas, hUses,
      hResults, hDelta, hUse, hResult]
    exact ⟨rfl, rfl, rfl⟩

theorem shape_start (env : Env ι) (ctx : Context μ) : Shape env 0 (start (ι := ι) ctx) :=
  ⟨fun _ hj => absurd hj (Nat.not_lt_zero _), rfl, rfl, rfl, rfl, rfl, rfl,
    List.forall_mem_nil _⟩

theorem Shape.counted {k : ℕ} (h : Shape env k s) (ctx : Context μ) {final : Final ι}
    (hAnswers : Answers env k final) :
    let c := s.counted env ctx k final
    c.totals = env.total (k + 1) ∧ c.requests.length = k + 1 ∧ Turn.deltas c.events = c.parts ∧
      toolUses c.events = toolUses s.events ∧ toolResults c.events = toolResults s.events := by
  refine ⟨?_, ?_, ?_, ?_, ?_⟩
  · rw [total_succ hAnswers.given, ← h.totals]
    rfl
  · rw [St.counted, List.length_append, h.count]
    rfl
  · rw [St.counted, deltas_append, deltas_map, h.deltas]
  · rw [St.counted, toolUses_append, toolUses_map_delta, List.append_nil]
  · rw [St.counted, toolResults_append, toolResults_map_delta, List.append_nil]

theorem Shape.next {k : ℕ} (h : Shape env k s) {final : Final ι} (hGoes : GoesOn env k final) :
    Shape env (k + 1) (s.next env ctx k final) := by
  obtain ⟨hTotals, hCount, hDeltas, hUses, hResults⟩ := h.counted ctx hGoes.toAnswers
  obtain ⟨hNone, hToolUses, hToolResults⟩ :=
    tool_events (invocations env k final.content) (written env)
  refine ⟨fun j hj => ?_, hTotals, hCount, ?_, ?_, ?_, ?_, ?_⟩
  · rcases Nat.lt_succ_iff_lt_or_eq.mp hj with hj | rfl
    · exact h.goes j hj
    · exact ⟨final, hGoes⟩
  · rw [St.next, deltas_append, hDeltas, hNone, List.append_nil]
  · rw [St.next, toolUses_append, hUses, hToolUses, h.uses, List.map_append]
  · rw [St.next, toolResults_append, hResults, hToolResults, h.results, List.map_append,
      List.map_append, List.map_append]
  · rw [St.next, h.calls, List.flatMap_append, List.map_append]
  · intro p hp
    rcases List.mem_append.mp hp with hp | hp
    · obtain ⟨j, hj, hMem⟩ := h.ran p hp
      exact ⟨j, Nat.lt_succ_of_lt hj, hMem⟩
    · exact ⟨k, Nat.lt_succ_self k, hGoes.ran_eq ▸ hp⟩

/-! ## Results and the tools they answer -/

theorem invocations_uses (env : Env ι) (k : ℕ) (content : List (Block ι)) :
    (invocations env k content).map Prod.fst = uses content := by
  apply List.ext_getElem?
  intro i
  rw [invocations, List.getElem?_map, List.getElem?_mapIdx, Option.map_map]
  exact Option.map_id'

theorem toolUseIds_assistantContent (content : List (Block ι)) :
    toolUseIds ((assistantContent content).map Marked.part) = (uses content).map Use.id ∧
      resultIds ((assistantContent content).map Marked.part) = [] := by
  induction content with
  | nil => exact ⟨rfl, rfl⟩
  | cons block content ih =>
    obtain ⟨hUses, hResults⟩ := ih
    cases block with
    | text t => exact ⟨hUses, hResults⟩
    | toolUse u => exact ⟨congrArg (u.id :: ·) hUses, hResults⟩
    | other => exact ⟨hUses, hResults⟩

theorem resultIds_resultOf (ps : List (Use ι × Outcome)) :
    resultIds ((ps.map resultOf).map Marked.part) = ps.map fun p => p.1.id := by
  induction ps with
  | nil => rfl
  | cons p ps ih =>
    obtain ⟨u, o⟩ := p
    cases o <;> exact congrArg (u.id :: ·) ih

theorem recorded_fine (env : Env ι) {ps : List (Use ι × Outcome)} (h : ∀ p ∈ ps, p.2.Fine) :
    ps.flatMap (recorded env) = ps ∧ ps.map (written env) = ps := by
  induction ps with
  | nil => exact ⟨rfl, rfl⟩
  | cons p ps ih =>
    obtain ⟨hp, hPs⟩ := List.forall_mem_cons.mp h
    obtain ⟨hRecorded, hWritten⟩ := ih hPs
    rw [List.flatMap_cons, hRecorded, List.map_cons, hWritten, recorded, if_pos hp, written,
      if_pos hp]
    exact ⟨rfl, rfl⟩

theorem Shape.record {k : ℕ} (h : Shape env k s) (hFine : ∀ p ∈ s.invoked, p.2.Fine) :
    s.calls = s.invoked.map callOf ∧ toolResults s.events =
      (s.invoked.map callOf).map fun c => (c.name, c.ok, c.resultBrief) := by
  obtain ⟨hRecorded, hWritten⟩ := recorded_fine env hFine
  have hCalls := h.calls
  have hResults := h.results
  rw [hRecorded] at hCalls
  rw [hWritten] at hResults
  exact ⟨hCalls, hResults⟩

/-- A tool whose text cannot be written is recorded a second time. -/
theorem fine_of_length {ps : List (Use ι × Outcome)}
    (h : (ps.flatMap (recorded env)).length ≤ ps.length) : ∀ p ∈ ps, p.2.Fine := by
  have hLe : ∀ qs : List (Use ι × Outcome), qs.length ≤ (qs.flatMap (recorded env)).length := by
    intro qs
    induction qs with
    | nil => exact le_rfl
    | cons q qs ih =>
      rw [List.flatMap_cons, List.length_append, List.length_cons, recorded]
      split <;> simp only [List.length_cons, List.length_nil] <;> omega
  induction ps with
  | nil => exact List.forall_mem_nil _
  | cons p ps ih =>
    rw [List.flatMap_cons, List.length_append, List.length_cons] at h
    have hRest := hLe ps
    by_cases hp : p.2.Fine
    · rw [recorded, if_pos hp, List.length_singleton] at h
      exact List.forall_mem_cons.mpr ⟨hp, ih (by omega)⟩
    · rw [recorded, if_neg hp] at h
      simp only [List.length_cons, List.length_nil] at h
      omega

theorem view_next (k : ℕ) (final : Final ι) :
    (s.next env ctx k final).msgs.map Msg.view = s.msgs.map Msg.view ++
      [(.assistant, (assistantContent final.content).map Marked.part),
        (.user, (((invocations env k final.content).flatMap (recorded env)).map resultOf).map
          Marked.part)] := by
  rw [St.next, List.map_append]
  rfl

structure Inv (env : Env ι) (ctx : Context μ) (k : ℕ) (s : St ι) : Prop extends Shape env k s where
  answered : ∀ r ∈ s.requests ++ [request ctx s.msgs], Answered r.view
  grows : (s.requests ++ [request ctx s.msgs]).IsChain Grows

theorem inv_start (env : Env ι) (ctx : Context μ) : Inv env ctx 0 (start (ι := ι) ctx) := by
  refine ⟨shape_start env ctx, ?_, .singleton _⟩
  intro r hr
  obtain rfl := List.mem_singleton.mp hr
  rw [view_request]
  have hPlain : ∀ a ∈ (start (ι := ι) ctx).msgs.map Msg.view,
      toolUseIds a.2 = [] ∧ resultIds a.2 = [] := by
    intro a ha
    rw [start, List.map_map] at ha
    obtain ⟨m, -, rfl⟩ := List.mem_map.mp ha
    exact ⟨rfl, rfl⟩
  constructor
  · refine List.Pairwise.isChain (List.pairwise_of_forall_mem_list fun a ha b hb _ => ?_)
    rw [(hPlain a ha).1, (hPlain b hb).2]
  · exact fun a ha _ => (hPlain a (List.mem_of_getLast? ha)).1

theorem Inv.next {k : ℕ} (h : Inv env ctx k s) {final : Final ι} (hGoes : GoesOn env k final)
    (hFine : ∀ p ∈ env.ran k, p.2.Fine) : Inv env ctx (k + 1) (s.next env ctx k final) := by
  rw [hGoes.ran_eq] at hFine
  obtain ⟨hUses, hNone⟩ := toolUseIds_assistantContent final.content
  have hResults : resultIds ((((invocations env k final.content).flatMap (recorded env)).map
      resultOf).map Marked.part) = toolUseIds ((assistantContent final.content).map Marked.part) := by
    rw [(recorded_fine env hFine).1, resultIds_resultOf, hUses, ← invocations_uses env k, List.map_map]
    rfl
  have hRequest : request ctx s.msgs ∈ s.requests ++ [request ctx s.msgs] :=
    List.mem_append_right _ List.mem_cons_self
  have hView : (request ctx (s.next env ctx k final).msgs).view = (request ctx s.msgs).view ++
      [(.assistant, (assistantContent final.content).map Marked.part),
        (.user, (((invocations env k final.content).flatMap (recorded env)).map resultOf).map
          Marked.part)] := by
    rw [view_request, view_next, view_request]
  refine ⟨h.toShape.next hGoes, ?_, ?_⟩
  · refine List.forall_mem_append.mpr ⟨h.answered, List.forall_mem_singleton.mpr ?_⟩
    rw [hView]
    exact (h.answered _ hRequest).turn hNone hResults
  · refine List.isChain_append.mpr ⟨h.grows, .singleton _, fun r hr r' hr' => ?_⟩
    rw [St.next, St.counted, List.getLast?_concat] at hr
    obtain rfl := Option.some_inj.mp hr
    obtain rfl := Option.some_inj.mp hr'
    exact ⟨_, _, hView⟩

/-! ## Ends -/

/-- The limit that was hit, if the turn ends with an answer to store. -/
def Exit.hit : Exit ι → Option (Option Limit)
  | .finished _ _ => some none
  | .capped _ => some (some .tokens)
  | .exhausted _ => some (some .rounds)
  | .failed _ | .broken _ => none

structure Record (env : Env ι) (s : St ι) : Prop where
  deltas : deltas s.events = s.parts
  uses : toolUses s.events = s.invoked.map fun p => (p.1.name, p.1.input)
  results : toolResults s.events =
    (s.invoked.map callOf).map fun c => (c.name, c.ok, c.resultBrief)
  calls : s.calls = s.invoked.map callOf
  totals : s.totals = env.total s.requests.length

theorem callOf_use (p : Use ι × Outcome) : ((callOf p).name, (callOf p).input) = (p.1.name, p.1.input) := by
  obtain ⟨u, o⟩ := p
  cases o <;> rfl

theorem finish_hit (env : Env ι) (ctx : Context μ) {x : Exit ι} {hit : Option Limit} (h : x.hit = some hit) :
    (finish env ctx x).ended = .done hit ∧
      (env.put = .refused → (finish env ctx x).stored = []) ∧
      (env.put ≠ .refused → ∃ m, (finish env ctx x).stored = [m] ∧ m.toolCalls = x.state.calls ∧
        (Record env x.state → Recorded env (finish env ctx x).state hit m)) := by
  have hAll : ∀ (s : St ι) (stop : Option Text), x.state = s →
      finish env ctx x = finalizeSend env ctx s hit stop →
      (finish env ctx x).ended = .done hit ∧
      (env.put = .refused → (finish env ctx x).stored = []) ∧
      (env.put ≠ .refused → ∃ m, (finish env ctx x).stored = [m] ∧ m.toolCalls = x.state.calls ∧
        (Record env x.state → Recorded env (finish env ctx x).state hit m)) := by
    intro s stop hState hFinish
    rw [hFinish, hState, finalizeSend]
    refine ⟨rfl, fun hPut => if_pos hPut, fun hPut => ⟨_, if_neg hPut, rfl, fun hRecord => ?_⟩⟩
    have hDeltas : deltas (s.events ++ [.done s.totals stop s.calls.length]) = s.parts := by
      rw [deltas_append, hRecord.deltas]
      exact List.append_nil _
    have hUses : toolUses (s.events ++ [.done s.totals stop s.calls.length]) =
        toolUses s.events := by
      rw [toolUses_append]
      exact List.append_nil _
    have hResults : toolResults (s.events ++ [.done s.totals stop s.calls.length]) =
        toolResults s.events := by
      rw [toolResults_append]
      exact List.append_nil _
    refine ⟨rfl, ?_, ?_, hRecord.calls, ?_, hRecord.totals⟩
    · dsimp only
      rw [hDeltas]
    · dsimp only
      rw [hUses, hRecord.uses, hRecord.calls, List.map_map]
      exact List.map_congr_left fun p _ => callOf_use p
    · dsimp only
      rw [hResults, hRecord.results, hRecord.calls]
  cases x with
  | finished s stop =>
    obtain rfl := Option.some_inj.mp h
    exact hAll s stop rfl rfl
  | capped s =>
    obtain rfl := Option.some_inj.mp h
    exact hAll s _ rfl rfl
  | exhausted s =>
    obtain rfl := Option.some_inj.mp h
    exact hAll s _ rfl rfl
  | failed s => cases h
  | broken s => cases h

theorem finish_none {x : Exit ι} (h : x.hit = none) :
    (finish env ctx x).stored = [] ∧ ∀ hit, (finish env ctx x).ended ≠ .done hit := by
  cases x with
  | finished s stop => cases h
  | capped s => cases h
  | exhausted s => cases h
  | failed s => exact ⟨rfl, by rintro hit ⟨⟩⟩
  | broken s => exact ⟨rfl, by rintro hit ⟨⟩⟩

theorem finish_requests (env : Env ι) (ctx : Context μ) (x : Exit ι) : (finish env ctx x).state.requests = x.state.requests := by
  cases x <;> rfl

theorem kept_finish {x : Exit ι} (hTranscript : Transcript x.state.requests)
    (hDone : ∀ hit, x.hit = some hit → Record env x.state ∧ env.put ≠ .refused) :
    Kept env (finish env ctx x) := by
  refine ⟨finish_requests env ctx x ▸ hTranscript, ?_, ?_⟩
  · intro hit hEnd
    cases hHit : x.hit with
    | none => exact absurd hEnd ((finish_none hHit).2 hit)
    | some hit' =>
      obtain ⟨hRecord, hPut⟩ := hDone hit' hHit
      obtain ⟨hEnded, -, hStored⟩ := finish_hit env ctx hHit
      obtain ⟨m, hm, -, hRecorded⟩ := hStored hPut
      obtain rfl := End.done.inj (hEnded.symm.trans hEnd)
      exact ⟨m, hm, hRecorded hRecord⟩
  · intro hNot
    cases hHit : x.hit with
    | none => exact (finish_none hHit).1
    | some hit => exact absurd (finish_hit env ctx hHit).1 (hNot hit)

theorem Ends.requests {k : ℕ} {x : Exit ι} (h : Ends env ctx k s x) :
    x.state.requests = s.requests ++ [request ctx s.msgs] := by
  cases h with
  | finished => rfl
  | capped => rfl
  | failed h => exact h
  | broken h => exact h

theorem Ends.hit {k : ℕ} {x : Exit ι} {hit : Option Limit} (h : Ends env ctx k s x)
    (hHit : x.hit = some hit) : ∃ final, StopsAt env k final ∧ x.state = s.counted env ctx k final := by
  cases h with
  | finished h => exact ⟨_, h, rfl⟩
  | capped h => exact ⟨_, h, rfl⟩
  | failed => cases hHit
  | broken => cases hHit

theorem Env.Reaches.succ {k : ℕ} (h : env.Reaches k) {final : Final ι} (hGoes : GoesOn env k final) :
    env.Reaches (k + 1) := by
  refine ⟨h.ready, h.start, fun j hj => ?_⟩
  rcases Nat.lt_succ_iff_lt_or_eq.mp hj with hj | rfl
  · exact h.rounds j hj
  · exact ⟨final, hGoes⟩

/-- While the texts of the tools can be written, every round keeps the invariant. -/
theorem loop_kept (ctx : Context μ) (hReady : env.setup = .ready) (hStart : env.startEncodes = true)
    (hFine : env.Fine) :
    Transcript (loop env ctx).state.requests ∧ ∀ hit, (loop env ctx).hit = some hit →
      Record env (loop env ctx).state ∧ env.EndsDone := by
  have hReaches : ∀ k (s : St ι), Inv env ctx k s → env.Reaches k :=
    fun k s h => ⟨hReady, hStart, h.goes⟩
  have hRan : ∀ k (s : St ι), k ≤ chatMaxToolIterations → Inv env ctx k s →
      ∀ p ∈ s.invoked, p.2.Fine := by
    intro k s hk h p hp
    obtain ⟨j, hj, hMem⟩ := h.ran p hp
    have hTo : env.Reaches (j + 1) := ⟨hReady, hStart, fun i hi => h.goes i (by omega)⟩
    exact hFine j (by omega) hTo p hMem
  unfold loop
  rw [hReady]
  refine Rounds.loop_rule (Inv env ctx) (fun x : Exit ι => Transcript x.state.requests ∧
    ∀ hit, x.hit = some hit → Record env x.state ∧ env.EndsDone) ?_ ?_ ?_
    (Nat.zero_add chatMaxToolIterations) (inv_start env ctx)
  · intro k s t hk hInv hRound
    obtain ⟨final, hGoes, hNext⟩ | ⟨out, -, -, hOut⟩ := round_cases ctx hInv.totals
    · rw [hRound] at hNext
      obtain rfl := Sum.inl.inj hNext
      exact hInv.next hGoes (hFine k hk ((hReaches k s hInv).succ hGoes))
    · rw [hRound] at hOut
      cases hOut
  · intro k s out hk hInv hRound
    obtain ⟨final, -, hNext⟩ | ⟨out', -, hEnds, hOut⟩ := round_cases ctx hInv.totals
    · rw [hRound] at hNext
      cases hNext
    · rw [hRound] at hOut
      obtain rfl := Sum.inr.inj hOut
      constructor
      · rw [hEnds.requests]
        refine ⟨?_, hInv.answered, hInv.grows⟩
        rw [List.length_append, hInv.count]
        exact hk
      · intro hit hHit
        obtain ⟨final, hStops, hState⟩ := hEnds.hit hHit
        obtain ⟨hTotals, hCount, hDeltas, hUses, hResults⟩ :=
          hInv.toShape.counted ctx hStops.toAnswers
        obtain ⟨hCalls, hShown⟩ := hInv.toShape.record (hRan k s hk.le hInv)
        refine ⟨?_, k, hk.le, hReaches k s hInv, fun _ => ⟨final, hStops⟩⟩
        rw [hState]
        exact ⟨hDeltas, hUses.trans hInv.uses, hResults.trans hShown, hCalls, hCount ▸ hTotals⟩
  · intro s hInv
    constructor
    · refine ⟨hInv.count.le, fun r hr => hInv.answered r (List.mem_append_left _ hr), ?_⟩
      exact (List.isChain_append.mp hInv.grows).1
    · intro hit _
      obtain ⟨hCalls, hShown⟩ := hInv.toShape.record (hRan _ s le_rfl hInv)
      refine ⟨⟨hInv.deltas, hInv.uses, hShown, hCalls, hInv.count ▸ hInv.totals⟩,
        _, le_rfl, hReaches _ s hInv, fun hk => absurd hk (Nat.lt_irrefl _)⟩

theorem plainError_ends (s : St ι) (x : Str) :
    (plainError env s x).state.requests = s.requests ∧ (plainError env s x).hit = none := by
  unfold plainError
  split
  next t hEmit =>
    obtain ⟨-, rfl⟩ := emit_ok_iff.mp hEmit
    exact ⟨rfl, rfl⟩
  next t e hEmit =>
    obtain ⟨rfl, -⟩ := emit_error hEmit
    exact ⟨rfl, rfl⟩

theorem outerError_ends (s : St ι) (x : Raised) :
    (outerError env s x).state.requests = s.requests ∧ (outerError env s x).hit = none := by
  unfold outerError
  split
  next t hEmit =>
    obtain ⟨-, rfl⟩ := emit_ok_iff.mp hEmit
    exact ⟨rfl, rfl⟩
  next t e hEmit =>
    obtain ⟨rfl, -⟩ := emit_error hEmit
    exact ⟨rfl, rfl⟩

theorem loop_unready (ctx : Context μ) (h : env.setup ≠ .ready) :
    (loop env ctx).state.requests = [] ∧ (loop env ctx).hit = none := by
  unfold loop
  split
  · exact plainError_ends _ _
  · exact plainError_ends _ _
  · exact plainError_ends _ _
  · exact outerError_ends _ _
  · split
    next t hEmit =>
      obtain ⟨-, rfl⟩ := emit_ok_iff.mp hEmit
      exact ⟨rfl, rfl⟩
    next t e hEmit =>
      obtain ⟨rfl, -⟩ := emit_error hEmit
      exact outerError_ends _ _
  next hReady => exact absurd hReady h

/-! ## The rounds that are reached -/

theorem round_goesOn (ctx : Context μ) {k : ℕ} (hTotals : s.totals = env.total k) {final : Final ι}
    (hGoes : GoesOn env k final) : round env ctx k s = .inl (s.next env ctx k final) := by
  obtain ⟨other, hOther, hNext⟩ | ⟨out, hNot, -⟩ := round_cases ctx hTotals
  · obtain rfl := Except.ok.inj (hGoes.given.symm.trans hOther.given)
    exact hNext
  · exact absurd hGoes (hNot final)

theorem reaches_after (ctx : Context μ) {k : ℕ} (h : env.Reaches k) :
    ∃ s, Rounds.after (round env ctx) (start ctx) k = some s ∧ Shape env k s := by
  induction k with
  | zero => exact ⟨_, rfl, shape_start env ctx⟩
  | succ k ih =>
    obtain ⟨s, hAfter, hShape⟩ :=
      ih ⟨h.ready, h.start, fun j hj => h.rounds j (Nat.lt_succ_of_lt hj)⟩
    obtain ⟨final, hGoes⟩ := h.rounds k (Nat.lt_succ_self k)
    exact ⟨_, Rounds.after_succ hAfter (round_goesOn ctx hShape.totals hGoes), hShape.next hGoes⟩

theorem loop_from {k : ℕ} (h : env.Reaches k) (hk : k ≤ chatMaxToolIterations)
    (hAfter : Rounds.after (round env ctx) (start ctx) k = some s) :
    loop env ctx = Rounds.loop (round env ctx) .exhausted (chatMaxToolIterations - k) k s := by
  have hLoop := Rounds.loop_after Exit.exhausted hAfter (chatMaxToolIterations - k)
  rw [Nat.add_sub_cancel' hk] at hLoop
  unfold loop
  rw [h.ready]
  exact hLoop

theorem request_sent (ctx : Context μ) (n : ℕ) {k : ℕ} (hTotals : s.totals = env.total k) :
    request ctx s.msgs ∈
      (Rounds.loop (round env ctx) .exhausted (n + 1) k s).state.requests := by
  refine Rounds.loop_rule
    (fun j t => t.totals = env.total j ∧ (j = k ∧ t = s ∨ request ctx s.msgs ∈ t.requests))
    (fun x : Exit ι => request ctx s.msgs ∈ x.state.requests) ?_ ?_ ?_ (Eq.refl (k + (n + 1)))
    ⟨hTotals, .inl ⟨rfl, rfl⟩⟩
  · rintro j t u - ⟨hTotal, hSent⟩ hRound
    obtain ⟨final, hGoes, hNext⟩ | ⟨out, -, -, hOut⟩ := round_cases ctx hTotal
    · rw [hRound] at hNext
      obtain rfl := Sum.inl.inj hNext
      refine ⟨?_, .inr ?_⟩
      · rw [total_succ hGoes.given, ← hTotal]
        rfl
      · obtain ⟨-, rfl⟩ | hSent := hSent
        · exact List.mem_append_right _ List.mem_cons_self
        · exact List.mem_append_left _ hSent
    · rw [hRound] at hOut
      cases hOut
  · rintro j t out - ⟨hTotal, hSent⟩ hRound
    obtain ⟨final, -, hNext⟩ | ⟨out', -, hEnds, hOut⟩ := round_cases ctx hTotal
    · rw [hRound] at hNext
      cases hNext
    · rw [hRound] at hOut
      obtain rfl := Sum.inr.inj hOut
      rw [hEnds.requests]
      obtain ⟨-, rfl⟩ | hSent := hSent
      · exact List.mem_append_right _ List.mem_cons_self
      · exact List.mem_append_left _ hSent
  · rintro t ⟨-, ⟨hEq, -⟩ | hSent⟩
    · omega
    · exact hSent

theorem finish_invoked (env : Env ι) (ctx : Context μ) (x : Exit ι) :
    (finish env ctx x).state.invoked = x.state.invoked := by
  cases x <;> rfl

theorem Kept.fine (h : Kept env (run env ctx)) : env.Fine := by
  intro k hk hReaches p hp
  have hRun : run env ctx = finish env ctx (loop env ctx) := if_pos hReaches.start
  rw [hRun] at h
  have hBefore : env.Reaches k :=
    ⟨hReaches.ready, hReaches.start, fun j hj => hReaches.rounds j (Nat.lt_succ_of_lt hj)⟩
  obtain ⟨t, hAfter, hShape⟩ := reaches_after ctx hBefore
  obtain ⟨final, hGoes⟩ := hReaches.rounds k (Nat.lt_succ_self k)
  have hNext := Rounds.after_succ hAfter (round_goesOn ctx hShape.totals hGoes)
  have hShape' : Shape env (k + 1) (t.next env ctx k final) := hShape.next hGoes
  have hLoop := loop_from hReaches hk hNext
  rw [hGoes.ran_eq] at hp
  rcases Nat.lt_or_ge (k + 1) chatMaxToolIterations with hMore | hLast
  · -- the next request holds the results of the round
    have hSent := request_sent ctx (chatMaxToolIterations - (k + 1) - 1) hShape'.totals
    rw [Nat.sub_add_cancel (by omega), ← hLoop, ← finish_requests env ctx] at hSent
    have hAnswered := h.transcript.answered _ hSent
    rw [view_request, view_next] at hAnswered
    have hIds := hAnswered.of_turn
    rw [resultIds_resultOf, (toolUseIds_assistantContent final.content).1,
      ← invocations_uses env k, List.map_map] at hIds
    have hLength := congrArg List.length hIds
    rw [List.length_map, List.length_map] at hLength
    exact fine_of_length hLength.le p hp
  · -- the rounds are used up, and the record is stored
    have hZero : chatMaxToolIterations - (k + 1) = 0 := by omega
    rw [hZero] at hLoop
    have hExit : loop env ctx = .exhausted (t.next env ctx k final) := hLoop
    obtain ⟨hEnded, hRefused, hPut⟩ :=
      finish_hit env ctx (congrArg Exit.hit hExit : (loop env ctx).hit = some (some .rounds))
    obtain ⟨m, hm, hRecorded⟩ := h.done _ hEnded
    have hStores : env.put ≠ .refused := by
      intro hRefuse
      rw [hRefused hRefuse] at hm
      cases hm
    obtain ⟨m', hm', hCalls, -⟩ := hPut hStores
    obtain rfl := List.singleton_inj.mp (hm.symm.trans hm')
    have hOutcomes := hRecorded.outcomes
    rw [hCalls, finish_invoked, hExit] at hOutcomes
    have hLength := congrArg List.length (hShape'.calls.symm.trans hOutcomes)
    rw [List.length_map, List.length_map] at hLength
    exact fine_of_length hLength.le p (List.mem_append_right _ hp)

theorem round_stopsAt (ctx : Context μ) {k : ℕ} (hTotals : s.totals = env.total k) {final : Final ι}
    (hStops : StopsAt env k final) :
    ∃ x hit, round env ctx k s = .inr x ∧ x.hit = some hit := by
  have hTotal : s.totals + final.usage.tokens = env.total (k + 1) := by
    rw [total_succ hStops.given, hTotals]
  unfold round
  dsimp only
  rw [emitDeltas_ok_iff.mpr ⟨hStops.chunks, rfl⟩, hStops.given]
  dsimp only
  rw [hTotal]
  split
  · exact ⟨_, _, rfl, rfl⟩
  next hCap =>
    split
    · exact ⟨_, _, rfl, rfl⟩
    next hAsks => exact absurd hStops.stops (not_or.mpr ⟨hCap, hAsks⟩)

theorem done_of_endsDone (ctx : Context μ) (h : env.EndsDone) :
    ∃ hit, (loop env ctx).hit = some hit := by
  obtain ⟨k, hk, hReaches, hStops⟩ := h
  obtain ⟨s, hAfter, hShape⟩ := reaches_after ctx hReaches
  rw [loop_from hReaches hk hAfter]
  rcases Nat.lt_or_ge k chatMaxToolIterations with hLt | hGe
  · obtain ⟨final, hFinal⟩ := hStops hLt
    obtain ⟨x, hit, hRound, hHit⟩ := round_stopsAt ctx hShape.totals hFinal
    obtain ⟨n, hn⟩ : ∃ n, chatMaxToolIterations - k = n + 1 := ⟨chatMaxToolIterations - k - 1, by omega⟩
    rw [hn, Rounds.loop, hRound]
    exact ⟨hit, hHit⟩
  · have hZero : chatMaxToolIterations - k = 0 := by omega
    rw [hZero]
    exact ⟨_, rfl⟩

/-- A turn keeps its transcript and its record, if and only if the beginning of every text of
its tools can be written and the store takes the answer. -/
theorem turn_kept_iff {ι μ : Type*} (env : Env ι) (ctx : Context μ) :
    Kept env (run env ctx) ↔ env.Fine ∧ (env.EndsDone → env.put ≠ .refused) := by
  constructor
  · intro h
    refine ⟨h.fine, fun hDone hRefused => ?_⟩
    obtain ⟨hit, hHit⟩ := done_of_endsDone ctx hDone
    obtain ⟨_, _, hReaches, _⟩ := hDone
    have hRun : run env ctx = finish env ctx (loop env ctx) := if_pos hReaches.start
    rw [hRun] at h
    obtain ⟨hEnded, hNone, -⟩ := finish_hit env ctx hHit
    obtain ⟨m, hm, -⟩ := h.done hit hEnded
    rw [hNone hRefused] at hm
    cases hm
  · rintro ⟨hFine, hPut⟩
    cases hStart : env.startEncodes with
    | false =>
      have hRun : run env ctx = ⟨{ start ctx with events := [] }, [], .broken⟩ :=
        if_neg (by rw [hStart]; decide)
      rw [hRun]
      exact ⟨⟨Nat.zero_le _, List.forall_mem_nil _, .nil⟩, by rintro hit ⟨⟩, fun _ => rfl⟩
    | true =>
      have hRun : run env ctx = finish env ctx (loop env ctx) := if_pos hStart
      rw [hRun]
      by_cases hReady : env.setup = .ready
      · obtain ⟨hTranscript, hDone⟩ := loop_kept ctx hReady hStart hFine
        refine kept_finish hTranscript fun hit hHit => ?_
        obtain ⟨hRecord, hEnds⟩ := hDone hit hHit
        exact ⟨hRecord, hPut hEnds⟩
      · obtain ⟨hRequests, hHit⟩ := loop_unready ctx hReady
        refine kept_finish ?_ fun hit hHit' => ?_
        · rw [hRequests]
          exact ⟨Nat.zero_le _, List.forall_mem_nil _, .nil⟩
        · rw [hHit] at hHit'
          cases hHit'

end

/-- The text of the one tool is a lone surrogate: its event raises behind its result, which is
followed by a second one, in the next request and in the record. -/
theorem answered_twice :
    let asks : Final Unit :=
      ⟨[.toolUse ⟨['i'], ['t'], ()⟩], some "tool_use".toList, ⟨none, none, none, none⟩⟩
    let ends : Final Unit := ⟨[], some "end_turn".toList, ⟨none, none, none, none⟩⟩
    let env : Env Unit := ⟨.ready, true, fun _ => true, fun _ => ([], []),
      fun k => ⟨[], .ok (if k = 0 then asks else ends)⟩, fun _ _ => .text [.surrogate 0],
      fun _ => true, .answered⟩
    let ctx : Context Unit :=
      ⟨['o'], ['t'], ['q'], Window.defaultModel, [], 0, [⟨.user, ['q']⟩], [], []⟩
    ((run env ctx).state.requests.map fun r => r.view.map fun m => resultIds m.2) =
        [[[]], [[], [], [['i'], ['i']]]] ∧
      (run env ctx).stored.map (fun m => m.toolCalls.length) = [2] ∧ ¬Kept env (run env ctx) := by
  intro asks ends env ctx
  refine ⟨rfl, rfl, fun h => ?_⟩
  have hGoes : GoesOn env 0 asks := by
    refine ⟨⟨rfl, by simp [env]⟩, ?_, rfl, ?_⟩
    · change ¬(3000000 < 0)
      decide
    · intro p hp
      obtain rfl := List.mem_singleton.mp hp
      exact ⟨rfl, trivial⟩
  have hReaches : env.Reaches 1 := by
    refine ⟨rfl, rfl, fun j hj => ?_⟩
    obtain rfl : j = 0 := by omega
    exact ⟨asks, hGoes⟩
  have hFine : (Outcome.text [.surrogate 0]).Fine :=
    h.fine 0 (by decide) hReaches (⟨['i'], ['t'], ()⟩, .text [.surrogate 0]) List.mem_cons_self
  exact absurd hFine (by decide)

end OpenSpoke.Chat.Turn
