import OpenSpoke.Tunnel.Server.Requests

/-!
# Frames sent to a spoke

Which step appends which frame to the outbox of a connection. The response
frames that a connection was sent are the answers to its requests, in order.
-/

namespace OpenSpoke.Tunnel

open Lts

namespace Server

variable {E : Env} {s t : Server}

/-- The step `a` to `t` sends `f` on connection `c`. -/
inductive Sends (s : Server) (c : ConnId) : ServerAct → ServerFrame → Server → Prop
  | openStream (k sid : Nat) (t : Server) (hPc : (s.loop c k).pc = .sendOpen sid)
      (hNext : (t.loop c k).pc = .spawn sid) :
      Sends s c (.loop c k .tau) ⟨sid, some (.openStream "tcp" (s.loop c k).target)⟩ t
  | data (sid : Nat) (payload : Bytes) (t : Server) (hOwner : (s.stream sid).owner = c)
      (hPc : (s.stream sid).up = .send payload)
      (hNext : t.stream = Function.update s.stream sid { s.stream sid with up := .read }) :
      Sends s c (.up sid .tau) ⟨sid, some (.data payload)⟩ t
  | close (sid : Nat) (t : Server) (hOwner : (s.stream sid).owner = c)
      (hPc : (s.stream sid).up = .sendClose)
      (hNext : t.stream = Function.update s.stream sid { s.stream sid with up := .remove }) :
      Sends s c (.up sid .tau) ⟨sid, some (.close true "eof")⟩ t
  | response (a : ServerAct) (n : Nat) (resp : HttpResponse) (t : Server)
      (hConn : (s.task n).conn = c) (hPc : (s.task n).pc = .reply resp ∨
        (s.task n).pc = .inline ∧ resp = rejectedKind)
      (hNext : t.answered = s.answered ++ [(n, resp)]) :
      Sends s c a ⟨(s.task n).sid, some (.httpResponse resp)⟩ t

/-- A step hands over the oldest frame of an outbox, appends one, or leaves it. -/
inductive OutboxStep (s : Server) (c : ConnId) (a : ServerAct) (t : Server) : Prop
  | same (hOut : t.outbox c = s.outbox c) (hAct : a ≠ .env (.deliver c))
  | deliver (f : ServerFrame) (hAct : a = .env (.deliver c)) (hOut : s.outbox c = f :: t.outbox c)
  | send (f : ServerFrame) (hRx : s.rxOpen c = true) (hSends : Sends s c a f t)
      (hOut : t.outbox c = s.outbox c ++ [f])
  | connect (nonce : Bytes) (issuedAt : Int) (hAct : a = .connect nonce issuedAt)
      (hConn : c = s.nextConn) (hOut : t.outbox c = [⟨0, some (.challenge nonce issuedAt)⟩])

theorem outbox_loopMove {c d : ConnId} {k : Nat} {e : LoopEv} (h : LoopMove E s d k e t) :
    OutboxStep s c (.loop d k e) t := by
  cases h with
  | opened sid hPc hRx =>
    by_cases hd : c = d
    · subst hd
      exact .send _ hRx (.openStream k sid _ hPc (by simp [loopTo])) (by simp [loopTo])
    · exact .same (by simp [loopTo, hd]) (by simp)
  | _ => exact .same (by simp [loopTo]) (by simp)

theorem outbox_upMove {c : ConnId} {sid : Nat} {e : UpEv} (h : UpMove E s sid e t) :
    OutboxStep s c (.up sid e) t := by
  cases h with
  | sent payload hPc hRx =>
    by_cases hc : c = (s.stream sid).owner
    · subst hc
      exact .send _ hRx (.data sid payload _ rfl hPc rfl) (by simp)
    · exact .same (by simp [hc]) (by simp)
  | closeSent hPc hRx =>
    by_cases hc : c = (s.stream sid).owner
    · subst hc
      exact .send _ hRx (.close sid _ rfl hPc rfl) (by simp)
    · exact .same (by simp [hc]) (by simp)
  | _ => exact .same (by simp) (by simp)

theorem outbox_httpMove {c : ConnId} {n : Nat} {e : HttpEv} (h : HttpMove E s n e t) :
    OutboxStep s c (.http n e) t := by
  cases h with
  | replied resp hPc hRx =>
    by_cases hc : c = (s.task n).conn
    · subst hc
      exact .send _ hRx (.response _ n resp _ rfl (.inl hPc) (by simp)) (by simp)
    · exact .same (by simp [hc]) (by simp)
  | _ => exact .same (by simp [taskTo, countTask]) (by simp)

theorem outbox_connMove {c d : ConnId} {e : ConnEv} (hOk : RequestsOk E s)
    (h : ConnMove E s d e t) : OutboxStep s c (.conn d e) t := by
  cases h with
  | recv pc e t hPhase hMove =>
    cases hMove with
    | rejected n hRx =>
      by_cases hc : c = d
      · subst hc
        obtain ⟨hPc, hConn⟩ := (hOk.inline c n).mp hPhase
        exact .send _ hRx (.response _ n _ _ hConn (.inr ⟨hPc, rfl⟩) (by simp)) (by simp)
      · exact .same (by simp [hc]) (by simp)
    | _ => exact .same (by simp) (by simp)
  | _ => exact .same (by simp) (by simp)

theorem step_outbox {a : ServerAct} (hOk : RequestsOk E s) (h : step E s a = some t) (c : ConnId) :
    OutboxStep s c a t := by
  cases a with
  | connect nonce issuedAt =>
    cases h
    by_cases hc : c = s.nextConn
    · exact .connect nonce issuedAt rfl hc (by simp [connect, hc])
    · exact .same (by simp [connect, hc]) (by simp)
  | conn d e => exact outbox_connMove hOk (connStep_move h)
  | loop d k e => exact outbox_loopMove (loopStep_move h)
  | up sid e => exact outbox_upMove (upStep_move h)
  | down sid e => cases downStep_move h <;> exact .same (by simp) (by simp)
  | http n e => exact outbox_httpMove (httpStep_move h)
  | env e =>
    cases envStep_move h with
    | deliver d f rest hOut =>
      by_cases hd : c = d
      · subst hd
        exact .deliver f rfl (by simp [hOut])
      · exact .same (by simp [hd]) (by simpa using Ne.symm hd)
    | _ => exact .same (by simp) (by simp)

/-! ## Responses -/

theorem step_answered {a : ServerAct} (hOk : RequestsOk E s) (h : step E s a = some t) :
    t.answered = s.answered ∨ ∃ n resp, n < s.nextTask ∧ t.answered = s.answered ++ [(n, resp)] ∧
      t.outbox = Function.update s.outbox (s.task n).conn (s.outbox (s.task n).conn ++
        [⟨(s.task n).sid, some (.httpResponse resp)⟩]) ∧
      ((∃ e, a = .http n e) ∨ ∃ e, a = .conn (s.task n).conn e) := by
  have hRead : ∀ n, (s.task n).pc ≠ .absent → n < s.nextTask := by
    intro n hPc
    by_contra hge
    exact hPc (hOk.fresh n (Nat.not_lt.mp hge))
  cases a with
  | connect nonce issuedAt => cases h; exact .inl rfl
  | conn c e =>
    cases connStep_move h with
    | recv pc e t hPhase hMove =>
      cases hMove with
      | rejected n hRx =>
        obtain ⟨hPc, rfl⟩ := (hOk.inline c n).mp hPhase
        exact .inr ⟨n, rejectedKind, hRead n (by simp [hPc]), by simp, by simp, .inr ⟨_, rfl⟩⟩
      | _ => exact .inl (by simp)
    | _ => exact .inl (by simp)
  | loop c k e => cases loopStep_move h <;> exact .inl rfl
  | up sid e => cases upStep_move h <;> exact .inl (by simp)
  | down sid e => cases downStep_move h <;> exact .inl rfl
  | http n e =>
    cases httpStep_move h with
    | replied resp hPc hRx =>
      exact .inr ⟨n, resp, hRead n (by simp [hPc]), by simp, by simp, .inl ⟨_, rfl⟩⟩
    | _ => exact .inl (by simp [taskTo, countTask])
  | env e => cases envStep_move h <;> exact .inl rfl

def isResponse (f : ServerFrame) : Bool :=
  match f.kind with
  | some (.httpResponse _) => true
  | _ => false

def responseFrames (s : Server) (c : ConnId) : List ServerFrame :=
  s.answered.filterMap fun e => if (s.task e.1).conn = c then
    some ⟨(s.task e.1).sid, some (.httpResponse e.2)⟩ else none

/-- The frame that a step hands over to the spoke of connection `c`. -/
def handedOver (c : ConnId) (s : Server) : ServerAct → List ServerFrame
  | .env (.deliver d) => if d = c then (s.outbox c).head?.toList else []
  | _ => []

def received (E : Env) (c : ConnId) (acts : List ServerAct) : List ServerFrame :=
  trace (step E) (handedOver c) init acts

/-- Nothing is sent to a connection before it is accepted. -/
def Unsent (s : Server) : Prop := ∀ c, s.nextConn ≤ c → s.rxOpen c = false ∧ s.outbox c = []

/-- Only requests that were read are answered. -/
def AnswersRead (s : Server) : Prop := ∀ e ∈ s.answered, e.1 < s.nextTask

theorem handedOver_eq_nil {c : ConnId} {a : ServerAct} (h : a ≠ .env (.deliver c)) :
    handedOver c s a = [] := by
  unfold handedOver
  split
  · next d => rw [if_neg (by rintro rfl; exact h rfl)]
  · rfl

theorem step_counters {a : ServerAct} (h : step E s a = some t) :
    s.nextConn ≤ t.nextConn ∧ s.nextTask ≤ t.nextTask := by
  cases a with
  | connect nonce issuedAt => cases h; exact ⟨Nat.le_succ _, le_rfl⟩
  | conn c e =>
    refine ⟨(connMove_frame (connStep_move h)).2.1.ge, ?_⟩
    cases connStep_move h with
    | recv pc e t hPhase hMove => cases hMove <;> simp
    | _ => simp
  | loop c k e => cases loopStep_move h <;> exact ⟨le_rfl, le_rfl⟩
  | up sid e => cases upStep_move h <;> simp
  | down sid e => cases downStep_move h <;> exact ⟨le_rfl, le_rfl⟩
  | http n e => cases httpStep_move h <;> exact ⟨le_rfl, le_rfl⟩
  | env e => cases envStep_move h <;> exact ⟨le_rfl, le_rfl⟩

theorem responseFrames_step {a : ServerAct} (hRead : AnswersRead s)
    (h : step E s a = some t) (c : ConnId) :
    ∀ new : List (Nat × HttpResponse), t.answered = s.answered ++ new →
      (∀ e ∈ new, e.1 < s.nextTask) →
      t.responseFrames c = s.responseFrames c ++ new.filterMap fun e =>
        if (s.task e.1).conn = c then some ⟨(s.task e.1).sid, some (.httpResponse e.2)⟩ else none := by
  intro new hNew hLt
  have hTask : ∀ l : List (Nat × HttpResponse), (∀ e ∈ l, e.1 < s.nextTask) →
      (l.filterMap fun e => if (t.task e.1).conn = c then
        some (⟨(t.task e.1).sid, some (.httpResponse e.2)⟩ : ServerFrame) else none) =
      l.filterMap fun e => if (s.task e.1).conn = c then
        some ⟨(s.task e.1).sid, some (.httpResponse e.2)⟩ else none := by
    intro l hl
    refine List.filterMap_congr fun e he => ?_
    obtain ⟨hConn, hSid, -⟩ := task_step h (hl e he)
    rw [hConn, hSid]
  rw [responseFrames, hNew, List.filterMap_append, hTask _ hRead, hTask _ hLt, responseFrames]

theorem RequestsOk.answersRead (h : RequestsOk E s) : AnswersRead s := by
  intro e he
  by_contra hge
  have hNone := h.handled e.1
  rw [h.fresh _ (Nat.not_lt.mp hge)] at hNone
  have hEmpty := List.filterMap_eq_nil_iff.mp hNone.2 e he
  simp at hEmpty

theorem unsent_step {a : ServerAct} (hOk : RequestsOk E s) (hUnsent : Unsent s)
    (h : step E s a = some t) : Unsent t := by
  intro c hc
  obtain ⟨hRx, hNone⟩ := hUnsent c ((step_counters h).1.trans hc)
  refine ⟨step_rxOpen h (.inl hc) hRx, ?_⟩
  cases step_outbox hOk h c with
  | same hOut => rw [hOut, hNone]
  | deliver f hAct hOut => simp [hNone] at hOut
  | send f hOpen => simp [hRx] at hOpen
  | connect nonce issuedAt hAct hConn =>
    subst hAct
    cases h
    subst hConn
    exact absurd hc (Nat.not_succ_le_self _)

/-- A step hands over, queues and counts the same responses. -/
theorem responses_step {a : ServerAct} (hOk : RequestsOk E s) (hUnsent : Unsent s)
    (h : step E s a = some t) (c : ConnId) {sent : List ServerFrame}
    (hSent : (sent ++ s.outbox c).filter isResponse = s.responseFrames c) :
    (sent ++ handedOver c s a ++ t.outbox c).filter isResponse = t.responseFrames c := by
  have hSame := fun hNew => responseFrames_step hOk.answersRead h c [] (by simpa using hNew) (by simp)
  simp only [List.filterMap_nil, List.append_nil] at hSame
  rcases step_answered hOk h with hNew | ⟨n, resp, hn, hNew, hOut, hAct⟩
  · rw [hSame hNew, ← hSent]
    cases step_outbox hOk h c with
    | same hOut hAct => rw [handedOver_eq_nil hAct, hOut, List.append_nil]
    | deliver f hAct hOut => simp [hAct, handedOver, hOut]
    | send f hRx hSends hOut =>
      cases hSends with
      | response _ n resp _ hConn hPc hNext => simp [hNew] at hNext
      | _ => simp [hOut, handedOver, isResponse]
    | connect nonce issuedAt hAct hConn hOut =>
      rw [hOut, (hUnsent c hConn.ge).2, hAct]
      simp [handedOver, isResponse]
  · rw [responseFrames_step hOk.answersRead h c [(n, resp)] hNew (by simpa using hn), ← hSent]
    have hNone : handedOver c s a = [] := by
      rcases hAct with ⟨e, rfl⟩ | ⟨e, rfl⟩ <;> rfl
    rw [hNone, hOut]
    by_cases hc : c = (s.task n).conn
    · subst hc
      simp [isResponse]
    · simp [hc, Ne.symm hc]

structure OutboxOk (E : Env) (s : Server) : Prop where
  fresh : FreshConns s
  requests : RequestsOk E s
  unsent : Unsent s

theorem outboxOk_init (E : Env) : OutboxOk E init :=
  ⟨freshConns_init, requestsOk_init E, fun _ _ => ⟨rfl, rfl⟩⟩

theorem outboxOk_step {a : ServerAct} (hOk : OutboxOk E s) (h : step E s a = some t) :
    OutboxOk E t :=
  ⟨freshConns_step hOk.fresh h, requestsOk_step hOk.fresh hOk.requests h,
    unsent_step hOk.requests hOk.unsent h⟩

/-- The response frames sent on a connection, received or still on their way, are
its answers in order. -/
theorem received_responses {acts : List ServerAct} (h : run (step E) init acts = some s)
    (c : ConnId) : (received E c acts ++ s.outbox c).filter isResponse = s.responseFrames c := by
  refine (run_induction (motive := fun acts s => OutboxOk E s ∧
    (received E c acts ++ s.outbox c).filter isResponse = s.responseFrames c) h
    ⟨outboxOk_init E, rfl⟩ ?_).2
  rintro acts s a t hRun ⟨hOk, hSent⟩ hStep
  refine ⟨outboxOk_step hOk hStep, ?_⟩
  rw [received, trace_snoc _ _ _ hRun]
  exact responses_step hOk.requests hOk.unsent hStep c hSent

end Server

end OpenSpoke.Tunnel
