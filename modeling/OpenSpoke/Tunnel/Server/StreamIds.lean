import OpenSpoke.Tunnel.Server.Listeners

/-!
# Stream ids

The counter `next_sid` gives every accepted connection an id of its own. An
accept loop holds an id from its allocation until it spawns the two tasks or
drops the connection, and a `streams` map holds only ids that were allocated for
its session.
-/

namespace OpenSpoke.Tunnel

open Lts

/-- The stream id in the hands of the accept loop. -/
def AcceptPc.sid : AcceptPc → Option Nat
  | .register sid | .inc sid | .sendOpen sid | .rollback sid | .spawn sid => some sid
  | _ => none

namespace Server

structure StreamIds (s : Server) : Prop where
  held : ∀ c k sid, (s.loop c k).pc.sid = some sid → sid ≤ s.nextSid ∧ (s.stream sid).owner = c ∧
    (s.stream sid).up = .held ∧ (s.stream sid).down = .held
  unique : ∀ c k d j sid, (s.loop c k).pc.sid = some sid → (s.loop d j).pc.sid = some sid →
    c = d ∧ k = j
  entry : ∀ c sid, sid ∈ (s.session c).streams →
    sid ≤ s.nextSid ∧ (s.stream sid).owner = c ∧ s.Registered c
  waiting : ∀ c k sid, (s.loop c k).pc = .register sid → sid ∉ (s.session c).streams
  deliver : ∀ c sid payload, s.phase c = .recv (.deliver sid payload) →
    sid ≤ s.nextSid ∧ (s.stream sid).owner = c
  unborn : ∀ sid, s.nextSid < sid → (s.stream sid).up = .absent ∧ (s.stream sid).down = .absent

theorem streamIds_init : StreamIds init := by
  constructor <;> simp [init, AcceptPc.sid]

/-- What a step other than an allocation may do to ids, tasks and maps. -/
structure KeepsIds (s t : Server) : Prop where
  nextSid : t.nextSid = s.nextSid
  owner : ∀ sid, (t.stream sid).owner = (s.stream sid).owner
  sid : ∀ c k sid, (t.loop c k).pc.sid = some sid → (s.loop c k).pc.sid = some sid
  waiting : ∀ c k sid, (t.loop c k).pc = .register sid → (s.loop c k).pc = .register sid
  tasks : ∀ sid, ((∃ c k, (t.loop c k).pc.sid = some sid) → (s.stream sid).up = .held →
    (s.stream sid).down = .held → (t.stream sid).up = .held ∧ (t.stream sid).down = .held) ∧
    ((s.stream sid).up = .absent → (s.stream sid).down = .absent →
      (t.stream sid).up = .absent ∧ (t.stream sid).down = .absent)
  entry : ∀ c sid, sid ∈ (t.session c).streams → sid ∈ (s.session c).streams ∨
    ∃ k, (s.loop c k).pc = .register sid ∧ ∀ j, (t.loop c j).pc = .register sid → j ≠ k
  deliver : ∀ c sid payload, t.phase c = .recv (.deliver sid payload) →
    s.phase c = .recv (.deliver sid payload) ∨ sid ∈ (s.session c).streams

theorem StreamIds.of_keepsIds {s t : Server} (h : StreamIds s) (hLoops : LoopsOk s)
    (hReg : ∀ c, s.Registered c → t.Registered c) (hKeeps : KeepsIds s t) : StreamIds t := by
  obtain ⟨hHeld, hUnique, hEntry, hWaiting, hDeliver, hUnborn⟩ := h
  constructor
  · intro c k sid hSid
    obtain ⟨hLe, hOwner, hUp, hDown⟩ := hHeld c k sid (hKeeps.sid c k sid hSid)
    rw [hKeeps.nextSid, hKeeps.owner]
    exact ⟨hLe, hOwner, (hKeeps.tasks sid).1 ⟨c, k, hSid⟩ hUp hDown⟩
  · intro c k d j sid hc hd
    exact hUnique c k d j sid (hKeeps.sid c k sid hc) (hKeeps.sid d j sid hd)
  · intro c sid hIn
    rw [hKeeps.nextSid, hKeeps.owner]
    rcases hKeeps.entry c sid hIn with hOld | ⟨k, hAt, -⟩
    · obtain ⟨hLe, hOwner, hc⟩ := hEntry c sid hOld
      exact ⟨hLe, hOwner, hReg c hc⟩
    · obtain ⟨hLe, hOwner, -⟩ := hHeld c k sid (by rw [hAt]; rfl)
      exact ⟨hLe, hOwner, hReg c (hLoops.registered (show (s.loop c k).pc ≠ .absent by simp [hAt]))⟩
  · intro c k sid hAt hIn
    have hBefore := hKeeps.waiting c k sid hAt
    rcases hKeeps.entry c sid hIn with hOld | ⟨j, hThen, hGone⟩
    · exact hWaiting c k sid hBefore hOld
    · have hSame := (hUnique c k c j sid (by rw [hBefore]; rfl) (by rw [hThen]; rfl)).2
      exact hGone k hAt hSame
  · intro c sid payload hAt
    rw [hKeeps.nextSid, hKeeps.owner]
    rcases hKeeps.deliver c sid payload hAt with hOld | hIn
    · exact hDeliver c sid payload hOld
    · exact ⟨(hEntry c sid hIn).1, (hEntry c sid hIn).2.1⟩
  · intro sid hLt
    rw [hKeeps.nextSid] at hLt
    obtain ⟨hUp, hDown⟩ := hUnborn sid hLt
    exact (hKeeps.tasks sid).2 hUp hDown

theorem KeepsIds.of_eq {s t : Server} (hNext : t.nextSid = s.nextSid) (hStream : t.stream = s.stream)
    (hLoop : t.loop = s.loop) (hSession : t.session = s.session) (hPhase : t.phase = s.phase) :
    KeepsIds s t := by
  constructor <;> simp only [hNext, hStream, hLoop, hSession, hPhase] <;> grind

theorem KeepsIds.of_goto {s u : Server} {c : ConnId} {p : Phase} (hNext : u.nextSid = s.nextSid)
    (hStream : u.stream = s.stream) (hLoop : u.loop = s.loop)
    (hSession : ∀ d, (u.session d).streams ⊆ (s.session d).streams) (hPhase : u.phase = s.phase)
    (hDeliver : ∀ sid payload, p = .recv (.deliver sid payload) → sid ∈ (s.session c).streams) :
    KeepsIds s (u.goto c p) := by
  constructor <;> simp only [goto_nextSid, goto_stream, goto_loop, goto_session, goto_phase, hNext,
    hStream, hLoop, hPhase]
  case entry => exact fun d sid hIn => .inl (hSession d hIn)
  all_goals grind [Function.update_apply]

theorem keepsIds_loopMove {E : Env} {s t : Server} {c : ConnId} {k : Nat} {e : LoopEv}
    (hIds : StreamIds s) (hMove : LoopMove E s c k e t) : KeepsIds s t ∨
      t = { (s.setStream (s.nextSid + 1) ⟨c, .fresh, .held, .held, []⟩).loopTo c k
        (.register (s.nextSid + 1)) with nextSid := s.nextSid + 1 } := by
  have hUnique := hIds.unique
  have hHeld := hIds.held c k
  cases hMove with
  | alloc => exact .inr rfl
  | register sid hAt =>
    refine .inl ?_
    constructor <;>
      simp only [loopTo, setLoop_apply, setLoop_nextSid, setLoop_stream, setLoop_session,
        setLoop_phase, addStream_nextSid, addStream_stream, addStream_session, addStream_phase,
        addStream_loop] <;>
      grind [AcceptPc.sid, Function.update_apply]
  | rollback sid hAt =>
    have hSid : (s.loop c k).pc.sid = some sid := by rw [hAt]; rfl
    refine .inl ?_
    constructor <;>
      simp only [loopTo, setLoop_apply, setLoop_nextSid, setLoop_stream, setLoop_session,
        setLoop_phase, setStream_nextSid, setStream_stream, setStream_session, setStream_phase,
        setStream_loop, eraseStream_nextSid, eraseStream_stream, eraseStream_session,
        decStreams_nextSid, decStreams_stream, decStreams_session, decStreams_phase, decStreams_loop,
        eraseStream_phase, eraseStream_loop] <;>
      grind [AcceptPc.sid, Function.update_apply, HubStream.drop]
  | cancelHeld sid hAbort hAt =>
    have hSid : (s.loop c k).pc.sid = some sid := by rcases hAt with hAt | hAt | hAt <;> rw [hAt] <;> rfl
    refine .inl ?_
    constructor <;>
      simp only [loopTo, setLoop_apply, setLoop_nextSid, setLoop_stream, setLoop_session,
        setLoop_phase, setStream_nextSid, setStream_stream, setStream_session, setStream_phase,
        setStream_loop] <;>
      grind [AcceptPc.sid, Function.update_apply, HubStream.drop]
  | spawn sid hAt =>
    have hSid : (s.loop c k).pc.sid = some sid := by rw [hAt]; rfl
    refine .inl ?_
    constructor <;>
      simp only [loopTo, setLoop_apply, setLoop_nextSid, setLoop_stream, setLoop_session,
        setLoop_phase, setStream_nextSid, setStream_stream, setStream_session, setStream_phase,
        setStream_loop] <;>
      grind [AcceptPc.sid, Function.update_apply]
  | _ =>
    refine .inl ?_
    constructor <;>
      simp only [loopTo, setLoop_apply, setLoop_nextSid, setLoop_stream, setLoop_session,
        setLoop_phase, setMetrics_nextSid, setMetrics_stream, setMetrics_session, setMetrics_phase,
        setMetrics_loop, setOutbox_nextSid, setOutbox_stream, setOutbox_session, setOutbox_phase,
        setOutbox_loop] <;>
      grind [AcceptPc.sid, Function.update_apply]

theorem keepsIds_upMove {E : Env} {s t : Server} {sid : Nat} {e : UpEv} (hIds : StreamIds s)
    (hMove : UpMove E s sid e t) : KeepsIds s t := by
  have hHeld := fun c k => hIds.held c k sid
  cases hMove with
  | remove hPc =>
    constructor <;>
      simp only [setStream_nextSid, setStream_stream, setStream_session, setStream_phase,
        setStream_loop, removeStream_nextSid, removeStream_stream, removeStream_streams,
        removeStream_phase, removeStream_loop] <;>
      grind [Function.update_apply]
  | _ =>
    constructor <;>
      simp only [setStream_nextSid, setStream_stream, setStream_session, setStream_phase,
        setStream_loop, setMetrics_nextSid, setMetrics_stream, setMetrics_session, setMetrics_phase,
        setMetrics_loop, setOutbox_nextSid, setOutbox_stream, setOutbox_session, setOutbox_phase,
        setOutbox_loop] <;>
      grind [Function.update_apply]

theorem keepsIds_downMove {s t : Server} {sid : Nat} {e : DownEv} (hIds : StreamIds s)
    (hMove : DownMove s sid e t) : KeepsIds s t := by
  have hHeld := fun c k => hIds.held c k sid
  cases hMove <;> constructor <;>
    simp only [setStream_nextSid, setStream_stream, setStream_session, setStream_phase,
      setStream_loop] <;>
    grind [Function.update_apply]

theorem keepsIds_envMove {s t : Server} {e : EnvEv} (hMove : EnvMove s e t) : KeepsIds s t := by
  cases hMove <;> constructor <;>
    simp only [setStream_nextSid, setStream_stream, setStream_session, setStream_phase,
      setStream_loop, setOutbox_nextSid, setOutbox_stream, setOutbox_session, setOutbox_phase,
      setOutbox_loop] <;>
    grind [Function.update_apply]

theorem keepsIds_httpMove {E : Env} {s t : Server} {n : Nat} {e : HttpEv}
    (hMove : HttpMove E s n e t) : KeepsIds s t := by
  cases hMove <;> exact .of_eq rfl rfl rfl rfl rfl

theorem keepsIds_recvMove {E : Env} {s t : Server} {c : ConnId} {pc : RecvPc} {e : ConnEv}
    (hMove : RecvMove E s c pc e t) : KeepsIds s t := by
  have hErase : ∀ sid d, ((s.removeStream c sid).session d).streams ⊆ (s.session d).streams := by
    intro sid d
    rw [removeStream_streams]
    split
    · next hd => subst hd; exact Finset.erase_subset _ _
    · exact Finset.Subset.refl _
  cases hMove with
  | unknown | ignored | request => exact .of_eq rfl rfl rfl rfl rfl
  | close f =>
    constructor <;>
      simp only [removeStream_nextSid, removeStream_stream, removeStream_phase, removeStream_loop]
    case entry => exact fun d sid hIn => .inl (hErase _ d hIn)
    all_goals grind
  | undeliver sid =>
    exact .of_goto (by simp) (by simp) (by simp) (hErase sid) (by simp) (by simp)
  | data f payload hKind hEntry =>
    exact .of_goto rfl rfl rfl (fun _ => Finset.Subset.refl _) rfl (by grind)
  | delivered sid payload =>
    constructor <;>
      simp only [goto_nextSid, goto_stream, goto_session, goto_phase, goto_loop, setStream_nextSid,
        setStream_stream, setStream_session, setStream_phase, setStream_loop] <;>
      grind [Function.update_apply]
  | _ => exact .of_goto rfl rfl rfl (fun _ => Finset.Subset.refl _) rfl (by simp)

theorem keepsIds_connMove {E : Env} {s t : Server} {c : ConnId} {e : ConnEv}
    (hMove : ConnMove E s c e t) : KeepsIds s t := by
  have hShrink : ∀ (o : ConnId) (x : SpokeSession) (d : ConnId), x.streams ⊆ (s.session o).streams →
      ((Function.update s.session o x) d).streams ⊆ (s.session d).streams := by
    intro o x d hx
    by_cases hd : d = o
    · subst hd; simpa using hx
    · simp [hd]
  cases hMove with
  | recv pc e t hPhase hMove => exact keepsIds_recvMove hMove
  | abort =>
    have hLoop : ∀ d j, ((Function.update s.loop c fun k => { s.loop c k with aborted := true }) d
        j).pc = (s.loop d j).pc := by
      intro d j
      by_cases hd : d = c
      · subst hd; simp
      · simp [hd]
    constructor <;> simp only [hLoop, goto_nextSid, goto_stream, goto_session, goto_phase] <;>
      grind [Function.update_apply]
  | bound =>
    constructor <;>
      simp only [goto_nextSid, goto_stream, goto_session, goto_phase, goto_loop, setLoop_apply,
        setLoop_nextSid, setLoop_stream, setLoop_session, setLoop_phase] <;>
      grind [Function.update_apply, AcceptPc.sid]
  | welcomed =>
    constructor <;> simp only [goto_nextSid, goto_stream, goto_loop, goto_phase]
    case entry => exact fun d sid hIn => .inl (hShrink c _ d (Finset.empty_subset _) hIn)
    all_goals grind [Function.update_apply, setSession_nextSid, setSession_stream, setSession_loop,
      setSession_phase]
  | closeOld old | failClose | close =>
    exact .of_goto rfl rfl rfl (fun d => hShrink _ _ d (Finset.Subset.refl _)) rfl (by simp)
  | clearOld old | failClear | clear =>
    exact .of_goto rfl rfl rfl (fun d => hShrink _ _ d (Finset.empty_subset _)) rfl (by simp)
  | failCleanup | cleanup =>
    exact .of_goto (by simp) (by simp) (by simp) (by simp) (by simp) (by simp)
  | _ => exact .of_goto rfl rfl rfl (fun _ => Finset.Subset.refl _) rfl (by simp)

theorem StreamIds.alloc {s : Server} (h : StreamIds s) (c : ConnId) (k : Nat) :
    StreamIds { (s.setStream (s.nextSid + 1) ⟨c, .fresh, .held, .held, []⟩).loopTo c k
      (.register (s.nextSid + 1)) with nextSid := s.nextSid + 1 } := by
  obtain ⟨hHeld, hUnique, hEntry, hWaiting, hDeliver, hUnborn⟩ := h
  constructor <;>
    simp only [loopTo, setLoop_apply, setLoop_stream, setLoop_session, setLoop_phase,
      setStream_stream, setStream_session, setStream_phase, setStream_loop] <;>
    grind [AcceptPc.sid, Function.update_apply, Registered]

theorem step_keepsIds {E : Env} {s t : Server} {a : ServerAct} (hIds : StreamIds s)
    (h : step E s a = some t) : KeepsIds s t ∨ ∃ c k,
      t = { (s.setStream (s.nextSid + 1) ⟨c, .fresh, .held, .held, []⟩).loopTo c k
        (.register (s.nextSid + 1)) with nextSid := s.nextSid + 1 } := by
  cases a with
  | connect nonce issuedAt =>
    cases h
    refine .inl ?_
    constructor <;>
      simp only [connect, setOutbox_nextSid, setOutbox_stream, setOutbox_session, setOutbox_phase,
        setOutbox_loop, goto_nextSid, goto_stream, goto_session, goto_phase, goto_loop] <;>
      grind [Function.update_apply]
  | conn c e => exact .inl (keepsIds_connMove (connStep_move h))
  | loop c k e =>
    rcases keepsIds_loopMove hIds (loopStep_move h) with hKeeps | hAlloc
    · exact .inl hKeeps
    · exact .inr ⟨c, k, hAlloc⟩
  | up sid e => exact .inl (keepsIds_upMove hIds (upStep_move h))
  | down sid e => exact .inl (keepsIds_downMove hIds (downStep_move h))
  | http n e => exact .inl (keepsIds_httpMove (httpStep_move h))
  | env e => exact .inl (keepsIds_envMove (envStep_move h))

theorem streamIds_step {E : Env} {s t : Server} {a : ServerAct} (hFresh : FreshConns s)
    (hLoops : LoopsOk s) (hIds : StreamIds s) (h : step E s a = some t) : StreamIds t := by
  rcases step_keepsIds hIds h with hKeeps | ⟨c, k, rfl⟩
  · exact hIds.of_keepsIds hLoops (fun d hd => (registered_step hFresh h hd).1) hKeeps
  · exact hIds.alloc c k

/-- A loop that waits to register an id did so before the step, or the id is new. -/
theorem step_register {E : Env} {s t : Server} {a : ServerAct} (hIds : StreamIds s)
    (h : step E s a = some t) : s.nextSid ≤ t.nextSid ∧ ∀ c k sid,
      (t.loop c k).pc = .register sid → (s.loop c k).pc = .register sid ∨ s.nextSid < sid := by
  rcases step_keepsIds hIds h with hKeeps | ⟨d, j, rfl⟩
  · exact ⟨hKeeps.nextSid.ge, fun c k sid hAt => .inl (hKeeps.waiting c k sid hAt)⟩
  · refine ⟨Nat.le_succ _, fun c k sid hAt => ?_⟩
    simp only [loopTo, setLoop_apply, setStream_loop] at hAt
    grind

end Server

end OpenSpoke.Tunnel
