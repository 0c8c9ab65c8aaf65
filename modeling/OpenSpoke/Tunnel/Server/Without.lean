import OpenSpoke.Tunnel.Server.Step

/-!
# A server without one of its connections

The connections that come after `c` move down by one. A state of which `c` is no
part takes the same steps without it.
-/

namespace OpenSpoke.Tunnel

/-- The number of a connection among those other than `c`. -/
def unskip (c d : Nat) : Nat := if d < c then d else d - 1

/-- The connection with a number among those other than `c`. -/
def skip (c d : Nat) : Nat := if d < c then d else d + 1

/-- How many connections there are besides `c`. -/
def countSkip (c n : Nat) : Nat := if n ≤ c then n else n - 1

theorem skip_ne (c d : Nat) : skip c d ≠ c := by
  unfold skip
  split <;> omega

theorem skip_injective (c : Nat) : Function.Injective (skip c) := by
  intro d e h
  unfold skip at h
  split at h <;> split at h <;> omega

@[simp] theorem unskip_skip (c d : Nat) : unskip c (skip c d) = d := by
  grind [skip, unskip]

theorem skip_unskip {c d : Nat} (h : d ≠ c) : skip c (unskip c d) = d := by
  grind [skip, unskip]

theorem unskip_lt_iff {c d : Nat} (h : d ≠ c) (n : Nat) : unskip c d < countSkip c n ↔ d < n := by
  grind [unskip, countSkip]

theorem countSkip_of_ne {c n : Nat} (h : n ≠ c) :
    countSkip c n = unskip c n ∧ countSkip c (n + 1) = unskip c n + 1 := by
  grind [unskip, countSkip]

theorem countSkip_succ_self (c : Nat) : countSkip c (c + 1) = countSkip c c := by
  grind [countSkip]

section Update

variable {α : Type*} {c d : ConnId}

theorem update_comp_skip (h : d ≠ c) (f : ConnId → α) (v : α) :
    Function.update f d v ∘ skip c = Function.update (f ∘ skip c) (unskip c d) v := by
  rw [← Function.update_comp_eq_of_injective f (skip_injective c), skip_unskip h]

theorem update_comp_skip_self (f : ConnId → α) (v : α) :
    Function.update f c v ∘ skip c = f ∘ skip c :=
  Function.update_comp_eq_of_forall_ne f v fun d => skip_ne c d

end Update

def Metrics.withFails (fails : String → Nat) (m : Metrics) : Metrics :=
  { m with handshakeFail := fails }

section Metrics

variable (fails : String → Nat) (m : Metrics) (id : String) (n : Nat)

@[simp] theorem withFails_incConnected :
    m.incConnected.withFails fails = (m.withFails fails).incConnected := rfl
@[simp] theorem withFails_decConnected :
    m.decConnected.withFails fails = (m.withFails fails).decConnected := rfl
@[simp] theorem withFails_incStreams :
    (m.incStreams id).withFails fails = (m.withFails fails).incStreams id := rfl
@[simp] theorem withFails_decStreams :
    (m.decStreams id).withFails fails = (m.withFails fails).decStreams id := rfl
@[simp] theorem withFails_addSent :
    (m.addSent id n).withFails fails = (m.withFails fails).addSent id n := rfl
@[simp] theorem withFails_addRecv :
    (m.addRecv id n).withFails fails = (m.withFails fails).addRecv id n := rfl
@[simp] theorem withFails_countHttp (result : String) :
    (m.countHttp id result).withFails fails = (m.withFails fails).countHttp id result := rfl

end Metrics

def Phase.without (c : ConnId) : Phase → Phase
  | .closeOld old => .closeOld (unskip c old)
  | .clearOld old => .clearOld (unskip c old)
  | .reinsert old => .reinsert (unskip c old)
  | p => p

@[simps] def HubStream.without (c : ConnId) (st : HubStream) : HubStream :=
  { st with owner := unskip c st.owner }

@[simp] theorem drop_without (c : ConnId) (st : HubStream) :
    (st.without c).drop = st.drop.without c := rfl

@[simps] def HttpTask.without (c : ConnId) (x : HttpTask) : HttpTask :=
  { x with conn := unskip c x.conn }

/-- The map with each session under the number it has without `c`. -/
def sessionsWithout (c : ConnId) (m : AList (fun _ : String => ConnId)) :
    AList (fun _ : String => ConnId) where
  entries := m.entries.map fun e => ⟨e.1, unskip c e.2⟩
  nodupKeys := by
    have hKeys := m.nodupKeys
    rw [List.NodupKeys, List.keys] at hKeys ⊢
    simpa [Function.comp_def] using hKeys

section Sessions

variable (c d : ConnId) (m : AList (fun _ : String => ConnId)) (id : String)

theorem sessionsWithout_lookup :
    (sessionsWithout c m).lookup id = (m.lookup id).map (unskip c) :=
  List.dlookup_map₂ (f := fun _ => unskip c) id

theorem sessionsWithout_erase : sessionsWithout c (m.erase id) = (sessionsWithout c m).erase id := by
  refine AList.ext ?_
  change (List.kerase id m.entries).map _ = List.kerase id (m.entries.map _)
  simp only [List.kerase, List.eraseP_map]
  rfl

theorem sessionsWithout_insert :
    sessionsWithout c (m.insert id d) = (sessionsWithout c m).insert id (unskip c d) := by
  refine AList.ext ?_
  simp only [sessionsWithout, AList.insert, List.kinsert_def, List.kerase, List.eraseP_map,
    List.map_cons]
  rfl

end Sessions

namespace Server

/-- The server without connection `c`, with other counts of failed handshakes. -/
def without (c : ConnId) (fails : String → Nat) (s : Server) : Server where
  sessions := sessionsWithout c s.sessions
  nextSid := s.nextSid
  metrics := s.metrics.withFails fails
  nextConn := countSkip c s.nextConn
  phase := Phase.without c ∘ s.phase ∘ skip c
  hs := s.hs ∘ skip c
  sc := s.sc ∘ skip c
  session := s.session ∘ skip c
  outbox := s.outbox ∘ skip c
  rxOpen := s.rxOpen ∘ skip c
  loop := s.loop ∘ skip c
  stream := HubStream.without c ∘ s.stream
  nextTask := s.nextTask
  task := HttpTask.without c ∘ s.task
  issued := s.issued
  answered := s.answered

section Reads

variable {c d : ConnId} {fails : String → Nat} (s : Server)

@[simp] theorem without_nextSid : (s.without c fails).nextSid = s.nextSid := rfl
@[simp] theorem without_nextTask : (s.without c fails).nextTask = s.nextTask := rfl
@[simp] theorem without_issued : (s.without c fails).issued = s.issued := rfl
@[simp] theorem without_metrics :
    (s.without c fails).metrics = s.metrics.withFails fails := rfl
@[simp] theorem without_stream (sid : Nat) :
    (s.without c fails).stream sid = (s.stream sid).without c := rfl
@[simp] theorem without_task (n : Nat) : (s.without c fails).task n = (s.task n).without c := rfl

theorem without_phase (h : d ≠ c) :
    (s.without c fails).phase (unskip c d) = (s.phase d).without c := by
  simp [without, skip_unskip h]

theorem without_sc (h : d ≠ c) : (s.without c fails).sc (unskip c d) = s.sc d := by
  simp [without, skip_unskip h]

theorem without_session (h : d ≠ c) : (s.without c fails).session (unskip c d) = s.session d := by
  simp [without, skip_unskip h]

theorem without_outbox (h : d ≠ c) : (s.without c fails).outbox (unskip c d) = s.outbox d := by
  simp [without, skip_unskip h]

theorem without_rxOpen (h : d ≠ c) : (s.without c fails).rxOpen (unskip c d) = s.rxOpen d := by
  simp [without, skip_unskip h]

theorem without_loop (h : d ≠ c) (k : Nat) :
    (s.without c fails).loop (unskip c d) k = s.loop d k := by
  simp [without, skip_unskip h]

theorem without_lookup (id : String) :
    (s.without c fails).sessions.lookup id = (s.sessions.lookup id).map (unskip c) :=
  sessionsWithout_lookup c s.sessions id

end Reads

section Setters

variable {c d : ConnId} {fails : String → Nat} (s : Server)

theorem without_goto (h : d ≠ c) (p : Phase) :
    (s.goto d p).without c fails = (s.without c fails).goto (unskip c d) (p.without c) := by
  simp [without, goto, update_comp_skip h, Function.comp_update]

theorem without_setSession (h : d ≠ c) (x : SpokeSession) :
    (s.setSession d x).without c fails = (s.without c fails).setSession (unskip c d) x := by
  simp [without, setSession, update_comp_skip h]

theorem without_setSessions (m : AList (fun _ : String => ConnId)) :
    (s.setSessions m).without c fails = (s.without c fails).setSessions (sessionsWithout c m) := rfl

theorem without_setMetrics (m : Metrics) : (s.setMetrics m).without c fails =
    (s.without c fails).setMetrics (m.withFails fails) := rfl

theorem without_setLoop (h : d ≠ c) (k : Nat) (l : AcceptLoop) :
    (s.setLoop d k l).without c fails = (s.without c fails).setLoop (unskip c d) k l := by
  simp [without, setLoop, update_comp_skip h, skip_unskip h]

theorem without_setStream (sid : Nat) (st : HubStream) :
    (s.setStream sid st).without c fails = (s.without c fails).setStream sid (st.without c) := by
  simp [without, setStream, Function.comp_update]

theorem without_setOutbox (h : d ≠ c) (l : List ServerFrame) :
    (s.setOutbox d l).without c fails = (s.without c fails).setOutbox (unskip c d) l := by
  simp [without, setOutbox, update_comp_skip h]

theorem without_setTask (n : Nat) (x : HttpTask) :
    (s.setTask n x).without c fails = (s.without c fails).setTask n (x.without c) := by
  simp [without, setTask, Function.comp_update]

theorem without_addTask (x : HttpTask) :
    (s.addTask x).without c fails = (s.without c fails).addTask (x.without c) := by
  simp [without, addTask, setTask, Function.comp_update]

theorem without_answer (n : Nat) (resp : HttpResponse) (sent : Bool) :
    (s.answer n resp sent).without c fails = (s.without c fails).answer n resp sent := by
  simp only [answer, without, setTask, Function.comp_update, Function.comp_apply]
  rfl

theorem without_storeClosed (h : d ≠ c) :
    (s.storeClosed d).without c fails = (s.without c fails).storeClosed (unskip c d) := by
  rw [storeClosed, without_setSession s h, storeClosed, without_session s h]

theorem without_clearStreams (h : d ≠ c) :
    (s.clearStreams d).without c fails = (s.without c fails).clearStreams (unskip c d) := by
  rw [clearStreams, without_setSession s h, clearStreams, without_session s h]

theorem without_addStream (h : d ≠ c) (sid : Nat) :
    (s.addStream d sid).without c fails = (s.without c fails).addStream (unskip c d) sid := by
  rw [addStream, without_setSession s h, addStream, without_session s h]

theorem without_eraseStream (h : d ≠ c) (sid : Nat) :
    (s.eraseStream d sid).without c fails = (s.without c fails).eraseStream (unskip c d) sid := by
  rw [eraseStream, without_setSession s h, eraseStream, without_session s h]

theorem without_decStreams (h : d ≠ c) :
    (s.decStreams d).without c fails = (s.without c fails).decStreams (unskip c d) := by
  rw [decStreams, without_setMetrics, decStreams, without_session s h]
  rfl

theorem without_removeStream (h : d ≠ c) (sid : Nat) :
    (s.removeStream d sid).without c fails =
      (s.without c fails).removeStream (unskip c d) sid := by
  rw [removeStream, removeStream, without_session s h]
  split
  · rw [without_decStreams _ h, without_eraseStream _ h]
  · rfl

theorem without_send (E : Env) (h : d ≠ c) (f : ServerFrame) :
    (s.without c fails).send E (unskip c d) f =
      (s.send E d f).map fun r => (r.1.without c fails, r.2) := by
  rw [send, send, without_rxOpen s h, without_outbox s h]
  split
  · split
    · rw [Option.map_some, without_setOutbox s h]
    · rfl
  · rfl

theorem without_cleanupSession (id : String) (hHeld : ∀ d, s.sessions.lookup id = some d → d ≠ c) :
    (s.cleanupSession id).without c fails = (s.without c fails).cleanupSession id := by
  rw [cleanupSession, cleanupSession, without_lookup]
  cases hCur : s.sessions.lookup id with
  | none => rfl
  | some cur =>
    simp only [Option.map_some, without_session s (hHeld cur hCur)]
    split
    · rw [without_setMetrics, without_setSessions, sessionsWithout_erase]
      rfl
    · rfl

theorem without_portFree (hIdle : ∀ k, (s.loop c k).live = false) (port : Nat) :
    (s.without c fails).PortFree port ↔ s.PortFree port := by
  constructor
  · intro h d hd k hk
    rcases eq_or_ne d c with rfl | hne
    · simp [hIdle]
    · have hAt := h (unskip c d) ((unskip_lt_iff hne _).mpr hd) k
      rw [without_sc s hne, without_loop s hne] at hAt
      exact hAt hk
  · intro h d hd k hk
    have hLt : skip c d < s.nextConn :=
      (unskip_lt_iff (skip_ne c d) _).mp ((unskip_skip c d).symm ▸ hd)
    exact h (skip c d) hLt k hk

end Setters

/-! ## Steps -/

section Steps

variable {E : Env} {c d : ConnId} {fails : String → Nat} {s : Server}

theorem without_loopStep (h : d ≠ c) (k : Nat) (e : LoopEv) :
    (s.without c fails).loopStep E (unskip c d) k e =
      (s.loopStep E d k e).map (without c fails) := by
  have hLoop := fun u l => @without_setLoop c d fails u h k l
  have hIte := fun p (_ : Decidable p) => apply_ite (Option.map (without c fails)) p
  unfold loopStep
  dsimp only
  rw [without_loop s h]
  cases hPc : (s.loop d k).pc with
  | alloc =>
    rcases e with _ | _ | _
    · simp [without, setLoop, setStream, update_comp_skip h, skip_unskip h, Function.comp_update,
        HubStream.without]
    · rfl
    · rfl
  | sendOpen sid =>
    rcases e with _ | _ | _
    · simp only [without_send s E h, Option.map_map]
      refine congrArg (Option.map · _) (funext fun r => ?_)
      simp [hLoop]
    · rfl
    · simp [hIte, hLoop, without_setStream]
  | accept =>
    rcases e with _ | (_ | _) | _
    · rfl
    · simp [hLoop]
    · simp [hLoop]
    · simp [hIte, hLoop]
  | spawn sid =>
    rcases e with _ | _ | _
    · simp only [Option.map_some, hLoop, without_setStream]
      rfl
    · rfl
    · rfl
  | _ =>
    rcases e with _ | _ | _ <;>
      simp [hIte, hLoop, without_setStream, without_setMetrics, without_addStream _ h,
        without_eraseStream _ h, without_decStreams _ h, without_session _ h]

theorem without_upStep {sid : Nat} (h : (s.stream sid).owner ≠ c) (e : UpEv) :
    (s.without c fails).upStep E sid e = (s.upStep E sid e).map (without c fails) := by
  unfold upStep
  dsimp only
  simp only [without_stream, HubStream.without_up, HubStream.without_owner, HubStream.without_sock,
    without_session s h, without_send s E h]
  cases hPc : (s.stream sid).up with
  | read =>
    rcases e with _ | (_ | _ | n)
    · rfl
    · simp only [Option.map_some, without_setStream]
      rfl
    · simp only [apply_ite (Option.map (without c fails)), Option.map_some, without_setStream]
      rfl
    · simp only [Option.map_map]
      refine congrArg (Option.map · _) (funext fun r => ?_)
      simp only [Function.comp_apply, without_setMetrics, without_setStream]
      rfl
  | send payload | sendClose =>
    rcases e with _ | _
    · simp only [Option.map_map]
      refine congrArg (Option.map · _) (funext fun r => ?_)
      simp only [Function.comp_apply, without_setStream]
      rfl
    · rfl
  | remove =>
    rcases e with _ | _
    · simp only [Option.map_some, without_setStream, without_removeStream s h]
      rfl
    · rfl
  | _ => rfl

theorem without_hasSender {sid : Nat} (h : (s.stream sid).owner ≠ c) :
    (s.without c fails).hasSender sid = s.hasSender sid := by
  unfold hasSender
  simp only [without_stream, HubStream.without_owner, without_session s h, without_phase s h]
  congr 1
  cases hPhase : s.phase (s.stream sid).owner <;> simp [Phase.without]

theorem without_downStep {sid : Nat} (h : (s.stream sid).owner ≠ c) (e : DownEv) :
    (s.without c fails).downStep sid e = (s.downStep sid e).map (without c fails) := by
  unfold downStep
  dsimp only
  simp only [without_stream, HubStream.without_down, HubStream.without_queue,
    HubStream.without_sock, without_hasSender h]
  cases hPc : (s.stream sid).down with
  | recv =>
    rcases e with _ | _
    · cases hQueue : (s.stream sid).queue with
      | nil =>
        simp only [apply_ite (Option.map (without c fails)), Option.map_some, without_setStream]
        rfl
      | cons p q =>
        simp only [Option.map_some, without_setStream]
        rfl
    · rfl
  | write rest =>
    rcases e with _ | (_ | n)
    · cases rest with
      | nil =>
        simp only [Option.map_some, without_setStream]
        rfl
      | cons b rest => rfl
    · cases rest <;> simp only [Option.map_some, without_setStream] <;> rfl
    · cases rest <;>
        simp only [apply_ite (Option.map (without c fails)), Option.map_some,
          without_setStream] <;> rfl
  | shutdown =>
    rcases e with _ | _
    · simp only [Option.map_some, without_setStream]
      rfl
    · rfl
  | _ => rfl

theorem without_httpTau {n : Nat} (h : (s.task n).conn ≠ c) :
    (s.without c fails).httpTau E n = (s.httpTau E n).map (without c fails) := by
  unfold httpTau
  dsimp only
  simp only [without_task, HttpTask.without_pc, HttpTask.without_req, HttpTask.without_conn,
    HttpTask.without_sid, without_session s h, without_send s E h]
  cases hPc : (s.task n).pc with
  | start =>
    simp only [apply_ite (Option.map (without c fails)), Option.map_some, without_setTask,
      without_setMetrics]
    refine if_congr Iff.rfl rfl ?_
    cases forward E.lib E.cfg (s.session (s.task n).conn).spokeId (s.task n).req with
    | error err =>
      simp only [Option.map_some, without_setTask]
      rfl
    | ok req =>
      simp only [Option.map_some]
      simp [without, setTask, Function.comp_update, HttpTask.without]
  | send builder =>
    cases builder with
    | error err =>
      simp only [Option.map_some, without_setTask, without_setMetrics]
      rfl
    | ok req => rfl
  | reply resp =>
    simp only [Option.map_map]
    refine congrArg (Option.map · _) (funext fun r => ?_)
    simp only [Function.comp_apply, without_answer]
  | _ => rfl

theorem without_httpStep {n : Nat} (h : (s.task n).conn ≠ c) (e : HttpEv) :
    (s.without c fails).httpStep E n e = (s.httpStep E n e).map (without c fails) := by
  cases e with
  | tau => exact without_httpTau h
  | response r =>
    simp only [httpStep, without_task, HttpTask.without_pc, HttpTask.without_conn,
      without_session s h]
    cases (s.task n).pc.awaits with
    | none => rfl
    | some a =>
      simp only [Option.bind_some, apply_ite (Option.map (without c fails)), Option.map_some,
        without_setTask, without_setMetrics]
      rfl
  | redirect resp =>
    simp only [httpStep, without_task, HttpTask.without_pc]
    cases (s.task n).pc.awaits with
    | none => rfl
    | some a =>
      simp only [Option.bind_some, apply_ite (Option.map (without c fails)), Option.map_map]
      refine if_congr Iff.rfl (congrArg (Option.map · _) (funext fun req => ?_)) rfl
      simp [without, setTask, Function.comp_update, HttpTask.without]

theorem without_recvStep (h : d ≠ c) (pc : RecvPc) (e : ConnEv) :
    (s.without c fails).recvStep E (unskip c d) pc e =
      (s.recvStep E d pc e).map (without c fails) := by
  unfold recvStep
  simp only [without_session s h, without_sc s h, without_stream, without_task,
    without_send s E h]
  cases pc with
  | next =>
    rcases e with _ | r | _
    · rfl
    · cases r with
      | none =>
        simp only [Option.map_some, without_goto _ h]
        rfl
      | some r =>
        cases r with
        | error err =>
          simp only [Option.map_some, without_goto _ h]
          rfl
        | ok f =>
          rcases f with ⟨sid, _ | kind⟩
          · rfl
          · cases kind with
            | data payload =>
              simp only [apply_ite (Option.map (without c fails)), Option.map_some,
                without_goto _ h, without_setMetrics]
              rfl
            | close half reason => simp only [Option.map_some, without_removeStream s h]
            | httpRequest req =>
              simp only [apply_ite (Option.map (without c fails)), Option.map_some,
                without_goto _ h, without_addTask, without_setMetrics]
              rfl
            | _ => rfl
    · rfl
  | deliver sid payload =>
    rcases e with _ | _ | _
    · simp only [apply_ite (Option.map (without c fails)), Option.map_some, without_goto _ h,
        without_setStream]
      rfl
    · rfl
    · rfl
  | undeliver sid =>
    rcases e with _ | _ | _
    · simp only [Option.map_some, without_goto _ h, without_removeStream s h]
      rfl
    · rfl
    · rfl
  | reject n =>
    rcases e with _ | _ | _
    · simp only [HttpTask.without_sid, Option.map_map]
      refine congrArg (Option.map · _) (funext fun r => ?_)
      simp only [Function.comp_apply, without_goto _ h, without_answer]
      rfl
    · rfl
    · rfl

/-- Connection `c` is no part of the state, as far as connection `d` goes. -/
structure Apart (s : Server) (c d : ConnId) : Prop where
  held : ∀ cur, s.sessions.lookup (s.session d).spokeId = some cur → cur ≠ c
  shutting : ∀ old, s.phase d = .closeOld old → old ≠ c
  entering : ∀ old, s.phase d = .clearOld old ∨ s.phase d = .reinsert old → old ≠ c
  idle : ∀ k, (s.loop c k).live = false

theorem without_insert (id : String) :
    (s.setSessions (s.sessions.insert id d)).without c fails =
      (s.without c fails).setSessions ((s.without c fails).sessions.insert id (unskip c d)) := by
  rw [without_setSessions, sessionsWithout_insert]
  rfl

theorem without_connStep_inside (h : d ≠ c) (hApart : s.Apart c d) (hIn : s.phase d ≠ .recvFirst)
    (e : ConnEv) : (s.without c fails).connStep E (unskip c d) e =
      (s.connStep E d e).map (without c fails) := by
  unfold connStep
  dsimp only
  rw [without_phase s h, without_session s h, without_sc s h, without_lookup]
  have hGoto := fun u p => @without_goto c d fails u h p
  cases hPhase : s.phase d with
  | recvFirst => exact absurd hPhase hIn
  | lookup =>
    rcases e with _ | _ | _
    · cases hOld : s.sessions.lookup (s.session d).spokeId with
      | none =>
        simp only [Option.map_some, hGoto, without_insert]
        rfl
      | some old =>
        simp only [Option.map_some, hGoto]
        rfl
    · rfl
    · rfl
  | closeOld old =>
    rcases e with _ | _ | _
    · simp only [Option.map_some, hGoto, without_storeClosed s (hApart.shutting old hPhase)]
      rfl
    · rfl
    · rfl
  | clearOld old =>
    rcases e with _ | _ | _
    · simp only [Option.map_some, hGoto, without_clearStreams s (hApart.entering old (.inl hPhase))]
      rfl
    · rfl
    · rfl
  | reinsert old =>
    rcases e with _ | _ | _
    · simp only [Option.map_some, hGoto, without_insert]
      rfl
    · rfl
    · rfl
  | bind k =>
    cases hPort : (s.sc d).ports[k]? with
    | none =>
      rcases e with _ | _ | _
      · simp only [Phase.without, hPort, Option.map_some, hGoto]
      · simp only [Phase.without, hPort, Option.map_none]
      · simp only [Phase.without, hPort, Option.map_none]
    | some b =>
      rcases e with _ | _ | (_ | _)
      · simp only [Phase.without, hPort, Option.map_none]
      · simp only [Phase.without, hPort, Option.map_none]
      · simp only [Phase.without, hPort, Option.map_some, hGoto]
      · simp only [Phase.without, hPort, apply_ite (Option.map (without c fails)), Option.map_some,
          Option.map_none, hGoto, without_setLoop s h, without_portFree s hApart.idle]
  | recv pc => exact without_recvStep h pc e
  | failCleanup err | cleanup =>
    rcases e with _ | _ | _
    · simp only [Option.map_some, hGoto, without_cleanupSession s _ hApart.held]
      rfl
    · rfl
    · rfl
  | abort =>
    rcases e with _ | _ | _
    · simp only [Phase.without, Option.map_some]
      simp [without, goto, update_comp_skip h, Function.comp_update, skip_unskip h, Phase.without]
    · rfl
    · rfl
  | failClose err | failClear err | inc | close | clear | ret =>
    rcases e with _ | _ | _
    · simp only [Option.map_some, hGoto, without_setMetrics, without_storeClosed s h,
        without_clearStreams s h]
      rfl
    · rfl
    · rfl
  | _ => rfl

theorem without_connStep (h : d ≠ c) (hApart : s.Apart c d) {t : Server} {e : ConnEv}
    (hStep : s.connStep E d e = some t) :
    ∃ fails', (s.without c fails).connStep E (unskip c d) e = some (t.without c fails') := by
  by_cases hFirst : s.phase d = .recvFirst
  · unfold connStep at hStep ⊢
    dsimp only at hStep ⊢
    rw [hFirst] at hStep
    rw [without_phase s h, hFirst]
    rcases e with _ | r | _
    · cases hStep
    · cases hHello : handshake E.cfg r with
      | error e =>
        simp only [hHello] at hStep
        cases hStep
        refine ⟨(s.metrics.withFails fails |>.failHandshake e.1).handshakeFail, ?_⟩
        simp only [Phase.without, hHello, without_goto _ h, without_setMetrics]
        rfl
      | ok x =>
        simp only [hHello] at hStep
        cases hStep
        refine ⟨fails, ?_⟩
        simp only [Phase.without, hHello]
        simp [without, goto, setSession, update_comp_skip h, Function.comp_update, Phase.without]
    · cases hStep
  · exact ⟨fails, by rw [without_connStep_inside h hApart hFirst, hStep, Option.map_some]⟩

/-! ## Acts -/

/-- The act without connection `c`; none if it is an act of `c`. -/
def elsewhere (c : ConnId) (s : Server) : ServerAct → Option ServerAct
  | .connect nonce issuedAt => if s.nextConn = c then none else some (.connect nonce issuedAt)
  | .conn d e => if d = c then none else some (.conn (unskip c d) e)
  | .loop d k e => if d = c then none else some (.loop (unskip c d) k e)
  | .env (.deliver d) => if d = c then none else some (.env (.deliver (unskip c d)))
  | .env (.dropRx d) => if d = c then none else some (.env (.dropRx (unskip c d)))
  | a => some a

theorem without_envStep {e : EnvEv} {b : ServerAct} (h : elsewhere c s (.env e) = some b) :
    ∃ e', b = .env e' ∧
      (s.without c fails).envStep e' = (s.envStep e).map (without c fails) := by
  cases e with
  | deliver d =>
    simp only [elsewhere, Option.ite_none_left_eq_some, Option.some.injEq] at h
    obtain ⟨hd, rfl⟩ := h
    refine ⟨_, rfl, ?_⟩
    simp only [envStep, without_outbox s hd]
    cases s.outbox d with
    | nil => rfl
    | cons f rest => simp only [Option.map_some, without_setOutbox s hd]
  | dropRx d =>
    simp only [elsewhere, Option.ite_none_left_eq_some, Option.some.injEq] at h
    obtain ⟨hd, rfl⟩ := h
    refine ⟨_, rfl, ?_⟩
    simp [envStep, without, update_comp_skip hd]
  | peerSend sid b =>
    cases h
    refine ⟨_, rfl, ?_⟩
    simp only [envStep, without_stream, HubStream.without_sock, Option.map_map]
    refine congrArg (Option.map · _) (funext fun k => ?_)
    simp only [Function.comp_apply, without_setStream]
    rfl
  | peerClose sid =>
    cases h
    refine ⟨_, rfl, ?_⟩
    simp only [envStep, Option.map_some, without_setStream]
    rfl

theorem without_envStep_self {t : Server} {e : EnvEv} (h : elsewhere c s (.env e) = none)
    (hStep : s.envStep e = some t) : t.without c fails = s.without c fails := by
  cases e with
  | deliver d =>
    obtain rfl : d = c := by simpa [elsewhere] using h
    simp only [envStep] at hStep
    split at hStep <;> cases hStep
    simp [without, setOutbox, update_comp_skip_self]
  | dropRx d =>
    obtain rfl : d = c := by simpa [elsewhere] using h
    cases hStep
    simp [without, update_comp_skip_self]
  | _ => cases h

theorem without_connect (h : s.nextConn ≠ c) (nonce : Bytes) (issuedAt : Int) :
    (s.connect nonce issuedAt).without c fails = (s.without c fails).connect nonce issuedAt := by
  obtain ⟨hNext, hSucc⟩ := countSkip_of_ne h
  simp [connect, without, goto, setOutbox, update_comp_skip h, Function.comp_update, hNext, hSucc,
    Phase.without]

theorem without_connect_self (h : s.nextConn = c) (nonce : Bytes) (issuedAt : Int) :
    (s.connect nonce issuedAt).without c fails = s.without c fails := by
  subst h
  simp [connect, without, goto, setOutbox, update_comp_skip_self, countSkip_succ_self]

end Steps

end Server

end OpenSpoke.Tunnel
