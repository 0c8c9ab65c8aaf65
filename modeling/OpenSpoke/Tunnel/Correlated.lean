import OpenSpoke.Tunnel.Client.Numbered
import OpenSpoke.Tunnel.Server.Proxy
import OpenSpoke.Tunnel.Stream.Bytes

/-!
# Requests and responses through the tunnel

As long as an id of the local proxy names one caller, the server handles the
request of a caller once, and the response that a caller is handed is the one
that was given to its own request.
-/

namespace OpenSpoke.Tunnel

open Lts

namespace Client

variable {E : ClientEnv} {k j : Client}

theorem event_mine {a : ClientEvent} (h : k.eventStep E a = some j) {c : ConnId}
    (hMine : k.mine c = true) : j.mine c = true := by
  cases a with
  | act a => exact (System.clientStep_mine h) ▸ hMine
  | connect d =>
    simp only [eventStep, Option.ite_none_right_eq_some] at h
    obtain ⟨-, hEq⟩ := h
    cases hEq
    by_cases hc : c = d <;> simp [connected, hc, hMine]
  | up d =>
    simp only [eventStep] at h
    split at h
    · split at h <;> cases h
      exact hMine
    · cases h
  | down d f =>
    simp only [eventStep, Option.ite_none_right_eq_some] at h
    obtain ⟨-, hEq⟩ := h
    cases hEq
    exact (System.receive_mine E k d f) ▸ hMine

end Client

namespace Server

variable {E : Env} {s t : Server}

theorem task_added {a : ServerAct} (h : s.step E a = some t) : t.nextTask = s.nextTask ∨
    ∃ c f req, a = .conn c (.frame (some (.ok f))) ∧ f.request = some req ∧
      t.nextTask = s.nextTask + 1 ∧ (t.task s.nextTask).conn = c ∧
      (t.task s.nextTask).sid = f.streamId ∧ (t.task s.nextTask).req = req := by
  cases a with
  | connect nonce issuedAt => cases h; exact .inl rfl
  | conn c e =>
    cases connStep_move h with
    | recv pc e t hPhase hMove =>
      cases hMove with
      | rejectKind f req hKind | request f req hKind =>
        exact .inr ⟨c, f, req, rfl, by simp [ClientFrame.request, hKind], by simp⟩
      | _ => exact .inl (by simp)
    | _ => exact .inl (by simp)
  | loop c k e => cases loopStep_move h <;> exact .inl rfl
  | up sid e => cases upStep_move h <;> exact .inl (by simp)
  | down sid e => cases downStep_move h <;> exact .inl rfl
  | http n e => cases httpStep_move h <;> exact .inl rfl
  | env e => cases envStep_move h <;> exact .inl rfl

/-- A response on its way to the spoke was given to a request of that connection. -/
def ResponsesOk (s : Server) : Prop := ∀ c, ∀ f ∈ s.outbox c, ∀ resp, f.response = some resp →
  ∃ n < s.nextTask, (s.task n).conn = c ∧ (s.task n).sid = f.streamId ∧ (n, resp) ∈ s.answered

theorem answered_step {a : ServerAct} (hOk : RequestsOk E s) (h : s.step E a = some t) :
    s.nextTask ≤ t.nextTask ∧ s.answered ⊆ t.answered := by
  refine ⟨(step_counters h).2, ?_⟩
  rcases step_answered hOk h with hSame | ⟨n, resp, -, hNew, -⟩
  · rw [hSame]
    exact List.Subset.refl _
  · rw [hNew]
    exact List.subset_append_left _ _

theorem responsesOk_step {a : ServerAct} (hOk : RequestsOk E s) (hResponses : ResponsesOk s)
    (h : s.step E a = some t) : ResponsesOk t := by
  obtain ⟨hLe, hSub⟩ := answered_step hOk h
  have hKept : ∀ n < s.nextTask, ∀ c sid resp, (s.task n).conn = c → (s.task n).sid = sid →
      (n, resp) ∈ t.answered →
      ∃ n < t.nextTask, (t.task n).conn = c ∧ (t.task n).sid = sid ∧ (n, resp) ∈ t.answered := by
    intro n hn c sid resp hConn hSid hIn
    obtain ⟨hConn', hSid', -⟩ := task_step h hn
    exact ⟨n, hn.trans_le hLe, hConn'.trans hConn, hSid'.trans hSid, hIn⟩
  have hOld : ∀ c, ∀ f ∈ s.outbox c, ∀ resp, f.response = some resp →
      ∃ n < t.nextTask, (t.task n).conn = c ∧ (t.task n).sid = f.streamId ∧ (n, resp) ∈ t.answered := by
    intro c f hf resp hResp
    obtain ⟨n, hn, hConn, hSid, hIn⟩ := hResponses c f hf resp hResp
    exact hKept n hn c _ resp hConn hSid (hSub hIn)
  intro c f hf resp hResp
  cases step_outbox hOk h c with
  | same hOut => exact hOld c f (hOut ▸ hf) resp hResp
  | deliver g hAct hOut => exact hOld c f (hOut ▸ List.mem_cons_of_mem g hf) resp hResp
  | connect nonce issuedAt hAct hConn hOut =>
    rw [hOut, List.mem_singleton] at hf
    subst hf
    cases hResp
  | send g hRx hSends hOut =>
    rw [hOut, List.mem_append, List.mem_singleton] at hf
    rcases hf with hf | rfl
    · exact hOld c f hf resp hResp
    · cases hSends with
      | response a n resp' t hConn hPc hNext =>
        obtain rfl : resp' = resp := by simpa [ServerFrame.response] using hResp
        have hn : n < s.nextTask := by
          by_contra hge
          have hAbsent := hOk.fresh n (Nat.not_lt.mp hge)
          rcases hPc with hPc | ⟨hPc, -⟩ <;> simp [hAbsent] at hPc
        exact hKept n hn c _ resp' hConn rfl (by simp [hNext])
      | _ => cases hResp

def readIds (s : Server) (c : ConnId) : List Nat :=
  ((List.range s.nextTask).filter fun n => (s.task n).conn = c).map fun n => (s.task n).sid

theorem readIds_step {a : ServerAct} (h : s.step E a = some t) (c : ConnId) :
    t.readIds c = s.readIds c ∨ ∃ f req, a = .conn c (.frame (some (.ok f))) ∧
      f.request = some req ∧ t.readIds c = s.readIds c ++ [f.streamId] := by
  have hOld : ((List.range s.nextTask).filter fun n => (t.task n).conn = c).map
      (fun n => (t.task n).sid) = s.readIds c := by
    have hFilter : (List.range s.nextTask).filter (fun n => (t.task n).conn = c) =
        (List.range s.nextTask).filter fun n => (s.task n).conn = c :=
      List.filter_congr fun n hn => by rw [(task_step h (List.mem_range.mp hn)).1]
    rw [hFilter, readIds]
    exact List.map_congr_left fun n hn =>
      (task_step h (List.mem_range.mp (List.mem_filter.mp hn).1)).2.1
  rcases task_added h with hSame | ⟨d, f, req, rfl, hReq, hNext, hConn, hSid, -⟩
  · exact .inl (by rw [readIds, hSame, hOld])
  · have hNew : t.readIds c = s.readIds c ++ if d = c then [f.streamId] else [] := by
      rw [readIds, hNext, List.range_succ, List.filter_append, List.map_append, hOld]
      by_cases hd : d = c <;> simp [hConn, hSid, hd]
    by_cases hd : d = c
    · subst hd
      exact .inr ⟨f, req, rfl, hReq, by simpa using hNew⟩
    · exact .inl (by simpa [hd] using hNew)

theorem mem_readIds {c : ConnId} {sid : Nat} :
    sid ∈ s.readIds c ↔ ∃ n < s.nextTask, (s.task n).conn = c ∧ (s.task n).sid = sid := by
  simp [readIds, and_assoc]

/-- Requests with different ids only, as far as one connection is concerned. -/
theorem eq_of_readIds {c : ConnId} (hNodup : (s.readIds c).Nodup) {n m : Nat} (hn : n < s.nextTask)
    (hm : m < s.nextTask) (hConn : (s.task n).conn = c) (hConn' : (s.task m).conn = c)
    (hSid : (s.task n).sid = (s.task m).sid) : n = m :=
  List.inj_on_of_nodup_map hNodup (by simpa using ⟨hn, hConn⟩) (by simpa using ⟨hm, hConn'⟩) hSid

end Server

/-- Caller `n` has sent request `req` with id `sid` on session `c`. -/
structure Client.Posted (k : Client) (n : Nat) (c : ConnId) (sid : Nat) (req : HttpRequest) : Prop where
  conn : (k.caller n).conn = c
  sid : (k.caller n).sid = sid
  req : (k.caller n).req = req
  posted : (k.caller n).pc.posted = true

theorem Client.Posted.step {k j : Client} {n : Nat} {c : ConnId} {sid : Nat} {req : HttpRequest}
    (h : k.Posted n c sid req) (hSame : SameRequest k j n) : j.Posted n c sid req :=
  ⟨hSame.conn.trans h.conn, hSame.sid.trans h.sid, hSame.req.trans h.req, hSame.posted h.posted⟩

def requestIds (fs : List ClientFrame) : List Nat :=
  fs.filterMap fun f => f.request.map fun _ => f.streamId

namespace System

variable {E : SystemEnv} {s t : System} {l : List Nat}

def ids (s : System) (c : ConnId) : List Nat :=
  requestIds (s.cli.out c) ++ if s.cli.mine c = true then s.srv.readIds c else []

structure Correlated (E : SystemEnv) (s : System) (l : List Nat) : Prop where
  streams : StreamsOk s
  outbox : Server.OutboxOk E.srv s.srv
  responses : s.srv.ResponsesOk
  client : s.cli.Orderly l
  sent : ∀ c, ∀ f ∈ s.cli.out c, ∀ req, f.request = some req →
    ∃ n ∈ l, s.cli.Posted n c f.streamId req
  read : ∀ m < s.srv.nextTask, s.cli.mine (s.srv.task m).conn = true →
    ∃ n ∈ l, s.cli.Posted n (s.srv.task m).conn (s.srv.task m).sid (s.srv.task m).req
  single : ∀ c, (s.ids c).Nodup
  got : ∀ n resp, s.cli.Got n resp → n ∈ l ∧ ∃ m < s.srv.nextTask,
    s.cli.mine (s.srv.task m).conn = true ∧ (s.srv.task m).sid = (s.cli.caller n).sid ∧
      (m, resp) ∈ s.srv.answered

theorem correlated_init : Correlated E init [] where
  streams := streamsOk_init
  outbox := Server.outboxOk_init E.srv
  responses := by simp [Server.ResponsesOk, init, Server.init]
  client := Client.orderly_init
  sent := by simp [init, Client.init]
  read := by simp [init, Client.init]
  single := by simp [ids, requestIds, init, Client.init]
  got := by simp [Client.Got, init, Client.init]

theorem server_part {a : SystemAct} (h : step E s a = some t) :
    t.srv = s.srv ∨ ∃ b, s.srv.step E.srv b = some t.srv ∧
      ∀ c f, b = .conn c (.frame (some (.ok f))) → t.cli.mine = s.cli.mine ∧
        (s.cli.mine c = false ∨ s.cli.out c = f :: t.cli.out c) := by
  cases a with
  | hub b =>
    simp only [step, Option.ite_none_right_eq_some, Option.map_eq_some_iff] at h
    obtain ⟨hFree, u, hSrv, rfl⟩ := h
    refine .inr ⟨b, hSrv, ?_⟩
    rintro c f rfl
    exact ⟨rfl, .inl (by simpa [free] using hFree)⟩
  | spoke b =>
    obtain ⟨k, -, rfl⟩ := Option.map_eq_some_iff.mp h
    exact .inl rfl
  | connect nonce issuedAt =>
    simp only [step, Option.ite_none_right_eq_some, Option.map_eq_some_iff] at h
    obtain ⟨-, u, hSrv, rfl⟩ := h
    exact .inr ⟨_, hSrv, by simp⟩
  | up d =>
    simp only [step] at h
    split at h
    next g rest hOut =>
      simp only [Option.ite_none_right_eq_some, Option.map_eq_some_iff] at h
      obtain ⟨-, u, hSrv, rfl⟩ := h
      refine .inr ⟨_, hSrv, fun c f hEq => ⟨rfl, .inr ?_⟩⟩
      cases hEq
      simp [hOut]
    next => cases h
  | down d =>
    simp only [step] at h
    split at h
    next f rest hOut =>
      simp only [Option.ite_none_right_eq_some, Option.map_eq_some_iff] at h
      obtain ⟨-, u, hSrv, rfl⟩ := h
      exact .inr ⟨_, hSrv, by simp⟩
    next => cases h

theorem client_part {a : SystemAct} (hKnown : Known s) (h : step E s a = some t) :
    t.cli = s.cli ∨ ∃ e, s.cli.eventStep E.cli e = some t.cli ∧
      (∀ c f, e = .down c f → f ∈ s.srv.outbox c) ∧
      ∀ n b, e = .act (.caller n b) → t.srv = s.srv := by
  have hPart := client_refines E s a t hKnown h
  cases a with
  | hub b => exact .inl hPart
  | spoke b =>
    obtain ⟨k, -, rfl⟩ := Option.map_eq_some_iff.mp h
    exact .inr ⟨.act b, hPart, by simp, fun _ _ _ => rfl⟩
  | connect nonce issuedAt => exact .inr ⟨_, hPart, by simp, by simp⟩
  | up c => exact .inr ⟨_, hPart, by simp, by simp⟩
  | down c =>
    cases hOut : s.srv.outbox c with
    | nil => simp [step, hOut] at h
    | cons f rest =>
      simp only [clientEvent, hOut, List.head?_cons, Option.map_some, Option.elim_some] at hPart
      refine .inr ⟨_, hPart, fun d g hEq => ?_, by simp⟩
      cases hEq
      simp [hOut]

section Step

variable {a : SystemAct} {e : ClientEvent}

theorem Correlated.sent_step (h : Correlated E s l) (hEvent : s.cli.eventStep E.cli e = some t.cli)
    (hSame : ∀ n ∈ l, Client.SameRequest s.cli t.cli n) :
    ∀ c, ∀ f ∈ t.cli.out c, ∀ req, f.request = some req →
      ∃ n ∈ l, t.cli.Posted n c f.streamId req := by
  intro c f hf req hReq
  have hOld : f ∈ s.cli.out c → ∃ n ∈ l, t.cli.Posted n c f.streamId req := by
    intro hf
    obtain ⟨n, hn, hPosted⟩ := h.sent c f hf req hReq
    exact ⟨n, hn, hPosted.step (hSame n hn)⟩
  cases Client.out_step h.client.plainly hEvent c with
  | plain fs hPlain hOut =>
    rw [hOut, List.mem_append] at hf
    rcases hf with hf | hf
    · exact hOld hf
    · simp [hPlain f hf] at hReq
  | request n hPc hConn hNext hOut =>
    rw [hOut, List.mem_append, List.mem_singleton] at hf
    rcases hf with hf | rfl
    · exact hOld hf
    · have hn : n ∈ l := h.client.numbered.mem n (by simp [hPc, CallerPc.numbered])
      obtain rfl : (s.cli.caller n).req = req := by
        simpa [clientHttpRequest, ClientFrame.request] using hReq
      exact ⟨n, hn, (hSame n hn).conn.trans hConn, (hSame n hn).sid, (hSame n hn).req,
        by simp [hNext, CallerPc.posted]⟩
  | up g hAct hOut => exact hOld (by simp [hOut, hf])

theorem Correlated.mine_task (h : Correlated E s l) (hStep : step E s a = some t) {m : Nat}
    (hm : m < s.srv.nextTask) (hMine : t.cli.mine (s.srv.task m).conn = true) :
    s.cli.mine (s.srv.task m).conn = true := by
  refine (mine_step hStep hMine).resolve_right fun hNew => ?_
  have hReg := (h.outbox.requests.read m hm).2
  exact absurd hNew.1 (Server.registered_lt h.outbox.fresh hReg).ne

theorem Correlated.read_step (h : Correlated E s l) (hStep : step E s a = some t)
    (hSame : ∀ n ∈ l, Client.SameRequest s.cli t.cli n) :
    ∀ m < t.srv.nextTask, t.cli.mine (t.srv.task m).conn = true →
      ∃ n ∈ l, t.cli.Posted n (t.srv.task m).conn (t.srv.task m).sid (t.srv.task m).req := by
  have hOld : ∀ m < s.srv.nextTask, t.cli.mine (s.srv.task m).conn = true →
      ∃ n ∈ l, t.cli.Posted n (s.srv.task m).conn (s.srv.task m).sid (s.srv.task m).req := by
    intro m hm hMine
    obtain ⟨n, hn, hPosted⟩ := h.read m hm (h.mine_task hStep hm hMine)
    exact ⟨n, hn, hPosted.step (hSame n hn)⟩
  rcases server_part hStep with hSrv | ⟨b, hSrv, hFrame⟩
  · rw [hSrv]
    exact hOld
  · intro m hm hMine
    rcases Nat.lt_or_ge m s.srv.nextTask with hLt | hGe
    · obtain ⟨hConn, hSid, hReq⟩ := Server.task_step hSrv hLt
      rw [hConn] at hMine
      rw [hConn, hSid, hReq]
      exact hOld m hLt hMine
    · rcases Server.task_added hSrv with hNone | ⟨c, f, req, rfl, hReq, hNext, hConn, hSid, hTask⟩
      · omega
      · obtain rfl : m = s.srv.nextTask := by omega
        obtain ⟨hSameMine, hOut⟩ := hFrame c f rfl
        rw [hConn, hSameMine] at hMine
        have hHead : f ∈ s.cli.out c := by simp [hOut.resolve_left (by simp [hMine])]
        obtain ⟨n, hn, hPosted⟩ := h.sent c f hHead req hReq
        rw [hConn, hSid, hTask]
        exact ⟨n, hn, hPosted.step (hSame n hn)⟩

theorem Correlated.got_step (h : Correlated E s l)
    (hStep : step E s a = some t) (hEvent : t.cli = s.cli ∨ s.cli.eventStep E.cli e = some t.cli ∧
      ∀ c f, e = .down c f → f ∈ s.srv.outbox c)
    (hSame : ∀ n ∈ l, Client.SameRequest s.cli t.cli n) :
    ∀ n resp, t.cli.Got n resp → n ∈ l ∧ ∃ m < t.srv.nextTask,
      t.cli.mine (t.srv.task m).conn = true ∧ (t.srv.task m).sid = (t.cli.caller n).sid ∧
        (m, resp) ∈ t.srv.answered := by
  have hOld : ∀ n ∈ l, ∀ m < s.srv.nextTask, ∀ resp, s.cli.mine (s.srv.task m).conn = true →
      (s.srv.task m).sid = (s.cli.caller n).sid → (m, resp) ∈ s.srv.answered →
      ∃ m < t.srv.nextTask, t.cli.mine (t.srv.task m).conn = true ∧
        (t.srv.task m).sid = (t.cli.caller n).sid ∧ (m, resp) ∈ t.srv.answered := by
    intro n hn m hm resp hMine hSid hIn
    have hMine' : t.cli.mine (s.srv.task m).conn = true := by
      rcases hEvent with hCli | ⟨hEvent, -⟩
      · rwa [hCli]
      · exact Client.event_mine hEvent hMine
    rcases server_part hStep with hSrv | ⟨b, hSrv, -⟩
    · exact ⟨m, by rwa [hSrv], by rwa [hSrv], by rw [hSrv, hSid, (hSame n hn).sid], by rwa [hSrv]⟩
    · obtain ⟨hLe, hSub⟩ := Server.answered_step h.outbox.requests hSrv
      obtain ⟨hConn, hSid', -⟩ := Server.task_step hSrv hm
      exact ⟨m, hm.trans_le hLe, by rwa [hConn], by rw [hSid', hSid, (hSame n hn).sid], hSub hIn⟩
  intro n resp hGot
  have hCases : s.cli.Got n resp ∨ ∃ c f, e = .down c f ∧ s.cli.main = .session c .next ∧
      f ∈ s.srv.outbox c ∧ f.response = some resp ∧ s.cli.pending.lookup f.streamId = some n := by
    rcases hEvent with hCli | ⟨hEvent, hFrame⟩
    · exact .inl (hCli ▸ hGot)
    · refine (Client.got_step hEvent hGot).imp_right ?_
      rintro ⟨c, f, hDown, hMain, hResp, hFind⟩
      exact ⟨c, f, hDown, hMain, hFrame c f hDown, hResp, hFind⟩
  rcases hCases with hGot | ⟨c, f, -, hMain, hf, hResp, hFind⟩
  · obtain ⟨hn, m, hm, hMine, hSid, hIn⟩ := h.got n resp hGot
    exact ⟨hn, hOld n hn m hm resp hMine hSid hIn⟩
  · have hn := h.client.numbered.listed _ n hFind
    obtain ⟨m, hm, hConn, hSid, hIn⟩ := h.responses c f hf resp hResp
    have hKey := h.client.owned.keyed _ n hFind
    have hMine := h.streams.spokes.mine c _ hMain
    exact ⟨hn, hOld n hn m hm resp (hConn ▸ hMine) (hSid.trans hKey.symm) hIn⟩

/-- An id on its way or read was sent by its caller. -/
theorem Correlated.mem_ids (h : Correlated E s l) {c : ConnId} {sid : Nat} (hIn : sid ∈ s.ids c) :
    ∃ n ∈ l, ∃ req, s.cli.Posted n c sid req := by
  rcases List.mem_append.mp hIn with hIn | hIn
  · obtain ⟨f, hf, hSid⟩ := List.mem_filterMap.mp hIn
    obtain ⟨req, hReq, rfl⟩ := Option.map_eq_some_iff.mp hSid
    obtain ⟨n, hn, hPosted⟩ := h.sent c f hf req hReq
    exact ⟨n, hn, req, hPosted⟩
  · split at hIn
    next hMine =>
      obtain ⟨m, hm, rfl, rfl⟩ := Server.mem_readIds.mp hIn
      obtain ⟨n, hn, hPosted⟩ := h.read m hm hMine
      exact ⟨n, hn, _, hPosted⟩
    next => cases hIn

theorem requestIds_append (fs gs : List ClientFrame) :
    requestIds (fs ++ gs) = requestIds fs ++ requestIds gs := List.filterMap_append

theorem requestIds_plain {fs : List ClientFrame} (h : ∀ f ∈ fs, f.request = none) :
    requestIds fs = [] :=
  List.filterMap_eq_nil_iff.mpr fun f hf => by rw [h f hf, Option.map_none]

/-- What the server reads of connection `c` left the client. -/
theorem Correlated.readIds_step (h : Correlated E s l) (hStep : step E s a = some t) (c : ConnId) :
    (if t.cli.mine c = true then t.srv.readIds c else []) =
      (if s.cli.mine c = true then s.srv.readIds c else []) ∨
    ∃ f req, f.request = some req ∧ s.cli.out c = f :: t.cli.out c ∧
      (if t.cli.mine c = true then t.srv.readIds c else []) =
        (if s.cli.mine c = true then s.srv.readIds c else []) ++ [f.streamId] := by
  have hSrv : t.srv.readIds c = s.srv.readIds c ∨ ∃ f req, f.request = some req ∧
      t.cli.mine = s.cli.mine ∧ (s.cli.mine c = false ∨ s.cli.out c = f :: t.cli.out c) ∧
      t.srv.readIds c = s.srv.readIds c ++ [f.streamId] := by
    rcases server_part hStep with hSame | ⟨b, hSrv, hFrame⟩
    · exact .inl (by rw [hSame])
    · refine (Server.readIds_step hSrv c).imp_right ?_
      rintro ⟨f, req, hAct, hReq, hIds⟩
      exact ⟨f, req, hReq, (hFrame c f hAct).1, (hFrame c f hAct).2, hIds⟩
  rcases hSrv with hSame | ⟨f, req, hReq, hMine, hOut, hIds⟩
  · refine .inl ?_
    rw [hSame]
    by_cases hOld : s.cli.mine c = true
    · have hNew : t.cli.mine c = true := by
        rcases client_part h.streams.known hStep with hCli | ⟨e, hEvent, -⟩
        · rwa [hCli]
        · exact Client.event_mine hEvent hOld
      rw [if_pos hOld, if_pos hNew]
    · -- nothing was read on a connection that was not there
      have hNone : t.cli.mine c = true → s.srv.readIds c = [] := fun hNew =>
        List.eq_nil_iff_forall_not_mem.mpr fun sid hIn => by
          obtain ⟨m, hm, hConn, -⟩ := Server.mem_readIds.mp hIn
          exact hOld (hConn ▸ h.mine_task hStep hm (hConn ▸ hNew))
      rw [if_neg hOld]
      split
      next hNew => exact hNone hNew
      next => rfl
  · rw [hMine, hIds]
    by_cases hOld : s.cli.mine c = true
    · exact .inr ⟨f, req, hReq, hOut.resolve_left (by simp [hOld]), by simp [hOld]⟩
    · exact .inl (by simp [hOld])

theorem Correlated.single_step (h : Correlated E s l) (hFew : s.cli.nextCaller ≤ 2 ^ 64)
    (hStep : step E s a = some t) (c : ConnId) : (t.ids c).Nodup := by
  have hRead := h.readIds_step hStep c
  have hNodup := h.single c
  -- the frames lose their head, or they gain no request, or they gain one with a new id
  have hOut : t.cli.out c = s.cli.out c ∨ (∃ f, s.cli.out c = f :: t.cli.out c) ∨
      ∃ fs, t.cli.out c = s.cli.out c ++ fs ∧ (s.ids c ++ requestIds fs).Nodup := by
    rcases client_part h.streams.known hStep with hCli | ⟨e, hEvent, -⟩
    · exact .inl (by rw [hCli])
    · cases Client.out_step h.client.plainly hEvent c with
      | plain fs hPlain hOut =>
        exact .inr (.inr ⟨fs, hOut, by rwa [requestIds_plain hPlain, List.append_nil]⟩)
      | up f hAct hOut => exact .inr (.inl ⟨f, hOut⟩)
      | request n hPc hConn hNext hOut =>
        refine .inr (.inr ⟨_, hOut, List.nodup_append.mpr ⟨hNodup, by simp [requestIds,
          clientHttpRequest, ClientFrame.request], ?_⟩⟩)
        rintro sid hIn sid' hNew rfl
        obtain ⟨m, hm, req, hPosted⟩ := h.mem_ids hIn
        have hSid : sid = (s.cli.caller n).sid := by
          simpa [requestIds, clientHttpRequest, ClientFrame.request] using hNew
        have hn : n ∈ l := h.client.numbered.mem n (by simp [hPc, CallerPc.numbered])
        obtain rfl := h.client.numbered.sid_inj hFew hm hn (hPosted.sid.trans hSid)
        simpa [hPc, CallerPc.posted] using hPosted.posted
  unfold ids at hNodup hOut ⊢
  rcases hRead with hSame | ⟨f, req, hReq, hHead, hMore⟩
  · rw [hSame]
    rcases hOut with hOut | ⟨f, hOut⟩ | ⟨fs, hOut, hNew⟩
    · rwa [hOut]
    · refine hNodup.sublist (List.Sublist.append_right ?_ _)
      rw [hOut]
      exact (List.sublist_cons_self f _).filterMap _
    · rw [hOut, requestIds_append]
      refine (List.Perm.nodup_iff ?_).mp hNew
      rw [List.append_assoc, List.append_assoc]
      exact List.perm_append_comm.append_left _
  · -- the head of the queue is read
    have hIds : requestIds (s.cli.out c) = f.streamId :: requestIds (t.cli.out c) := by
      rw [hHead, requestIds, List.filterMap_cons, hReq]
      rfl
    rw [hIds, List.cons_append] at hNodup
    rw [hMore, ← List.append_assoc]
    exact (List.perm_append_singleton f.streamId _).nodup_iff.mpr hNodup

theorem Correlated.step (h : Correlated E s l) (hFew : t.cli.nextCaller ≤ 2 ^ 64)
    (hStep : System.step E s a = some t) : ∃ new, Correlated E t (l ++ new) := by
  have hOutbox : Server.OutboxOk E.srv t.srv ∧ t.srv.ResponsesOk := by
    rcases server_part hStep with hSame | ⟨b, hSrv, -⟩
    · rw [hSame]
      exact ⟨h.outbox, h.responses⟩
    · exact ⟨Server.outboxOk_step h.outbox hSrv,
        Server.responsesOk_step h.outbox.requests h.responses hSrv⟩
  have hPart := client_part h.streams.known hStep
  have hClient : s.cli.nextCaller ≤ t.cli.nextCaller ∧
      ∃ new, t.cli.Orderly (l ++ new) ∧ ∀ n ∈ l, Client.SameRequest s.cli t.cli n := by
    rcases hPart with hCli | ⟨e, hEvent, -⟩
    · rw [hCli]
      exact ⟨le_rfl, [], by simpa using h.client, fun n hn =>
        .of_eq rfl (h.client.numbered.known n hn).2⟩
    · exact ⟨Client.nextCaller_step hEvent, h.client.step hFew hEvent⟩
  obtain ⟨hLe, new, hOrderly, hSame⟩ := hClient
  have hMore : ∀ {p : Nat → Prop}, (∃ n ∈ l, p n) → ∃ n ∈ l ++ new, p n := fun ⟨n, hn, hp⟩ =>
    ⟨n, List.mem_append_left _ hn, hp⟩
  refine ⟨new, streamsOk_step h.streams hStep, hOutbox.1, hOutbox.2, hOrderly, ?_, ?_, ?_, ?_⟩
  · intro c f hf req hReq
    refine hMore ?_
    rcases hPart with hCli | ⟨e, hEvent, -⟩
    · obtain ⟨n, hn, hPosted⟩ := h.sent c f (hCli ▸ hf) req hReq
      exact ⟨n, hn, hPosted.step (hSame n hn)⟩
    · exact h.sent_step hEvent hSame c f hf req hReq
  · exact fun m hm hMine => hMore (h.read_step hStep hSame m hm hMine)
  · exact h.single_step (hLe.trans hFew) hStep
  · intro n resp hGot
    rcases hPart with hCli | ⟨e, hEvent, hFrame, -⟩
    · obtain ⟨hn, hTask⟩ := h.got_step (e := .connect 0) hStep (.inl hCli) hSame n resp hGot
      exact ⟨List.mem_append_left _ hn, hTask⟩
    · obtain ⟨hn, hTask⟩ := h.got_step hStep (.inr ⟨hEvent, hFrame⟩) hSame n resp hGot
      exact ⟨List.mem_append_left _ hn, hTask⟩

end Step

theorem correlated_run {acts : List SystemAct} (hRun : run (step E) init acts = some s)
    (hFew : s.cli.nextCaller ≤ 2 ^ 64) : ∃ l, Correlated E s l := by
  refine run_induction (motive := fun _ s => s.cli.nextCaller ≤ 2 ^ 64 → ∃ l, Correlated E s l)
    hRun (fun _ => ⟨[], correlated_init⟩) ?_ hFew
  intro acts s a t hBefore ih hStep hFew
  have hLe : s.cli.nextCaller ≤ t.cli.nextCaller := by
    rcases client_part (streamsOk_run hBefore).known hStep with hCli | ⟨e, hEvent, -⟩
    · rw [hCli]
    · exact Client.nextCaller_step hEvent
  obtain ⟨l, h⟩ := ih (hLe.trans hFew)
  obtain ⟨new, h⟩ := h.step hFew hStep
  exact ⟨_, h⟩

def Serves (s : System) (n m : Nat) : Prop :=
  m < s.srv.nextTask ∧ (s.srv.task m).conn = (s.cli.caller n).conn ∧
    (s.srv.task m).sid = (s.cli.caller n).sid ∧ (s.srv.task m).req = (s.cli.caller n).req

theorem answered_allowed (h : Correlated E s l) {m : Nat} {resp : HttpResponse}
    (hIn : (m, resp) ∈ s.srv.answered) :
    s.srv.answersTo m = [resp] ∧ (s.srv.verdictOn E.srv m).Allows resp := by
  have hMem : resp ∈ s.srv.answersTo m := List.mem_filterMap.mpr ⟨(m, resp), hIn, by simp⟩
  have hHandled := h.outbox.requests.handled m
  cases hPc : (s.srv.task m).pc with
  | ended =>
    rw [hPc] at hHandled
    obtain ⟨-, d, hAllows, hAnswers | ⟨hNone, -⟩⟩ := hHandled
    · obtain rfl : resp = d := by simpa [hAnswers] using hMem
      exact ⟨hAnswers, hAllows⟩
    · simp [hNone] at hMem
  | send builder =>
    rw [hPc] at hHandled
    cases builder <;> simp [hHandled.2.2] at hMem
  | absent | start =>
    rw [hPc] at hHandled
    simp [hHandled.2] at hMem
  | inline | reply | following =>
    rw [hPc] at hHandled
    simp [hHandled.2.2] at hMem

theorem Correlated.reads_once (h : Correlated E s l) {n m m' : Nat}
    (hMine : s.cli.mine (s.srv.task m).conn = true)
    (hm : s.Serves n m) (hm' : s.Serves n m') : m' = m := by
  obtain ⟨hLt, hConn, hSid, -⟩ := hm
  obtain ⟨hLt', hConn', hSid', -⟩ := hm'
  have hNodup := (List.nodup_append.mp (h.single (s.srv.task m).conn)).2.1
  rw [if_pos hMine] at hNodup
  exact Server.eq_of_readIds hNodup hLt' hLt (hConn'.trans hConn.symm) rfl (hSid'.trans hSid.symm)

/-- Unless 2^64 callers came, no caller is handed two replies; a request that the server reads of
the client was sent by a caller and is read once; and a response of the server that is with a
caller is the only answer to the caller's own request, one that the request could get, and no
other caller's. -/
theorem replies_correlated {acts : List SystemAct} (hRun : run (step E) init acts = some s)
    (hFew : s.cli.nextCaller ≤ 2 ^ 64) :
    (s.cli.handed.map Prod.fst).Nodup ∧
    (∀ m < s.srv.nextTask, s.cli.mine (s.srv.task m).conn = true →
      ∃ n, s.Serves n m ∧ ∀ m', s.Serves n m' → m' = m) ∧
    ∀ n resp, s.cli.Got n resp → ∃ m, s.Serves n m ∧ s.srv.answersTo m = [resp] ∧
      (s.srv.verdictOn E.srv m).Allows resp ∧
      ∀ n' resp', s.cli.Got n' resp' → s.Serves n' m → n' = n := by
  obtain ⟨l, h⟩ := correlated_run hRun hFew
  refine ⟨h.client.once.nodup, fun m hm hMine => ?_, fun n resp hGot => ?_⟩
  · obtain ⟨n, -, hPosted⟩ := h.read m hm hMine
    have hServes : s.Serves n m := ⟨hm, hPosted.conn.symm, hPosted.sid.symm, hPosted.req.symm⟩
    exact ⟨n, hServes, fun m' hm' => h.reads_once hMine hServes hm'⟩
  · obtain ⟨hn, m, hm, hMine, hSid, hIn⟩ := h.got n resp hGot
    obtain ⟨n', hn', hPosted⟩ := h.read m hm hMine
    obtain rfl := h.client.numbered.sid_inj hFew hn hn' (hSid.symm.trans hPosted.sid.symm)
    obtain ⟨hAnswers, hAllows⟩ := answered_allowed h hIn
    refine ⟨m, ⟨hm, hPosted.conn.symm, hSid, hPosted.req.symm⟩, hAnswers, hAllows, ?_⟩
    rintro n' resp' hGot' ⟨-, -, hSid', -⟩
    exact h.client.numbered.sid_inj hFew (h.got n' resp' hGot').1 hn (hSid'.symm.trans hSid)

/-- The spoke of `appEnv`. -/
def appPair : SystemEnv := ⟨Server.appEnv, ⟨⟨"app-x", "secret", ∅⟩, "tc", id, 0⟩⟩

/-- A caller of the local proxy asks, and the kernel answers. -/
def chatReply : List SystemAct :=
  [.connect [] 0, .spoke (.main .tau), .down 0, .spoke (.main .tau), .up 0, .hub (.conn 0 .tau),
    .hub (.conn 0 .tau), .hub (.conn 0 .tau), .spoke (.env (.arrive ⟨"POST", "/chat", ∅, []⟩)),
    .spoke (.caller 0 .tau), .spoke (.caller 0 .tau), .spoke (.caller 0 .tau),
    .spoke (.caller 0 .tau), .up 0, .hub (.http 0 .tau),
    .hub (.http 0 (.response (.ok ⟨200, [], .ok [79, 75]⟩))), .hub (.http 0 .tau), .down 0,
    .spoke (.main .tau)]

theorem chatReply_correlated : ∃ s, run (step appPair) init chatReply = some s ∧
    ∃ resp, s.cli.Got 0 resp ∧ resp.body = [79, 75] ∧
      ∃ m, s.Serves 0 m ∧ s.srv.answersTo m = [resp] := by
  obtain ⟨s, hRun, hEnd⟩ := exists_run_of_any (step appPair) init chatReply
    (fun s => s.cli.nextCaller = 1 ∧
      s.cli.handed.map (fun x => (x.1, x.2.response.body)) = [(0, [79, 75])])
    (by decide)
  obtain ⟨hCallers, hHanded⟩ := of_decide_eq_true hEnd
  obtain ⟨⟨n, r⟩, hIn, hFst⟩ : ∃ x ∈ s.cli.handed, (x.1, x.2.response.body) = (0, [79, 75]) :=
    List.mem_map.mp (hHanded ▸ List.mem_singleton_self _)
  obtain ⟨rfl, hBody⟩ := Prod.mk.inj hFst
  cases r with
  | flushed => cases hBody
  | hub resp =>
    have hGot : s.cli.Got 0 resp := .inl hIn
    obtain ⟨m, hServes, hAnswers, -⟩ := (replies_correlated hRun (by simp [hCallers])).2.2 0 _ hGot
    exact ⟨s, hRun, resp, hGot, hBody, m, hServes, hAnswers⟩

end System

end OpenSpoke.Tunnel
