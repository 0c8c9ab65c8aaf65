import OpenSpoke.Tunnel.Server.Step

/-!
# What a step of the server can do

One inversion lemma for each task: an enabled step is one of the named moves,
with the guard it passed and the state it leads to. Later proofs go by cases on
the move and never unfold a step function.
-/

namespace OpenSpoke.Tunnel.Server

variable {E : Env} {s t : Server}

/-! ## `accept_loop` -/

/-- `accept_loop` takes the `k`-th loop of `c` from `l` to `pc`. -/
def loopTo (s : Server) (c : ConnId) (k : Nat) (pc : AcceptPc) : Server :=
  s.setLoop c k { s.loop c k with pc := pc }

inductive LoopMove (E : Env) (s : Server) (c : ConnId) (k : Nat) : LoopEv → Server → Prop
  | stop (hPc : (s.loop c k).pc = .check) (hClosed : (s.session c).closed = true) :
      LoopMove E s c k .tau (s.loopTo c k .ended)
  | await (hPc : (s.loop c k).pc = .check) (hOpen : (s.session c).closed = false) :
      LoopMove E s c k .tau (s.loopTo c k .accept)
  | failed (err : String) (hPc : (s.loop c k).pc = .accept) :
      LoopMove E s c k (.accept (.error err)) (s.loopTo c k .ended)
  | accepted (hPc : (s.loop c k).pc = .accept) :
      LoopMove E s c k (.accept (.ok ())) (s.loopTo c k .alloc)
  | alloc (hPc : (s.loop c k).pc = .alloc) :
      LoopMove E s c k .tau
        { (s.setStream (s.nextSid + 1) ⟨c, .fresh, .held, .held, []⟩).loopTo c k
            (.register (s.nextSid + 1)) with nextSid := s.nextSid + 1 }
  | register (sid : Nat) (hPc : (s.loop c k).pc = .register sid) :
      LoopMove E s c k .tau ((s.addStream c sid).loopTo c k (.inc sid))
  | inc (sid : Nat) (hPc : (s.loop c k).pc = .inc sid) :
      LoopMove E s c k .tau
        ((s.setMetrics (s.metrics.incStreams (s.session c).spokeId)).loopTo c k (.sendOpen sid))
  | opened (sid : Nat) (hPc : (s.loop c k).pc = .sendOpen sid) (hRx : s.rxOpen c = true) :
      LoopMove E s c k .tau
        ((s.setOutbox c (s.outbox c ++ [⟨sid, some (.openStream "tcp" (s.loop c k).target)⟩])).loopTo
          c k (.spawn sid))
  | unopened (sid : Nat) (hPc : (s.loop c k).pc = .sendOpen sid) (hRx : s.rxOpen c = false) :
      LoopMove E s c k .tau (s.loopTo c k (.rollback sid))
  | rollback (sid : Nat) (hPc : (s.loop c k).pc = .rollback sid) :
      LoopMove E s c k .tau
        ((((s.eraseStream c sid).decStreams c).setStream sid (s.stream sid).drop).loopTo c k .check)
  | spawn (sid : Nat) (hPc : (s.loop c k).pc = .spawn sid) :
      LoopMove E s c k .tau
        ((s.setStream sid { s.stream sid with up := .read, down := .recv }).loopTo c k .check)
  | cancel (hAbort : (s.loop c k).aborted = true)
      (hPc : (s.loop c k).pc = .check ∨ (s.loop c k).pc = .accept) :
      LoopMove E s c k .cancel (s.loopTo c k .ended)
  | cancelHeld (sid : Nat) (hAbort : (s.loop c k).aborted = true)
      (hPc : (s.loop c k).pc = .register sid ∨ (s.loop c k).pc = .sendOpen sid ∨
        (s.loop c k).pc = .rollback sid) :
      LoopMove E s c k .cancel ((s.setStream sid (s.stream sid).drop).loopTo c k .ended)

theorem loopStep_move {c : ConnId} {k : Nat} {e : LoopEv} (h : s.loopStep E c k e = some t) :
    LoopMove E s c k e t := by
  unfold loopStep at h
  dsimp only at h
  split at h
  next hPc =>
    cases h
    cases hClosed : (s.session c).closed with
    | true => exact .stop hPc hClosed
    | false => exact .await hPc hClosed
  next err hPc => cases h; exact .failed err hPc
  next hPc => cases h; exact .accepted hPc
  next hPc => cases h; exact .alloc hPc
  next sid hPc => cases h; exact .register sid hPc
  next sid hPc => cases h; exact .inc sid hPc
  next sid hPc =>
    obtain ⟨⟨u, sent⟩, hSend, rfl⟩ := Option.map_eq_some_iff.mp h
    rcases send_eq_some hSend with ⟨rfl, hRx, rfl⟩ | ⟨rfl, hRx, rfl⟩
    · exact .opened sid hPc hRx
    · exact .unopened sid hPc hRx
  next sid hPc => cases h; exact .rollback sid hPc
  next sid hPc => cases h; exact .spawn sid hPc
  next hPc => split at h <;> cases h; exact .cancel ‹_› (.inl hPc)
  next hPc => split at h <;> cases h; exact .cancel ‹_› (.inr hPc)
  next sid hPc => split at h <;> cases h; exact .cancelHeld sid ‹_› (.inl hPc)
  next sid hPc => split at h <;> cases h; exact .cancelHeld sid ‹_› (.inr (.inl hPc))
  next sid hPc => split at h <;> cases h; exact .cancelHeld sid ‹_› (.inr (.inr hPc))
  next => cases h

/-! ## The upstream task -/

inductive UpMove (E : Env) (s : Server) (sid : Nat) : UpEv → Server → Prop
  | failed (err : String) (hPc : (s.stream sid).up = .read) :
      UpMove E s sid (.read (.error err)) (s.setStream sid { s.stream sid with up := .remove })
  | eof (hPc : (s.stream sid).up = .read) (hEof : (s.stream sid).sock.atEof = true) :
      UpMove E s sid (.read (.ok 0)) (s.setStream sid { s.stream sid with up := .sendClose })
  | read (n : Nat) (payload : Bytes) (sock : Socket) (hPc : (s.stream sid).up = .read)
      (hRead : (s.stream sid).sock.read n = some (payload, sock)) :
      UpMove E s sid (.read (.ok n))
        ((s.setStream sid { s.stream sid with sock := sock, up := .send payload }).setMetrics
          (s.metrics.addSent (s.session (s.stream sid).owner).spokeId n))
  | sent (payload : Bytes) (hPc : (s.stream sid).up = .send payload)
      (hRx : s.rxOpen (s.stream sid).owner = true) :
      UpMove E s sid .tau
        ((s.setOutbox (s.stream sid).owner
            (s.outbox (s.stream sid).owner ++ [⟨sid, some (.data payload)⟩])).setStream sid
          { s.stream sid with up := .read })
  | unsent (payload : Bytes) (hPc : (s.stream sid).up = .send payload)
      (hRx : s.rxOpen (s.stream sid).owner = false) :
      UpMove E s sid .tau (s.setStream sid { s.stream sid with up := .remove })
  | closeSent (hPc : (s.stream sid).up = .sendClose)
      (hRx : s.rxOpen (s.stream sid).owner = true) :
      UpMove E s sid .tau
        ((s.setOutbox (s.stream sid).owner
            (s.outbox (s.stream sid).owner ++ [⟨sid, some (.close true "eof")⟩])).setStream sid
          { s.stream sid with up := .remove })
  | closeUnsent (hPc : (s.stream sid).up = .sendClose)
      (hRx : s.rxOpen (s.stream sid).owner = false) :
      UpMove E s sid .tau (s.setStream sid { s.stream sid with up := .remove })
  | remove (hPc : (s.stream sid).up = .remove) :
      UpMove E s sid .tau
        ((s.removeStream (s.stream sid).owner sid).setStream sid { s.stream sid with up := .ended })

theorem upStep_move {sid : Nat} {e : UpEv} (h : s.upStep E sid e = some t) :
    UpMove E s sid e t := by
  unfold upStep at h
  dsimp only at h
  split at h
  next err hPc => cases h; exact .failed err hPc
  next hPc => split at h <;> cases h; exact .eof hPc ‹_›
  next n hn hPc =>
    obtain ⟨⟨payload, sock⟩, hRead, rfl⟩ := Option.map_eq_some_iff.mp h
    exact .read n payload sock hPc hRead
  next payload hPc =>
    obtain ⟨⟨u, sent⟩, hSend, rfl⟩ := Option.map_eq_some_iff.mp h
    rcases send_eq_some hSend with ⟨rfl, hRx, rfl⟩ | ⟨rfl, hRx, rfl⟩
    · exact .sent payload hPc hRx
    · exact .unsent payload hPc hRx
  next hPc =>
    obtain ⟨⟨u, sent⟩, hSend, rfl⟩ := Option.map_eq_some_iff.mp h
    rcases send_eq_some hSend with ⟨-, hRx, rfl⟩ | ⟨-, hRx, rfl⟩
    · exact .closeSent hPc hRx
    · exact .closeUnsent hPc hRx
  next hPc => cases h; exact .remove hPc
  next => cases h

/-! ## The downstream task -/

inductive DownMove (s : Server) (sid : Nat) : DownEv → Server → Prop
  | recv (p : Bytes) (q : List Bytes) (hPc : (s.stream sid).down = .recv)
      (hQueue : (s.stream sid).queue = p :: q) :
      DownMove s sid .tau (s.setStream sid { s.stream sid with queue := q, down := .write p })
  | drained (hPc : (s.stream sid).down = .recv) (hQueue : (s.stream sid).queue = [])
      (hSender : s.hasSender sid = false) :
      DownMove s sid .tau (s.setStream sid { s.stream sid with down := .shutdown })
  | written (hPc : (s.stream sid).down = .write []) :
      DownMove s sid .tau (s.setStream sid { s.stream sid with down := .recv })
  | write (rest : Bytes) (n : Nat) (hPc : (s.stream sid).down = .write rest)
      (hn : 0 < n ∧ n ≤ rest.length) :
      DownMove s sid (.write (.ok n)) (s.setStream sid
        { s.stream sid with
          sock := (s.stream sid).sock.write (rest.take n), down := .write (rest.drop n) })
  | failed (rest : Bytes) (err : String) (hPc : (s.stream sid).down = .write rest) :
      DownMove s sid (.write (.error err)) (s.setStream sid { s.stream sid with down := .shutdown })
  | shutdown (hPc : (s.stream sid).down = .shutdown) :
      DownMove s sid .tau (s.setStream sid
        { s.stream sid with sock := (s.stream sid).sock.shutdown, down := .ended })

theorem downStep_move {sid : Nat} {e : DownEv} (h : s.downStep sid e = some t) :
    DownMove s sid e t := by
  unfold downStep at h
  dsimp only at h
  split at h
  next hPc =>
    split at h
    next p q hQueue => cases h; exact .recv p q hPc hQueue
    next hQueue =>
      split at h <;> cases h
      exact .drained hPc hQueue (Bool.eq_false_iff.mpr ‹_›)
  next hPc => cases h; exact .written hPc
  next rest n hPc => split at h <;> cases h; exact .write rest n hPc ‹_›
  next rest err hPc => cases h; exact .failed rest err hPc
  next hPc => cases h; exact .shutdown hPc
  next => cases h

/-! ## `handle_http_request` -/

def taskTo (s : Server) (n : Nat) (pc : HttpPc) : Server :=
  s.setTask n { s.task n with pc := pc }

def countTask (s : Server) (n : Nat) (result : String) : Server :=
  s.setMetrics (s.metrics.countHttp (s.session (s.task n).conn).spokeId result)

inductive HttpMove (E : Env) (s : Server) (n : Nat) : HttpEv → Server → Prop
  | rejected (hPc : (s.task n).pc = .start) (hPath : (s.task n).req.path ∉ E.cfg.allowedPaths) :
      HttpMove E s n .tau ((s.countTask n "rejected_path").taskTo n
        (.reply (rejectedPath (s.task n).req.path)))
  | unbuilt (err : String) (hPc : (s.task n).pc = .start)
      (hPath : (s.task n).req.path ∈ E.cfg.allowedPaths)
      (hBuild : forward E.lib E.cfg (s.session (s.task n).conn).spokeId (s.task n).req =
        .error err) :
      HttpMove E s n .tau (s.taskTo n (.send (.error err)))
  | issue (req : UpstreamRequest) (hPc : (s.task n).pc = .start)
      (hPath : (s.task n).req.path ∈ E.cfg.allowedPaths)
      (hBuild : forward E.lib E.cfg (s.session (s.task n).conn).spokeId (s.task n).req = .ok req) :
      HttpMove E s n .tau
        { s.taskTo n (.send (.ok req)) with issued := s.issued ++ [(n, req)] }
  | buildFailed (err : String) (hPc : (s.task n).pc = .send (.error err)) :
      HttpMove E s n .tau ((s.countTask n "upstream_err").taskTo n (.reply (upstreamError err)))
  | answered (req : UpstreamRequest) (hops : Nat) (r : Except String UpstreamResponse)
      (hPc : (s.task n).pc.awaits = some (req, hops)) :
      HttpMove E s n (.response r)
        ((s.countTask n (upstreamAnswer r).2).taskTo n (.reply (upstreamAnswer r).1))
  | redirected (req next : UpstreamRequest) (hops : Nat) (resp : UpstreamResponse)
      (hPc : (s.task n).pc.awaits = some (req, hops)) (hHops : hops < maxRedirects)
      (hFollow : E.lib.follow req resp = some next) :
      HttpMove E s n (.redirect resp)
        { s.taskTo n (.following next (hops + 1)) with issued := s.issued ++ [(n, next)] }
  | replied (resp : HttpResponse) (hPc : (s.task n).pc = .reply resp)
      (hRx : s.rxOpen (s.task n).conn = true) :
      HttpMove E s n .tau ((s.setOutbox (s.task n).conn (s.outbox (s.task n).conn ++
        [⟨(s.task n).sid, some (.httpResponse resp)⟩])).answer n resp true)
  | unreplied (resp : HttpResponse) (hPc : (s.task n).pc = .reply resp)
      (hRx : s.rxOpen (s.task n).conn = false) :
      HttpMove E s n .tau (s.answer n resp false)

theorem httpStep_move {n : Nat} {e : HttpEv} (h : s.httpStep E n e = some t) :
    HttpMove E s n e t := by
  cases e with
  | tau =>
    simp only [httpStep, httpTau] at h
    split at h
    next hPc =>
      split at h
      next hPath => cases h; exact .rejected hPc hPath
      next hPath =>
        split at h
        next err hBuild => cases h; exact .unbuilt err hPc (not_not.mp hPath) hBuild
        next req hBuild => cases h; exact .issue req hPc (not_not.mp hPath) hBuild
    next err hPc => cases h; exact .buildFailed err hPc
    next resp hPc =>
      obtain ⟨⟨u, sent⟩, hSend, rfl⟩ := Option.map_eq_some_iff.mp h
      rcases send_eq_some hSend with ⟨rfl, hRx, rfl⟩ | ⟨rfl, hRx, rfl⟩
      · exact .replied resp hPc hRx
      · exact .unreplied resp hPc hRx
    next => cases h
  | response r =>
    obtain ⟨⟨req, hops⟩, hPc, h⟩ := Option.bind_eq_some_iff.mp h
    obtain ⟨-, h⟩ := Option.ite_none_right_eq_some.mp h
    cases h
    exact .answered req hops r hPc
  | redirect resp =>
    obtain ⟨⟨req, hops⟩, hPc, h⟩ := Option.bind_eq_some_iff.mp h
    obtain ⟨hHops, h⟩ := Option.ite_none_right_eq_some.mp h
    obtain ⟨next, hFollow, rfl⟩ := Option.map_eq_some_iff.mp h
    exact .redirected req next hops resp hPc hHops hFollow

/-! ## `recv_loop` -/

inductive RecvMove (E : Env) (s : Server) (c : ConnId) : RecvPc → ConnEv → Server → Prop
  | ended (r : Incoming) (hEnd : ∀ f, r ≠ some (.ok f)) :
      RecvMove E s c .next (.frame r) (s.goto c .close)
  | data (f : ClientFrame) (payload : Bytes) (hKind : f.kind = some (.data payload))
      (hEntry : f.streamId ∈ (s.session c).streams) :
      RecvMove E s c .next (.frame (some (.ok f)))
        ((s.setMetrics (s.metrics.addRecv (s.session c).spokeId payload.length)).goto c
          (.recv (.deliver f.streamId payload)))
  | unknown (f : ClientFrame) (payload : Bytes) (hKind : f.kind = some (.data payload))
      (hEntry : f.streamId ∉ (s.session c).streams) :
      RecvMove E s c .next (.frame (some (.ok f))) s
  | close (f : ClientFrame) (half : Bool) (reason : String)
      (hKind : f.kind = some (.close half reason)) :
      RecvMove E s c .next (.frame (some (.ok f))) (s.removeStream c f.streamId)
  | rejectKind (f : ClientFrame) (req : HttpRequest) (hKind : f.kind = some (.httpRequest req))
      (hSpoke : (s.sc c).kind ≠ .application) :
      RecvMove E s c .next (.frame (some (.ok f)))
        (((s.setMetrics (s.metrics.countHttp (s.session c).spokeId "rejected_kind")).addTask
          ⟨c, f.streamId, req, .inline⟩).goto c (.recv (.reject s.nextTask)))
  | request (f : ClientFrame) (req : HttpRequest) (hKind : f.kind = some (.httpRequest req))
      (hSpoke : (s.sc c).kind = .application) :
      RecvMove E s c .next (.frame (some (.ok f))) (s.addTask ⟨c, f.streamId, req, .start⟩)
  | ignored (f : ClientFrame)
      (hKind : (∃ n, f.kind = some (.pong n)) ∨ (∃ hs, f.kind = some (.handshake hs)) ∨
        f.kind = none) :
      RecvMove E s c .next (.frame (some (.ok f))) s
  | delivered (sid : Nat) (payload : Bytes) (hRx : (s.stream sid).down ≠ .ended)
      (hRoom : (s.stream sid).queue.length < streamCap) :
      RecvMove E s c (.deliver sid payload) .tau
        ((s.setStream sid { s.stream sid with queue := (s.stream sid).queue ++ [payload] }).goto c
          (.recv .next))
  | undelivered (sid : Nat) (payload : Bytes) (hRx : (s.stream sid).down = .ended) :
      RecvMove E s c (.deliver sid payload) .tau (s.goto c (.recv (.undeliver sid)))
  | undeliver (sid : Nat) :
      RecvMove E s c (.undeliver sid) .tau ((s.removeStream c sid).goto c (.recv .next))
  | rejected (n : Nat) (hRx : s.rxOpen c = true) :
      RecvMove E s c (.reject n) .tau
        (((s.setOutbox c (s.outbox c ++
          [⟨(s.task n).sid, some (.httpResponse rejectedKind)⟩])).answer n rejectedKind true).goto c
          (.recv .next))
  | unrejected (n : Nat) (hRx : s.rxOpen c = false) :
      RecvMove E s c (.reject n) .tau ((s.answer n rejectedKind false).goto c (.recv .next))

theorem recvStep_move {c : ConnId} {pc : RecvPc} {e : ConnEv} (h : s.recvStep E c pc e = some t) :
    RecvMove E s c pc e t := by
  unfold recvStep at h
  split at h
  next f =>
    split at h
    next payload hKind =>
      split at h <;> cases h
      · exact .data f payload hKind ‹_›
      · exact .unknown f payload hKind ‹_›
    next half reason hKind => cases h; exact .close f half reason hKind
    next n hKind => cases h; exact .ignored f (.inl ⟨n, hKind⟩)
    next req hKind =>
      split at h <;> cases h
      · exact .rejectKind f req hKind ‹_›
      · exact .request f req hKind (not_not.mp ‹_›)
    next hs hKind => cases h; exact .ignored f (.inr (.inl ⟨hs, hKind⟩))
    next hKind => cases h; exact .ignored f (.inr (.inr hKind))
  next r hEnd => cases h; exact .ended r fun f hf => hEnd f hf
  next sid payload =>
    split at h
    next hRx => cases h; exact .undelivered sid payload hRx
    next hRx => split at h <;> cases h; exact .delivered sid payload hRx ‹_›
  next sid => cases h; exact .undeliver sid
  next n =>
    obtain ⟨⟨u, sent⟩, hSend, rfl⟩ := Option.map_eq_some_iff.mp h
    rcases send_eq_some hSend with ⟨rfl, hRx, rfl⟩ | ⟨rfl, hRx, rfl⟩
    · exact .rejected n hRx
    · exact .unrejected n hRx
  next => cases h

/-! ## `handle_connection` -/

/-- The `spoke_id` of the session of `c`. -/
abbrev idOf (s : Server) (c : ConnId) : String := (s.session c).spokeId

inductive ConnMove (E : Env) (s : Server) (c : ConnId) : ConnEv → Server → Prop
  | refused (r : Incoming) (reason text : String) (hPhase : s.phase c = .recvFirst)
      (hFirst : handshake E.cfg r = .error (reason, text)) :
      ConnMove E s c (.frame r)
        ((s.setMetrics (s.metrics.failHandshake reason)).goto c (.refused text))
  | welcomed (r : Incoming) (hs : HandshakeResponse) (sc : SpokeConfig)
      (hPhase : s.phase c = .recvFirst) (hFirst : handshake E.cfg r = .ok (hs, sc)) :
      ConnMove E s c (.frame r)
        { (s.setSession c ⟨hs.spokeId, ∅, false⟩).goto c .lookup with
          hs := Function.update s.hs c (some hs), sc := Function.update s.sc c sc }
  | found (old : ConnId) (hPhase : s.phase c = .lookup)
      (hOld : s.sessions.lookup (s.idOf c) = some old) :
      ConnMove E s c .tau (s.goto c (.closeOld old))
  | insert (hPhase : s.phase c = .lookup) (hNone : s.sessions.lookup (s.idOf c) = none) :
      ConnMove E s c .tau ((s.setSessions (s.sessions.insert (s.idOf c) c)).goto c .inc)
  | closeOld (old : ConnId) (hPhase : s.phase c = .closeOld old) :
      ConnMove E s c .tau ((s.storeClosed old).goto c (.clearOld old))
  | clearOld (old : ConnId) (hPhase : s.phase c = .clearOld old) :
      ConnMove E s c .tau ((s.clearStreams old).goto c (.reinsert old))
  | reinsert (old : ConnId) (hPhase : s.phase c = .reinsert old) :
      ConnMove E s c .tau ((s.setSessions (s.sessions.insert (s.idOf c) c)).goto c .inc)
  | inc (hPhase : s.phase c = .inc) :
      ConnMove E s c .tau ((s.setMetrics s.metrics.incConnected).goto c (.bind 0))
  | connected (k : Nat) (hPhase : s.phase c = .bind k) (hLast : (s.sc c).ports[k]? = none) :
      ConnMove E s c .tau (s.goto c (.recv .next))
  | bound (k : Nat) (b : SpokePortBinding) (hPhase : s.phase c = .bind k)
      (hPort : (s.sc c).ports[k]? = some b) (hFree : s.PortFree b.port) :
      ConnMove E s c (.bind (.ok ()))
        ((s.setLoop c k ⟨b.port, b.target, .check, false⟩).goto c (.bind (k + 1)))
  | unbound (k : Nat) (b : SpokePortBinding) (err : String) (hPhase : s.phase c = .bind k)
      (hPort : (s.sc c).ports[k]? = some b) :
      ConnMove E s c (.bind (.error err))
        (s.goto c (.failClose ("listen " ++ toString b.port ++ ": " ++ err)))
  | failClose (err : String) (hPhase : s.phase c = .failClose err) :
      ConnMove E s c .tau ((s.storeClosed c).goto c (.failClear err))
  | failClear (err : String) (hPhase : s.phase c = .failClear err) :
      ConnMove E s c .tau ((s.clearStreams c).goto c (.failCleanup err))
  | failCleanup (err : String) (hPhase : s.phase c = .failCleanup err) :
      ConnMove E s c .tau ((s.cleanupSession (s.idOf c)).goto c (.returned (.error err)))
  | recv (pc : RecvPc) (e : ConnEv) (u : Server) (hPhase : s.phase c = .recv pc)
      (hMove : RecvMove E s c pc e u) : ConnMove E s c e u
  | close (hPhase : s.phase c = .close) : ConnMove E s c .tau ((s.storeClosed c).goto c .clear)
  | clear (hPhase : s.phase c = .clear) : ConnMove E s c .tau ((s.clearStreams c).goto c .cleanup)
  | cleanup (hPhase : s.phase c = .cleanup) :
      ConnMove E s c .tau ((s.cleanupSession (s.idOf c)).goto c .abort)
  | abort (hPhase : s.phase c = .abort) :
      ConnMove E s c .tau { s.goto c .ret with
        loop := Function.update s.loop c fun k => { s.loop c k with aborted := true } }
  | ret (hPhase : s.phase c = .ret) : ConnMove E s c .tau (s.goto c (.returned (.ok ())))

theorem connStep_move {c : ConnId} {e : ConnEv} (h : s.connStep E c e = some t) :
    ConnMove E s c e t := by
  unfold connStep at h
  dsimp only at h
  split at h
  next r hPhase =>
    split at h
    next reason text hFirst => cases h; exact .refused r reason text hPhase hFirst
    next hs sc hFirst => cases h; exact .welcomed r hs sc hPhase hFirst
  next hPhase =>
    split at h
    next old hOld => cases h; exact .found old hPhase hOld
    next hNone => cases h; exact .insert hPhase hNone
  next old hPhase => cases h; exact .closeOld old hPhase
  next old hPhase => cases h; exact .clearOld old hPhase
  next old hPhase => cases h; exact .reinsert old hPhase
  next hPhase => cases h; exact .inc hPhase
  next k hPhase =>
    split at h
    next hLast => cases h; exact .connected k hPhase hLast
    next b hPort => split at h <;> cases h; exact .bound k b hPhase hPort ‹_›
    next b err hPort => cases h; exact .unbound k b err hPhase hPort
    next => cases h
  next err hPhase => cases h; exact .failClose err hPhase
  next err hPhase => cases h; exact .failClear err hPhase
  next err hPhase => cases h; exact .failCleanup err hPhase
  next pc hPhase => exact .recv pc _ t hPhase (recvStep_move h)
  next hPhase => cases h; exact .close hPhase
  next hPhase => cases h; exact .clear hPhase
  next hPhase => cases h; exact .cleanup hPhase
  next hPhase => cases h; exact .abort hPhase
  next hPhase => cases h; exact .ret hPhase
  next => cases h

/-! ## The environment -/

inductive EnvMove (s : Server) : EnvEv → Server → Prop
  | deliver (c : ConnId) (f : ServerFrame) (rest : List ServerFrame)
      (hOut : s.outbox c = f :: rest) : EnvMove s (.deliver c) (s.setOutbox c rest)
  | dropRx (c : ConnId) :
      EnvMove s (.dropRx c) { s with rxOpen := Function.update s.rxOpen c false }
  | peerSend (sid : Nat) (b : Bytes) (hOpen : (s.stream sid).sock.fin = false) :
      EnvMove s (.peerSend sid b) (s.setStream sid { s.stream sid with
        sock := { (s.stream sid).sock with inbox := (s.stream sid).sock.inbox ++ b } })
  | peerClose (sid : Nat) :
      EnvMove s (.peerClose sid) (s.setStream sid { s.stream sid with
        sock := (s.stream sid).sock.peerClose })

theorem envStep_move {e : EnvEv} (h : s.envStep e = some t) : EnvMove s e t := by
  cases e with
  | deliver c =>
    simp only [envStep] at h
    split at h <;> cases h
    next f rest hOut => exact .deliver c f rest hOut
  | dropRx c => cases h; exact .dropRx c
  | peerSend sid b =>
    obtain ⟨k, hk, rfl⟩ := Option.map_eq_some_iff.mp h
    simp only [Socket.peerSend] at hk
    split at hk <;> cases hk
    next hFin => exact .peerSend sid b (Bool.eq_false_iff.mpr hFin)
  | peerClose sid => cases h; exact .peerClose sid

end OpenSpoke.Tunnel.Server
