import OpenSpoke.Tunnel.Stream.HubSide

/-!
# `handle_connection` at the hub end

The steps of the connection handlers, as one stream sees them. A frame that
`recv_loop` takes is the only step that needs the other end.
-/

namespace OpenSpoke.Tunnel

open Lts

structure HubStream.Blank (st : HubStream) : Prop where
  up : st.up = .absent
  down : st.down = .absent
  queue : st.queue = []
  put : st.sock.put = []
  got : st.sock.got = []

structure HubEnd.Blank (h : HubEnd) : Prop where
  st : h.st.Blank
  registered : h.registered = false
  announced : h.announced = false
  entry : h.entry = false
  slot : h.slot = none
  wire : h.wire = []

namespace Server

variable {E : Env} {s t : Server} {c d : ConnId} {sid : Nat} {e : ConnEv}

/-- What the hub ends of a server rely on. -/
structure HubsOk (s : Server) : Prop where
  fresh : FreshConns s
  loops : LoopsOk s
  ids : StreamIds s
  born : ∀ sid, (s.stream sid).Blank ∨ s.Registered (s.stream sid).owner
  undeliver : ∀ c sid, s.phase c = .recv (.undeliver sid) →
    sid ≤ s.nextSid ∧ (s.stream sid).owner = c ∧ (s.stream sid).down = .ended

theorem hubsOk_init : HubsOk init where
  fresh := freshConns_init
  loops := loopsOk_init
  ids := streamIds_init
  born _ := .inl ⟨rfl, rfl, rfl, rfl, rfl⟩
  undeliver c sid h := by simp [init] at h

theorem down_ended_step {a : ServerAct} (hIds : StreamIds s) (h : step E s a = some t)
    (hLe : sid ≤ s.nextSid) (hEnded : (s.stream sid).down = .ended) :
    (t.stream sid).down = .ended := by
  cases a with
  | connect nonce issuedAt => cases h; exact hEnded
  | conn d e =>
    cases connStep_move h with
    | recv pc e t hPhase hMove =>
      cases hMove with
      | delivered sid' payload =>
        by_cases hSid : sid = sid'
        · subst hSid; simpa using hEnded
        · simpa [hSid] using hEnded
      | _ => simpa using hEnded
    | _ => simpa using hEnded
  | loop d k e =>
    cases loopStep_move h with
    | alloc =>
      have hne : sid ≠ s.nextSid + 1 := by omega
      simpa [loopTo, hne] using hEnded
    | spawn sid' hPc =>
      have hHeld := (hIds.held d k sid' (by rw [hPc]; rfl)).2.2.2
      have hne : sid ≠ sid' := fun hEq => by simp [← hEq, hEnded] at hHeld
      simpa [loopTo, hne] using hEnded
    | rollback sid' | cancelHeld sid' =>
      by_cases hSid : sid = sid'
      · subst hSid; simp [loopTo, HubStream.drop]
      · simpa [loopTo, hSid] using hEnded
    | _ => simpa [loopTo] using hEnded
  | up sid' e =>
    by_cases hSid : sid = sid'
    · subst hSid
      cases upStep_move h <;> simpa using hEnded
    · cases upStep_move h <;> simpa [hSid] using hEnded
  | down sid' e =>
    by_cases hSid : sid = sid'
    · subst hSid
      cases downStep_move h <;> simp_all
    · cases downStep_move h <;> simpa [hSid] using hEnded
  | http n e => cases httpStep_move h <;> simpa [taskTo, countTask] using hEnded
  | env e =>
    cases envStep_move h with
    | peerSend sid' | peerClose sid' =>
      by_cases hSid : sid = sid'
      · subst hSid; simpa using hEnded
      · simpa [hSid] using hEnded
    | _ => simpa using hEnded

/-- A stream id is given away by the accept loop of a registered session. -/
theorem blank_step {a : ServerAct} (hFresh : FreshConns s) (hLoops : LoopsOk s) (hIds : StreamIds s)
    (h : step E s a = some t) (hBlank : (s.stream sid).Blank) :
    (t.stream sid).Blank ∨ t.Registered (t.stream sid).owner := by
  obtain ⟨hUp, hDown, hQueue, hPut, hGot⟩ := id hBlank
  have hLoops' := loopsOk_step hFresh hLoops h
  have hHeld : ∀ c k sid', (s.loop c k).pc.sid = some sid' → sid ≠ sid' := by
    rintro c k sid' hSid rfl
    rw [(hIds.held c k sid hSid).2.2.1] at hUp
    cases hUp
  cases a with
  | connect nonce issuedAt => cases h; exact .inl hBlank
  | conn d e =>
    have hReg : s.Registered d → t.Registered d := fun hd => (registered_step hFresh h hd).1
    cases connStep_move h with
    | recv pc e t hPhase hMove =>
      cases hMove with
      | delivered sid' payload =>
        by_cases hSid : sid = sid'
        · subst hSid
          have hOwner := (hIds.deliver d sid payload hPhase).2
          refine .inr ?_
          have hd : s.Registered d := by simp [Registered, hPhase, Phase.stage, Registry.Stage.entered]
          simpa [hOwner] using hReg hd
        · exact .inl (by simpa [hSid] using hBlank)
      | _ => exact .inl (by simpa using hBlank)
    | _ => exact .inl (by simpa using hBlank)
  | loop d k e =>
    cases loopStep_move h with
    | alloc hPc =>
      by_cases hSid : sid = s.nextSid + 1
      · have hReg := hLoops'.registered (c := d) (k := k) (by simp [loopTo])
        exact .inr (by simpa [loopTo, hSid] using hReg)
      · exact .inl (by simpa [loopTo, hSid] using hBlank)
    | spawn sid' hPc | rollback sid' hPc =>
      have hne := hHeld d k sid' (by rw [hPc]; rfl)
      exact .inl (by simpa [loopTo, hne] using hBlank)
    | cancelHeld sid' hAbort hPc =>
      have hne := hHeld d k sid'
        (by rcases hPc with hPc | hPc | hPc <;> rw [hPc] <;> rfl)
      exact .inl (by simpa [loopTo, hne] using hBlank)
    | _ => exact .inl (by simpa [loopTo] using hBlank)
  | up sid' e =>
    by_cases hSid : sid = sid'
    · subst hSid
      cases upStep_move h <;> simp_all
    · exact .inl (by cases upStep_move h <;> simpa [hSid] using hBlank)
  | down sid' e =>
    by_cases hSid : sid = sid'
    · subst hSid
      cases downStep_move h <;> simp_all
    · exact .inl (by cases downStep_move h <;> simpa [hSid] using hBlank)
  | http n e => exact .inl (by cases httpStep_move h <;> simpa [taskTo, countTask] using hBlank)
  | env e =>
    refine .inl ?_
    cases envStep_move h with
    | peerSend sid' | peerClose sid' =>
      by_cases hSid : sid = sid'
      · subst hSid
        simpa using ⟨hUp, hDown, hQueue, hPut, hGot⟩
      · simpa [hSid] using hBlank
    | _ => simpa using hBlank

theorem hubsOk_step {a : ServerAct} (hOk : HubsOk s) (h : step E s a = some t) : HubsOk t := by
  obtain ⟨hFresh, hLoops, hIds, hBorn, hUndeliver⟩ := hOk
  have hLoops' := loopsOk_step hFresh hLoops h
  have hReg : ∀ {d}, s.Registered d → t.Registered d := fun hd => (registered_step hFresh h hd).1
  refine ⟨freshConns_step hFresh h, hLoops', streamIds_step hFresh hLoops hIds h, fun sid => ?_,
    fun c sid hPhase => ?_⟩
  · rcases hBorn sid with hBlank | hOwner
    · exact blank_step hFresh hLoops hIds h hBlank
    · rcases step_keepsIds hIds h with hKeeps | ⟨d, k, hEq⟩
      · exact .inr (hKeeps.owner sid ▸ hReg hOwner)
      · by_cases hSid : sid = s.nextSid + 1
        · have hRegister : (t.loop d k).pc ≠ .absent := by simp [hEq, loopTo]
          have hNew : (t.stream sid).owner = d := by simp [hEq, loopTo, hSid]
          exact .inr (hNew ▸ hLoops'.registered hRegister)
        · have hSame : t.stream sid = s.stream sid := by simp [hEq, loopTo, hSid]
          exact .inr (hSame ▸ hReg hOwner)
  · rcases step_phase h c with ⟨e, rfl, hMove⟩ | ⟨-, -, hSame | ⟨-, hFirst⟩⟩
    · cases hMove with
      | recv pc e t hAt hMove =>
        cases hMove with
        | undelivered sid' payload hRx =>
          obtain rfl : sid' = sid := by simpa using hPhase
          obtain ⟨hLe, hOwner⟩ := hIds.deliver c sid' payload hAt
          exact ⟨hLe, hOwner, hRx⟩
        | unknown | ignored => simp [hAt] at hPhase
        | _ => simp [hAt] at hPhase
      | _ => simp at hPhase
    · obtain ⟨hLe, hOwner, hEnded⟩ := hUndeliver c sid (hSame ▸ hPhase)
      refine ⟨hLe.trans (step_register hIds h).1, ?_, down_ended_step hIds h hLe hEnded⟩
      rcases step_keepsIds hIds h with hKeeps | ⟨d, k, hEq⟩
      · rw [hKeeps.owner, hOwner]
      · have hne : sid ≠ s.nextSid + 1 := by omega
        simp [hEq, loopTo, hne, hOwner]
    · simp [hFirst] at hPhase

/-- What a handler can do to the hub end of a stream of `c` without a frame. -/
def ConnCause (s : Server) (d c : ConnId) : StreamEv → Prop
  | .clear => s.phase d = .clearOld c ∨
      d = c ∧ (s.phase c = .clear ∨ ∃ err, s.phase c = .failClear err)
  | .deliver | .forget => d = c
  | _ => False

theorem hubEnd_goto {u : Server} {p : Phase} (hNext : u.nextSid = s.nextSid)
    (hStream : u.stream = s.stream) (hLoop : ∀ k, (u.loop c k).pc = (s.loop c k).pc)
    (hEntry : sid ∈ (u.session c).streams ↔ sid ∈ (s.session c).streams)
    (hOutbox : (u.outbox c).filterMap (ServerFrame.item sid) =
      (s.outbox c).filterMap (ServerFrame.item sid))
    (hRx : u.rxOpen c = s.rxOpen c) (hPhase : u.phase = s.phase)
    (hSlot : d = c → p.slot sid = (s.phase c).slot sid) :
    (u.goto d p).hubEnd c sid = s.hubEnd c sid := by
  refine hubEnd_congr ?_ (fun k => ?_) ?_ ?_ hOutbox hRx
  · simp only [hubEnd, goto_stream, goto_nextSid, hStream, hNext]
  · rw [goto_loop, hLoop]
    exact ⟨rfl, Iff.rfl⟩
  · rwa [goto_session]
  · by_cases hd : d = c
    · subst hd
      simpa using hSlot rfl
    · rw [goto_phase, hPhase, Function.update_of_ne (Ne.symm hd)]

theorem hubEnd_clear {p : Phase} (o : ConnId) (hSlot : d = c → p.slot sid = (s.phase c).slot sid) :
    ((s.clearStreams o).goto d p).hubEnd c sid =
      if o = c then { s.hubEnd c sid with entry := false } else s.hubEnd c sid := by
  by_cases ho : o = c
  · subst ho
    rw [if_pos rfl]
    ext : 1
    case slot =>
      by_cases hd : d = o
      · subst hd
        simpa [hubEnd] using hSlot rfl
      · simp [hubEnd, Ne.symm hd]
    all_goals simp [hubEnd]
  · rw [if_neg ho]
    exact hubEnd_goto rfl rfl (fun _ => rfl) (by simp [Ne.symm ho]) rfl rfl rfl hSlot

theorem hubEnd_welcomed (hOk : HubsOk s) (hPhase : s.phase d = .recvFirst) (hs : HandshakeResponse)
    (sc : SpokeConfig) :
    ({ (s.setSession d ⟨hs.spokeId, ∅, false⟩).goto d .lookup with
        hs := Function.update s.hs d (some hs), sc := Function.update s.sc d sc } : Server).hubEnd
      c sid = s.hubEnd c sid := by
  have hEntry : d = c → (s.session c).streams = ∅ := by
    rintro rfl
    refine Finset.eq_empty_of_forall_notMem fun sid hIn => ?_
    have hReg := (hOk.ids.entry d sid hIn).2.2
    simp [Registered, hPhase, Phase.stage, Registry.Stage.entered] at hReg
  refine hubEnd_congr rfl (fun _ => ⟨rfl, Iff.rfl⟩) ?_ ?_ rfl rfl
  · by_cases hd : d = c
    · subst hd
      simp [hEntry rfl]
    · simp [Ne.symm hd]
  · by_cases hd : d = c
    · subst hd
      simp [hPhase, Phase.slot]
    · simp [Ne.symm hd]

theorem hubView_goto {u : Server} {p : Phase} (hNext : u.nextSid = s.nextSid)
    (hStream : u.stream = s.stream) (hLoop : ∀ k, (u.loop c k).pc = (s.loop c k).pc)
    (hEntry : (u.session c).streams = (s.session c).streams) (hOutbox : u.outbox = s.outbox)
    (hRx : u.rxOpen c = s.rxOpen c) (hPhase : u.phase = s.phase)
    (hSlot : d = c → p.slot sid = (s.phase c).slot sid) :
    HubView s c sid (u.goto d p) (ConnCause s d c) :=
  .inl (hubEnd_goto hNext hStream hLoop (by rw [hEntry]) (by rw [hOutbox]) hRx hPhase hSlot)

theorem hubView_recvMove {pc : RecvPc} (hOk : HubsOk s) (hPhase : s.phase d = .recv pc)
    (hMove : RecvMove E s d pc e t) (hFrame : ∀ f, e ≠ .frame (some (.ok f))) :
    HubView s c sid t (ConnCause s d c) := by
  cases hMove with
  | ended r hEnd =>
    exact hubView_goto rfl rfl (fun _ => rfl) rfl rfl rfl rfl (by rintro rfl; simp [hPhase, Phase.slot])
  | data f | unknown f | close f | rejectKind f | request f | ignored f => exact absurd rfl (hFrame f)
  | delivered sid' payload hRx hRoom =>
    obtain ⟨hLe, hOwner⟩ := hOk.ids.deliver d sid' payload hPhase
    by_cases hHit : d = c ∧ sid' = sid
    · obtain ⟨rfl, rfl⟩ := hHit
      have hSt : (s.hubEnd d sid').st = s.stream sid' := if_pos ⟨hOwner, hLe⟩
      refine .inr ⟨.deliver, rfl, hubStep_of (.delivered payload ?_ (by rwa [hSt])) ?_⟩
      · simp [hubEnd, hPhase, Phase.slot]
      · ext : 1 <;> simp [hubEnd, hOwner, hLe, Phase.slot]
    · refine .inl (hubEnd_congr ?_ (fun _ => ⟨rfl, Iff.rfl⟩) Iff.rfl ?_ rfl rfl)
      · exact hubEnd_st_of_ne sid' rfl (fun n hn => by simp [hn]) (by simp)
          (hOwner ▸ not_and_or.mp hHit)
      · by_cases hd : d = c
        · subst hd
          have hne : sid' ≠ sid := fun h => hHit ⟨rfl, h⟩
          simp [hPhase, Phase.slot, hne]
        · simp [Ne.symm hd]
  | undelivered sid' payload hRx =>
    obtain ⟨hLe, hOwner⟩ := hOk.ids.deliver d sid' payload hPhase
    by_cases hHit : d = c ∧ sid' = sid
    · obtain ⟨rfl, rfl⟩ := hHit
      have hSt : (s.hubEnd d sid').st = s.stream sid' := if_pos ⟨hOwner, hLe⟩
      refine .inr ⟨.deliver, rfl, hubStep_of (.undelivered payload ?_ (by rwa [hSt])) ?_⟩
      · simp [hubEnd, hPhase, Phase.slot]
      · ext : 1 <;> simp [hubEnd, Phase.slot]
    · exact hubView_goto rfl rfl (fun _ => rfl) rfl rfl rfl rfl (by
        rintro rfl
        have hne : sid' ≠ sid := fun h => hHit ⟨rfl, h⟩
        simp [hPhase, Phase.slot, hne])
  | undeliver sid' =>
    obtain ⟨hLe, hOwner, hEnded⟩ := hOk.undeliver d sid' hPhase
    by_cases hHit : d = c ∧ sid' = sid
    · obtain ⟨rfl, rfl⟩ := hHit
      have hSt : (s.hubEnd d sid').st = s.stream sid' := if_pos ⟨hOwner, hLe⟩
      refine .inr ⟨.forget, rfl, hubStep_of (.forget (by rw [hSt, hEnded])) ?_⟩
      ext : 1 <;> simp [hubEnd, hPhase, Phase.slot, removeStream_streams]
    · refine .inl (hubEnd_goto (by simp) (by simp) (fun _ => by simp) ?_ (by simp) (by simp) (by simp)
        (by rintro rfl; simp [hPhase, Phase.slot]))
      rw [removeStream_streams]
      split
      · next hd =>
        have hne : sid ≠ sid' := fun h => hHit ⟨hd.symm, h.symm⟩
        simp [hd, hne]
      · rfl
  | rejected n hRx =>
    refine .inl (hubEnd_goto rfl rfl (fun _ => rfl) Iff.rfl ?_ rfl rfl
      (by rintro rfl; simp [hPhase, Phase.slot]))
    by_cases hd : c = d
    · subst hd
      simp [ServerFrame.item]
    · simp [hd]
  | unrejected n hRx =>
    exact hubView_goto rfl rfl (fun _ => rfl) rfl rfl rfl rfl (by rintro rfl; simp [hPhase, Phase.slot])

theorem hubView_connMove (hOk : HubsOk s) (hMove : ConnMove E s d e t)
    (hFrame : ∀ f, e ≠ .frame (some (.ok f))) : HubView s c sid t (ConnCause s d c) := by
  cases hMove with
  | refused r reason text hPhase =>
    exact hubView_goto rfl rfl (fun _ => rfl) rfl rfl rfl rfl (by rintro rfl; simp [hPhase, Phase.slot])
  | welcomed r hs sc hPhase hFirst =>
    exact .inl (hubEnd_welcomed hOk hPhase hs sc)
  | recv pc e t hPhase hMove => exact hubView_recvMove hOk hPhase hMove hFrame
  | clearOld old hPhase =>
    rw [HubView, hubEnd_clear old (by rintro rfl; simp [hPhase, Phase.slot])]
    split
    · next ho => exact .inr ⟨.clear, .inl (ho ▸ hPhase), .clear⟩
    · exact .inl rfl
  | failClear err hPhase =>
    rw [HubView, hubEnd_clear d (by rintro rfl; simp [hPhase, Phase.slot])]
    split
    · next hd => exact .inr ⟨.clear, .inr ⟨hd, .inr ⟨err, hd ▸ hPhase⟩⟩, .clear⟩
    · exact .inl rfl
  | clear hPhase =>
    rw [HubView, hubEnd_clear d (by rintro rfl; simp [hPhase, Phase.slot])]
    split
    · next hd => exact .inr ⟨.clear, .inr ⟨hd, .inl (hd ▸ hPhase)⟩, .clear⟩
    · exact .inl rfl
  | abort hPhase =>
    have hLoop : ∀ k, ((Function.update s.loop d fun k => { s.loop d k with aborted := true }) c
        k).pc = (s.loop c k).pc := by
      intro k
      by_cases hd : c = d
      · subst hd; simp
      · simp [hd]
    exact .inl (hubEnd_goto (u := { s with
      loop := Function.update s.loop d fun k => { s.loop d k with aborted := true } }) rfl rfl hLoop
      Iff.rfl rfl rfl rfl (by rintro rfl; simp [hPhase, Phase.slot]))
  | bound k b hPhase hPort =>
    have hNone : (s.loop d k).pc = .absent := by
      by_contra hPc
      have hSpawn := (hOk.loops.owner d k hPc).2.1
      simp [hPhase, Phase.maySpawn] at hSpawn
    refine .inl (hubEnd_congr rfl (fun j => ?_) Iff.rfl ?_ rfl rfl)
    · rw [goto_loop, setLoop_apply]
      split
      · next hHit => simp [hHit.1, hHit.2, hNone, AcceptPc.registered]
      · exact ⟨rfl, Iff.rfl⟩
    · by_cases hd : d = c
      · subst hd
        simp [hPhase, Phase.slot]
      · simp [Ne.symm hd]
  | closeOld old hPhase =>
    refine hubView_goto rfl rfl (fun _ => rfl) ?_ rfl rfl rfl (by rintro rfl; simp [hPhase, Phase.slot])
    by_cases ho : c = old
    · subst ho; simp
    · simp [ho]
  | failClose err hPhase | close hPhase =>
    refine hubView_goto rfl rfl (fun _ => rfl) ?_ rfl rfl rfl (by rintro rfl; simp [hPhase, Phase.slot])
    by_cases hd : c = d
    · subst hd; simp
    · simp [hd]
  | failCleanup err hPhase | cleanup hPhase =>
    exact hubView_goto (by simp) (by simp) (fun _ => by simp) (by simp) (by simp) (by simp) (by simp)
      (by rintro rfl; simp [hPhase, Phase.slot])
  | found old hPhase | insert hPhase | reinsert old hPhase | inc hPhase | connected k hPhase
  | unbound k b err hPhase | ret hPhase =>
    exact hubView_goto rfl rfl (fun _ => rfl) rfl rfl rfl rfl (by rintro rfl; simp [hPhase, Phase.slot])

variable (sid) in
/-- A frame that reaches a handler is taken by the stream it is for; before the
session is registered there is no such stream. -/
theorem hub_frame {f : ClientFrame} (hOk : HubsOk s)
    (hMove : ConnMove E s d (.frame (some (.ok f))) t) :
    (∃ i, d = c ∧ f.item sid = some i ∧ HubRecv (s.hubEnd c sid) i (t.hubEnd c sid)) ∨
      t.hubEnd c sid = s.hubEnd c sid ∧
        (d = c → f.item sid = none ∨ (s.hubEnd c sid).st.up = .absent) := by
  have hUnborn : s.phase d = .recvFirst → d = c → (s.hubEnd c sid).st.up = .absent := by
    rintro hPhase rfl
    simp only [hubEnd]
    split
    · next hOwn =>
      rcases hOk.born sid with hBlank | hReg
      · exact hBlank.up
      · rw [hOwn.1] at hReg
        simp [Registered, hPhase, Phase.stage, Registry.Stage.entered] at hReg
    · rfl
  cases hMove with
  | refused r reason text hPhase =>
    exact .inr ⟨hubEnd_goto rfl rfl (fun _ => rfl) Iff.rfl rfl rfl rfl
      (by rintro rfl; simp [hPhase, Phase.slot]), fun hd => .inr (hUnborn hPhase hd)⟩
  | welcomed r hs sc hPhase hFirst =>
    exact .inr ⟨hubEnd_welcomed hOk hPhase hs sc, fun hd => .inr (hUnborn hPhase hd)⟩
  | recv pc e t hPhase hMove =>
    cases hMove with
    | ended r hEnd => exact absurd rfl (hEnd f)
    | data f payload hKind hEntry =>
      by_cases hHit : d = c ∧ f.streamId = sid
      · obtain ⟨rfl, rfl⟩ := hHit
        refine .inl ⟨.data payload, rfl, by simp [ClientFrame.item, hKind], ?_⟩
        have hRecv := HubRecv.data (h := s.hubEnd d f.streamId) payload (by simpa [hubEnd] using hEntry)
          (by simp [hubEnd, hPhase, Phase.slot])
        convert hRecv using 1
        ext : 1 <;> simp [hubEnd, Phase.slot]
      · refine .inr ⟨hubEnd_goto rfl rfl (fun _ => rfl) Iff.rfl rfl rfl rfl ?_, fun hd => .inl ?_⟩
        · rintro rfl
          have hne : f.streamId ≠ sid := fun h => hHit ⟨rfl, h⟩
          simp [hPhase, Phase.slot, hne]
        · exact if_neg fun h => hHit ⟨hd, h⟩
    | unknown f payload hKind hEntry =>
      by_cases hHit : d = c ∧ f.streamId = sid
      · obtain ⟨rfl, rfl⟩ := hHit
        exact .inl ⟨.data payload, rfl, by simp [ClientFrame.item, hKind],
          .unknown payload (by simpa [hubEnd] using hEntry)⟩
      · exact .inr ⟨rfl, fun hd => .inl (if_neg fun h => hHit ⟨hd, h⟩)⟩
    | close f half reason hKind =>
      by_cases hHit : d = c ∧ f.streamId = sid
      · obtain ⟨rfl, rfl⟩ := hHit
        refine .inl ⟨.eof, rfl, by simp [ClientFrame.item, hKind], ?_⟩
        convert HubRecv.eof (h := s.hubEnd d f.streamId) using 1
        ext : 1 <;> simp [hubEnd, removeStream_streams]
      · refine .inr ⟨hubEnd_congr (by simp [hubEnd]) (fun _ => by simp) ?_ (by simp) (by simp) (by simp),
          fun hd => .inl (if_neg fun h => hHit ⟨hd, h⟩)⟩
        rw [removeStream_streams]
        split
        · next hd =>
          have hne : sid ≠ f.streamId := fun h => hHit ⟨hd.symm, h.symm⟩
          simp [hd, hne]
        · rfl
    | rejectKind f req hKind =>
      exact .inr ⟨hubEnd_goto rfl rfl (fun _ => rfl) Iff.rfl rfl rfl rfl
        (by rintro rfl; simp [hPhase, Phase.slot]), fun _ => .inl (by simp [ClientFrame.item, hKind])⟩
    | request f req hKind =>
      exact .inr ⟨rfl, fun _ => .inl (by simp [ClientFrame.item, hKind])⟩
    | ignored f hKind =>
      refine .inr ⟨rfl, fun _ => .inl ?_⟩
      rcases hKind with ⟨n, hKind⟩ | ⟨hs, hKind⟩ | hKind <;> simp [ClientFrame.item, hKind]

theorem hubEnd_httpMove {n : Nat} {e : HttpEv} (hMove : HttpMove E s n e t) :
    t.hubEnd c sid = s.hubEnd c sid := by
  cases hMove with
  | replied resp hPc hRx =>
    refine hubEnd_congr rfl (fun _ => ⟨rfl, Iff.rfl⟩) Iff.rfl rfl ?_ rfl
    by_cases hc : c = (s.task n).conn
    · simp [hc, ServerFrame.item]
    · simp [hc]
  | _ => exact hubEnd_congr rfl (fun _ => ⟨rfl, Iff.rfl⟩) Iff.rfl rfl rfl rfl

/-- What the world can do to the hub end of a stream. -/
def EnvCause (c : ConnId) (sid : Nat) : EnvEv → StreamEv → Prop
  | .peerSend sid' b, .hubPeer (some b') => sid' = sid ∧ b' = b
  | .peerClose sid', .hubPeer none => sid' = sid
  | .dropRx d, .dropRx => d = c
  | _, _ => False

variable (sid) in
theorem hubView_envMove {e : EnvEv} (hMove : EnvMove s e t) (hDeliver : e ≠ .deliver c) :
    HubView s c sid t (EnvCause c sid e) := by
  have hPeer : ∀ (sid' : Nat) (e' : Option Bytes) (hFin : e'.isSome = true →
      (s.stream sid').sock.fin = false), (sid' = sid → EnvCause c sid e (.hubPeer e')) →
      HubView s c sid (s.setStream sid' { s.stream sid' with sock := (s.stream sid').sock.peer e' })
        (EnvCause c sid e) := by
    intro sid' e' hFin hCause
    by_cases hHit : sid' = sid ∧ (s.stream sid).owner = c ∧ sid ≤ s.nextSid
    · obtain ⟨rfl, hOwn⟩ := hHit
      have hSt : (s.hubEnd c sid').st = s.stream sid' := if_pos hOwn
      refine .inr ⟨.hubPeer e', hCause rfl, hubStep_of (.peer e' (by rwa [hSt])) ?_⟩
      ext : 1 <;> simp [hubEnd, hOwn]
    · refine .inl (hubEnd_congr ?_ (fun _ => ⟨rfl, Iff.rfl⟩) Iff.rfl rfl rfl rfl)
      by_cases hSid : sid' = sid
      · subst hSid
        have hOwn : ¬((s.stream sid').owner = c ∧ sid' ≤ s.nextSid) := fun h => hHit ⟨rfl, h⟩
        simp [hubEnd, hOwn]
      · simp [hubEnd, Ne.symm hSid]
  cases hMove with
  | deliver d f rest hOut =>
    have hd : c ≠ d := fun h => hDeliver (h ▸ rfl)
    exact .inl (hubEnd_congr rfl (fun _ => ⟨rfl, Iff.rfl⟩) Iff.rfl rfl (by simp [hd]) rfl)
  | dropRx d =>
    by_cases hd : c = d
    · subst hd
      refine .inr ⟨.dropRx, rfl, hubStep_of .dropRx ?_⟩
      ext : 1 <;> simp [hubEnd]
    · exact .inl (hubEnd_congr rfl (fun _ => ⟨rfl, Iff.rfl⟩) Iff.rfl rfl rfl (by simp [hd]))
  | peerSend sid' b hOpen => exact hPeer sid' (some b) (fun _ => hOpen) fun h => ⟨h, rfl⟩
  | peerClose sid' => exact hPeer sid' none (by simp) fun h => h

variable (sid) in
theorem hubEnd_deliver {f : ServerFrame} {rest : List ServerFrame} (h : s.outbox c = f :: rest) :
    s.hubEnd c sid = { (s.setOutbox c rest).hubEnd c sid with
      wire := (f.item sid).toList ++ ((s.setOutbox c rest).hubEnd c sid).wire } := by
  ext : 1
  case wire =>
    cases hItem : f.item sid <;> simp [hubEnd, h, hItem]
  all_goals simp [hubEnd]

/-! ## A new call -/

theorem hubEnd_connect {nonce : Bytes} {issuedAt : Int} (hc : c ≠ s.nextConn) :
    (s.connect nonce issuedAt).hubEnd c sid = s.hubEnd c sid :=
  hubEnd_congr rfl (fun _ => ⟨rfl, Iff.rfl⟩) Iff.rfl (by simp [connect, hc]) (by simp [connect, hc])
    (by simp [connect, hc])

theorem blank_connect (hOk : HubsOk s) {nonce : Bytes} {issuedAt : Int} :
    ((s.connect nonce issuedAt).hubEnd s.nextConn sid).Blank := by
  have hLoop : ∀ k, (s.loop s.nextConn k).pc = .absent := fun k => by
    by_contra hPc
    exact Nat.lt_irrefl _ (hOk.loops.owner _ k hPc).1
  have hReg : ¬s.Registered s.nextConn := fun h => Nat.lt_irrefl _ (registered_lt hOk.fresh h)
  refine ⟨?_, ?_, ?_, ?_, ?_, ?_⟩
  · by_cases hOwn : (s.stream sid).owner = s.nextConn ∧ sid ≤ s.nextSid
    · have hSt : ((s.connect nonce issuedAt).hubEnd s.nextConn sid).st = s.stream sid := if_pos hOwn
      rw [hSt]
      exact (hOk.born sid).resolve_right fun hOwner => hReg (hOwn.1 ▸ hOwner)
    · have hSt : ((s.connect nonce issuedAt).hubEnd s.nextConn sid).st =
        ⟨s.nextConn, .fresh, .absent, .absent, []⟩ := if_neg hOwn
      rw [hSt]
      exact ⟨rfl, rfl, rfl, rfl, rfl⟩
  · simp [hubEnd, connect, hLoop, AcceptPc.registered]
  · simp [hubEnd, connect, hLoop]
  · have hNone : sid ∉ (s.session s.nextConn).streams := fun h => hReg (hOk.ids.entry _ sid h).2.2
    simp [hubEnd, connect, hNone]
  · simp [hubEnd, connect, Phase.slot]
  · simp [hubEnd, connect, ServerFrame.item]

end Server

end OpenSpoke.Tunnel
