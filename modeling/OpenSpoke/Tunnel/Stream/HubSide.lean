import OpenSpoke.Tunnel.Server.Outbox
import OpenSpoke.Tunnel.Server.StreamIds
import OpenSpoke.Tunnel.Stream.Ends

/-!
# The hub end in the server

Every step of the server is a step of the hub end of a stream, or leaves it as
it was.
-/

namespace OpenSpoke.Tunnel

open Lts

/-- What a frame carries for stream `sid`. -/
def ServerFrame.item (sid : Nat) (f : ServerFrame) : Option StreamItem :=
  if f.streamId = sid then
    match f.kind with
    | some (.openStream _ _) => some .opn
    | some (.data payload) => some (.data payload)
    | some (.close _ _) => some .eof
    | _ => none
  else none

def ClientFrame.item (sid : Nat) (f : ClientFrame) : Option StreamItem :=
  if f.streamId = sid then
    match f.kind with
    | some (.data payload) => some (.data payload)
    | some (.close _ _) => some .eof
    | _ => none
  else none

/-- The accept loop has registered `sid` and not announced it. -/
def AcceptPc.registered (sid : Nat) : AcceptPc → Bool
  | .inc sid' | .sendOpen sid' | .rollback sid' => sid' = sid
  | _ => false

/-- The payload about to be delivered to `sid`. -/
def Phase.slot (sid : Nat) : Phase → Option Bytes
  | .recv (.deliver sid' payload) => if sid' = sid then some payload else none
  | _ => none

namespace Server

open Classical in
/-- The hub end of stream `sid` of session `c`; ids of other sessions are unborn here. -/
noncomputable def hubEnd (s : Server) (c : ConnId) (sid : Nat) : HubEnd where
  st := if (s.stream sid).owner = c ∧ sid ≤ s.nextSid then s.stream sid
    else ⟨c, .fresh, .absent, .absent, []⟩
  registered := decide (∃ k, (s.loop c k).pc.registered sid = true)
  announced := decide (∃ k, (s.loop c k).pc = .spawn sid)
  entry := sid ∈ (s.session c).streams
  slot := (s.phase c).slot sid
  wire := (s.outbox c).filterMap (ServerFrame.item sid)
  rx := s.rxOpen c

/-- The loop that has the id says how far the stream is. -/
theorem hubEnd_held {s : Server} (hIds : StreamIds s) (c : ConnId) (k sid : Nat)
    (hHeld : (s.loop c k).pc.sid = some sid) :
    (s.hubEnd c sid).registered = (s.loop c k).pc.registered sid ∧
      (s.hubEnd c sid).announced = decide ((s.loop c k).pc = .spawn sid) ∧
      (s.hubEnd c sid).st = s.stream sid ∧ (s.stream sid).up = .held := by
  obtain ⟨hLe, hOwner, hUp, -⟩ := hIds.held c k sid hHeld
  have hReg : ∀ {pc : AcceptPc}, pc.registered sid = true → pc.sid = some sid := by
    intro pc h
    cases pc <;> simp_all [AcceptPc.registered, AcceptPc.sid]
  refine ⟨?_, ?_, if_pos ⟨hOwner, hLe⟩, hUp⟩
  · rw [Bool.eq_iff_iff]
    simp only [hubEnd, decide_eq_true_eq]
    refine ⟨?_, fun h => ⟨k, h⟩⟩
    rintro ⟨j, hj⟩
    rwa [← (hIds.unique c j c k sid (hReg hj) hHeld).2]
  · simp only [hubEnd, decide_eq_decide]
    refine ⟨?_, fun h => ⟨k, h⟩⟩
    rintro ⟨j, hj⟩
    rwa [← (hIds.unique c j c k sid (by rw [hj]; rfl) hHeld).2]

theorem hubEnd_unheld {s : Server} (hIds : StreamIds s) (c : ConnId) (sid : Nat)
    (hUp : (s.stream sid).up ≠ .held) :
    (s.hubEnd c sid).registered = false ∧ (s.hubEnd c sid).announced = false := by
  have hReg : ∀ {pc : AcceptPc}, pc.registered sid = true → pc.sid = some sid := by
    intro pc h
    cases pc <;> simp_all [AcceptPc.registered, AcceptPc.sid]
  simp only [hubEnd, decide_eq_false_iff_not]
  refine ⟨?_, ?_⟩
  · rintro ⟨k, hk⟩
    exact hUp (hIds.held c k sid (hReg hk)).2.2.1
  · rintro ⟨k, hk⟩
    exact hUp (hIds.held c k sid (by rw [hk]; rfl)).2.2.1

theorem hubEnd_congr {s t : Server} {c : ConnId} {sid : Nat}
    (hStream : (t.hubEnd c sid).st = (s.hubEnd c sid).st)
    (hLoop : ∀ k, (t.loop c k).pc.registered sid = (s.loop c k).pc.registered sid ∧
      ((t.loop c k).pc = .spawn sid ↔ (s.loop c k).pc = .spawn sid))
    (hEntry : sid ∈ (t.session c).streams ↔ sid ∈ (s.session c).streams)
    (hSlot : (t.phase c).slot sid = (s.phase c).slot sid)
    (hWire : (t.outbox c).filterMap (ServerFrame.item sid) =
      (s.outbox c).filterMap (ServerFrame.item sid))
    (hRx : t.rxOpen c = s.rxOpen c) : t.hubEnd c sid = s.hubEnd c sid := by
  ext : 1
  case st => exact hStream
  case registered =>
    simp only [hubEnd, decide_eq_decide]
    exact exists_congr fun k => by rw [(hLoop k).1]
  case announced =>
    simp only [hubEnd, decide_eq_decide]
    exact exists_congr fun k => (hLoop k).2
  case entry => simp only [hubEnd, hEntry]
  case slot => exact hSlot
  case wire => exact hWire
  case rx => exact hRx

/-- What a step of the server means for one stream. -/
def HubView (s : Server) (c : ConnId) (sid : Nat) (t : Server) (cause : StreamEv → Prop) : Prop :=
  t.hubEnd c sid = s.hubEnd c sid ∨ ∃ e, cause e ∧ HubStep (s.hubEnd c sid) e (t.hubEnd c sid)

/-- The events an accept loop can cause. -/
def LoopCause (s : Server) (c : ConnId) (k : Nat) : StreamEv → Prop
  | .born | .register | .announce | .spawn => True
  | .dropHeld => (s.loop c k).aborted = true ∨ ∃ sid, (s.loop c k).pc = .rollback sid
  | _ => False

theorem hubEnd_loopTo {s u : Server} {c d : ConnId} {k sid : Nat} {pc : AcceptPc}
    (hu : u.hubEnd c sid = s.hubEnd c sid) (hLoop : u.loop = s.loop)
    (hOther : d = c → ((s.loop d k).pc.sid ≠ some sid ∧ pc.sid ≠ some sid) ∨
      ∃ sid', (s.loop d k).pc = .inc sid' ∧ pc = .sendOpen sid' ∨
        (s.loop d k).pc = .sendOpen sid' ∧ pc = .rollback sid') :
    (u.loopTo d k pc).hubEnd c sid = s.hubEnd c sid := by
  rw [← hu]
  refine hubEnd_congr rfl (fun j => ?_) Iff.rfl rfl rfl rfl
  rw [loopTo, setLoop_apply]
  split
  · next hHit =>
    obtain ⟨rfl, rfl⟩ := hHit
    have hReg : ∀ {pc : AcceptPc}, pc.sid ≠ some sid → pc.registered sid = false ∧ pc ≠ .spawn sid := by
      intro pc h
      cases pc <;> simp_all [AcceptPc.registered, AcceptPc.sid]
    simp only [hLoop]
    rcases hOther rfl with ⟨hs, ht⟩ | ⟨sid', ⟨hs, ht⟩ | ⟨hs, ht⟩⟩
    · simp [hReg hs, hReg ht]
    · simp [hs, ht, AcceptPc.registered]
    · simp [hs, ht, AcceptPc.registered]
  · simp

theorem hubEnd_st_of_ne {s t : Server} {c : ConnId} {sid : Nat} (sid' : Nat)
    (hNext : t.nextSid = s.nextSid)
    (hStream : ∀ n, n ≠ sid' → t.stream n = s.stream n)
    (hOwner : (t.stream sid').owner = (s.stream sid').owner)
    (hOther : (s.stream sid').owner ≠ c ∨ sid' ≠ sid) :
    (t.hubEnd c sid).st = (s.hubEnd c sid).st := by
  by_cases hSid : sid = sid'
  · subst hSid
    have hne := hOther.resolve_right (fun h => h rfl)
    simp [hubEnd, hOwner, hne]
  · simp only [hubEnd, hNext, hStream sid hSid]

theorem hubEnd_apart {s u : Server} {c d : ConnId} {k sid sid' : Nat} {pc : AcceptPc}
    (hIds : StreamIds s) (hHeld : (s.loop d k).pc.sid = some sid')
    (hPc : ∀ n, pc.sid = some n → n = sid') (hApart : ¬(d = c ∧ sid' = sid))
    (hLoop : u.loop = s.loop) (hNext : u.nextSid = s.nextSid)
    (hStream : ∀ n, n ≠ sid' → u.stream n = s.stream n)
    (hOwner : (u.stream sid').owner = (s.stream sid').owner)
    (hEntry : c ≠ d ∨ sid ≠ sid' → (sid ∈ (u.session c).streams ↔ sid ∈ (s.session c).streams))
    (hSlot : (u.phase c).slot sid = (s.phase c).slot sid)
    (hWire : c ≠ d ∨ sid ≠ sid' → (u.outbox c).filterMap (ServerFrame.item sid) =
      (s.outbox c).filterMap (ServerFrame.item sid))
    (hRx : u.rxOpen c = s.rxOpen c) : (u.loopTo d k pc).hubEnd c sid = s.hubEnd c sid := by
  have hOther : c ≠ d ∨ sid ≠ sid' :=
    (not_and_or.mp hApart).imp Ne.symm Ne.symm
  refine hubEnd_loopTo ?_ hLoop fun hd => .inl ?_
  · refine hubEnd_congr ?_ (fun j => by rw [hLoop]; exact ⟨rfl, Iff.rfl⟩) (hEntry hOther) hSlot
      (hWire hOther) hRx
    refine hubEnd_st_of_ne sid' hNext hStream hOwner ?_
    rw [(hIds.held d k sid' hHeld).2.1]
    exact not_and_or.mp hApart
  · have hne : sid' ≠ sid := fun h => hApart ⟨hd, h⟩
    refine ⟨?_, fun h => hne (hPc sid h).symm⟩
    rw [hHeld]
    exact fun h => hne (Option.some.inj h)

section Loops

variable {s : Server} {c d : ConnId} {k sid sid' : Nat}

theorem hubView_alloc (hIds : StreamIds s) (hPc : (s.loop d k).pc = .alloc)
    (hIds' : StreamIds { (s.setStream (s.nextSid + 1) ⟨d, .fresh, .held, .held, []⟩).loopTo d k
      (.register (s.nextSid + 1)) with nextSid := s.nextSid + 1 }) :
    HubView s c sid { (s.setStream (s.nextSid + 1) ⟨d, .fresh, .held, .held, []⟩).loopTo d k
      (.register (s.nextSid + 1)) with nextSid := s.nextSid + 1 } (LoopCause s d k) := by
  by_cases hHit : d = c ∧ sid = s.nextSid + 1
  · obtain ⟨rfl, rfl⟩ := hHit
    obtain ⟨hUp, hDown⟩ := hIds.unborn (s.nextSid + 1) (Nat.lt_succ_self _)
    obtain ⟨hReg, hAnn⟩ := hubEnd_unheld hIds d (s.nextSid + 1) (by rw [hUp]; simp)
    obtain ⟨hReg', hAnn', hSt', -⟩ := hubEnd_held hIds' d k (s.nextSid + 1)
      (by simp [loopTo, AcceptPc.sid])
    have hSt : (s.hubEnd d (s.nextSid + 1)).st = ⟨d, .fresh, .absent, .absent, []⟩ :=
      if_neg fun h => Nat.not_succ_le_self _ h.2
    refine .inr ⟨.born, trivial, ?_⟩
    convert HubStep.born d (by rw [hSt]) (by rw [hSt]) using 1
    ext : 1
    · rw [hSt']; simp [loopTo]
    · rw [hReg', hReg]; simp [loopTo, AcceptPc.registered]
    · rw [hAnn', hAnn]; simp [loopTo]
    · rfl
    · rfl
    · rfl
    · rfl
  · change HubView s c sid (Server.loopTo { s.setStream (s.nextSid + 1) ⟨d, .fresh, .held, .held, []⟩
      with nextSid := s.nextSid + 1 } d k (.register (s.nextSid + 1))) _
    refine .inl (hubEnd_loopTo ?_ rfl fun hd => .inl ?_)
    · refine hubEnd_congr ?_ (fun j => ⟨rfl, Iff.rfl⟩) Iff.rfl rfl rfl rfl
      by_cases hSid : sid = s.nextSid + 1
      · subst hSid
        have hd : d ≠ c := fun hd => hHit ⟨hd, rfl⟩
        simp [hubEnd, hd]
      · have hLe : sid ≤ s.nextSid + 1 ↔ sid ≤ s.nextSid := by omega
        simp [hubEnd, hSid, hLe]
    · have hSid : s.nextSid + 1 ≠ sid := fun h => hHit ⟨hd, h.symm⟩
      simp [hPc, AcceptPc.sid, hSid]

theorem hubView_register (hIds : StreamIds s) (hPc : (s.loop d k).pc = .register sid')
    (hIds' : StreamIds ((s.addStream d sid').loopTo d k (.inc sid'))) :
    HubView s c sid ((s.addStream d sid').loopTo d k (.inc sid')) (LoopCause s d k) := by
  by_cases hHit : d = c ∧ sid' = sid
  · obtain ⟨rfl, rfl⟩ := hHit
    obtain ⟨hReg, hAnn, hSt, hUp⟩ := hubEnd_held hIds d k sid' (by rw [hPc]; rfl)
    obtain ⟨hReg', hAnn', hSt', -⟩ := hubEnd_held hIds' d k sid'
      (by simp [loopTo, AcceptPc.sid])
    refine .inr ⟨.register, trivial, ?_⟩
    convert HubStep.register (hSt ▸ hUp) (by rw [hAnn, hPc]; rfl) using 1
    ext : 1
    · rw [hSt', hSt]; rfl
    · rw [hReg']; simp [loopTo, AcceptPc.registered]
    · rw [hAnn', hAnn, hPc]; simp [loopTo]
    · simp [hubEnd, loopTo]
    · rfl
    · rfl
    · rfl
  · refine .inl (hubEnd_apart hIds (by rw [hPc]; rfl) (by simp [AcceptPc.sid]) hHit rfl rfl
      (fun n _ => rfl) rfl (fun hOther => ?_) rfl (fun _ => rfl) rfl)
    by_cases hd : c = d
    · simp [hd, hOther.resolve_left (not_not_intro hd)]
    · simp [hd]

theorem hubView_opened {target : String} (hIds : StreamIds s)
    (hPc : (s.loop d k).pc = .sendOpen sid') (hRx : s.rxOpen d = true)
    (hIds' : StreamIds ((s.setOutbox d
      (s.outbox d ++ [⟨sid', some (.openStream "tcp" target)⟩])).loopTo d k (.spawn sid'))) :
    HubView s c sid ((s.setOutbox d
      (s.outbox d ++ [⟨sid', some (.openStream "tcp" target)⟩])).loopTo d k (.spawn sid'))
      (LoopCause s d k) := by
  by_cases hHit : d = c ∧ sid' = sid
  · obtain ⟨rfl, rfl⟩ := hHit
    obtain ⟨hReg, hAnn, hSt, hUp⟩ := hubEnd_held hIds d k sid' (by rw [hPc]; rfl)
    obtain ⟨hReg', hAnn', hSt', -⟩ := hubEnd_held hIds' d k sid'
      (by simp [loopTo, AcceptPc.sid])
    refine .inr ⟨.announce, trivial, ?_⟩
    convert HubStep.announce (hSt ▸ hUp) (by rw [hAnn, hPc]; rfl)
      (by rw [hReg, hPc]; simp [AcceptPc.registered]) hRx using 1
    ext : 1
    · rw [hSt', hSt]; rfl
    · rw [hReg']; simp [loopTo, AcceptPc.registered]
    · rw [hAnn']; simp [loopTo]
    · rfl
    · rfl
    · simp [hubEnd, loopTo, ServerFrame.item]
    · rfl
  · refine .inl (hubEnd_apart hIds (by rw [hPc]; rfl) (by simp [AcceptPc.sid]) hHit rfl rfl
      (fun n _ => rfl) rfl (fun _ => Iff.rfl) rfl (fun hOther => ?_) rfl)
    by_cases hd : c = d
    · simp [hd, ServerFrame.item, (hOther.resolve_left (not_not_intro hd)).symm]
    · simp [hd]

theorem hubView_rollback (hIds : StreamIds s) (hPc : (s.loop d k).pc = .rollback sid')
    (hIds' : StreamIds ((((s.eraseStream d sid').decStreams d).setStream sid'
      (s.stream sid').drop).loopTo d k .check)) :
    HubView s c sid ((((s.eraseStream d sid').decStreams d).setStream sid'
      (s.stream sid').drop).loopTo d k .check) (LoopCause s d k) := by
  obtain ⟨hLe, hOwner, hHeld, -⟩ := hIds.held d k sid' (by rw [hPc]; rfl)
  by_cases hHit : d = c ∧ sid' = sid
  · obtain ⟨rfl, rfl⟩ := hHit
    obtain ⟨hReg, hAnn, hSt, hUp⟩ := hubEnd_held hIds d k sid' (by rw [hPc]; rfl)
    obtain ⟨hReg', hAnn'⟩ := hubEnd_unheld hIds' d sid' (by simp [loopTo, HubStream.drop])
    refine .inr ⟨.dropHeld, .inr ⟨sid', hPc⟩, ?_⟩
    convert HubStep.dropHeld false (hSt ▸ hUp) (by rw [hAnn, hPc]; rfl) (by simp) using 1
    ext : 1
    · rw [hSt]; simp [hubEnd, loopTo, HubStream.drop, hOwner, hLe]
    · rw [hReg']
    · rw [hAnn', hAnn, hPc]; simp
    · simp [hubEnd, loopTo]
    · rfl
    · rfl
    · rfl
  · refine .inl (hubEnd_apart hIds (by rw [hPc]; rfl) (by simp [AcceptPc.sid]) hHit rfl rfl
      (fun n hn => by simp [hn]) (by simp [HubStream.drop]) (fun hOther => ?_) rfl
      (fun _ => rfl) rfl)
    by_cases hd : c = d
    · simp [hd, hOther.resolve_left (not_not_intro hd)]
    · simp [hd]

theorem hubView_spawn (hIds : StreamIds s) (hPc : (s.loop d k).pc = .spawn sid')
    (hIds' : StreamIds ((s.setStream sid'
      { s.stream sid' with up := .read, down := .recv }).loopTo d k .check)) :
    HubView s c sid ((s.setStream sid'
      { s.stream sid' with up := .read, down := .recv }).loopTo d k .check) (LoopCause s d k) := by
  obtain ⟨hLe, hOwner, hHeld, -⟩ := hIds.held d k sid' (by rw [hPc]; rfl)
  by_cases hHit : d = c ∧ sid' = sid
  · obtain ⟨rfl, rfl⟩ := hHit
    obtain ⟨hReg, hAnn, hSt, hUp⟩ := hubEnd_held hIds d k sid' (by rw [hPc]; rfl)
    obtain ⟨hReg', hAnn'⟩ := hubEnd_unheld hIds' d sid' (by simp [loopTo])
    refine .inr ⟨.spawn, trivial, ?_⟩
    convert HubStep.spawn (hSt ▸ hUp) (by rw [hAnn, hPc]; simp) using 1
    ext : 1
    · rw [hSt]; simp [hubEnd, loopTo, hOwner, hLe]
    · rw [hReg', hReg, hPc]; rfl
    · rw [hAnn']
    · rfl
    · rfl
    · rfl
    · rfl
  · exact .inl (hubEnd_apart hIds (by rw [hPc]; rfl) (by simp [AcceptPc.sid]) hHit rfl rfl
      (fun n hn => by simp [hn]) (by simp) (fun _ => Iff.rfl) rfl (fun _ => rfl) rfl)

theorem hubView_cancelHeld (hIds : StreamIds s) (hAbort : (s.loop d k).aborted = true)
    (hPc : (s.loop d k).pc = .register sid' ∨ (s.loop d k).pc = .sendOpen sid' ∨
      (s.loop d k).pc = .rollback sid')
    (hIds' : StreamIds ((s.setStream sid' (s.stream sid').drop).loopTo d k .ended)) :
    HubView s c sid ((s.setStream sid' (s.stream sid').drop).loopTo d k .ended)
      (LoopCause s d k) := by
  have hSid : (s.loop d k).pc.sid = some sid' := by rcases hPc with hPc | hPc | hPc <;> rw [hPc] <;> rfl
  have hNotSpawn : (s.loop d k).pc ≠ .spawn sid' := by
    rcases hPc with hPc | hPc | hPc <;> simp [hPc]
  obtain ⟨hLe, hOwner, hHeld, -⟩ := hIds.held d k sid' hSid
  by_cases hHit : d = c ∧ sid' = sid
  · obtain ⟨rfl, rfl⟩ := hHit
    obtain ⟨hReg, hAnn, hSt, hUp⟩ := hubEnd_held hIds d k sid' hSid
    obtain ⟨hReg', hAnn'⟩ := hubEnd_unheld hIds' d sid' (by simp [loopTo, HubStream.drop])
    refine .inr ⟨.dropHeld, .inl hAbort, ?_⟩
    convert HubStep.dropHeld (s.hubEnd d sid').entry (hSt ▸ hUp) (by rw [hAnn]; simp [hNotSpawn]) id
      using 1
    ext : 1
    · rw [hSt]; simp [hubEnd, loopTo, HubStream.drop, hOwner, hLe]
    · rw [hReg']
    · rw [hAnn', hAnn]; simp [hNotSpawn]
    · rfl
    · rfl
    · rfl
    · rfl
  · exact .inl (hubEnd_apart hIds hSid (by simp [AcceptPc.sid]) hHit rfl rfl
      (fun n hn => by simp [hn]) (by simp [HubStream.drop]) (fun _ => Iff.rfl) rfl
      (fun _ => rfl) rfl)

end Loops

theorem hubView_loopMove {E : Env} {s t : Server} {c d : ConnId} {k sid : Nat} {e : LoopEv}
    (hIds : StreamIds s) (hIds' : StreamIds t) (hMove : LoopMove E s d k e t) :
    HubView s c sid t (LoopCause s d k) := by
  cases hMove with
  | stop hPc | await hPc | failed err hPc | accepted hPc =>
    exact .inl (hubEnd_loopTo rfl rfl fun _ => .inl (by simp [hPc, AcceptPc.sid]))
  | cancel hAbort hPc =>
    refine .inl (hubEnd_loopTo rfl rfl fun _ => .inl ?_)
    rcases hPc with hPc | hPc <;> simp [hPc, AcceptPc.sid]
  | inc sid' hPc =>
    exact .inl (hubEnd_loopTo rfl rfl fun _ => .inr ⟨sid', .inl ⟨hPc, rfl⟩⟩)
  | unopened sid' hPc =>
    exact .inl (hubEnd_loopTo rfl rfl fun _ => .inr ⟨sid', .inr ⟨hPc, rfl⟩⟩)
  | alloc hPc => exact hubView_alloc hIds hPc hIds'
  | register sid' hPc => exact hubView_register hIds hPc hIds'
  | opened sid' hPc hRx => exact hubView_opened hIds hPc hRx hIds'
  | rollback sid' hPc => exact hubView_rollback hIds hPc hIds'
  | spawn sid' hPc => exact hubView_spawn hIds hPc hIds'
  | cancelHeld sid' hAbort hPc => exact hubView_cancelHeld hIds hAbort hPc hIds'

/-- A step of a stream's own tasks: the loops, the phases and other streams stay. -/
theorem hubEnd_own {s t : Server} {c : ConnId} {sid : Nat}
    (hNext : t.nextSid = s.nextSid) (hLoop : t.loop = s.loop) (hPhase : t.phase = s.phase)
    (hRx : t.rxOpen = s.rxOpen) (hLe : sid ≤ s.nextSid) (hOwner : (t.stream sid).owner = c)
    {h : HubEnd} (hSt : t.stream sid = h.st)
    (hKept : h.registered = (s.hubEnd c sid).registered ∧ h.announced = (s.hubEnd c sid).announced ∧
      h.slot = (s.hubEnd c sid).slot ∧ h.rx = (s.hubEnd c sid).rx)
    (hEntry : decide (sid ∈ (t.session c).streams) = h.entry)
    (hWire : (t.outbox c).filterMap (ServerFrame.item sid) = h.wire) : t.hubEnd c sid = h := by
  obtain ⟨hReg, hAnn, hSlot, hRx'⟩ := hKept
  ext : 1
  · show (if _ then _ else _) = h.st
    rw [if_pos ⟨hOwner, by rw [hNext]; exact hLe⟩, hSt]
  · rw [hReg]
    simp only [hubEnd, decide_eq_decide]
    rw [hLoop]
  · rw [hAnn]
    simp only [hubEnd, decide_eq_decide]
    rw [hLoop]
  · exact hEntry
  · rw [hSlot]
    simp only [hubEnd, hPhase]
  · exact hWire
  · rw [hRx']
    simp only [hubEnd, hRx]

theorem hubStep_of {h h' x : HubEnd} {e : StreamEv} (hStep : HubStep h e h') (hx : x = h') :
    HubStep h e x := hx ▸ hStep

theorem hubEnd_foreign {s t : Server} {c : ConnId} {sid sid' : Nat} (hNext : t.nextSid = s.nextSid)
    (hStream : ∀ n, n ≠ sid' → t.stream n = s.stream n)
    (hOwner : (t.stream sid').owner = (s.stream sid').owner)
    (hOther : (s.stream sid').owner ≠ c ∨ sid' ≠ sid) (hLoop : t.loop = s.loop)
    (hPhase : t.phase = s.phase) (hRx : t.rxOpen = s.rxOpen)
    (hEntry : sid ∈ (t.session c).streams ↔ sid ∈ (s.session c).streams)
    (hWire : (t.outbox c).filterMap (ServerFrame.item sid) =
      (s.outbox c).filterMap (ServerFrame.item sid)) : t.hubEnd c sid = s.hubEnd c sid :=
  hubEnd_congr (hubEnd_st_of_ne sid' hNext hStream hOwner hOther)
    (fun k => by rw [hLoop]; exact ⟨rfl, Iff.rfl⟩) hEntry (by rw [hPhase]) hWire (by rw [hRx])

theorem hubView_upMove {E : Env} {s t : Server} {c : ConnId} {sid sid' : Nat} {e : UpEv}
    (hIds : StreamIds s) (hMove : UpMove E s sid' e t) :
    HubView s c sid t fun b => sid' = sid ∧ b = .up e := by
  by_cases hHit : (s.stream sid').owner = c ∧ sid' = sid
  · obtain ⟨rfl, rfl⟩ := hHit
    have hLe : sid' ≤ s.nextSid := by
      by_contra hLt
      have hUp := (hIds.unborn sid' (by omega)).1
      cases hMove <;> simp_all
    have hSt : (s.hubEnd (s.stream sid').owner sid').st = s.stream sid' := if_pos ⟨rfl, hLe⟩
    refine .inr ⟨.up e, ⟨rfl, rfl⟩, ?_⟩
    have hOwn := fun h => hubEnd_own (s := s) (t := t) (c := (s.stream sid').owner) (h := h)
      (by cases hMove <;> simp) (by cases hMove <;> simp) (by cases hMove <;> simp)
      (by cases hMove <;> simp) hLe (by cases hMove <;> simp)
    cases hMove with
    | failed err hPc =>
      exact hubStep_of (.upFailed err (by rw [hSt, hPc]))
        (hOwn _ (by simp [hSt]) ⟨rfl, rfl, rfl, rfl⟩ rfl rfl)
    | eof hPc hEof =>
      exact hubStep_of (.upEof (by rw [hSt, hPc]) (by rw [hSt, hEof]))
        (hOwn _ (by simp [hSt]) ⟨rfl, rfl, rfl, rfl⟩ rfl rfl)
    | read n payload sock hPc hRead =>
      exact hubStep_of (.upRead n payload sock (by rw [hSt, hPc]) (by rw [hSt, hRead]))
        (hOwn _ (by simp [hSt]) ⟨rfl, rfl, rfl, rfl⟩ rfl rfl)
    | sent payload hPc hRx =>
      exact hubStep_of (.upSent payload (by rw [hSt, hPc]) hRx)
        (hOwn _ (by simp [hSt]) ⟨rfl, rfl, rfl, rfl⟩ rfl (by simp [hubEnd, ServerFrame.item]))
    | unsent payload hPc hRx =>
      exact hubStep_of (.upUnsent payload (by rw [hSt, hPc]) hRx)
        (hOwn _ (by simp [hSt]) ⟨rfl, rfl, rfl, rfl⟩ rfl rfl)
    | closeSent hPc hRx =>
      exact hubStep_of (.closeSent (by rw [hSt, hPc]) hRx)
        (hOwn _ (by simp [hSt]) ⟨rfl, rfl, rfl, rfl⟩ rfl (by simp [hubEnd, ServerFrame.item]))
    | closeUnsent hPc hRx =>
      exact hubStep_of (.closeUnsent (by rw [hSt, hPc]) hRx)
        (hOwn _ (by simp [hSt]) ⟨rfl, rfl, rfl, rfl⟩ rfl rfl)
    | remove hPc =>
      exact hubStep_of (.upRemoved (by rw [hSt, hPc]))
        (hOwn _ (by simp [hSt]) ⟨rfl, rfl, rfl, rfl⟩ (by simp [removeStream_streams])
          (by simp [hubEnd]))
  · refine .inl ?_
    have hOther := not_and_or.mp hHit
    have hItem : ∀ kind, (s.stream sid').owner = c → ServerFrame.item sid ⟨sid', kind⟩ = none :=
      fun kind hc => if_neg (hOther.resolve_left (not_not.mpr hc))
    refine hubEnd_foreign (by cases hMove <;> simp) (fun n hn => by cases hMove <;> simp [hn])
      (by cases hMove <;> simp) hOther (by cases hMove <;> simp) (by cases hMove <;> simp)
      (by cases hMove <;> simp) ?_ ?_
    · cases hMove with
      | remove hPc =>
        rw [setStream_session, removeStream_streams]
        split
        · next hc =>
          have hSid := hOther.resolve_left (not_not.mpr hc.symm)
          simp [hc, Ne.symm hSid]
        · rfl
      | _ => exact Iff.rfl
    · by_cases hc : (s.stream sid').owner = c
      · cases hMove <;> simp [hc, hItem]
      · cases hMove <;> simp [Ne.symm hc]

theorem hubView_downMove {s t : Server} {c : ConnId} {sid sid' : Nat} {e : DownEv}
    (hIds : StreamIds s) (hMove : DownMove s sid' e t) :
    HubView s c sid t fun b => sid' = sid ∧ b = .down e := by
  by_cases hHit : (s.stream sid').owner = c ∧ sid' = sid
  · obtain ⟨rfl, rfl⟩ := hHit
    have hLe : sid' ≤ s.nextSid := by
      by_contra hLt
      have hDown := (hIds.unborn sid' (by omega)).2
      cases hMove <;> simp_all
    have hSt : (s.hubEnd (s.stream sid').owner sid').st = s.stream sid' := if_pos ⟨rfl, hLe⟩
    refine .inr ⟨.down e, ⟨rfl, rfl⟩, ?_⟩
    have hOwn := fun h => hubEnd_own (s := s) (t := t) (c := (s.stream sid').owner) (h := h)
      (by cases hMove <;> simp) (by cases hMove <;> simp) (by cases hMove <;> simp)
      (by cases hMove <;> simp) hLe (by cases hMove <;> simp)
    cases hMove with
    | recv p q hPc hQueue =>
      exact hubStep_of (.downRecv p q (by rw [hSt, hPc]) (by rw [hSt, hQueue]))
        (hOwn _ (by simp [hSt]) ⟨rfl, rfl, rfl, rfl⟩ rfl rfl)
    | drained hPc hQueue hSender =>
      simp only [hasSender, Bool.or_eq_false_iff, decide_eq_false_iff_not] at hSender
      refine hubStep_of (.downDrained (by rw [hSt, hPc]) (by rw [hSt, hQueue])
        (by simp [hubEnd, hSender.1]) ?_) (hOwn _ (by simp [hSt]) ⟨rfl, rfl, rfl, rfl⟩ rfl rfl)
      simp only [hubEnd, Phase.slot]
      split
      · next sid'' payload hPhase =>
        have hNe := hSender.2
        simp only [hPhase, decide_eq_false_iff_not] at hNe
        exact if_neg hNe
      · rfl
    | written hPc =>
      exact hubStep_of (.downWritten (by rw [hSt, hPc]))
        (hOwn _ (by simp [hSt]) ⟨rfl, rfl, rfl, rfl⟩ rfl rfl)
    | write rest n hPc hn =>
      exact hubStep_of (.downWrite rest n (by rw [hSt, hPc]))
        (hOwn _ (by simp [hSt]) ⟨rfl, rfl, rfl, rfl⟩ rfl rfl)
    | failed rest err hPc =>
      exact hubStep_of (.downFailed rest err (by rw [hSt, hPc]))
        (hOwn _ (by simp [hSt]) ⟨rfl, rfl, rfl, rfl⟩ rfl rfl)
    | shutdown hPc =>
      exact hubStep_of (.downShutdown (by rw [hSt, hPc]))
        (hOwn _ (by simp [hSt]) ⟨rfl, rfl, rfl, rfl⟩ rfl rfl)
  · refine .inl (hubEnd_foreign (by cases hMove <;> simp) (fun n hn => by cases hMove <;> simp [hn])
      (by cases hMove <;> simp) (not_and_or.mp hHit) (by cases hMove <;> simp)
      (by cases hMove <;> simp) (by cases hMove <;> simp) ?_ ?_) <;>
      cases hMove <;> simp

end Server

end OpenSpoke.Tunnel
