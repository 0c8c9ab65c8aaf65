import OpenSpoke.Lib.Totals
import OpenSpoke.Tunnel.Server.Closing
import OpenSpoke.Tunnel.Server.StreamIds

/-!
# The gauge of open streams

Registration counts a stream up, and four of the five ways out of a `streams`
map count it off. `SpokeSession::close` clears the map without counting, the
rollback of a failed Open counts off whether or not it finds an entry, and a
stream may be registered after the map was cleared. Without these three the
gauge is the number of entries.
-/

namespace OpenSpoke.Tunnel

open Lts Totals

def AcceptPc.counting : AcceptPc → Bool
  | .inc _ => true
  | _ => false

/-- The connection has cleared its own map. -/
def Phase.cleared : Phase → Bool
  | .failCleanup _ | .cleanup | .abort | .ret | .returned _ => true
  | _ => false

namespace Server

def registers (s : Server) : ServerAct → Option (ConnId × Nat)
  | .loop c k .tau =>
    match (s.loop c k).pc with
    | .register sid => some (c, sid)
    | _ => none
  | _ => none

def rollsBack (s : Server) : ServerAct → Option (ConnId × Nat)
  | .loop c k .tau =>
    match (s.loop c k).pc with
    | .rollback sid => some (c, sid)
    | _ => none
  | _ => none

/-- The stream that `recv_loop` or the upstream task takes out of its map. -/
def removes (s : Server) : ServerAct → Option (ConnId × Nat)
  | .up sid .tau =>
    match (s.stream sid).up with
    | .remove => some ((s.stream sid).owner, sid)
    | _ => none
  | .conn c (.frame (some (.ok f))) =>
    match s.phase c, f.kind with
    | .recv .next, some (.close _ _) => some (c, f.streamId)
    | _, _ => none
  | .conn c .tau =>
    match s.phase c with
    | .recv (.undeliver sid) => some (c, sid)
    | _ => none
  | _ => none

def countsOff (s : Server) (a : ServerAct) : Option (ConnId × Nat) :=
  match s.rollsBack a with
  | some p => some p
  | none => (s.removes a).filter fun p => p.2 ∈ (s.session p.1).streams

def registrations (sid : Nat) (s : Server) (a : ServerAct) : Nat :=
  if (s.registers a).map (·.2) = some sid then 1 else 0

def countdowns (sid : Nat) (s : Server) (a : ServerAct) : Nat :=
  if (s.countsOff a).map (·.2) = some sid then 1 else 0

/-- The ports of `c` whose accept loop has registered a stream and not yet counted it. -/
def uncounted (s : Server) (c : ConnId) : Finset Nat :=
  (Finset.range (s.sc c).ports.length).filter fun k => (s.loop c k).pc.counting = true

/-- The entries in the `streams` maps of the sessions of spoke `id`. -/
def entries (s : Server) (id : String) : Nat :=
  total (Finset.range s.nextConn) s.idOf (fun c => (s.session c).streams) id

/-- No accept loop is between its registration and its count. -/
def Quiescent (s : Server) : Prop := ∀ c < s.nextConn, s.uncounted c = ∅

instance (s : Server) : Decidable s.Quiescent :=
  inferInstanceAs (Decidable (∀ c < s.nextConn, s.uncounted c = ∅))

structure CountedOff (s : Server) (a : ServerAct) : Prop where
  /-- `close()` finds the map empty -/
  clear : ∀ c ∈ s.completes a, (s.session c).streams = ∅
  /-- the rollback finds its entry -/
  rollback : ∀ p ∈ s.rollsBack a, p.2 ∈ (s.session p.1).streams
  /-- no stream is registered in a closed session -/
  register : ∀ p ∈ s.registers a, (s.session p.1).closed = false

/-- What the gauge promises; `regs` and `offs` count the registrations and the
countdowns of each stream. -/
structure StreamsRight (s : Server) (regs offs : Nat → Nat) : Prop where
  exact : s.Quiescent → ∀ id, s.metrics.streamsOpen id = s.entries id
  nonneg : s.Quiescent → ∀ id, 0 ≤ s.metrics.streamsOpen id
  once : ∀ sid, regs sid ≤ 1 ∧ ((∃ c, sid ∈ (s.session c).streams) → regs sid = 1 ∧ offs sid = 0) ∧
    ((∀ c, sid ∉ (s.session c).streams) → offs sid = regs sid)
  ended : s.Quiescent → ∀ id,
    (∀ c < s.nextConn, s.idOf c = id → (s.phase c).ended = true) → s.metrics.streamsOpen id = 0

/-- What a step does to the maps, the loops about to count, and the gauge. -/
inductive Booked (s t : Server) (a : ServerAct) : Prop
  | same (hReg : s.registers a = none) (hOff : s.countsOff a = none)
      (hStreams : ∀ d, (t.session d).streams = (s.session d).streams)
      (hPc : ∀ d j sid, (t.loop d j).pc = .inc sid ↔ (s.loop d j).pc = .inc sid)
      (hGauge : t.metrics.streamsOpen = s.metrics.streamsOpen)
  | register (c : ConnId) (k sid : Nat) (hReg : s.registers a = some (c, sid))
      (hOff : s.countsOff a = none) (hAt : (s.loop c k).pc = .register sid)
      (hStreams : ∀ d, (t.session d).streams =
        if d = c then insert sid (s.session c).streams else (s.session d).streams)
      (hPc : ∀ d j, (t.loop d j).pc = if d = c ∧ j = k then .inc sid else (s.loop d j).pc)
      (hGauge : t.metrics.streamsOpen = s.metrics.streamsOpen)
  | count (c : ConnId) (k sid : Nat) (hReg : s.registers a = none) (hOff : s.countsOff a = none)
      (hAt : (s.loop c k).pc = .inc sid)
      (hStreams : ∀ d, (t.session d).streams = (s.session d).streams)
      (hPc : ∀ d j, (t.loop d j).pc = if d = c ∧ j = k then .sendOpen sid else (s.loop d j).pc)
      (hGauge : t.metrics.streamsOpen =
        Function.update s.metrics.streamsOpen (s.idOf c) (s.metrics.streamsOpen (s.idOf c) + 1))
  | off (c : ConnId) (sid : Nat) (hReg : s.registers a = none)
      (hOff : s.countsOff a = some (c, sid)) (hIn : sid ∈ (s.session c).streams)
      (hStreams : ∀ d, (t.session d).streams =
        if d = c then (s.session c).streams.erase sid else (s.session d).streams)
      (hPc : ∀ d j x, (t.loop d j).pc = .inc x ↔ (s.loop d j).pc = .inc x)
      (hGauge : t.metrics.streamsOpen =
        Function.update s.metrics.streamsOpen (s.idOf c) (s.metrics.streamsOpen (s.idOf c) - 1))

theorem booked_loopMove {E : Env} {s t : Server} {c : ConnId} {k : Nat} {e : LoopEv}
    (hOk : CountedOff s (.loop c k e)) (h : LoopMove E s c k e t) : Booked s t (.loop c k e) := by
  cases h with
  | register sid hAt =>
    refine .register c k sid (by simp [registers, hAt]) (by simp [countsOff, rollsBack, removes, hAt])
      hAt (fun d => ?_) (fun d j => ?_) rfl
    · by_cases hd : d = c <;> simp [loopTo, hd]
    · simp only [loopTo, setLoop_apply]
      split <;> rfl
  | inc sid hAt =>
    refine .count c k sid (by simp [registers, hAt]) (by simp [countsOff, rollsBack, removes, hAt])
      hAt (fun d => rfl) (fun d j => ?_) rfl
    simp only [loopTo, setLoop_apply]
    split <;> rfl
  | rollback sid hAt =>
    have hIn := hOk.rollback (c, sid) (by simp [rollsBack, hAt])
    refine .off c sid (by simp [registers, hAt]) (by simp [countsOff, rollsBack, hAt]) hIn
      (fun d => ?_) (fun d j x => ?_) ?_
    · by_cases hd : d = c <;> simp [loopTo, hd]
    · simp only [loopTo, setLoop_apply, setStream_loop, decStreams_loop, eraseStream_loop]
      grind
    · simp [loopTo]
  | cancelHeld sid hAbort hAt =>
    refine .same (by simp [registers]) (by simp [countsOff, rollsBack, removes]) (fun d => rfl)
      (fun d j x => ?_) rfl
    simp only [loopTo, setLoop_apply, setStream_loop]
    grind
  | cancel hAbort hAt =>
    refine .same (by simp [registers]) (by simp [countsOff, rollsBack, removes]) (fun d => rfl)
      (fun d j x => ?_) rfl
    simp only [loopTo, setLoop_apply]
    grind
  | _ =>
    refine .same (by simp [registers, *]) (by simp [countsOff, rollsBack, removes, *]) (fun d => rfl)
      (fun d j x => ?_) rfl
    simp only [loopTo, setLoop_apply, setOutbox_loop, setStream_loop]
    grind

theorem booked_removeStream {s t : Server} {a : ServerAct} {c : ConnId} {sid : Nat}
    (hReg : s.registers a = none) (hRoll : s.rollsBack a = none)
    (hRemove : s.removes a = some (c, sid))
    (hStreams : ∀ d, (t.session d).streams = ((s.removeStream c sid).session d).streams)
    (hPc : ∀ d j x, (t.loop d j).pc = .inc x ↔ (s.loop d j).pc = .inc x)
    (hGauge : t.metrics.streamsOpen = (s.removeStream c sid).metrics.streamsOpen) :
    Booked s t a := by
  by_cases hIn : sid ∈ (s.session c).streams
  · refine .off c sid hReg (by simp [countsOff, hRoll, hRemove, hIn]) hIn (fun d => ?_) hPc ?_
    · rw [hStreams, removeStream_streams]
    · simp [hGauge, removeStream, hIn]
  · have hSame : s.removeStream c sid = s := by simp [removeStream, hIn]
    rw [hSame] at hStreams hGauge
    exact .same hReg (by simp [countsOff, hRoll, hRemove, hIn]) hStreams hPc hGauge

theorem streams_eq_empty {s : Server} (hIds : StreamIds s) {c : ConnId} (hReg : ¬ s.Registered c) :
    (s.session c).streams = ∅ :=
  Finset.eq_empty_of_forall_notMem fun sid hIn => hReg (hIds.entry c sid hIn).2.2

theorem booked_recvMove {E : Env} {s t : Server} {c : ConnId} {pc : RecvPc} {e : ConnEv}
    (hPhase : s.phase c = .recv pc) (h : RecvMove E s c pc e t) : Booked s t (.conn c e) := by
  have hReg : s.registers (.conn c e) = none := rfl
  have hRoll : s.rollsBack (.conn c e) = none := rfl
  cases h with
  | close f half reason hKind =>
    exact booked_removeStream hReg hRoll (by simp [removes, hPhase, hKind]) (fun _ => rfl)
      (by simp) rfl
  | undeliver sid =>
    exact booked_removeStream hReg hRoll (by simp [removes, hPhase]) (fun _ => rfl) (by simp) rfl
  | ignored f hKind =>
    refine .same hReg ?_ (fun _ => rfl) (fun _ _ _ => Iff.rfl) rfl
    rcases hKind with ⟨n, hKind⟩ | ⟨hs, hKind⟩ | hKind <;>
      simp [countsOff, rollsBack, removes, hPhase, hKind]
  | ended r hEnd =>
    refine .same hReg ?_ (fun _ => rfl) (fun _ _ _ => Iff.rfl) rfl
    simp only [countsOff, hRoll, removes]
    split <;> simp_all
  | data f payload hKind | unknown f payload hKind | rejectKind f payload hKind
  | request f payload hKind =>
    exact .same hReg (by simp [countsOff, rollsBack, removes, hPhase, hKind]) (fun _ => rfl)
      (fun _ _ _ => Iff.rfl) rfl
  | _ =>
    exact .same hReg (by simp [countsOff, rollsBack, removes, hPhase]) (fun _ => rfl)
      (fun _ _ _ => Iff.rfl) rfl

theorem clearStreams_of_empty {s : Server} {c : ConnId} (hEmpty : (s.session c).streams = ∅)
    (d : ConnId) : ((s.clearStreams c).session d).streams = (s.session d).streams := by
  by_cases hd : d = c
  · subst hd; simp [hEmpty]
  · simp [hd]

theorem booked_connMove {E : Env} {s t : Server} {c : ConnId} {e : ConnEv} (hIds : StreamIds s)
    (hLoops : LoopsOk s) (hOk : CountedOff s (.conn c e)) (h : ConnMove E s c e t) :
    Booked s t (.conn c e) := by
  have hReg : s.registers (.conn c e) = none := rfl
  cases h with
  | recv pc e t hPhase hMove => exact booked_recvMove hPhase hMove
  | welcomed r hs sc hPhase =>
    have hNew : ¬ s.Registered c := by
      rw [Registered, hPhase]
      simp [Phase.stage, Registry.Stage.entered]
    refine .same hReg ?_ (fun d => ?_) (fun _ _ _ => Iff.rfl) rfl
    · simp only [countsOff, rollsBack, removes]
      split <;> simp_all
    · by_cases hd : d = c
      · subst hd; simp [streams_eq_empty hIds hNew]
      · simp [hd]
  | refused r reason text hPhase =>
    refine .same hReg ?_ (fun _ => rfl) (fun _ _ _ => Iff.rfl) rfl
    simp only [countsOff, rollsBack, removes]
    split <;> simp_all
  | clearOld old hPhase =>
    exact .same hReg (by simp [countsOff, rollsBack, removes, hPhase])
      (clearStreams_of_empty (hOk.clear old (by simp [completes, hPhase]))) (fun _ _ _ => Iff.rfl) rfl
  | failClear err hPhase | clear hPhase =>
    exact .same hReg (by simp [countsOff, rollsBack, removes, hPhase])
      (clearStreams_of_empty (hOk.clear c (by simp [completes, hPhase]))) (fun _ _ _ => Iff.rfl) rfl
  | closeOld old hPhase =>
    refine .same hReg (by simp [countsOff, rollsBack, removes, hPhase]) (fun d => ?_)
      (fun _ _ _ => Iff.rfl) rfl
    by_cases hd : d = old
    · subst hd; simp
    · simp [hd]
  | failClose err hPhase | close hPhase =>
    refine .same hReg (by simp [countsOff, rollsBack, removes, hPhase]) (fun d => ?_)
      (fun _ _ _ => Iff.rfl) rfl
    by_cases hd : d = c
    · subst hd; simp
    · simp [hd]
  | bound k b hPhase =>
    have hAbsent : (s.loop c k).pc = .absent := by
      by_contra hPc
      simpa [hPhase, Phase.maySpawn] using (hLoops.owner c k hPc).2.1
    refine .same hReg (by simp [countsOff, rollsBack, removes]) (fun _ => rfl) (fun d j x => ?_) rfl
    rw [goto_loop, setLoop_apply]
    grind
  | abort hPhase =>
    refine .same hReg (by simp [countsOff, rollsBack, removes, hPhase]) (fun _ => rfl)
      (fun d j x => ?_) rfl
    by_cases hd : d = c
    · subst hd; simp
    · simp [hd]
  | failCleanup err hPhase | cleanup hPhase =>
    exact .same hReg (by simp [countsOff, rollsBack, removes, hPhase]) (by simp) (by simp) (by simp)
  | unbound => exact .same hReg rfl (fun _ => rfl) (fun _ _ _ => Iff.rfl) rfl
  | _ =>
    exact .same hReg (by simp [countsOff, rollsBack, removes, *]) (fun _ => rfl)
      (fun _ _ _ => Iff.rfl) rfl

theorem booked_step {E : Env} {s t : Server} {a : ServerAct} (hIds : StreamIds s)
    (hLoops : LoopsOk s) (hOk : CountedOff s a) (h : step E s a = some t) : Booked s t a := by
  cases a with
  | connect nonce issuedAt =>
    cases h
    exact .same rfl rfl (fun _ => rfl) (fun _ _ _ => Iff.rfl) rfl
  | conn c e => exact booked_connMove hIds hLoops hOk (connStep_move h)
  | loop c k e => exact booked_loopMove hOk (loopStep_move h)
  | up sid e =>
    cases upStep_move h with
    | remove hPc =>
      exact booked_removeStream rfl rfl (by simp [removes, hPc]) (fun _ => rfl) (by simp) rfl
    | _ =>
      exact .same rfl (by simp [countsOff, rollsBack, removes, *]) (fun _ => rfl)
        (fun _ _ _ => Iff.rfl) rfl
  | down sid e => cases downStep_move h <;> exact .same rfl rfl (fun _ => rfl) (fun _ _ _ => Iff.rfl) rfl
  | http n e => cases httpStep_move h <;> exact .same rfl rfl (fun _ => rfl) (fun _ _ _ => Iff.rfl) rfl
  | env e => cases envStep_move h <;> exact .same rfl rfl (fun _ => rfl) (fun _ _ _ => Iff.rfl) rfl

/-! ## The ledger -/

/-- The invariant of the runs in which every stream is counted off. -/
structure Accounts (s : Server) (regs offs : Nat → Nat) : Prop where
  le : ∀ sid, regs sid ≤ 1
  balance : ∀ id, s.metrics.streamsOpen id +
    (total (Finset.range s.nextConn) s.idOf s.uncounted id : Nat) = s.entries id
  unborn : ∀ sid, s.nextSid < sid → regs sid = 0
  waiting : ∀ c k sid, (s.loop c k).pc = .register sid → regs sid = 0
  present : ∀ c sid, sid ∈ (s.session c).streams → regs sid = 1 ∧ offs sid = 0
  gone : ∀ sid, (∀ c, sid ∉ (s.session c).streams) → offs sid = regs sid
  cleared : ∀ c, (s.phase c).cleared = true → (s.session c).streams = ∅

theorem accounts_init : Accounts init (fun _ => 0) (fun _ => 0) := by
  constructor <;> simp [init, Metrics.zero, entries, total, Phase.cleared]

theorem mem_uncounted {s : Server} (hLoops : LoopsOk s) {c : ConnId} {k : Nat} :
    k ∈ s.uncounted c ↔ ∃ sid, (s.loop c k).pc = .inc sid := by
  have hCounting : (s.loop c k).pc.counting = true ↔ ∃ sid, (s.loop c k).pc = .inc sid := by
    cases (s.loop c k).pc <;> simp [AcceptPc.counting]
  rw [uncounted, Finset.mem_filter, Finset.mem_range, hCounting]
  refine ⟨fun h => h.2, fun h => ⟨?_, h⟩⟩
  obtain ⟨sid, hAt⟩ := h
  obtain ⟨-, -, b, hb, -⟩ := hLoops.owner c k (by simp [hAt])
  exact (List.getElem?_eq_some_iff.mp hb).1

theorem uncounted_eq_empty {s : Server} (hLoops : LoopsOk s) {c : ConnId} (hReg : ¬ s.Registered c) :
    s.uncounted c = ∅ := by
  refine Finset.eq_empty_of_forall_notMem fun k hk => hReg ?_
  obtain ⟨sid, hAt⟩ := (mem_uncounted hLoops).mp hk
  exact hLoops.registered (show (s.loop c k).pc ≠ .absent by simp [hAt])

theorem nextConn_step {E : Env} {s t : Server} {a : ServerAct} (hFresh : FreshConns s)
    (h : step E s a = some t) : ¬ t.Registered s.nextConn ∧
      (t.nextConn = s.nextConn ∨ t.nextConn = s.nextConn + 1) := by
  have hNew := hFresh s.nextConn le_rfl
  have hNot : ¬ s.Registered s.nextConn := by
    rw [Registered, hNew]
    simp [Phase.stage, Registry.Stage.entered]
  constructor
  · rcases step_phase h s.nextConn with ⟨e, rfl, hMove⟩ | ⟨-, -, hSame | ⟨-, hFirst⟩⟩
    · exact absurd hNew (connMove_frame hMove).1
    · rwa [Registered, hSame]
    · rw [Registered, hFirst]
      simp [Phase.stage, Registry.Stage.entered]
  · cases a with
    | connect nonce issuedAt => cases h; exact .inr rfl
    | conn c e => exact .inl (connMove_frame (connStep_move h)).2.1
    | _ => exact .inl (phase_eq_of_not_conn h (by simp) (by simp)).1

theorem total_range_step {s t : Server} {held : ConnId → Finset Nat} {id : String}
    (hNext : t.nextConn = s.nextConn ∨ t.nextConn = s.nextConn + 1)
    (hEmpty : held s.nextConn = ∅) :
    total (Finset.range t.nextConn) t.idOf held id =
      total (Finset.range s.nextConn) t.idOf held id := by
  rcases hNext with hNext | hNext
  · rw [hNext]
  · rw [hNext, Finset.range_add_one, total_insert (by simp) hEmpty]

/-- The sum of the entries and that of the loops about to count change only by
the shares of the session that is booked. -/
theorem Accounts.balance_step {E : Env} {s t : Server} {a : ServerAct} {regs offs : Nat → Nat}
    (hAcc : Accounts s regs offs) (hFresh : FreshConns s) (hLoops : LoopsOk s) (hIds : StreamIds s)
    (hBooked : Booked s t a) (h : step E s a = some t) (id : String) :
    t.metrics.streamsOpen id + (total (Finset.range t.nextConn) t.idOf t.uncounted id : Nat) =
      t.entries id := by
  have hLoops' := loopsOk_step hFresh hLoops h
  have hIds' := streamIds_step hFresh hLoops hIds h
  obtain ⟨hNew, hNext⟩ := nextConn_step hFresh h
  have hBalance := hAcc.balance id
  have hLabel : ∀ d, t.idOf d = s.idOf d ∨ s.uncounted d = ∅ ∧ (s.session d).streams = ∅ := by
    intro d
    by_cases hReg : s.Registered d
    · exact .inl (registered_step hFresh h hReg).2.1
    · exact .inr ⟨uncounted_eq_empty hLoops hReg, streams_eq_empty hIds hReg⟩
  rw [entries, total_range_step hNext (uncounted_eq_empty hLoops' hNew),
    total_range_step hNext (streams_eq_empty hIds' hNew)]
  rw [entries] at hBalance
  have hEntries : ∀ d, (t.session d).streams = (s.session d).streams →
      share t.idOf (fun c => (t.session c).streams) id d =
        share s.idOf (fun c => (s.session c).streams) id d :=
    fun d hd => share_congr hd ((hLabel d).imp_right (·.2))
  have hWaits : ∀ d, t.uncounted d = s.uncounted d →
      share t.idOf t.uncounted id d = share s.idOf s.uncounted id d :=
    fun d hd => share_congr hd ((hLabel d).imp_right (·.1))
  have hUncounted : ∀ d, (∀ j sid, (t.loop d j).pc = .inc sid ↔ (s.loop d j).pc = .inc sid) →
      t.uncounted d = s.uncounted d := by
    intro d hPc
    ext j
    rw [mem_uncounted hLoops', mem_uncounted hLoops]
    simp only [hPc]
  cases hBooked with
  | same hReg hOff hStreams hPc hGauge =>
    rw [hGauge, total_congr fun d _ => hEntries d (hStreams d),
      total_congr fun d _ => hWaits d (hUncounted d (hPc d))]
    exact hBalance
  | register c k sid hReg hOff hAt hStreams hPc hGauge =>
    have hc := hLoops.registered (show (s.loop c k).pc ≠ .absent by simp [hAt])
    have hMem := Finset.mem_range.mpr (registered_lt hFresh hc)
    have hId := (registered_step hFresh h hc).2.1
    have hGain := total_gain hMem hId (by rw [hStreams, if_pos rfl]) (hIds.waiting c k sid hAt)
      fun d _ hd => hEntries d (by rw [hStreams, if_neg hd])
    have hMore : t.uncounted c = insert k (s.uncounted c) := by
      ext j
      rw [Finset.mem_insert, mem_uncounted hLoops', mem_uncounted hLoops]
      simp only [hPc]
      grind
    have hOut : k ∉ s.uncounted c := by
      rw [mem_uncounted hLoops, hAt]
      simp
    have hWait := total_gain hMem hId hMore hOut fun d _ hd =>
      hWaits d (hUncounted d fun j x => by rw [hPc, if_neg fun hBoth => hd hBoth.1])
    rw [hGauge]
    grind
  | count c k sid hReg hOff hAt hStreams hPc hGauge =>
    have hc := hLoops.registered (show (s.loop c k).pc ≠ .absent by simp [hAt])
    have hMem := Finset.mem_range.mpr (registered_lt hFresh hc)
    have hId := (registered_step hFresh h hc).2.1
    have hLess : t.uncounted c = (s.uncounted c).erase k := by
      ext j
      rw [Finset.mem_erase, mem_uncounted hLoops', mem_uncounted hLoops]
      simp only [hPc]
      grind
    have hIn : k ∈ s.uncounted c := (mem_uncounted hLoops).mpr ⟨sid, hAt⟩
    have hWait := total_loss hMem hId hLess hIn fun d _ hd =>
      hWaits d (hUncounted d fun j x => by rw [hPc, if_neg fun hBoth => hd hBoth.1])
    rw [hGauge, total_congr fun d _ => hEntries d (hStreams d), Function.update_apply]
    split_ifs at hWait ⊢ <;> grind
  | off c sid hReg hOff hIn hStreams hPc hGauge =>
    have hc := (hIds.entry c sid hIn).2.2
    have hMem := Finset.mem_range.mpr (registered_lt hFresh hc)
    have hId := (registered_step hFresh h hc).2.1
    have hLoss := total_loss hMem hId (by rw [hStreams, if_pos rfl]) hIn
      fun d _ hd => hEntries d (by rw [hStreams, if_neg hd])
    rw [hGauge, total_congr fun d _ => hWaits d (hUncounted d (hPc d)), Function.update_apply]
    split_ifs at hLoss ⊢ <;> grind

/-- The single streams: one registration each, and one countdown once it is gone. -/
theorem Accounts.once_step {E : Env} {s t : Server} {a : ServerAct} {regs offs : Nat → Nat}
    (hAcc : Accounts s regs offs) (hIds : StreamIds s) (hBooked : Booked s t a)
    (h : step E s a = some t) :
    (∀ sid, regs sid + registrations sid s a ≤ 1) ∧
      (∀ sid, t.nextSid < sid → regs sid + registrations sid s a = 0) ∧
      (∀ c k sid, (t.loop c k).pc = .register sid → regs sid + registrations sid s a = 0) ∧
      (∀ c sid, sid ∈ (t.session c).streams →
        regs sid + registrations sid s a = 1 ∧ offs sid + countdowns sid s a = 0) ∧
      ∀ sid, (∀ c, sid ∉ (t.session c).streams) →
        offs sid + countdowns sid s a = regs sid + registrations sid s a := by
  obtain ⟨hMono, hRegister⟩ := step_register hIds h
  obtain ⟨hLe, -, hUnborn, hWaiting, hPresent, hGone, -⟩ := hAcc
  have hEntry := hIds.entry
  cases hBooked with
  | same hReg hOff hStreams hPc hGauge =>
    simp only [registrations, countdowns, hReg, hOff, hStreams, Option.map_none, reduceCtorEq,
      if_false, Nat.add_zero]
    grind
  | register c k sid hReg hOff hAt hStreams hPc hGauge =>
    have hHeld := hIds.held c k sid (by rw [hAt]; rfl)
    have hUnique := fun d j => hIds.unique c k d j sid (by rw [hAt]; rfl)
    have hNone : ∀ d, sid ∉ (s.session d).streams := by
      intro d hd
      have hc : d = c := (hEntry d sid hd).2.1.symm.trans hHeld.2.1
      exact hIds.waiting c k sid hAt (hc ▸ hd)
    simp only [registrations, countdowns, hReg, hOff, hStreams, Option.map_none, Option.map_some,
      reduceCtorEq, if_false, Option.some.injEq, Nat.add_zero]
    refine ⟨by grind, by grind, by grind [AcceptPc.sid], by grind, fun x hx => ?_⟩
    have hne : x ≠ sid := by
      rintro rfl
      simpa using hx c
    have hBefore : ∀ d, x ∉ (s.session d).streams := by
      intro d hd
      have hAfter := hx d
      split_ifs at hAfter with hdc
      · subst hdc
        exact hAfter (Finset.mem_insert_of_mem hd)
      · exact hAfter hd
    rw [hGone x hBefore, if_neg fun hEq => hne hEq.symm, Nat.add_zero]
  | count c k sid hReg hOff hAt hStreams hPc hGauge =>
    simp only [registrations, countdowns, hReg, hOff, hStreams, Option.map_none, reduceCtorEq,
      if_false, Nat.add_zero]
    grind
  | off c sid hReg hOff hIn hStreams hPc hGauge =>
    simp only [registrations, countdowns, hReg, hOff, hStreams, Option.map_none, Option.map_some,
      reduceCtorEq, if_false, Option.some.injEq, Nat.add_zero]
    grind

theorem cleared_step {E : Env} {s t : Server} {a : ServerAct} (h : step E s a = some t)
    {c : ConnId} (hCleared : (t.phase c).cleared = true) :
    (s.phase c).cleared = true ∨ c ∈ s.completes a := by
  rcases step_phase h c with ⟨e, rfl, hMove⟩ | ⟨-, -, hSame | ⟨-, hNew⟩⟩
  · cases hMove with
    | recv pc e t hPhase hMove => cases hMove <;> simp_all [Phase.cleared]
    | failClear err hPhase | clear hPhase => exact .inr (by simp [completes, hPhase])
    | _ => simp_all [Phase.cleared]
  · exact .inl (hSame ▸ hCleared)
  · simp [hNew, Phase.cleared] at hCleared

theorem closed_of_cleared {s : Server} (hWf : Registry.Wf s.registry) {c : ConnId}
    (h : (s.phase c).cleared = true) : (s.session c).closed = true := by
  have hClosing := hWf.closing c
  have hLeft := hWf.left c
  cases hPhase : s.phase c <;> simp_all [registry, Phase.stage, Phase.cleared]

theorem Accounts.step {E : Env} {s t : Server} {a : ServerAct} {regs offs : Nat → Nat}
    (hAcc : Accounts s regs offs) (hFresh : FreshConns s) (hWf : Registry.Wf s.registry)
    (hLoops : LoopsOk s) (hIds : StreamIds s) (hOk : CountedOff s a) (h : step E s a = some t) :
    Accounts t (fun sid => regs sid + registrations sid s a)
      (fun sid => offs sid + countdowns sid s a) := by
  have hBooked := booked_step hIds hLoops hOk h
  obtain ⟨hLe, hUnborn, hWaiting, hPresent, hGone⟩ := hAcc.once_step hIds hBooked h
  refine ⟨hLe, hAcc.balance_step hFresh hLoops hIds hBooked h, hUnborn, hWaiting, hPresent, hGone, ?_⟩
  intro c hCleared
  have hBefore : (s.session c).streams = ∅ ∧ ∀ sid, s.registers a ≠ some (c, sid) := by
    rcases cleared_step h hCleared with hPhase | hDone
    · refine ⟨hAcc.cleared c hPhase, fun sid hReg => ?_⟩
      have hOpen := hOk.register (c, sid) hReg
      rw [closed_of_cleared hWf hPhase] at hOpen
      cases hOpen
    · refine ⟨hOk.clear c hDone, fun sid hReg => ?_⟩
      cases a <;> simp_all [completes, registers]
  cases hBooked with
  | same hReg hOff hStreams => rw [hStreams, hBefore.1]
  | count d k sid hReg hOff hAt hStreams => rw [hStreams, hBefore.1]
  | register d k sid hReg hOff hAt hStreams =>
    rw [hStreams, if_neg, hBefore.1]
    rintro rfl
    exact hBefore.2 sid hReg
  | off d sid hReg hOff hIn hStreams =>
    rw [hStreams]
    split
    · next hd => subst hd; rw [hBefore.1, Finset.erase_empty]
    · exact hBefore.1

theorem accounts_run {E : Env} {s : Server} {acts : List ServerAct}
    (h : run (step E) init acts = some s) (hOk : Along (step E) CountedOff init acts) :
    FreshConns s ∧ LoopsOk s ∧ StreamIds s ∧
      Accounts s (fun sid => tally (step E) (registrations sid) init acts)
        (fun sid => tally (step E) (countdowns sid) init acts) := by
  refine (run_induction (motive := fun acts s => Along (step E) CountedOff init acts →
    Registry.Wf s.registry ∧ FreshConns s ∧ LoopsOk s ∧ StreamIds s ∧
      Accounts s (fun sid => tally (step E) (registrations sid) init acts)
        (fun sid => tally (step E) (countdowns sid) init acts)) h
    (fun _ => ⟨registry_empty.wf, freshConns_init, loopsOk_init, streamIds_init, accounts_init⟩)
    ?_ hOk).2
  intro acts s a t hRun ih hStep hOk
  obtain ⟨hBefore, hLast⟩ := (along_snoc _ _ a hRun).mp hOk
  obtain ⟨hWf, hFresh, hLoops, hIds, hAcc⟩ := ih hBefore
  refine ⟨wf_step hFresh hWf hStep, freshConns_step hFresh hStep, loopsOk_step hFresh hLoops hStep,
    streamIds_step hFresh hLoops hIds hStep, ?_⟩
  simpa only [tally_snoc _ _ a hRun] using hAcc.step hFresh hWf hLoops hIds hLast hStep

theorem Accounts.streamsRight {s : Server} {regs offs : Nat → Nat} (hAcc : Accounts s regs offs)
    (hIds : StreamIds s) : StreamsRight s regs offs := by
  have hExact : s.Quiescent → ∀ id, s.metrics.streamsOpen id = s.entries id := by
    intro hQuiet id
    have hNone : total (Finset.range s.nextConn) s.idOf s.uncounted id = 0 :=
      total_eq_zero fun c hc _ => hQuiet c (Finset.mem_range.mp hc)
    have hBalance := hAcc.balance id
    rw [hNone] at hBalance
    simpa using hBalance
  refine ⟨hExact, fun hQuiet id => ?_, fun sid => ⟨hAcc.le sid, ?_, hAcc.gone sid⟩, ?_⟩
  · rw [hExact hQuiet id]
    exact Int.natCast_nonneg _
  · rintro ⟨c, hIn⟩
    exact hAcc.present c sid hIn
  · intro hQuiet id hEnded
    rw [hExact hQuiet id, Int.natCast_eq_zero]
    refine total_eq_zero fun c hc hId => ?_
    have hEnd := hEnded c (Finset.mem_range.mp hc) hId
    cases hPhase : s.phase c with
    | returned ret => exact hAcc.cleared c (by rw [hPhase]; rfl)
    | absent | refused err =>
      exact streams_eq_empty hIds (by rw [Registered, hPhase]; simp [Phase.stage, Registry.Stage.entered])
    | _ => simp [hPhase, Phase.ended] at hEnd

/-! ## Between two quiescent states -/

/-- `recv_loop` and the upstream task take out no stream that is not yet counted. -/
def CountedFirst (s : Server) (a : ServerAct) : Prop :=
  ∀ p ∈ s.removes a, ∀ k < (s.sc p.1).ports.length, (s.loop p.1 k).pc ≠ .inc p.2

instance (s : Server) (a : ServerAct) : Decidable (CountedFirst s a) :=
  inferInstanceAs (Decidable (∀ p ∈ s.removes a, ∀ k < (s.sc p.1).ports.length,
    (s.loop p.1 k).pc ≠ .inc p.2))

/-- A stream that is about to be counted is in its map. -/
def Expected (s : Server) : Prop :=
  ∀ c k sid, (s.loop c k).pc = .inc sid → sid ∈ (s.session c).streams

theorem expected_step {s t : Server} {a : ServerAct} (hExp : Expected s) (hLoops : LoopsOk s)
    (hIds : StreamIds s) (hBooked : Booked s t a) (hFirst : CountedFirst s a) : Expected t := by
  intro d j x hAt
  cases hBooked with
  | same hReg hOff hStreams hPc =>
    rw [hStreams]
    exact hExp d j x ((hPc d j x).mp hAt)
  | register c k sid hReg hOff hBefore hStreams hPc =>
    rw [hPc] at hAt
    rw [hStreams]
    have hOld := hExp d j x
    grind
  | count c k sid hReg hOff hBefore hStreams hPc =>
    rw [hPc] at hAt
    rw [hStreams]
    have hOld := hExp d j x
    grind
  | off c sid hReg hOff hIn hStreams hPc =>
    have hBefore := (hPc d j x).mp hAt
    have hOld := hExp d j x hBefore
    have hOther : d = c → x ≠ sid := by
      rintro rfl rfl
      simp only [countsOff] at hOff
      split at hOff
      next p hRoll =>
        cases hOff
        cases a with
        | loop c' k e =>
          cases e with
          | tau =>
            simp only [rollsBack] at hRoll
            split at hRoll <;> cases hRoll
            next hPc' =>
              obtain ⟨-, rfl⟩ := hIds.unique d j d k x (by rw [hBefore]; rfl) (by rw [hPc']; rfl)
              rw [hBefore] at hPc'
              cases hPc'
          | _ => cases hRoll
        | _ => cases hRoll
      next =>
        obtain ⟨hRemove, -⟩ := Option.filter_eq_some_iff.mp hOff
        obtain ⟨-, -, b, hb, -⟩ := hLoops.owner d j (by simp [hBefore])
        exact hFirst (d, x) hRemove j (List.getElem?_eq_some_iff.mp hb).1 hBefore
    rw [hStreams]
    split
    · next hd => subst hd; exact Finset.mem_erase.mpr ⟨hOther rfl, hOld⟩
    · exact hOld

theorem uncounted_card_le {s : Server} (hExp : Expected s) (hLoops : LoopsOk s) (hIds : StreamIds s)
    (c : ConnId) : (s.uncounted c).card ≤ (s.session c).streams.card := by
  refine Finset.card_le_card_of_injOn (fun k => ((s.loop c k).pc.sid).getD 0) ?_ ?_
  · intro k hk
    obtain ⟨sid, hAt⟩ := (mem_uncounted hLoops).mp hk
    simpa [hAt, AcceptPc.sid] using hExp c k sid hAt
  · intro k hk j hj hEq
    obtain ⟨x, hx⟩ := (mem_uncounted hLoops).mp hk
    obtain ⟨y, hy⟩ := (mem_uncounted hLoops).mp hj
    have hxy : x = y := by simpa [hx, hy, AcceptPc.sid] using hEq
    exact (hIds.unique c k c j x (by rw [hx]; rfl) (by rw [hy, hxy]; rfl)).2

theorem expected_run {E : Env} {s : Server} {acts : List ServerAct}
    (h : run (step E) init acts = some s) (hOk : Along (step E) CountedOff init acts)
    (hFirst : Along (step E) CountedFirst init acts) : Expected s := by
  refine run_induction (motive := fun acts s => Along (step E) CountedOff init acts →
    Along (step E) CountedFirst init acts → Expected s) h (fun _ _ => ?_) ?_ hOk hFirst
  · intro c k sid hAt
    simp [init] at hAt
  · intro acts s a t hRun ih hStep hOk hFirst
    obtain ⟨hOkBefore, hOkLast⟩ := (along_snoc _ _ a hRun).mp hOk
    obtain ⟨hFirstBefore, hFirstLast⟩ := (along_snoc _ _ a hRun).mp hFirst
    obtain ⟨-, hLoops, hIds, -⟩ := accounts_run hRun hOkBefore
    exact expected_step (ih hOkBefore hFirstBefore) hLoops hIds
      (booked_step hIds hLoops hOkLast hStep) hFirstLast

/-- In a run whose streams are all counted off the gauge of every spoke is right in
each quiescent state, and it is never negative if moreover no stream is taken out
before it is counted. -/
theorem streams_accounted (E : Env) {s : Server} {acts : List ServerAct}
    (hRun : run (step E) init acts = some s) (hOk : Along (step E) CountedOff init acts) :
    StreamsRight s (fun sid => tally (step E) (registrations sid) init acts)
        (fun sid => tally (step E) (countdowns sid) init acts) ∧
      (Along (step E) CountedFirst init acts → ∀ id, 0 ≤ s.metrics.streamsOpen id) := by
  obtain ⟨-, hLoops, hIds, hAcc⟩ := accounts_run hRun hOk
  refine ⟨hAcc.streamsRight hIds, fun hFirst id => ?_⟩
  have hExp := expected_run hRun hOk hFirst
  have hLe : total (Finset.range s.nextConn) s.idOf s.uncounted id ≤ s.entries id :=
    total_le_total fun c _ => uncounted_card_le hExp hLoops hIds c
  have hBalance := hAcc.balance id
  omega

instance (s : Server) (a : ServerAct) : Decidable (CountedOff s a) :=
  decidable_of_iff ((∀ c ∈ s.completes a, (s.session c).streams = ∅) ∧
      (∀ p ∈ s.rollsBack a, p.2 ∈ (s.session p.1).streams) ∧
      ∀ p ∈ s.registers a, (s.session p.1).closed = false)
    ⟨fun h => ⟨h.1, h.2.1, h.2.2⟩, fun h => ⟨h.clear, h.rollback, h.register⟩⟩

def openedStream : List ServerAct :=
  oneSpoke ++ [.loop 0 0 .tau, .loop 0 0 (.accept (.ok ())), .loop 0 0 .tau, .loop 0 0 .tau,
    .loop 0 0 .tau, .loop 0 0 .tau, .loop 0 0 .tau]

def closedStream : List ServerAct :=
  openedStream ++ [.conn 0 (.frame (some (.ok ⟨1, some (.close false "eof")⟩))),
    .conn 0 (.frame none), .conn 0 .tau, .conn 0 .tau, .conn 0 .tau, .conn 0 .tau, .conn 0 .tau]

theorem closedStream_accounted : ∃ s, run (step edgeEnv) init closedStream = some s ∧
    s.metrics.streamsOpen "edge" = 0 ∧ 0 ≤ s.metrics.streamsOpen "edge" ∧
    tally (step edgeEnv) (countdowns 1) init closedStream = 1 := by
  obtain ⟨s, hRun, hs⟩ := exists_run_of_any (step edgeEnv) init closedStream
    (fun s => decide s.Quiescent && decide (s.nextConn = 1) &&
      (s.phase 0).ended && decide ((s.session 0).streams = ∅)) (by decide)
  simp only [Bool.and_eq_true, decide_eq_true_eq] at hs
  obtain ⟨⟨⟨hQuiet, hOne⟩, hEnded⟩, hEmpty⟩ := hs
  obtain ⟨hRight, hNonneg⟩ := streams_accounted edgeEnv hRun (by decide)
  refine ⟨s, hRun, hRight.ended hQuiet "edge" fun c hc _ => ?_, hNonneg (by decide) "edge", by decide⟩
  have hZero : c = 0 := by
    rw [hOne] at hc
    exact Nat.lt_one_iff.mp hc
  rw [hZero]
  exact hEnded

/-- The session ends while the stream is open; later the stream ends as well. -/
def droppedStream : List ServerAct :=
  openedStream ++ [.conn 0 (.frame none), .conn 0 .tau, .conn 0 .tau, .conn 0 .tau, .conn 0 .tau,
    .loop 0 0 .cancel, .conn 0 .tau, .env (.peerClose 1), .up 1 (.read (.ok 0)), .up 1 .tau,
    .up 1 .tau, .down 1 .tau, .down 1 .tau]

/-- Every task has ended, the maps are empty, and the gauge still shows the
stream, which was never counted off. -/
theorem droppedStream_leaks : ∃ s, run (step edgeEnv) init droppedStream = some s ∧ s.Quiescent ∧
    s.entries "edge" = 0 ∧ s.metrics.streamsOpen "edge" = 1 ∧
    tally (step edgeEnv) (registrations 1) init droppedStream = 1 ∧
    tally (step edgeEnv) (countdowns 1) init droppedStream = 0 ∧
    ¬ StreamsRight s (fun sid => tally (step edgeEnv) (registrations sid) init droppedStream)
      (fun sid => tally (step edgeEnv) (countdowns sid) init droppedStream) := by
  obtain ⟨s, hRun, hs⟩ := exists_run_of_any (step edgeEnv) init droppedStream
    (fun s => decide s.Quiescent && s.entries "edge" = 0 &&
      s.metrics.streamsOpen "edge" = 1) (by decide)
  simp only [Bool.and_eq_true, decide_eq_true_eq] at hs
  obtain ⟨⟨hQuiet, hEntries⟩, hGauge⟩ := hs
  refine ⟨s, hRun, hQuiet, hEntries, hGauge, by decide, by decide, fun h => ?_⟩
  have hExact := h.exact hQuiet "edge"
  omega

end Server

end OpenSpoke.Tunnel
