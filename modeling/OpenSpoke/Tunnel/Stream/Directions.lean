import OpenSpoke.Tunnel.Stream.Ends

/-!
# The two directions of a virtual stream

Either direction of a virtual stream refines `Pipe`: from the hub-side connection
to the target, and back. Every step of the stream is a step of both relays, and
a strict one unless it is among the steps listed as losing bytes.
-/

namespace OpenSpoke.Tunnel

open Pipe

def UpPc.src : UpPc → Src UInt8
  | .absent | .held => .idle
  | .read => .live
  | .send payload => .hold payload
  | .sendClose => .closing
  | .remove | .ended => .done

def RunPc.src : RunPc → Src UInt8
  | .absent | .dial => .idle
  | .select | .write _ => .live
  | .sendData payload => .hold payload
  | .sendEof => .closing
  | .refused | .dialFailed _ | .forget | .remove | .ended => .done

def DownPc.open : DownPc → Bool
  | .shutdown | .ended => false
  | _ => true

def RunPc.open : RunPc → Bool
  | .absent | .dial | .select | .write _ | .sendData _ => true
  | _ => false

def DownPc.rest : DownPc → Bytes
  | .write rest => rest
  | _ => []

def RunPc.rest : RunPc → Bytes
  | .write rest => rest
  | _ => []

/-- The Open frame is not sent yet. -/
def HubEnd.fresh (h : HubEnd) : Bool :=
  h.st.up = .absent || (h.st.up = .held && !h.announced)

namespace VirtualStream

/-- From the hub-side connection to the target. -/
def down (v : VirtualStream) : State UInt8 where
  got := v.hub.st.sock.got
  src := v.hub.st.up.src
  wire := v.hub.wire
  gate := if v.spoke.entry then .opened else if v.spoke.run.pc = .absent then .before else .shut
  slot := v.spoke.slot.getD []
  queue := v.spoke.run.queue
  rest := v.spoke.run.pc.rest
  put := v.spoke.run.sock.put
  sink := v.spoke.run.pc.open

/-- From the target to the hub-side connection. -/
def up (v : VirtualStream) : State UInt8 where
  got := v.spoke.run.sock.got
  src := v.spoke.run.pc.src
  wire := v.spoke.wire
  gate := if v.hub.entry then .opened else if v.hub.fresh then .before else .shut
  slot := v.hub.slot.getD []
  queue := v.hub.st.queue
  rest := v.hub.st.down.rest
  put := v.hub.st.sock.put
  sink := v.hub.st.down.open

theorem down_gate {v : VirtualStream} (hPc : v.spoke.run.pc ≠ .absent) : v.down.gate ≠ .before := by
  simp only [down, hPc, if_false]
  split <;> simp

theorem up_gate {v : VirtualStream} (hFresh : v.hub.fresh = false) : v.up.gate ≠ .before := by
  simp only [up, hFresh, Bool.false_eq_true, if_false]
  split <;> simp

/-- What every reachable stream has. -/
structure Wf (v : VirtualStream) : Prop where
  unborn : v.hub.st.up = .absent → v.hub.st.down = .absent ∧ v.hub.st.sock.put = [] ∧
    v.hub.st.queue = []
  held : v.hub.st.up = .held → v.hub.st.down = .held
  absent : v.spoke.run.pc = .absent → v.spoke.run.sock.put = [] ∧ v.spoke.run.sock.got = [] ∧
    v.spoke.run.queue = [] ∧ v.spoke.entry = false ∧ v.spoke.slot = none ∧ v.spoke.wire = []
  fresh : v.hub.fresh = true → v.spoke.run.pc = .absent ∧ v.hub.wire = [] ∧ v.hub.slot = none
  announced : v.hub.announced = true → v.hub.st.up = .held ∧
    (v.spoke.run.pc = .absent → .opn ∈ v.hub.wire)
  opn : .opn ∈ v.hub.wire → v.spoke.run.pc = .absent
  plain : .opn ∉ v.spoke.wire

theorem Wf.opn_head {v : VirtualStream} (h : v.Wf) (hDown : Sound v.down) {w : List StreamItem}
    (hWire : v.hub.wire = .opn :: w) :
    v.spoke.run.pc = .absent ∧ .opn ∉ w ∧ v.hub.fresh = false := by
  have hAbsent := h.opn (by simp [hWire])
  have hGate : v.down.gate = .before := by simp [down, hAbsent, (h.absent hAbsent).2.2.2.1]
  refine ⟨hAbsent, ?_, ?_⟩
  · rcases hDown.before hGate with ⟨hNil, -⟩ | ⟨w', hWire', hNot⟩
    · have hNil : v.hub.wire = [] := hNil
      simp [hWire] at hNil
    · have hWire' : v.hub.wire = .opn :: w' := hWire'
      rw [hWire] at hWire'
      cases hWire'
      exact hNot
  · by_contra hFresh
    have hNil := (h.fresh (Bool.eq_true_of_not_eq_false hFresh)).2.1
    simp [hWire] at hNil

theorem Wf.head {v : VirtualStream} (h : v.Wf) (hDown : Sound v.down) {i : StreamItem}
    {w : List StreamItem} (hWire : v.hub.wire = i :: w) (hItem : i ≠ .opn) :
    v.spoke.run.pc ≠ .absent := by
  intro hAbsent
  have hGate : v.down.gate = .before := by simp [down, hAbsent, (h.absent hAbsent).2.2.2.1]
  rcases hDown.before hGate with ⟨hNil, -⟩ | ⟨w', hWire', -⟩
  · have hNil : v.hub.wire = [] := hNil
    simp [hWire] at hNil
  · have hWire' : v.hub.wire = .opn :: w' := hWire'
    rw [hWire] at hWire'
    exact hItem (List.cons.inj hWire').1

theorem Wf.hubStep {h h' : HubEnd} {k : SpokeEnd} {e : StreamEv} (hWf : Wf ⟨h, k⟩)
    (hStep : HubStep h e h') : Wf ⟨h', k⟩ := by
  obtain ⟨hUnborn, hHeld, hAbsent, hFresh, hAnnounced, hOpn, hPlain⟩ := hWf
  cases hStep with
  | born c hUp hDown => constructor <;> simp_all [HubEnd.fresh]
  | _ => constructor <;> simp_all [HubEnd.fresh, HubStream.drop, Socket.shutdown, Socket.write]

theorem Wf.hubRecv {h h' : HubEnd} {k : SpokeEnd} {i : StreamItem} {w : List StreamItem}
    (hWf : Wf ⟨h, k⟩) (hWire : k.wire = i :: w) (hRecv : HubRecv h i h') :
    Wf ⟨h', { k with wire := w }⟩ := by
  obtain ⟨hUnborn, hHeld, hAbsent, hFresh, hAnnounced, hOpn, hPlain⟩ := hWf
  cases hRecv <;> constructor <;> simp_all [HubEnd.fresh]

theorem Wf.spokeStep {h : HubEnd} {k k' : SpokeEnd} {e : StreamEv} (hWf : Wf ⟨h, k⟩)
    (hStep : SpokeStep k e k') : Wf ⟨h, k'⟩ := by
  obtain ⟨hUnborn, hHeld, hAbsent, hFresh, hAnnounced, hOpn, hPlain⟩ := hWf
  cases hStep <;> constructor <;> simp_all [HubEnd.fresh]

theorem Wf.step {v w : VirtualStream} {e : StreamEv} (h : v.Wf) (hDown : Sound v.down)
    (hStep : StreamStep v e w) : w.Wf := by
  have hHead := fun w => h.opn_head hDown (w := w)
  clear hDown
  cases hStep with
  | connect h' k =>
    obtain ⟨hUnborn, hHeld, hAbsent, hFresh, hAnnounced, hOpn, hPlain⟩ := h
    exact ⟨hUnborn, hHeld, hAbsent, hFresh, hAnnounced, hOpn, hPlain⟩
  | hub h' h'' k e hStep => exact h.hubStep hStep
  | spoke h' k k' e hStep => exact h.spokeStep hStep
  | up h' h'' k i w hWire hRecv => exact h.hubRecv hWire hRecv
  | down h' k k' i w hWire hRecv =>
    obtain ⟨hUnborn, hHeld, hAbsent, hFresh, hAnnounced, hOpn, hPlain⟩ := h
    cases hRecv with
    | opn target =>
      obtain ⟨hNone, hNot, hTold⟩ := hHead w hWire
      clear hHead
      constructor <;> simp_all [HubEnd.fresh]
    | _ =>
      clear hHead
      constructor <;> simp_all [HubEnd.fresh]
  | refuse h' k w hWire =>
    obtain ⟨hUnborn, hHeld, hAbsent, hFresh, hAnnounced, hOpn, hPlain⟩ := h
    obtain ⟨hNone, hNot, hTold⟩ := hHead w hWire
    clear hHead
    constructor <;> simp_all [HubEnd.fresh]

/-! ## From the hub to the target -/

/-- Everything before the end has reached the target, or will not. -/
def downEnded (v : VirtualStream) : Prop := v.down.gate = .shut ∧ v.down.arrived = []

/-- The steps at which bytes on their way to the target are lost. -/
def LosesDown (v : VirtualStream) : StreamEv → Prop
  | .up .tau => v.hub.rx = false ∧ ∃ p, v.hub.st.up = .send p
  | .refuse | .run (.dialed (.error _)) | .run (.write (.error _)) => True
  | .run (.read (.error _)) | .run (.read (.ok 0)) => ¬ v.downEnded
  | .run .tau => v.spoke.tx = false ∧ (∃ p, v.spoke.run.pc = .sendData p) ∧ ¬ v.downEnded
  | _ => False

theorem read_got {k k' : Socket} {n : Nat} {payload : Bytes} (h : k.read n = some (payload, k')) :
    k'.got = k.got ++ payload ∧ k'.put = k.put ∧ k'.fin = k.fin ∧ k.inbox = payload ++ k'.inbox := by
  unfold Socket.read at h
  split at h
  · cases h; simp
  · cases h

theorem down_refines_hub {h h' : HubEnd} {k : SpokeEnd} {e : StreamEv} (hWf : Wf ⟨h, k⟩)
    (hDown : Sound (down ⟨h, k⟩)) (hStep : HubStep h e h') :
    Steps (¬ LosesDown ⟨h, k⟩ e) (down ⟨h, k⟩) (down ⟨h', k⟩) := by
  cases hStep with
  | born c hUp hNone =>
    refine .of_same ?_
    have hGot : h.st.sock.got = [] := (hDown.idle (by simp [down, hUp, UpPc.src])).1
    simp [down, hUp, UpPc.src, Socket.fresh, hGot]
  | announce hUp hAnnounced hRegistered hRx =>
    obtain ⟨hAbsent, hWire, -⟩ := hWf.fresh (by simp [HubEnd.fresh, hUp, hAnnounced])
    have hEntry := (hWf.absent hAbsent).2.2.2.1
    refine .of_eq (.announce _ (by simp_all [down]) hWire (by simp [down, hUp, UpPc.src])) ?_
    have hWire : h.wire = [] := hWire
    simp [down, hWire]
  | spawn hUp hAnnounced =>
    refine .of_eq (.start _ (by simp [down, hUp, UpPc.src]) fun hGate => ?_) rfl
    refine (hWf.announced hAnnounced).2 ?_
    simp only [down] at hGate
    split at hGate <;> simp_all
  | dropHeld entry hUp hAnnounced hEntry =>
    exact .of_eq (.quit _ (by simp [down, hUp, UpPc.src])) rfl
  | upFailed err hUp => exact .of_eq (.quit _ (by simp [down, hUp, UpPc.src])) rfl
  | upEof hUp hEof => exact .of_eq (.finish _ (by simp [down, hUp, UpPc.src])) rfl
  | upRead n payload sock hUp hRead =>
    refine .of_eq (.take _ payload (by simp [down, hUp, UpPc.src])) ?_
    simp [down, UpPc.src, (read_got hRead).1]
  | upSent payload hUp hRx => exact .of_eq (.send _ payload (by simp [down, hUp, UpPc.src])) rfl
  | upUnsent payload hUp hRx =>
    exact .of_eq (.fail _ (not_not.mpr ⟨hRx, payload, hUp⟩)) rfl
  | closeSent hUp hRx =>
    have hSrc : (down ⟨h, k⟩).src = .closing := by simp [down, hUp, UpPc.src]
    refine .of_eq (.sendEof _ (by simp [hSrc]) ?_ fun _ => hSrc) rfl
    by_cases hGate : (down ⟨h, k⟩).gate = .before
    · rcases hDown.before hGate with ⟨-, -, hIdle | hDone⟩ | ⟨w, hWire, -⟩
      · simp [hSrc] at hIdle
      · simp [hSrc] at hDone
      · exact .inr (by simp [hWire])
    · exact .inl hGate
  | closeUnsent hUp hRx => exact .of_eq (.quit _ (by simp [down, hUp, UpPc.src])) rfl
  | upRemoved hUp => exact .of_same (by simp [down, hUp, UpPc.src])
  | peer e hFin => exact .of_same (by simp [down])
  | _ => exact .of_same rfl

theorem down_refines_spoke {h : HubEnd} {k k' : SpokeEnd} {e : StreamEv}
    (hStep : SpokeStep k e k') :
    Steps (¬ LosesDown ⟨h, k⟩ e) (down ⟨h, k⟩) (down ⟨h, k'⟩) := by
  cases hStep with
  | dialed hPc => exact .of_same (by simp [down, hPc, RunPc.open, RunPc.rest])
  | undialed reason hPc =>
    refine .of_eq (.die _ fun hs => absurd trivial hs) ?_
    simp [down, hPc, RunPc.open, RunPc.rest]
  | reported reason hPc | unreported reason hPc =>
    exact .of_same (by simp [down, hPc, RunPc.open, RunPc.rest])
  | forgot hPc =>
    refine .of_eq (.cut _ (down_gate (by simp [hPc])) fun _ => .inr (by simp [down, hPc, RunPc.open])) ?_
    simp [down, hPc, RunPc.open, RunPc.rest]
  | failed err hPc =>
    refine .of_eq (.die _ fun hs => not_not.mp hs) ?_
    simp [down, hPc, RunPc.open, RunPc.rest]
  | eof hPc hEof =>
    refine .of_eq (.die _ fun hs => not_not.mp hs) ?_
    simp [down, hPc, RunPc.open, RunPc.rest]
  | read n payload sock hPc hRead =>
    exact .of_same (by simp [down, hPc, RunPc.open, RunPc.rest, (read_got hRead).2.1])
  | recv p q hPc hQueue =>
    refine .of_eq (.dequeue _ p q hQueue (by simp [down, hPc, RunPc.rest])) ?_
    simp [down, hPc, RunPc.open, RunPc.rest]
  | drained hPc hQueue hEntry hSlot =>
    refine .of_eq (.die _ fun _ => ?_) ?_
    · simp [down, hPc, hQueue, hEntry, hSlot, State.arrived, RunPc.rest]
    · simp [down, hPc, RunPc.open, RunPc.rest]
  | sent payload hPc => exact .of_same (by simp [down, hPc, RunPc.open, RunPc.rest])
  | unsent payload hPc hTx =>
    refine .of_eq (.die _ fun hs => ?_) ?_
    · by_contra hNot
      exact hs ⟨hTx, ⟨payload, hPc⟩, hNot⟩
    · simp [down, hPc, RunPc.open, RunPc.rest]
  | eofSent hPc | eofUnsent hPc | written hPc =>
    exact .of_same (by simp [down, hPc, RunPc.open, RunPc.rest])
  | write rest n hPc =>
    refine .of_eq (.write _ n (by simp [down, hPc, RunPc.open])) ?_
    simp [down, hPc, RunPc.open, RunPc.rest, Socket.write]
  | writeFailed rest err hPc =>
    refine .of_eq (.die _ fun hs => absurd trivial hs) ?_
    simp [down, hPc, RunPc.open, RunPc.rest]
  | removed hPc =>
    refine .of_eq (.cut _ (down_gate (by simp [hPc])) fun _ => .inr (by simp [down, hPc, RunPc.open])) ?_
    simp [down, hPc, RunPc.open, RunPc.rest, Socket.shutdown]
  | delivered p hSlot hPc =>
    exact .of_eq (.enqueue _) (by simp [down, hSlot])
  | undelivered p hSlot hPc =>
    exact .of_eq (.unslot _ (by simp [down, hPc, RunPc.open])) (by simp [down])
  | peer e hFin => exact .of_same (by simp [down])
  | _ => exact .of_same rfl

theorem down_refines {v w : VirtualStream} {e : StreamEv} (h : v.Wf) (hDown : Sound v.down)
    (hStep : StreamStep v e w) : Steps (¬ v.LosesDown e) v.down w.down := by
  cases hStep with
  | connect h' k => exact .of_same rfl
  | hub h' h'' k e hStep => exact down_refines_hub h hDown hStep
  | spoke h' k k' e hStep => exact down_refines_spoke hStep
  | up h' h'' k i w hWire hRecv => cases hRecv <;> exact .of_same rfl
  | down h' k k' i w hWire hRecv =>
    cases hRecv with
    | opn target =>
      have hAbsent := (h.opn_head hDown hWire).1
      obtain ⟨hPut, -, hQueue, hEntry, hSlot, -⟩ := h.absent hAbsent
      refine .of_eq (.enter _ w hWire (by simp_all [down])) ?_
      simp_all [down, RunPc.open, RunPc.rest, Socket.fresh]
    | data p hEntry hSlot =>
      exact .of_eq (.pass _ p w hWire (by simp [down, hEntry]) (by simp [down, hSlot])) rfl
    | unknown p hEntry =>
      have hPc := h.head hDown hWire (by simp)
      exact .of_eq (.skip _ p w hWire (by simp_all [down])) rfl
    | eof =>
      have hPc : k.run.pc ≠ .absent := h.head hDown hWire (by simp)
      exact .of_eq (.passEof _ w hWire (down_gate hPc)) (by simp [down, hPc])
  | refuse h' k w hWire =>
    have hAbsent := (h.opn_head hDown hWire).1
    obtain ⟨hPut, -, hQueue, hEntry, hSlot, -⟩ := h.absent hAbsent
    refine .of_eq (.refuse _ w hWire (by simp_all [down]) (not_not.mpr trivial)) ?_
    simp_all [down, RunPc.open, RunPc.rest, Socket.fresh]

/-! ## From the target to the hub -/

/-- Everything before the end has passed the entry in the server's map. -/
def upPassed (v : VirtualStream) : Prop := v.up.src = .done ∧ bytes v.up.wire = []

/-- The steps at which bytes on their way to the hub-side connection are lost. -/
def LosesUp (v : VirtualStream) : StreamEv → Prop
  | .announce => v.hub.entry = false
  | .dropHeld | .down (.write (.error _)) => True
  | .clear => v.hub.entry = true ∧ ¬ v.upPassed
  | .dispatch => v.spoke.run.pc = .refused
  | .up .tau => v.hub.st.up = .remove ∧ v.hub.entry = true ∧ ¬ v.upPassed
  | .run .tau => (v.spoke.tx = false ∧ ∃ p, v.spoke.run.pc = .sendData p) ∨
      ∃ reason, v.spoke.run.pc = .dialFailed reason
  | _ => False

/-- Once the forwarder runs the Open frame is behind the stream. -/
theorem Wf.started {h : HubEnd} {k : SpokeEnd} (hWf : Wf ⟨h, k⟩) (hNotAbsent : h.st.down ≠ .absent)
    (hNotHeld : h.st.down ≠ .held) : h.fresh = false := by
  by_contra hf
  simp only [HubEnd.fresh, Bool.not_eq_false, Bool.or_eq_true, Bool.and_eq_true,
    decide_eq_true_eq] at hf
  rcases hf with hUp | ⟨hUp, -⟩
  · exact hNotAbsent (hWf.unborn hUp).1
  · exact hNotHeld (hWf.held hUp)

/-- A stream that is not announced yet is dropped: its entry settles, and the socket goes. -/
theorem up_dropHeld {h : HubEnd} {k : SpokeEnd} (hWf : Wf ⟨h, k⟩) (entry : Bool)
    (hUp : h.st.up = .held) (hNot : h.announced = false) :
    Steps (¬ LosesUp ⟨h, k⟩ .dropHeld) (up ⟨h, k⟩)
      (up ⟨{ h with st := h.st.drop, entry := entry, registered := false }, k⟩) := by
  have hf : h.fresh = true := by simp [HubEnd.fresh, hUp, hNot]
  obtain ⟨hPc, -, -⟩ := hWf.fresh hf
  have hPc : k.run.pc = .absent := hPc
  have hSettle : Step (¬ LosesUp ⟨h, k⟩ .dropHeld) (up ⟨h, k⟩)
      { up ⟨h, k⟩ with gate := if entry then .opened else .shut } :=
    .settle _ _ (hWf.absent hPc).2.2.2.2.2 (by simp [up, hPc, RunPc.src]) fun hs => absurd trivial hs
  refine .tail (.single hSettle) ?_
  have hDie : Step (¬ LosesUp ⟨h, k⟩ .dropHeld)
      { up ⟨h, k⟩ with gate := if entry then .opened else .shut } _ :=
    .die _ fun hs => absurd trivial hs
  convert hDie using 1
  simp [up, HubEnd.fresh, HubStream.drop, DownPc.rest, DownPc.open, Socket.shutdown]

/-- The entry of a stream is cleared with the session. -/
theorem up_clear {h : HubEnd} {k : SpokeEnd} (hWf : Wf ⟨h, k⟩) :
    Steps (¬ LosesUp ⟨h, k⟩ .clear) (up ⟨h, k⟩) (up ⟨{ h with entry := false }, k⟩) := by
  cases hf : h.fresh with
  | true =>
    obtain ⟨hPc, -, -⟩ := hWf.fresh hf
    have hPc : k.run.pc = .absent := hPc
    refine .of_eq (.settle _ .before (hWf.absent hPc).2.2.2.2.2 (by simp [up, hPc, RunPc.src])
      (by simp)) ?_
    simp_all [up, HubEnd.fresh]
  | false =>
    cases hEntry : h.entry with
    | false => exact .of_same (by simp_all [up, HubEnd.fresh])
    | true =>
      refine .of_eq (.cut _ (up_gate hf) fun hs => .inl ?_) ?_
      · by_contra hNot
        exact hs ⟨hEntry, hNot⟩
      · simp_all [up, HubEnd.fresh]

theorem up_refines_hub {h h' : HubEnd} {k : SpokeEnd} {e : StreamEv} (hWf : Wf ⟨h, k⟩)
    (hStep : HubStep h e h') : Steps (¬ LosesUp ⟨h, k⟩ e) (up ⟨h, k⟩) (up ⟨h', k⟩) := by
  have ⟨hUnborn, hHeld, hAbsent, hFresh, hAnnounced, _, _⟩ := hWf
  simp only at hUnborn hHeld hAbsent hFresh hAnnounced
  cases hStep with
  | born c hUp hNone =>
    obtain ⟨-, hPut, hQueue⟩ := hUnborn hUp
    have hNot : h.announced = false := by
      by_contra hAnn
      simpa [hUp] using (hAnnounced (Bool.eq_true_of_not_eq_false hAnn)).1
    exact .of_same (by simp [up, hUp, hNone, hPut, hQueue, HubEnd.fresh, hNot, DownPc.rest, DownPc.open,
      Socket.fresh])
  | register hUp hNot =>
    have hf : h.fresh = true := by simp [HubEnd.fresh, hUp, hNot]
    obtain ⟨hPc, -, -⟩ := hFresh hf
    refine .of_eq (.settle _ .opened (hAbsent hPc).2.2.2.2.2 (by simp [up, hPc, RunPc.src]) (by simp)) ?_
    simp [up]
  | announce hUp hNot hRegistered hRx =>
    have hf : h.fresh = true := by simp [HubEnd.fresh, hUp, hNot]
    obtain ⟨hPc, -, -⟩ := hFresh hf
    cases hEntry : h.entry with
    | true => exact .of_same (by simp [up, hEntry])
    | false =>
      refine .of_eq (.settle _ .shut (hAbsent hPc).2.2.2.2.2 (by simp [up, hPc, RunPc.src])
        fun hs => absurd hEntry hs) ?_
      simp [up, hEntry, HubEnd.fresh, hUp]
  | spawn hUp hAnn =>
    exact .of_same (by simp [up, HubEnd.fresh, hUp, hAnn, hHeld hUp, DownPc.rest, DownPc.open])
  | dropHeld entry hUp hNot hEntry => exact up_dropHeld hWf entry hUp hNot
  | upRemoved hUp =>
    have hf : h.fresh = false := by simp [HubEnd.fresh, hUp]
    cases hEntry : h.entry with
    | false => exact .of_same (by simp [up, hEntry, HubEnd.fresh, hUp])
    | true =>
      refine .of_eq (.cut _ (by simp [up, hEntry]) fun hs => .inl ?_) ?_
      · by_contra hNot
        exact hs ⟨hUp, hEntry, hNot⟩
      · simp [up, HubEnd.fresh]
  | upFailed err hUp | upEof hUp | upUnsent payload hUp | closeSent hUp | closeUnsent hUp =>
    exact .of_same (by simp [up, HubEnd.fresh, hUp])
  | upSent payload hUp => exact .of_same (by simp [up, HubEnd.fresh, hUp])
  | upRead n payload sock hUp hRead =>
    exact .of_same (by simp [up, HubEnd.fresh, hUp, (read_got hRead).2.1])
  | downRecv p q hDown hQueue =>
    refine .of_eq (.dequeue _ p q hQueue (by simp [up, hDown, DownPc.rest])) ?_
    simp [up, hDown, HubEnd.fresh, DownPc.rest, DownPc.open]
  | downDrained hDown hQueue hEntry hSlot =>
    have hf := hWf.started (by simp [hDown]) (by simp [hDown])
    refine .of_eq (.die _ fun _ => ?_) ?_
    · simp [up, hEntry, hf, hSlot, hQueue, hDown, State.arrived, DownPc.rest]
    · simp [up, hDown, HubEnd.fresh, DownPc.rest, DownPc.open]
  | downWritten hDown =>
    exact .of_same (by simp [up, hDown, HubEnd.fresh, DownPc.rest, DownPc.open])
  | downWrite rest n hDown =>
    refine .of_eq (.write _ n (by simp [up, hDown, DownPc.open])) ?_
    simp [up, hDown, HubEnd.fresh, DownPc.rest, DownPc.open, Socket.write]
  | downFailed rest err hDown =>
    refine .of_eq (.die _ fun hs => absurd trivial hs) ?_
    simp [up, hDown, HubEnd.fresh, DownPc.rest, DownPc.open]
  | downShutdown hDown =>
    exact .of_same (by simp [up, hDown, HubEnd.fresh, DownPc.rest, DownPc.open, Socket.shutdown])
  | clear => exact up_clear hWf
  | forget hDown =>
    have hf := hWf.started (by simp [hDown]) (by simp [hDown])
    refine .of_eq (.cut _ (up_gate hf) fun _ => .inr (by simp [up, hDown, DownPc.open])) ?_
    simp_all [up, HubEnd.fresh]
  | delivered p hSlot hDown => exact .of_eq (.enqueue _) (by simp [up, hSlot, HubEnd.fresh])
  | undelivered p hSlot hDown =>
    exact .of_eq (.unslot _ (by simp [up, hDown, DownPc.open])) (by simp [up, HubEnd.fresh])
  | peer e hFin => exact .of_same (by simp [up, HubEnd.fresh])
  | dropRx => exact .of_same rfl

theorem up_refines_spoke {h : HubEnd} {k k' : SpokeEnd} {e : StreamEv} (hWf : Wf ⟨h, k⟩)
    (hStep : SpokeStep k e k') : Steps (¬ LosesUp ⟨h, k⟩ e) (up ⟨h, k⟩) (up ⟨h, k'⟩) := by
  -- a task exists only after the Open frame was sent
  have hGate : k.run.pc ≠ .absent → (up ⟨h, k⟩).gate ≠ .before := by
    intro hPc
    have hf : h.fresh = false := by
      by_contra hf
      exact hPc (hWf.fresh (Bool.eq_true_of_not_eq_false hf)).1
    exact up_gate hf
  cases hStep with
  | dialed hPc =>
    exact .of_eq (.start _ (by simp [up, hPc, RunPc.src]) fun hg => absurd hg (hGate (by simp [hPc]))) rfl
  | undialed reason hPc => exact .of_eq (.quit _ (by simp [up, hPc, RunPc.src])) rfl
  | reported reason hPc hTx =>
    refine .of_eq (.sendEof _ (by simp [up, hPc, RunPc.src]) (.inl (hGate (by simp [hPc]))) fun hs => ?_) rfl
    exact absurd (.inr ⟨reason, hPc⟩) hs
  | unreported reason hPc => exact .of_same (by simp [up, hPc, RunPc.src])
  | forgot hPc => exact .of_same (by simp [up, hPc, RunPc.src])
  | failed err hPc => exact .of_eq (.finish _ (by simp [up, hPc, RunPc.src])) rfl
  | eof hPc hEof => exact .of_eq (.finish _ (by simp [up, hPc, RunPc.src])) rfl
  | read n payload sock hPc hRead =>
    refine .of_eq (.take _ payload (by simp [up, hPc, RunPc.src])) ?_
    simp [up, RunPc.src, (read_got hRead).1]
  | recv p q hPc hQueue => exact .of_same (by simp [up, hPc, RunPc.src])
  | drained hPc => exact .of_eq (.quit _ (by simp [up, hPc, RunPc.src])) rfl
  | sent payload hPc hTx => exact .of_eq (.send _ payload (by simp [up, hPc, RunPc.src])) rfl
  | unsent payload hPc hTx => exact .of_eq (.fail _ (not_not.mpr (.inl ⟨hTx, payload, hPc⟩))) rfl
  | eofSent hPc hTx =>
    exact .of_eq (.sendEof _ (by simp [up, hPc, RunPc.src]) (.inl (hGate (by simp [hPc])))
      fun _ => by simp [up, hPc, RunPc.src]) rfl
  | eofUnsent hPc hTx => exact .of_eq (.quit _ (by simp [up, hPc, RunPc.src])) rfl
  | written hPc => exact .of_same (by simp [up, hPc, RunPc.src])
  | write rest n hPc => exact .of_same (by simp [up, hPc, RunPc.src, Socket.write])
  | writeFailed rest err hPc => exact .of_eq (.quit _ (by simp [up, hPc, RunPc.src])) rfl
  | removed hPc => exact .of_same (by simp [up, hPc, RunPc.src, Socket.shutdown])
  | reportedUnknown hPc hTx =>
    exact .of_eq (.sendEof _ (by simp [up, hPc, RunPc.src]) (.inl (hGate (by simp [hPc])))
      fun hs => absurd hPc hs) (by simp [up, hPc, RunPc.src])
  | peer e hFin => exact .of_same (by simp [up])
  | _ => exact .of_same rfl

theorem up_refines {v w : VirtualStream} {e : StreamEv} (h : v.Wf) (hDown : Sound v.down)
    (hStep : StreamStep v e w) : Steps (¬ v.LosesUp e) v.up w.up := by
  cases hStep with
  | connect h' k => exact .of_same rfl
  | hub h' h'' k e hStep => exact up_refines_hub h hStep
  | spoke h' k k' e hStep => exact up_refines_spoke h hStep
  | up h' h'' k i w hWire hRecv =>
    have hf : h'.fresh = false := by
      by_contra hf
      have hPc := (h.fresh (Bool.eq_true_of_not_eq_false hf)).1
      have hNil := (h.absent hPc).2.2.2.2.2
      simp [hWire] at hNil
    cases hRecv with
    | data p hEntry hSlot =>
      exact .of_eq (.pass _ p w hWire (by simp [up, hEntry]) (by simp [up, hSlot])) rfl
    | unknown p hEntry => exact .of_eq (.skip _ p w hWire (by simp [up, hEntry, hf])) rfl
    | eof =>
      exact .of_eq (.passEof _ w hWire (up_gate hf)) (by simp_all [up, HubEnd.fresh])
  | down h' k k' i w hWire hRecv =>
    cases hRecv with
    | opn target =>
      have hAbsent := (h.opn_head hDown hWire).1
      obtain ⟨-, hGot, -⟩ := h.absent hAbsent
      exact .of_same (by simp_all [up, RunPc.src, Socket.fresh, HubEnd.fresh])
    | _ => exact .of_same rfl
  | refuse h' k w hWire =>
    have hAbsent := (h.opn_head hDown hWire).1
    obtain ⟨-, hGot, -⟩ := h.absent hAbsent
    refine .of_eq (.quit _ (by simp_all [up, RunPc.src])) ?_
    simp_all [up, RunPc.src, Socket.fresh, HubEnd.fresh]

/-! ## Both together -/

structure Ok (v : VirtualStream) : Prop where
  wf : v.Wf
  down : Sound v.down
  up : Sound v.up

theorem Ok.step {v w : VirtualStream} {e : StreamEv} (h : v.Ok) (hStep : StreamStep v e w) :
    w.Ok :=
  ⟨h.wf.step h.down hStep, h.down.steps (down_refines h.wf h.down hStep),
    h.up.steps (up_refines h.wf h.down hStep)⟩

end VirtualStream

end OpenSpoke.Tunnel
