import Mathlib.Data.List.Basic
import Mathlib.Data.List.Infix
import Mathlib.Data.List.Flatten
import Mathlib.Logic.Relation

/-!
# One direction of a byte stream through a relay

A source is read in chunks. Each chunk crosses a FIFO wire as an item, passes the
receiver's gate into a slot, waits in a queue and is written out bit by bit. The
first item opens the gate, an end mark shuts it, and the relay may also shut the
gate or give up the sink on its own.

A step is taken under a proposition `strict`. The steps that can lose bytes are
open to a strict relay only where there is nothing to lose.
-/

namespace Pipe

inductive Item (α : Type*)
  | opn
  | data (p : List α)
  | eof
  deriving DecidableEq

inductive Src (α : Type*)
  | idle
  | live
  -- holds a chunk that it has read
  | hold (p : List α)
  -- has read the end, not yet passed it on
  | closing
  | done
  deriving DecidableEq

inductive Gate
  | before
  | opened
  | shut
  deriving DecidableEq

structure State (α : Type*) where
  got : List α
  src : Src α
  wire : List (Item α)
  gate : Gate
  slot : List α
  queue : List (List α)
  rest : List α
  put : List α
  sink : Bool

variable {α : Type*}

def Item.payload : Item α → List α
  | .data p => p
  | _ => []

def bytes (w : List (Item α)) : List α := w.flatMap Item.payload

@[simp] theorem bytes_nil : bytes ([] : List (Item α)) = [] := rfl
@[simp] theorem bytes_cons (i : Item α) (w : List (Item α)) :
    bytes (i :: w) = i.payload ++ bytes w := rfl
@[simp] theorem bytes_append (v w : List (Item α)) : bytes (v ++ w) = bytes v ++ bytes w :=
  List.flatMap_append
@[simp] theorem payload_opn : (Item.opn : Item α).payload = [] := rfl
@[simp] theorem payload_data (p : List α) : (Item.data p).payload = p := rfl
@[simp] theorem payload_eof : (Item.eof : Item α).payload = [] := rfl

def Src.held : Src α → List α
  | .hold p => p
  | _ => []

@[simp] theorem held_idle : (Src.idle : Src α).held = [] := rfl
@[simp] theorem held_live : (Src.live : Src α).held = [] := rfl
@[simp] theorem held_hold (p : List α) : (Src.hold p).held = p := rfl
@[simp] theorem held_closing : (Src.closing : Src α).held = [] := rfl
@[simp] theorem held_done : (Src.done : Src α).held = [] := rfl

namespace State

/-- Past the gate, not yet written. -/
def arrived (s : State α) : List α := s.rest ++ s.queue.flatten ++ s.slot

/-- Read, and not past the gate. -/
def inTransit (s : State α) : List α := bytes s.wire ++ s.src.held

/-- What is written, and what still will be. -/
def line (s : State α) : List α :=
  s.put ++ if s.sink then s.arrived ++ (if s.gate = .shut then [] else s.inTransit) else []

end State

inductive Step (strict : Prop) : State α → State α → Prop
  | announce (s : State α) (hGate : s.gate = .before) (hWire : s.wire = []) (hSrc : s.src = .idle) :
      Step strict s { s with wire := [.opn] }
  | start (s : State α) (hSrc : s.src = .idle) (hGate : s.gate = .before → .opn ∈ s.wire) :
      Step strict s { s with src := .live }
  | take (s : State α) (p : List α) (hSrc : s.src = .live) :
      Step strict s { s with got := s.got ++ p, src := .hold p }
  | send (s : State α) (p : List α) (hSrc : s.src = .hold p) :
      Step strict s { s with wire := s.wire ++ [.data p], src := .live }
  | finish (s : State α) (hSrc : s.src = .live) : Step strict s { s with src := .closing }
  | sendEof (s : State α) (hSrc : s.src.held = []) (hGate : s.gate ≠ .before ∨ .opn ∈ s.wire)
      (hStrict : strict → s.src = .closing) :
      Step strict s { s with wire := s.wire ++ [.eof], src := .done }
  | quit (s : State α) (hSrc : s.src.held = []) : Step strict s { s with src := .done }
  | fail (s : State α) (hStrict : ¬ strict) : Step strict s { s with src := .done }
  | enter (s : State α) (w : List (Item α)) (hWire : s.wire = .opn :: w) (hGate : s.gate = .before) :
      Step strict s { s with wire := w, gate := .opened }
  | refuse (s : State α) (w : List (Item α)) (hWire : s.wire = .opn :: w) (hGate : s.gate = .before)
      (hStrict : ¬ strict) :
      Step strict s { s with wire := w, gate := .shut, sink := false }
  -- a gate that moves by itself, before anything is read
  | settle (s : State α) (g : Gate) (hWire : s.wire = []) (hSrc : s.src = .idle)
      (hStrict : strict → g ≠ .shut) : Step strict s { s with gate := g }
  | pass (s : State α) (p : List α) (w : List (Item α)) (hWire : s.wire = .data p :: w)
      (hGate : s.gate = .opened) (hSlot : s.slot = []) :
      Step strict s { s with wire := w, slot := p }
  | skip (s : State α) (p : List α) (w : List (Item α)) (hWire : s.wire = .data p :: w)
      (hGate : s.gate = .shut) : Step strict s { s with wire := w }
  | passEof (s : State α) (w : List (Item α)) (hWire : s.wire = .eof :: w)
      (hGate : s.gate ≠ .before) : Step strict s { s with wire := w, gate := .shut }
  | cut (s : State α) (hGate : s.gate ≠ .before)
      (hStrict : strict → s.src = .done ∧ bytes s.wire = [] ∨ s.sink = false) :
      Step strict s { s with gate := .shut }
  | enqueue (s : State α) : Step strict s { s with queue := s.queue ++ [s.slot], slot := [] }
  | unslot (s : State α) (hSink : s.sink = false) : Step strict s { s with slot := [] }
  | dequeue (s : State α) (p : List α) (q : List (List α)) (hQueue : s.queue = p :: q)
      (hRest : s.rest = []) : Step strict s { s with queue := q, rest := p }
  | write (s : State α) (n : Nat) (hSink : s.sink = true) :
      Step strict s { s with put := s.put ++ s.rest.take n, rest := s.rest.drop n }
  | die (s : State α) (hStrict : strict → s.gate = .shut ∧ s.arrived = []) :
      Step strict s { s with sink := false, rest := [] }

/-- Several steps at once. -/
abbrev Steps (strict : Prop) : State α → State α → Prop := Relation.ReflTransGen (Step strict)

theorem Steps.of_eq {strict : Prop} {s t u : State α} (hStep : Step strict s t) (hu : u = t) :
    Steps strict s u := hu ▸ .single hStep

theorem Steps.of_same {strict : Prop} {s u : State α} (hu : u = s) : Steps strict s u := hu ▸ .refl

/-! ## Whatever is lost, what arrives is a prefix -/

structure Sound (s : State α) : Prop where
  idle : s.src = .idle → s.got = [] ∧ bytes s.wire = []
  before : s.gate = .before → (s.wire = [] ∧ s.got = [] ∧ (s.src = .idle ∨ s.src = .done)) ∨
    ∃ w, s.wire = .opn :: w ∧ .opn ∉ w
  after : s.gate ≠ .before → .opn ∉ s.wire
  isPrefix : s.line <+: s.got
  full : s.sink = true → s.gate ≠ .shut → s.src ≠ .done → s.line = s.got

theorem Sound.put_prefix {s : State α} (h : Sound s) : s.put <+: s.got :=
  (List.prefix_append _ _).trans h.isPrefix

theorem Sound.opn_not_mem {s : State α} (h : Sound s) {w : List (Item α)} (hWire : s.wire = .opn :: w)
    (hGate : s.gate = .before) : .opn ∉ w := by
  obtain ⟨hNone, -⟩ | ⟨w', hWire', hNot⟩ := h.before hGate
  · simp [hWire] at hNone
  · rw [hWire] at hWire'
    cases hWire'
    exact hNot

/-- Where the line stays what it was, only the wire is left to check. -/
theorem Sound.of_line {s t : State α} (h : Sound s) (hGot : t.got = s.got) (hLine : t.line = s.line)
    (hFull : t.sink = true → t.gate ≠ .shut → t.src ≠ .done →
      s.sink = true ∧ s.gate ≠ .shut ∧ s.src ≠ .done)
    (hIdle : t.src = .idle → s.src = .idle ∧ bytes t.wire = [])
    (hBefore : t.gate = .before → (t.wire = [] ∧ t.got = [] ∧ (t.src = .idle ∨ t.src = .done)) ∨
      ∃ w, t.wire = .opn :: w ∧ .opn ∉ w)
    (hAfter : t.gate ≠ .before → .opn ∉ t.wire) : Sound t where
  idle hSrc := ⟨hGot ▸ (h.idle (hIdle hSrc).1).1, (hIdle hSrc).2⟩
  before := hBefore
  after := hAfter
  isPrefix := by
    rw [hLine, hGot]
    exact h.isPrefix
  full hSink hGate hSrc := by
    obtain ⟨hSink, hGate, hSrc⟩ := hFull hSink hGate hSrc
    rw [hLine, hGot]
    exact h.full hSink hGate hSrc

theorem Sound.of_shorter {s t : State α} (h : Sound s) (hGot : t.got = s.got)
    (hLine : t.line <+: s.line) (hLost : t.sink = false ∨ t.gate = .shut ∨ t.src = .done)
    (hIdle : t.src = .idle → s.src = .idle ∧ bytes t.wire = [])
    (hBefore : t.gate = .before → (t.wire = [] ∧ t.got = [] ∧ (t.src = .idle ∨ t.src = .done)) ∨
      ∃ w, t.wire = .opn :: w ∧ .opn ∉ w)
    (hAfter : t.gate ≠ .before → .opn ∉ t.wire) : Sound t where
  idle hSrc := ⟨hGot ▸ (h.idle (hIdle hSrc).1).1, (hIdle hSrc).2⟩
  before := hBefore
  after := hAfter
  isPrefix := by
    rw [hGot]
    exact hLine.trans h.isPrefix
  full hSink hGate hSrc := by
    rcases hLost with hLost | hLost | hLost
    · rw [hLost] at hSink
      cases hSink
    · exact absurd hLost hGate
    · exact absurd hLost hSrc

theorem Sound.of_moved {s t : State α} (h : Sound s) (hGot : t.got = s.got) (hSrc : t.src = s.src)
    (hWire : t.wire = s.wire) (hGate : t.gate = s.gate) (hSink : t.sink = s.sink)
    (hLine : t.line = s.line) : Sound t :=
  h.of_line hGot hLine (by rw [hSink, hGate, hSrc]; exact fun hk hg hd => ⟨hk, hg, hd⟩)
    (by rw [hSrc, hWire]; exact fun hi => ⟨hi, (h.idle hi).2⟩)
    (by rw [hGate, hWire, hGot, hSrc]; exact h.before) (by rw [hGate, hWire]; exact h.after)

theorem Sound.announced {s : State α} (h : Sound s) (hGate : s.gate = .before)
    (hIdle : s.src ≠ .idle) (hDone : s.src ≠ .done) : ∃ w, s.wire = .opn :: w ∧ .opn ∉ w := by
  rcases h.before hGate with ⟨-, -, hSrc | hSrc⟩ | hw
  · exact absurd hSrc hIdle
  · exact absurd hSrc hDone
  · exact hw

theorem Sound.idle_tail {s : State α} (h : Sound s) {i : Item α} {w : List (Item α)}
    (hWire : s.wire = i :: w) (hSrc : s.src = .idle) : s.src = .idle ∧ bytes w = [] := by
  have hBytes := (h.idle hSrc).2
  rw [hWire, bytes_cons, List.append_eq_nil_iff] at hBytes
  exact ⟨hSrc, hBytes.2⟩

theorem Sound.take {s : State α} (h : Sound s) (p : List α) (hSrc : s.src = .live) :
    Sound { s with got := s.got ++ p, src := .hold p } := by
  have hMore : s.sink = true → s.gate ≠ .shut →
      State.line { s with got := s.got ++ p, src := .hold p } = s.got ++ p := by
    intro hSink hGate
    rw [← h.full hSink hGate (by simp [hSrc])]
    simp [State.line, State.inTransit, State.arrived, hSink, hGate, hSrc]
  refine ⟨by simp, fun hg => .inr (h.announced hg (by simp [hSrc]) (by simp [hSrc])), h.after, ?_,
    fun hSink hGate _ => hMore hSink hGate⟩
  by_cases hLive : s.sink = true ∧ s.gate ≠ .shut
  · rw [hMore hLive.1 hLive.2]
  · have hSame : State.line { s with got := s.got ++ p, src := .hold p } = s.line := by
      rcases not_and_or.mp hLive with hSink | hGate
      · simp [State.line, hSink]
      · simp [State.line, State.arrived, not_not.mp hGate]
    rw [hSame]
    exact h.isPrefix.trans (List.prefix_append _ _)

theorem Sound.step {strict : Prop} {s t : State α} (h : Sound s) (hStep : Step strict s t) :
    Sound t := by
  obtain ⟨hIdle, hBefore, hAfter, hPrefix, -⟩ := id h
  cases hStep with
  | announce hGate hWire hSrc =>
    exact h.of_line rfl (by simp [State.line, State.inTransit, State.arrived, hWire])
      (fun hk hg hd => ⟨hk, hg, hd⟩) (by simp) (fun _ => .inr ⟨[], rfl, by simp⟩) (by simp [hGate])
  | start hSrc hGate =>
    refine h.of_line rfl (by simp [State.line, State.inTransit, State.arrived, hSrc])
      (fun hk hg _ => ⟨hk, hg, by simp [hSrc]⟩) (by simp) ?_ hAfter
    intro hg
    rcases hBefore hg with ⟨hWire, -⟩ | hw
    · simp only [hWire, List.not_mem_nil, imp_false] at hGate
      exact absurd hg hGate
    · exact .inr hw
  | take p hSrc => exact h.take p hSrc
  | send p hSrc =>
    refine h.of_line rfl (by simp [State.line, State.inTransit, State.arrived, hSrc])
      (fun hk hg _ => ⟨hk, hg, by simp [hSrc]⟩) (by simp) ?_ (by simpa using hAfter)
    intro hg
    obtain ⟨w, hWire, hNot⟩ := h.announced hg (by simp [hSrc]) (by simp [hSrc])
    exact .inr ⟨w ++ [.data p], by simp [hWire], by simp [hNot]⟩
  | finish hSrc =>
    exact h.of_line rfl (by simp [State.line, State.inTransit, State.arrived, hSrc])
      (fun hk hg _ => ⟨hk, hg, by simp [hSrc]⟩) (by simp)
      (fun hg => .inr (h.announced hg (by simp [hSrc]) (by simp [hSrc]))) hAfter
  | sendEof hSrc hGate hStrict =>
    refine h.of_shorter rfl ?_ (.inr (.inr rfl)) (by simp) ?_ (by simpa using hAfter)
    · simp [State.line, State.inTransit, State.arrived, hSrc]
    · intro hg
      rcases hBefore hg with ⟨hWire, -⟩ | ⟨w, hWire, hNot⟩
      · simp only [hWire, List.not_mem_nil, or_false] at hGate
        exact absurd hg hGate
      · exact .inr ⟨w ++ [.eof], by simp [hWire], by simp [hNot]⟩
  | quit hSrc =>
    refine h.of_shorter rfl ?_ (.inr (.inr rfl)) (by simp) ?_ hAfter
    · simp [State.line, State.inTransit, State.arrived, hSrc]
    · exact fun hg => (hBefore hg).imp_left fun hw => ⟨hw.1, hw.2.1, .inr rfl⟩
  | fail hStrict =>
    refine h.of_shorter rfl ?_ (.inr (.inr rfl)) (by simp) ?_ hAfter
    · cases hSink : s.sink <;> by_cases hg : s.gate = .shut <;>
        simp [State.line, State.inTransit, State.arrived, hSink, hg]
    · exact fun hg => (hBefore hg).imp_left fun hw => ⟨hw.1, hw.2.1, .inr rfl⟩
  | enter w hWire hGate =>
    refine h.of_line rfl ?_ (fun hk _ hd => ⟨hk, by simp [hGate], hd⟩) (h.idle_tail hWire) (by simp)
      fun _ => h.opn_not_mem hWire hGate
    simp [State.line, State.inTransit, State.arrived, hWire, hGate]
  | refuse w hWire hGate hStrict =>
    exact h.of_shorter rfl (by simp [State.line]) (.inl rfl) (h.idle_tail hWire) (by simp)
      fun _ => h.opn_not_mem hWire hGate
  | settle g hWire hSrc hStrict =>
    have hGot := (hIdle hSrc).1
    have hLine : State.line { s with gate := g } = s.line := by
      simp [State.line, State.inTransit, State.arrived, hWire, hSrc]
    refine ⟨hIdle, fun _ => .inl ⟨hWire, hGot, .inl hSrc⟩, by simp [hWire], hLine ▸ hPrefix, ?_⟩
    intro _ _ _
    rw [hLine]
    rw [hGot, List.prefix_nil] at hPrefix
    rw [hPrefix, hGot]
  | pass p w hWire hGate hSlot =>
    refine h.of_line rfl ?_ (fun hk hg hd => ⟨hk, hg, hd⟩) (h.idle_tail hWire) (by simp [hGate]) ?_
    · simp [State.line, State.inTransit, State.arrived, hWire, hGate, hSlot]
    · simpa [hWire] using hAfter
  | skip p w hWire hGate =>
    refine h.of_line rfl ?_ (fun hk hg hd => ⟨hk, hg, hd⟩) (h.idle_tail hWire) (by simp [hGate]) ?_
    · simp [State.line, State.arrived, hGate]
    · simpa [hWire] using hAfter
  | passEof w hWire hGate =>
    refine h.of_shorter rfl ?_ (.inr (.inl rfl)) (h.idle_tail hWire) (by simp) ?_
    · cases hSink : s.sink <;> by_cases hg : s.gate = .shut <;>
        simp [State.line, State.arrived, hSink, hg]
    · simpa [hWire] using hAfter hGate
  | cut hGate hStrict =>
    refine h.of_shorter rfl ?_ (.inr (.inl rfl)) (fun hi => ⟨hi, (hIdle hi).2⟩) (by simp)
      (fun _ => hAfter hGate)
    cases hSink : s.sink <;> by_cases hg : s.gate = .shut <;>
      simp [State.line, State.arrived, hSink, hg]
  | enqueue =>
    refine h.of_moved rfl rfl rfl rfl rfl ?_
    simp [State.line, State.arrived, State.inTransit]
  | unslot hSink =>
    refine h.of_moved rfl rfl rfl rfl rfl ?_
    simp [State.line, hSink]
  | dequeue p q hQueue hRest =>
    refine h.of_moved rfl rfl rfl rfl rfl ?_
    simp [State.line, State.arrived, State.inTransit, hQueue, hRest]
  | write n hSink =>
    refine h.of_moved rfl rfl rfl rfl rfl ?_
    have hSplit : s.put ++ s.rest.take n ++ s.rest.drop n = s.put ++ s.rest := by simp
    simp only [State.line, State.arrived, State.inTransit, hSink, if_true, ← List.append_assoc, hSplit]
  | die hStrict =>
    exact h.of_shorter rfl (by simp [State.line]) (.inl rfl) (fun hi => ⟨hi, (hIdle hi).2⟩) hBefore hAfter

theorem Sound.steps {strict : Prop} {s t : State α} (h : Sound s) (hSteps : Steps strict s t) :
    Sound t := by
  induction hSteps with
  | refl => exact h
  | tail _ hStep ih => exact ih.step hStep

/-! ## A strict relay loses nothing -/

/-- Every byte read is written or still on its way. -/
structure Whole (s : State α) : Prop where
  all : s.put ++ s.arrived ++ s.inTransit = s.got
  shut : s.gate = .shut → s.src = .done ∧ bytes s.wire = []
  dead : s.sink = false → s.gate = .shut ∧ s.arrived = []
  ended : .eof ∈ s.wire → s.src = .done ∧ ∃ w, s.wire = w ++ [.eof] ∧ .eof ∉ w

theorem ended_tail {w v : List (Item α)} {i : Item α} (hWire : w = i :: v)
    (hEnded : ∃ u, w = u ++ [.eof] ∧ .eof ∉ u) : (.eof ∈ v → ∃ u, v = u ++ [.eof] ∧ .eof ∉ u) ∧
      (i = .eof → v = []) := by
  obtain ⟨u, hu, hNot⟩ := hEnded
  rw [hWire] at hu
  cases u with
  | nil =>
    obtain ⟨rfl, rfl⟩ := List.cons.inj hu
    exact ⟨by simp, fun _ => rfl⟩
  | cons j u =>
    obtain ⟨rfl, rfl⟩ := List.cons.inj hu
    refine ⟨fun _ => ⟨u, rfl, fun h => hNot (List.mem_cons_of_mem _ h)⟩, ?_⟩
    rintro rfl
    simp at hNot

theorem Whole.step {strict : Prop} {s t : State α} (h : Whole s) (hs : strict)
    (hStep : Step strict s t) : Whole t := by
  obtain ⟨hAll, hShut, hDead, hEnded⟩ := h
  have hTail : ∀ {i w}, s.wire = i :: w → .eof ∈ w →
      s.src = .done ∧ ∃ v, w = v ++ [.eof] ∧ .eof ∉ v := by
    intro i w hWire hIn
    obtain ⟨hDone, hw⟩ := hEnded (hWire ▸ List.mem_cons_of_mem _ hIn)
    exact ⟨hDone, (ended_tail hWire hw).1 hIn⟩
  have hUp : s.gate ≠ .shut → s.sink = true := by
    intro hGate
    by_contra hSink
    exact hGate (hDead (Bool.eq_false_iff.mpr hSink)).1
  have hOpen : s.src ≠ .done → s.gate ≠ .shut ∧ s.sink = true ∧ .eof ∉ s.wire := by
    intro hSrc
    have hGate : s.gate ≠ .shut := fun hg => hSrc (hShut hg).1
    exact ⟨hGate, hUp hGate, fun hIn => hSrc (hEnded hIn).1⟩
  cases hStep with
  | announce hGate hWire hSrc =>
    exact ⟨by simpa [State.inTransit, hWire, State.arrived] using hAll, by simp [hGate],
      by simpa [State.arrived, hGate] using hDead, by simp⟩
  | start hSrc hGate =>
    obtain ⟨hg, hk, hw⟩ := hOpen (by simp [hSrc])
    exact ⟨by simpa [State.inTransit, hSrc, State.arrived] using hAll, by simp [hg], by simp [hk],
      fun hIn => absurd hIn hw⟩
  | take p hSrc =>
    obtain ⟨hg, hk, hw⟩ := hOpen (by simp [hSrc])
    refine ⟨?_, by simp [hg], by simp [hk], fun hIn => absurd hIn hw⟩
    rw [← hAll]
    simp [State.inTransit, hSrc, State.arrived]
  | send p hSrc =>
    obtain ⟨hg, hk, hw⟩ := hOpen (by simp [hSrc])
    exact ⟨by simpa [State.inTransit, hSrc, State.arrived] using hAll, by simp [hg], by simp [hk],
      by simp [hw]⟩
  | finish hSrc =>
    obtain ⟨hg, hk, hw⟩ := hOpen (by simp [hSrc])
    exact ⟨by simpa [State.inTransit, hSrc, State.arrived] using hAll, by simp [hg], by simp [hk],
      fun hIn => absurd hIn hw⟩
  | sendEof hHeld hGate hStrict =>
    have hSrc := hStrict hs
    obtain ⟨hg, hk, hw⟩ := hOpen (by simp [hSrc])
    exact ⟨by simpa [State.inTransit, hSrc, State.arrived] using hAll, by simp [hg], by simp [hk],
      fun _ => ⟨rfl, s.wire, rfl, hw⟩⟩
  | quit hHeld =>
    exact ⟨by simpa [State.inTransit, hHeld, State.arrived] using hAll, fun hg => ⟨rfl, (hShut hg).2⟩,
      hDead, fun hIn => ⟨rfl, (hEnded hIn).2⟩⟩
  | fail hStrict => exact absurd hs hStrict
  | enter w hWire hGate =>
    have hk := hUp (by simp [hGate])
    exact ⟨by simpa [State.inTransit, hWire, State.arrived] using hAll, by simp, by simp [hk],
      hTail hWire⟩
  | refuse w hWire hGate hStrict => exact absurd hs hStrict
  | settle g hWire hSrc hStrict =>
    have hk := (hOpen (by simp [hSrc])).2.1
    exact ⟨hAll, fun hg => absurd hg (hStrict hs), by simp [hk], hEnded⟩
  | pass p w hWire hGate hSlot =>
    refine ⟨?_, by simp [hGate], by simpa [State.arrived, hGate] using hDead, hTail hWire⟩
    rw [← hAll]
    simp [State.inTransit, hWire, State.arrived, hSlot]
  | skip p w hWire hGate =>
    obtain ⟨hSrc, hBytes⟩ := hShut hGate
    rw [hWire, bytes_cons, List.append_eq_nil_iff] at hBytes
    refine ⟨?_, fun _ => ⟨hSrc, hBytes.2⟩, hDead, hTail hWire⟩
    rw [← hAll]
    have hNone : p = [] := hBytes.1
    simp [State.inTransit, hWire, State.arrived, hNone]
  | passEof w hWire hGate =>
    obtain ⟨hSrc, hw⟩ := hEnded (by simp [hWire])
    have hNil := (ended_tail hWire hw).2 rfl
    refine ⟨?_, fun _ => ⟨hSrc, by simp [hNil]⟩, fun hk => ⟨rfl, (hDead hk).2⟩, hTail hWire⟩
    simpa [State.inTransit, hWire, State.arrived] using hAll
  | cut hGate hStrict =>
    refine ⟨hAll, fun _ => ?_, fun hk => ⟨rfl, (hDead hk).2⟩, hEnded⟩
    rcases hStrict hs with hDone | hk
    · exact hDone
    · exact hShut (hDead hk).1
  | enqueue =>
    exact ⟨by simpa [State.inTransit, State.arrived] using hAll, hShut,
      by simpa [State.arrived] using hDead, hEnded⟩
  | unslot hSink =>
    obtain ⟨hg, hNone⟩ := hDead hSink
    simp only [State.arrived, List.append_eq_nil_iff] at hNone
    refine ⟨?_, hShut, fun _ => ⟨hg, by simp [State.arrived, hNone.1]⟩, hEnded⟩
    rw [← hAll]
    simp [State.arrived, State.inTransit, hNone.2]
  | dequeue p q hQueue hRest =>
    exact ⟨by simpa [State.inTransit, State.arrived, hQueue, hRest] using hAll, hShut,
      by simpa [State.arrived, hQueue, hRest] using hDead, hEnded⟩
  | write n hSink =>
    refine ⟨?_, hShut, by simp [hSink], hEnded⟩
    rw [← hAll]
    have hSplit : s.put ++ s.rest.take n ++ s.rest.drop n = s.put ++ s.rest := by simp
    simp only [State.arrived, State.inTransit, ← List.append_assoc, hSplit]
  | die hStrict =>
    obtain ⟨hg, hNone⟩ := hStrict hs
    simp only [State.arrived, List.append_eq_nil_iff] at hNone
    refine ⟨?_, hShut, fun _ => ⟨hg, by simp [State.arrived, hNone.1, hNone.2]⟩, hEnded⟩
    rw [← hAll]
    simp [State.arrived, State.inTransit, hNone.1]

theorem Whole.steps {strict : Prop} {s t : State α} (h : Whole s) (hs : strict)
    (hSteps : Steps strict s t) : Whole t := by
  induction hSteps with
  | refl => exact h
  | tail _ hStep ih => exact ih.step hs hStep

end Pipe
