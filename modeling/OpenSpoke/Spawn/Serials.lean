import OpenSpoke.Lib.Calls
import OpenSpoke.Lib.Lts
import OpenSpoke.Python.Int

/-!
# The serials of spawns

`_spawn_next_serial` lets OpenSearch count a document up and gets the document
in a second request. Three replicas of the kernel serve `core_spawn_submit`, and
an update may be applied after its caller has given up on it. The runs are those
up to the update at which the counter would wrap.
-/

namespace OpenSpoke.Spawn.Serial

open Lts
open Python (Text)

/-- The painless script, or its upsert. -/
def bump : Option Int → Int
  | none => 1
  | some counter => counter + 1

/-- The largest Integer and the largest Long of painless, which have no successor. -/
def wraps (counter : Option Int) : Bool :=
  counter = some (2 ^ 31 - 1) || counter = some (2 ^ 63 - 1)

/-- `f"{((counter - 1) % 99) + 1:02d}"`. -/
def serialOf (counter : Int) : Text := Python.zeroPad 2 ((counter - 1) % 99 + 1).toNat

/-- A call of `_spawn_next_serial`, with the value that its own update has made. -/
inductive Pc
  -- about to send the update
  | update
  -- has raised, with the update still under way
  | sent
  | read (own : Int)
  | done (own : Int) (serial : Text)
  | raised
  deriving DecidableEq

/-- What the second request brings. -/
inductive Answer
  | found
  -- a body without a counter
  | bare
  -- no body that is JSON
  | broken
  deriving DecidableEq

structure World where
  counter : Option Int
  calls : List Pc
  deriving DecidableEq

def World.start (counter : Option Int) : World := ⟨counter, []⟩

def World.call (s : World) (n : Nat) : Pc := s.calls.getD n .raised

def World.goto (s : World) (n : Nat) (pc : Pc) : World := { s with calls := s.calls.set n pc }

def World.count (s : World) : World := { s with counter := some (bump s.counter) }

@[simp] theorem World.call_count (s : World) : s.count.call = s.call := rfl

inductive SerialAct
  | begin
  | update (n : Nat)
  | raise (n : Nat)
  | apply (n : Nat)
  | read (n : Nat) (answer : Answer)
  deriving DecidableEq

/-- What a read makes of its call. -/
def readBack (own : Int) (counter : Option Int) : Answer → Pc
  | .found => counter.elim .raised fun c => .done own (serialOf c)
  | .bare => .done own (serialOf 1)
  | .broken => .raised

def step (s : World) : SerialAct → Option World
  | .begin => some { s with calls := s.calls ++ [.update] }
  | .update n =>
    match s.call n with
    | .update => if wraps s.counter then none else some (s.count.goto n (.read (bump s.counter)))
    | _ => none
  | .raise n =>
    match s.call n with
    | .update => some (s.goto n .sent)
    | _ => none
  | .apply n =>
    match s.call n with
    | .sent => if wraps s.counter then none else some (s.count.goto n .raised)
    | _ => none
  | .read n answer =>
    match s.call n with
    | .read own => some (s.goto n (readBack own s.counter answer))
    | _ => none

/-! ## What the serials should be -/

/-- The value of the call's own update, once it is applied. -/
def Pc.own : Pc → Option Int
  | .read own | .done own _ => some own
  | _ => none

def Pc.OwnSerial : Pc → Prop
  | .done own serial => serial = serialOf own
  | _ => True

/-- Every serial handed out is that of its call's own update. -/
def World.OwnSerials (s : World) : Prop := ∀ n, (s.call n).OwnSerial

/-- Submissions whose updates are among 99 consecutive ones have different serials. -/
def World.Distinct (s : World) : Prop :=
  ∀ first : Int, ∀ n m, n ≠ m → ∀ i j serial serial',
    s.call n = .done i serial → s.call m = .done j serial' →
    first ≤ i ∧ i < first + 99 → first ≤ j ∧ j < first + 99 → serial ≠ serial'

/-- The condition on a read: it comes after its call's own update and a multiple of 99 others,
none as a rule. -/
def World.undisturbed (s : World) : SerialAct → Bool
  | .read n answer =>
    match s.call n, answer, s.counter with
    | .read own, .found, some counter => (counter - own) % 99 = 0
    | .read own, .bare, _ => (1 - own) % 99 = 0
    | _, _, _ => true
  | _ => true

theorem serialOf_eq_iff (i j : Int) : serialOf i = serialOf j ↔ (i - j) % 99 = 0 := by
  constructor
  · intro h
    have hNat := Python.zeroPad_inj h
    omega
  · intro h
    have hMod : (i - 1) % 99 = (j - 1) % 99 := by omega
    rw [serialOf, serialOf, hMod]

theorem readBack_ownSerial (own : Int) (counter : Option Int) (answer : Answer) :
    (readBack own counter answer).OwnSerial ↔
      match answer, counter with
      | .found, some c => (c - own) % 99 = 0
      | .bare, _ => (1 - own) % 99 = 0
      | _, _ => True := by
  cases answer with
  | found =>
    cases counter with
    | none => exact Iff.rfl
    | some c => exact serialOf_eq_iff c own
  | bare => exact serialOf_eq_iff 1 own
  | broken => exact Iff.rfl

/-! ## One step -/

theorem call_goto {s : World} {n : Nat} {pc : Pc} (hPc : s.call n ≠ .raised) :
    (s.goto n pc).call = Function.update s.call n pc :=
  Calls.getD_set (Calls.lt_of_ne hPc) pc .raised

theorem own_of_update {f : Nat → Pc} {n m : Nat} {pc : Pc} {own : Int}
    (h : (Function.update f n pc m).own = some own) :
    m = n ∧ pc.own = some own ∨ (f m).own = some own := by
  rw [Function.update_apply] at h
  split at h
  next hm => exact .inl ⟨hm, h⟩
  next => exact .inr h

theorem step_calls {s t : World} {a : SerialAct} (hs : step s a = some t) :
    ∃ n pc, t.call = Function.update s.call n pc ∧ (s.call n).OwnSerial ∧
      (pc.OwnSerial ↔ s.undisturbed a = true) := by
  cases a with
  | begin =>
    cases hs
    refine ⟨s.calls.length, .update, Calls.getD_append s.calls .update .raised, ?_, ?_⟩
    · rw [World.call, List.getD_eq_default _ _ (Nat.le_refl _)]
      trivial
    · simp [Pc.OwnSerial, World.undisturbed]
  | update n | apply n =>
    rw [step] at hs
    split at hs <;> try cases hs
    next hPc =>
      split at hs <;> cases hs
      refine ⟨n, _, call_goto (by simp [hPc]), hPc ▸ trivial, ?_⟩
      simp [Pc.OwnSerial, World.undisturbed]
  | raise n =>
    rw [step] at hs
    split at hs <;> cases hs
    next hPc =>
      refine ⟨n, _, call_goto (by simp [hPc]), hPc ▸ trivial, ?_⟩
      simp [Pc.OwnSerial, World.undisturbed]
  | read n answer =>
    rw [step] at hs
    split at hs <;> cases hs
    next own hPc =>
      refine ⟨n, _, call_goto (by simp [hPc]), hPc ▸ trivial, ?_⟩
      rw [readBack_ownSerial]
      simp only [World.undisturbed, hPc]
      cases answer <;> cases s.counter <;> simp

theorem step_ownSerials {s t : World} {a : SerialAct} (hs : step s a = some t) :
    t.OwnSerials ↔ s.OwnSerials ∧ s.undisturbed a = true := by
  obtain ⟨n, pc, hCalls, hBefore, hAfter⟩ := step_calls hs
  rw [World.OwnSerials, hCalls, Function.forall_update_iff s.call fun _ pc => pc.OwnSerial, hAfter]
  constructor
  · rintro ⟨hOk, hRest⟩
    refine ⟨fun m => ?_, hOk⟩
    by_cases hm : m = n
    · rwa [hm]
    · exact hRest m hm
  · rintro ⟨hOwn, hOk⟩
    exact ⟨hOk, fun m _ => hOwn m⟩

/-! ## Whole runs -/

/-- The calls' own values are different, and none is past the counter. -/
structure Inv (s : World) : Prop where
  counted : ∀ n own, (s.call n).own = some own → ∃ c, s.counter = some c ∧ own ≤ c
  apart : ∀ n m own, (s.call n).own = some own → (s.call m).own = some own → n = m

theorem Inv.start (counter : Option Int) : Inv (World.start counter) where
  counted := by
    intro n own h
    simp [World.start, World.call, Pc.own] at h
  apart := by
    intro n m own h
    simp [World.start, World.call, Pc.own] at h

theorem own_readBack {own i : Int} {counter : Option Int} {answer : Answer}
    (h : (readBack own counter answer).own = some i) : i = own := by
  cases answer with
  | found => cases counter <;> cases h; rfl
  | bare => cases h; rfl
  | broken => cases h

/-- No value that has been made is past the counter after one more update. -/
theorem Inv.lt_bump {s : World} (hInv : Inv s) {n : Nat} {own : Int}
    (h : (s.call n).own = some own) : own < bump s.counter := by
  obtain ⟨c, hCounter, hLe⟩ := hInv.counted n own h
  rw [hCounter, bump]
  omega

theorem Inv.of_same {s t : World} (hInv : Inv s)
    (hCounter : t.counter = s.counter ∨ t.counter = some (bump s.counter))
    (hOwn : ∀ m own, (t.call m).own = some own → (s.call m).own = some own) : Inv t where
  counted := by
    intro m own h
    rcases hCounter with hEq | hEq
    · rw [hEq]
      exact hInv.counted m own (hOwn m own h)
    · exact ⟨_, hEq, Int.le_of_lt (hInv.lt_bump (hOwn m own h))⟩
  apart := by
    intro m k own hm hk
    exact hInv.apart m k own (hOwn m own hm) (hOwn k own hk)

/-- The call whose update is applied gets the value that no other has. -/
theorem Inv.update {s t : World} (hInv : Inv s) {n : Nat} (hCounter : t.counter = some (bump s.counter))
    (hOwn : ∀ m own, (t.call m).own = some own →
      m = n ∧ some (bump s.counter) = some own ∨ (s.call m).own = some own) : Inv t where
  counted := by
    intro m own h
    refine ⟨_, hCounter, ?_⟩
    rcases hOwn m own h with ⟨-, hEq⟩ | h
    · exact Int.le_of_eq (Option.some.inj hEq).symm
    · exact Int.le_of_lt (hInv.lt_bump h)
  apart := by
    intro m k own hm hk
    have hFresh : ∀ j, (s.call j).own = some own → some (bump s.counter) ≠ some own := by
      intro j hj hEq
      have hLt := hInv.lt_bump hj
      rw [Option.some.inj hEq] at hLt
      exact Int.lt_irrefl _ hLt
    rcases hOwn m own hm with ⟨rfl, hEq⟩ | hm <;> rcases hOwn k own hk with ⟨rfl, hEq'⟩ | hk
    · rfl
    · exact absurd hEq (hFresh k hk)
    · exact absurd hEq' (hFresh m hm)
    · exact hInv.apart m k own hm hk

theorem Inv.step {s t : World} {a : SerialAct} (hInv : Inv s) (hs : step s a = some t) : Inv t := by
  cases a with
  | begin =>
    cases hs
    refine hInv.of_same (.inl rfl) fun m own h => ?_
    have hCalls := congrFun (Calls.getD_append s.calls .update .raised) m
    rw [World.call, hCalls] at h
    obtain ⟨-, h⟩ | h := own_of_update h
    · cases h
    · exact h
  | update n =>
    rw [Serial.step] at hs
    split at hs <;> try cases hs
    next hPc =>
      split at hs <;> cases hs
      refine hInv.update (n := n) rfl fun m own h => ?_
      rw [call_goto (by simp [hPc])] at h
      exact own_of_update h
  | raise n =>
    rw [Serial.step] at hs
    split at hs <;> cases hs
    next hPc =>
      refine hInv.of_same (.inl rfl) fun m own h => ?_
      rw [call_goto (by simp [hPc])] at h
      obtain ⟨-, h⟩ | h := own_of_update h
      · cases h
      · exact h
  | apply n =>
    rw [Serial.step] at hs
    split at hs <;> try cases hs
    next hPc =>
      split at hs <;> cases hs
      refine hInv.of_same (.inr rfl) fun m own h => ?_
      rw [call_goto (by simp [hPc])] at h
      obtain ⟨-, h⟩ | h := own_of_update h
      · cases h
      · exact h
  | read n answer =>
    rw [Serial.step] at hs
    split at hs <;> cases hs
    next own hPc =>
      refine hInv.of_same (.inl rfl) fun m i h => ?_
      rw [call_goto (by simp [hPc])] at h
      obtain ⟨rfl, hBack⟩ | hSame := own_of_update h
      · rw [hPc, own_readBack hBack]
        rfl
      · exact hSame

/-- Own serials of different values in a window of 99 are different. -/
theorem Inv.distinct {s : World} (hInv : Inv s) (hOwn : s.OwnSerials) : s.Distinct := by
  intro first n m hne i j serial serial' hn hm hi hj hSerial
  have hSi : serial = serialOf i := by
    have h := hOwn n
    rwa [hn] at h
  have hSj : serial' = serialOf j := by
    have h := hOwn m
    rwa [hm] at h
  have hMod : (i - j) % 99 = 0 := (serialOf_eq_iff i j).mp (by rw [← hSi, ← hSj, hSerial])
  have hEq : i = j := by omega
  exact hne (hInv.apart n m i (by rw [hn]; rfl) (by rw [hm, hEq]; rfl))

theorem run_inv {counter : Option Int} {acts : List SerialAct} {t : World}
    (hRun : run step (.start counter) acts = some t) : Inv t := by
  refine run_induction (motive := fun _ t => Inv t) hRun (Inv.start counter) ?_
  intro acts t a u _ hInv hs
  exact hInv.step hs

theorem run_ownSerials {counter : Option Int} {acts : List SerialAct} {t : World}
    (hRun : run step (.start counter) acts = some t) :
    t.OwnSerials ↔ Along step (fun s a => s.undisturbed a = true) (.start counter) acts := by
  refine run_induction (motive := fun acts t => t.OwnSerials ↔
    Along step (fun s a => s.undisturbed a = true) (.start counter) acts) hRun ?_ ?_
  · exact iff_of_true (fun n => trivial) trivial
  · intro acts t a u hRun ih hs
    rw [step_ownSerials hs, ih, along_snoc step _ a hRun]

/-- Serials are those of the calls' own updates, and with them any 99 in a row are different,
exactly in the runs whose reads are undisturbed. -/
theorem serials_cycle_iff {counter : Option Int} {acts : List SerialAct} {t : World}
    (hRun : run step (.start counter) acts = some t) :
    t.OwnSerials ∧ t.Distinct ↔
      Along step (fun s a => s.undisturbed a = true) (.start counter) acts := by
  rw [← run_ownSerials hRun]
  exact ⟨And.left, fun hOwn => ⟨hOwn, (run_inv hRun).distinct hOwn⟩⟩

/-- Two calls, one after the other. -/
def inTurn : List SerialAct :=
  [.begin, .update 0, .read 0 .found, .begin, .update 1, .read 1 .found]

theorem serials_in_turn : ∃ t, run step (.start none) inTurn = some t ∧
    t.calls = [.done 1 ['0', '1'], .done 2 ['0', '2']] ∧ t.OwnSerials ∧ t.Distinct := by
  obtain ⟨t, hRun, hCalls⟩ := exists_run_of_any step (.start none) inTurn
    (fun t => decide (t.calls = [.done 1 ['0', '1'], .done 2 ['0', '2']])) (by decide)
  exact ⟨t, hRun, of_decide_eq_true hCalls, (serials_cycle_iff hRun).mpr (by decide)⟩

/-- Two replicas count up before either gets the counter. -/
def interleaved : List SerialAct :=
  [.begin, .begin, .update 0, .update 1, .read 0 .found, .read 1 .found]

/-- Both submissions get the serial 02. -/
theorem serial_shared : ∃ t, run step (.start none) interleaved = some t ∧
    t.calls = [.done 1 ['0', '2'], .done 2 ['0', '2']] ∧ ¬t.OwnSerials ∧ ¬t.Distinct := by
  obtain ⟨t, hRun, hCalls⟩ := exists_run_of_any step (.start none) interleaved
    (fun t => decide (t.calls = [.done 1 ['0', '2'], .done 2 ['0', '2']])) (by decide)
  have hCalls := of_decide_eq_true hCalls
  have hFirst : t.call 0 = .done 1 ['0', '2'] := by rw [World.call, hCalls]; rfl
  have hSecond : t.call 1 = .done 2 ['0', '2'] := by rw [World.call, hCalls]; rfl
  refine ⟨t, hRun, hCalls, fun hOwn => ?_, fun hDistinct => ?_⟩
  · have hSerial := hOwn 0
    rw [hFirst] at hSerial
    exact absurd hSerial (show ['0', '2'] ≠ serialOf 1 by decide)
  · exact hDistinct 1 0 1 (by decide) 1 2 _ _ hFirst hSecond (by decide) (by decide) rfl

end OpenSpoke.Spawn.Serial
