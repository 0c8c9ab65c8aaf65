import Mathlib.Data.List.Basic

/-!
# The pace of reconnects

The loop of the client's `main`. A session ends with a result after some time;
after an error the loop sleeps before it connects again, and otherwise it
connects at once. Times are in nanoseconds.
-/

namespace OpenSpoke.Tunnel.Client

def second : Nat := 1000000000

/-- The fields of `ClientConfig` that the loop reads. -/
structure Pacing where
  backoffMin : Nat
  backoffMax : Nat
  hLe : backoffMin ≤ backoffMax

/-- The values of `load_config`. -/
def pacing : Pacing := ⟨1 * second, 30 * second, by decide⟩

/-- How `run_session` returned, and after what time. -/
structure SessionEnd where
  ok : Bool
  elapsed : Nat
  deriving DecidableEq

def SessionEnd.short (e : SessionEnd) : Prop := e.elapsed < 10 * second

instance (e : SessionEnd) : Decidable e.short := inferInstanceAs (Decidable (_ < _))

/-- One round of the loop: the sleep after the session, and the next backoff. -/
def round (p : Pacing) (backoff : Nat) (e : SessionEnd) : Option Nat × Nat :=
  if e.ok then (none, p.backoffMin)
  else
    let backoff := if 10 * second ≤ e.elapsed then p.backoffMin else backoff
    (some backoff, min p.backoffMax (backoff * 2))

/-- The sleeps after the sessions. -/
def waits (p : Pacing) : Nat → List SessionEnd → List (Option Nat)
  | _, [] => []
  | backoff, e :: rest => (round p backoff e).1 :: waits p (round p backoff e).2 rest

theorem round_ok {p : Pacing} {backoff : Nat} {e : SessionEnd} (hOk : e.ok = true) :
    round p backoff e = (none, p.backoffMin) := by
  rw [round, if_pos hOk]

theorem round_short {p : Pacing} {backoff : Nat} {e : SessionEnd} (hOk : e.ok = false)
    (hShort : e.short) : round p backoff e = (some backoff, min p.backoffMax (backoff * 2)) := by
  rw [round, if_neg (by simp [hOk]), if_neg (Nat.not_le.mpr hShort)]

theorem round_long {p : Pacing} {backoff : Nat} {e : SessionEnd} (hOk : e.ok = false)
    (hLong : ¬e.short) :
    round p backoff e = (some p.backoffMin, min p.backoffMax (p.backoffMin * 2)) := by
  rw [round, if_neg (by simp [hOk]), if_pos (Nat.not_lt.mp hLong)]

theorem round_bounds {p : Pacing} {backoff : Nat} (e : SessionEnd)
    (hBackoff : p.backoffMin ≤ backoff ∧ backoff ≤ p.backoffMax) :
    (∀ w, (round p backoff e).1 = some w → p.backoffMin ≤ w ∧ w ≤ p.backoffMax) ∧
      p.backoffMin ≤ (round p backoff e).2 ∧ (round p backoff e).2 ≤ p.backoffMax := by
  have hLe := p.hLe
  cases hOk : e.ok with
  | true =>
    rw [round_ok hOk]
    exact ⟨nofun, Nat.le_refl _, hLe⟩
  | false =>
    by_cases hShort : e.short
    · rw [round_short hOk hShort]
      constructor
      · rintro w ⟨⟩
        exact hBackoff
      · constructor <;> omega
    · rw [round_long hOk hShort]
      constructor
      · rintro w ⟨⟩
        exact ⟨Nat.le_refl _, hLe⟩
      · constructor <;> omega

/-! ## The pace -/

/-- The waits after sessions that ended one after the other. -/
structure Paced (p : Pacing) (sessions : List SessionEnd) (waits : List (Option Nat)) : Prop where
  spaced : ∀ (i : Nat) (e : SessionEnd), sessions[i]? = some e → e.short →
    ∃ w : Nat, waits[i]? = some (some w) ∧ p.backoffMin ≤ w
  doubled : ∀ (i : Nat) (e e' : SessionEnd) (w w' : Nat), sessions[i]? = some e → e.short →
    sessions[i + 1]? = some e' → e'.short → waits[i]? = some (some w) → waits[i + 1]? = some (some w') →
    w ≤ w' ∧ w' = min p.backoffMax (w * 2)
  bounded : ∀ w, some w ∈ waits → w ≤ p.backoffMax
  -- the first sleep from the end of a long session on
  reset : ∀ (i : Nat) (e : SessionEnd), sessions[i]? = some e → ¬e.short → ∀ j : Nat, i ≤ j →
    (∀ k, i ≤ k → k < j → waits[k]? = some none) → ∀ w : Nat, waits[j]? = some (some w) →
    w = p.backoffMin

theorem waits_bounds {p : Pacing} {backoff : Nat} {sessions : List SessionEnd}
    (hBackoff : p.backoffMin ≤ backoff ∧ backoff ≤ p.backoffMax) {w : Nat}
    (h : some w ∈ waits p backoff sessions) : p.backoffMin ≤ w ∧ w ≤ p.backoffMax := by
  induction sessions generalizing backoff with
  | nil => cases h
  | cons e rest ih =>
    obtain ⟨hWait, hNext⟩ := round_bounds e hBackoff
    obtain hEq | hMem := List.mem_cons.mp h
    · exact hWait w hEq.symm
    · exact ih hNext hMem

/-- A sleep follows the sessions that end with an error, and no others. -/
theorem waits_getElem? (p : Pacing) (backoff : Nat) (sessions : List SessionEnd) (i : Nat) :
    (waits p backoff sessions)[i]?.map Option.isSome = sessions[i]?.map fun e => !e.ok := by
  induction sessions generalizing backoff i with
  | nil => rfl
  | cons e rest ih =>
    cases i with
    | succ i => exact ih _ i
    | zero =>
      cases hOk : e.ok with
      | true => simp [waits, round_ok hOk, hOk]
      | false => simp [waits, round, hOk]

theorem waits_doubled {p : Pacing} {backoff : Nat} {sessions : List SessionEnd} {i : Nat}
    {e e' : SessionEnd} {w w' : Nat} (he : sessions[i]? = some e) (hShort : e.short)
    (he' : sessions[i + 1]? = some e') (hShort' : e'.short)
    (hw : (waits p backoff sessions)[i]? = some (some w))
    (hw' : (waits p backoff sessions)[i + 1]? = some (some w')) :
    w' = min p.backoffMax (w * 2) := by
  induction sessions generalizing backoff i with
  | nil => cases he
  | cons d rest ih =>
    cases i with
    | succ i => exact ih he he' hw hw'
    | zero =>
      cases he
      cases rest with
      | nil => cases he'
      | cons d rest =>
        cases he'
        have hErr : ∀ {b : Nat} {e : SessionEnd} {v : Nat}, (round p b e).1 = some v →
            e.ok = false := by
          intro b e v hv
          cases hOk : e.ok with
          | false => rfl
          | true =>
            rw [round_ok hOk] at hv
            cases hv
        have hw : (round p backoff e).1 = some w := Option.some.inj hw
        have hw' : (round p (round p backoff e).2 e').1 = some w' := Option.some.inj hw'
        rw [round_short (hErr hw') hShort', round_short (hErr hw) hShort] at hw'
        rw [round_short (hErr hw) hShort] at hw
        cases hw
        exact (Option.some.inj hw').symm

theorem waits_first {p : Pacing} {sessions : List SessionEnd} {j w : Nat}
    (hNone : ∀ k < j, (waits p p.backoffMin sessions)[k]? = some none)
    (hw : (waits p p.backoffMin sessions)[j]? = some (some w)) : w = p.backoffMin := by
  induction sessions generalizing j with
  | nil => cases hw
  | cons e rest ih =>
    cases j with
    | zero =>
      have hw : (round p p.backoffMin e).1 = some w := Option.some.inj hw
      rw [round] at hw
      split at hw
      · cases hw
      · simpa using hw.symm
    | succ j =>
      have hOk : e.ok = true := by
        have hFirst := waits_getElem? p p.backoffMin (e :: rest) 0
        rw [hNone 0 (Nat.succ_pos j)] at hFirst
        simpa using hFirst
      rw [waits, round_ok hOk] at hNone hw
      refine ih (fun k hk => ?_) hw
      exact hNone (k + 1) (Nat.succ_lt_succ hk)

theorem waits_reset {p : Pacing} {backoff : Nat} {sessions : List SessionEnd} {i j w : Nat}
    {e : SessionEnd} (he : sessions[i]? = some e) (hLong : ¬e.short) (hLe : i ≤ j)
    (hNone : ∀ k, i ≤ k → k < j → (waits p backoff sessions)[k]? = some none)
    (hw : (waits p backoff sessions)[j]? = some (some w)) : w = p.backoffMin := by
  induction sessions generalizing backoff i j with
  | nil => cases he
  | cons d rest ih =>
    cases i with
    | succ i =>
      cases j with
      | zero => omega
      | succ j =>
        refine ih he (Nat.le_of_succ_le_succ hLe) (fun k hik hkj => ?_) hw
        exact hNone (k + 1) (Nat.succ_le_succ hik) (Nat.succ_lt_succ hkj)
    | zero =>
      cases he
      cases j with
      | zero =>
        have hw : (round p backoff e).1 = some w := Option.some.inj hw
        rw [round] at hw
        split at hw
        · cases hw
        · rw [if_pos (Nat.not_lt.mp hLong)] at hw
          exact (Option.some.inj hw).symm
      | succ j =>
        have hOk : e.ok = true := by
          have hFirst := waits_getElem? p backoff (e :: rest) 0
          rw [hNone 0 (Nat.le_refl 0) (Nat.succ_pos j)] at hFirst
          simpa using hFirst
        rw [waits, round_ok hOk] at hNone hw
        refine waits_first (fun k hk => ?_) hw
        exact hNone (k + 1) (Nat.zero_le _) (Nat.succ_lt_succ hk)

/-- The loop keeps the pace exactly where no short session ends without an error. -/
theorem paced_iff (p : Pacing) (sessions : List SessionEnd) :
    Paced p sessions (waits p p.backoffMin sessions) ↔ ∀ e ∈ sessions, e.short → e.ok = false := by
  constructor
  · intro hPaced e he hShort
    obtain ⟨i, hi⟩ := List.getElem?_of_mem he
    obtain ⟨w, hw, -⟩ := hPaced.spaced i e hi hShort
    have hSleep := waits_getElem? p p.backoffMin sessions i
    rw [hw, hi] at hSleep
    simpa using hSleep
  · intro hErr
    have hStart : p.backoffMin ≤ p.backoffMin ∧ p.backoffMin ≤ p.backoffMax :=
      ⟨Nat.le_refl _, p.hLe⟩
    constructor
    · intro i e he hShort
      have hSleep := waits_getElem? p p.backoffMin sessions i
      rw [he, Option.map_some, hErr e (List.mem_of_getElem? he) hShort] at hSleep
      obtain ⟨wait, hWait, hSome⟩ := Option.map_eq_some_iff.mp hSleep
      obtain ⟨w, rfl⟩ := Option.isSome_iff_exists.mp hSome
      exact ⟨w, hWait, (waits_bounds hStart (List.mem_of_getElem? hWait)).1⟩
    · intro i e e' w w' he hShort he' hShort' hw hw'
      have hDouble := waits_doubled he hShort he' hShort' hw hw'
      have hMax := (waits_bounds hStart (List.mem_of_getElem? hw)).2
      constructor
      · omega
      · exact hDouble
    · intro w hw
      exact (waits_bounds hStart hw).2
    · intro i e he hLong j hLe hNone w hw
      exact waits_reset he hLong hLe hNone hw

example : waits pacing pacing.backoffMin
    (List.replicate 6 ⟨false, 0⟩ ++ [⟨false, 10 * second⟩]) =
    [1, 2, 4, 8, 16, 30, 1].map fun n => some (n * second) := by decide

/-- A refused handshake, which the server ends without an error status. -/
def refused : SessionEnd := ⟨true, 0⟩

/-- No sleep stands between refused handshakes. -/
theorem refused_no_wait : waits pacing pacing.backoffMin [refused, refused] = [none, none] ∧
    ¬Paced pacing [refused, refused] (waits pacing pacing.backoffMin [refused, refused]) := by
  constructor
  · rfl
  · intro hPaced
    obtain ⟨w, hw, -⟩ := hPaced.spaced 0 refused rfl (by decide)
    cases hw

end OpenSpoke.Tunnel.Client
