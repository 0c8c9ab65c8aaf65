import OpenSpoke.Hub.Confined

/-!
# Entries of the registry under overlapping calls

`spoke_update` reads an entry and writes it back, `spoke_register` writes after it has found
none. Beside the registry goes the one in which each call that reports success does its work
in one step.
-/

namespace OpenSpoke.Hub

open Lts
open Python (Text)

/-- The document that a call is about to write, and what is there afterwards. -/
def Pc.write (E : Host) : Pc → Option (Text × Option Spoke)
  | .registering s => (E.doc s.clusterName).map fun id => (id, some s)
  | .updating name changes old now =>
    (E.doc name).map fun id => (id, some (changes.apply name now old))
  | .deleting name => (E.doc name).map fun id => (id, none)
  | .recordPut key now old _ => (E.astray key).map fun id => (id, some (recorded now old))
  | _ => none

/-- What a call has read still holds of the entry with this id, as far as it matters. -/
def Pc.Fits (E : Host) (id : Text) (entry : Option Spoke) : Pc → Prop
  | .registering s => E.doc s.clusterName = some id → entry = none
  | .updating name changes old now => E.doc name = some id →
    entry.map (changes.apply name now) = some (changes.apply name now old)
  | _ => True

def written (write : Option (Text × Option Spoke)) (x : SpokeIndex) (id : Text) : Option Spoke :=
  match write with
  | some (k, entry) => if id = k then entry else x.get id
  | none => x.get id

/-- The entries, if a call that reports success does its work then. -/
def Pc.effect (E : Host) (pc : Pc) (entries : Text → Option Spoke) : Text → Option Spoke :=
  match pc with
  | .registering s => (E.doc s.clusterName).elim entries fun id => Function.update entries id (some s)
  | .updating name changes _ now => (E.doc name).elim entries fun id =>
    Function.update entries id ((entries id).map (changes.apply name now))
  | .deleting name => (E.doc name).elim entries fun id => Function.update entries id none
  | _ => entries

def Pc.idle : Pc → Bool
  | .absent | .done _ => true
  | _ => false

theorem Pc.fits_of_idle {E : Host} {pc : Pc} (h : pc.idle = true) (id : Text) (entry : Option Spoke) :
    pc.Fits E id entry := by
  cases pc <;> trivial

namespace World

variable {E : Host} {w t : World} {u : Text} {n : Nat} {a : Answer}

/-! ## Requests -/

theorem get_put (entry : Spoke) (k : Option Text) (id : Text) :
    (w.put k entry).registry.get id = written (k.map fun k => (k, some entry)) w.registry id := by
  cases k with
  | none => rfl
  | some k =>
    simp only [World.put, Option.map_some, written]
    split
    next h => rw [h, DocIndex.get_put_self]
    next h => rw [DocIndex.get_put_of_ne _ _ h]

theorem get_delete (k : Option Text) (id : Text) :
    (w.delete k).registry.get id = written (k.map fun k => (k, none)) w.registry id := by
  cases k with
  | none => rfl
  | some k =>
    simp only [World.delete, Option.map_some, written]
    split
    next h => rw [h, DocIndex.get_delete_self]
    next h => rw [DocIndex.get_delete_of_ne _ h]

theorem registry_give (v name : Text) (url : Option Text) :
    (w.give E v name url).registry = w.registry := by
  unfold World.give
  split
  · rfl
  · rfl

theorem call_give (v name : Text) (url : Option Text) : (w.give E v name url).call = w.call := by
  unfold World.give
  split
  · rfl
  · rfl

theorem call_put (entry : Spoke) (k : Option Text) : (w.put k entry).call = w.call := by
  cases k with
  | none => rfl
  | some k => rfl

theorem call_delete (k : Option Text) : (w.delete k).call = w.call := by
  cases k with
  | none => rfl
  | some k => rfl

theorem written_kept {write : Option (Text × Option Spoke)} (h : write = none) (x : SpokeIndex)
    (id : Text) : written (if a = .refused then none else write) x id = x.get id := by
  rw [h, ite_self]
  rfl

/-- A request for the head of a document gets an answer. -/
def Heard (a : Answer) : Pc → Prop
  | .heading .. => a = .answered
  | _ => True

/-- What a request does to the registry and to its call. -/
structure Requested (E : Host) (w : World) (u : Text) (n : Nat) (a : Answer) (t : World) : Prop where
  entries : ∀ id, t.registry.get id =
    written (if a = .refused then none else (w.call u n).write E) w.registry id
  call : ∃ pc, t.call = (w.goto u n pc).call ∧
    (Heard a (w.call u n) → ∀ id, pc.Fits E id (t.registry.get id))

theorem Requested.moved {pc : Pc} (hWrite : (w.call u n).write E = none)
    (hFits : Heard a (w.call u n) → ∀ id, pc.Fits E id (w.registry.get id)) :
    Requested E w u n a (w.goto u n pc) where
  entries id := (written_kept hWrite w.registry id).symm
  call := ⟨pc, rfl, hFits⟩

theorem Requested.ended {result : Result}
    (hEntries : a ≠ .refused → ∀ id,
      t.registry.get id = written ((w.call u n).write E) w.registry id)
    (hCall : t.call = (w.goto u n (.done result)).call) :
    Requested E w u n a (if a = .refused then w.goto u n (.done result) else t) where
  entries id := by
    split
    · rfl
    next h => exact hEntries h id
  call := by
    refine ⟨.done result, ?_, fun _ _ => trivial⟩
    split
    · rfl
    · exact hCall

theorem requested (hs : w.request E u n a = some t) : Requested E w u n a t := by
  unfold World.request at hs
  split at hs
  next hPc =>
    cases hs
    apply Requested.moved
    · rw [hPc]
      rfl
    · intro _ id
      generalize (if a = .answered then load w.registry else []) = clusters
      split
      · trivial
      · trivial
  next s now hPc =>
    split at hs
    · cases hs
      apply Requested.moved
      · rw [hPc]
        rfl
      · intro _ _
        trivial
    next hNot =>
      cases hs
      apply Requested.moved
      · rw [hPc]
        rfl
      · intro hHeard id hDoc
        rw [hPc] at hHeard
        have hNone : (w.get E s.clusterName).isSome ≠ true := fun h => hNot ⟨hHeard, h⟩
        have hDoc : E.doc s.clusterName = some id := hDoc
        rw [World.get, hDoc, Option.bind_some] at hNone
        simpa using hNone
  next s hPc =>
    cases hs
    apply Requested.ended
    · intro _ id
      rw [registry_give, get_put, hPc]
      rfl
    · rw [call_give, call_put]
  next name changes now hPc =>
    split at hs
    · cases hs
      apply Requested.moved
      · rw [hPc]
        rfl
      · intro _ _
        trivial
    next old hOld =>
      split at hs <;> cases hs
      · apply Requested.moved
        · rw [hPc]
          rfl
        · intro _ _
          trivial
      · apply Requested.moved
        · rw [hPc]
          rfl
        · intro _ id hDoc
          split at hOld
          · rw [World.get, hDoc, Option.bind_some] at hOld
            rw [hOld]
            rfl
          · cases hOld
  next name changes old now hPc =>
    cases hs
    apply Requested.ended
    · intro _ id
      split
      · rw [registry_give, get_put, hPc]
        rfl
      · rw [get_put, hPc]
        rfl
    · split
      · rw [call_give, call_put]
      · rw [call_put]
  next name hPc =>
    cases hs
    apply Requested.ended
    · intro _ id
      rw [registry_give, get_delete, hPc]
      rfl
    · rw [call_give, call_delete]
  next hPc =>
    cases hs
    apply Requested.moved
    · rw [hPc]
      rfl
    · intro _ _
      trivial
  next key now old result hPc =>
    cases hs
    apply Requested.ended
    · intro _ id
      rw [get_put, hPc]
      rfl
    · rw [call_put]
  next => cases hs

theorem step_others {act : Act} (hNot : ∀ u n a, act ≠ .request u n a) (hs : w.step E act = some t) :
    t.registry = w.registry ∧ ∀ v m, t.call v m = w.call v m ∨ ∀ id entry, (t.call v m).Fits E id entry := by
  have hMoved : ∀ (u : Text) (n : Nat) (pc : Pc), (∀ id entry, pc.Fits E id entry) → ∀ v m,
      (w.goto u n pc).call v m = w.call v m ∨ ∀ id entry, ((w.goto u n pc).call v m).Fits E id entry := by
    intro u n pc hPc v m
    have hCall : (w.goto u n pc).call v m = pc ∨ (w.goto u n pc).call v m = w.call v m :=
      call_goto v m
    rcases hCall with hNew | hOld
    · rw [hNew]
      exact .inr hPc
    · exact .inl hOld
  cases act with
  | call u n op =>
    simp only [World.step] at hs
    split at hs <;> cases hs
    refine ⟨rfl, hMoved u n _ ?_⟩
    intro id entry
    cases op with
    | spokeRegister s now =>
      simp only [Op.begin]
      split
      · trivial
      · trivial
    | _ => trivial
  | request u n a => exact absurd rfl (hNot u n a)
  | acl u n answered =>
    simp only [World.step, World.checked] at hs
    split at hs <;> cases hs
    · exact ⟨rfl, hMoved u n _ fun _ _ => trivial⟩
    · refine ⟨rfl, hMoved u n _ fun _ _ => ?_⟩
      split
      · trivial
      · split
        · trivial
        · trivial
  | reach u n a answer =>
    simp only [World.step, World.reach] at hs
    split at hs
    · split at hs <;> cases hs
      · exact ⟨rfl, hMoved u n _ fun _ _ => trivial⟩
      · exact ⟨rfl, hMoved u n _ fun _ _ => trivial⟩
    · cases hs
  | record u n key now =>
    simp only [World.step, World.record] at hs
    split at hs
    · split at hs <;> cases hs
      · exact ⟨rfl, hMoved u n _ fun _ _ => trivial⟩
      · exact ⟨rfl, hMoved u n _ fun _ _ => trivial⟩
    · cases hs
  | grant u allowed =>
    cases hs
    exact ⟨rfl, fun _ _ => .inl rfl⟩

/-! ## Calls that do not get in each other's way -/

def Prompt (E : Host) (a : Answer) : Pc → Prop
  | .heading .. => a = .answered
  | .registering _ | .updating .. | .deleting _ => a ≠ .lost
  | .recordPut key _ _ _ => E.astray key = none
  | _ => True

instance : (pc : Pc) → Decidable (Prompt E a pc)
  | .heading .. => inferInstanceAs (Decidable (a = _))
  | .registering _ | .updating .. | .deleting _ => inferInstanceAs (Decidable (a ≠ _))
  | .recordPut .. => inferInstanceAs (Decidable (_ = none))
  | .absent | .listing | .filtering _ | .getting .. | .checking _ | .resolving .. | .replied _
  | .recordGet .. | .done _ => .isTrue trivial

/-- A write leaves what the other calls have read as it is, as far as it matters to them. -/
def Undisturbed (E : Host) (w : World) (u : Text) (n : Nat) (a : Answer) : Prop :=
  a ≠ .refused → ∀ id entry, (w.call u n).write E = some (id, entry) →
    ∀ v m, (v, m) ≠ (u, n) → (w.call v m).Fits E id entry

/-- Heads are answered, a request that fails does nothing, and no write comes between the
read and the write of another call. -/
def Apart (E : Host) (w : World) : Act → Prop
  | .request u n a => Prompt E a (w.call u n) ∧ w.Undisturbed E u n a
  | _ => True

/-- A world beside the entries as they should be. -/
abbrev Twin := World × (Text → Option Spoke)

def Twin.step (E : Host) (p : Twin) (act : Act) : Option Twin :=
  (p.1.step E act).map fun t =>
    (t, match act with
      | .request u n .answered => (p.1.call u n).effect E p.2
      | _ => p.2)

structure Twin.Inv (E : Host) (p : Twin) : Prop where
  reads : ∀ u n id, (p.1.call u n).Fits E id (p.1.registry.get id)
  entries : ∀ id, p.1.registry.get id = p.2 id

variable {p q : Twin}

theorem Prompt.heard (h : Prompt E a (w.call u n)) : Heard a (w.call u n) := by
  cases hPc : w.call u n with
  | heading s now =>
    rw [hPc] at h
    exact h
  | _ => trivial

theorem call_goto_other {pc : Pc} {v : Text} {m : Nat} (h : (v, m) ≠ (u, n)) :
    (w.goto u n pc).call v m = w.call v m := by
  by_cases hv : v = u
  · have hm : m ≠ n := fun hm => h (by rw [hv, hm])
    simp [goto, hv, hm]
  · exact congrFun (call_goto_of_ne hv) m

theorem Requested.fits (h : Requested E w u n a t) (hReads : ∀ u n id,
    (w.call u n).Fits E id (w.registry.get id)) (hPrompt : Prompt E a (w.call u n))
    (hApart : w.Undisturbed E u n a) (v : Text) (m : Nat) (id : Text) :
    (t.call v m).Fits E id (t.registry.get id) := by
  obtain ⟨pc, hCall, hFits⟩ := h.call
  rw [hCall]
  by_cases hSame : (v, m) = (u, n)
  · cases hSame
    rw [call_goto_self]
    exact hFits hPrompt.heard id
  · have hOther : (w.goto u n pc).call v m = w.call v m := by
      by_cases hv : v = u
      · have hm : m ≠ n := fun hm => hSame (by rw [hv, hm])
        simp [goto, hv, hm]
      · exact congrFun (call_goto_of_ne hv) m
    rw [hOther, h.entries id]
    have hOld := hReads v m id
    split
    · exact hOld
    next hA =>
      cases hWrite : (w.call u n).write E with
      | none => exact hOld
      | some change =>
        obtain ⟨k, entry⟩ := change
        simp only [written]
        split
        next hId =>
          rw [hId]
          exact hApart hA k entry hWrite v m hSame
        next => exact hOld

theorem Requested.agrees (h : Requested E w u n a t) {entries : Text → Option Spoke}
    (hEntries : ∀ id, w.registry.get id = entries id)
    (hRead : ∀ id, (w.call u n).Fits E id (w.registry.get id)) (hPrompt : Prompt E a (w.call u n))
    (id : Text) :
    t.registry.get id = (if a = .answered then (w.call u n).effect E entries else entries) id := by
  rw [h.entries id]
  cases hPc : w.call u n with
  | registering s =>
    rw [hPc] at hPrompt
    cases a with
    | refused => exact hEntries id
    | lost => exact absurd rfl hPrompt
    | answered =>
      cases hDoc : E.doc s.clusterName with
      | none => simpa [Pc.write, Pc.effect, hDoc, written] using hEntries id
      | some k => simp [Pc.write, Pc.effect, hDoc, written, Function.update_apply, hEntries id]
  | updating name changes old now =>
    rw [hPc] at hPrompt hRead
    cases a with
    | refused => exact hEntries id
    | lost => exact absurd rfl hPrompt
    | answered =>
      cases hDoc : E.doc name with
      | none => simpa [Pc.write, Pc.effect, hDoc, written] using hEntries id
      | some k =>
        have hFits := hRead k hDoc
        rw [hEntries k] at hFits
        simp [Pc.write, Pc.effect, hDoc, written, Function.update_apply, hEntries id, hFits]
  | deleting name =>
    rw [hPc] at hPrompt
    cases a with
    | refused => exact hEntries id
    | lost => exact absurd rfl hPrompt
    | answered =>
      cases hDoc : E.doc name with
      | none => simpa [Pc.write, Pc.effect, hDoc, written] using hEntries id
      | some k => simp [Pc.write, Pc.effect, hDoc, written, Function.update_apply, hEntries id]
  | recordPut key now old result =>
    rw [hPc] at hPrompt
    have hAstray : E.astray key = none := hPrompt
    simpa [Pc.write, Pc.effect, hAstray, written] using hEntries id
  | _ => simpa [Pc.write, Pc.effect, written] using hEntries id

theorem Twin.Inv.step (h : p.Inv E) {act : Act} (hOk : p.1.Apart E act)
    (hs : Twin.step E p act = some q) : q.Inv E := by
  obtain ⟨t, ht, rfl⟩ := Option.map_eq_some_iff.mp hs
  by_cases hRequest : ∃ u n a, act = .request u n a
  · obtain ⟨u, n, a, rfl⟩ := hRequest
    obtain ⟨hPrompt, hApart⟩ := hOk
    have hDone := requested ht
    constructor
    · exact hDone.fits h.reads hPrompt hApart
    · intro id
      rw [hDone.agrees h.entries (h.reads u n) hPrompt id]
      cases a with
      | answered => rfl
      | _ => rfl
  · have hNot : ∀ u n a, act ≠ .request u n a := fun u n a hEq => hRequest ⟨u, n, a, hEq⟩
    obtain ⟨hSame, hCalls⟩ := step_others hNot ht
    constructor
    · intro v m id
      rcases hCalls v m with hOld | hFits
      · rw [hOld, hSame]
        exact h.reads v m id
      · exact hFits id _
    · intro id
      cases act with
      | request u n a => exact absurd rfl (hNot u n a)
      | _ =>
        rw [hSame]
        exact h.entries id

/-- `spoke_register` writes only where there is no entry, and the entries are what the calls
that have reported success make of them one by one. -/
theorem entries_kept {entries : Text → Option Spoke} {w₀ : World}
    (hInit : ∀ u n, w₀.call u n = .absent)
    (h : Reach (Twin.step E) (fun p => p.1.Apart E) (w₀, w₀.registry.get) (w, entries)) :
    (∀ id, w.registry.get id = entries id) ∧
      ∀ u n s, w.call u n = .registering s → w.get E s.clusterName = none := by
  have hStart : Twin.Inv E (w₀, w₀.registry.get) := by
    constructor
    · intro u n id
      rw [hInit u n]
      trivial
    · intro id
      rfl
  have hInv : Twin.Inv E (w, entries) :=
    h.invariant hStart fun _ _ _ _ hInv hOk hs => hInv.step hOk hs
  refine ⟨hInv.entries, ?_⟩
  intro u n s hPc
  cases hDoc : E.doc s.clusterName with
  | none => rw [World.get, hDoc, Option.bind_none]
  | some id =>
    have hFits := hInv.reads u n id
    rw [hPc] at hFits
    rw [World.get, hDoc, Option.bind_some]
    exact hFits hDoc

/-! ## Calls one after another -/

def Lone (E : Host) (u : Text) (n : Nat) (p : Twin) : Act → Prop
  | .call v m _ => (v, m) = (u, n)
  | .request v m a => (v, m) = (u, n) ∧ Prompt E a (p.1.call v m)
  | _ => False

instance : (act : Act) → Decidable (Lone E u n p act)
  | .call .. => inferInstanceAs (Decidable (_ = _))
  | .request .. => inferInstanceAs (Decidable (_ ∧ _))
  | .acl .. | .reach .. | .record .. | .grant .. => .isFalse id

def Alone (u : Text) (n : Nat) (p : Twin) : Prop :=
  ∀ v m, (v, m) ≠ (u, n) → (p.1.call v m).idle = true

theorem Alone.next (h : Alone u n p) (hEnded : (p.1.call u n).idle = true) (u' : Text) (n' : Nat) :
    Alone u' n' p := by
  intro v m _
  by_cases hMine : (v, m) = (u, n)
  · cases hMine
    exact hEnded
  · exact h v m hMine

theorem Alone.apart (h : Alone u n p) {act : Act} (hOk : Lone E u n p act) : p.1.Apart E act := by
  cases act with
  | request v m a =>
    obtain ⟨hMine, hPrompt⟩ := hOk
    cases hMine
    refine ⟨hPrompt, ?_⟩
    intro _ id entry _ v' m' hOther
    exact Pc.fits_of_idle (h v' m' hOther) _ _
  | _ => trivial

theorem Alone.step (h : Alone u n p) {act : Act} (hOk : Lone E u n p act)
    (hs : Twin.step E p act = some q) : Alone u n q := by
  obtain ⟨t, ht, rfl⟩ := Option.map_eq_some_iff.mp hs
  intro v m hOther
  cases act with
  | call v' m' op =>
    have hMine : (v', m') = (u, n) := hOk
    cases hMine
    simp only [World.step] at ht
    split at ht <;> cases ht
    exact (congrArg Pc.idle (call_goto_other hOther)).trans (h v m hOther)
  | request v' m' a =>
    obtain ⟨hMine, -⟩ := hOk
    cases hMine
    obtain ⟨pc, hCall, -⟩ := (requested ht).call
    change (t.call v m).idle = true
    rw [hCall]
    exact (congrArg Pc.idle (call_goto_other hOther)).trans (h v m hOther)
  | _ => cases hOk

theorem Alone.reach {acts : List Act} (h : Alone u n p) (hRun : run (Twin.step E) p acts = some q)
    (hLone : Along (Twin.step E) (Lone E u n) p acts) :
    Reach (Twin.step E) (fun p => p.1.Apart E) p q ∧ Alone u n q := by
  constructor
  · exact .of_run hRun (hLone.of_invariant (Alone u n) (fun _ _ hAlone hOk => hAlone.apart hOk)
      (fun _ _ _ hAlone hOk hs => hAlone.step hOk hs) h)
  · exact (Reach.of_run hRun hLone).invariant h fun _ _ _ _ hAlone hOk hs => hAlone.step hOk hs

theorem Alone.reach_next {first second : List Act} {r : Twin} (h : Alone u n p)
    (hRun : run (Twin.step E) p first = some q) (hLone : Along (Twin.step E) (Lone E u n) p first)
    (hEnded : (q.1.call u n).idle = true) {v : Text} {m : Nat}
    (hRun' : run (Twin.step E) q second = some r)
    (hLone' : Along (Twin.step E) (Lone E v m) q second) :
    Reach (Twin.step E) (fun p => p.1.Apart E) p r := by
  obtain ⟨hReach, hAlone⟩ := h.reach hRun hLone
  exact hReach.trans ((hAlone.next hEnded v m).reach hRun' hLone').1

end World

end OpenSpoke.Hub
