import OpenSpoke.Knowledge.Parts

/-!
# Pushes of staged parts

Over any run in which the pattern of a push matches its parts alone, and nobody has edited a part
that is deleted, a push sends the parts of its staging id whole and deletes what it has sent.
-/

namespace OpenSpoke.Knowledge.Staged

open DocIndex (Answer)
open Lts
open Python (Text)

namespace State

variable (s : State)

/-! ## The condition -/

/-- No row under an id that is deleted has another content than the one that was pushed. -/
def Unedited (results : List Row) : Prop :=
  ∀ row ∈ s.world.rows, ∀ p ∈ results, p.id = row.id → p.content = row.content

def TidyAt : Pc → Prop
  | .querying r => Tidy r.stagingId s.world.rows
  | _ => True

def UneditedAt (a : Answer) : Pc → Prop
  | .deleting _ _ results _ => a ≠ .refused → s.Unedited results
  | _ => True

def Careful : Act → Prop
  | .found n _ => s.TidyAt (s.call n)
  | .delete n a => s.UneditedAt a (s.call n)
  | _ => True

instance (sid : Text) (rows : List Row) : Decidable (Tidy sid rows) :=
  decidable_of_iff (∀ row ∈ matching sid rows, ∃ k ∈ List.range' 1 999, row.id = partId sid k) <| by
    simp only [Tidy, List.mem_range'_1, and_assoc]

instance (results : List Row) : Decidable (s.Unedited results) :=
  inferInstanceAs (Decidable (∀ row ∈ s.world.rows, ∀ p ∈ results, _ → _))

instance : (pc : Pc) → Decidable (s.TidyAt pc)
  | .querying _ => inferInstanceAs (Decidable (Tidy ..))
  | .putting .. | .deleting .. | .done .. | .refused => .isTrue trivial

instance (a : Answer) : (pc : Pc) → Decidable (s.UneditedAt a pc)
  | .deleting .. => inferInstanceAs (Decidable (_ → _))
  | .querying _ | .putting .. | .done .. | .refused => .isTrue trivial

instance : (act : Act) → Decidable (s.Careful act)
  | .found .. => inferInstanceAs (Decidable (TidyAt ..))
  | .delete .. => inferInstanceAs (Decidable (UneditedAt ..))
  | .entry _ | .push _ | .fails _ | .put .. => .isTrue trivial

/-! ## The invariant -/

/-- What a push has done that has answered ok: it has sent the contents of all parts of its
staging id, in their order, and deleted no row but of the content that it has sent. -/
structure Whole (r : Request) (rows results : List Row) (sent : Text) (gone : List Row) : Prop where
  collected : Collected r.stagingId rows results
  sent : sent = combined results
  deleted : ∀ row ∈ gone, ∃ p ∈ results, p.id = row.id ∧ p.content = row.content
  kept : r.deleteAfterPush = false → gone = []

def CallOk : Pc → Prop
  | .putting r rows results => Collected r.stagingId rows results
  | .deleting r rows results sent =>
    Collected r.stagingId rows results ∧ sent = combined results ∧ r.deleteAfterPush = true
  | .done r rows results sent gone => Whole r rows results sent gone
  | .querying _ | .refused => True

def Inv : Prop := ∀ n, CallOk (s.call n)

variable {s} {t : State} {n : Nat} {pc : Pc} {act : Act}

theorem Inv.goto (h : Inv s) (hn : s.call n ≠ .refused) (hPc : CallOk pc) : Inv (s.goto n pc) := by
  intro m
  have hCall : (s.goto n pc).call = Function.update s.call n pc :=
    Calls.getD_set (Calls.lt_of_ne hn) pc .refused
  rw [hCall]
  by_cases hm : m = n
  · rw [hm, Function.update_self]
    exact hPc
  · rw [Function.update_of_ne hm]
    exact h m

theorem Inv.begin (h : Inv s) (hPc : CallOk pc) : Inv (s.begin pc) := by
  intro m
  have hCall : (s.begin pc).call = Function.update s.call s.calls.length pc :=
    Calls.getD_append s.calls pc .refused
  rw [hCall]
  by_cases hm : m = s.calls.length
  · rw [hm, Function.update_self]
    exact hPc
  · rw [Function.update_of_ne hm]
    exact h m

theorem collect_ok {r : Request} {rows found : List Row} (hTidy : Tidy r.stagingId rows)
    (hFound : Answered r.stagingId rows found) : CallOk (collect r rows found) := by
  obtain hRefused | ⟨hPutting, hNil, hErrors⟩ := collect_cases r rows found
  · rw [hRefused]
    trivial
  · rw [hPutting]
    exact hTidy.collected hFound hNil hErrors

theorem Inv.clean (h : Inv s) {a : Answer} {r : Request} {rows results : List Row} {sent : Text}
    (hPc : s.call n = .deleting r rows results sent) (hOk : a ≠ .refused → s.Unedited results) :
    Inv (s.clean n a r rows results sent) := by
  have hn : s.call n ≠ .refused := by
    rw [hPc]
    exact nofun
  have hCall := h n
  rw [hPc] at hCall
  obtain ⟨hCollected, hSent, hDelete⟩ := hCall
  unfold State.clean
  split
  · apply h.goto hn
    exact ⟨hCollected, hSent, nofun, fun _ => rfl⟩
  next hAnswer =>
    have hDone : CallOk (.done r rows results sent
        (s.world.rows.filter fun row => row.id ∈ results.map Row.id)) := by
      refine ⟨hCollected, hSent, ?_, ?_⟩
      · intro row hRow
        obtain ⟨hMem, hId⟩ := List.mem_filter.mp hRow
        obtain ⟨p, hp, hEq⟩ := List.mem_map.mp (of_decide_eq_true hId)
        exact ⟨p, hp, hEq, hOk hAnswer row hMem p hp hEq⟩
      · intro hKeep
        rw [hDelete] at hKeep
        cases hKeep
    simp only [List.partition_eq_filter_filter]
    exact h.goto hn hDone

theorem Inv.step (h : Inv s) (hOk : s.Careful act) (hs : s.step act = some t) : Inv t := by
  cases act with
  | entry act =>
    obtain ⟨w, -, rfl⟩ := Option.map_eq_some_iff.mp hs
    exact h
  | push r =>
    refine Option.some.inj hs ▸ h.begin ?_
    split <;> trivial
  | fails n =>
    simp only [State.step] at hs
    split at hs
    next r hPc =>
      have hn : s.call n ≠ .refused := hPc ▸ nofun
      exact Option.some.inj hs ▸ h.goto hn trivial
    · cases hs
  | found n rows =>
    simp only [State.step] at hs
    split at hs
    next r hPc =>
      have hn : s.call n ≠ .refused := hPc ▸ nofun
      split at hs
      next hFound =>
        have hTidy : s.TidyAt (s.call n) := hOk
        rw [hPc] at hTidy
        exact Option.some.inj hs ▸ h.goto hn (collect_ok hTidy ⟨hFound.1, hFound.2⟩)
      · cases hs
    · cases hs
  | put n ok =>
    simp only [State.step] at hs
    split at hs
    next r rows results hPc =>
      have hn : s.call n ≠ .refused := hPc ▸ nofun
      have hCollected := h n
      rw [hPc] at hCollected
      refine Option.some.inj hs ▸ h.goto hn ?_
      split
      · trivial
      · split
        next hDelete => exact ⟨hCollected, rfl, hDelete⟩
        · exact ⟨hCollected, rfl, nofun, fun _ => rfl⟩
    · cases hs
  | delete n a =>
    simp only [State.step] at hs
    split at hs
    next r rows results sent hPc =>
      have hEdit : s.UneditedAt a (s.call n) := hOk
      rw [hPc] at hEdit
      exact Option.some.inj hs ▸ h.clean hPc hEdit
    · cases hs

/-- A push that answers ok is whole, and the parts of a complete set are collected for certain
exactly if there are less than 1000 and the pattern matches nothing else. -/
theorem parts_pushed_whole {s₀ : State} (hCalls : s₀.calls = []) (h : Reach step Careful s₀ s) :
    (∀ n r rows results sent gone, s.call n = .done r rows results sent gone →
      Whole r rows results sent gone) ∧
    ∀ r rows n, 1 ≤ n → CompleteSet r.stagingId n rows →
      (Accepted r n rows ↔ n < 1000 ∧ ∀ row ∈ matching r.stagingId rows,
        ∃ k, 1 ≤ k ∧ k ≤ n ∧ row.id = partId r.stagingId k) := by
  have hStart : Inv s₀ := by
    intro n
    rw [State.call, hCalls]
    trivial
  have hInv : Inv s := h.invariant hStart fun _ _ _ _ hInv hOk hs => hInv.step hOk hs
  refine ⟨?_, fun r rows n hn hSet => accepted_iff hn hSet⟩
  intro n r rows results sent gone hPc
  have hCall := hInv n
  rw [hPc] at hCall
  exact hCall

/-! ## Two staging ids that the pattern confuses -/

def staged (id : Text) (content : Text) : Row := ⟨id, ['t'], content, ['k'], [], []⟩

def request (sid : Text) : Request := ⟨['u'], sid, ['o'], ['r'], ['p'], ['m'], true⟩

def pushRun (sid : Text) (rows : List Row) : List Act :=
  [.push (request sid), .found 0 rows, .put 0 true, .delete 0 .answered]

def firstPart (sid content : Text) : Row := staged (partId sid 1) content

def isPushed (sent : Text) (ids : List Text) : Pc → Bool
  | .done _ _ _ text gone => text = sent && gone.map Row.id = ids
  | _ => false

theorem part_pushed :
    ∃ s, run step ⟨⟨[firstPart ['a'] ['x']], []⟩, []⟩ (pushRun ['a'] [firstPart ['a'] ['x']]) = some s ∧
      isPushed ['x'] [partId ['a'] 1] (s.call 0) = true ∧
      ∀ r rows results sent gone, s.call 0 = .done r rows results sent gone →
        Whole r rows results sent gone := by
  obtain ⟨s, hRun, hs⟩ := exists_run_of_any step ⟨⟨[firstPart ['a'] ['x']], []⟩, []⟩
    (pushRun ['a'] [firstPart ['a'] ['x']]) (fun s => isPushed ['x'] [partId ['a'] 1] (s.call 0))
    (by decide)
  have hOk : Along step Careful ⟨⟨[firstPart ['a'] ['x']], []⟩, []⟩
      (pushRun ['a'] [firstPart ['a'] ['x']]) := by decide
  exact ⟨s, hRun, hs, (parts_pushed_whole rfl (Reach.of_run hRun hOk)).1 0⟩

/-- The part of `aXb` is pushed for `a_b`, and deleted. -/
theorem other_part_pushed :
    ∃ s, run step ⟨⟨[firstPart ['a', 'X', 'b'] ['x']], []⟩, []⟩
        (pushRun ['a', '_', 'b'] [firstPart ['a', 'X', 'b'] ['x']]) = some s ∧
      isPushed ['x'] [partId ['a', 'X', 'b'] 1] (s.call 0) = true ∧
      partId ['a', 'X', 'b'] 1 ∉ parts ['a', '_', 'b'] 1 999 := by
  obtain ⟨s, hRun, hs⟩ := exists_run_of_any step ⟨⟨[firstPart ['a', 'X', 'b'] ['x']], []⟩, []⟩
    (pushRun ['a', '_', 'b'] [firstPart ['a', 'X', 'b'] ['x']])
    (fun s => isPushed ['x'] [partId ['a', 'X', 'b'] 1] (s.call 0)) (by decide)
  refine ⟨s, hRun, hs, ?_⟩
  rw [mem_parts]
  rintro ⟨k, -, -, hEq⟩
  simp [partId, idPrefix] at hEq

end State

end OpenSpoke.Knowledge.Staged
