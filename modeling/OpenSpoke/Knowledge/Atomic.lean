import OpenSpoke.Knowledge.Collection

/-!
# Upserts that are carried out whole

If the calls of Milvus behind the delete of an upsert are answered and what it has found is
still there, the collection is a map and an upsert replaces its entry or leaves it alone.
-/

namespace OpenSpoke.Knowledge

open DocIndex (Answer)
open Lts
open Python (Text)

/-- The fields are short enough in bytes as well. -/
def Upsert.short (u : Upsert) : Bool := (u.row [] []).fits

namespace World

variable (w : World)

/-! ## The condition -/

def CarefulAt (a : Answer) : Pc → Prop
  | .deleting u found _ =>
    a ≠ .lost ∧ (a = .answered → found ≠ [] ∧ (w.find u.id).map Row.createdAt = some found)
  | .flushing .. | .settling .. => a = .answered
  | .inserting u found _ _ =>
    (found.isSome → a = .answered) ∧ a ≠ .lost ∧ (a = .answered → w.rowsOf u.id = [])
  | _ => True

instance (a : Answer) : (pc : Pc) → Decidable (w.CarefulAt a pc)
  | .deleting .. => inferInstanceAs (Decidable (_ ∧ _))
  | .flushing .. | .settling .. => inferInstanceAs (Decidable (_ = _))
  | .inserting .. => inferInstanceAs (Decidable (_ ∧ _ ∧ _))
  | .opening _ | .querying _ | .embedding .. | .saved .. | .tooLong _ | .failed _ | .dropOpening _
  | .dropQuerying _ | .dropDeleting _ | .dropFlushing | .dropped | .refused => .isTrue trivial

def Careful : Act → Prop
  | .upsert u => u.valid → u.short
  | .milvus n a => w.CarefulAt a (w.call n)
  | _ => True

instance : (act : Act) → Decidable (w.Careful act)
  | .upsert _ => inferInstanceAs (Decidable (_ → _))
  | .milvus .. => inferInstanceAs (Decidable (CarefulAt ..))
  | .delete _ | .embed .. => .isTrue trivial

/-! ## The invariant -/

/-- What an upsert that is saved has done. -/
structure Saved (u : Upsert) (before after : List Row) : Prop where
  after : ∃ row, after = [row] ∧ row.id = u.id ∧ row.title = u.title ∧ row.content = u.content ∧
    row.category = u.category ∧ ∀ old ∈ before, row.createdAt = old.createdAt
  creates : u.mode = create → before = []
  updates : u.mode = update → before ≠ []

/-- An entry that was found agrees with the mode. -/
def Fits (u : Upsert) (found : Option Text) : Prop :=
  (u.mode = create → found = none) ∧ (u.mode = update → found.isSome)

/-- The entry that was found and deleted. -/
def Replaced (found : Option Text) (before : List Row) : Prop :=
  ∀ created, found = some created → created ≠ [] ∧ ∃ old, before = [old] ∧ old.createdAt = created

def CallOk : Pc → Prop
  | .opening u | .querying u => u.short
  | .embedding u found => u.short ∧ Fits u found
  | .deleting u found _ => u.short ∧ Fits u (some found)
  | .flushing u found _ before => u.short ∧ Fits u (some found) ∧ Replaced (some found) before
  | .inserting u found _ before => u.short ∧ Fits u found ∧ Replaced found before
  | .settling u before after _ | .saved u before after => Saved u before after
  | .tooLong _ => False
  | .failed touched => touched = false
  | _ => True

structure Inv : Prop where
  single : Rows.Single Row.id w.rows
  calls : ∀ n, CallOk (w.call n)

variable {w} {t : World} {n : Nat} {pc : Pc} {a : Answer} {u : Upsert} {now : Text}
  {found : Option Text} {before : List Row}

theorem Inv.goto (h : Inv w) (hn : w.call n ≠ .refused) (hPc : CallOk pc) : Inv (w.goto n pc) where
  single := h.single
  calls m := by
    have hCall : (w.goto n pc).call = Function.update w.call n pc :=
      Calls.getD_set (Calls.lt_of_ne hn) pc .refused
    rw [hCall]
    by_cases hm : m = n
    · rw [hm, Function.update_self]
      exact hPc
    · rw [Function.update_of_ne hm]
      exact h.calls m

theorem Inv.begin (h : Inv w) (hPc : CallOk pc) : Inv (w.begin pc) where
  single := h.single
  calls m := by
    have hCall : (w.begin pc).call = Function.update w.call w.calls.length pc :=
      Calls.getD_append w.calls pc .refused
    rw [hCall]
    by_cases hm : m = w.calls.length
    · rw [hm, Function.update_self]
      exact hPc
    · rw [Function.update_of_ne hm]
      exact h.calls m

theorem Inv.remove (h : Inv w) (id : Text) : Inv (w.remove id) where
  single := Rows.Single.remove h.single id
  calls := h.calls

theorem Inv.insert (h : Inv w) {row : Row} (hNone : w.rowsOf row.id = []) : Inv (w.insert row) where
  single := Rows.Single.append h.single hNone
  calls := h.calls

theorem Inv.next (h : Inv w) (hn : w.call n ≠ .refused) (hPc : CallOk pc) {touched : Bool}
    (hFail : a ≠ .answered → touched = false) : Inv (w.next n a pc touched) := by
  rw [World.next]
  split
  · exact h.goto hn hPc
  next ha => exact h.goto hn (hFail ha)

theorem Inv.rowsOf_eq (h : Inv w) {id : Text} {row : Row} (hFind : w.find id = some row) :
    w.rowsOf id = [row] := by
  have hSingle : (w.rowsOf id).length ≤ 1 := h.single id
  rw [find] at hFind
  cases hRows : w.rowsOf id with
  | nil =>
    rw [hRows] at hFind
    cases hFind
  | cons first rest =>
    rw [hRows] at hFind hSingle
    have hRest : rest = [] := by
      rw [List.length_cons] at hSingle
      exact List.length_eq_zero_iff.mp (by omega)
    rw [hRest, Option.some.inj hFind]

theorem Inv.query (h : Inv w) (hPc : w.call n = .querying u) (hs : w.milvus n a = some t) : Inv t := by
  have hn : w.call n ≠ .refused := by
    rw [hPc]
    exact nofun
  have hCall := h.calls n
  rw [hPc] at hCall
  rw [World.milvus, hPc] at hs
  simp only at hs
  split at hs
  · exact Option.some.inj hs ▸ h.goto hn rfl
  · split at hs
    · exact Option.some.inj hs ▸ h.goto hn rfl
    next hMode =>
      rw [not_or, not_and, not_and] at hMode
      refine Option.some.inj hs ▸ h.goto hn ⟨hCall, ?_, ?_⟩
      · intro hCreate
        exact Option.not_isSome_iff_eq_none.mp (hMode.1 hCreate)
      · intro hUpdate
        have hNot := hMode.2 hUpdate
        exact Option.isSome_iff_ne_none.mpr fun hNone => hNot (hNone ▸ rfl)

theorem Inv.deleteOld (h : Inv w) {created : Text} (hPc : w.call n = .deleting u created now)
    (hOk : w.CarefulAt a (w.call n)) (hs : w.milvus n a = some t) : Inv t := by
  have hn : w.call n ≠ .refused := by
    rw [hPc]
    exact nofun
  have hCall := h.calls n
  rw [hPc] at hCall hOk
  obtain ⟨hLost, hFound⟩ := hOk
  rw [World.milvus, hPc] at hs
  cases a with
  | refused => exact Option.some.inj hs ▸ h.goto hn rfl
  | lost => exact absurd rfl hLost
  | answered =>
    obtain ⟨hNe, hFind⟩ := hFound rfl
    obtain ⟨old, hOld, hCreated⟩ := Option.map_eq_some_iff.mp hFind
    refine Option.some.inj hs ▸ (h.remove u.id).goto hn ⟨hCall.1, hCall.2, ?_⟩
    intro c hc
    obtain rfl := Option.some.inj hc
    exact ⟨hNe, old, h.rowsOf_eq hOld, hCreated⟩

theorem Inv.putRow (h : Inv w) (hPc : w.call n = .inserting u found now before)
    (hOk : w.CarefulAt a (.inserting u found now before)) : Inv (w.putRow n a u found now before) := by
  have hn : w.call n ≠ .refused := by
    rw [hPc]
    exact nofun
  have hCall := h.calls n
  rw [hPc] at hCall
  obtain ⟨hShort, ⟨hCreate, hUpdate⟩, hReplaced⟩ := hCall
  obtain ⟨hAnswered, hLost, hNone⟩ := hOk
  have hFits : (u.row (keptOr found now) now).fits = true := hShort
  rw [World.putRow]
  simp only [hFits, Bool.true_eq_false, if_false]
  cases a with
  | lost => exact absurd rfl hLost
  | refused =>
    rw [if_pos rfl]
    apply h.goto hn
    cases found with
    | none => rfl
    | some created => cases hAnswered rfl
  | answered =>
    have hEmpty := hNone rfl
    have hRows : (w.insert (u.row (keptOr found now) now)).rowsOf u.id =
        [u.row (keptOr found now) now] := by
      have hAppend := @Rows.under_append_self _ _ _ Row.id w.rows (u.row (keptOr found now) now)
      exact hAppend.trans (congrArg (· ++ _) hEmpty)
    simp only [reduceCtorEq, if_false, if_true, hRows]
    apply (h.insert hEmpty).goto hn
    cases found with
    | none =>
      refine ⟨⟨_, rfl, rfl, rfl, rfl, rfl, ?_⟩, fun _ => hEmpty, ?_⟩
      · intro old hOld
        have hMem : old ∈ w.rowsOf u.id := hOld
        rw [hEmpty] at hMem
        cases hMem
      · intro hMode
        cases hUpdate hMode
    | some created =>
      obtain ⟨hNe, old, hBefore, hCreated⟩ := hReplaced created rfl
      refine ⟨⟨_, rfl, rfl, rfl, rfl, rfl, ?_⟩, ?_, ?_⟩
      · intro row hRow
        rw [if_pos Option.isSome_some, hBefore] at hRow
        rw [List.mem_singleton.mp hRow, hCreated]
        exact if_neg hNe
      · intro hMode
        cases hCreate hMode
      · intro _
        rw [if_pos Option.isSome_some, hBefore]
        exact List.cons_ne_nil _ _

theorem Inv.milvus (h : Inv w) (hOk : w.CarefulAt a (w.call n)) (hs : w.milvus n a = some t) :
    Inv t := by
  have hCall := h.calls n
  have hn : w.call n ≠ .refused := by
    intro hRefused
    rw [World.milvus, hRefused] at hs
    cases hs
  cases hPc : w.call n with
  | querying u => exact h.query hPc hs
  | deleting u found now => exact h.deleteOld hPc hOk hs
  | inserting u found now before =>
    rw [hPc] at hOk
    rw [World.milvus, hPc] at hs
    exact Option.some.inj hs ▸ h.putRow hPc hOk
  | opening u =>
    rw [hPc] at hCall
    rw [World.milvus, hPc] at hs
    have hNext : CallOk (.querying u) := hCall
    exact Option.some.inj hs ▸ h.next hn hNext fun _ => rfl
  | flushing u found now before =>
    rw [hPc] at hCall hOk
    rw [World.milvus, hPc] at hs
    have hNext : CallOk (.inserting u (some found) now before) := hCall
    exact Option.some.inj hs ▸ h.next hn hNext fun ha => absurd hOk ha
  | settling u before after flushed =>
    rw [hPc] at hCall hOk
    rw [World.milvus, hPc] at hs
    refine Option.some.inj hs ▸ h.next hn ?_ fun ha => absurd hOk ha
    split
    · exact hCall
    · exact hCall
  | dropOpening id =>
    rw [World.milvus, hPc] at hs
    exact Option.some.inj hs ▸ h.next hn (show CallOk (.dropQuerying id) from trivial) fun _ => rfl
  | dropQuerying id =>
    rw [World.milvus, hPc] at hs
    refine Option.some.inj hs ▸ h.next hn ?_ fun _ => rfl
    split <;> trivial
  | dropDeleting id =>
    rw [World.milvus, hPc] at hs
    simp only at hs
    split at hs
    · exact Option.some.inj hs ▸ h.goto hn trivial
    · refine Option.some.inj hs ▸ (h.remove id).goto ?_ ?_
      · exact hn
      · split <;> trivial
  | dropFlushing =>
    rw [World.milvus, hPc] at hs
    refine Option.some.inj hs ▸ h.goto hn ?_
    split <;> trivial
  | _ =>
    rw [World.milvus, hPc] at hs
    cases hs

theorem Inv.step (h : Inv w) {act : Act} (hOk : w.Careful act) (hs : w.step act = some t) :
    Inv t := by
  cases act with
  | upsert u =>
    refine Option.some.inj hs ▸ h.begin ?_
    split
    next hValid => exact hOk hValid
    · trivial
  | delete id =>
    refine Option.some.inj hs ▸ h.begin ?_
    split <;> trivial
  | milvus n a => exact h.milvus hOk hs
  | embed n dims now =>
    simp only [World.step] at hs
    split at hs
    next u found hPc =>
      have hCall := h.calls n
      rw [hPc] at hCall
      have hn : w.call n ≠ .refused := by
        rw [hPc]
        exact nofun
      split at hs
      · exact Option.some.inj hs ▸ h.goto hn rfl
      · refine Option.some.inj hs ▸ h.goto hn ?_
        cases found with
        | some created => exact hCall
        | none => exact ⟨hCall.1, hCall.2, nofun⟩
    · cases hs

/-- At most one row under an id; an upsert that fails has changed none, and one that succeeds
leaves its fields with the `created_at` of what it replaced, as its mode allows; and none
that passed the checks is refused for its length. -/
theorem upserts_atomic {w₀ : World} (hSingle : Rows.Single Row.id w₀.rows) (hCalls : w₀.calls = [])
    (h : Reach step Careful w₀ w) :
    Rows.Single Row.id w.rows ∧
    (∀ n touched, w.call n = .failed touched → touched = false) ∧
    (∀ n u before after, w.call n = .saved u before after → Saved u before after) ∧
    ∀ n touched, w.call n ≠ .tooLong touched := by
  have hStart : Inv w₀ := by
    refine ⟨hSingle, fun n => ?_⟩
    rw [World.call, hCalls]
    trivial
  have hInv : Inv w := h.invariant hStart fun _ _ _ _ hInv hOk hs => hInv.step hOk hs
  refine ⟨hInv.single, ?_, ?_, ?_⟩
  · intro n touched hPc
    have hCall := hInv.calls n
    rw [hPc] at hCall
    exact hCall
  · intro n u before after hPc
    have hCall := hInv.calls n
    rw [hPc] at hCall
    exact hCall
  · intro n touched hPc
    have hCall := hInv.calls n
    rw [hPc] at hCall
    exact hCall

/-! ## An entry that is replaced -/

def entry (title : Text) : Upsert := ⟨['k'], title, ['c'], ['t'], upsert⟩

def answered (n : Nat) : Act := .milvus n .answered

def insertRun (title : Text) : List Act :=
  [.upsert (entry title), answered 0, answered 0, .embed 0 (some 384) ['1'], answered 0, answered 0,
    answered 0]

def replaceRun (title : Text) : List Act :=
  insertRun ['a'] ++ [.upsert (entry title), answered 1, answered 1, .embed 1 (some 384) ['2'],
    answered 1, answered 1]

def isSaved : Pc → Bool
  | .saved _ before after => before.length = 1 && after.length = 1
  | _ => false

theorem entry_replaced :
    ∃ w, run step ⟨[], []⟩ (replaceRun ['b'] ++ [answered 1, answered 1, answered 1]) = some w ∧
      isSaved (w.call 1) = true ∧ Rows.Single Row.id w.rows := by
  obtain ⟨w, hRun, hw⟩ := exists_run_of_any step ⟨[], []⟩
    (replaceRun ['b'] ++ [answered 1, answered 1, answered 1]) (fun w => isSaved (w.call 1))
    (by decide)
  have hOk : Along step Careful ⟨[], []⟩
      (replaceRun ['b'] ++ [answered 1, answered 1, answered 1]) := by decide
  exact ⟨w, hRun, hw, (upserts_atomic (fun _ => Nat.zero_le _) rfl (Reach.of_run hRun hOk)).1⟩

/-- The insert behind the delete fails. -/
theorem entry_lost :
    ∃ w, run step ⟨[], []⟩ (replaceRun ['b'] ++ [.milvus 1 .refused]) = some w ∧
      w.call 1 = .failed true ∧ w.rowsOf ['k'] = [] := by
  obtain ⟨w, hRun, hw⟩ := exists_run_of_any step ⟨[], []⟩ (replaceRun ['b'] ++ [.milvus 1 .refused])
    (fun w => decide (w.call 1 = .failed true ∧ w.rowsOf ['k'] = [])) (by decide)
  exact ⟨w, hRun, of_decide_eq_true hw⟩

end World

end OpenSpoke.Knowledge
