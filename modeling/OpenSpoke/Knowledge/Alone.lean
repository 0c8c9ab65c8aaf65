import OpenSpoke.Knowledge.Collection

/-!
# An upsert alone

An upsert to which no other call comes. Whatever it is answered, it leaves the rows of the other
ids as they are, and its own as they were, or deletes them, or replaces them.
-/

namespace OpenSpoke.Knowledge

open DocIndex (Answer)
open Python (Text)

/-- What the call gets: from Milvus, or from `get_embedding` at a time. -/
inductive Reply
  | milvus (a : Answer)
  | embed (dims : Option Nat) (now : Text)

def Reply.act : Reply → Act
  | .milvus a => .milvus 0 a
  | .embed dims now => .embed 0 dims now

/-- The call has answered that all went well. -/
def Pc.ok : Pc → Bool
  | .saved _ _ _ => true
  | _ => false

namespace World

/-- A reply that the call does not wait for is passed over. -/
def reply (w : World) (r : Reply) : World := (w.step r.act).getD w

def alone (rows : List Row) (u : Upsert) (replies : List Reply) : World :=
  replies.foldl reply ⟨rows, [if u.valid then .opening u else .refused]⟩

/-- How an upsert may leave the rows. -/
inductive Outcome (u : Upsert) (old : List Row) : List Row → Prop
  | same : Outcome u old old
  | deleted : Outcome u old (Keyed.remove Row.id u.id old)
  | replaced (created now : Text) :
    Outcome u old (Keyed.remove Row.id u.id old ++ [u.row created now])

/-- What the rows are when the upsert is at a place. -/
def AloneAt (u : Upsert) (old rows : List Row) : Pc → Prop
  | .opening v | .querying v | .deleting v _ _ => v = u ∧ rows = old
  | .embedding v found => v = u ∧ rows = old ∧ (found = none → Rows.under Row.id u.id old = [])
  | .flushing v _ _ _ | .inserting v _ _ _ => v = u ∧ rows = Keyed.remove Row.id u.id old
  | .settling v _ _ _ | .saved v _ _ =>
    v = u ∧ ∃ created now, rows = Keyed.remove Row.id u.id old ++ [u.row created now]
  | .failed _ | .tooLong _ => Outcome u old rows
  | .refused => rows = old
  | .dropOpening _ | .dropQuerying _ | .dropDeleting _ | .dropFlushing | .dropped => False

variable {u : Upsert} {old rows : List Row} {pc : Pc} {w : World} {r : Reply} {a : Answer}

theorem remove_of_under {id : Text} (h : Rows.under Row.id id old = []) :
    Keyed.remove Row.id id old = old := by
  rw [Keyed.remove, List.filter_eq_self]
  intro row hRow
  rw [Rows.under, List.filter_eq_nil_iff] at h
  simpa using h row hRow

/-- The world in which the upsert is the only call. -/
def AloneIn (u : Upsert) (old : List Row) (w : World) : Prop :=
  ∃ rows pc, w = ⟨rows, [pc]⟩ ∧ AloneAt u old rows pc

theorem AloneAt.outcome (h : AloneAt u old rows pc) : Outcome u old rows := by
  cases pc with
  | opening _ | querying _ | deleting _ _ _ => exact h.2 ▸ .same
  | embedding _ _ => exact h.2.1 ▸ .same
  | flushing _ _ _ _ | inserting _ _ _ _ => exact h.2 ▸ .deleted
  | settling _ _ _ _ | saved _ _ _ =>
    obtain ⟨-, created, now, rfl⟩ := h
    exact .replaced created now
  | failed _ | tooLong _ => exact h
  | refused => exact h ▸ .same
  | dropOpening _ | dropQuerying _ | dropDeleting _ | dropFlushing | dropped => cases h

theorem AloneAt.next {next : Pc} (h : AloneAt u old rows pc) (hNext : AloneAt u old rows next)
    (touched : Bool) : AloneIn u old (World.next ⟨rows, [pc]⟩ 0 a next touched) := by
  refine ⟨rows, _, rfl, ?_⟩
  split
  · exact hNext
  · exact h.outcome

theorem AloneAt.milvus (h : AloneAt u old rows pc)
    (hs : World.milvus ⟨rows, [pc]⟩ 0 a = some w) : AloneIn u old w := by
  cases pc with
  | opening v => exact Option.some.inj hs ▸ h.next (show AloneAt u old rows (.querying v) from h) _
  | querying v =>
    obtain ⟨rfl, rfl⟩ := h
    have hFail : AloneAt v rows rows (.failed false) := .same
    simp only [World.milvus, World.call, List.getD_cons_zero] at hs
    split at hs
    · exact Option.some.inj hs ▸ ⟨rows, _, rfl, hFail⟩
    · split at hs
      · exact Option.some.inj hs ▸ ⟨rows, _, rfl, hFail⟩
      · refine Option.some.inj hs ▸ ⟨rows, _, rfl, rfl, rfl, ?_⟩
        intro hNone
        exact List.head?_eq_none_iff.mp (Option.map_eq_none_iff.mp hNone)
  | deleting v found now =>
    obtain ⟨rfl, rfl⟩ := h
    simp only [World.milvus, World.call, List.getD_cons_zero] at hs
    split at hs
    · exact Option.some.inj hs ▸ ⟨rows, _, rfl, .same⟩
    · refine Option.some.inj hs ▸ ⟨Keyed.remove Row.id v.id rows, _, rfl, ?_⟩
      split
      · exact ⟨rfl, rfl⟩
      · exact .deleted
  | flushing v found now before =>
    exact Option.some.inj hs ▸ h.next (show AloneAt u old rows (.inserting v _ now before) from h) _
  | inserting v found now before =>
    obtain ⟨rfl, rfl⟩ := h
    simp only [World.milvus, World.call, List.getD_cons_zero, World.putRow] at hs
    split at hs
    · exact Option.some.inj hs ▸ ⟨_, _, rfl, .deleted⟩
    · split at hs
      · exact Option.some.inj hs ▸ ⟨_, _, rfl, .deleted⟩
      · refine Option.some.inj hs ▸ ⟨_, _, rfl, ?_⟩
        split
        · exact ⟨rfl, _, _, rfl⟩
        · exact .replaced _ _
  | settling v before after flushed =>
    refine Option.some.inj hs ▸ h.next ?_ _
    split
    · exact h
    · exact h
  | dropOpening _ | dropQuerying _ | dropDeleting _ | dropFlushing => cases h
  | embedding _ _ | saved _ _ _ | failed _ | tooLong _ | dropped | refused => cases hs

theorem AloneAt.step (h : AloneAt u old rows pc)
    (hs : World.step ⟨rows, [pc]⟩ r.act = some w) : AloneIn u old w := by
  cases r with
  | milvus a => exact h.milvus hs
  | embed dims now =>
    cases pc with
    | embedding v found =>
      obtain ⟨rfl, rfl, hFound⟩ := h
      simp only [World.step, Reply.act, World.call, List.getD_cons_zero] at hs
      split at hs
      · exact Option.some.inj hs ▸ ⟨rows, _, rfl, .same⟩
      · refine Option.some.inj hs ▸ ⟨rows, _, rfl, ?_⟩
        cases found with
        | some created => exact ⟨rfl, rfl⟩
        | none => exact ⟨rfl, (remove_of_under (hFound rfl)).symm⟩
    | _ => cases hs

theorem AloneIn.reply (h : AloneIn u old w) (r : Reply) : AloneIn u old (w.reply r) := by
  obtain ⟨rows, pc, rfl, hAt⟩ := h
  rw [World.reply]
  cases hs : World.step ⟨rows, [pc]⟩ r.act with
  | none => exact ⟨rows, pc, rfl, hAt⟩
  | some w => exact hAt.step hs

theorem alone_in (old : List Row) (u : Upsert) (replies : List Reply) :
    AloneIn u old (alone old u replies) := by
  have hFold : ∀ w, AloneIn u old w → AloneIn u old (replies.foldl World.reply w) := by
    induction replies with
    | nil => exact fun w h => h
    | cons r replies ih => exact fun w h => ih _ (h.reply r)
  apply hFold
  refine ⟨old, _, rfl, ?_⟩
  split
  · exact ⟨rfl, rfl⟩
  · rfl

theorem alone_other (old : List Row) (u : Upsert) (replies : List Reply) {id : Text}
    (hNe : id ≠ u.id) :
    Rows.under Row.id id (alone old u replies).rows = Rows.under Row.id id old := by
  obtain ⟨rows, pc, hw, hAt⟩ := alone_in old u replies
  have hRows : (alone old u replies).rows = rows := congrArg World.rows hw
  rw [hRows]
  cases hAt.outcome with
  | same => rfl
  | deleted => exact Rows.under_remove_of_ne old hNe
  | replaced created now =>
    have hAppend := @Rows.under_append_of_ne _ _ _ Row.id id (u.row created now)
      (Keyed.remove Row.id u.id old) hNe
    exact hAppend.trans (Rows.under_remove_of_ne old hNe)

theorem alone_saved {replies : List Reply} (h : ((alone old u replies).call 0).ok = true) :
    ∃ created now, Rows.under Row.id u.id (alone old u replies).rows = [u.row created now] := by
  obtain ⟨rows, pc, hw, hAt⟩ := alone_in old u replies
  rw [hw] at h ⊢
  have hSaved : pc.ok = true := h
  cases pc with
  | saved v before after =>
    obtain ⟨-, created, now, rfl⟩ := hAt
    have hAppend := @Rows.under_append_self _ _ _ Row.id (Keyed.remove Row.id u.id old)
      (u.row created now)
    refine ⟨created, now, hAppend.trans ?_⟩
    rw [show (u.row created now).id = u.id from rfl, Rows.under_remove_self]
    rfl
  | _ => cases hSaved

end World

end OpenSpoke.Knowledge
