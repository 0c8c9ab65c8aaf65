import Mathlib.Logic.Function.Basic

/-!
# A document with a sequence number

A store keeps every version of a document. A reader may be given any version up
to the current one. A writer replaces the current version in one atomic step; if
it names the sequence number that it read, a document written since then is
refused.
-/

structure Document (α : Type*) where
  seqNo : Nat
  version : Nat → α

namespace Document

variable {α : Type*}

def new (a : α) : Document α := ⟨0, fun _ => a⟩

def cur (d : Document α) : α := d.version d.seqNo

def put (d : Document α) (a : α) : Document α :=
  ⟨d.seqNo + 1, Function.update d.version (d.seqNo + 1) a⟩

/-- A write of `f` to the current version, `none` on a version conflict. -/
def update (d : Document α) (guard : Option Nat) (f : α → α) : Option (Document α) :=
  if ∀ i ∈ guard, i = d.seqNo then some (d.put (f d.cur)) else none

@[simp] theorem cur_new (a : α) : (new a).cur = a := rfl

@[simp] theorem seqNo_put (d : Document α) (a : α) : (d.put a).seqNo = d.seqNo + 1 := rfl

@[simp] theorem cur_put (d : Document α) (a : α) : (d.put a).cur = a := by simp [cur, put]

theorem version_put (d : Document α) (a : α) {i : Nat} (hi : i ≤ d.seqNo) :
    (d.put a).version i = d.version i := by
  have hne : i ≠ d.seqNo + 1 := by omega
  simp [put, hne]

@[simp] theorem update_none (d : Document α) (f : α → α) :
    d.update none f = some (d.put (f d.cur)) := by simp [update]

/-- A guarded write takes effect on the version that was read, or not at all. -/
theorem update_some {d e : Document α} {i : Nat} {f : α → α} (h : d.update (some i) f = some e) :
    d.cur = d.version i ∧ e = d.put (f (d.version i)) := by
  unfold update at h
  split at h <;> cases h
  next hi =>
    have hi : i = d.seqNo := by simpa using hi
    subst hi
    exact ⟨rfl, rfl⟩

theorem update_eq_some {d e : Document α} {guard : Option Nat} {f : α → α}
    (h : d.update guard f = some e) : e = d.put (f d.cur) := by
  unfold update at h
  split at h <;> cases h
  rfl

/-- A version with `p` is preceded by versions with `p` only. -/
def Initially (p : α → Prop) (d : Document α) : Prop :=
  ∀ i j, i ≤ j → j ≤ d.seqNo → p (d.version j) → p (d.version i)

theorem initially_new (p : α → Prop) (a : α) : (new a).Initially p := by
  intro i j hij hj h
  exact h

/-- `p` stays an initial property under writes that never bring it back. -/
theorem Initially.put {p : α → Prop} {d : Document α} (h : d.Initially p) {a : α}
    (ha : p a → p d.cur) : (d.put a).Initially p := by
  intro i j hij hj hp
  rcases Nat.lt_or_ge d.seqNo j with hlt | hle
  · have hj : j = d.seqNo + 1 := by
      rw [seqNo_put] at hj
      omega
    subst hj
    have hCur : p d.cur := ha (by simpa [Document.put] using hp)
    rcases Nat.lt_or_ge d.seqNo i with hlt' | hle'
    · have hi : i = d.seqNo + 1 := by omega
      subst hi
      exact hp
    · rw [version_put d a hle']
      exact h i d.seqNo hle' (Nat.le_refl _) hCur
  · rw [version_put d a hle] at hp
    rw [version_put d a (Nat.le_trans hij hle)]
    exact h i j hij hle hp

theorem Initially.version_of_cur {p : α → Prop} {d : Document α} (h : d.Initially p)
    (hCur : p d.cur) {i : Nat} (hi : i ≤ d.seqNo) : p (d.version i) :=
  h i d.seqNo hi (Nat.le_refl _) hCur

end Document
