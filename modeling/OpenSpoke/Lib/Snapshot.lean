import Mathlib.Data.List.Infix

/-!
# Snapshots of files by path

A path is the list of its names. Directories are implied by the paths of files, and
nothing lies below a file. An overlay puts entries over a snapshot one after the other.
-/

structure Snapshot (ν ε : Type*) where
  entry : List ν → Option ε
  -- a list of all that exists, and maybe more
  support : List (List ν)
  mem_support : ∀ p, entry p ≠ none → p ∈ support
  flat : ∀ p q, p <+: q → p ≠ q → entry p ≠ none → entry q = none

namespace Snapshot

variable {ν ε : Type*}

def empty : Snapshot ν ε where
  entry _ := none
  support := []
  mem_support _ hp := absurd rfl hp
  flat _ _ _ _ hp := absurd rfl hp

/-- One path lies below the other. -/
def Clash (p q : List ν) : Prop := p ≠ q ∧ (p <+: q ∨ q <+: p)

instance [DecidableEq ν] (p q : List ν) : Decidable (Clash p q) :=
  inferInstanceAs (Decidable (_ ∧ _))

theorem Clash.symm {p q : List ν} (h : Clash p q) : Clash q p := ⟨h.1.symm, h.2.symm⟩

theorem not_clash_self (p : List ν) : ¬Clash p p := fun h => h.1 rfl

theorem clash_of_below {p q : List ν} (h : p <+: q) (hne : p ≠ q) : Clash p q := ⟨hne, .inl h⟩

theorem flat_of_clash (t : Snapshot ν ε) {p q : List ν} (h : Clash p q) (hp : t.entry p ≠ none) :
    t.entry q = none := by
  rcases h with ⟨hne, hpq | hqp⟩
  · exact t.flat p q hpq hne hp
  · by_contra hq
    exact hp (t.flat q p hqp hne.symm hq)

section Edits

variable [DecidableEq ν]

/-- The entry at a path after another one has been put. -/
def entryPut (t : Snapshot ν ε) (p : List ν) (e : ε) (q : List ν) : Option ε :=
  if q = p then some e else if Clash p q then none else t.entry q

theorem entryPut_self (t : Snapshot ν ε) (p : List ν) (e : ε) : t.entryPut p e p = some e :=
  if_pos rfl

theorem entryPut_of_clash (t : Snapshot ν ε) {p q : List ν} (e : ε) (h : Clash p q) :
    t.entryPut p e q = none := by
  rw [entryPut, if_neg h.1.symm, if_pos h]

theorem entryPut_of_apart (t : Snapshot ν ε) {p q : List ν} (e : ε) (hne : q ≠ p) (h : ¬Clash p q) :
    t.entryPut p e q = t.entry q := by
  rw [entryPut, if_neg hne, if_neg h]

theorem entryPut_support (t : Snapshot ν ε) (p : List ν) (e : ε) (q : List ν)
    (hq : t.entryPut p e q ≠ none) : q ∈ p :: t.support := by
  by_cases hqp : q = p
  · exact hqp ▸ List.mem_cons_self
  · rw [entryPut, if_neg hqp] at hq
    split at hq
    · exact absurd rfl hq
    · exact List.mem_cons_of_mem _ (t.mem_support q hq)

theorem entryPut_flat (t : Snapshot ν ε) (p : List ν) (e : ε) (a b : List ν) (hab : a <+: b)
    (hne : a ≠ b) (ha : t.entryPut p e a ≠ none) : t.entryPut p e b = none := by
  by_cases hap : a = p
  · subst hap
    exact t.entryPut_of_clash e (clash_of_below hab hne)
  · have hApart : ¬Clash p a := fun h => ha (t.entryPut_of_clash e h)
    rw [t.entryPut_of_apart e hap hApart] at ha
    by_cases hbp : b = p
    · subst hbp
      exact absurd (clash_of_below hab hne).symm hApart
    · rw [entryPut, if_neg hbp]
      split
      · rfl
      · exact t.flat a b hab hne ha

/-- A file takes the place of what is at its path, below it and above it. -/
def put (t : Snapshot ν ε) (p : List ν) (e : ε) : Snapshot ν ε where
  entry := t.entryPut p e
  support := p :: t.support
  mem_support := t.entryPut_support p e
  flat := t.entryPut_flat p e

def entryErase (t : Snapshot ν ε) (p q : List ν) : Option ε := if q = p then none else t.entry q

theorem entryErase_ne_none {t : Snapshot ν ε} {p q : List ν} (h : t.entryErase p q ≠ none) :
    q ≠ p ∧ t.entry q ≠ none := by
  unfold entryErase at h
  split at h
  · exact absurd rfl h
  next hne => exact ⟨hne, h⟩

theorem entryErase_flat (t : Snapshot ν ε) (p a b : List ν) (hab : a <+: b) (hne : a ≠ b)
    (ha : t.entryErase p a ≠ none) : t.entryErase p b = none := by
  unfold entryErase
  split
  · rfl
  · exact t.flat a b hab hne (entryErase_ne_none ha).2

def erase (t : Snapshot ν ε) (p : List ν) : Snapshot ν ε where
  entry := t.entryErase p
  support := t.support
  mem_support q hq := t.mem_support q (entryErase_ne_none hq).2
  flat := t.entryErase_flat p

def set (t : Snapshot ν ε) (p : List ν) : Option ε → Snapshot ν ε
  | some e => t.put p e
  | none => t.erase p

@[simp] theorem entry_set_self (t : Snapshot ν ε) (p : List ν) (e : Option ε) :
    (t.set p e).entry p = e := by
  cases e with
  | some e => exact t.entryPut_self p e
  | none => exact if_pos rfl

theorem entry_set_of_ne (t : Snapshot ν ε) {p q : List ν} {e : Option ε} (hne : q ≠ p)
    (h : e ≠ none → ¬Clash p q) : (t.set p e).entry q = t.entry q := by
  cases e with
  | some e => exact t.entryPut_of_apart e hne (h (by simp))
  | none => exact if_neg hne

theorem entry_set_of_clash (t : Snapshot ν ε) {p q : List ν} {e : Option ε} (he : e ≠ none)
    (h : Clash p q) : (t.set p e).entry q = none := by
  cases e with
  | some e => exact t.entryPut_of_clash e h
  | none => exact absurd rfl he

def overlay (t : Snapshot ν ε) (es : List (List ν × Option ε)) : Snapshot ν ε :=
  es.foldl (fun t e => t.set e.1 e.2) t

/-- No tree has all of the entries that are files. -/
def Clashing (es : List (List ν × Option ε)) : Prop :=
  ∃ d ∈ es, ∃ e ∈ es, d.2.isSome ∧ e.2.isSome ∧ Clash d.1 e.1

instance (es : List (List ν × Option ε)) : Decidable (Clashing es) :=
  inferInstanceAs (Decidable (∃ d ∈ es, _))

end Edits

section Overlay

variable [DecidableEq ν] {t : Snapshot ν ε} {es : List (List ν × Option ε)} {p : List ν}

theorem overlay_cons (t : Snapshot ν ε) (e : List ν × Option ε) (es : List (List ν × Option ε)) :
    t.overlay (e :: es) = (t.set e.1 e.2).overlay es := rfl

theorem overlay_apart (hNamed : ∀ e ∈ es, e.1 ≠ p)
    (hApart : ∀ e ∈ es, e.2 ≠ none → ¬Clash e.1 p) : (t.overlay es).entry p = t.entry p := by
  induction es generalizing t with
  | nil => rfl
  | cons e es ih =>
    rw [overlay_cons, ih (fun d hd => hNamed d (List.mem_cons_of_mem _ hd))
      fun d hd => hApart d (List.mem_cons_of_mem _ hd)]
    exact t.entry_set_of_ne (hNamed e List.mem_cons_self).symm (hApart e List.mem_cons_self)

theorem overlay_clash (hNamed : ∀ e ∈ es, e.1 ≠ p)
    (hClash : t.entry p = none ∨ ∃ e ∈ es, e.2 ≠ none ∧ Clash e.1 p) :
    (t.overlay es).entry p = none := by
  induction es generalizing t with
  | nil =>
    obtain hNone | ⟨e, he, -⟩ := hClash
    · exact hNone
    · cases he
  | cons e es ih =>
    rw [overlay_cons]
    apply ih fun d hd => hNamed d (List.mem_cons_of_mem _ hd)
    by_cases hGone : e.2 ≠ none ∧ Clash e.1 p
    · exact .inl (t.entry_set_of_clash hGone.1 hGone.2)
    · rcases hClash with hNone | ⟨d, hd, hClash⟩
      · refine .inl ?_
        rw [t.entry_set_of_ne (hNamed e List.mem_cons_self).symm fun hSome hClash =>
          hGone ⟨hSome, hClash⟩]
        exact hNone
      · rcases List.mem_cons.mp hd with rfl | hd
        · exact absurd hClash hGone
        · exact .inr ⟨d, hd, hClash⟩

theorem overlay_named {f : List ν → Option ε} (hEntries : ∀ e ∈ es, e.2 = f e.1)
    (hFits : ¬Clashing es) (hNamed : p ∈ es.map Prod.fst) : (t.overlay es).entry p = f p := by
  induction es using List.reverseRecOn generalizing p with
  | nil => cases hNamed
  | append_singleton es e ih =>
    rw [overlay, List.foldl_append, List.foldl_cons, List.foldl_nil]
    change ((t.overlay es).set e.1 e.2).entry p = f p
    have hLast : e.2 = f e.1 := hEntries e (by simp)
    by_cases hSame : p = e.1
    · rw [hSame, entry_set_self, hLast]
    · have hIn : p ∈ es.map Prod.fst := by
        rw [List.map_append, List.mem_append] at hNamed
        refine hNamed.resolve_right ?_
        simpa using hSame
      have hOld : (t.overlay es).entry p = f p := by
        apply ih (fun d hd => hEntries d (by simp [hd])) _ hIn
        rintro ⟨c, hc, d, hd, hClash⟩
        exact hFits ⟨c, by simp [hc], d, by simp [hd], hClash⟩
      by_cases hGone : e.2 ≠ none ∧ Clash e.1 p
      · obtain ⟨d, hd, rfl⟩ := List.mem_map.mp hIn
        rw [entry_set_of_clash _ hGone.1 hGone.2, ← hEntries d (by simp [hd])]
        by_contra hSome
        refine hFits ⟨e, by simp, d, by simp [hd], ?_, ?_, hGone.2⟩
        · exact Option.isSome_iff_ne_none.mpr hGone.1
        · exact Option.isSome_iff_ne_none.mpr (Ne.symm hSome)
      · rw [entry_set_of_ne _ hSame fun hSome hClash => hGone ⟨hSome, hClash⟩]
        exact hOld

end Overlay

/-! ## Directories and comparisons -/

def isDir [DecidableEq ν] (t : Snapshot ν ε) (p : List ν) : Bool :=
  t.support.any fun q => p <+: q ∧ p ≠ q ∧ (t.entry q).isSome

/-- The same files. -/
def same [DecidableEq ν] [DecidableEq ε] (a b : Snapshot ν ε) : Bool :=
  (a.support ++ b.support).all fun p => a.entry p = b.entry p

theorem same_iff [DecidableEq ν] [DecidableEq ε] {a b : Snapshot ν ε} :
    a.same b = true ↔ a.entry = b.entry := by
  unfold same
  rw [List.all_eq_true]
  constructor
  · intro hAll
    funext p
    by_cases hp : p ∈ a.support ++ b.support
    · exact of_decide_eq_true (hAll p hp)
    · have ha : a.entry p = none := by
        by_contra ha
        exact hp (List.mem_append_left _ (a.mem_support p ha))
      have hb : b.entry p = none := by
        by_contra hb
        exact hp (List.mem_append_right _ (b.mem_support p hb))
      rw [ha, hb]
  · intro h p hp
    rw [h]
    exact decide_eq_true rfl

end Snapshot
