import OpenSpoke.Accounts.Table
import OpenSpoke.Lib.Sole

/-!
# The flags on a host

What each write of a call does to the flags of the accounts on a host.
-/

namespace OpenSpoke.Accounts

open Python (Text)
open Sole (One)

/-- The flags of the accounts on a host. -/
def view (x : Docs) (host k : Text) : Option Bool :=
  (x.get k).bind fun a => if a.host = host then some a.isDefault else none

/-- One default on each host. -/
def Good (x : Docs) : Prop := ∀ host, One (view x host)

def others (x : Docs) (k host : Text) : List (Text × Account) :=
  x.docs.filter fun d => d.1 ≠ k ∧ d.2.host = host

variable {x : Docs} {k l host : Text} {a doc : Account} {b : Bool} {S : Site}

theorem mem_others {d : Text × Account} :
    d ∈ others x k host ↔ x.get d.1 = some d.2 ∧ d.1 ≠ k ∧ d.2.host = host := by
  rw [others, List.mem_filter, decide_eq_true_iff, ← DocIndex.mem_docs_iff]

theorem view_eq_some : view x host k = some b ↔
    ∃ a, x.get k = some a ∧ a.host = host ∧ a.isDefault = b := by
  rw [view, Option.bind_eq_some_iff]
  constructor
  · rintro ⟨a, hGet, hFlag⟩
    split at hFlag
    next hHost => exact ⟨a, hGet, hHost, Option.some.inj hFlag⟩
    · cases hFlag
  · rintro ⟨a, hGet, hHost, rfl⟩
    exact ⟨a, hGet, if_pos hHost⟩

theorem view_of_get (hGet : x.get k = some a) : view x a.host k = some a.isDefault :=
  view_eq_some.mpr ⟨a, hGet, rfl, rfl⟩

theorem view_of_ne (hGet : x.get k = some a) (hHost : a.host ≠ host) : view x host k = none := by
  rw [view, hGet]
  exact if_neg hHost

theorem view_eq_none_of_others (h : others x k host = []) (hl : l ≠ k) : view x host l = none := by
  cases hView : view x host l with
  | none => rfl
  | some b =>
    obtain ⟨a, hGet, hHost, -⟩ := view_eq_some.mp hView
    have hMem : (l, a) ∈ others x k host := mem_others.mpr ⟨hGet, hl, hHost⟩
    rw [h] at hMem
    cases hMem

theorem exists_view_of_others (h : others x k host ≠ []) : ∃ l b, l ≠ k ∧ view x host l = some b := by
  obtain ⟨d, hd⟩ := List.exists_mem_of_ne_nil _ h
  obtain ⟨hGet, hNe, rfl⟩ := mem_others.mp hd
  exact ⟨d.1, _, hNe, view_of_get hGet⟩

theorem view_of_others (h : ∀ d ∈ others x k host, d.2.isDefault = false) (hl : l ≠ k) :
    view x host l ≠ some true := by
  intro hView
  obtain ⟨a, hGet, hHost, hFlag⟩ := view_eq_some.mp hView
  have hFalse := h (l, a) (mem_others.mpr ⟨hGet, hl, hHost⟩)
  rw [hFlag] at hFalse
  cases hFalse

/-! ## Writes -/

theorem view_put (x : Docs) (k host : Text) (doc : Account) :
    view (x.put k doc) host =
      Function.update (view x host) k (if doc.host = host then some doc.isDefault else none) := by
  funext l
  by_cases hl : l = k
  · subst hl
    rw [Function.update_self, view, DocIndex.get_put_self]
    rfl
  · rw [Function.update_of_ne hl, view, DocIndex.get_put_of_ne x doc hl]
    rfl

theorem view_delete (x : Docs) (k host : Text) :
    view (x.delete k) host = Function.update (view x host) k none := by
  funext l
  by_cases hl : l = k
  · subst hl
    rw [Function.update_self, view, DocIndex.get_delete_self]
    rfl
  · rw [Function.update_of_ne hl, view, DocIndex.get_delete_of_ne x hl]
    rfl

theorem view_patch {f : Account → Account} (hHost : ∀ a, (f a).host = a.host)
    (hFlag : ∀ a, (f a).isDefault = a.isDefault) : view (x.patch k f) host = view x host := by
  funext l
  by_cases hl : l = k
  · subst hl
    rw [view, view, DocIndex.get_patch_self, Option.bind_map]
    congr 1
    funext a
    simp only [Function.comp_apply, hHost, hFlag]
  · rw [view, view, DocIndex.get_patch_of_ne x f hl]

theorem view_clear_self (now : Nat) :
    view (S.clearDefaultFlag x now k host) host k = view x host k := by
  rw [view, view, Site.clearDefaultFlag, DocIndex.get_modify, Option.bind_map]
  congr 1
  funext a
  simp

theorem view_clear_other (now : Nat) (hl : l ≠ k) :
    view (S.clearDefaultFlag x now k host) host l ≠ some true := by
  intro hView
  obtain ⟨a, hGet, hHost, hFlag⟩ := view_eq_some.mp hView
  rw [Site.clearDefaultFlag, DocIndex.get_modify] at hGet
  obtain ⟨old, -, hOld⟩ := Option.map_eq_some_iff.mp hGet
  split at hOld
  · subst hOld
    rw [S.unset_default] at hFlag
    cases hFlag
  next hNot =>
    subst hOld
    exact hNot ⟨hl, hHost, hFlag⟩

theorem view_clear_of_ne (now : Nat) {other : Text} (hNe : other ≠ host) :
    view (S.clearDefaultFlag x now k host) other = view x other := by
  funext l
  rw [view, view, Site.clearDefaultFlag, DocIndex.get_modify, Option.bind_map]
  congr 1
  funext a
  rw [Function.comp_apply]
  split
  next h =>
    rw [S.unset_host, if_neg, if_neg]
    · exact h.2.1 ▸ hNe.symm
    · exact h.2.1 ▸ hNe.symm
  · rfl

/-! ## One default after a write -/

def GoodBut (x : Docs) (host : Text) : Prop := ∀ other, other ≠ host → One (view x other)

/-- What a put of a document needs so that the hosts keep their defaults. -/
structure Fits (x : Docs) (k : Text) (doc : Account) (made : Bool) : Prop where
  leaves : ∀ old ∈ x.get k, old.host ≠ doc.host → old.isDefault → others x k old.host = []
  takes : made = false → doc.isDefault → view x doc.host k = some true ∨ others x k doc.host = []
  joins : doc.isDefault = false → view x doc.host k ≠ some true ∧ others x k doc.host ≠ []

instance (made : Bool) : Decidable (Fits x k doc made) :=
  decidable_of_iff (_ ∧ _ ∧ _) ⟨fun ⟨h₁, h₂, h₃⟩ => ⟨h₁, h₂, h₃⟩, fun ⟨h₁, h₂, h₃⟩ => ⟨h₁, h₂, h₃⟩⟩

theorem GoodBut.put (hGood : GoodBut x doc.host)
    (hLeaves : ∀ old ∈ x.get k, old.host ≠ doc.host → old.isDefault → others x k old.host = []) :
    GoodBut (x.put k doc) doc.host := by
  intro host hHost
  rw [view_put, if_neg hHost.symm]
  apply Sole.one_update_none (hGood host hHost)
  intro hMine l hl
  obtain ⟨old, hGet, rfl, hFlag⟩ := view_eq_some.mp hMine
  exact view_eq_none_of_others (hLeaves old hGet hHost hFlag) hl

theorem Good.but (h : Good x) (host : Text) : GoodBut x host := fun other _ => h other

theorem GoodBut.good (h : GoodBut x host) (hHost : One (view x host)) : Good x := by
  intro other
  by_cases hOther : other = host
  · exact hOther ▸ hHost
  · exact h other hOther

theorem Good.put (hGood : Good x) (hFits : Fits x k doc false) : Good (x.put k doc) := by
  apply ((hGood.but doc.host).put hFits.leaves).good
  rw [view_put, if_pos rfl]
  cases hFlag : doc.isDefault with
  | true =>
    apply Sole.one_update_true (hGood doc.host)
    exact (hFits.takes rfl hFlag).imp_right fun hNone l hl => view_eq_none_of_others hNone hl
  | false =>
    obtain ⟨hMine, hOther⟩ := hFits.joins hFlag
    exact Sole.one_update_false (hGood doc.host) hMine (exists_view_of_others hOther)

theorem view_put_self (hFlag : doc.isDefault) : view (x.put k doc) doc.host k = some true :=
  view_eq_some.mpr ⟨doc, DocIndex.get_put_self x k doc, rfl, hFlag⟩

theorem GoodBut.put_alone (hGood : GoodBut x doc.host) (hFlag : doc.isDefault)
    (hLeaves : ∀ old ∈ x.get k, old.host ≠ doc.host → old.isDefault → others x k old.host = [])
    (hAlone : ∀ l, l ≠ k → view x doc.host l ≠ some true) : Good (x.put k doc) := by
  apply (hGood.put hLeaves).good
  apply Sole.one_top (view_put_self hFlag)
  intro l hl
  rw [view_put, Function.update_of_ne hl]
  exact hAlone l hl

theorem GoodBut.clear (hGood : GoodBut x host) (hMine : view x host k = some true) (now : Nat) :
    Good (S.clearDefaultFlag x now k host) := by
  have hBut : GoodBut (S.clearDefaultFlag x now k host) host := by
    intro other hOther
    rw [view_clear_of_ne now hOther]
    exact hGood other hOther
  apply hBut.good
  exact Sole.one_top ((view_clear_self now).trans hMine) fun l hl => view_clear_other now hl

theorem GoodBut.delete (hGood : GoodBut x host) (hGet : x.get k = some a) (hHost : a.host = host) :
    GoodBut (x.delete k) host := by
  intro other hOther
  rw [view_delete, Function.update_eq_self_iff.mpr (view_of_ne hGet (hHost ▸ hOther.symm)).symm]
  exact hGood other hOther

theorem Good.delete (hGood : Good x) (hGet : x.get k = some a)
    (hLast : a.isDefault → others x k a.host = []) : Good (x.delete k) := by
  apply ((hGood.but a.host).delete hGet rfl).good
  rw [view_delete]
  apply Sole.one_update_none (hGood a.host)
  intro hMine l hl
  rw [view_of_get hGet, Option.some_inj] at hMine
  exact view_eq_none_of_others (hLast hMine) hl

theorem none_of_delete (hGood : Good x) (hGet : x.get k = some a) (hFlag : a.isDefault) (l : Text) :
    view (x.delete k) a.host l ≠ some true := by
  rw [view_delete]
  by_cases hl : l = k
  · subst hl
    rw [Function.update_self]
    exact nofun
  · rw [Function.update_of_ne hl]
    intro hView
    exact hl ((hGood a.host).others ((view_of_get hGet).trans (congrArg some hFlag)) hView)

end OpenSpoke.Accounts
