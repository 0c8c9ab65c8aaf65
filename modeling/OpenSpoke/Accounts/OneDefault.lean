import OpenSpoke.Accounts.View

/-!
# One default

Between the write that makes a default or takes one away and the write that puts the others
right no other call writes. Then each host has one default whenever no call is in progress.
-/

namespace OpenSpoke.Accounts

open DocIndex (Answer)
open Lts
open Python (Text)
open Sole (One)

def Pc.repairing : Pc → Bool
  | .clear .. | .promoteSearch _ | .promotePut .. => true
  | _ => false

/-- An `add` that has found nothing under its id. -/
def Pc.adding (k : Text) : Pc → Bool
  | .addVerify l _ | .addSearch l _ _ | .addPut l _ => l = k
  | _ => false

namespace World

variable (w : World) (S : Site)

def Free : Prop := ∀ m < w.calls.length, (w.call m).repairing = false

instance : Decidable w.Free := Nat.decidableBallLT ..

def OnlyAdd (n : Nat) (k : Text) : Prop := ∀ m < w.calls.length, m ≠ n → (w.call m).adding k = false

instance (n : Nat) (k : Text) : Decidable (w.OnlyAdd n k) := Nat.decidableBallLT ..

structure Puts (k : Text) (doc : Account) (made : Bool) (a : Answer) : Prop where
  free : w.Free
  fits : Fits w.docs k doc made
  known : a = .lost → made → ∀ d ∈ others w.docs k doc.host, d.2.isDefault = false

instance (k : Text) (doc : Account) (made : Bool) (a : Answer) : Decidable (w.Puts k doc made a) :=
  decidable_of_iff (_ ∧ _ ∧ _) ⟨fun ⟨h₁, h₂, h₃⟩ => ⟨h₁, h₂, h₃⟩, fun ⟨h₁, h₂, h₃⟩ => ⟨h₁, h₂, h₃⟩⟩

structure Deletes (k host : Text) (wasDefault : Bool) (a : Answer) : Prop where
  free : w.Free
  asRead : (w.docs.get k).map (fun acct => (acct.host, acct.isDefault)) = some (host, wasDefault)
  known : a = .lost → wasDefault → others w.docs k host = []

instance (k host : Text) (wasDefault : Bool) (a : Answer) :
    Decidable (w.Deletes k host wasDefault a) :=
  decidable_of_iff (_ ∧ _ ∧ _) ⟨fun ⟨h₁, h₂, h₃⟩ => ⟨h₁, h₂, h₃⟩, fun ⟨h₁, h₂, h₃⟩ => ⟨h₁, h₂, h₃⟩⟩

def CarefulAt (n : Nat) (a : Answer) : Pc → Prop
  | .addGet k _ => a ≠ .answered → w.docs.get k = none
  | .addPut k doc => a ≠ .refused → w.OnlyAdd n k ∧ w.Puts k doc doc.isDefault a
  | .updatePut k doc made =>
    a ≠ .refused → (w.docs.get k).isSome ∧ w.Puts k doc made a
  | .clear k host => a = .refused → ∀ d ∈ others w.docs k host, d.2.isDefault = false
  | .deleteDelete k host wasDefault => a ≠ .refused → w.Deletes k host wasDefault a
  | .promoteSearch host =>
    (a = .answered ∧ (S.firstOn w.docs host).isSome) ∨ ∀ d ∈ w.docs.docs, d.2.host ≠ host
  | .promotePut .. => a ≠ .refused
  | _ => True

instance (n : Nat) (a : Answer) : (pc : Pc) → Decidable (w.CarefulAt S n a pc)
  | .addGet .. => inferInstanceAs (Decidable (_ → _))
  | .addPut .. => inferInstanceAs (Decidable (_ → _ ∧ _))
  | .updatePut .. => inferInstanceAs (Decidable (_ → _ ∧ _))
  | .clear .. => inferInstanceAs (Decidable (_ → ∀ d ∈ _, _))
  | .deleteDelete .. => inferInstanceAs (Decidable (_ → Deletes ..))
  | .promoteSearch _ => inferInstanceAs (Decidable (_ ∨ ∀ d ∈ _, _))
  | .promotePut .. => inferInstanceAs (Decidable (_ ≠ _))
  | .addVerify .. | .addSearch .. | .updateGet .. | .updateVerify .. | .deleteGet _ | .done
  | .failed => .isTrue trivial

def Careful : Act → Prop
  | .request n a _ => w.CarefulAt S n a (w.call n)
  | _ => True

instance : (act : Act) → Decidable (w.Careful S act)
  | .request .. => inferInstanceAs (Decidable (CarefulAt ..))
  | .add .. | .update .. | .delete _ | .verify .. | .touch .. => .isTrue trivial

/-! ## The invariant -/

/-- A token that its host has accepted. -/
structure Kept (vetted : List (Text × Text)) (acct : Account) : Prop where
  host : S.validHost acct.host
  token : acct.token ≠ []
  vetted : (acct.host, acct.token) ∈ vetted

def CallOk (vetted : List (Text × Text)) : Pc → Prop
  | .addGet _ r | .addVerify _ r => S.validHost r.host ∧ r.token ≠ []
  | .addSearch _ r _ => (S.validHost r.host ∧ r.token ≠ []) ∧ (r.host, r.token) ∈ vetted
  | .addPut _ doc | .promotePut _ doc => Kept S vetted doc
  | .updateVerify _ e =>
    (S.validHost e.account.host ∧ e.account.token ≠ []) ∧ (e.made → e.account.isDefault)
  | .updatePut _ doc made => Kept S vetted doc ∧ (made → doc.isDefault)
  | _ => True

/-- What holds of the accounts before the second write. -/
def Repairs (x : Docs) : Pc → Prop
  | .clear k host => GoodBut x host ∧ view x host k = some true
  | .promoteSearch host => GoodBut x host ∧ ∀ l, view x host l ≠ some true
  | .promotePut k doc => GoodBut x doc.host ∧ (∀ l, view x doc.host l ≠ some true) ∧
    doc.isDefault ∧ ∃ old, x.get k = some old ∧ old.host = doc.host
  | _ => True

structure Inv : Prop where
  good : (∀ n, (w.call n).repairing = false) → Good w.docs
  alone : ∀ n m, (w.call n).repairing → (w.call m).repairing → n = m
  repairs : ∀ n, Repairs w.docs (w.call n)
  adding : ∀ n k, (w.call n).adding k → w.docs.get k = none
  calls : ∀ n, CallOk S w.vetted (w.call n)
  stored : ∀ k acct, w.docs.get k = some acct → Kept S w.vetted acct
  chosen : ∀ k acct, w.chosen = some k → w.docs.get k = some acct → acct.isDefault

variable {w S} {n : Nat} {k host : Text} {pc : Pc} {acct doc : Account} {a : Answer} {now : Nat}

theorem call_lt (h : w.call n ≠ .failed) : n < w.calls.length := Calls.lt_of_ne h

theorem call_goto (h : w.call n ≠ .failed) : (w.goto n pc).call = Function.update w.call n pc :=
  Calls.getD_set (call_lt h) pc .failed

theorem call_begin (pc : Pc) : (w.begin pc).call = Function.update w.call w.calls.length pc :=
  Calls.getD_append w.calls pc .failed

theorem free_iff : w.Free ↔ ∀ n, (w.call n).repairing = false :=
  @Calls.forall_iff _ w.calls .failed (fun _ pc => pc.repairing = false) fun _ => rfl

theorem onlyAdd_iff : w.OnlyAdd n k ↔ ∀ m, m ≠ n → (w.call m).adding k = false :=
  @Calls.forall_iff _ w.calls .failed (fun m pc => m ≠ n → pc.adding k = false) fun _ _ => rfl

theorem Kept.mono {vetted vetted' : List (Text × Text)} (h : Kept S vetted acct)
    (hSub : vetted ⊆ vetted') : Kept S vetted' acct := ⟨h.host, h.token, hSub h.vetted⟩

theorem CallOk.mono {vetted vetted' : List (Text × Text)} (h : CallOk S vetted pc)
    (hSub : vetted ⊆ vetted') : CallOk S vetted' pc := by
  cases pc with
  | addSearch k r v => exact ⟨h.1, hSub h.2⟩
  | addPut k doc => exact Kept.mono h hSub
  | promotePut k doc => exact Kept.mono h hSub
  | updatePut k doc made => exact ⟨h.1.mono hSub, h.2⟩
  | _ => exact h

theorem Inv.vet (h : Inv w S) (p : Text × Text) : Inv { w with vetted := p :: w.vetted } S where
  good := h.good
  alone := h.alone
  repairs := h.repairs
  adding := h.adding
  calls m := (h.calls m).mono (List.subset_cons_self ..)
  stored k acct hGet := (h.stored k acct hGet).mono (List.subset_cons_self ..)
  chosen := h.chosen

theorem Inv.moved (h : Inv w S) {w' : World} (hCall : w'.call = Function.update w.call n pc)
    (hDocs : w'.docs = w.docs) (hVetted : w'.vetted = w.vetted) (hChosen : w'.chosen = w.chosen)
    (hOld : (w.call n).repairing = false) (hNew : pc.repairing = false)
    (hAdding : ∀ k, pc.adding k → w.docs.get k = none) (hOk : CallOk S w.vetted pc) : Inv w' S := by
  have hSame : ∀ m, (w'.call m).repairing = (w.call m).repairing := by
    intro m
    rw [hCall]
    by_cases hm : m = n
    · rw [hm, Function.update_self, hOld, hNew]
    · rw [Function.update_of_ne hm]
  refine ⟨?_, ?_, ?_, ?_, ?_, ?_, ?_⟩
  · intro hNone
    rw [hDocs]
    exact h.good fun m => (hSame m).symm.trans (hNone m)
  · intro l m hl hm
    rw [hSame] at hl hm
    exact h.alone l m hl hm
  · intro m
    rw [hDocs, hCall]
    by_cases hm : m = n
    · rw [hm, Function.update_self]
      cases pc with
      | clear | promoteSearch | promotePut => cases hNew
      | _ => trivial
    · rw [Function.update_of_ne hm]
      exact h.repairs m
  · intro m k hk
    rw [hDocs]
    rw [hCall] at hk
    by_cases hm : m = n
    · rw [hm, Function.update_self] at hk
      exact hAdding k hk
    · rw [Function.update_of_ne hm] at hk
      exact h.adding m k hk
  · rw [hVetted, hCall]
    exact (Function.forall_update_iff _ fun _ c => CallOk S w.vetted c).mpr
      ⟨hOk, fun m _ => h.calls m⟩
  · rw [hDocs, hVetted]
    exact h.stored
  · rw [hDocs, hChosen]
    exact h.chosen

theorem Inv.begin (h : Inv w S) (hOk : CallOk S w.vetted pc) (hNew : pc.repairing = false)
    (hAdding : ∀ k, pc.adding k = false) : Inv (w.begin pc) S := by
  have hOld : w.call w.calls.length = .failed := List.getD_eq_default _ _ le_rfl
  refine h.moved (call_begin pc) rfl rfl rfl (hOld ▸ rfl) hNew (fun k hk => ?_) hOk
  rw [hAdding k] at hk
  cases hk

theorem Inv.goto (h : Inv w S) (hn : w.call n ≠ .failed) (hOld : (w.call n).repairing = false)
    (hNew : pc.repairing = false) (hAdding : ∀ k, pc.adding k → w.docs.get k = none)
    (hOk : CallOk S w.vetted pc) : Inv (w.goto n pc) S :=
  h.moved (call_goto hn) rfl rfl rfl hOld hNew hAdding hOk

theorem Inv.fail (h : Inv w S) (hn : w.call n ≠ .failed) (hOld : (w.call n).repairing = false) :
    Inv (w.goto n .failed) S := h.goto hn hOld rfl (fun _ hk => nomatch hk) trivial

/-! ## Writes -/

theorem Inv.wrote (h : Inv w S) {w' : World} (hCall : w'.call = Function.update w.call n pc)
    (hVetted : w'.vetted = w.vetted) (hFree : ∀ m, m ≠ n → (w.call m).repairing = false)
    (hGood : pc.repairing = false → Good w'.docs) (hRepairs : Repairs w'.docs pc)
    (hAdding : ∀ m l, m ≠ n → (w.call m).adding l → w'.docs.get l = none)
    (hNew : ∀ l, pc.adding l = false) (hOk : CallOk S w.vetted pc)
    (hStored : ∀ l acct, w'.docs.get l = some acct → Kept S w.vetted acct)
    (hChosen : ∀ l acct, w'.chosen = some l → w'.docs.get l = some acct → acct.isDefault) :
    Inv w' S := by
  have hOnly : ∀ m, (w'.call m).repairing → m = n := by
    intro m hm
    by_contra hNe
    rw [hCall, Function.update_of_ne hNe, hFree m hNe] at hm
    cases hm
  refine ⟨?_, ?_, ?_, ?_, ?_, ?_, hChosen⟩
  · intro hNone
    apply hGood
    have hSelf := hNone n
    rwa [hCall, Function.update_self] at hSelf
  · intro l m hl hm
    rw [hOnly l hl, hOnly m hm]
  · intro m
    by_cases hm : m = n
    · rw [hm, hCall, Function.update_self]
      exact hRepairs
    · have hNot := hFree m hm
      rw [hCall, Function.update_of_ne hm]
      cases hPc : w.call m with
      | clear | promoteSearch | promotePut =>
        rw [hPc] at hNot
        cases hNot
      | _ => trivial
  · intro m l hl
    by_cases hm : m = n
    · rw [hm, hCall, Function.update_self, hNew] at hl
      cases hl
    · rw [hCall, Function.update_of_ne hm] at hl
      exact hAdding m l hm hl
  · rw [hVetted, hCall]
    exact (Function.forall_update_iff _ fun _ c => CallOk S w.vetted c).mpr
      ⟨hOk, fun m _ => h.calls m⟩
  · rw [hVetted]
    exact hStored

theorem Inv.free_but (h : Inv w S) (hn : (w.call n).repairing) (m : Nat) (hm : m ≠ n) :
    (w.call m).repairing = false := by
  by_contra hNot
  exact hm (h.alone m n (Bool.not_eq_false _ ▸ hNot) hn)

theorem Inv.write_stored (h : Inv w S) (hKept : Kept S w.vetted doc) {l : Text}
    (hGet : (w.docs.put k doc).get l = some acct) : Kept S w.vetted acct := by
  by_cases hl : l = k
  · subst hl
    rw [DocIndex.get_put_self] at hGet
    exact Option.some.inj hGet ▸ hKept
  · rw [DocIndex.get_put_of_ne _ _ hl] at hGet
    exact h.stored l acct hGet

theorem Inv.write_chosen (h : Inv w S) {l : Text} (hChosen : (w.write k doc).chosen = some l)
    (hGet : (w.docs.put k doc).get l = some acct) : acct.isDefault := by
  rw [World.write] at hChosen
  simp only at hChosen
  split at hChosen
  · cases hChosen
  next hNot =>
    by_cases hl : l = k
    · subst hl
      rw [DocIndex.get_put_self] at hGet
      have hDefault : ¬doc.isDefault = false := fun hFlag => hNot ⟨hFlag, hChosen⟩
      exact Option.some.inj hGet ▸ Bool.not_eq_false _ ▸ hDefault
    · rw [DocIndex.get_put_of_ne _ _ hl] at hGet
      exact h.chosen l acct hChosen hGet

theorem Inv.write_adding (h : Inv w S) {m : Nat} {l : Text} (hl : (w.call m).adding l)
    (hNe : l ≠ k) : (w.docs.put k doc).get l = none := by
  rw [DocIndex.get_put_of_ne _ _ hNe]
  exact h.adding m l hl

theorem call_write_goto (hn : w.call n ≠ .failed) (k : Text) (doc : Account) (pc : Pc) :
    ((w.write k doc).goto n pc).call = Function.update w.call n pc :=
  call_goto (w := w.write k doc) hn

theorem call_erase_goto (hn : w.call n ≠ .failed) (k : Text) (pc : Pc) :
    ((w.erase k).goto n pc).call = Function.update w.call n pc :=
  call_goto (w := w.erase k) hn

theorem Inv.put (h : Inv w S) (hn : w.call n ≠ .failed) (hOld : (w.call n).repairing = false)
    {made : Bool} (hKept : Kept S w.vetted doc) (hMade : made → doc.isDefault)
    (hPuts : a ≠ .refused → w.Puts k doc made a)
    (hAdding : a ≠ .refused → ∀ m l, m ≠ n → (w.call m).adding l → l ≠ k) :
    Inv (w.put n k doc made a) S := by
  by_cases hRefused : a = .refused
  · subst hRefused
    exact h.fail hn hOld
  have hOk := hPuts hRefused
  have hNone := free_iff.mp hOk.free
  have hBefore := h.good hNone
  -- the put alone, whatever the call does next
  have hWrote : ∀ pc : Pc, (pc.repairing = false → Good (w.docs.put k doc)) →
      Repairs (w.docs.put k doc) pc → (∀ l, pc.adding l = false) → CallOk S w.vetted pc →
      Inv ((w.write k doc).goto n pc) S := by
    intro pc hGood hRepairs hNew hPc
    refine h.wrote (call_write_goto hn k doc pc) rfl (fun m _ => hNone m) hGood hRepairs ?_ hNew hPc
      (fun l acct hGet => h.write_stored hKept hGet)
      (fun l acct hChosen hGet => h.write_chosen hChosen hGet)
    intro m l hm hl
    exact h.write_adding hl (hAdding hRefused m l hm hl)
  have hPlain : made = false → Good (w.docs.put k doc) := by
    rintro rfl
    exact hBefore.put hOk.fits
  cases a with
  | refused => exact absurd rfl hRefused
  | lost =>
    refine hWrote .failed (fun _ => ?_) trivial (fun _ => rfl) trivial
    cases made with
    | false => exact hPlain rfl
    | true =>
      apply (hBefore.but doc.host).put_alone (hMade rfl) hOk.fits.leaves
      intro l hl
      exact view_of_others (hOk.known rfl rfl) hl
  | answered =>
    cases made with
    | false => exact hWrote .done (fun _ => hPlain rfl) trivial (fun _ => rfl) trivial
    | true =>
      refine hWrote (.clear k doc.host) nofun ?_ (fun _ => rfl) trivial
      exact ⟨(hBefore.but doc.host).put hOk.fits.leaves, view_put_self (hMade rfl)⟩

theorem Inv.erase (h : Inv w S) (hn : w.call n ≠ .failed) (hGet : w.docs.get k = some acct)
    (hFree : w.Free) (hGood : pc.repairing = false → Good (w.docs.delete k))
    (hRepairs : Repairs (w.docs.delete k) pc) (hNew : ∀ l, pc.adding l = false)
    (hOk : CallOk S w.vetted pc) : Inv ((w.erase k).goto n pc) S := by
  have hSub : ∀ l b, (w.docs.delete k).get l = some b → l ≠ k ∧ w.docs.get l = some b := by
    intro l b hb
    by_cases hl : l = k
    · rw [hl, DocIndex.get_delete_self] at hb
      cases hb
    · rw [DocIndex.get_delete_of_ne _ hl] at hb
      exact ⟨hl, hb⟩
  refine h.wrote (call_erase_goto hn k pc) rfl (fun m _ => free_iff.mp hFree m) hGood hRepairs
    ?_ hNew hOk ?_ ?_
  · intro m l _ hl
    have hNone := h.adding m l hl
    have hNe : l ≠ k := by
      rintro rfl
      rw [hGet] at hNone
      cases hNone
    exact (DocIndex.get_delete_of_ne _ hNe).trans hNone
  · intro l b hb
    exact h.stored l b (hSub l b hb).2
  · intro l b hChosen hb
    obtain ⟨hNe, hGetL⟩ := hSub l b hb
    rw [World.goto, World.erase] at hChosen
    simp only at hChosen
    split at hChosen
    · cases hChosen
    · exact h.chosen l b hChosen hGetL

theorem Inv.delete (h : Inv w S) {wasDefault : Bool}
    (hPc : w.call n = .deleteDelete k host wasDefault)
    (hOk : w.CarefulAt S n a (w.call n)) {t : World} (hs : w.request S n a now = some t) :
    Inv t S := by
  have hn : w.call n ≠ .failed := by
    rw [hPc]
    exact nofun
  have hOld : (w.call n).repairing = false := by
    rw [hPc]
    rfl
  rw [hPc] at hOk
  rw [World.request, hPc] at hs
  by_cases hRefused : a = .refused
  · subst hRefused
    exact Option.some.inj hs ▸ h.fail hn hOld
  have hDeletes : w.Deletes k host wasDefault a := hOk hRefused
  obtain ⟨acct, hGet, hRead⟩ := Option.map_eq_some_iff.mp hDeletes.asRead
  obtain ⟨rfl, rfl⟩ := Prod.mk.injEq .. ▸ hRead
  have hBefore := h.good (free_iff.mp hDeletes.free)
  cases a with
  | refused => exact absurd rfl hRefused
  | lost =>
    refine Option.some.inj hs ▸ h.erase hn hGet hDeletes.free (fun _ => ?_) trivial (fun _ => rfl) trivial
    exact hBefore.delete hGet (hDeletes.known rfl)
  | answered =>
    obtain rfl := Option.some.inj hs
    rw [(h.stored k acct hGet).host, Bool.and_true]
    cases hFlag : acct.isDefault with
    | false =>
      refine h.erase hn hGet hDeletes.free (fun _ => ?_) trivial (fun _ => rfl) trivial
      exact hBefore.delete hGet fun hDefault => nomatch hFlag.symm.trans hDefault
    | true =>
      refine h.erase hn hGet hDeletes.free nofun ?_ (fun _ => rfl) trivial
      exact ⟨(hBefore.but acct.host).delete hGet rfl, none_of_delete hBefore hGet hFlag⟩

theorem Inv.clear (h : Inv w S) (hPc : w.call n = .clear k host)
    (hOk : w.CarefulAt S n a (.clear k host)) {x : Docs}
    (hx : x = if a = .refused then w.docs else S.clearDefaultFlag w.docs now k host) :
    Inv { w.goto n .done with docs := x, chosen := some k } S := by
  have hn : w.call n ≠ .failed := by
    rw [hPc]
    exact nofun
  have hOld : (w.call n).repairing := by
    rw [hPc]
    rfl
  have hRepairs := h.repairs n
  rw [hPc] at hRepairs
  obtain ⟨hBut, hMine⟩ := hRepairs
  have hFlags : ∀ l b, x.get l = some b → ∃ acct, w.docs.get l = some acct ∧
      (b = acct ∨ l ≠ k ∧ b = S.unset now acct) := by
    intro l b hb
    rw [hx] at hb
    split at hb
    · exact ⟨b, hb, .inl rfl⟩
    · rw [Site.clearDefaultFlag, DocIndex.get_modify] at hb
      obtain ⟨acct, hGet, rfl⟩ := Option.map_eq_some_iff.mp hb
      refine ⟨acct, hGet, ?_⟩
      split
      next hClears => exact .inr ⟨hClears.1, rfl⟩
      · exact .inl rfl
  refine h.wrote (call_goto hn) rfl (h.free_but hOld) (fun _ => ?_) trivial ?_ (fun _ => rfl) trivial
    ?_ ?_
  · show Good x
    rw [hx]
    split
    next hRefused =>
      apply hBut.good
      apply Sole.one_top hMine
      intro l hl
      exact view_of_others (hOk hRefused) hl
    · exact hBut.clear hMine now
  · intro m l _ hl
    have hNone := h.adding m l hl
    show x.get l = none
    rw [hx]
    split
    · exact hNone
    · rw [Site.clearDefaultFlag, DocIndex.get_modify, hNone]
      rfl
  · intro l b hb
    obtain ⟨acct, hGet, rfl | ⟨-, rfl⟩⟩ := hFlags l b hb
    · exact h.stored l b hGet
    · obtain ⟨hHost, hToken, hVetted⟩ := h.stored l acct hGet
      rw [← S.unset_host now, ← S.unset_token now] at hVetted
      exact ⟨S.unset_host now acct ▸ hHost, S.unset_token now acct ▸ hToken, hVetted⟩
  · intro l b hChosen hb
    obtain rfl := Option.some.inj hChosen
    obtain ⟨acct, hGet, rfl | ⟨hNe, -⟩⟩ := hFlags _ b hb
    · obtain ⟨old, hOldGet, -, hFlag⟩ := view_eq_some.mp hMine
      rw [hGet, Option.some_inj] at hOldGet
      exact hOldGet ▸ hFlag
    · exact absurd rfl hNe

theorem firstOn_some {x : Docs} {d : Text × Account} (h : S.firstOn x host = some d) :
    x.get d.1 = some d.2 ∧ d.2.host = host := by
  have hMem := List.mem_of_mem_take (List.mem_of_find?_eq_some h)
  rw [List.mem_insertionSort] at hMem
  have hHost := List.find?_some h
  exact ⟨DocIndex.mem_docs_iff.mp hMem, of_decide_eq_true hHost⟩

theorem Inv.promoteSearch (h : Inv w S) (hPc : w.call n = .promoteSearch host)
    (hOk : w.CarefulAt S n a (w.call n)) {t : World} (hs : w.request S n a now = some t) :
    Inv t S := by
  have hn : w.call n ≠ .failed := by
    rw [hPc]
    exact nofun
  have hOld : (w.call n).repairing := by
    rw [hPc]
    rfl
  have hRepairs := h.repairs n
  rw [hPc] at hRepairs hOk
  obtain ⟨hBut, hNone⟩ := hRepairs
  rw [World.request, hPc] at hs
  simp only at hs
  split at hs
  next d hFirst =>
    obtain rfl := Option.some.inj hs
    split at hFirst
    next ha =>
      obtain ⟨hGet, rfl⟩ := firstOn_some hFirst
      have hKept := h.stored d.1 d.2 hGet
      refine h.wrote (call_goto hn) rfl (h.free_but hOld) nofun ?_ (fun m l _ hl => h.adding m l hl)
        (fun _ => rfl) ⟨hKept.host, hKept.token, hKept.vetted⟩ h.stored h.chosen
      exact ⟨hBut, hNone, rfl, d.2, hGet, rfl⟩
    · cases hFirst
  next hFirst =>
    obtain rfl := Option.some.inj hs
    refine h.wrote (call_goto hn) rfl (h.free_but hOld) (fun _ => ?_) trivial
      (fun m l _ hl => h.adding m l hl) (fun _ => rfl) trivial h.stored h.chosen
    apply hBut.good
    rintro ⟨l, b, hView⟩
    obtain ⟨acct, hGet, hHost, -⟩ := view_eq_some.mp hView
    rcases hOk with ⟨ha, hSome⟩ | hEmpty
    · rw [if_pos ha] at hFirst
      rw [hFirst] at hSome
      cases hSome
    · exact absurd hHost (hEmpty (l, acct) (DocIndex.mem_docs_iff.mpr hGet))

theorem Inv.promotePut (h : Inv w S) (hPc : w.call n = .promotePut k doc) :
    Inv { (w.write k doc).goto n .done with chosen := some k } S := by
  have hn : w.call n ≠ .failed := by
    rw [hPc]
    exact nofun
  have hOld : (w.call n).repairing := by
    rw [hPc]
    rfl
  have hRepairs := h.repairs n
  have hKept := h.calls n
  rw [hPc] at hRepairs hKept
  obtain ⟨hBut, hNone, hFlag, old, hGet, hHost⟩ := hRepairs
  refine h.wrote (call_write_goto hn k doc .done) rfl (h.free_but hOld) (fun _ => ?_) trivial ?_
    (fun _ => rfl) trivial (fun l acct hAcct => h.write_stored hKept hAcct) ?_
  · apply hBut.put_alone hFlag
    · intro acct hAcct hNe
      rw [hGet] at hAcct
      exact absurd (Option.some.inj hAcct ▸ hHost) hNe
    · intro l _
      exact hNone l
  · intro m l _ hl
    apply h.write_adding hl
    rintro rfl
    rw [h.adding m l hl] at hGet
    cases hGet
  · intro l acct hChosen hAcct
    obtain rfl := Option.some.inj hChosen
    have hDoc := (DocIndex.get_put_self ..).symm.trans hAcct
    exact Option.some.inj hDoc ▸ hFlag

theorem Repairs.congr {x y : Docs} (hView : ∀ host, view y host = view x host) :
    (pc : Pc) → Repairs x pc → Repairs y pc
  | .clear k host, ⟨hBut, hMine⟩ =>
    ⟨fun other hOther => hView other ▸ hBut other hOther, hView host ▸ hMine⟩
  | .promoteSearch host, ⟨hBut, hNone⟩ =>
    ⟨fun other hOther => hView other ▸ hBut other hOther, fun l => hView host ▸ hNone l⟩
  | .promotePut k doc, ⟨hBut, hNone, hFlag, old, hGet, hHost⟩ => by
    refine ⟨fun other hOther => hView other ▸ hBut other hOther, fun l => hView doc.host ▸ hNone l,
      hFlag, ?_⟩
    have hOld := view_of_get hGet
    rw [← hView] at hOld
    obtain ⟨acct, hAcct, hSame, -⟩ := view_eq_some.mp hOld
    exact ⟨acct, hAcct, hSame.trans hHost⟩
  | .addGet .., _ | .addVerify .., _ | .addSearch .., _ | .addPut .., _ | .updateGet .., _
  | .updateVerify .., _ | .updatePut .., _ | .deleteGet _, _ | .deleteDelete .., _ | .done, _
  | .failed, _ => trivial

theorem Inv.touch (h : Inv w S) (k : Text) (now : Nat) :
    Inv { w with docs := w.docs.patch k fun acct => { acct with lastUsedAt := some now } } S := by
  have hView : ∀ host, view (w.docs.patch k fun acct => { acct with lastUsedAt := some now }) host =
      view w.docs host := fun _ => view_patch (fun _ => rfl) (fun _ => rfl)
  have hGets : ∀ l b, (w.docs.patch k fun acct => { acct with lastUsedAt := some now }).get l = some b →
      ∃ acct, w.docs.get l = some acct ∧ b.host = acct.host ∧ b.token = acct.token ∧
        b.isDefault = acct.isDefault := by
    intro l b hb
    by_cases hl : l = k
    · subst hl
      rw [DocIndex.get_patch_self] at hb
      obtain ⟨acct, hGet, rfl⟩ := Option.map_eq_some_iff.mp hb
      exact ⟨acct, hGet, rfl, rfl, rfl⟩
    · rw [DocIndex.get_patch_of_ne _ _ hl] at hb
      exact ⟨b, hb, rfl, rfl, rfl⟩
  refine ⟨?_, h.alone, fun m => (h.repairs m).congr hView, ?_, h.calls, ?_, ?_⟩
  · intro hNone host
    exact hView host ▸ h.good hNone host
  · intro m l hl
    cases hb : (w.docs.patch k fun acct => { acct with lastUsedAt := some now }).get l with
    | none => rfl
    | some b =>
      obtain ⟨acct, hGet, -⟩ := hGets l b hb
      rw [h.adding m l hl] at hGet
      cases hGet
  · intro l b hb
    obtain ⟨acct, hGet, hHost, hToken, -⟩ := hGets l b hb
    obtain ⟨hValid, hNe, hVetted⟩ := h.stored l acct hGet
    rw [← hHost, ← hToken] at hVetted
    exact ⟨hHost ▸ hValid, hToken ▸ hNe, hVetted⟩
  · intro l b hChosen hb
    obtain ⟨acct, hGet, -, -, hFlag⟩ := hGets l b hb
    exact hFlag ▸ h.chosen l acct hChosen hGet

/-! ## Every step -/

theorem Inv.updateGet (h : Inv w S) {c : Change} (hPc : w.call n = .updateGet k c) {t : World}
    (hs : w.request S n a now = some t) : Inv t S := by
  have hn : w.call n ≠ .failed := by
    rw [hPc]
    exact nofun
  have hOld : (w.call n).repairing = false := by
    rw [hPc]
    rfl
  rw [World.request, hPc] at hs
  simp only at hs
  split at hs
  next e hEdit =>
    obtain ⟨acct, hRead, hEdit⟩ := Option.bind_eq_some_iff.mp hEdit
    rw [World.get] at hRead
    split at hRead
    next ha =>
      obtain ⟨hHost, hToken, hVetted⟩ := h.stored k acct hRead
      have hValid := S.edit_valid c acct e hEdit hHost hToken
      have hMade := S.edit_made c acct e hEdit
      split at hs
      next hVerify =>
        exact Option.some.inj hs ▸ h.goto hn hOld rfl (fun _ hk => nomatch hk) ⟨hValid, hMade⟩
      next hVerify =>
        obtain ⟨hSameHost, hSameToken⟩ := S.edit_same c acct e hEdit hVerify
        rw [← hSameHost, ← hSameToken] at hVetted
        exact Option.some.inj hs ▸ h.goto hn hOld rfl (fun _ hk => nomatch hk)
          ⟨⟨hValid.1, hValid.2, hVetted⟩, hMade⟩
    · cases hRead
  · exact Option.some.inj hs ▸ h.fail hn hOld

theorem Inv.add (h : Inv w S) {r : NewAccount} (hPc : w.call n = .addGet k r)
    (hOk : w.CarefulAt S n a (w.call n)) {t : World} (hs : w.request S n a now = some t) :
    Inv t S := by
  have hn : w.call n ≠ .failed := by
    rw [hPc]
    exact nofun
  have hOld : (w.call n).repairing = false := by
    rw [hPc]
    rfl
  have hCall := h.calls n
  rw [hPc] at hOk hCall
  rw [World.request, hPc] at hs
  simp only at hs
  split at hs
  · exact Option.some.inj hs ▸ h.fail hn hOld
  next hRead =>
    refine Option.some.inj hs ▸ h.goto hn hOld rfl (fun l hl => ?_) hCall
    obtain rfl : k = l := of_decide_eq_true hl
    by_cases ha : a = .answered
    · rw [World.get, if_pos ha] at hRead
      exact Option.not_isSome_iff_eq_none.mp hRead
    · exact hOk ha

theorem Inv.addSearch (h : Inv w S) {r : NewAccount} {v : Verdict}
    (hPc : w.call n = .addSearch k r v) (isDefault : Bool) :
    Inv (w.goto n (.addPut k (r.doc k v isDefault now))) S := by
  have hn : w.call n ≠ .failed := by
    rw [hPc]
    exact nofun
  have hOld : (w.call n).repairing = false := by
    rw [hPc]
    rfl
  have hCall := h.calls n
  have hAdding := h.adding n k
  rw [hPc] at hCall hAdding
  refine h.goto hn hOld rfl (fun l hl => ?_) ⟨hCall.1.1, hCall.1.2, hCall.2⟩
  obtain rfl : k = l := of_decide_eq_true hl
  exact hAdding (decide_eq_true rfl)

theorem Inv.request (h : Inv w S) (hOk : w.CarefulAt S n a (w.call n)) {t : World}
    (hs : w.request S n a now = some t) : Inv t S := by
  cases hPc : w.call n with
  | addGet k r => exact h.add hPc hOk hs
  | addSearch k r v =>
    rw [World.request, hPc] at hs
    exact Option.some.inj hs ▸ h.addSearch hPc _
  | addPut k doc =>
    have hCall := h.calls n
    rw [hPc] at hCall hOk
    rw [World.request, hPc] at hs
    have hn : w.call n ≠ .failed := by
      rw [hPc]
      exact nofun
    refine Option.some.inj hs ▸ h.put hn (hPc ▸ rfl) hCall id (fun ha => (hOk ha).2) ?_
    intro ha m l hm hl
    rintro rfl
    rw [onlyAdd_iff.mp (hOk ha).1 m hm] at hl
    cases hl
  | updateGet k c => exact h.updateGet hPc hs
  | updatePut k doc made =>
    have hCall := h.calls n
    rw [hPc] at hCall hOk
    rw [World.request, hPc] at hs
    have hn : w.call n ≠ .failed := by
      rw [hPc]
      exact nofun
    refine Option.some.inj hs ▸ h.put hn (hPc ▸ rfl) hCall.1 hCall.2 (fun ha => (hOk ha).2) ?_
    intro ha m l _ hl
    rintro rfl
    have hSome := (hOk ha).1
    rw [h.adding m l hl] at hSome
    cases hSome
  | clear k host =>
    rw [hPc] at hOk
    rw [World.request, hPc] at hs
    exact Option.some.inj hs ▸ h.clear hPc hOk rfl
  | deleteGet k =>
    have hn : w.call n ≠ .failed := by
      rw [hPc]
      exact nofun
    rw [World.request, hPc] at hs
    simp only at hs
    split at hs
    · exact Option.some.inj hs ▸ h.goto hn (hPc ▸ rfl) rfl (fun _ hk => nomatch hk) trivial
    · cases hGone : S.goneIsDeleted with
      | true =>
        rw [hGone] at hs
        exact Option.some.inj hs ▸ h.goto hn (hPc ▸ rfl) rfl (fun _ hk => nomatch hk) trivial
      | false =>
        rw [hGone] at hs
        exact Option.some.inj hs ▸ h.fail hn (hPc ▸ rfl)
  | deleteDelete k host wasDefault => exact h.delete hPc hOk hs
  | promoteSearch host => exact h.promoteSearch hPc hOk hs
  | promotePut k doc =>
    rw [hPc] at hOk
    rw [World.request, hPc] at hs
    simp only [if_neg (show a ≠ .refused from hOk)] at hs
    exact Option.some.inj hs ▸ h.promotePut hPc
  | _ =>
    rw [World.request, hPc] at hs
    cases hs

theorem Inv.verify (h : Inv w S) {v : Option Verdict} {t : World}
    (hs : w.verify n v now = some t) : Inv t S := by
  have hCall := h.calls n
  have hAdding := h.adding n
  unfold World.verify at hs
  split at hs
  next k r v hPc =>
    have hn : w.call n ≠ .failed := by
      rw [hPc]
      exact nofun
    rw [hPc] at hCall hAdding
    have hVet := h.vet (r.host, r.token)
    exact Option.some.inj hs ▸ hVet.goto hn (hPc ▸ rfl) rfl hAdding ⟨hCall, List.mem_cons_self ..⟩
  next k e v hPc =>
    have hn : w.call n ≠ .failed := by
      rw [hPc]
      exact nofun
    rw [hPc] at hCall
    have hVet := h.vet (e.account.host, e.account.token)
    exact Option.some.inj hs ▸ hVet.goto hn (hPc ▸ rfl) rfl (fun _ hk => nomatch hk)
      ⟨⟨hCall.1.1, hCall.1.2, List.mem_cons_self ..⟩, hCall.2⟩
  next hPc => exact Option.some.inj hs ▸ h.fail (hPc ▸ nofun) (hPc ▸ rfl)
  next hPc => exact Option.some.inj hs ▸ h.fail (hPc ▸ nofun) (hPc ▸ rfl)
  · cases hs

theorem Inv.step (h : Inv w S) {act : Act} (hOk : w.Careful S act) {t : World}
    (hs : w.step S act = some t) : Inv t S := by
  cases act with
  | add k r =>
    rw [World.step] at hs
    split at hs
    next hValid => exact Option.some.inj hs ▸ h.begin hValid.2 rfl fun _ => rfl
    · exact Option.some.inj hs ▸ h.begin trivial rfl fun _ => rfl
  | update k c =>
    rw [World.step] at hs
    split at hs
    · exact Option.some.inj hs ▸ h.begin trivial rfl fun _ => rfl
    · exact Option.some.inj hs ▸ h.begin trivial rfl fun _ => rfl
  | delete k =>
    rw [World.step] at hs
    split at hs
    · exact Option.some.inj hs ▸ h.begin trivial rfl fun _ => rfl
    · exact Option.some.inj hs ▸ h.begin trivial rfl fun _ => rfl
  | request n a now => exact h.request hOk hs
  | verify n v now => exact h.verify hs
  | touch k now => exact Option.some.inj hs ▸ h.touch k now

theorem inv_start (S : Site) : Inv .start S := by
  have hCall : ∀ n, World.start.call n = .failed := fun _ => rfl
  refine ⟨fun _ => ?_, ?_, ?_, ?_, ?_, ?_, ?_⟩
  · rintro host ⟨k, b, hView⟩
    cases hView
  · intro n m hn
    cases hn
  · intro n
    trivial
  · intro n k hk
    cases hk
  · intro n
    trivial
  · intro k acct hGet
    cases hGet
  · intro k acct hChosen
    cases hChosen

theorem inv_reach (h : Reach (step · S) (Careful · S) .start w) : Inv w S :=
  @Reach.invariant _ _ _ _ (Inv · S) _ _ (inv_start S)
    (fun _ _ _ _ hInv hOk hs => hInv.step hOk hs) h

theorem Idle.free (h : w.Idle) (n : Nat) : (w.call n).repairing = false := by
  by_cases hn : w.call n = .failed
  · rw [hn]
    rfl
  · have hEnded : (w.call n).ended := h _ (Calls.mem_of_lt (call_lt hn))
    cases hPc : w.call n with
    | clear | promoteSearch | promotePut =>
      rw [hPc] at hEnded
      cases hEnded
    | _ => rfl

/-- While no call is in progress, a host with accounts has one default. -/
theorem default_of_idle (h : Reach (step · S) (Careful · S) .start w) (hIdle : w.Idle)
    (hGet : w.docs.get k = some acct) :
    ∃ l d, w.docs.get l = some d ∧ d.host = acct.host ∧ d.isDefault ∧
      ∀ m b, w.docs.get m = some b → b.host = acct.host → b.isDefault → m = l := by
  have hGood := (inv_reach h).good hIdle.free acct.host
  obtain ⟨l, hView, hUnique⟩ := hGood ⟨k, _, view_of_get hGet⟩
  obtain ⟨d, hd, hHost, hFlag⟩ := view_eq_some.mp hView
  refine ⟨l, d, hd, hHost, hFlag, ?_⟩
  intro m b hb hSame hDefault
  exact hUnique m (view_eq_some.mpr ⟨b, hb, hSame, hDefault⟩)

end World

end OpenSpoke.Accounts
