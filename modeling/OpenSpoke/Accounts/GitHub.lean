import OpenSpoke.Accounts.OneDefault

/-!
# GitHub accounts

`github_account`: one default for a user, whose token is resolved.
-/

namespace OpenSpoke.Accounts.GitHub

open DocIndex (Answer)
open Lts
open Python (Text)

/-- `_validate_account_id`. -/
def validAccountId (k : Text) : Bool := k ≠ [] && k.all fun c => c.isAlphanum || c = '_' || c = '-'

/-- The fields of `update_github_account` that are not empty. -/
def edit (c : Change) (a : Account) : Option Edit :=
  let label := c.label.filter (· ≠ [])
  let token := c.token.filter (· ≠ [])
  if label = none ∧ token = none ∧ c.isDefault = none then none
  else some
    { account := { a with
        label := label.getD a.label
        token := token.getD a.token
        isDefault := c.isDefault.getD a.isDefault }
      verify := token.isSome
      made := c.isDefault = some true }

theorem edit_eq_some {c : Change} {a : Account} {e : Edit} (h : edit c a = some e) :
    e.account.host = a.host ∧ e.account.token = (c.token.filter (· ≠ [])).getD a.token ∧
      e.account.isDefault = c.isDefault.getD a.isDefault ∧
      e.verify = (c.token.filter (· ≠ [])).isSome ∧ e.made = decide (c.isDefault = some true) := by
  unfold edit at h
  simp only at h
  split at h
  · cases h
  · cases h
    exact ⟨rfl, rfl, rfl, rfl, rfl⟩

def site : Site where
  validId := validAccountId
  validHost host := host = []
  before a b := a.createdAt ≤ b.createdAt
  unset now a := { a with isDefault := false, updatedAt := now }
  edit := edit
  goneIsDeleted := false
  unset_host _ _ := rfl
  unset_token _ _ := rfl
  unset_default _ _ := rfl
  edit_made c a e hEdit hMade := by
    obtain ⟨-, -, hFlag, -, hIff⟩ := edit_eq_some hEdit
    rw [hIff, decide_eq_true_iff] at hMade
    rw [hFlag, hMade]
    rfl
  edit_same c a e hEdit hVerify := by
    obtain ⟨hHost, hToken, -, hIff, -⟩ := edit_eq_some hEdit
    rw [hIff, Bool.not_eq_true, Option.isSome_eq_false_iff, Option.isNone_iff_eq_none] at hVerify
    rw [hToken, hVerify]
    exact ⟨hHost, rfl⟩
  edit_valid c a e hEdit hHost hNe := by
    obtain ⟨hSame, hToken, -⟩ := edit_eq_some hEdit
    refine ⟨hSame ▸ hHost, ?_⟩
    rw [hToken]
    cases hFilter : c.token.filter (· ≠ []) with
    | none => exact hNe
    | some token => exact of_decide_eq_true (Option.filter_eq_some_iff.mp hFilter).2

/-- `_os_find_default`, in no particular order. -/
def findDefault (docs : Docs) (a : Answer) : Option (Text × Account) :=
  if a = .answered then (docs.docs.filter fun d => d.2.isDefault).head? else none

/-- `resolve_github_token` for a user: the answer of OpenSearch, what the vault has for the
owner, if there is one, and `GITHUB_TOKEN`. -/
def resolveGithubToken (docs : Docs) (a : Answer) (org env : Option Text) : Option Text :=
  match (findDefault docs a).filter fun d => d.2.token ≠ [] with
  | some d => some d.2.token
  | none => (org.filter (· ≠ [])).or (env.filter (· ≠ []))

theorem findDefault_eq {docs : Docs} {k : Text} {acct : Account} (hGet : docs.get k = some acct)
    (hFlag : acct.isDefault)
    (hUnique : ∀ l b, docs.get l = some b → b.isDefault → l = k) :
    findDefault docs .answered = some (k, acct) := by
  rw [findDefault, if_pos rfl]
  cases hHead : (docs.docs.filter fun d => d.2.isDefault).head? with
  | none =>
    have hMem : (k, acct) ∈ docs.docs.filter fun d => d.2.isDefault :=
      List.mem_filter.mpr ⟨DocIndex.mem_docs_iff.mpr hGet, hFlag⟩
    rw [List.head?_eq_none_iff.mp hHead] at hMem
    cases hMem
  | some d =>
    obtain ⟨hMem, hDefault⟩ := List.mem_filter.mp (List.mem_of_head? hHead)
    have hSome := DocIndex.mem_docs_iff.mp hMem
    obtain rfl : d.1 = k := hUnique d.1 d.2 hSome hDefault
    rw [hGet, Option.some_inj] at hSome
    rw [hSome]

variable {w : World}

/-- Whenever no call is in progress, a user with accounts has one default, the last one made
so, and its token is resolved; an `add` changes no account that is there. -/
theorem one_github_default
    (h : Reach (World.step · site) (World.Careful · site) World.start w) :
    (w.Idle → ∀ k acct, w.docs.get k = some acct →
      ∃ l d, w.docs.get l = some d ∧ d.isDefault = true ∧
        (∀ m b, w.docs.get m = some b → b.isDefault = true → m = l) ∧
        (∀ c, w.chosen = some c → (w.docs.get c).isSome = true → c = l) ∧
        ∀ org env, resolveGithubToken w.docs .answered org env = some d.token) ∧
    ∀ n k doc a now t, w.call n = .addPut k doc → w.request site n a now = some t →
      ∀ l acct, w.docs.get l = some acct → t.docs.get l = some acct := by
  have hInv := World.inv_reach h
  constructor
  · intro hIdle k acct hGet
    obtain ⟨l, d, hd, hHost, hFlag, hUnique⟩ := World.default_of_idle h hIdle hGet
    -- there is only one host
    have hAll : ∀ m b, w.docs.get m = some b → b.host = [] := fun m b hb =>
      of_decide_eq_true (hInv.stored m b hb).host
    have hOnly : ∀ m b, w.docs.get m = some b → b.isDefault → m = l := fun m b hb =>
      hUnique m b hb ((hAll m b hb).trans (hAll k acct hGet).symm)
    refine ⟨l, d, hd, hFlag, hOnly, ?_, ?_⟩
    · intro c hChosen hSome
      obtain ⟨b, hb⟩ := Option.isSome_iff_exists.mp hSome
      exact hOnly c b hb (hInv.chosen c b hChosen hb)
    · intro org env
      have hToken := (hInv.stored l d hd).token
      rw [resolveGithubToken, findDefault_eq hd hFlag hOnly, Option.filter_some, if_pos]
      exact decide_eq_true hToken
  · intro n k doc a now t hPc hs l acct hGet
    have hNone : w.docs.get k = none := hInv.adding n k (hPc ▸ decide_eq_true rfl)
    have hNe : l ≠ k := by
      rintro rfl
      rw [hNone] at hGet
      cases hGet
    rw [World.request, hPc] at hs
    obtain rfl := Option.some.inj hs
    cases a with
    | refused => exact hGet
    | lost => exact (DocIndex.get_put_of_ne _ _ hNe).trans hGet
    | answered => exact (DocIndex.get_put_of_ne _ _ hNe).trans hGet

/-! ## Two accounts -/

def addRun (k : Text) (n : Nat) (isDefault : Bool) : List Act :=
  [.add k ⟨[], [], ['t'], isDefault⟩, .request n .answered n, .verify n (some ⟨[], 0, []⟩) n,
    .request n .answered n, .request n .answered n]

def clearFlag : Change := ⟨none, none, none, some false⟩

/-- A second account becomes the default and is deleted again. -/
def promoteRun : List Act :=
  addRun ['a'] 0 false ++ [.request 0 .answered 0] ++ addRun ['b'] 1 true ++
    [.request 1 .answered 1, .delete ['b'], .request 2 .answered 2, .request 2 .answered 2,
      .request 2 .answered 2, .request 2 .answered 2]

theorem promoted_is_default :
    ∃ w, run (World.step · site) World.start promoteRun = some w ∧
      ∃ l d, w.docs.get l = some d ∧ d.isDefault = true := by
  obtain ⟨w, hRun, hw⟩ := exists_run_of_any (World.step · site) World.start promoteRun
    (fun w => decide (w.Idle ∧ (w.docs.get ['a']).isSome = true)) (by decide)
  obtain ⟨hIdle, hSome⟩ := of_decide_eq_true hw
  have hOk : Along (World.step · site) (World.Careful · site) World.start promoteRun := by
    decide
  obtain ⟨acct, hGet⟩ := Option.isSome_iff_exists.mp hSome
  obtain ⟨l, d, hd, hFlag, -⟩ := (one_github_default (Reach.of_run hRun hOk)).1 hIdle _ acct hGet
  exact ⟨w, hRun, l, d, hd, hFlag⟩

/-- An `update` takes the flag from the only account. -/
def unsetRun : List Act :=
  addRun ['a'] 0 true ++ [.request 0 .answered 0, .update ['a'] clearFlag, .request 1 .answered 1,
    .request 1 .answered 1]

theorem no_github_default :
    ∃ w, run (World.step · site) World.start unsetRun = some w ∧ w.Idle ∧
      (w.docs.get ['a']).isSome = true ∧ ∀ d ∈ w.docs.docs, d.2.isDefault = false := by
  obtain ⟨w, hRun, hw⟩ := exists_run_of_any (World.step · site) World.start unsetRun
    (fun w => decide (w.Idle ∧ (w.docs.get ['a']).isSome = true ∧
      ∀ d ∈ w.docs.docs, d.2.isDefault = false)) (by decide)
  exact ⟨w, hRun, of_decide_eq_true hw⟩

end OpenSpoke.Accounts.GitHub
