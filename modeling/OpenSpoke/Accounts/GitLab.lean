import OpenSpoke.Accounts.OneDefault

/-!
# GitLab accounts

`gitlab_account`: one default for each host, and tokens for the host that is asked for.
-/

namespace OpenSpoke.Accounts.GitLab

open DocIndex (Answer)
open Lts
open Python (Text)

def idChar (c : Char) : Bool := c.isAlphanum || c ∈ ['_', '.', '-']

/-- `_validate_account_id`. -/
def validAccountId (k : Text) : Bool := k ≠ [] && k.length ≤ 64 && k.all idChar

/-- `_validate_gitlab_host`. -/
def validGitlabHost (host : Text) : Bool :=
  host ≠ [] && host.length ≤ 253 && host.all (fun c => c.isAlphanum || c ∈ ['-', '.']) &&
    host.head?.any Char.isAlphanum && host.getLast?.any Char.isAlphanum

/-- The fields of `update_gitlab_account`. -/
def edit (c : Change) (a : Account) : Option Edit :=
  let host := c.host.getD a.host
  let token := c.token.getD a.token
  if (c.host.all validGitlabHost && c.token.all (· ≠ [])) = true then
    some
      { account := { a with
          label := (c.label.filter (· ≠ [])).getD a.label
          host := host
          token := token
          isDefault := c.isDefault.getD a.isDefault }
        verify := host ≠ a.host || token ≠ a.token
        made := c.isDefault = some true && !a.isDefault }
  else none

theorem edit_eq_some {c : Change} {a : Account} {e : Edit} (h : edit c a = some e) :
    (c.host.all validGitlabHost = true ∧ c.token.all (· ≠ []) = true) ∧
      e.account.host = c.host.getD a.host ∧ e.account.token = c.token.getD a.token ∧
      e.account.isDefault = c.isDefault.getD a.isDefault ∧
      e.verify = (decide (c.host.getD a.host ≠ a.host) || decide (c.token.getD a.token ≠ a.token)) ∧
      e.made = (decide (c.isDefault = some true) && !a.isDefault) := by
  unfold edit at h
  simp only at h
  split at h
  next hValid =>
    cases h
    exact ⟨Bool.and_eq_true _ _ ▸ hValid, rfl, rfl, rfl, rfl, rfl⟩
  · cases h

def site : Site where
  validId := validAccountId
  validHost := validGitlabHost
  before a b := b.updatedAt ≤ a.updatedAt
  unset _ a := { a with isDefault := false }
  edit := edit
  goneIsDeleted := true
  unset_host _ _ := rfl
  unset_token _ _ := rfl
  unset_default _ _ := rfl
  edit_made c a e hEdit hMade := by
    obtain ⟨-, -, -, hFlag, -, hIff⟩ := edit_eq_some hEdit
    rw [hIff, Bool.and_eq_true, decide_eq_true_iff] at hMade
    rw [hFlag, hMade.1]
    rfl
  edit_same c a e hEdit hVerify := by
    obtain ⟨-, hHost, hToken, -, hIff, -⟩ := edit_eq_some hEdit
    rw [hIff, Bool.or_eq_true, decide_eq_true_iff, decide_eq_true_iff, not_or, not_not, not_not]
      at hVerify
    exact ⟨hHost.trans hVerify.1, hToken.trans hVerify.2⟩
  edit_valid c a e hEdit hValid hNe := by
    obtain ⟨⟨hGiven, hSome⟩, hHost, hToken, -⟩ := edit_eq_some hEdit
    rw [hHost, hToken]
    constructor
    · cases hc : c.host with
      | none => exact hValid
      | some host =>
        rw [hc] at hGiven
        exact hGiven
    · cases hc : c.token with
      | none => exact hNe
      | some token =>
        rw [hc] at hSome
        exact of_decide_eq_true hSome

/-! ## Resolving a token -/

/-- `_os_find_default`: an empty host counts as none. -/
def findDefault (docs : Docs) (a : Answer) (host : Text) : Option (Text × Account) :=
  if a = .answered then
    ((docs.docs.filter fun d => d.2.isDefault && (host = [] || d.2.host = host)).insertionSort
      fun d e => e.2.updatedAt ≤ d.2.updatedAt).head?
  else none

/-- What `resolve_gitlab_token` returns. -/
structure Resolved where
  token : Text
  host : Text
  baseUrl : Text
  deriving DecidableEq

def resolved (token host : Text) : Resolved :=
  ⟨token, host, "https://".toList ++ host ++ "/api/v4".toList⟩

/-- `GITLAB_TOKEN` and `GITLAB_HOST`. -/
structure Env where
  token : Text
  host : Text
  deriving DecidableEq

/-- `resolve_gitlab_token` for a user: the host that is asked for, the answer of OpenSearch,
what the vault has for the owner on that host, if there is one, and the environment. -/
def resolveGitlabToken (docs : Docs) (a : Answer) (host : Text) (org : Option Text) (env : Env) :
    Option Resolved :=
  match (findDefault docs a host).filter fun d => d.2.token ≠ [] && d.2.host ≠ [] with
  | some d => some (resolved d.2.token d.2.host)
  | none =>
    match if host = [] then none else org.filter (· ≠ []) with
    | some token => some (resolved token host)
    | none => if env.token ≠ [] ∧ env.host ≠ [] then some (resolved env.token env.host) else none

/-- There is a token for the host before the environment is asked. -/
def Found (docs : Docs) (a : Answer) (host : Text) (org : Option Text) : Prop :=
  (∃ d ∈ docs.docs, a = .answered ∧ d.2.isDefault = true ∧ d.2.host = host ∧ d.2.token ≠ []) ∨
    ∃ token, org = some token ∧ token ≠ []

theorem findDefault_some {docs : Docs} {a : Answer} {host : Text} {d : Text × Account}
    (h : findDefault docs a host = some d) :
    a = .answered ∧ docs.get d.1 = some d.2 ∧ d.2.isDefault = true ∧ (host ≠ [] → d.2.host = host) := by
  rw [findDefault] at h
  split at h
  next ha =>
    have hMem := List.mem_of_head? h
    rw [List.mem_insertionSort, List.mem_filter, Bool.and_eq_true, Bool.or_eq_true,
      decide_eq_true_iff, decide_eq_true_iff] at hMem
    exact ⟨ha, DocIndex.mem_docs_iff.mp hMem.1, hMem.2.1, fun hNe => hMem.2.2.resolve_left hNe⟩
  · cases h

theorem findDefault_ne_none {docs : Docs} {host : Text} {k : Text} {acct : Account}
    (hGet : docs.get k = some acct) (hFlag : acct.isDefault = true) (hHost : acct.host = host) :
    findDefault docs .answered host ≠ none := by
  intro hNone
  have hMem : (k, acct) ∈ docs.docs.filter fun d => d.2.isDefault && (host = [] || d.2.host = host) := by
    refine List.mem_filter.mpr ⟨DocIndex.mem_docs_iff.mpr hGet, ?_⟩
    rw [Bool.and_eq_true, Bool.or_eq_true, decide_eq_true_iff, decide_eq_true_iff]
    exact ⟨hFlag, .inr hHost⟩
  rw [findDefault, if_pos rfl, List.head?_eq_none_iff] at hNone
  rw [← List.mem_insertionSort fun d e : Text × Account => e.2.updatedAt ≤ d.2.updatedAt, hNone] at hMem
  cases hMem

variable {w : World} {a : Answer} {host : Text} {org : Option Text} {env : Env}

theorem resolve_eq (hStored : ∀ k acct, w.docs.get k = some acct →
      World.Kept site w.vetted acct) :
    (∃ k acct, a = .answered ∧ w.docs.get k = some acct ∧ acct.isDefault = true ∧
      (host ≠ [] → acct.host = host) ∧
      resolveGitlabToken w.docs a host org env = some (resolved acct.token acct.host)) ∨
    (findDefault w.docs a host = none ∧
      resolveGitlabToken w.docs a host org env =
        match if host = [] then none else org.filter (· ≠ []) with
        | some token => some (resolved token host)
        | none =>
          if env.token ≠ [] ∧ env.host ≠ [] then some (resolved env.token env.host) else none) := by
  cases hFind : findDefault w.docs a host with
  | none =>
    right
    refine ⟨rfl, ?_⟩
    rw [resolveGitlabToken, hFind]
    rfl
  | some d =>
    left
    obtain ⟨ha, hGet, hFlag, hHost⟩ := findDefault_some hFind
    obtain ⟨hValid, hToken, -⟩ := hStored d.1 d.2 hGet
    have hNe : d.2.host ≠ [] := by
      intro hNil
      rw [hNil] at hValid
      cases hValid
    refine ⟨d.1, d.2, ha, hGet, hFlag, hHost, ?_⟩
    rw [resolveGitlabToken, hFind, Option.filter_some, if_pos]
    rw [Bool.and_eq_true, decide_eq_true_iff, decide_eq_true_iff]
    exact ⟨hToken, hNe⟩

theorem resolve_host (hStored : ∀ k acct, w.docs.get k = some acct →
      World.Kept site w.vetted acct) (hHost : host ≠ []) :
    (∀ r, resolveGitlabToken w.docs a host org env = some r → r.host = host) ↔
      Found w.docs a host org ∨ env.token = [] ∨ env.host = [] ∨ env.host = host := by
  rcases resolve_eq hStored with ⟨k, acct, ha, hGet, hFlag, hSame, hRes⟩ | ⟨hNone, hRes⟩
  · constructor
    · intro _
      exact .inl (.inl ⟨(k, acct), DocIndex.mem_docs_iff.mpr hGet, ha, hFlag, hSame hHost,
        (hStored k acct hGet).token⟩)
    · intro _ r hr
      rw [hRes, Option.some_inj] at hr
      exact hr ▸ hSame hHost
  · rw [if_neg hHost] at hRes
    cases hOrg : org.filter (· ≠ []) with
    | some token =>
      obtain ⟨hSome, hNe⟩ := Option.filter_eq_some_iff.mp hOrg
      rw [hOrg] at hRes
      constructor
      · intro _
        exact .inl (.inr ⟨token, hSome, of_decide_eq_true hNe⟩)
      · intro _ r hr
        rw [hRes, Option.some_inj] at hr
        exact hr ▸ rfl
    | none =>
      rw [hOrg] at hRes
      simp only at hRes
      constructor
      · intro hAll
        by_cases hEnv : env.token ≠ [] ∧ env.host ≠ []
        · rw [if_pos hEnv] at hRes
          exact .inr (.inr (.inr (hAll _ hRes)))
        · rcases Classical.not_and_iff_not_or_not.mp hEnv with hToken | hNil
          · exact .inr (.inl (not_not.mp hToken))
          · exact .inr (.inr (.inl (not_not.mp hNil)))
      · rintro hCases r hr
        rw [hRes] at hr
        split at hr
        next hEnv =>
          rw [Option.some_inj] at hr
          rcases hCases with
            (⟨d, hd, rfl, hFlag, hOn, hToken⟩ | ⟨token, rfl, hNe⟩) | hNil | hNil | hSame
          · exact absurd hNone (findDefault_ne_none (DocIndex.mem_docs_iff.mp hd) hFlag hOn)
          · rw [Option.filter_some, if_pos (decide_eq_true hNe)] at hOrg
            cases hOrg
          · exact absurd hNil hEnv.1
          · exact absurd hNil hEnv.2
          · exact hr ▸ hSame
        · cases hr

/-- Whenever no call is in progress, each host with accounts has one default, whose token is
resolved for it; a token goes to the host that has accepted it or that it is stored for; and
the host that is asked for is left only for the environment's. -/
theorem one_gitlab_default
    (h : Reach (World.step · site) (World.Careful · site) World.start w) :
    (w.Idle → ∀ k acct, w.docs.get k = some acct →
      ∃ l d, w.docs.get l = some d ∧ d.host = acct.host ∧ d.isDefault = true ∧
        (∀ m b, w.docs.get m = some b → b.host = acct.host → b.isDefault = true → m = l) ∧
        ∀ org env, resolveGitlabToken w.docs .answered acct.host org env =
          some (resolved d.token acct.host)) ∧
    (∀ a host org env r, resolveGitlabToken w.docs a host org env = some r →
      r = resolved r.token r.host ∧ ((r.host, r.token) ∈ w.vetted ∨
        (r.host = host ∧ org = some r.token) ∨ (r.host = env.host ∧ r.token = env.token))) ∧
    ∀ a host org env, host ≠ [] →
      ((∀ r, resolveGitlabToken w.docs a host org env = some r → r.host = host) ↔
        Found w.docs a host org ∨ env.token = [] ∨ env.host = [] ∨ env.host = host) := by
  have hStored := (World.inv_reach h).stored
  refine ⟨?_, ?_, ?_⟩
  · intro hIdle k acct hGet
    obtain ⟨l, d, hd, hHost, hFlag, hUnique⟩ := World.default_of_idle h hIdle hGet
    refine ⟨l, d, hd, hHost, hFlag, hUnique, ?_⟩
    intro org env
    have hNe : acct.host ≠ [] := by
      intro hNil
      have hValid := (hStored k acct hGet).host
      rw [hNil] at hValid
      cases hValid
    rcases @resolve_eq w .answered acct.host org env hStored with
      ⟨m, b, -, hb, hDefault, hSame, hRes⟩ | ⟨hNone, -⟩
    · obtain rfl : m = l := hUnique m b hb (hSame hNe) hDefault
      rw [hd, Option.some_inj] at hb
      rw [hRes, ← hb, hHost]
    · exact absurd hNone (findDefault_ne_none hd hFlag hHost)
  · intro a host org env r hr
    rcases resolve_eq hStored with ⟨k, acct, -, hGet, -, -, hRes⟩ | ⟨-, hRes⟩
    · rw [hRes, Option.some_inj] at hr
      subst hr
      exact ⟨rfl, .inl (hStored k acct hGet).vetted⟩
    · rw [hRes] at hr
      split at hr
      next token hOrg =>
        split at hOrg
        · cases hOrg
        · rw [Option.some_inj] at hr
          subst hr
          exact ⟨rfl, .inr (.inl ⟨rfl, (Option.filter_eq_some_iff.mp hOrg).1⟩)⟩
      · split at hr
        · rw [Option.some_inj] at hr
          subst hr
          exact ⟨rfl, .inr (.inr ⟨rfl, rfl⟩)⟩
        · cases hr
  · intro a host org env hHost
    exact resolve_host hStored hHost

/-! ## Two hosts -/

def addRun (k host : Text) (n : Nat) (isDefault : Bool) : List Act :=
  [.add k ⟨[], host, ['t'], isDefault⟩, .request n .answered n, .verify n (some ⟨[], n, []⟩) n,
    .request n .answered n, .request n .answered n]

/-- Each account is the default of its host. -/
def bothRun : List Act :=
  addRun ['a'] ['x'] 0 false ++ [.request 0 .answered 0] ++ addRun ['b'] ['y'] 1 true ++
    [.request 1 .answered 1]

theorem both_are_defaults :
    ∃ w, run (World.step · site) World.start bothRun = some w ∧
      ∃ l d, w.docs.get l = some d ∧ d.host = ['y'] ∧ d.isDefault = true := by
  obtain ⟨w, hRun, hw⟩ := exists_run_of_any (World.step · site) World.start bothRun
    (fun w => decide (w.Idle) && (w.docs.get ['b']).any fun acct => acct.host = ['y'])
    (by decide)
  have hOk : Along (World.step · site) (World.Careful · site) World.start bothRun := by
    decide
  obtain ⟨hIdle, hAny⟩ := Bool.and_eq_true _ _ ▸ hw
  obtain ⟨acct, hGet, hHost⟩ := (Option.any_eq_true _ _).mp hAny
  obtain ⟨l, d, hd, hOn, hFlag, -⟩ :=
    (one_gitlab_default (Reach.of_run hRun hOk)).1 (of_decide_eq_true hIdle) _ acct hGet
  exact ⟨w, hRun, l, d, hd, hOn.trans (of_decide_eq_true hHost), hFlag⟩

/-- The first account on a second host does not become its default. -/
def secondRun : List Act := addRun ['a'] ['x'] 0 false ++ [.request 0 .answered 0] ++
  addRun ['b'] ['y'] 1 false

theorem no_gitlab_default :
    ∃ w, run (World.step · site) World.start secondRun = some w ∧ w.Idle ∧
      (∃ acct, w.docs.get ['b'] = some acct ∧ acct.host = ['y']) ∧
      (∀ d ∈ w.docs.docs, d.2.host = ['y'] → d.2.isDefault = false) ∧
      resolveGitlabToken w.docs .answered ['y'] none ⟨['s'], ['z']⟩ = some (resolved ['s'] ['z']) := by
  obtain ⟨w, hRun, hw⟩ := exists_run_of_any (World.step · site) World.start secondRun
    (fun w => ((w.docs.get ['b']).any fun acct => acct.host = ['y']) && decide (w.Idle ∧
      (∀ d ∈ w.docs.docs, d.2.host = ['y'] → d.2.isDefault = false) ∧
      resolveGitlabToken w.docs .answered ['y'] none ⟨['s'], ['z']⟩ = some (resolved ['s'] ['z'])))
    (by decide)
  obtain ⟨hAny, hRest⟩ := Bool.and_eq_true _ _ ▸ hw
  obtain ⟨acct, hGet, hHost⟩ := (Option.any_eq_true _ _).mp hAny
  obtain ⟨hIdle, hNone, hRes⟩ := of_decide_eq_true hRest
  exact ⟨w, hRun, hIdle, ⟨acct, hGet, of_decide_eq_true hHost⟩, hNone, hRes⟩

end OpenSpoke.Accounts.GitLab
