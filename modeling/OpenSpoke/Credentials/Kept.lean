import OpenSpoke.Credentials.Store

/-!
# What updates keep

An update keeps what it does not mention, and a stored verification is the result of a check
of the stored token, if the defaults of the provider are what is stored and nothing happens in
between.
-/

namespace OpenSpoke.Credentials

open DocIndex (Answer)
open Lts
open Python (Text strip)

/-- A put that meets this credential changes nothing that the payload does not give. -/
structure Payload.Fits (p : Payload) (k : Key) (actor now : Text) (old : Credential) : Prop where
  host : p.host = [] → hostOf k.provider = old.host
  api : p.apiBaseUrl = [] → apiOf k.provider (p.fullHost k) = old.apiBaseUrl
  name : p.accountName = [] → nameOf k.scopeId k.provider = old.accountName
  accountType : p.accountType = [] → (k.provider = .gitlab ↔ old.accountType ≠ [])
  createdAt : old.createdAt = [] → now = []
  createdBy : old.createdBy = [] → actor = []
  -- another token comes only before any check
  verification : orElse (strip p.token) old.token ≠ old.token → old.verification = []

instance (p : Payload) (k : Key) (actor now : Text) (old : Credential) :
    Decidable (p.Fits k actor now old) :=
  decidable_of_iff (_ ∧ _ ∧ _ ∧ _ ∧ _ ∧ _ ∧ _)
    ⟨fun ⟨h₁, h₂, h₃, h₄, h₅, h₆, h₇⟩ => ⟨h₁, h₂, h₃, h₄, h₅, h₆, h₇⟩,
      fun ⟨h₁, h₂, h₃, h₄, h₅, h₆, h₇⟩ => ⟨h₁, h₂, h₃, h₄, h₅, h₆, h₇⟩⟩

/-- Fields that the payload does not give are as they were. -/
structure Keeps (p : Payload) (old new : Credential) : Prop where
  token : strip p.token = [] → new.token = old.token
  host : p.host = [] → new.host = old.host
  api : p.apiBaseUrl = [] → new.apiBaseUrl = old.apiBaseUrl
  name : p.accountName = [] → new.accountName = old.accountName
  note : p.note = [] → new.note = old.note
  accountType : p.accountType = [] → new.accountType = old.accountType
  createdAt : new.createdAt = old.createdAt
  createdBy : new.createdBy = old.createdBy
  lastUsedAt : new.lastUsedAt = old.lastUsedAt
  verification : new.verification = old.verification

/-- A verification is the result of one check of the token that is stored with it. -/
def Credential.Checked (checks : List (Text × Verification)) (c : Credential) : Prop :=
  c.verification = [] ∨ (c.token, c.verification) ∈ checks

instance (checks : List (Text × Verification)) (c : Credential) : Decidable (c.Checked checks) :=
  inferInstanceAs (Decidable (_ ∨ _))

variable {p : Payload} {k : Key} {actor now : Text} {read : Option Credential} {old new : Credential}
  {checks : List (Text × Verification)}

theorem doc_eq_some (h : p.doc k actor now read = some new) :
    orElse (strip p.token) (read.getD ⟨[], [], [], [], [], [], [], [], [], [], none, []⟩).token ≠ [] := by
  unfold Payload.doc at h
  simp only at h
  split at h
  · cases h
  next hToken => exact hToken

theorem orElse_default (t : Text) {d : Text} (h : t = [] → d = []) : orElse t d = t := by
  cases t with
  | nil => exact h rfl
  | cons c t => exact orElse_of_ne d (List.cons_ne_nil c t)

theorem Payload.Fits.keeps (h : p.Fits k actor now old)
    (hDoc : p.doc k actor now (some old) = some new) : Keeps p old new := by
  unfold Payload.doc at hDoc
  simp only [Option.getD_some] at hDoc
  split at hDoc
  · cases hDoc
  · cases hDoc
    constructor
    · intro hToken
      rw [hToken, orElse_nil]
    · intro hHost
      rw [Payload.fullHost, hHost, orElse_nil, h.host hHost]
    · intro hApi
      rw [Payload.fullApi, hApi, orElse_nil, h.api hApi]
    · intro hName
      rw [Payload.fullName, hName, orElse_nil, h.name hName]
    · intro hNote
      rw [hNote, orElse_nil]
    · intro hType
      have hIff := h.accountType hType
      split
      next hGitlab =>
        rw [hType, orElse_nil]
        exact orElse_of_ne _ (hIff.mp hGitlab)
      next hOther =>
        have hNone : ¬old.accountType ≠ [] := fun hNe => hOther (hIff.mpr hNe)
        exact (not_not.mp hNone).symm
    · exact orElse_default _ h.createdAt
    · exact orElse_default _ h.createdBy
    · rfl
    · rfl

theorem Payload.Fits.checked (h : p.Fits k actor now old) (hOld : old.Checked checks)
    (hDoc : p.doc k actor now (some old) = some new) : new.Checked checks := by
  unfold Payload.doc at hDoc
  simp only [Option.getD_some] at hDoc
  split at hDoc
  · cases hDoc
  · cases hDoc
    by_cases hSame : orElse (strip p.token) old.token = old.token
    · simpa only [Credential.Checked, hSame] using hOld
    · exact .inl (h.verification hSame)

theorem checked_of_new (hDoc : p.doc k actor now none = some new) : new.Checked checks := by
  unfold Payload.doc at hDoc
  simp only [Option.getD_none] at hDoc
  split at hDoc
  · cases hDoc
  · cases hDoc
    exact .inl rfl

theorem checked_checked {result : Verification} (hResult : (old.token, result) ∈ checks)
    (hFields : ∀ f ∈ old.verification, f.1 ∈ result.map Prod.fst) :
    (old.checked result).Checked checks := by
  have hNone : old.verification.filter (fun f => f.1 ∉ result.map Prod.fst) = [] := by
    apply List.filter_eq_nil_iff.mpr
    intro f hf
    simpa using hFields f hf
  refine .inr ?_
  rw [Credential.checked, hNone, List.append_nil]
  exact hResult

/-! ## The condition -/

namespace World

variable {w t : World} {n : Nat} {a : Answer}

def CarefulAt (w : World) (a : Answer) : Pc → Prop
  | .putGet .. => a = .answered
  | .putPut k p actor now read _ => a ≠ .lost ∧ (a = .answered →
    (w.docs.get k).isSome = read.isSome ∧
      p.doc k actor now (w.docs.get k) = p.doc k actor now read ∧
      ∀ old ∈ w.docs.get k, p.Fits k actor now old)
  | .verifyPatch k token result => ∀ c ∈ w.docs.get k,
    token = c.token ∧ ∀ f ∈ c.verification, f.1 ∈ result.map Prod.fst
  | _ => True

instance : (pc : Pc) → Decidable (w.CarefulAt a pc)
  | .putGet .. => inferInstanceAs (Decidable (a = _))
  | .putPut .. => inferInstanceAs (Decidable (_ ∧ _))
  | .verifyPatch .. => inferInstanceAs (Decidable (∀ c ∈ _, _ ∧ ∀ f ∈ _, _))
  | .absent | .verifyGet _ | .verifying .. | .deleting _ | .tokenGet _ | .touching .. | .failed
  | .saved .. | .verified | .deleted | .told _ => .isTrue trivial

/-- Reads of puts are answered, a write that fails does nothing, a put meets the credential
that it has read, which has the provider's defaults where the payload gives nothing, and a
result is stored beside the token that was checked and has every field that is stored. -/
def Careful (w : World) : Act → Prop
  | .request n a _ => w.CarefulAt a (w.call n)
  | _ => True

instance : (act : Act) → Decidable (w.Careful act)
  | .request .. => inferInstanceAs (Decidable (CarefulAt ..))
  | .call .. | .check .. => .isTrue trivial

/-! ## The invariant -/

def CallOk (checks : List (Text × Verification)) : Pc → Prop
  | .putPut k p actor now read doc => p.doc k actor now read = some doc
  | .saved _ p before after created => created = before.isNone ∧
    (strip p.token = [] → before.isSome) ∧ ∀ old ∈ before, Keeps p old after
  | .verifyPatch _ token result => (token, result) ∈ checks
  | _ => True

structure Inv (w : World) : Prop where
  calls : ∀ n, CallOk w.checks (w.call n)
  checked : ∀ k c, w.docs.get k = some c → c.Checked w.checks

theorem Inv.goto (h : w.Inv) {pc : Pc} (hPc : CallOk w.checks pc) : (w.goto n pc).Inv where
  checked := h.checked
  calls m := by
    by_cases hm : m = n
    · subst hm
      simpa [World.goto] using hPc
    · simpa [World.goto, hm] using h.calls m

theorem Inv.check (h : w.Inv) (check : Text × Verification) :
    Inv { w with checks := check :: w.checks } where
  calls m := by
    have hCall := h.calls m
    cases hPc : w.call m with
    | verifyPatch k token result =>
      rw [hPc] at hCall
      exact List.mem_cons_of_mem _ hCall
    | _ =>
      rw [hPc] at hCall
      exact hCall
  checked k c hGet := (h.checked k c hGet).imp_right (List.mem_cons_of_mem _)

theorem Inv.patch (h : w.Inv) {pc : Pc} (hPc : CallOk w.checks pc) {f : Credential → Credential}
    (hf : ∀ c, w.docs.get k = some c → (f c).Checked w.checks) :
    Inv { w.goto n pc with docs := if a = .refused then w.docs else w.docs.patch k f } where
  calls := (h.goto hPc).calls
  checked i c hGet := by
    split at hGet
    · exact h.checked i c hGet
    · by_cases hi : i = k
      · subst hi
        obtain ⟨old, hOld, rfl⟩ := Option.map_eq_some_iff.mp ((DocIndex.get_patch_self ..).symm.trans hGet)
        exact hf old hOld
      · exact h.checked i c ((DocIndex.get_patch_of_ne _ _ hi).symm.trans hGet)

theorem Inv.putPut (h : w.Inv) (hPc : w.call n = .putPut k p actor now read new)
    (hOk : w.CarefulAt .answered (.putPut k p actor now read new)) :
    Inv { w.goto n (.saved k p (w.docs.get k) new read.isNone) with docs := w.docs.put k new } := by
  obtain ⟨hSome, hSame, hFits⟩ := hOk.2 rfl
  have hCall := h.calls n
  rw [hPc] at hCall
  have hDoc : p.doc k actor now (w.docs.get k) = some new := hSame.trans hCall
  have hSaved : CallOk w.checks (.saved k p (w.docs.get k) new read.isNone) := by
    refine ⟨?_, ?_, ?_⟩
    · rw [← Option.not_isSome, ← Option.not_isSome, hSome]
    · intro hToken
      cases hBefore : w.docs.get k with
      | some old => rfl
      | none =>
        rw [hBefore] at hDoc
        have hNot := doc_eq_some hDoc
        rw [hToken] at hNot
        exact absurd rfl hNot
    · intro old hOld
      rw [hOld] at hDoc
      exact (hFits old hOld).keeps hDoc
  refine ⟨(h.goto hSaved).calls, ?_⟩
  intro i c hGet
  by_cases hi : i = k
  · subst hi
    obtain rfl : new = c := Option.some.inj ((DocIndex.get_put_self ..).symm.trans hGet)
    cases hBefore : w.docs.get i with
    | none =>
      rw [hBefore] at hDoc
      exact checked_of_new hDoc
    | some old =>
      rw [hBefore] at hDoc
      exact (hFits old hBefore).checked (h.checked i old hBefore) hDoc
  · exact h.checked i c ((DocIndex.get_put_of_ne _ _ hi).symm.trans hGet)

theorem Inv.request (h : w.Inv) {now : Text} (hOk : w.CarefulAt a (w.call n))
    (hs : w.request n a now = some t) : t.Inv := by
  unfold World.request at hs
  split at hs
  next k p actor now hPc =>
    split at hs <;> cases hs
    next doc hDoc => exact h.goto hDoc
    · exact h.goto trivial
  next k p actor now read doc hPc =>
    rw [hPc] at hOk
    split at hs <;> cases hs
    · exact h.goto trivial
    next hRefused =>
      cases a with
      | refused => exact absurd rfl hRefused
      | lost => exact absurd rfl hOk.1
      | answered => exact h.putPut hPc hOk
  next k hPc =>
    split at hs <;> cases hs
    · exact h.goto trivial
    · exact h.goto trivial
  next k token result hPc =>
    rw [hPc] at hOk
    have hResult := h.calls n
    rw [hPc] at hResult
    cases hs
    refine h.patch ?_ ?_
    · trivial
    · intro c hc
      obtain ⟨rfl, hFields⟩ := hOk c hc
      exact checked_checked hResult hFields
  next k hPc =>
    cases hs
    have hEnd : CallOk w.checks (if a = .answered then Pc.deleted else .failed) := by
      split
      · trivial
      · trivial
    refine ⟨(h.goto hEnd).calls, ?_⟩
    intro i c hGet
    have hKept : w.docs.get i = some c := by
      simp only at hGet
      split at hGet
      · exact hGet
      · by_cases hi : i = k
        · subst hi
          rw [DocIndex.get_delete_self] at hGet
          cases hGet
        · exact (DocIndex.get_delete_of_ne _ hi).symm.trans hGet
    exact h.checked i c hKept
  next k hPc =>
    split at hs <;> cases hs
    next c hGet =>
      apply h.goto
      split
      · trivial
      · trivial
    · exact h.goto trivial
  next k now token hPc =>
    cases hs
    refine h.patch ?_ ?_
    · trivial
    · intro c hc
      exact h.checked k c hc
  · cases hs

theorem Inv.step (h : w.Inv) {act : Act} (hOk : w.Careful act) (hs : w.step act = some t) :
    t.Inv := by
  cases act with
  | call n l op now =>
    simp only [World.step] at hs
    split at hs <;> cases hs
    apply h.goto
    cases op with
    | orgToken k => trivial
    | _ =>
      simp only [Op.begin]
      split
      · trivial
      · trivial
  | request n a now => exact h.request hOk hs
  | check n result =>
    simp only [World.step] at hs
    split at hs <;> cases hs
    next k token hPc =>
      have hOk : CallOk ((token, result) :: w.checks) (.verifyPatch k token result) :=
        List.mem_cons_self
      exact (h.check (token, result)).goto hOk

/-- A put keeps what its payload does not give, creates only with a token and says so, and
a stored verification is the result of one check of the stored token. -/
theorem credentials_kept {w₀ : World} (hAbsent : ∀ n, w₀.call n = .absent)
    (hChecked : ∀ k c, w₀.docs.get k = some c → c.Checked w₀.checks)
    (h : Reach World.step Careful w₀ w) :
    (∀ n k p before after created, w.call n = .saved k p before after created →
      (created = true ↔ before = none) ∧ (strip p.token = [] → before.isSome = true) ∧
        ∀ old ∈ before, Keeps p old after) ∧
    ∀ k c, w.docs.get k = some c → c.Checked w.checks := by
  have hStart : w₀.Inv := by
    refine ⟨fun n => ?_, hChecked⟩
    rw [hAbsent n]
    trivial
  have hInv : w.Inv := h.invariant hStart fun _ _ _ _ hInv hOk hs => hInv.step hOk hs
  refine ⟨?_, hInv.checked⟩
  intro n k p before after created hPc
  have hCall := hInv.calls n
  rw [hPc] at hCall
  obtain ⟨rfl, hToken, hKeeps⟩ := hCall
  exact ⟨Option.isNone_iff_eq_none, hToken, hKeeps⟩

/-! ## Notes on a credential -/

def plainKey : Key := ⟨.user, .github, ['m', 'e']⟩

def me : Login := ⟨['m', 'e'], [], []⟩

def withToken : Payload := ⟨['t'], [], [], [], [], []⟩

def withNote : Payload := ⟨[], ['n'], [], [], [], []⟩

def start : World := ⟨.empty, fun _ => .absent, []⟩

/-- A credential is put and then gets a note. -/
def noteRun (first : Payload) : List Act :=
  [.call 0 me (.put plainKey first) ['1'], .request 0 .answered [], .request 0 .answered [],
    .call 1 me (.put plainKey withNote) ['2'], .request 1 .answered [], .request 1 .answered []]

def created? : Pc → Option Bool
  | .saved _ _ _ _ created => some created
  | _ => none

/-- The credential is checked in the end. -/
def checkedRun : List Act :=
  noteRun withToken ++ [.call 2 me (.verify plainKey) ['3'], .request 2 .answered [],
    .check 2 [(['o', 'k'], ['y'])], .request 2 .answered []]

theorem note_kept : ∃ w, run World.step start checkedRun = some w ∧
    created? (w.call 1) = some false ∧ ∀ c ∈ w.docs.get plainKey, c.Checked w.checks := by
  obtain ⟨w, hRun, hw⟩ := exists_run_of_any World.step start checkedRun
    (fun w => decide (created? (w.call 1) = some false)) (by decide)
  have hOk : Along World.step Careful start checkedRun := by decide
  obtain ⟨-, hAll⟩ := credentials_kept (fun _ => rfl) (fun k c h => by cases h) (Reach.of_run hRun hOk)
  exact ⟨w, hRun, of_decide_eq_true hw, fun c hc => hAll plainKey c hc⟩

def apiReset : Pc → Bool
  | .saved k p (some before) after false => decide (k = plainKey ∧ p.apiBaseUrl = [] ∧
    before.apiBaseUrl = ['x'] ∧ after.apiBaseUrl ≠ ['x'])
  | _ => false

/-- A note brings the address of the provider back. -/
theorem note_resets :
    ∃ w, run World.step start (noteRun { withToken with apiBaseUrl := ['x'] }) = some w ∧
      ∃ p before after, w.call 1 = .saved plainKey p (some before) after false ∧
        p.apiBaseUrl = [] ∧ before.apiBaseUrl = ['x'] ∧ after.apiBaseUrl ≠ ['x'] := by
  obtain ⟨w, hRun, hw⟩ := exists_run_of_any World.step start
    (noteRun { withToken with apiBaseUrl := ['x'] }) (fun w => apiReset (w.call 1)) (by decide)
  refine ⟨w, hRun, ?_⟩
  unfold apiReset at hw
  split at hw
  next k p before after hPc =>
    obtain ⟨rfl, hApi, hBefore, hAfter⟩ := of_decide_eq_true hw
    exact ⟨p, before, after, hPc, hApi, hBefore, hAfter⟩
  · cases hw

end World

end OpenSpoke.Credentials
