import OpenSpoke.Python.Int

/-!
# Names of the RAG stores

The collections and the tenant label of a user, as the kernel makes them from the
user id. What `str.isalnum` says beyond ASCII is the parameter `wide`.
-/

namespace OpenSpoke.Rag

open Python (Text)

def organizationId : Text :=
  ['I', 'n', 't', 'e', 'l', 'l', 'i', 'g', 'e', 'n', 't', 'S', 'o', 'f', 't', 'w', 'a', 'r', 'e']

def knowledgeCollectionPrefix : Text :=
  ['s', 'e', 'c', 'r', 'e', 't', 'a', 'r', 'y', '_', 'k', 'n', 'o', 'w', 'l', 'e', 'd', 'g', 'e',
    '_']

section Names

variable (wide : Char → Bool)

def isalnum (c : Char) : Bool := if c.toNat < 128 then c.isAlphanum else wide c

def safeUserId (userId : Text) : Text := userId.map fun c => if isalnum wide c then c else '_'

def getTenantLabel (userId : Text) : Text := organizationId ++ '_' :: safeUserId wide userId

def getCollectionName (userId : Text) : Text := organizationId ++ '_' :: safeUserId wide userId

def getCodeCollectionName (userId : Text) : Text :=
  organizationId ++ ['_', 'c', 'o', 'd', 'e', '_'] ++ safeUserId wide userId

inductive UserIdError
  | required
  | tooLong (length : Nat)
  | invalidCharacter (c : Char)
  deriving DecidableEq

def knowledgeValidateUserId (userId : Text) : Option UserIdError :=
  if userId = [] then some .required
  else if 256 < userId.length then some (.tooLong userId.length)
  else
    (userId.find? fun c => !(decide (c.toNat < 128) &&
      (isalnum wide c || ['_', '.', '-'].contains c))).map .invalidCharacter

def knowledgeResolveCollection (userId : Text) : Text :=
  let ns := Python.strip userId
  if ns = [] then []
  else if knowledgeCollectionPrefix.isPrefixOf ns then ns
  else knowledgeCollectionPrefix ++ safeUserId wide ns

/-- The families of collections. -/
inductive Family
  | documents
  | code
  | knowledge
  deriving DecidableEq

/-- The collection that calls for a user go to, none if they are refused. -/
def collectionOf (f : Family) (userId : Text) : Option Text :=
  match f with
  | .documents => some (getCollectionName wide userId)
  | .code => some (getCodeCollectionName wide userId)
  | .knowledge =>
    if knowledgeValidateUserId wide userId = none then
      some (knowledgeResolveCollection wide userId)
    else none

/-! ## When names are apart -/

/-- The names of two users, over all families, and their labels. -/
structure Apart (u v : Text) : Prop where
  collections : ∀ x ∈ [u, v], ∀ y ∈ [u, v], ∀ f g n, collectionOf wide f x = some n →
    collectionOf wide g y = some n → x = y ∧ f = g
  labels : getTenantLabel wide u ≠ getTenantLabel wide v

/-- No id is the other once characters are replaced, or up to a prefix that one of the
families adds. -/
structure Separable (u v : Text) : Prop where
  safe : safeUserId wide u ≠ safeUserId wide v
  code : safeUserId wide u ≠ ['c', 'o', 'd', 'e', '_'] ++ safeUserId wide v ∧
    safeUserId wide v ≠ ['c', 'o', 'd', 'e', '_'] ++ safeUserId wide u
  knowledge : knowledgeValidateUserId wide u = none → knowledgeValidateUserId wide v = none →
    (u = knowledgeCollectionPrefix ++ safeUserId wide v →
      knowledgeCollectionPrefix.isPrefixOf v = true) ∧
    (v = knowledgeCollectionPrefix ++ safeUserId wide u →
      knowledgeCollectionPrefix.isPrefixOf u = true)

end Names

variable {wide : Char → Bool} {u v : Text}

theorem isAlphanum_not_space {c : Char} (h : c.isAlphanum = true) : Python.isSpace c = false := by
  have hRange : (48 ≤ c.toNat ∧ c.toNat ≤ 57) ∨ (65 ≤ c.toNat ∧ c.toNat ≤ 90) ∨
      (97 ≤ c.toNat ∧ c.toNat ≤ 122) := by
    change ((decide (c.val ≥ 65 ∧ c.val ≤ 90) ||
      decide (c.val ≥ 97) && decide (c.val ≤ 122)) ||
      decide (c.val ≥ 48) && decide (c.val ≤ 57)) = true at h
    simp only [Bool.or_eq_true, Bool.and_eq_true, decide_eq_true_eq, ge_iff_le,
      UInt32.le_iff_toNat_le] at h
    rcases h with (⟨h1, h2⟩ | ⟨h1, h2⟩) | ⟨h1, h2⟩
    · exact .inr (.inl ⟨h1, h2⟩)
    · exact .inr (.inr ⟨h1, h2⟩)
    · exact .inl ⟨h1, h2⟩
  simp only [Python.isSpace, Bool.or_eq_false_iff, Bool.and_eq_false_iff, decide_eq_false_iff_not]
  omega

theorem strip_valid (h : knowledgeValidateUserId wide u = none) : Python.strip u = u ∧ u ≠ [] := by
  simp only [knowledgeValidateUserId] at h
  split at h
  · cases h
  next hNil =>
    split at h
    · cases h
    · refine ⟨Python.stripIf_of_not fun c hc => ?_, hNil⟩
      have hOk := List.find?_eq_none.mp (Option.map_eq_none_iff.mp h) c hc
      simp only [Bool.not_eq_true', Bool.not_eq_false, Bool.and_eq_true, decide_eq_true_eq,
        Bool.or_eq_true] at hOk
      obtain ⟨hAscii, hAlnum | hMark⟩ := hOk
      · rw [isalnum, if_pos hAscii] at hAlnum
        exact isAlphanum_not_space hAlnum
      · have hMarks : c = '_' ∨ c = '.' ∨ c = '-' := by simpa using hMark
        rcases hMarks with rfl | rfl | rfl <;> rfl

theorem resolve_valid (h : knowledgeValidateUserId wide u = none) :
    knowledgeResolveCollection wide u = if knowledgeCollectionPrefix.isPrefixOf u = true then u
      else knowledgeCollectionPrefix ++ safeUserId wide u := by
  obtain ⟨hStrip, hNil⟩ := strip_valid h
  rw [knowledgeResolveCollection]
  simp only [hStrip, if_neg hNil]

/-! ## Collisions -/

theorem getTenantLabel_inj :
    getTenantLabel wide u = getTenantLabel wide v ↔ safeUserId wide u = safeUserId wide v := by
  simp [getTenantLabel]

theorem getCollectionName_eq_code : getCollectionName wide u = getCodeCollectionName wide v ↔
    safeUserId wide u = ['c', 'o', 'd', 'e', '_'] ++ safeUserId wide v := by
  simp [getCollectionName, getCodeCollectionName]

theorem getCodeCollectionName_inj :
    getCodeCollectionName wide u = getCodeCollectionName wide v ↔
      safeUserId wide u = safeUserId wide v := by
  simp [getCodeCollectionName]

theorem isPrefixOf_prefix_append (t : Text) :
    knowledgeCollectionPrefix.isPrefixOf (knowledgeCollectionPrefix ++ t) = true :=
  List.isPrefixOf_iff_prefix.mpr (List.prefix_append _ _)

theorem resolve_ne (h : knowledgeValidateUserId wide u = none) (t : Text) :
    knowledgeResolveCollection wide u ≠ organizationId ++ t := by
  have hPrefix : knowledgeCollectionPrefix.isPrefixOf (knowledgeResolveCollection wide u) = true := by
    rw [resolve_valid h]
    split
    · assumption
    · exact isPrefixOf_prefix_append _
  intro hEq
  rw [hEq] at hPrefix
  simp [knowledgeCollectionPrefix, organizationId] at hPrefix

theorem collectionOf_knowledge {n : Text} (h : collectionOf wide .knowledge u = some n) :
    knowledgeValidateUserId wide u = none ∧ n = knowledgeResolveCollection wide u := by
  simpa [collectionOf, eq_comm] using h

theorem collection_ne_of_family_ne {f g : Family} {n m : Text} (hne : f ≠ g)
    (hCode : safeUserId wide u ≠ ['c', 'o', 'd', 'e', '_'] ++ safeUserId wide v)
    (hCode' : safeUserId wide v ≠ ['c', 'o', 'd', 'e', '_'] ++ safeUserId wide u)
    (hn : collectionOf wide f u = some n) (hm : collectionOf wide g v = some m) : n ≠ m := by
  rintro rfl
  cases f with
  | documents =>
    obtain rfl := Option.some.inj hn
    cases g with
    | documents => exact hne rfl
    | code => exact hCode (getCollectionName_eq_code.mp (Option.some.inj hm).symm)
    | knowledge =>
      obtain ⟨hValid, hEq⟩ := collectionOf_knowledge hm
      exact resolve_ne hValid _ hEq.symm
  | code =>
    obtain rfl := Option.some.inj hn
    cases g with
    | documents => exact hCode' (getCollectionName_eq_code.mp (Option.some.inj hm))
    | code => exact hne rfl
    | knowledge =>
      obtain ⟨hValid, hEq⟩ := collectionOf_knowledge hm
      exact resolve_ne hValid (['_', 'c', 'o', 'd', 'e', '_'] ++ safeUserId wide u)
        (hEq.symm.trans (List.append_assoc _ _ _))
  | knowledge =>
    obtain ⟨hValid, rfl⟩ := collectionOf_knowledge hn
    cases g with
    | documents => exact resolve_ne hValid _ (Option.some.inj hm).symm
    | code =>
      exact resolve_ne hValid (['_', 'c', 'o', 'd', 'e', '_'] ++ safeUserId wide v)
        ((Option.some.inj hm).symm.trans (List.append_assoc _ _ _))
    | knowledge => exact hne rfl

theorem Separable.collection_ne (h : Separable wide u v) {f : Family} {n m : Text}
    (hn : collectionOf wide f u = some n) (hm : collectionOf wide f v = some m) : n ≠ m := by
  rintro rfl
  cases f with
  | documents =>
    exact h.safe (getTenantLabel_inj.mp ((Option.some.inj hn).trans (Option.some.inj hm).symm))
  | code =>
    exact h.safe
      (getCodeCollectionName_inj.mp ((Option.some.inj hn).trans (Option.some.inj hm).symm))
  | knowledge =>
    obtain ⟨hu, rfl⟩ := collectionOf_knowledge hn
    obtain ⟨hv, hEq⟩ := collectionOf_knowledge hm
    obtain ⟨hLeft, hRight⟩ := h.knowledge hu hv
    rw [resolve_valid hu, resolve_valid hv] at hEq
    by_cases hpu : knowledgeCollectionPrefix.isPrefixOf u = true <;>
      by_cases hpv : knowledgeCollectionPrefix.isPrefixOf v = true
    · rw [if_pos hpu, if_pos hpv] at hEq
      exact h.safe (congrArg _ hEq)
    · rw [if_pos hpu, if_neg hpv] at hEq
      exact hpv (hLeft hEq)
    · rw [if_neg hpu, if_pos hpv] at hEq
      exact hpu (hRight hEq.symm)
    · rw [if_neg hpu, if_neg hpv] at hEq
      exact h.safe (List.append_cancel_left hEq)

theorem Separable.symm (h : Separable wide u v) : Separable wide v u :=
  ⟨h.safe.symm, h.code.symm, fun hv hu => (h.knowledge hu hv).symm⟩

theorem safeUserId_ne_longer (t : Text) (ht : t ≠ []) :
    safeUserId wide u ≠ t ++ safeUserId wide u := by
  intro hEq
  have hLength := congrArg List.length hEq
  rw [List.length_append] at hLength
  exact ht (List.length_eq_zero_iff.mp (by omega))

theorem Separable.apart (h : Separable wide u v) : Apart wide u v := by
  refine ⟨fun x hx y hy f g n hn hm => ?_, fun hLabel => h.safe (getTenantLabel_inj.mp hLabel)⟩
  have hSelf : ∀ w, safeUserId wide w ≠ ['c', 'o', 'd', 'e', '_'] ++ safeUserId wide w :=
    fun w => safeUserId_ne_longer _ (List.cons_ne_nil _ _)
  have hFamily : f = g := by
    by_contra hne
    simp only [List.mem_cons, List.not_mem_nil, or_false] at hx hy
    rcases hx with rfl | rfl <;> rcases hy with rfl | rfl
    · exact collection_ne_of_family_ne hne (hSelf _) (hSelf _) hn hm rfl
    · exact collection_ne_of_family_ne hne h.code.1 h.code.2 hn hm rfl
    · exact collection_ne_of_family_ne hne h.code.2 h.code.1 hn hm rfl
    · exact collection_ne_of_family_ne hne (hSelf _) (hSelf _) hn hm rfl
  subst hFamily
  simp only [List.mem_cons, List.not_mem_nil, or_false] at hx hy
  rcases hx with rfl | rfl <;> rcases hy with rfl | rfl
  · exact ⟨rfl, rfl⟩
  · exact absurd rfl (h.collection_ne hn hm)
  · exact absurd rfl (h.symm.collection_ne hn hm)
  · exact ⟨rfl, rfl⟩

theorem Apart.prefixed (h : Apart wide u v) (hu : knowledgeValidateUserId wide u = none)
    (hv : knowledgeValidateUserId wide v = none)
    (hEq : u = knowledgeCollectionPrefix ++ safeUserId wide v) :
    knowledgeCollectionPrefix.isPrefixOf v = true := by
  by_contra hpv
  have hpu : knowledgeCollectionPrefix.isPrefixOf u = true := by
    rw [hEq]
    exact isPrefixOf_prefix_append _
  have hSame : knowledgeResolveCollection wide v = u := by
    rw [resolve_valid hv, if_neg hpv, ← hEq]
  have hOwn : knowledgeResolveCollection wide u = u := by rw [resolve_valid hu, if_pos hpu]
  have hBoth := (h.collections u (by simp) v (by simp) .knowledge .knowledge u
    (by simp [collectionOf, hu, hOwn]) (by simp [collectionOf, hv, hSame])).1
  exact hpv (hBoth ▸ hpu)

theorem Apart.symm (h : Apart wide u v) : Apart wide v u :=
  ⟨fun x hx y hy => h.collections x (by simpa [or_comm] using hx) y (by simpa [or_comm] using hy),
    h.labels.symm⟩

theorem apart_iff_separable : Apart wide u v ↔ Separable wide u v := by
  refine ⟨fun h => ⟨fun hSafe => h.labels (getTenantLabel_inj.mpr hSafe), ⟨?_, ?_⟩,
    fun hu hv => ⟨h.prefixed hu hv, h.symm.prefixed hv hu⟩⟩, Separable.apart⟩
  · intro hCode
    have hName := getCollectionName_eq_code.mpr hCode
    have hBoth := h.collections u (by simp) v (by simp) .documents .code _ rfl
      (congrArg some hName.symm)
    cases hBoth.2
  · intro hCode
    have hName := getCollectionName_eq_code.mpr hCode
    have hBoth := h.collections v (by simp) u (by simp) .documents .code _ rfl
      (congrArg some hName.symm)
    cases hBoth.2

end OpenSpoke.Rag
