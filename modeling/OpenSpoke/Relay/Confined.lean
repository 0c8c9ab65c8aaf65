import OpenSpoke.Relay.Handlers

/-!
# Where the relays lead

The relays check the text of a path, and `fetch` parses it once more. The relay
of OpenSearch leads to its searches only and the one of Keycloak to its users and
roles. The relay of the kernel stays behind its prefixes unless a segment of the
path is read as two dots, and such a segment leads anywhere.
-/

namespace OpenSpoke.Relay

open Regex Web

variable {β : Type}

theorem kept_word {w : Segment} (h : w.all formKept = true) :
    ∀ c ∈ w, kept c = true ∧ isSlash c = false :=
  fun c hc => kept_of_formKept (List.all_eq_true.mp h c hc)

theorem formKept_isLower {c : Char} (h : c.isLower = true) : formKept c = true := by
  have hAlpha : (c.isUpper || c.isLower) = true := by rw [h, Bool.or_true]
  have hAlphanum : (c.isAlpha || c.isDigit) = true := Bool.or_eq_true_iff.mpr (.inl hAlpha)
  have hKept : c.isAlphanum = true := hAlphanum
  simp [formKept, hKept]

/-! ## OpenSearch -/

namespace Os

/-- A search, a count, a listing or the health of the cluster. -/
inductive Reads : List Segment → Prop
  | health : Reads ["_cluster".toList, "health".toList]
  | cat (w : Segment) (hNe : w ≠ []) (h : ∀ c ∈ w, c.isLower = true) : Reads ["_cat".toList, w]
  | all (e : Segment) (h : e = "_search".toList ∨ e = "_count".toList) : Reads [e]
  | index (i e : Segment) (hNe : i ≠ []) (hi : ∀ c ∈ i, indexChar c = true)
    (hStep : i ≠ ".".toList ∧ i ≠ "..".toList)
    (h : e = "_search".toList ∨ e = "_count".toList) : Reads [i, e]

/-- The words of a path that the pattern admits. -/
inductive Admits : List Segment → Prop
  | health : Admits ["_cluster".toList, "health".toList]
  | cat (w : Segment) (hNe : w ≠ []) (h : ∀ c ∈ w, c.isLower = true) : Admits ["_cat".toList, w]
  | index (i e : Segment) (hNe : i ≠ []) (hi : ∀ c ∈ i, indexChar c = true)
    (h : e = "_search".toList ∨ e = "_count".toList) : Admits [i, e]

theorem admits_of_allowPath {t : List Char} (h : t ∈ allowPath.language) :
    ∃ words, Admits words ∧ t = '/' :: ['/'].intercalate words := by
  obtain ⟨text, hText, rfl⟩ := mem_word_seq.mp h
  rcases hText with hText | hText | hText
  · obtain rfl := (mem_word _).mp hText
    exact ⟨_, .health, rfl⟩
  · obtain ⟨w, hw, rfl⟩ := mem_word_seq.mp hText
    obtain ⟨hNe, hLower⟩ := mem_many1.mp hw
    exact ⟨_, .cat w hNe hLower, by simp⟩
  · obtain ⟨i, hi, hind, hBehind, rfl⟩ := mem_seq.mp hText
    obtain ⟨e, he, rfl⟩ := mem_word_seq.mp hBehind
    obtain ⟨hNe, hChars⟩ := mem_many1.mp hi
    exact ⟨_, .index i e hNe hChars (he.imp (mem_word _).mp (mem_word _).mp), by simp⟩

theorem formKept_indexChar {c : Char} (h : indexChar c = true) : formKept c = true := by
  simp only [indexChar, Bool.or_eq_true, decide_eq_true_eq] at h
  rcases h with ((((h | h) | rfl) | rfl) | rfl) | rfl
  · exact formKept_isLower h
  · simp [formKept, Char.isAlphanum, h]
  all_goals rfl

theorem Admits.worded {words : List Segment} (h : Admits words) : Worded words := by
  cases h with
  | health => exact .cons (kept_word (by decide)) (.cons (kept_word (by decide)) worded_nil)
  | cat w hNe hw =>
    exact .cons (kept_word (by decide)) (.cons (fun c hc =>
      kept_of_formKept (formKept_isLower (hw c hc))) worded_nil)
  | index i e hNe hi he =>
    have hEnd : e.all formKept = true := by
      rcases he with rfl | rfl <;> decide
    exact .cons (fun c hc => kept_of_formKept (formKept_indexChar (hi c hc)))
      (.cons (kept_word hEnd) worded_nil)

theorem Admits.nonempty {words : List Segment} (h : Admits words) : words ≠ [] := by
  cases h <;> simp

/-- An index of dots is a step, and the search behind it is one of all indices. -/
theorem Admits.reads {words : List Segment} (h : Admits words) : Reads (resolve [] words) := by
  cases h with
  | health => exact .health
  | cat w hNe hw =>
    have hSteps : w.head? ≠ some '.' ∧ w.head? ≠ some '%' := by
      constructor <;>
      · intro hHead
        exact absurd (hw _ (List.mem_of_head? hHead)) (by decide)
    rw [resolve_words (List.forall_mem_cons.mpr ⟨by decide, List.forall_mem_singleton.mpr
      (no_step_of_head hSteps)⟩)]
    exact .cat w hNe hw
  | index i e hNe hi he =>
    have hEnd : isDoubleDot e = false ∧ isDot e = false := by
      rcases he with rfl | rfl <;> decide
    rw [resolve, resolve, place, if_neg (by simp [hEnd]), if_neg (by simp [hEnd]), place]
    split
    · exact .all e he
    next hDouble =>
      split
      · exact .all e he
      next hDot =>
        refine .index i e hNe hi ⟨?_, ?_⟩ he
        · rintro rfl
          exact hDot rfl
        · rintro rfl
          exact hDouble rfl

theorem osUrl_origin : IsOrigin osUrl.toList "http".toList
    "opensearch.opensearch.svc.cluster.local:9200".toList :=
  isOrigin_of (.inl rfl) (by decide) (by decide) rfl

theorem parent_path : (parse (osUrl.toList ++ "/../_search".toList)).map Url.path =
    some ["_search".toList] := by decide

/-- The relay of OpenSearch only reads, at the one address it knows. -/
theorem os_relay_reads {b : Body β} {call : FetchCall β} (h : handler b = .fetched call) :
    ∃ u, parse call.url = some u ∧ u.scheme = "http".toList ∧
      u.authority = "opensearch.opensearch.svc.cluster.local:9200".toList ∧ u.query = none ∧
      Reads u.path ∧ (b.index = some ".." → u.path = ["_search".toList]) ∧
      (call.method = "GET" ∨ call.method = "POST") := by
  rw [handler] at h
  split at h
  · cases h
  next hTest =>
    cases h
    obtain ⟨words, hAdmits, hTarget⟩ :=
      admits_of_allowPath ((test_iff _ _).mp (by simpa using hTest))
    obtain ⟨u, hParse, hScheme, hAuthority, hPath, hQuery⟩ :=
      parse_words osUrl_origin hAdmits.worded hAdmits.nonempty (.inl rfl)
    have hParsed : parse (osUrl.toList ++ b.target) = some u := by
      simpa [hTarget] using hParse
    refine ⟨u, hParsed, hScheme, hAuthority, hQuery rfl, hPath ▸ hAdmits.reads, ?_, ?_⟩
    · intro hIndex
      have hParent : b.target = "/../_search".toList := by simp [Body.target, hIndex]
      rw [hParent] at hParsed
      exact Option.some.inj ((congrArg (Option.map Url.path) hParsed).symm.trans parent_path)
    · cases b.body <;> simp

/-- The index `..` is a search of all indices. -/
theorem parent_reads : ∃ call u,
    handler (⟨some "..", none, none, none⟩ : Body Unit) = .fetched call ∧
      parse call.url = some u ∧ u.query = none ∧ u.path = ["_search".toList] := by
  obtain ⟨call, hCall⟩ : ∃ call,
      handler (⟨some "..", none, none, none⟩ : Body Unit) = .fetched call := ⟨_, rfl⟩
  obtain ⟨u, hParse, -, -, hQuery, -, hParent, -⟩ := os_relay_reads hCall
  exact ⟨call, u, hCall, hParse, hQuery, hParent rfl⟩

end Os

/-! ## Keycloak -/

namespace Keycloak

/-- Users and roles, behind the realm. -/
inductive Resource : List Segment → Prop
  | users : Resource ["users".toList]
  | count : Resource ["users".toList, "count".toList]
  | user (id : Segment) (h : ∀ c ∈ id, wordChar c = true) : Resource ["users".toList, id]
  | roleMappings (id : Segment) (h : ∀ c ∈ id, wordChar c = true) :
    Resource ["users".toList, id, "role-mappings".toList, "realm".toList]
  | resetPassword (id : Segment) (h : ∀ c ∈ id, wordChar c = true) :
    Resource ["users".toList, id, "reset-password".toList]
  | executeActionsEmail (id : Segment) (h : ∀ c ∈ id, wordChar c = true) :
    Resource ["users".toList, id, "execute-actions-email".toList]
  | roles : Resource ["roles".toList]
  | role (name : Segment) (h : ∀ c ∈ name, roleChar c = true) : Resource ["roles".toList, name]

theorem mem_optQuery {t : List Char} (h : t ∈ optQuery.language) : t = [] ∨ ∃ r, t = '?' :: r := by
  rcases h with h | h
  · obtain ⟨r, -, rfl⟩ := mem_word_seq.mp h
    exact .inr ⟨r, rfl⟩
  · exact .inl h

theorem mem_ofUser {t : List Char} {rest : String} (h : t ∈ (ofUser rest).language) :
    ∃ id, (∀ c ∈ id, wordChar c = true) ∧ t = "/users/".toList ++ (id ++ rest.toList) := by
  obtain ⟨v, hv, rfl⟩ := mem_word_seq.mp h
  obtain ⟨id, hId, e, he, rfl⟩ := mem_seq.mp hv
  exact ⟨id, (mem_many1.mp hId).2, by rw [(mem_word _).mp he]⟩

theorem resource_of_allow {t : List Char} {r : Regex Char} (hr : r ∈ allow) (h : t ∈ r.language) :
    ∃ words rest, Resource words ∧ (rest = [] ∨ ∃ r, rest = '?' :: r) ∧
      t = '/' :: (['/'].intercalate words ++ rest) := by
  simp only [allow, List.mem_cons, List.not_mem_nil, or_false] at hr
  rcases hr with rfl | rfl | rfl | rfl | rfl | rfl | rfl | rfl
  · obtain ⟨rest, hRest, rfl⟩ := mem_word_seq.mp h
    exact ⟨_, rest, .users, mem_optQuery hRest, rfl⟩
  · obtain ⟨rest, hRest, rfl⟩ := mem_word_seq.mp h
    exact ⟨_, rest, .count, mem_optQuery hRest, rfl⟩
  · obtain ⟨id, hId, rfl⟩ := mem_ofUser h
    exact ⟨_, [], .user id hId, .inl rfl, by simp⟩
  · obtain ⟨id, hId, rfl⟩ := mem_ofUser h
    exact ⟨_, [], .roleMappings id hId, .inl rfl, by simp⟩
  · obtain ⟨id, hId, rfl⟩ := mem_ofUser h
    exact ⟨_, [], .resetPassword id hId, .inl rfl, by simp⟩
  · obtain ⟨id, hId, rfl⟩ := mem_ofUser h
    exact ⟨_, [], .executeActionsEmail id hId, .inl rfl, by simp⟩
  · obtain ⟨rest, hRest, rfl⟩ := mem_word_seq.mp h
    exact ⟨_, rest, .roles, mem_optQuery hRest, rfl⟩
  · obtain ⟨name, hName, rfl⟩ := mem_word_seq.mp h
    exact ⟨_, [], .role name (mem_many1.mp hName).2, .inl rfl, by simp⟩

theorem kept_roleChar {c : Char} (h : roleChar c = true) :
    kept c = true ∧ isSlash c = false ∧ c ≠ '.' ∧ c ≠ '%' := by
  have hNot : ∀ d, roleChar d = false → c ≠ d := by
    rintro d hd rfl
    simp [hd] at h
  have hKept : kept c = true ∧ isSlash c = false := by
    simp only [roleChar, wordChar, Bool.or_eq_true, decide_eq_true_eq] at h
    rcases h with ((h | rfl) | rfl) | rfl
    · exact kept_of_formKept (by simp [formKept, h])
    all_goals decide
  exact ⟨hKept.1, hKept.2, hNot '.' rfl, hNot '%' rfl⟩

theorem word_of_roleChar {w : Segment} (h : ∀ c ∈ w, roleChar c = true) :
    (∀ c ∈ w, kept c = true ∧ isSlash c = false) ∧ isDoubleDot w = false ∧ isDot w = false := by
  refine ⟨fun c hc => ⟨(kept_roleChar (h c hc)).1, (kept_roleChar (h c hc)).2.1⟩,
    no_step_of_head ⟨fun hHead => ?_, fun hHead => ?_⟩⟩
  · exact (kept_roleChar (h _ (List.mem_of_mem_head? hHead))).2.2.1 rfl
  · exact (kept_roleChar (h _ (List.mem_of_mem_head? hHead))).2.2.2 rfl

theorem Resource.roleChars {words : List Segment} (h : Resource words) :
    ∀ w ∈ words, ∀ c ∈ w, roleChar c = true := by
  have hUser : ∀ {id : Segment}, (∀ c ∈ id, wordChar c = true) → ∀ c ∈ id, roleChar c = true :=
    fun h c hc => by simp [roleChar, h c hc]
  have hName : ∀ {w : Segment}, w.all roleChar = true → ∀ c ∈ w, roleChar c = true :=
    fun h => List.all_eq_true.mp h
  cases h with
  | users | roles => exact List.forall_mem_singleton.mpr (hName (by decide))
  | count =>
    exact List.forall_mem_cons.mpr ⟨hName (by decide),
      List.forall_mem_singleton.mpr (hName (by decide))⟩
  | user id h =>
    exact List.forall_mem_cons.mpr ⟨hName (by decide), List.forall_mem_singleton.mpr (hUser h)⟩
  | roleMappings id h =>
    exact List.forall_mem_cons.mpr ⟨hName (by decide), List.forall_mem_cons.mpr ⟨hUser h,
      List.forall_mem_cons.mpr ⟨hName (by decide),
        List.forall_mem_singleton.mpr (hName (by decide))⟩⟩⟩
  | resetPassword id h | executeActionsEmail id h =>
    exact List.forall_mem_cons.mpr ⟨hName (by decide), List.forall_mem_cons.mpr ⟨hUser h,
      List.forall_mem_singleton.mpr (hName (by decide))⟩⟩
  | role name h =>
    exact List.forall_mem_cons.mpr ⟨hName (by decide), List.forall_mem_singleton.mpr h⟩

theorem handler_fetched {upper : String → String} {cfg : RuntimeConfig} {token : String}
    {b : Body β} {call : FetchCall β} (h : handler upper cfg token b = .fetched call) :
    call.url = stripSlash cfg.keycloakUrl.toList ++
        ("/admin/realms/".toList ++ cfg.keycloakRealm.toList ++ b.trimmed) ∧
      ∃ r ∈ allow, b.trimmed ∈ r.language := by
  rw [handler] at h
  split at h
  · cases h
  · split at h
    · cases h
    next hAllowed =>
      cases h
      obtain ⟨r, hr, hTest⟩ := List.any_eq_true.mp (by simpa using hAllowed :
        (allow.any fun r => r.test b.trimmed) = true)
      exact ⟨rfl, r, hr, (test_iff r _).mp hTest⟩

/-- The relay of Keycloak leads to the users and the roles of its realm. -/
theorem keycloak_relay_confined {upper : String → String} {cfg : RuntimeConfig} {token : String}
    {b : Body β} {call : FetchCall β} {scheme authority : List Char}
    (hOrigin : IsOrigin (stripSlash cfg.keycloakUrl.toList) scheme authority)
    (hRealm : ∀ c ∈ cfg.keycloakRealm.toList, wordChar c = true)
    (h : handler upper cfg token b = .fetched call) :
    ∃ u words, parse call.url = some u ∧ u.scheme = scheme ∧ u.authority = authority ∧
      Resource words ∧
      u.path = "admin".toList :: "realms".toList :: cfg.keycloakRealm.toList :: words := by
  obtain ⟨hUrl, r, hr, hLanguage⟩ := handler_fetched h
  obtain ⟨words, rest, hResource, hRest, hTrimmed⟩ := resource_of_allow hr hLanguage
  have hChars : ∀ w ∈ "admin".toList :: "realms".toList :: cfg.keycloakRealm.toList :: words,
      ∀ c ∈ w, roleChar c = true := by
    refine List.forall_mem_cons.mpr ⟨List.all_eq_true.mp (by decide), List.forall_mem_cons.mpr
      ⟨List.all_eq_true.mp (by decide), List.forall_mem_cons.mpr ⟨fun c hc => ?_,
        hResource.roleChars⟩⟩⟩
    simp [roleChar, hRealm c hc]
  have hWords := fun w hw => word_of_roleChar (hChars w hw)
  obtain ⟨u, hParse, hScheme, hAuthority, hPath, -⟩ :=
    parse_words hOrigin (fun w hw => (hWords w hw).1) (by simp) hRest
  refine ⟨u, words, ?_, hScheme, hAuthority, hResource, ?_⟩
  · rw [hUrl, hTrimmed, ← hParse]
    cases hResource <;> simp
  · rw [hPath, resolve_words (fun w hw => (hWords w hw).2), List.nil_append]

/-- Both addresses end with a slash. -/
def sampleConfig : RuntimeConfig :=
  ⟨"http://kernel:8000/", "https://keycloak.example.com/", "rag", "secret"⟩

theorem users_listed : ∃ call u words,
    handler id sampleConfig "token" (⟨some "/users?max=200", none, none⟩ : Body Unit) =
      .fetched call ∧ parse call.url = some u ∧ Resource words ∧
      u.path = "admin".toList :: "realms".toList :: "rag".toList :: words := by
  have hOrigin : IsOrigin (stripSlash sampleConfig.keycloakUrl.toList) "https".toList
      "keycloak.example.com".toList := isOrigin_of (.inr rfl) (by decide) (by decide) rfl
  obtain ⟨call, hCall⟩ : ∃ call, handler id sampleConfig "token"
      (⟨some "/users?max=200", none, none⟩ : Body Unit) = .fetched call := ⟨_, rfl⟩
  obtain ⟨u, words, hParse, -, -, hResource, hPath⟩ :=
    keycloak_relay_confined hOrigin (List.all_eq_true.mp (by decide)) hCall
  exact ⟨call, u, words, hCall, hParse, hResource, hPath⟩

end Keycloak

/-! ## The kernel -/

namespace Kernel

theorem allow_steady : ((allow ++ allowExtra).all fun p =>
    p.toList.head? = some '/' && steady (p.toList.drop 1)) = true := by decide

theorem handler_fetched {upper : String → String} {empty : β} {cfg : RuntimeConfig}
    {headers : String → Option String} {b : Body β} {call : FetchCall β}
    (h : handler upper empty cfg headers b = .fetched call) :
    call.url = stripSlash cfg.kernelUrl.toList ++ b.target ∧
      ∃ p ∈ allow ++ allowExtra, p.toList <+: b.trimmed := by
  rw [handler] at h
  split at h
  · cases h
  · split at h
    · cases h
    next hAllowed =>
      cases h
      refine ⟨rfl, ?_⟩
      have hAny : (allow ++ allowExtra).any (fun p => p.toList.isPrefixOf b.trimmed) = true := by
        rw [List.any_append]
        cases hAllow : allow.any (fun p => p.toList.isPrefixOf b.trimmed) <;> simp_all
      obtain ⟨p, hp, hPrefix⟩ := List.any_eq_true.mp hAny
      exact ⟨p, hp, List.isPrefixOf_iff_prefix.mp hPrefix⟩

/-- Without a mark in the path, the kernel reads the pairs that the caller gave. -/
def Carries (query : List (String × String)) (received : Option (List Char)) : Prop :=
  match query with
  | [] => received = none
  | _ => received.map formPairs = some (query.map fun p => (some p.1, some p.2))

/-- The relay of the kernel goes to the kernel, carries the query unless the path has a mark of its
own, and stays behind its prefixes unless a segment of the path is read as two dots. -/
theorem kernel_relay_confined {upper : String → String} {empty : β} {cfg : RuntimeConfig}
    {headers : String → Option String} {b : Body β} {call : FetchCall β}
    {scheme authority : List Char}
    (hOrigin : IsOrigin (stripSlash cfg.kernelUrl.toList) scheme authority)
    (h : handler upper empty cfg headers b = .fetched call) :
    ∃ u, parse call.url = some u ∧ u.scheme = scheme ∧ u.authority = authority ∧
      ((∀ c ∈ b.trimmed, endsPath c = false) → Carries b.query u.query) ∧
      ((∀ s ∈ pathSegments (b.target.drop 1), isDoubleDot s = false) →
        ∃ p ∈ allow ++ allowExtra, p.toList <+: u.pathname) := by
  obtain ⟨hUrl, p, hp, rest, hRest⟩ := handler_fetched h
  obtain ⟨hHead, hSteady⟩ := Bool.and_eq_true_iff.mp (List.all_eq_true.mp allow_steady p hp)
  obtain ⟨front, hFront⟩ : ∃ front, p.toList = '/' :: front := by
    cases hList : p.toList with
    | nil => simp [hList] at hHead
    | cons c front =>
      obtain rfl : c = '/' := by simpa [hList] using hHead
      exact ⟨front, rfl⟩
  rw [hFront, List.drop_succ_cons, List.drop_zero] at hSteady
  have hTrimmed : b.trimmed = '/' :: (front ++ rest) := by rw [← hRest, hFront, List.cons_append]
  obtain ⟨tail, hTail⟩ : ∃ tail, b.target = '/' :: (front ++ tail) := by
    rw [Body.target, hTrimmed]
    split
    · exact ⟨rest, rfl⟩
    · exact ⟨rest ++ '?' :: formString b.query, by simp⟩
  rw [hTail] at hUrl
  refine ⟨_, hUrl ▸ parse_origin hOrigin _, rfl, rfl, fun hMarks => ?_, fun hSteps => ?_⟩
  · rw [hTrimmed] at hMarks
    have hMarks := (List.forall_mem_cons.mp hMarks).2
    rw [Body.target, hTrimmed] at hTail
    cases hQuery : b.query with
    | nil =>
      rw [if_pos hQuery] at hTail
      obtain ⟨-, hTail⟩ := List.cons.inj hTail
      rw [← hTail]
      exact query_none hMarks
    | cons q query =>
      rw [if_neg (by simp [hQuery]), List.cons_append] at hTail
      obtain ⟨-, hTail⟩ := List.cons.inj hTail
      obtain ⟨u, hParse, hForm, -⟩ := query_form hOrigin hMarks b.query
      rw [hTail, parse_origin hOrigin] at hParse
      rw [Option.some.inj hParse, Carries, hForm, ← hQuery, Option.map_some, formPairs_formString]
      simp
  · rw [hTail, List.drop_succ_cons, List.drop_zero] at hSteps
    obtain ⟨u, hParse, -, -, hPrefix⟩ := parse_steady hOrigin hSteady hSteps
    rw [parse_origin hOrigin] at hParse
    exact ⟨p, hp, hFront ▸ Option.some.inj hParse ▸ hPrefix⟩

theorem execute_forwarded : ∃ call u,
    handler id () Keycloak.sampleConfig (fun _ => none)
      ⟨some "/core/kubectl/execute", none, none, [("q", "a b&c")], none⟩ = .fetched call ∧
      parse call.url = some u ∧ u.authority = "kernel:8000".toList ∧
      u.query.map formPairs = some [(some "q", some "a b&c")] ∧
      ∃ p ∈ allow ++ allowExtra, p.toList <+: u.pathname := by
  have hOrigin : IsOrigin (stripSlash Keycloak.sampleConfig.kernelUrl.toList) "http".toList
      "kernel:8000".toList := isOrigin_of (.inl rfl) (by decide) (by decide) rfl
  obtain ⟨call, hCall⟩ : ∃ call, handler id () Keycloak.sampleConfig (fun _ => none)
      ⟨some "/core/kubectl/execute", none, none, [("q", "a b&c")], none⟩ = .fetched call := ⟨_, rfl⟩
  obtain ⟨u, hParse, -, hAuthority, hQuery, hPrefix⟩ := kernel_relay_confined hOrigin hCall
  refine ⟨call, u, hCall, hParse, hAuthority, hQuery fun c hc => ?_, hPrefix (by decide)⟩
  have hMarks : ("/core/kubectl/execute".toList.all fun c => !endsPath c) = true := by decide
  simpa using List.all_eq_true.mp hMarks c hc

theorem handler_of_prefix (upper : String → String) (empty : β) (cfg : RuntimeConfig)
    (headers : String → Option String) {b : Body β} {p : String} (hp : p ∈ allow)
    (h : p.toList <+: b.trimmed) :
    ∃ call : FetchCall β, handler upper empty cfg headers b = .fetched call ∧
      call.url = stripSlash cfg.kernelUrl.toList ++ b.target := by
  obtain ⟨hHead, -⟩ := Bool.and_eq_true_iff.mp
    (List.all_eq_true.mp allow_steady p (List.mem_append_left _ hp))
  have hSlash : b.trimmed.head? = some '/' := by
    obtain ⟨rest, hRest⟩ := h
    rw [← hRest, List.head?_append, of_decide_eq_true hHead, Option.some_or]
  have hAny : allow.any (fun p => p.toList.isPrefixOf b.trimmed) = true :=
    List.any_eq_true.mpr ⟨p, hp, List.isPrefixOf_iff_prefix.mpr h⟩
  rw [handler, if_neg (by simp [hSlash]), if_neg (by simp [hAny])]
  exact ⟨_, rfl, rfl⟩

theorem trim_of_kept {t : List Char} (h : t.all kept = true) : trim t = t := by
  have hSpace : ∀ c ∈ t, jsSpace c = false := by
    intro c hc
    obtain ⟨-, hPlain⟩ := Bool.and_eq_true_iff.mp (List.all_eq_true.mp h c hc)
    have hLow := (bare_of_kept h).1 c hc
    simp only [controlOrSpace, decide_eq_false_iff_not] at hLow
    simp only [pathEncoded, Bool.not_eq_true', Bool.or_eq_false_iff, decide_eq_false_iff_not]
      at hPlain
    simp only [jsSpace, Bool.or_eq_false_iff, Bool.and_eq_false_iff, decide_eq_false_iff_not,
      List.contains_eq_mem, List.mem_cons, List.not_mem_nil, or_false, not_or]
    omega
  rw [trim, List.dropWhile_eq_self_iff.mpr, List.rdropWhile_eq_self_iff.mpr]
  · intro hNe
    simp [hSpace _ (List.getLast_mem hNe)]
  · intro hPos
    simp [hSpace _ (List.getElem_mem hPos)]

/-- The relay forwards, for every path, a request that the kernel receives with this path. -/
theorem kernel_relay_escapes (upper : String → String) (empty : β) {cfg : RuntimeConfig}
    (headers : String → Option String) {scheme authority : List Char}
    (hOrigin : IsOrigin (stripSlash cfg.kernelUrl.toList) scheme authority) {words : List Segment}
    (hWords : Worded words) (hNonempty : words ≠ [])
    (hSteps : ∀ s ∈ words, isDoubleDot s = false ∧ isDot s = false) :
    ∃ (b : Body β) (call : FetchCall β) (u : Url),
      handler upper empty cfg headers b = .fetched call ∧ parse call.url = some u ∧
        u.authority = authority ∧ u.path = words := by
  obtain ⟨w, rest, rfl⟩ := List.exists_cons_of_ne_nil hNonempty
  -- two steps lead out of the prefix
  have hBack : Worded
      ("core".toList :: "kubectl".toList :: "..".toList :: "..".toList :: w :: rest) :=
    .cons (kept_word (by decide)) (.cons (kept_word (by decide)) (.cons (kept_word (by decide))
      (.cons (kept_word (by decide)) hWords)))
  obtain ⟨path, hText⟩ : ∃ path, path = '/' :: ['/'].intercalate
      ("core".toList :: "kubectl".toList :: "..".toList :: "..".toList :: w :: rest) := ⟨_, rfl⟩
  obtain ⟨u, hParse, -, hAuthority, hPath, -⟩ := parse_words hOrigin hBack (by simp) (.inl rfl)
  rw [List.append_nil, ← hText] at hParse
  have hKept : path.all kept = true := by
    rw [hText, List.all_cons, kept_intercalate hBack]
    decide
  have hTrimmed : (⟨some (String.ofList path), none, none, [], none⟩ : Body β).trimmed = path := by
    simp [Body.trimmed, trim_of_kept hKept]
  have hPrefix : "/core/kubectl/".toList <+:
      (⟨some (String.ofList path), none, none, [], none⟩ : Body β).trimmed := by
    rw [hTrimmed, hText]
    exact ⟨['/'].intercalate ("..".toList :: "..".toList :: w :: rest), rfl⟩
  obtain ⟨call, hCall, hUrl⟩ := handler_of_prefix upper empty cfg headers (by simp [allow]) hPrefix
  refine ⟨_, call, u, hCall, ?_, hAuthority, ?_⟩
  · rw [hUrl, Body.target, if_pos rfl, hTrimmed, hParse]
  · rw [hPath]
    exact resolve_words hSteps []

theorem internal_reached : ∃ (b : Body Unit) (call : FetchCall Unit) (u : Url),
    handler id () Keycloak.sampleConfig (fun _ => none) b = .fetched call ∧
      parse call.url = some u ∧ u.authority = "kernel:8000".toList ∧
      u.path = ["internal".toList] :=
  kernel_relay_escapes id () (fun _ => none)
    (isOrigin_of (.inl rfl) (by decide) (by decide) rfl) (.cons (kept_word (by decide)) worded_nil)
    (by decide) (by decide)

end Kernel

end OpenSpoke.Relay
