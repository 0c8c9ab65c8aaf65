import OpenSpoke.Kubeconfig.Server

/-!
# Server lines only

The substitution against the rewriting of single lines. They differ where a
server has no value on its line, as the blanks of the pattern go on to the next
line, and where the override is more than text to the template.
-/

namespace OpenSpoke.Kubeconfig

open Python (Text isSpace)

/-- The lines with a server are rewritten, and once is enough. -/
structure Rewritten (groupIndex : Text → Option Nat) (t override : Text) : Prop where
  once : rewriteServerUrl groupIndex t override = some (rewriteLines override t)
  again : rewriteServerUrl groupIndex (rewriteLines override t) override =
    some (rewriteLines override t)

/-- The override means itself behind `\1`, and stays the value of its line. -/
structure Plain (override : Text) : Prop where
  verbatim : Python.verbatim override = true
  noDigit : override.head?.any Char.isDigit = false
  noBlank : override.head?.any isSpace = false
  oneLine : '\n' ∉ override

/-! ## Under the condition -/

section Sub

variable {parts : List Python.Part} {override : Text}
  (hFill : ∀ m : ServerMatch, Python.fill m.group parts = m.group1 ++ override)

include hFill in
theorem sub_blank {l : Text} (hl : '\n' ∉ l) (h : l.all isSpace = true) (t : Text) :
    sub parts (l ++ '\n' :: t) = l ++ '\n' :: sub parts t := by
  rw [sub_eq, matchAt_blank h]
  cases hMatch : matchAt t with
  | none =>
    simp only [Option.map_none]
    rw [takeWhile_line hl (.newline t), dropWhile_line hl (.newline t), nextLine]
  | some m =>
    rw [sub_eq parts t, hMatch]
    simp [hFill]

include hFill in
theorem sub_value {l rest : Text} (hl : '\n' ∉ l) (hRest : AtEnd rest) (h : isServer l = true)
    (hValue : (afterKey l).all isSpace = false) :
    sub parts (l ++ rest) = rewriteLine override l ++ nextLine (sub parts) rest := by
  rw [sub_eq, matchAt_value hl hRest h hValue, rewriteLine, if_pos h]
  simp only [hFill]

theorem sub_other {l rest : Text} (hl : '\n' ∉ l) (hRest : AtEnd rest)
    (h : isServer (l ++ rest) = false) :
    sub parts (l ++ rest) = l ++ nextLine (sub parts) rest := by
  rw [sub_eq, matchAt, h]
  simp only [Bool.false_eq_true, if_false]
  rw [takeWhile_line hl hRest, dropWhile_line hl hRest]

include hFill in
theorem sub_last {l : Text} (hl : '\n' ∉ l) : sub parts l = rewriteLine override l := by
  have hNil := List.append_nil l
  cases h : isServer l with
  | false =>
    have hOther := @sub_other parts l [] hl .nil (by rwa [hNil])
    rw [hNil] at hOther
    rw [hOther, nextLine, hNil, rewriteLine, h]
    rfl
  | true =>
    cases hValue : (afterKey l).all isSpace with
    | false =>
      have hSub := @sub_value parts override hFill l [] hl .nil h hValue
      rwa [hNil, nextLine, List.append_nil] at hSub
    | true =>
      have hDrop : (afterKey l).dropWhile isSpace = [] :=
        List.dropWhile_eq_nil_iff.mpr (List.all_eq_true.mp hValue)
      rw [sub_eq, matchAt, if_pos h, rewriteLine, if_pos h]
      simp only [hFill, hDrop]
      rw [List.dropWhile_nil, nextLine, List.append_nil]

include hFill in
theorem sub_eq_rewriteLines {t : Text}
    (hLines : ∀ l ∈ (lines t).dropLast, isBlankServer l = false) :
    sub parts t = rewriteLines override t := by
  induction t using lines_induction with
  | last l hl => rw [sub_last hFill hl, rewriteLines_last override hl]
  | line l t hl ih =>
    rw [lines_cons hl, List.dropLast_cons_of_ne_nil (lines_ne_nil t)] at hLines
    have ih := ih fun l' hl' => hLines l' (List.mem_cons_of_mem _ hl')
    have hFirst := hLines l List.mem_cons_self
    rw [rewriteLines_cons override hl, ← ih]
    cases hBlank : l.all isSpace with
    | true =>
      rw [sub_blank hFill hl hBlank, rewriteLine, not_isServer_of_blank hBlank]
      rfl
    | false =>
      cases h : isServer l with
      | false =>
        rw [sub_other hl (.newline t) (by rw [isServer_line (.newline t) hBlank, h]), rewriteLine, h]
        rfl
      | true =>
        rw [isBlankServer, h, Bool.true_and] at hFirst
        exact sub_value hFill hl (.newline t) h hFirst

end Sub

theorem piece_group {override : Text} (hDigit : override.head?.any Char.isDigit = false)
    (groupIndex : Text → Option Nat) :
    Python.piece 1 groupIndex ('\\' :: '1' :: override) = some (.group 1, override) := by
  have hOctal : ∀ {d : Char}, d.isDigit = false → Python.isOctal d = false := by
    intro d hd
    rw [Python.isOctal, hd, Bool.false_and]
  cases override with
  | nil => rfl
  | cons d more =>
    have hd : d.isDigit = false := hDigit
    cases more with
    | nil => simp [Python.piece, Python.digitEscape, hd, Python.addGroup, Nat.ofDigitChars_cons]
    | cons e t =>
      simp [Python.piece, Python.digitEscape, hd, hOctal hd, Python.addGroup,
        Nat.ofDigitChars_cons]

/-- Behind a group the template is that of the override. -/
theorem template_group {override : Text} (hDigit : override.head?.any Char.isDigit = false)
    {groupIndex : Text → Option Nat} {parts : List Python.Part} :
    overrideTemplate groupIndex override = some parts ↔
      ∃ rest, Python.parseTemplate 1 groupIndex (override.length + 1) override = some rest ∧
        parts = .group 1 :: rest := by
  rw [overrideTemplate, Python.parseTemplate_cons]
  constructor
  · rintro ⟨p, after, rest, hPiece, hRest, rfl⟩
    rw [piece_group hDigit] at hPiece
    cases hPiece
    exact ⟨rest, hRest, rfl⟩
  · rintro ⟨rest, hRest, rfl⟩
    exact ⟨_, _, rest, piece_group hDigit groupIndex, hRest, rfl⟩

/-- The template of a plain override. -/
theorem plain_template {override : Text} (hPlain : Plain override) (groupIndex : Text → Option Nat) :
    ∃ parts, overrideTemplate groupIndex override = some parts ∧
      ∀ m : ServerMatch, Python.fill m.group parts = m.group1 ++ override := by
  obtain ⟨parts, hParts, hFill⟩ := @Python.parseTemplate_verbatim 1 groupIndex
    override hPlain.verbatim _ (Nat.le_succ override.length)
  refine ⟨_, (template_group hPlain.noDigit).mpr ⟨parts, hParts, rfl⟩, fun m => ?_⟩
  rw [Python.fill, List.flatMap_cons, ← Python.fill, hFill]
  rfl

theorem takeWhile_of_head {p : Char → Bool} {t : Text} (h : t.head?.any p = false) :
    t.takeWhile p = [] := by
  cases t with
  | nil => rfl
  | cons c t =>
    have hc : p c = false := h
    rw [List.takeWhile_cons, hc]
    rfl

section Shape

variable {lead : Text} (hLead : ∀ c ∈ lead, isSpace c = true) (after : Text)

include hLead

theorem isServer_shape : isServer (lead ++ (serverKey ++ after)) = true := by
  rw [isServer, List.dropWhile_append_of_pos hLead]
  exact List.isPrefixOf_iff_prefix.mpr (List.prefix_append _ _)

theorem takeWhile_shape : (lead ++ (serverKey ++ after)).takeWhile isSpace = lead := by
  rw [List.takeWhile_append_of_pos hLead]
  exact List.append_nil lead

theorem afterKey_shape : afterKey (lead ++ (serverKey ++ after)) = after := by
  rw [afterKey, List.dropWhile_append_of_pos hLead]
  rfl

theorem rewriteLine_shape (override : Text) :
    rewriteLine override (lead ++ (serverKey ++ after)) =
      lead ++ (serverKey ++ (after.takeWhile isSpace ++ override)) := by
  rw [rewriteLine, if_pos (isServer_shape hLead after), takeWhile_shape hLead, afterKey_shape hLead]
  simp

end Shape

theorem takeWhile_isSpace (t : Text) : ∀ c ∈ t.takeWhile isSpace, isSpace c = true :=
  fun _ h => List.mem_takeWhile_imp h

/-- A line is rewritten once, and then has a value. -/
theorem rewriteLine_again {override : Text} (h : override.head?.any isSpace = false)
    (hNe : override ≠ []) (l : Text) :
    rewriteLine override (rewriteLine override l) = rewriteLine override l ∧
      isBlankServer (rewriteLine override l) = false := by
  cases hServer : isServer l with
  | false =>
    have hSame : rewriteLine override l = l := by rw [rewriteLine, hServer]; rfl
    rw [hSame, isBlankServer, hServer]
    exact ⟨hSame, rfl⟩
  | true =>
    have hLead := takeWhile_isSpace l
    have hBlanks := takeWhile_isSpace (afterKey l)
    rw [isServer_eq hServer, rewriteLine_shape hLead, rewriteLine_shape hLead]
    constructor
    · rw [List.takeWhile_append_of_pos hBlanks, takeWhile_of_head h, List.append_nil]
    · rw [isBlankServer, isServer_shape hLead, afterKey_shape hLead, Bool.true_and, List.all_append]
      cases override with
      | nil => exact absurd rfl hNe
      | cons c t =>
        have hc : isSpace c = false := h
        simp [hc]

theorem rewriteLine_oneLine {override l : Text} (hOverride : '\n' ∉ override) (hl : '\n' ∉ l) :
    '\n' ∉ rewriteLine override l := by
  rw [rewriteLine]
  split
  · intro hMem
    simp only [List.mem_append] at hMem
    obtain ((hMem | hMem) | hMem) | hMem := hMem
    · exact hl ((List.takeWhile_prefix _).mem hMem)
    · exact absurd hMem (by decide)
    · exact mem_afterKey hl ((List.takeWhile_prefix _).mem hMem)
    · exact hOverride hMem
  · exact hl

theorem rewriteLines_again {override : Text} (hPlain : Plain override) (hNe : override ≠ [])
    (t : Text) :
    rewriteLines override (rewriteLines override t) = rewriteLines override t ∧
      ∀ l ∈ lines (rewriteLines override t), isBlankServer l = false := by
  have hLine := rewriteLine_again hPlain.noBlank hNe
  induction t using lines_induction with
  | last l hl =>
    have hNew := rewriteLine_oneLine hPlain.oneLine hl
    rw [rewriteLines_last override hl, rewriteLines_last override hNew, lines_last hNew]
    refine ⟨(hLine l).1, fun l' hl' => ?_⟩
    rw [List.mem_singleton.mp hl']
    exact (hLine l).2
  | line l t hl ih =>
    have hNew := rewriteLine_oneLine hPlain.oneLine hl
    rw [rewriteLines_cons override hl, rewriteLines_cons override hNew, lines_cons hNew, (hLine l).1,
      ih.1]
    refine ⟨rfl, fun l' hl' => ?_⟩
    obtain rfl | hl' := List.mem_cons.mp hl'
    · exact (hLine l).2
    · exact ih.2 l' hl'

theorem rewritten_of_plain {groupIndex : Text → Option Nat} {t override : Text}
    (hPlain : Plain override) (hNe : override ≠ [])
    (hLines : ∀ l ∈ (lines t).dropLast, isBlankServer l = false) :
    Rewritten groupIndex t override := by
  obtain ⟨parts, hParts, hFill⟩ := plain_template hPlain groupIndex
  obtain ⟨hAgain, hNew⟩ := rewriteLines_again hPlain hNe t
  constructor
  · rw [rewriteServerUrl, if_neg hNe, hParts, Option.map_some, sub_eq_rewriteLines hFill hLines]
  · rw [rewriteServerUrl, if_neg hNe, hParts, Option.map_some,
      sub_eq_rewriteLines hFill fun l hl => hNew l (List.mem_of_mem_dropLast hl), hAgain]

/-! ## Where the first server is -/

def HasServer (t : Text) : Prop := ∃ l ∈ lines t, isServer l = true

theorem hasServer_cons {l : Text} (hl : '\n' ∉ l) (t : Text) :
    HasServer (l ++ '\n' :: t) ↔ isServer l = true ∨ HasServer t := by
  rw [HasServer, lines_cons hl]
  simp [HasServer]

theorem hasServer_of_isServer {t : Text} (h : isServer t = true) : HasServer t := by
  induction t using lines_induction with
  | last l hl => exact ⟨l, by rw [lines_last hl]; exact List.mem_singleton_self l, h⟩
  | line l t hl ih =>
    rw [hasServer_cons hl]
    cases hBlank : l.all isSpace with
    | false =>
      rw [isServer_line (.newline t) hBlank] at h
      exact .inl h
    | true =>
      have hDrop : (l ++ '\n' :: t).dropWhile isSpace = t.dropWhile isSpace :=
        List.dropWhile_append_of_pos (List.all_eq_true.mp hBlank)
      rw [isServer, hDrop] at h
      exact .inr (ih h)

theorem not_isServer_of_none {l t : Text} (h : isServer (l ++ '\n' :: t) = false) :
    isServer l = false := by
  rw [← Bool.not_eq_true]
  intro hServer
  rw [isServer_line (.newline t) (not_blank_of_isServer hServer), hServer] at h
  cases h

theorem rewriteLine_other {override l : Text} (h : isServer l = false) :
    rewriteLine override l = l := by
  rw [rewriteLine, h]
  rfl

theorem unchanged_of_none {t : Text} (h : ¬HasServer t) (parts : List Python.Part)
    (override : Text) : sub parts t = t ∧ rewriteLines override t = t := by
  induction t using lines_induction with
  | last l hl =>
    have hServer : isServer l = false := by
      rw [← Bool.not_eq_true]
      exact fun hServer => h (hasServer_of_isServer hServer)
    have hSub := @sub_other parts l [] hl .nil (by rwa [List.append_nil])
    rw [List.append_nil, nextLine, List.append_nil] at hSub
    exact ⟨hSub, by rw [rewriteLines_last override hl, rewriteLine_other hServer]⟩
  | line l t hl ih =>
    have hServer : isServer (l ++ '\n' :: t) = false := by
      rw [← Bool.not_eq_true]
      exact fun hServer => h (hasServer_of_isServer hServer)
    obtain ⟨hSub, hRewrite⟩ := ih fun hRest => h ((hasServer_cons hl t).mpr (.inr hRest))
    rw [sub_other hl (.newline t) hServer, nextLine, hSub, rewriteLines_cons override hl,
      rewriteLine_other (not_isServer_of_none hServer), hRewrite]
    exact ⟨rfl, rfl⟩

/-- Before its first match the text is left as it is. -/
theorem exists_match {t : Text} (h : HasServer t) :
    ∃ pre t₁ m, t = pre ++ t₁ ∧ matchAt t₁ = some m ∧ ∀ parts override,
      sub parts t = pre ++ sub parts t₁ ∧ rewriteLines override t = pre ++ rewriteLines override t₁ := by
  induction t using lines_induction with
  | last l hl =>
    obtain ⟨l', hMem, hServer⟩ := h
    rw [lines_last hl, List.mem_singleton] at hMem
    subst hMem
    exact ⟨[], l', _, rfl, if_pos hServer, fun _ _ => ⟨rfl, rfl⟩⟩
  | line l t hl ih =>
    cases hServer : isServer (l ++ '\n' :: t) with
    | true => exact ⟨[], _, _, rfl, if_pos hServer, fun _ _ => ⟨rfl, rfl⟩⟩
    | false =>
      have hNot := not_isServer_of_none hServer
      have hRest : HasServer t := by
        obtain hFirst | hRest := (hasServer_cons hl t).mp h
        · rw [hNot] at hFirst
          cases hFirst
        · exact hRest
      obtain ⟨pre, t₁, m, rfl, hMatch, hSame⟩ := ih hRest
      refine ⟨l ++ '\n' :: pre, t₁, m, by simp, hMatch, fun parts override => ?_⟩
      obtain ⟨hSub, hRewrite⟩ := hSame parts override
      rw [sub_other hl (.newline _) hServer, nextLine, hSub, rewriteLines_cons override hl,
        rewriteLine_other hNot, hRewrite]
      simp

/-- The line of a key, after blanks that may be lines of their own. -/
theorem rewriteLines_lead {lead line rest : Text} (hLead : ∀ c ∈ lead, isSpace c = true)
    (hLine : '\n' ∉ line) (hRest : AtEnd rest) (override : Text) :
    ∃ after, rewriteLines override (lead ++ (serverKey ++ (line ++ rest))) =
      lead ++ (serverKey ++ (line.takeWhile isSpace ++ (override ++ after))) := by
  induction lead using lines_induction with
  | last l hl =>
    have hMem : '\n' ∉ l ++ (serverKey ++ line) := by
      simp only [List.mem_append, not_or]
      exact ⟨hl, by decide, hLine⟩
    obtain rfl | ⟨t, rfl⟩ := hRest.cases
    · refine ⟨[], ?_⟩
      rw [List.append_nil, rewriteLines_last override hMem, rewriteLine_shape hLead, List.append_nil]
    · refine ⟨'\n' :: rewriteLines override t, ?_⟩
      have hSplit : l ++ (serverKey ++ (line ++ '\n' :: t)) =
          (l ++ (serverKey ++ line)) ++ '\n' :: t := by simp
      rw [hSplit, rewriteLines_cons override hMem, rewriteLine_shape hLead]
      simp
  | line l lead hl ih =>
    have hBlank : l.all isSpace = true :=
      List.all_eq_true.mpr fun c hc => hLead c (List.mem_append_left _ hc)
    obtain ⟨after, hAfter⟩ := ih fun c hc =>
      hLead c (List.mem_append_right _ (List.mem_cons_of_mem _ hc))
    refine ⟨after, ?_⟩
    rw [List.append_assoc, List.cons_append, rewriteLines_cons override hl, hAfter,
      rewriteLine_other (not_isServer_of_blank hBlank)]
    simp

/-- A match with what is around it: the blanks before the key, and those after it on its line. -/
theorem match_shape {t : Text} {m : ServerMatch} (h : matchAt t = some m) :
    ∃ lead blanks more, (∀ c ∈ lead, isSpace c = true) ∧ (∀ c ∈ blanks, isSpace c = true) ∧
      '\n' ∉ blanks ∧ AtEnd more ∧ m.group1 = lead ++ (serverKey ++ (blanks ++ more)) ∧
      ∀ override, ∃ after, rewriteLines override t =
        lead ++ (serverKey ++ (blanks ++ (override ++ after))) := by
  rw [matchAt] at h
  split at h <;> cases h
  next hServer =>
    have hLead := takeWhile_isSpace t
    obtain ⟨line, hLine⟩ : ∃ line, line = (afterKey t).takeWhile (· ≠ '\n') := ⟨_, rfl⟩
    obtain ⟨rest, hRestEq⟩ : ∃ rest, rest = (afterKey t).dropWhile (· ≠ '\n') := ⟨_, rfl⟩
    have hAfter : afterKey t = line ++ rest := by
      rw [hLine, hRestEq, List.takeWhile_append_dropWhile]
    have hMem : '\n' ∉ line := by
      rw [hLine]
      exact fun hIn => absurd (List.mem_takeWhile_imp hIn) (by simp)
    have hRest : AtEnd rest := hRestEq ▸ AtEnd.dropWhile _
    obtain ⟨more, hMore, hSpace⟩ : ∃ more, AtEnd more ∧
        (line ++ rest).takeWhile isSpace = line.takeWhile isSpace ++ more := by
      cases hAll : line.all isSpace with
      | false => exact ⟨[], .nil, by rw [takeWhile_space hAll, List.append_nil]⟩
      | true =>
        have hAll := List.all_eq_true.mp hAll
        refine ⟨rest.takeWhile isSpace, ?_, ?_⟩
        · obtain rfl | ⟨u, rfl⟩ := hRest.cases
          · exact .nil
          · exact .newline _
        · rw [List.takeWhile_append_of_pos hAll, List.takeWhile_eq_self_iff.mpr hAll]
    refine ⟨_, line.takeWhile isSpace, more, hLead, takeWhile_isSpace line, ?_, hMore, ?_,
      fun override => ?_⟩
    · exact fun hIn => hMem ((List.takeWhile_prefix _).mem hIn)
    · rw [hAfter, hSpace, List.append_assoc]
    · obtain ⟨after, hEq⟩ := rewriteLines_lead hLead hMem hRest override
      refine ⟨after, ?_⟩
      rw [← hEq, ← hAfter, ← isServer_eq hServer]

theorem head_dropWhile_space (t : Text) : (t.dropWhile isSpace).head?.any isSpace = false := by
  induction t with
  | nil => rfl
  | cons c t ih =>
    rw [List.dropWhile_cons]
    cases hc : isSpace c with
    | true => exact ih
    | false => simp [hc]

theorem match_parts {t : Text} {m : ServerMatch} (h : matchAt t = some m) :
    t = m.group1 ++ (m.value ++ m.rest) ∧ (m.value ++ m.rest).head?.any isSpace = false ∧
      '\n' ∉ m.value ∧ AtEnd m.rest := by
  rw [matchAt] at h
  split at h <;> cases h
  next hServer =>
    dsimp only
    rw [List.takeWhile_append_dropWhile]
    refine ⟨?_, head_dropWhile_space _, ?_, AtEnd.dropWhile _⟩
    · rw [List.append_assoc, List.takeWhile_append_dropWhile, List.append_assoc, ← isServer_eq hServer]
    · exact fun hIn => absurd (List.mem_takeWhile_imp hIn) (by simp)

/-! ## Overrides that are not plain -/

theorem nextLine_atEnd (f : Text → Text) {t : Text} (h : AtEnd t) : AtEnd (nextLine f t) := by
  obtain rfl | ⟨u, rfl⟩ := h.cases
  · exact .nil
  · exact .newline _

/-- The mark that every group has, from `server:`. -/
theorem mark_plain : Python.isEscape 's' = false := rfl

theorem group_mark {t : Text} {m : ServerMatch} (h : matchAt t = some m) :
    ∀ n ≤ 1, ∃ front back, m.group n = front ++ 's' :: back ∧ '\\' ∉ front := by
  obtain ⟨lead, blanks, more, hLead, -, -, -, hGroup, -⟩ := match_shape h
  have hSlash : '\\' ∉ lead := fun hIn => absurd (hLead _ hIn) (by decide)
  intro n _
  cases n with
  | zero =>
    refine ⟨lead, (serverKey ++ (blanks ++ more)).tail ++ m.value, ?_, hSlash⟩
    rw [ServerMatch.group, hGroup, List.append_assoc]
    rfl
  | succ n =>
    refine ⟨lead, (serverKey ++ (blanks ++ more)).tail, ?_, hSlash⟩
    rw [ServerMatch.group, hGroup]
    rfl

theorem addGroup_tens {d : Char} {t rest : Text} {p : Python.Part} :
    Python.addGroup 1 (Nat.ofDigitChars 10 ['1', d] 0) t ≠ some (p, rest) := by
  have hTens : Nat.ofDigitChars 10 ['1', d] 0 = 10 + (d.toNat - '0'.toNat) := by
    simp [Nat.ofDigitChars_cons]
  rw [Python.addGroup, hTens, if_neg (by omega)]
  exact (Option.some_ne_none _).symm

/-- A digit joins `\1` to an octal code. -/
theorem piece_digit {d : Char} {override rest : Text} {groupIndex : Text → Option Nat}
    {p : Python.Part} (hd : d.isDigit = true)
    (h : Python.piece 1 groupIndex ('\\' :: '1' :: d :: override) = some (p, rest)) :
    ∃ e, override = e :: rest ∧ Python.isOctal d = true ∧ Python.isOctal e = true ∧
      p = .text [Char.ofNat (Nat.ofDigitChars 8 ['1', d, e] 0)] := by
  have h : Python.digitEscape 1 '1' (d :: override) = some (p, rest) := h
  cases override with
  | nil =>
    rw [Python.digitEscape, if_pos hd] at h
    exact absurd h addGroup_tens
  | cons e t =>
    rw [Python.digitEscape] at h
    split at h
    next hOctal =>
      simp only [Bool.and_eq_true] at hOctal
      dsimp only at h
      split at h <;> cases h
      exact ⟨e, rfl, hOctal.1.2, hOctal.2, rfl⟩
    next => exact absurd h addGroup_tens

theorem octal_bounds {c : Char} (h : Python.isOctal c = true) : 48 ≤ c.toNat ∧ c.toNat ≤ 55 := by
  rw [Python.isOctal, Bool.and_eq_true, decide_eq_true_eq] at h
  exact ⟨(Python.digit_bounds h.1).1, h.2⟩

/-- The code that a digit makes is no blank. -/
theorem octal_not_space {d e : Char} (hd : Python.isOctal d = true) (he : Python.isOctal e = true) :
    isSpace (Char.ofNat (Nat.ofDigitChars 8 ['1', d, e] 0)) = false := by
  have hCode : Nat.ofDigitChars 8 ['1', d, e] 0 = 64 + (8 * (d.toNat - 48) + (e.toNat - 48)) := by
    simp [Nat.ofDigitChars_cons]
    omega
  have hAll : ∀ k < 64, isSpace (Char.ofNat (64 + k)) = false := by decide
  have hBoundD := octal_bounds hd
  have hBoundE := octal_bounds he
  rw [hCode]
  exact hAll _ (by omega)

theorem not_mem_of_isSpace {t : Text} {c : Char} (h : ∀ c ∈ t, isSpace c = true)
    (hc : isSpace c = false) : c ∉ t := by
  intro hIn
  rw [h c hIn] at hc
  cases hc

theorem template_ne_nil {groupIndex : Text → Option Nat} {override : Text}
    {parts : List Python.Part} (h : overrideTemplate groupIndex override = some parts) :
    ∃ p after rest, Python.piece 1 groupIndex ('\\' :: '1' :: override) = some (p, after) ∧
      Python.parseTemplate 1 groupIndex (override.length + 1) after = some rest ∧
      parts = p :: rest :=
  Python.parseTemplate_cons.mp h

section Necessary

variable {groupIndex : Text → Option Nat} {t override : Text} {parts : List Python.Part}

/-- What the substitution makes of the first match, and what the rewriting makes of it. -/
theorem first_match (hServer : HasServer t) (hSub : sub parts t = rewriteLines override t) :
    ∃ m : ServerMatch, (∃ u, matchAt u = some m) ∧ ∃ lead blanks more tail after,
      (∀ c ∈ lead, isSpace c = true) ∧ (∀ c ∈ blanks, isSpace c = true) ∧ '\n' ∉ blanks ∧
      AtEnd more ∧ AtEnd tail ∧ m.group1 = lead ++ (serverKey ++ (blanks ++ more)) ∧
      Python.fill m.group parts ++ tail = lead ++ (serverKey ++ (blanks ++ (override ++ after))) := by
  obtain ⟨pre, t₁, m, -, hMatch, hSame⟩ := exists_match hServer
  obtain ⟨lead, blanks, more, hLead, hBlanks, hLine, hMore, hGroup, hRewrite⟩ := match_shape hMatch
  obtain ⟨after, hAfter⟩ := hRewrite override
  obtain ⟨hPre, hPre'⟩ := hSame parts override
  have hEq : sub parts t₁ = rewriteLines override t₁ := by
    rw [hPre, hPre'] at hSub
    exact List.append_cancel_left hSub
  refine ⟨m, ⟨t₁, hMatch⟩, lead, blanks, more, nextLine (sub parts) m.rest, after, hLead, hBlanks,
    hLine, hMore, nextLine_atEnd _ (match_parts hMatch).2.2.2, hGroup, ?_⟩
  rw [← hAfter, ← hEq, sub_eq, hMatch]

theorem noDigit_of_sub (hParts : overrideTemplate groupIndex override = some parts)
    (hServer : HasServer t) (hSub : sub parts t = rewriteLines override t) :
    override.head?.any Char.isDigit = false := by
  rw [← Bool.not_eq_true]
  intro hDigit
  obtain ⟨d, override, rfl⟩ : ∃ d o, override = d :: o := by
    cases override with
    | nil => cases hDigit
    | cons d o => exact ⟨d, o, rfl⟩
  obtain ⟨p, rest, parts, hPiece, hRest, rfl⟩ := template_ne_nil hParts
  obtain ⟨e, rfl, hd, he, rfl⟩ := piece_digit hDigit hPiece
  obtain ⟨m, ⟨u, hMatch⟩, lead, blanks, more, tail, after, hLead, hBlanks, hLine, -, hTail, -, hEq⟩ :=
    first_match hServer hSub
  have hSpace := octal_not_space hd he
  rw [Python.fill, List.flatMap_cons, ← Python.fill, List.append_assoc, Python.Part.fill] at hEq
  cases lead with
  | cons c lead =>
    have hHead := (List.cons.inj hEq).1
    rw [hHead, hLead c List.mem_cons_self] at hSpace
    cases hSpace
  | nil =>
    have hRestEq : Python.fill m.group parts ++ tail =
        (serverKey.tail ++ (blanks ++ [d, e])) ++ (rest ++ after) := by
      simpa [serverKey] using (List.cons.inj hEq).2
    have hDigits : ∀ c, c.isDigit = false → c ∉ [d, e] := by
      intro c hc hIn
      rcases List.mem_cons.mp hIn with rfl | hIn
      · rw [Python.isOctal_isDigit hd] at hc
        cases hc
      · rw [List.mem_singleton.mp hIn, Python.isOctal_isDigit he] at hc
        cases hc
    refine Python.fill_ne_of_lag mark_plain (group_mark hMatch) hRest (by simp [serverKey]) ?_ ?_
      hTail hRestEq
    · simp only [List.mem_append, not_or]
      exact ⟨by decide, not_mem_of_isSpace hBlanks rfl, hDigits 's' rfl⟩
    · simp only [List.mem_append, not_or]
      exact ⟨by decide, hLine, hDigits '\n' rfl⟩

/-- A text that the substitution leaves as it is keeps the value of its first match. -/
theorem first_value {rest : List Python.Part} (hServer : HasServer t)
    (hSub : sub (.group 1 :: rest) t = t) :
    ∃ m : ServerMatch, (m.value ++ m.rest).head?.any isSpace = false ∧ '\n' ∉ m.value ∧
      AtEnd m.rest ∧ Python.fill m.group rest ++ nextLine (sub (.group 1 :: rest)) m.rest = m.value ++ m.rest := by
  obtain ⟨pre, t₁, m, hText, hMatch, hSame⟩ := exists_match hServer
  obtain ⟨hParts, hHead, hValue, hRest⟩ := match_parts hMatch
  refine ⟨m, hHead, hValue, hRest, ?_⟩
  have hEq : sub (.group 1 :: rest) t₁ = t₁ := by
    rw [(hSame _ []).1, hText] at hSub
    exact List.append_cancel_left hSub
  rw [sub_eq, hMatch] at hEq
  dsimp only at hEq
  rw [Python.fill, List.flatMap_cons, ← Python.fill, List.append_assoc, hParts] at hEq
  exact List.append_cancel_left hEq

theorem noBlank_of_sub {rest : List Python.Part} {n : Nat}
    (hRest : Python.parseTemplate 1 groupIndex (n + 1) override = some rest)
    (hServer : HasServer t) (hSub : sub (.group 1 :: rest) t = t) :
    override.head?.any isSpace = false := by
  rw [← Bool.not_eq_true]
  intro hSpace
  cases override with
  | nil => cases hSpace
  | cons c override =>
    have hc : isSpace c = true := hSpace
    have hSlash : c ≠ '\\' := by
      rintro rfl
      cases hc
    obtain ⟨p, after, rest, hPiece, -, rfl⟩ := Python.parseTemplate_cons.mp hRest
    rw [Python.piece_plain hSlash] at hPiece
    cases hPiece
    obtain ⟨m, hHead, -, -, hEq⟩ := first_value hServer hSub
    rw [← hEq, Python.fill, List.flatMap_cons] at hHead
    rw [show isSpace c = false from hHead] at hc
    cases hc

theorem verbatim_of_sub {rest : List Python.Part} {n : Nat} (hNe : override ≠ [])
    (hBlank : override.head?.any isSpace = false)
    (hRest : Python.parseTemplate 1 groupIndex n override = some rest)
    (hServer : HasServer t) (hSub : sub (.group 1 :: rest) t = rewriteLines override t) :
    Python.verbatim override = true := by
  obtain ⟨m, ⟨u, hMatch⟩, lead, blanks, more, tail, after, -, -, -, hMore, hTail, hGroup, hEq⟩ :=
    first_match hServer hSub
  rw [Python.fill, List.flatMap_cons, ← Python.fill, List.append_assoc] at hEq
  rw [show Python.Part.fill m.group (.group 1) = m.group1 from rfl, hGroup] at hEq
  simp only [List.append_assoc] at hEq
  have hEq := List.append_cancel_left (List.append_cancel_left (List.append_cancel_left hEq))
  obtain rfl | ⟨u, rfl⟩ := hMore.cases
  · exact Python.verbatim_of_fill mark_plain (group_mark hMatch) hRest hTail hEq
  · cases override with
    | nil => exact absurd rfl hNe
    | cons c override =>
      obtain ⟨rfl, -⟩ := List.cons.inj hEq
      cases hBlank

end Necessary

section Fill

variable {parts : List Python.Part} {override : Text}
  (hFill : ∀ m : ServerMatch, Python.fill m.group parts = m.group1 ++ override)

include hFill

/-- The substitution takes no end of a line away. -/
theorem count_sub (t : Text) : t.count '\n' ≤ (sub parts t).count '\n' := by
  induction hLen : t.length using Nat.strong_induction_on generalizing t with
  | _ n ih =>
    have hNext : ∀ {rest : Text}, AtEnd rest → rest.length ≤ t.length →
        rest.count '\n' ≤ (nextLine (sub parts) rest).count '\n' := by
      intro rest hRest hLe
      obtain rfl | ⟨u, rfl⟩ := hRest.cases
      · exact Nat.le_refl _
      · rw [List.length_cons] at hLe
        rw [nextLine, List.count_cons_self, List.count_cons_self]
        exact Nat.succ_le_succ (ih u.length (by omega) u rfl)
    rw [sub_eq]
    cases hMatch : matchAt t with
    | none =>
      have hRest := hNext (AtEnd.dropWhile t) (List.dropWhile_suffix _).length_le
      have hSplit : t.count '\n' = (t.takeWhile (· ≠ '\n')).count '\n' +
          (t.dropWhile (· ≠ '\n')).count '\n' := by
        rw [← List.count_append, List.takeWhile_append_dropWhile]
      dsimp only
      rw [List.count_append]
      omega
    | some m =>
      obtain ⟨hText, -, hValue, hRest⟩ := match_parts hMatch
      have hRest := hNext hRest (matchAt_length hMatch)
      have hSplit : t.count '\n' = m.group1.count '\n' + m.rest.count '\n' := by
        nth_rewrite 1 [hText]
        rw [List.count_append, List.count_append, List.count_eq_zero.mpr hValue, Nat.zero_add]
      dsimp only
      rw [hFill, List.count_append, List.count_append]
      omega

theorem count_nextLine {rest : Text} (h : AtEnd rest) :
    rest.count '\n' ≤ (nextLine (sub parts) rest).count '\n' := by
  obtain rfl | ⟨t, rfl⟩ := h.cases
  · exact Nat.le_refl _
  · rw [nextLine, List.count_cons_self, List.count_cons_self]
    exact Nat.succ_le_succ (count_sub hFill t)

/-- A server without a value takes the next line for it. -/
theorem lines_of_sub {t : Text} (hNe : override ≠ []) (hBlank : override.head?.any isSpace = false)
    (hSub : sub parts t = rewriteLines override t) :
    ∀ l ∈ (lines t).dropLast, isBlankServer l = false := by
  induction t using lines_induction with
  | last l hl =>
    rw [lines_last hl]
    exact nofun
  | line l t hl ih =>
    rw [lines_cons hl, List.dropLast_cons_of_ne_nil (lines_ne_nil t)]
    rw [rewriteLines_cons override hl] at hSub
    have hCons : ∀ {first : Text}, rewriteLine override l = first →
        sub parts (l ++ '\n' :: t) = first ++ '\n' :: sub parts t → isBlankServer l = false →
        ∀ l' ∈ l :: (lines t).dropLast, isBlankServer l' = false := by
      intro first hFirst hEq hLine l' hl'
      rw [hEq, hFirst] at hSub
      have hRest := (List.cons.inj (List.append_cancel_left hSub)).2
      obtain rfl | hl' := List.mem_cons.mp hl'
      · exact hLine
      · exact ih hRest l' hl'
    cases hSpace : l.all isSpace with
    | true =>
      have hServer := not_isServer_of_blank hSpace
      exact hCons (rewriteLine_other hServer) (sub_blank hFill hl hSpace t)
        (by rw [isBlankServer, hServer, Bool.false_and])
    | false =>
      cases hServer : isServer l with
      | false =>
        exact hCons (rewriteLine_other hServer)
          (sub_other hl (.newline t) (by rw [isServer_line (.newline t) hSpace, hServer]))
          (by rw [isBlankServer, hServer, Bool.false_and])
      | true =>
        cases hValue : (afterKey l).all isSpace with
        | false =>
          exact hCons rfl (sub_value hFill hl (.newline t) hServer hValue)
            (by rw [isBlankServer, hValue, Bool.and_false])
        | true =>
          have hAll := List.all_eq_true.mp hValue
          have hLine : isServer (l ++ '\n' :: t) = true := by
            rw [isServer_line (.newline t) hSpace, hServer]
          rw [sub_eq, matchAt, if_pos hLine, rewriteLine, if_pos hServer] at hSub
          dsimp only at hSub
          rw [hFill, takeWhile_space hSpace, afterKey_line hServer,
            List.takeWhile_append_of_pos hAll, List.takeWhile_eq_self_iff.mpr hAll] at hSub
          simp only [List.append_assoc] at hSub
          have hEq := List.append_cancel_left (List.append_cancel_left (List.append_cancel_left hSub))
          cases override with
          | nil => exact absurd rfl hNe
          | cons c override =>
            obtain ⟨rfl, -⟩ := List.cons.inj hEq
            cases hBlank

end Fill

/-! ## The condition -/

theorem hasServer_rewriteLines {t : Text} (h : HasServer t) (override : Text) :
    HasServer (rewriteLines override t) := by
  induction t using lines_induction with
  | last l hl =>
    obtain ⟨l', hMem, hServer⟩ := h
    rw [lines_last hl, List.mem_singleton] at hMem
    subst hMem
    rw [rewriteLines_last override hl]
    refine hasServer_of_isServer ?_
    rw [isServer_eq hServer, rewriteLine_shape (takeWhile_isSpace l')]
    exact isServer_shape (takeWhile_isSpace l') _
  | line l t hl ih =>
    rw [rewriteLines_cons override hl]
    cases hServer : isServer l with
    | true =>
      refine hasServer_of_isServer ?_
      rw [isServer_eq hServer, rewriteLine_shape (takeWhile_isSpace l), List.append_assoc,
        List.append_assoc]
      exact isServer_shape (takeWhile_isSpace l) _
    | false =>
      obtain hFirst | hRest := (hasServer_cons hl t).mp h
      · rw [hServer] at hFirst
        cases hFirst
      · rw [rewriteLine_other hServer]
        exact (hasServer_cons hl _).mpr (.inr (ih hRest))

theorem plain_of_rewritten {groupIndex : Text → Option Nat} {t override : Text} (hNe : override ≠ [])
    (hServer : HasServer t) (h : Rewritten groupIndex t override) :
    Plain override ∧ ∀ l ∈ (lines t).dropLast, isBlankServer l = false := by
  have hOut := hasServer_rewriteLines hServer override
  obtain ⟨hOnce, hAgain⟩ := h
  rw [rewriteServerUrl, if_neg hNe] at hOnce hAgain
  obtain ⟨parts, hParts, hOnce⟩ := Option.map_eq_some_iff.mp hOnce
  rw [hParts, Option.map_some, Option.some.injEq] at hAgain
  have hDigit := noDigit_of_sub hParts hServer hOnce
  obtain ⟨rest, hRest, rfl⟩ := (template_group hDigit).mp hParts
  have hBlank := noBlank_of_sub hRest hOut hAgain
  have hVerbatim := verbatim_of_sub hNe hBlank hRest hServer hOnce
  obtain ⟨rest', hRest', hFill⟩ := @Python.parseTemplate_verbatim 1 groupIndex
    override hVerbatim _ (Nat.le_succ override.length)
  obtain rfl : rest' = rest := Option.some.inj (hRest'.symm.trans hRest)
  have hFill' : ∀ m : ServerMatch,
      Python.fill m.group (.group 1 :: rest') = m.group1 ++ override := by
    intro m
    rw [Python.fill, List.flatMap_cons, ← Python.fill, hFill]
    rfl
  refine ⟨⟨hVerbatim, hDigit, hBlank, ?_⟩, lines_of_sub hFill' hNe hBlank hOnce⟩
  obtain ⟨m, -, hValue, hEnd, hEq⟩ := first_value hOut hAgain
  rw [hFill] at hEq
  have hCount := congrArg (List.count '\n') hEq
  rw [List.count_append, List.count_append, List.count_eq_zero.mpr hValue] at hCount
  have hLe := count_nextLine hFill' hEnd
  exact List.count_eq_zero.mp (by omega)

/-- Exactly the lines with a server are rewritten, once for all, if the template is one at all
and, where there is such a line, the override is plain and no line but the last lacks a value. -/
theorem rewritten_iff {groupIndex : Text → Option Nat} {t override : Text} (hNe : override ≠ []) :
    Rewritten groupIndex t override ↔
      (overrideTemplate groupIndex override).isSome = true ∧
        (HasServer t → Plain override ∧ ∀ l ∈ (lines t).dropLast, isBlankServer l = false) := by
  constructor
  · intro h
    refine ⟨?_, fun hServer => plain_of_rewritten hNe hServer h⟩
    have hOnce := h.once
    rw [rewriteServerUrl, if_neg hNe] at hOnce
    obtain ⟨parts, hParts, -⟩ := Option.map_eq_some_iff.mp hOnce
    rw [hParts]
    rfl
  · rintro ⟨hTemplate, hOk⟩
    by_cases hServer : HasServer t
    · obtain ⟨hPlain, hLines⟩ := hOk hServer
      exact rewritten_of_plain hPlain hNe hLines
    · obtain ⟨parts, hParts⟩ := Option.isSome_iff_exists.mp hTemplate
      obtain ⟨hSub, hSame⟩ := unchanged_of_none hServer parts override
      have hOnce : rewriteServerUrl groupIndex t override = some t := by
        rw [rewriteServerUrl, if_neg hNe, hParts, Option.map_some, hSub]
      exact ⟨by rw [hSame, hOnce], by rw [hSame, hOnce]⟩

/-- What `\g<name>` takes for the number of a group: ASCII digits. -/
def decimalIndex (name : Text) : Option Nat :=
  if name.all Char.isDigit then some (Nat.ofDigitChars 10 name 0) else none

def kubeconfig : Text :=
  ['a', ':', '\n', ' ', 's', 'e', 'r', 'v', 'e', 'r', ':', ' ', 'h', '\n', 'b', ':']

theorem kubeconfig_rewritten : Rewritten decimalIndex kubeconfig ['x', ':', '1'] :=
  (rewritten_iff (by decide)).mpr
    ⟨by decide, fun _ => ⟨⟨by decide, by decide, by decide, by decide⟩, by decide⟩⟩

/-- An address: its first digits make an octal code of the reference to the group. -/
def address : Text := ['1', '0', '.', '0', '.', '0', '.', '1']

/-- The key is gone, and a capital H is in its place. -/
theorem address_rewritten :
    rewriteServerUrl decimalIndex kubeconfig address =
      some ['a', ':', '\n', 'H', '.', '0', '.', '0', '.', '1', '\n', 'b', ':'] ∧
    ¬Rewritten decimalIndex kubeconfig address := by
  have hOut : rewriteServerUrl decimalIndex kubeconfig address =
      some ['a', ':', '\n', 'H', '.', '0', '.', '0', '.', '1', '\n', 'b', ':'] := by decide
  refine ⟨hOut, fun h => ?_⟩
  have hOnce := h.once
  rw [hOut] at hOnce
  exact absurd hOnce (by decide)

end OpenSpoke.Kubeconfig
