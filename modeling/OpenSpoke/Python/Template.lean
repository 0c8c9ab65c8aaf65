import OpenSpoke.Python.Int

/-!
# Templates of `re.sub`

`parse_template` of Python's `re`: a replacement is text with escapes, octal
codes and references to groups.
-/

namespace OpenSpoke.Python

inductive Part
  | text (t : Text)
  | group (n : Nat)
  deriving DecidableEq

def isOctal (c : Char) : Bool := c.isDigit && c.toNat ≤ '7'.toNat

/-- A character that `re` leaves alone after a backslash. -/
def isKept (c : Char) : Bool := !c.isAlpha && !c.isDigit && c ≠ '\\'

def simpleEscape : Char → Option Char
  | 'a' => some (Char.ofNat 7)
  | 'b' => some (Char.ofNat 8)
  | 't' => some '\t'
  | 'n' => some '\n'
  | 'v' => some (Char.ofNat 11)
  | 'f' => some (Char.ofNat 12)
  | 'r' => some '\r'
  | '\\' => some '\\'
  | _ => none

/-- The name of a group, up to the closing bracket, and the rest. -/
def groupName : Text → Option (Text × Text)
  | [] => none
  | '>' :: t => some ([], t)
  | ['\\'] => none
  | '\\' :: c :: t => (groupName t).map fun r => ('\\' :: c :: r.1, r.2)
  | c :: t => (groupName t).map fun r => (c :: r.1, r.2)

section Templates

-- the groups of the pattern, and what `\g<name>` takes for the number of one
variable (groups : Nat) (groupIndex : Text → Option Nat)

def addGroup (n : Nat) (t : Text) : Option (Part × Text) :=
  if n ≤ groups then some (.group n, t) else none

def digitEscape (c : Char) : Text → Option (Part × Text)
  | d :: e :: t =>
    if isOctal c && isOctal d && isOctal e then
      let code := Nat.ofDigitChars 8 [c, d, e] 0
      if code ≤ 255 then some (.text [Char.ofNat code], t) else none
    else if d.isDigit then addGroup groups (Nat.ofDigitChars 10 [c, d] 0) (e :: t)
    else addGroup groups (Nat.ofDigitChars 10 [c] 0) (d :: e :: t)
  | [d] =>
    if d.isDigit then addGroup groups (Nat.ofDigitChars 10 [c, d] 0) []
    else addGroup groups (Nat.ofDigitChars 10 [c] 0) [d]
  | [] => addGroup groups (Nat.ofDigitChars 10 [c] 0) []

def namedGroup : Text → Option (Part × Text)
  | '<' :: t =>
    (groupName t).bind fun r =>
      if r.1 = [] then none else (groupIndex r.1).bind fun n => addGroup groups n r.2
  | _ => none

/-- The first part of a template, and the rest; none if `re` raises. -/
def piece : Text → Option (Part × Text)
  | [] => none
  | ['\\'] => none
  | '\\' :: c :: t =>
    if c = 'g' then namedGroup groups groupIndex t
    else if c = '0' then
      let digits := (t.takeWhile isOctal).take 2
      some (.text [Char.ofNat (Nat.ofDigitChars 8 digits 0)], t.drop digits.length)
    else if c.isDigit then digitEscape groups c t
    else
      match simpleEscape c with
      | some x => some (.text [x], t)
      | none => if c.isAlpha then none else some (.text ['\\', c], t)
  | c :: t => some (.text [c], t)

/-- `parse_template`; every round takes a character of the template. -/
def parseTemplate : Nat → Text → Option (List Part)
  | _, [] => some []
  | 0, _ :: _ => none
  | n + 1, t =>
    (piece groups groupIndex t).bind fun r => (parseTemplate n r.2).map (r.1 :: ·)

end Templates

def Part.fill (group : Nat → Text) : Part → Text
  | .text t => t
  | .group n => group n

/-- `expand_template`. -/
def fill (group : Nat → Text) (parts : List Part) : Text := parts.flatMap (Part.fill group)

/-- The text stands for itself in a template. -/
def verbatim : Text → Bool
  | [] => true
  | ['\\'] => false
  | '\\' :: c :: t => isKept c && verbatim t
  | _ :: t => verbatim t

/-! ## What a part is read from -/

def isEscape (c : Char) : Bool := c.isDigit || c ∈ ['a', 'b', 't', 'n', 'v', 'f', 'r', '\\']

inductive Reads (groups : Nat) : Text → Part → Text → Prop
  | plain (c : Char) (t : Text) (hc : c ≠ '\\') : Reads groups (c :: t) (.text [c]) t
  | kept (c : Char) (t : Text) (hc : isKept c = true) :
      Reads groups ('\\' :: c :: t) (.text ['\\', c]) t
  | escape (x : Char) (code t : Text) (hNe : code ≠ []) (hCode : ∀ c ∈ code, isEscape c = true) :
      Reads groups ('\\' :: code ++ t) (.text [x]) t
  | group (n : Nat) (name t : Text) (hn : n ≤ groups) : Reads groups ('\\' :: name ++ t) (.group n) t

section Templates

variable {groups : Nat} {groupIndex : Text → Option Nat}

theorem addGroup_reads {n : Nat} (name : Text) {t : Text} {p : Part} {rest : Text}
    (h : addGroup groups n t = some (p, rest)) : Reads groups ('\\' :: name ++ t) p rest := by
  rw [addGroup] at h
  split at h <;> cases h
  next hn => exact .group n name t hn

theorem isOctal_isDigit {c : Char} (h : isOctal c = true) : c.isDigit = true := by
  rw [isOctal, Bool.and_eq_true] at h
  exact h.1

theorem isEscape_of_isDigit {c : Char} (h : c.isDigit = true) : isEscape c = true := by
  rw [isEscape, h, Bool.true_or]

theorem digitEscape_reads {c : Char} {t : Text} {p : Part} {rest : Text}
    (h : digitEscape groups c t = some (p, rest)) : Reads groups ('\\' :: c :: t) p rest := by
  match t with
  | [] => exact addGroup_reads [c] h
  | [d] =>
    rw [digitEscape] at h
    split at h
    · exact addGroup_reads [c, d] h
    · exact addGroup_reads [c] h
  | d :: e :: t =>
    rw [digitEscape] at h
    split at h
    next hOctal =>
      simp only [Bool.and_eq_true] at hOctal
      obtain ⟨⟨hc, hd⟩, he⟩ := hOctal
      dsimp only at h
      split at h <;> cases h
      refine .escape _ [c, d, e] _ (by simp) fun x hx => isEscape_of_isDigit (isOctal_isDigit ?_)
      simp only [List.mem_cons, List.not_mem_nil, or_false] at hx
      rcases hx with rfl | rfl | rfl <;> assumption
    next =>
      split at h
      · exact addGroup_reads [c, d] h
      · exact addGroup_reads [c] h

theorem groupName_eq {t name rest : Text} (h : groupName t = some (name, rest)) :
    t = name ++ '>' :: rest := by
  induction t using groupName.induct generalizing name rest with
  | case1 => cases h
  | case2 t => cases h; rfl
  | case3 => cases h
  | case4 c t ih =>
    obtain ⟨⟨name', rest'⟩, hName, hEq⟩ := Option.map_eq_some_iff.mp h
    cases hEq
    rw [ih hName]
    rfl
  | case5 c t h₁ h₂ h₃ ih =>
    rw [groupName] at h
    · obtain ⟨⟨name', rest'⟩, hName, hEq⟩ := Option.map_eq_some_iff.mp h
      cases hEq
      rw [ih hName]
      rfl
    all_goals assumption

theorem namedGroup_reads {t : Text} {p : Part} {rest : Text}
    (h : namedGroup groups groupIndex t = some (p, rest)) : Reads groups ('\\' :: 'g' :: t) p rest := by
  rw [namedGroup.eq_def] at h
  split at h
  next t =>
    obtain ⟨⟨name, after⟩, hName, h⟩ := Option.bind_eq_some_iff.mp h
    dsimp only at h
    split at h
    · cases h
    · obtain ⟨n, -, h⟩ := Option.bind_eq_some_iff.mp h
      rw [groupName_eq hName]
      have hReads := addGroup_reads ('g' :: '<' :: name ++ ['>']) h
      simpa using hReads
  next => cases h

theorem piece_reads {t : Text} {p : Part} {rest : Text}
    (h : piece groups groupIndex t = some (p, rest)) : Reads groups t p rest := by
  rw [piece.eq_def] at h
  split at h
  · cases h
  · cases h
  next c t =>
    split at h
    next hc =>
      subst hc
      exact namedGroup_reads h
    split at h
    next hc =>
      subst hc
      cases h
      have hSplit : t = (t.takeWhile isOctal).take 2 ++
          t.drop ((t.takeWhile isOctal).take 2).length := by
        have hPrefix : (t.takeWhile isOctal).take 2 <+: t :=
          (List.take_prefix _ _).trans (List.takeWhile_prefix _)
        exact (List.prefix_iff_eq_append.mp hPrefix).symm
      nth_rewrite 1 [hSplit]
      refine .escape _ ('0' :: (t.takeWhile isOctal).take 2) _ (by simp) fun x hx => ?_
      obtain rfl | hx := List.mem_cons.mp hx
      · rfl
      · exact isEscape_of_isDigit (isOctal_isDigit
          (List.mem_takeWhile_imp ((List.take_prefix _ _).mem hx)))
    split at h
    next => exact digitEscape_reads h
    next hDigit =>
      split at h
      next x hx =>
        cases h
        refine .escape x [c] _ (by simp) fun d hd => ?_
        obtain rfl := List.mem_singleton.mp hd
        unfold simpleEscape at hx
        split at hx <;> first | rfl | cases hx
      next hNone =>
        split at h <;> cases h
        next hAlpha =>
          refine .kept c _ ?_
          have hNe : c ≠ '\\' := by
            rintro rfl
            cases hNone
          simp [isKept, hAlpha, hDigit, hNe]
  next c t hNe₁ hNe₂ =>
    cases h
    refine .plain c _ ?_
    rintro rfl
    cases rest with
    | nil => exact hNe₁ rfl rfl
    | cons d rest => exact hNe₂ d rest rfl rfl

theorem piece_plain {c : Char} (hc : c ≠ '\\') (t : Text) :
    piece groups groupIndex (c :: t) = some (.text [c], t) := by
  rw [piece]
  · exact fun h => absurd h hc
  · exact fun _ _ h => absurd h hc

theorem piece_kept {c : Char} (hc : isKept c = true) (t : Text) :
    piece groups groupIndex ('\\' :: c :: t) = some (.text ['\\', c], t) := by
  simp only [isKept, Bool.and_eq_true, Bool.not_eq_true', decide_eq_true_eq] at hc
  obtain ⟨⟨hAlpha, hDigit⟩, hNe⟩ := hc
  have hNone : simpleEscape c = none := by
    unfold simpleEscape
    split
    case h_8 => exact absurd rfl hNe
    case h_9 => rfl
    all_goals cases hAlpha
  have hg : c ≠ 'g' := by
    rintro rfl
    cases hAlpha
  have hZero : c ≠ '0' := by
    rintro rfl
    cases hDigit
  simp [piece, hg, hZero, hDigit, hNone, hAlpha]

/-! ## Texts that stand for themselves -/

theorem parseTemplate_cons {n : Nat} {c : Char} {t : Text} {parts : List Part} :
    parseTemplate groups groupIndex (n + 1) (c :: t) = some parts ↔
      ∃ p rest parts', piece groups groupIndex (c :: t) = some (p, rest) ∧
        parseTemplate groups groupIndex n rest = some parts' ∧ parts = p :: parts' := by
  rw [parseTemplate.eq_3 _ _ _ _ (by simp), Option.bind_eq_some_iff]
  constructor
  · rintro ⟨⟨p, rest⟩, hPiece, hRest⟩
    obtain ⟨parts', hParts, rfl⟩ := Option.map_eq_some_iff.mp hRest
    exact ⟨p, rest, parts', hPiece, hParts, rfl⟩
  · rintro ⟨p, rest, parts', hPiece, hParts, rfl⟩
    exact ⟨(p, rest), hPiece, Option.map_eq_some_iff.mpr ⟨parts', hParts, rfl⟩⟩

theorem parseTemplate_verbatim {t : Text} (h : verbatim t = true) {n : Nat} (hn : t.length ≤ n) :
    ∃ parts, parseTemplate groups groupIndex n t = some parts ∧ ∀ group, fill group parts = t := by
  induction t using verbatim.induct generalizing n with
  | case1 => exact ⟨[], by rw [parseTemplate], fun _ => rfl⟩
  | case2 => cases h
  | case3 c t ih =>
    rw [verbatim, Bool.and_eq_true] at h
    cases n with
    | zero => exact absurd hn (Nat.not_succ_le_zero _)
    | succ n =>
      rw [List.length_cons, List.length_cons] at hn
      obtain ⟨parts, hParts, hFill⟩ := ih h.2 (n := n) (by omega)
      refine ⟨_, parseTemplate_cons.mpr ⟨_, _, parts, piece_kept h.1 t, hParts, rfl⟩, fun group => ?_⟩
      rw [fill, List.flatMap_cons, ← fill, hFill]
      rfl
  | case4 c t hNe₁ hNe₂ ih =>
    have hc : c ≠ '\\' := by
      rintro rfl
      cases t with
      | nil => exact hNe₁ rfl rfl
      | cons d t => exact hNe₂ d t rfl rfl
    rw [verbatim] at h
    · cases n with
      | zero => exact absurd hn (Nat.not_succ_le_zero _)
      | succ n =>
        obtain ⟨parts, hParts, hFill⟩ := ih h (n := n) (Nat.le_of_succ_le_succ hn)
        refine ⟨_, parseTemplate_cons.mpr ⟨_, _, parts, piece_plain hc t, hParts, rfl⟩, fun group => ?_⟩
        rw [fill, List.flatMap_cons, ← fill, hFill]
        rfl
    all_goals assumption

/-! ## Texts that do not -/

/-- Text that has no mark cannot make up for a group, which has one and no backslash before it. -/
theorem group_ne {mark : Char} {front d back rest : Text} (hFront : '\\' ∉ front)
    (hMark : mark ≠ '\\') (hd : mark ∉ d) : front ++ mark :: back ≠ d ++ '\\' :: rest := by
  induction front generalizing d with
  | nil =>
    intro hEq
    cases d with
    | nil => exact hMark (List.cons.inj hEq).1
    | cons x d => exact hd (List.mem_cons.mpr (.inl (List.cons.inj hEq).1))
  | cons c front ih =>
    intro hEq
    cases d with
    | nil => exact hFront (List.mem_cons.mpr (.inl (List.cons.inj hEq).1.symm))
    | cons x d =>
      refine ih (fun h => hFront (List.mem_cons_of_mem _ h)) (fun h => hd (List.mem_cons_of_mem _ h)) ?_
      exact (List.cons.inj hEq).2

/-- What a template stands for never catches up with it, once it lags behind. -/
theorem fill_ne_of_lag {mark : Char} (hMark : isEscape mark = false) {group : Nat → Text}
    (hGroup : ∀ n ≤ groups, ∃ front back, group n = front ++ mark :: back ∧ '\\' ∉ front)
    {n : Nat} {t lag after rest : Text} {parts : List Part}
    (h : parseTemplate groups groupIndex n t = some parts) (hLag : lag ≠ []) (hm : mark ∉ lag)
    (hLine : '\n' ∉ lag) (hAfter : after.head?.all (· = '\n') = true) :
    fill group parts ++ after ≠ lag ++ (t ++ rest) := by
  have hSlash : mark ≠ '\\' := by
    rintro rfl
    cases hMark
  have hNil : ∀ {lag : Text}, lag ≠ [] → '\n' ∉ lag → ([] : Text) ++ after ≠ lag ++ ([] ++ rest) := by
    intro lag hLag hLine hEq
    cases lag with
    | nil => exact hLag rfl
    | cons c lag =>
      have hHead : after = c :: (lag ++ rest) := hEq
      rw [hHead] at hAfter
      exact hLine (List.mem_cons.mpr (.inl (of_decide_eq_true hAfter).symm))
  induction n generalizing t lag parts with
  | zero =>
    cases t with
    | nil =>
      rw [parseTemplate] at h
      cases h
      exact hNil hLag hLine
    | cons c t => cases h
  | succ n ih =>
    cases t with
    | nil =>
      rw [parseTemplate] at h
      cases h
      exact hNil hLag hLine
    | cons c t =>
      obtain ⟨p, t', parts, hPiece, hParts, rfl⟩ := parseTemplate_cons.mp h
      rw [fill, List.flatMap_cons, ← fill, List.append_assoc]
      obtain ⟨x, lag, rfl⟩ := List.exists_cons_of_ne_nil hLag
      intro hEq
      generalize hText : c :: t = text at hPiece hEq
      cases piece_reads hPiece with
      | plain c _ hc =>
        have hTail : fill group parts ++ after = (lag ++ [x]) ++ (t' ++ rest) := by
          obtain ⟨rfl, hTail⟩ := List.cons.inj hEq
          simpa using hTail
        refine ih hParts (by simp) ?_ ?_ hTail
        · simpa [or_comm] using hm
        · simpa [or_comm] using hLine
      | kept c _ hc =>
        obtain ⟨rfl, hTail⟩ := List.cons.inj hEq
        cases lag with
        | nil =>
          obtain ⟨rfl, -⟩ := List.cons.inj hTail
          cases hc
        | cons y lag =>
          obtain ⟨rfl, hTail⟩ := List.cons.inj hTail
          have hTail : fill group parts ++ after = (lag ++ ['\\', c]) ++ (t' ++ rest) := by
            simpa using hTail
          refine ih hParts (by simp) ?_ ?_ hTail
          · simp only [List.mem_cons, List.mem_append, not_or] at hm ⊢
            exact ⟨hm.2.2, hm.1, hm.2.1, nofun⟩
          · simp only [List.mem_cons, List.mem_append, not_or] at hLine ⊢
            exact ⟨hLine.2.2, hLine.1, hLine.2.1, nofun⟩
      | escape y code _ hNe hCode =>
        have hTail : fill group parts ++ after = (lag ++ '\\' :: code) ++ (t' ++ rest) := by
          obtain ⟨rfl, hTail⟩ := List.cons.inj hEq
          simpa using hTail
        have hNot : ∀ d, isEscape d = false → d ∉ x :: lag → d ∉ lag ++ '\\' :: code := by
          intro d hd hMem
          have hSlash : d ≠ '\\' := by
            rintro rfl
            cases hd
          simp only [List.mem_cons, List.mem_append, not_or] at hMem ⊢
          refine ⟨hMem.2, hSlash, fun hIn => ?_⟩
          rw [hCode d hIn] at hd
          cases hd
        exact ih hParts (by simp) (hNot mark hMark hm) (hNot '\n' rfl hLine) hTail
      | group k name _ hk =>
        obtain ⟨front, back, hFill, hFront⟩ := hGroup k hk
        refine @group_ne mark front _ (back ++ (fill group parts ++ after)) (name ++ t' ++ rest)
          hFront hSlash hm ?_
        rw [← List.cons_append, ← List.append_assoc, ← hFill]
        simpa [Part.fill] using hEq

/-- A template that gives the text itself at the end of a line is the text. -/
theorem verbatim_of_fill {mark : Char} (hMark : isEscape mark = false) {group : Nat → Text}
    (hGroup : ∀ n ≤ groups, ∃ front back, group n = front ++ mark :: back ∧ '\\' ∉ front)
    {n : Nat} {t after rest : Text} {parts : List Part}
    (h : parseTemplate groups groupIndex n t = some parts)
    (hAfter : after.head?.all (· = '\n') = true) (hFill : fill group parts ++ after = t ++ rest) :
    verbatim t = true := by
  induction n generalizing t parts with
  | zero =>
    cases t with
    | nil => rfl
    | cons c t => cases h
  | succ n ih =>
    cases t with
    | nil => rfl
    | cons c t =>
      obtain ⟨p, t', parts, hPiece, hParts, rfl⟩ := parseTemplate_cons.mp h
      rw [fill, List.flatMap_cons, ← fill, List.append_assoc] at hFill
      generalize c :: t = text at hPiece hFill
      cases piece_reads hPiece with
      | plain c _ hc =>
        rw [verbatim]
        · exact ih hParts (List.cons.inj hFill).2
        · exact fun h => absurd h hc
        · exact fun _ _ h => absurd h hc
      | kept c _ hc =>
        rw [verbatim, hc, Bool.true_and]
        exact ih hParts (List.cons.inj (List.cons.inj hFill).2).2
      | escape y code _ hNe hCode =>
        have hTail : fill group parts ++ after = code ++ (t' ++ rest) := by
          simpa using (List.cons.inj hFill).2
        have hNot : ∀ d, isEscape d = false → d ∉ code := by
          intro d hd hIn
          rw [hCode d hIn] at hd
          cases hd
        exact absurd hTail (fill_ne_of_lag hMark hGroup hParts hNe (hNot mark hMark) (hNot '\n' rfl)
          hAfter)
      | group k name _ hk =>
        obtain ⟨front, back, hEq, hFront⟩ := hGroup k hk
        have hSlash : mark ≠ '\\' := by
          rintro rfl
          cases hMark
        refine absurd ?_ (@group_ne mark front [] (back ++ (fill group parts ++ after))
          (name ++ t' ++ rest) hFront hSlash (by simp))
        rw [← List.cons_append, ← List.append_assoc, ← hEq]
        simpa [Part.fill] using hFill

end Templates

end OpenSpoke.Python
