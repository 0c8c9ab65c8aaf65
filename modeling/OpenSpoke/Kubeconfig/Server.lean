import OpenSpoke.Python.Template

/-!
# The server of a kubeconfig

`_rewrite_server_url`: a substitution for `^(\s*server:\s*).*$` over all lines,
beside the rewriting of single lines that it is for.
-/

namespace OpenSpoke.Kubeconfig

open Python (Text isSpace)

def serverKey : Text := ['s', 'e', 'r', 'v', 'e', 'r', ':']

/-- A match of the pattern: its group, what `.*` takes, and what follows. -/
structure ServerMatch where
  group1 : Text
  value : Text
  rest : Text

def isServer (t : Text) : Bool := serverKey.isPrefixOf (t.dropWhile isSpace)

def afterKey (t : Text) : Text := (t.dropWhile isSpace).drop serverKey.length

/-- `re.match` of the pattern at the beginning of a line. Blanks may be ends of lines. -/
def matchAt (t : Text) : Option ServerMatch :=
  if isServer t then
    let value := (afterKey t).dropWhile isSpace
    some {
      group1 := t.takeWhile isSpace ++ serverKey ++ (afterKey t).takeWhile isSpace
      value := value.takeWhile (· ≠ '\n')
      rest := value.dropWhile (· ≠ '\n') }
  else none

def ServerMatch.group (m : ServerMatch) : Nat → Text
  | 0 => m.group1 ++ m.value
  | _ + 1 => m.group1

/-- What stands at the end of a line stays, and `f` goes on with the next one. -/
def nextLine (f : Text → Text) : Text → Text
  | [] => []
  | c :: t => c :: f t

/-- `pattern.sub` from the beginning of a line; every round takes a line or more. -/
def subFrom (parts : List Python.Part) : Nat → Text → Text
  | 0, t => t
  | n + 1, t =>
    match matchAt t with
    | some m => Python.fill m.group parts ++ nextLine (subFrom parts n) m.rest
    | none => t.takeWhile (· ≠ '\n') ++ nextLine (subFrom parts n) (t.dropWhile (· ≠ '\n'))

/-- The template, which is parsed before anything is matched; none if `re` raises. -/
def overrideTemplate (groupIndex : Text → Option Nat) (override : Text) : Option (List Python.Part) :=
  Python.parseTemplate 1 groupIndex (override.length + 2) ('\\' :: '1' :: override)

def sub (parts : List Python.Part) (t : Text) : Text := subFrom parts (t.length + 1) t

def rewriteServerUrl (groupIndex : Text → Option Nat) (kubeconfigYaml override : Text) :
    Option Text :=
  if override = [] then some kubeconfigYaml
  else (overrideTemplate groupIndex override).map fun parts => sub parts kubeconfigYaml

/-! ## Single lines -/

def rewriteLine (override line : Text) : Text :=
  if isServer line then
    line.takeWhile isSpace ++ serverKey ++ (afterKey line).takeWhile isSpace ++ override
  else line

def lines (t : Text) : List Text := t.splitOn '\n'

def rewriteLines (override t : Text) : Text :=
  ['\n'].intercalate ((lines t).map (rewriteLine override))

/-- A server without a value. -/
def isBlankServer (line : Text) : Bool := isServer line && (afterKey line).all isSpace

/-! ## Texts line by line -/

theorem lines_induction {motive : Text → Prop} (last : ∀ l, '\n' ∉ l → motive l)
    (line : ∀ l t, '\n' ∉ l → motive t → motive (l ++ '\n' :: t)) (t : Text) : motive t := by
  induction hLen : t.length using Nat.strong_induction_on generalizing t with
  | _ n ih =>
    by_cases hMem : '\n' ∈ t
    · obtain ⟨l, t', rfl, hl⟩ := List.eq_append_cons_of_mem hMem
      refine line l t' hl (ih t'.length ?_ t' rfl)
      rw [← hLen, List.length_append, List.length_cons]
      omega
    · exact last t hMem

theorem lines_last {l : Text} (hl : '\n' ∉ l) : lines l = [l] := List.splitOn_eq_singleton hl

theorem lines_cons {l : Text} (hl : '\n' ∉ l) (t : Text) : lines (l ++ '\n' :: t) = l :: lines t := by
  rw [lines, List.splitOn_append_cons_self, List.splitOn_eq_singleton hl]
  rfl

theorem lines_ne_nil (t : Text) : lines t ≠ [] := List.splitOn_ne_nil _ _

theorem rewriteLines_last (override : Text) {l : Text} (hl : '\n' ∉ l) :
    rewriteLines override l = rewriteLine override l := by
  rw [rewriteLines, lines_last hl]
  simp

theorem rewriteLines_cons (override : Text) {l : Text} (hl : '\n' ∉ l) (t : Text) :
    rewriteLines override (l ++ '\n' :: t) =
      rewriteLine override l ++ '\n' :: rewriteLines override t := by
  rw [rewriteLines, lines_cons hl, List.map_cons,
    List.intercalate_cons_of_ne_nil (by simp [lines_ne_nil]), rewriteLines]
  simp

/-! ## Where the key is -/

theorem isServer_eq {t : Text} (h : isServer t = true) :
    t = t.takeWhile isSpace ++ (serverKey ++ afterKey t) := by
  obtain ⟨after, hAfter⟩ := List.isPrefixOf_iff_prefix.mp h
  have hEq : afterKey t = after := by
    rw [afterKey, ← hAfter, List.drop_left]
  rw [hEq, hAfter, List.takeWhile_append_dropWhile]

theorem prefix_line (l t : Text) :
    serverKey.isPrefixOf (l ++ '\n' :: t) = serverKey.isPrefixOf l := by
  rw [Bool.eq_iff_iff, List.isPrefixOf_iff_prefix, List.isPrefixOf_iff_prefix]
  constructor
  · intro h
    obtain hLe | hGt := Nat.lt_or_ge l.length serverKey.length
    · have hLine : l ++ ['\n'] <+: l ++ '\n' :: t := ⟨t, by simp⟩
      have hIn : l ++ ['\n'] <+: serverKey := by
        refine List.prefix_of_prefix_length_le hLine h ?_
        rw [List.length_append, List.length_singleton]
        omega
      have hMem : '\n' ∈ serverKey := hIn.mem (by simp)
      exact absurd hMem (by decide)
    · exact List.prefix_of_prefix_length_le h (List.prefix_append _ _) hGt
  · intro h
    exact h.trans (List.prefix_append _ _)

/-- What stands after a line. -/
def AtEnd (rest : Text) : Prop := rest.head?.all (· = '\n') = true

theorem AtEnd.nil : AtEnd [] := rfl

theorem AtEnd.newline (t : Text) : AtEnd ('\n' :: t) := rfl

theorem AtEnd.cases {rest : Text} (h : AtEnd rest) : rest = [] ∨ ∃ t, rest = '\n' :: t := by
  cases rest with
  | nil => exact .inl rfl
  | cons c t =>
    have hc : c = '\n' := of_decide_eq_true h
    exact .inr ⟨t, by rw [hc]⟩

theorem AtEnd.dropWhile (t : Text) : AtEnd (t.dropWhile (· ≠ '\n')) := by
  rw [AtEnd]
  cases hDrop : t.dropWhile (· ≠ '\n') with
  | nil => rfl
  | cons c rest =>
    have hc := List.head_dropWhile_not (l := t) (fun c : Char => decide (c ≠ '\n'))
      (hDrop ▸ List.cons_ne_nil c rest)
    simp only [hDrop, List.head_cons, decide_eq_false_iff_not, not_not] at hc
    simp [hc]

theorem takeWhile_line {l rest : Text} (hl : '\n' ∉ l) (h : AtEnd rest) :
    (l ++ rest).takeWhile (· ≠ '\n') = l := by
  rw [List.takeWhile_append_of_pos fun c hc => by simpa using ne_of_mem_of_not_mem hc hl]
  obtain rfl | ⟨t, rfl⟩ := h.cases <;> simp

theorem dropWhile_line {l rest : Text} (hl : '\n' ∉ l) (h : AtEnd rest) :
    (l ++ rest).dropWhile (· ≠ '\n') = rest := by
  rw [List.dropWhile_append_of_pos fun c hc => by simpa using ne_of_mem_of_not_mem hc hl]
  obtain rfl | ⟨t, rfl⟩ := h.cases <;> simp

theorem dropWhile_space {l : Text} (h : l.all isSpace = false) (rest : Text) :
    (l ++ rest).dropWhile isSpace = l.dropWhile isSpace ++ rest := by
  obtain ⟨c, hc, hNot⟩ := List.all_eq_false.mp h
  rw [List.dropWhile_append, if_neg]
  rw [List.isEmpty_iff, List.dropWhile_eq_nil_iff]
  exact fun hAll => hNot (hAll c hc)

theorem takeWhile_space {l : Text} (h : l.all isSpace = false) (rest : Text) :
    (l ++ rest).takeWhile isSpace = l.takeWhile isSpace := by
  obtain ⟨c, hc, hNot⟩ := List.all_eq_false.mp h
  rw [List.takeWhile_append, if_neg]
  intro hLength
  have hAll := (List.takeWhile_prefix isSpace).eq_of_length hLength
  rw [List.takeWhile_eq_self_iff] at hAll
  exact hNot (hAll c hc)

theorem not_isServer_of_blank {l : Text} (h : l.all isSpace = true) : isServer l = false := by
  have hDrop : l.dropWhile isSpace = [] := by
    rw [List.dropWhile_eq_nil_iff]
    exact List.all_eq_true.mp h
  rw [isServer, hDrop]
  rfl

theorem not_blank_of_isServer {l : Text} (h : isServer l = true) : l.all isSpace = false := by
  rw [← Bool.not_eq_true]
  intro hAll
  rw [not_isServer_of_blank hAll] at h
  cases h

section Line

variable {l rest : Text}

theorem mem_dropWhile_space (hl : '\n' ∉ l) : '\n' ∉ l.dropWhile isSpace :=
  fun h => hl ((List.dropWhile_suffix _).mem h)

theorem isServer_line (hRest : AtEnd rest) (h : l.all isSpace = false) :
    isServer (l ++ rest) = isServer l := by
  rw [isServer, dropWhile_space h, isServer]
  obtain rfl | ⟨t, rfl⟩ := hRest.cases
  · rw [List.append_nil]
  · exact prefix_line _ t

theorem afterKey_line (h : isServer l = true) : afterKey (l ++ rest) = afterKey l ++ rest := by
  obtain ⟨after, hAfter⟩ := List.isPrefixOf_iff_prefix.mp h
  rw [afterKey, dropWhile_space (not_blank_of_isServer h), afterKey, ← hAfter, List.append_assoc,
    List.drop_left, List.drop_left]

theorem mem_afterKey (hl : '\n' ∉ l) : '\n' ∉ afterKey l :=
  fun h => mem_dropWhile_space hl (List.mem_of_mem_drop h)

end Line

/-! ## Matches on lines -/

/-- Blank lines belong to the match that they lead to. -/
theorem matchAt_blank {l : Text} (h : l.all isSpace = true) (t : Text) :
    matchAt (l ++ '\n' :: t) =
      (matchAt t).map fun m => { m with group1 := l ++ '\n' :: m.group1 } := by
  have hAll : ∀ c ∈ l, isSpace c = true := List.all_eq_true.mp h
  have hDrop : (l ++ '\n' :: t).dropWhile isSpace = t.dropWhile isSpace :=
    List.dropWhile_append_of_pos hAll
  have hTake : (l ++ '\n' :: t).takeWhile isSpace = l ++ '\n' :: t.takeWhile isSpace :=
    List.takeWhile_append_of_pos hAll
  have hKey : afterKey (l ++ '\n' :: t) = afterKey t := by rw [afterKey, hDrop, afterKey]
  have hServer : isServer (l ++ '\n' :: t) = isServer t := by rw [isServer, hDrop, isServer]
  rw [matchAt, matchAt, hServer]
  split
  · simp [hKey, hTake]
  · rfl

theorem matchAt_value {l rest : Text} (hl : '\n' ∉ l) (hRest : AtEnd rest)
    (h : isServer l = true) (hValue : (afterKey l).all isSpace = false) :
    matchAt (l ++ rest) =
      some ⟨l.takeWhile isSpace ++ serverKey ++ (afterKey l).takeWhile isSpace,
        (afterKey l).dropWhile isSpace, rest⟩ := by
  have hBlank := not_blank_of_isServer h
  have hMem : '\n' ∉ (afterKey l).dropWhile isSpace := mem_dropWhile_space (mem_afterKey hl)
  rw [matchAt, isServer_line hRest hBlank, if_pos h, takeWhile_space hBlank, afterKey_line h,
    takeWhile_space hValue, dropWhile_space hValue]
  simp only [takeWhile_line hMem hRest, dropWhile_line hMem hRest]

/-! ## What the substitution does -/

theorem nextLine_congr {f g : Text → Text} {t : Text} (h : ∀ c u, t = c :: u → f u = g u) :
    nextLine f t = nextLine g t := by
  cases t with
  | nil => rfl
  | cons c u => rw [nextLine, nextLine, h c u rfl]

theorem matchAt_length {t : Text} {m : ServerMatch} (h : matchAt t = some m) :
    m.rest.length ≤ t.length := by
  rw [matchAt] at h
  split at h <;> cases h
  have hRest := (List.dropWhile_suffix (fun c : Char => decide (c ≠ '\n'))
    (l := (afterKey t).dropWhile isSpace)).length_le
  have hValue := (List.dropWhile_suffix isSpace (l := afterKey t)).length_le
  have hKey := (List.drop_suffix serverKey.length (t.dropWhile isSpace)).length_le
  have hFound := (List.dropWhile_suffix isSpace (l := t)).length_le
  exact hRest.trans (hValue.trans (hKey.trans hFound))

theorem subFrom_congr (parts : List Python.Part) {n m : Nat} {t : Text} (hn : t.length < n)
    (hm : t.length < m) : subFrom parts n t = subFrom parts m t := by
  induction n generalizing m t with
  | zero => omega
  | succ n ih =>
    cases m with
    | zero => omega
    | succ m =>
      rw [subFrom, subFrom]
      have hNext : ∀ {rest : Text}, rest.length ≤ t.length →
          nextLine (subFrom parts n) rest = nextLine (subFrom parts m) rest := by
        intro rest hLe
        refine nextLine_congr fun c u hEq => ih ?_ ?_ <;>
        · rw [hEq, List.length_cons] at hLe
          omega
      cases hMatch : matchAt t with
      | none =>
        dsimp only
        rw [hNext (List.dropWhile_suffix _).length_le]
      | some match_ =>
        dsimp only
        rw [hNext (matchAt_length hMatch)]

theorem sub_eq (parts : List Python.Part) (t : Text) :
    sub parts t =
      match matchAt t with
      | some m => Python.fill m.group parts ++ nextLine (sub parts) m.rest
      | none => t.takeWhile (· ≠ '\n') ++ nextLine (sub parts) (t.dropWhile (· ≠ '\n')) := by
  have hNext : ∀ {rest : Text}, rest.length ≤ t.length →
      nextLine (subFrom parts t.length) rest = nextLine (sub parts) rest := by
    intro rest hLe
    refine nextLine_congr fun c u hEq => subFrom_congr parts ?_ (Nat.lt_succ_self _)
    rw [hEq, List.length_cons] at hLe
    omega
  rw [sub, subFrom]
  cases hMatch : matchAt t with
  | none =>
    dsimp only
    rw [hNext (List.dropWhile_suffix _).length_le]
  | some m =>
    dsimp only
    rw [hNext (matchAt_length hMatch)]

end OpenSpoke.Kubeconfig
