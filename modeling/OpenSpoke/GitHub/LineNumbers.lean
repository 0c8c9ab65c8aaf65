import Mathlib.Algebra.GroupWithZero.Nat
import OpenSpoke.GitHub.LiteralBlock
import OpenSpoke.GitHub.StrReplace
import OpenSpoke.Lib.Segments

/-!
# Line numbers

Some tools report the numbers of lines, others take them. They cut a text into lines in
three ways: at `\n`, as `str.splitlines` does, and as Python reads its sources.
-/

namespace OpenSpoke.GitHub

open Python (Text)
open Segments

/-! ## Lines -/

/-- `text.split('\n')`. -/
def newline : Rule Char := fun c _ => c = '\n'

/-- `text.splitlines()`. -/
def anyBreak : Rule Char := fun c next => Python.isLineBreak c && !(c = '\r' && next = some '\n')

/-- The lines of a Python source. -/
def sourceBreak : Rule Char := fun c next => c = '\n' || (c = '\r' && !(next = some '\n'))

/-- A segment without what ends it. -/
def bare (isEnd : Text → Bool) : Text → Text
  | [] => []
  | c :: t => if isEnd (c :: t) then [] else c :: bare isEnd t

def newlineEnd (t : Text) : Bool := t = ['\n']

def breakEnd (t : Text) : Bool := t = ['\r', '\n'] || (t.length = 1 && t.all Python.isLineBreak)

/-- The line a place is in, with its number. -/
def LineAt (rule : Rule Char) (isEnd : Text → Bool) (text : Text) (p n : Nat) (line : Text) : Prop :=
  ∃ before seg, Within rule text p before seg ∧ n = before.length + 1 ∧ line = bare isEnd seg

/-- The only line separators before another character are `\n` and `\r\n`. -/
def PlainBreaks (text : Text) : Prop :=
  ∀ front c next rest, text = front ++ c :: next :: rest → Python.isLineBreak c = true →
    c = '\n' ∨ (c = '\r' ∧ next = '\n')

theorem anyBreak_of_not_pair {c : Char} {text : Text} (hBreak : Python.isLineBreak c = true)
    (hPair : ∀ rest, c = '\r' → text = '\n' :: rest → False) : anyBreak c text.head? = true := by
  rw [anyBreak, hBreak, Bool.true_and, Bool.not_eq_true', Bool.and_eq_false_imp]
  intro hc
  rw [decide_eq_true_eq] at hc
  rw [decide_eq_false_iff_not, List.head?_eq_some_iff]
  rintro ⟨rest, hRest⟩
  exact hPair rest hc hRest

theorem breakEnd_cons {c : Char} {t : Text} (h : Python.isLineBreak c = false) :
    breakEnd (c :: t) = false := by
  have hc : c ≠ '\r' := by
    rintro rfl
    cases h
  simp [breakEnd, h, hc]

theorem splitlines_eq (text : Text) :
    Python.splitlines text = (segments anyBreak text).map (bare breakEnd) := by
  fun_induction Python.splitlines text with
  | case1 => rfl
  | case2 text ih =>
    have hRest : segments anyBreak ('\n' :: text) = ['\n'] :: segments anyBreak text := by
      rw [segments, if_pos (by simp [anyBreak, Python.isLineBreak])]
    rw [ih, segments, if_neg (by simp [anyBreak]), hRest]
    rfl
  | case3 c text hPair hBreak ih =>
    have hBare : bare breakEnd [c] = [] := if_pos (by simp [breakEnd, hBreak])
    rw [ih, segments, if_pos (anyBreak_of_not_pair hBreak hPair), List.map_cons, hBare]
  | case4 c text hPair hBreak hNil ih =>
    have hNone : anyBreak c text.head? = false := by simp [anyBreak, hBreak]
    have hSegs := List.map_eq_nil_iff.mp (ih.symm.trans hNil)
    rw [segments, if_neg (by simp [hNone]), hSegs]
    rw [Bool.not_eq_true] at hBreak
    rw [List.map_singleton, bare, breakEnd_cons hBreak]
    rfl
  | case5 c text hPair hBreak line rest hRest ih =>
    have hNone : anyBreak c text.head? = false := by simp [anyBreak, hBreak]
    rw [hRest] at ih
    obtain ⟨seg, segs, hSegs, rfl, rfl⟩ := List.map_eq_cons_iff.mp ih.symm
    rw [segments, if_neg (by simp [hNone]), hSegs]
    rw [Bool.not_eq_true] at hBreak
    rw [List.map_cons, bare, breakEnd_cons hBreak]
    rfl

theorem lines_eq (text : Text) :
    ∃ last, lines text = (segments newline text).map (bare newlineEnd) ++ last := by
  induction text with
  | nil => exact ⟨[[]], rfl⟩
  | cons c text ih =>
    obtain ⟨last, ih⟩ := ih
    rw [lines_cons, segments]
    by_cases hc : c = '\n'
    · subst hc
      refine ⟨last, ?_⟩
      rw [if_pos rfl, ih]
      rfl
    · have hEnd : newline c text.head? = false := by simp [newline, hc]
      rw [if_neg hc, if_neg (by simp [hEnd])]
      have hBare : ∀ seg, bare newlineEnd (c :: seg) = c :: bare newlineEnd seg := by
        intro seg
        rw [bare, if_neg (by simp [newlineEnd, hc])]
      split
      · rename_i hNil
        obtain rfl := segments_eq_nil_iff.mp hNil
        refine ⟨[], ?_⟩
        rw [List.map_singleton, hBare]
        rfl
      · rename_i seg segs hSegs
        refine ⟨last, ?_⟩
        rw [ih, hSegs, List.map_cons, List.map_cons, hBare]
        rfl

theorem number_newline (text : Text) (p : Nat) :
    number newline text p = Python.lineAt text p := by
  induction p with
  | zero => rfl
  | succ p ih =>
    rw [number_succ, ih, Python.lineAt, Python.lineAt, List.take_add_one, List.count_append, endsAt]
    cases text[p]? with
    | none => rfl
    | some c =>
      simp [newline, List.count_singleton]
      omega

/-! ## Tools that take a number -/

/-- `github_get_file_range`, which shows the lines with their numbers. -/
def getFileRange (text : Text) (startLine endLine : Int) : Option (List (Text × Nat)) :=
  let all := Python.splitlines text
  if startLine < 1 ∨ endLine < startLine ∨ 5000 < endLine - startLine ∨ all.length < startLine then
    none
  else
    let actualEnd := min endLine all.length
    some (((all.take actualEnd.toNat).drop (startLine - 1).toNat).zipIdx startLine.toNat)

/-- The tools, given a number twice, act on the line that a place is in. -/
structure ActsOn (text : Text) (n p : Nat) : Prop where
  fileRange : ∃ k line, LineAt anyBreak breakEnd text p k line ∧
    getFileRange text n n = some [(line, k)]
  regexReplace : ∀ r : RegexReplace, r.startLine = n → r.endLine = n →
    ∃ k line front back, LineAt newline newlineEnd text p k line ∧
      lines text = front ++ line :: back ∧ front.length + 1 = k ∧
      (r.loop 1 0 (lines text)).1 = front ++ (r.loop k 0 [line]).1 ++ back
  moveBlock : ∃ k line, LineAt newline newlineEnd text p k line ∧
    (BlockRange.lines n n).bounds (lines text) = some (k - 1, k - 1) ∧
    (lines text)[k - 1]? = some line

theorem exists_lineAt (rule : Rule Char) (isEnd : Text → Bool) {text : Text} {p : Nat}
    (hp : p < text.length) : ∃ line front back,
      LineAt rule isEnd text p (number rule text p) line ∧
      (segments rule text).map (bare isEnd) = front ++ line :: back ∧
      front.length + 1 = number rule text p := by
  obtain ⟨before, seg, hWithin⟩ := exists_within (r := rule) hp
  have hNumber := hWithin.number_eq
  obtain ⟨after, hCut⟩ := hWithin.cut
  refine ⟨bare isEnd seg, before.map (bare isEnd), after.map (bare isEnd),
    ⟨before, seg, hWithin, hNumber, rfl⟩, ?_, ?_⟩
  · rw [hCut, List.map_append, List.map_cons]
  · rw [List.length_map, hNumber]

theorem LineAt.number_eq {rule : Rule Char} {isEnd : Text → Bool} {text : Text} {p n : Nat}
    {line : Text} (h : LineAt rule isEnd text p n line) : n = number rule text p := by
  obtain ⟨before, seg, hWithin, rfl, -⟩ := h
  exact hWithin.number_eq.symm

theorem getFileRange_one {text line : Text} {front back : List Text} {n : Nat}
    (hLines : Python.splitlines text = front ++ line :: back) (hn : front.length + 1 = n) :
    getFileRange text n n = some [(line, n)] := by
  have hTotal : (front ++ line :: back).length = front.length + back.length + 1 := by
    rw [List.length_append, List.length_cons]
    omega
  have hTake : (min (n : Int) (front ++ line :: back).length).toNat = front.length + 1 := by
    rw [hTotal]
    omega
  have hDrop : ((n : Int) - 1).toNat = front.length := by omega
  rw [getFileRange, hLines, if_neg]
  · simp only [hTake, hDrop, Int.toNat_natCast]
    rw [List.take_length_add_append, List.drop_left, List.take_succ_cons, List.take_zero]
    rfl
  · rw [hTotal]
    omega

theorem getFileRange_first {text line : Text} {startLine endLine : Int} {k : Nat}
    {rest : List (Text × Nat)} (h : getFileRange text startLine endLine = some ((line, k) :: rest)) :
    (k : Int) = startLine := by
  rw [getFileRange] at h
  split at h
  · cases h
  · rename_i hRange
    have hShown := Option.some.inj h
    rw [List.zipIdx_eq_cons_iff] at hShown
    obtain ⟨_, _, _, hFirst, _⟩ := hShown
    have hk := congrArg Prod.snd hFirst
    simp only at hk
    omega

namespace RegexReplace

variable (r : RegexReplace)

theorem loop_front {front : List Text} (rest : List Text) {no : Int} (total : Nat)
    (hStart : r.startLine ≠ 0) (h : no + front.length ≤ r.startLine) :
    (r.loop no total (front ++ rest)).1 =
      front ++ (r.loop (no + front.length) total rest).1 := by
  induction front generalizing no with
  | nil => simp
  | cons line front ih =>
    rw [List.length_cons, Int.natCast_add, Int.natCast_one] at h ⊢
    have hSkip : r.skips no line = true := by
      have hLow : no < r.startLine := by omega
      simp [skips, hStart, hLow]
    have hRest := @ih (no + 1) (by omega)
    rw [Int.add_assoc, Int.add_comm 1] at hRest
    rw [List.cons_append, loop, if_pos hSkip]
    exact congrArg (line :: ·) hRest

theorem loop_back {back : List Text} {no : Int} (total : Nat) (hEnd : r.endLine ≠ 0)
    (h : r.endLine < no) : (r.loop no total back).1 = back := by
  induction back generalizing no with
  | nil => rfl
  | cons line back ih =>
    have hSkip : r.skips no line = true := by simp [skips, hEnd, h]
    rw [loop, if_pos hSkip]
    exact congrArg (line :: ·) (ih (by omega))

theorem loop_one {front back : List Text} (line : Text) {n : Nat} (hn : front.length + 1 = n)
    (hStart : r.startLine = n) (hEnd : r.endLine = n) :
    (r.loop 1 0 (front ++ line :: back)).1 = front ++ (r.loop n 0 [line]).1 ++ back := by
  have hNo : (1 : Int) + front.length = n := by omega
  rw [loop_front r _ 0 (by omega) (by omega), hNo, List.append_assoc]
  congr 1
  rw [loop, loop]
  split
  · exact congrArg (line :: ·) (loop_back r 0 (by omega) (by omega))
  · split
    · rfl
    · exact congrArg (_ :: ·) (loop_back r _ (by omega) (by omega))

end RegexReplace

theorem bounds_one {front back : List Text} (line : Text) {n : Nat} (hn : front.length + 1 = n) :
    (BlockRange.lines n n).bounds (front ++ line :: back) = some (n - 1, n - 1) := by
  rw [BlockRange.bounds, if_neg]
  · simp
  · simp
    omega

theorem actsOn_iff {text : Text} {n p : Nat} (hp : p < text.length) :
    ActsOn text n p ↔ number anyBreak text p = n ∧ Python.lineAt text p = n := by
  constructor
  · rintro ⟨⟨k, line, hBreak, hRange⟩, -, ⟨j, line', hLine, hBounds, -⟩⟩
    have hk := getFileRange_first hRange
    rw [BlockRange.bounds] at hBounds
    split at hBounds
    · cases hBounds
    · rename_i hNo
      have hj := congrArg Prod.fst (Option.some.inj hBounds)
      have hFirst := hLine.number_eq
      rw [number_newline] at hFirst
      have hPos : 1 ≤ j := by
        obtain ⟨before, seg, -, rfl, -⟩ := hLine
        omega
      rw [← hBreak.number_eq, ← hFirst]
      simp only at hj
      omega
  · rintro ⟨hBreak, hLine⟩
    rw [← number_newline] at hLine
    obtain ⟨line, front, back, hAt, hLines, hFront⟩ := exists_lineAt anyBreak breakEnd hp
    obtain ⟨line', front', back', hAt', hLines', hFront'⟩ := exists_lineAt newline newlineEnd hp
    obtain ⟨last, hAll⟩ := lines_eq text
    rw [← splitlines_eq] at hLines
    rw [hLines', List.append_assoc, List.cons_append] at hAll
    rw [hBreak] at hAt hFront
    rw [hLine] at hAt' hFront'
    constructor
    · exact ⟨n, line, hAt, getFileRange_one hLines hFront⟩
    · intro r hStart hEnd
      refine ⟨n, line', front', back' ++ last, hAt', hAll, hFront', ?_⟩
      rw [hAll, r.loop_one line' hFront' hStart hEnd]
    · refine ⟨n, line', hAt', ?_, ?_⟩
      · rw [hAll, bounds_one line' hFront']
      · have hIndex : n - 1 = front'.length := by omega
        rw [hAll, hIndex, List.getElem?_append_right (Nat.le_refl _), Nat.sub_self]
        rfl

/-! ## Tools that report numbers -/

/-- `github_grep_file`. -/
def grepFile (rx : Text → Bool) (maxMatches : Nat) (text : Text) : List Nat :=
  ((((Python.splitlines text).zipIdx 1).filter fun l => rx l.1).map Prod.snd).take maxMatches

/-- `grep-tree` on a file; each number comes with the place of the match. -/
def grepTree (finditer : Text → List Nat) (maxPerFile : Nat) (text : Text) : List (Nat × Nat) :=
  ((finditer text).take maxPerFile).map fun p => (Python.lineAt text p, p)

/-- The numbers that `str-replace-dryrun` lists, with the places. -/
def dryrunMatches (oldStr text : Text) : List (Nat × Nat) :=
  ((Occurrences.places oldStr text).take 20).map fun p => (Python.lineAt text p, p)

/-- `ast.parse`: the places of the first and of the last characters of the definitions, with
their decorators, in a source that parses. -/
abbrev Ast := (source : Text) → Option (List (Fin source.length))

/-- `_gh_python_outline`. -/
def pythonOutline (ast : Ast) (source : Text) (lineOffset : Nat) : List (Nat × Nat) :=
  ((ast source).getD []).map fun p => (number sourceBreak source p + lineOffset, p)

/-- A document, with the place of its first and of its last character if it has a kind, and the
places of its keys. -/
structure YamlDoc (text : Text) where
  resource : Option (Fin text.length × Fin text.length)
  keys : List (Text × Fin text.length)

/-- `yaml.safe_load_all`. -/
abbrev Yaml := (text : Text) → Option (List (YamlDoc text))

def headsKey (key line : Text) : Bool :=
  indentOf line = 0 && (key ++ [':']).isPrefixOf line &&
    (line.drop (key.length + 1)).head?.all fun c => c = ' ' || c = '\n' || c = '|' || c = '>'

def keyLine (key : Text) (ls : List Text) : Nat :=
  ((ls.findIdx? (headsKey key)).map (· + 1)).getD 1

/-- `_gh_yaml_outline`. -/
def yamlOutline (yaml : Yaml) (text : Text) : List (Nat × Nat) :=
  ((yaml text).getD []).flatMap fun doc =>
    (doc.resource.toList.flatMap fun r => [(1, r.1.val), ((lines text).length, r.2.val)]) ++
      doc.keys.map fun k => (keyLine k.1 (lines text), k.2.val)

def lineStart (ls : List Text) (k : Nat) : Nat := ((ls.take k).map fun l => l.length + 1).sum

/-- A place of the Python in a block, and where it was in the text. -/
def Origin (text : Text) (b : Block) (p' p : Nat) : Prop :=
  ∃ k line col, (b.content text)[k]? = some line ∧ col < (dedent b.contentIndent line).length ∧
    p' = lineStart ((b.content text).map (dedent b.contentIndent)) k + col ∧
    p = lineStart (lines text) (b.contentStartLine - 1 + k) +
      (line.length - (dedent b.contentIndent line).length) + col

/-- A tool reports a number for what is at a place; `get-symbol` takes it from the outline. -/
inductive Reports (ast : Ast) (yaml : Yaml) (text : Text) : (n p : Nat) → Prop
  | grepFile {rx maxMatches n p line} : n ∈ grepFile rx maxMatches text →
      LineAt anyBreak breakEnd text p n line → Reports ast yaml text n p
  | grepTree {finditer maxPerFile n p} : (n, p) ∈ grepTree finditer maxPerFile text →
      Reports ast yaml text n p
  | dryrun {oldStr n p} : (n, p) ∈ dryrunMatches oldStr text → Reports ast yaml text n p
  | python {n p} : (n, p) ∈ pythonOutline ast text 0 → Reports ast yaml text n p
  | pythonInYaml {b n p' p} : findLiteralBlock text = some b →
      (n, p') ∈ pythonOutline ast (extractPython text b) (b.contentStartLine - 1) →
      Origin text b p' p → Reports ast yaml text n p
  | yaml {n p} : (n, p) ∈ yamlOutline yaml text → Reports ast yaml text n p

/-- The line of a key is the first that looks like it, or the first line if none does. -/
def KeyFound (text key : Text) (p : Nat) : Prop :=
  (∃ front line back, lines text = front ++ line :: back ∧
      Python.lineAt text p = front.length + 1 ∧ headsKey key line = true ∧
      ∀ l ∈ front, headsKey key l = false) ∨
    (Python.lineAt text p = 1 ∧ ∀ l ∈ lines text, headsKey key l = false)

/-- What a text read as YAML must be like. -/
structure PlainYaml (yaml : Yaml) (text : Text) : Prop where
  whole : ∀ docs, yaml text = some docs → ∀ doc ∈ docs, ∀ r, doc.resource = some r →
    Python.lineAt text r.1 = 1 ∧ Python.lineAt text r.2 = (lines text).length
  keys : ∀ docs, yaml text = some docs → ∀ doc ∈ docs, ∀ k ∈ doc.keys, KeyFound text k.1 k.2

theorem keyLine_eq_iff (text key : Text) (p : Nat) :
    keyLine key (lines text) = Python.lineAt text p ↔ KeyFound text key p := by
  rw [keyLine, KeyFound]
  cases hFind : (lines text).findIdx? (headsKey key) with
  | none =>
    rw [List.findIdx?_eq_none_iff] at hFind
    constructor
    · intro h
      exact .inr ⟨h.symm, hFind⟩
    · rintro (⟨front, line, back, hLines, -, hKey, -⟩ | ⟨hOne, -⟩)
      · rw [hFind line (by simp [hLines])] at hKey
        cases hKey
      · exact hOne.symm
  | some i =>
    obtain ⟨hi, hKey, hBefore⟩ := List.findIdx?_eq_some_iff_getElem.mp hFind
    constructor
    · intro h
      refine .inl ⟨(lines text).take i, (lines text)[i], (lines text).drop (i + 1), ?_, ?_, hKey, ?_⟩
      · rw [← List.drop_eq_getElem_cons hi, List.take_append_drop]
      · rw [List.length_take, Nat.min_eq_left (Nat.le_of_lt hi)]
        exact h.symm
      · intro l hl
        obtain ⟨j, hj, rfl⟩ := List.getElem_of_mem hl
        rw [List.length_take] at hj
        rw [List.getElem_take]
        simpa using hBefore j (by omega)
    · rintro (⟨front, line, back, hLines, hAt, hHere, hFront⟩ | ⟨-, hNone⟩)
      · rw [hLines, List.findIdx?_append, List.findIdx?_eq_none_iff.mpr hFront, List.findIdx?_cons,
          hHere] at hFind
        obtain rfl : front.length = i := by simpa using hFind
        exact hAt.symm
      · rw [hNone _ (List.getElem_mem hi)] at hKey
        cases hKey

/-! ## Numbers of lines within a text -/

/-- A rule ends nothing within a line, whatever comes behind a `\n`. -/
def Quiet (rule : Rule Char) (line : Text) : Prop :=
  ∀ t q, q < line.length → endsAt rule (line ++ '\n' :: t) q = false

theorem number_unlines {rule : Rule Char} (hRule : ∀ next, rule '\n' next = true) {ls : List Text}
    (hQuiet : ∀ l ∈ ls, Quiet rule l) {k col : Nat} {line : Text} (hLine : ls[k]? = some line)
    (hCol : col < line.length) : number rule (unlines ls) (lineStart ls k + col) = k + 1 := by
  induction ls generalizing k with
  | nil => simp at hLine
  | cons l ls ih =>
    cases k with
    | zero =>
      obtain rfl := Option.some.inj hLine
      obtain ⟨t, ht⟩ : ∃ t, unlines (l :: ls) = l ++ t := by
        cases ls with
        | nil => exact ⟨[], by rw [unlines, List.intercalate_singleton, List.append_nil]⟩
        | cons l' ls => exact ⟨_, unlines_cons_cons l l' ls⟩
      have hStart : lineStart (l :: ls) 0 + col = col := Nat.zero_add col
      rw [hStart, ht]
      refine number_eq_one fun q hq => ?_
      have hEnds := hQuiet l List.mem_cons_self [] q (by omega)
      rwa [endsAt_append _ (by omega)] at hEnds ⊢
    | succ k =>
      cases ls with
      | nil => simp at hLine
      | cons l' ls =>
        have hRest := ih (fun x hx => hQuiet x (List.mem_cons_of_mem l hx)) hLine
        have hStart : lineStart (l :: l' :: ls) (k + 1) + col =
            (l ++ ['\n']).length + (lineStart (l' :: ls) k + col) := by
          rw [lineStart, lineStart, List.take_succ_cons, List.map_cons, List.sum_cons,
            List.length_append, List.length_singleton]
          omega
        have hText : unlines (l :: l' :: ls) = (l ++ ['\n']) ++ unlines (l' :: ls) := by
          rw [unlines_cons_cons, List.append_assoc]
          rfl
        have hFirst : number rule ((l ++ ['\n']) ++ unlines (l' :: ls)) (l ++ ['\n']).length = 2 := by
          rw [List.length_append, List.length_singleton, number_succ, List.append_assoc,
            List.singleton_append, number_eq_one fun q hq => hQuiet l List.mem_cons_self _ q hq]
          have hEnd : endsAt rule (l ++ '\n' :: unlines (l' :: ls)) l.length = true := by
            rw [endsAt, List.getElem?_append_right (Nat.le_refl _), Nat.sub_self]
            exact hRule _
          rw [if_pos hEnd]
        have hSum := number_append (r := rule) (l ++ ['\n']) (unlines (l' :: ls))
          (lineStart (l' :: ls) k + col)
        rw [hStart, hText]
        omega

theorem quiet_newline {l : Text} (h : '\n' ∉ l) : Quiet newline l := by
  intro t q hq
  rw [endsAt, List.getElem?_append_left hq, List.getElem?_eq_getElem hq]
  have hNe : l[q] ≠ '\n' := fun hEq => h (hEq ▸ List.getElem_mem hq)
  simp [newline, hNe]

theorem quiet_sourceBreak {l : Text} (h : '\n' ∉ l)
    (hLast : ∀ front rest, l = front ++ '\r' :: rest → rest = []) : Quiet sourceBreak l := by
  intro t q hq
  have hNe : l[q] ≠ '\n' := fun hEq => h (hEq ▸ List.getElem_mem hq)
  have hSplit : l = l.take q ++ l[q] :: l.drop (q + 1) := by
    rw [← List.drop_eq_getElem_cons, List.take_append_drop]
  have hEnds : endsAt sourceBreak (l ++ '\n' :: t) q =
      sourceBreak l[q] (l ++ '\n' :: t)[q + 1]? := by
    rw [endsAt, List.getElem?_append_left hq, List.getElem?_eq_getElem hq]
    rfl
  rw [hEnds]
  by_cases hReturn : l[q] = '\r'
  · rw [hReturn] at hSplit
    have hNil := hLast _ _ hSplit
    rw [List.drop_eq_nil_iff] at hNil
    obtain hLen : q + 1 = l.length := by omega
    rw [hLen, List.getElem?_append_right (Nat.le_refl _), Nat.sub_self]
    simp [sourceBreak, hReturn]
  · simp [sourceBreak, hNe, hReturn]

theorem plainBreaks_iff (text : Text) :
    PlainBreaks text ↔
      ∀ p, p < text.length → number anyBreak text p = Python.lineAt text p := by
  simp only [← number_newline]
  rw [number_eq_iff_pairs]
  have hPair : ∀ c next : Char, anyBreak c (some next) = newline c (some next) ↔
      (Python.isLineBreak c = true → c = '\n' ∨ (c = '\r' ∧ next = '\n')) := by
    intro c next
    by_cases hBreak : Python.isLineBreak c = true
    · by_cases hc : c = '\n'
      · subst hc
        simp [anyBreak, newline, Python.isLineBreak]
      · simp [anyBreak, newline, hBreak, hc]
    · have hc : c ≠ '\n' := fun hEq => hBreak (hEq ▸ rfl)
      simp [anyBreak, newline, hBreak, hc]
  simp only [hPair]
  exact Iff.rfl

theorem PlainBreaks.number_sourceBreak {text : Text} (h : PlainBreaks text) :
    ∀ p, p < text.length → number sourceBreak text p = Python.lineAt text p := by
  simp only [← number_newline]
  rw [number_eq_iff_pairs]
  intro front c next rest hText
  by_cases hc : c = '\r'
  · subst hc
    obtain hNo | ⟨-, rfl⟩ := h front _ next rest hText rfl
    · cases hNo
    · rfl
  · simp [sourceBreak, newline, hc]

theorem PlainBreaks.quiet {text line : Text} (h : PlainBreaks text) (hLine : line ∈ lines text) :
    ∀ l, l <:+ line → Quiet sourceBreak l := by
  rintro l ⟨indent, rfl⟩
  have hNewline := newline_not_mem hLine
  refine quiet_sourceBreak (fun hMem => hNewline (List.mem_append_right indent hMem)) ?_
  rintro front rest rfl
  obtain ⟨before, after, hText⟩ := infix_unlines hLine
  rw [unlines_lines] at hText
  cases rest with
  | nil => rfl
  | cons next rest =>
    exfalso
    have hSplit : text = (before ++ indent ++ front) ++ '\r' :: next :: (rest ++ after) := by
      rw [← hText]
      simp
    obtain hNo | ⟨-, rfl⟩ := h _ _ _ _ hSplit rfl
    · cases hNo
    · exact hNewline (by simp)

/-- The Python in a block has the numbers that its lines have in the text. -/
theorem PlainBreaks.number_origin {text : Text} {b : Block} {p' p : Nat} (h : PlainBreaks text)
    (hOrigin : Origin text b p' p) :
    number sourceBreak (extractPython text b) p' + (b.contentStartLine - 1) =
      Python.lineAt text p := by
  obtain ⟨k, line, col, hLine, hCol, rfl, rfl⟩ := hOrigin
  have hSuffix := dedent_suffix b.contentIndent line
  have hContent : ∀ l ∈ b.content text, l ∈ lines text := fun l hl =>
    List.mem_of_mem_take (List.mem_of_mem_drop hl)
  have hSource : number sourceBreak (extractPython text b)
      (lineStart ((b.content text).map (dedent b.contentIndent)) k + col) = k + 1 := by
    refine number_unlines (fun next => rfl) ?_ ?_ hCol
    · intro l hl
      obtain ⟨l', hl', rfl⟩ := List.mem_map.mp hl
      exact h.quiet (hContent l' hl') _ (dedent_suffix _ l')
    · rw [List.getElem?_map, hLine]
      rfl
  have hAll : (lines text)[b.contentStartLine - 1 + k]? = some line := by
    rw [Block.content, List.getElem?_drop, List.getElem?_take] at hLine
    split at hLine
    · exact hLine
    · cases hLine
  have hInside : line.length - (dedent b.contentIndent line).length + col < line.length := by
    have hLe := hSuffix.length_le
    omega
  have hText := @number_unlines newline (fun next => rfl) _
    (fun l hl => quiet_newline (newline_not_mem hl)) _ _ _ hAll hInside
  rw [unlines_lines, number_newline, ← Nat.add_assoc] at hText
  rw [hSource, hText]
  omega

theorem mem_yamlOutline {yaml : Yaml} {text : Text} {n p : Nat} :
    (n, p) ∈ yamlOutline yaml text ↔
      ∃ docs, yaml text = some docs ∧ ∃ doc ∈ docs,
        (∃ r, doc.resource = some r ∧
          (n = 1 ∧ p = r.1 ∨ n = (lines text).length ∧ p = r.2)) ∨
        ∃ k ∈ doc.keys, n = keyLine k.1 (lines text) ∧ p = k.2 := by
  cases hYaml : yaml text with
  | none => simp [yamlOutline, hYaml]
  | some docs => simp [yamlOutline, hYaml, eq_comm]

theorem PlainBreaks.lineAt_of_reports {ast : Ast} {yaml : Yaml} {text : Text}
    (hBreaks : PlainBreaks text) (hYaml : PlainYaml yaml text) {n p : Nat} (hp : p < text.length)
    (h : Reports ast yaml text n p) : Python.lineAt text p = n := by
  cases h with
  | grepFile _ hLine =>
    rw [hLine.number_eq]
    exact ((plainBreaks_iff text).mp hBreaks p hp).symm
  | grepTree hMem =>
    obtain ⟨q, -, hEq⟩ := List.mem_map.mp hMem
    obtain ⟨rfl, rfl⟩ := Prod.mk.inj hEq
    rfl
  | dryrun hMem =>
    obtain ⟨q, -, hEq⟩ := List.mem_map.mp hMem
    obtain ⟨rfl, rfl⟩ := Prod.mk.inj hEq
    rfl
  | python hMem =>
    obtain ⟨q, -, hEq⟩ := List.mem_map.mp hMem
    obtain ⟨rfl, rfl⟩ := Prod.mk.inj hEq
    exact (hBreaks.number_sourceBreak _ hp).symm
  | pythonInYaml _ hMem hOrigin =>
    obtain ⟨q, -, hEq⟩ := List.mem_map.mp hMem
    obtain ⟨rfl, rfl⟩ := Prod.mk.inj hEq
    exact (hBreaks.number_origin hOrigin).symm
  | yaml hMem =>
    obtain ⟨docs, hDocs, doc, hDoc, ⟨r, hr, ⟨rfl, rfl⟩ | ⟨rfl, rfl⟩⟩ | ⟨k, hk, rfl, rfl⟩⟩ :=
      mem_yamlOutline.mp hMem
    · exact (hYaml.whole docs hDocs doc hDoc r hr).1
    · exact (hYaml.whole docs hDocs doc hDoc r hr).2
    · exact ((keyLine_eq_iff text k.1 k.2).mpr (hYaml.keys docs hDocs doc hDoc k hk)).symm

theorem line_numbers_iff (ast : Ast) (yaml : Yaml) (text : Text) :
    (∀ n p, p < text.length → Reports ast yaml text n p → ActsOn text n p) ↔
      PlainBreaks text ∧ PlainYaml yaml text := by
  constructor
  · intro h
    have hYaml : ∀ n p, p < text.length → (n, p) ∈ yamlOutline yaml text → Python.lineAt text p = n :=
      fun n p hp hMem => ((actsOn_iff hp).mp (h n p hp (.yaml hMem))).2
    refine ⟨(plainBreaks_iff text).mpr fun p hp => ?_, ?_, ?_⟩
    · have hReport : Reports ast yaml text (Python.lineAt text p) p :=
        @Reports.grepTree _ _ _ (fun _ => [p]) 1 _ _ List.mem_cons_self
      exact ((actsOn_iff hp).mp (h _ p hp hReport)).1
    · intro docs hDocs doc hDoc r hr
      constructor
      · refine hYaml 1 r.1 r.1.isLt (mem_yamlOutline.mpr ⟨docs, hDocs, doc, hDoc, .inl ⟨r, hr, ?_⟩⟩)
        exact .inl ⟨rfl, rfl⟩
      · refine hYaml _ r.2 r.2.isLt (mem_yamlOutline.mpr ⟨docs, hDocs, doc, hDoc, .inl ⟨r, hr, ?_⟩⟩)
        exact .inr ⟨rfl, rfl⟩
    · intro docs hDocs doc hDoc k hk
      rw [← keyLine_eq_iff]
      refine (hYaml _ k.2 k.2.isLt (mem_yamlOutline.mpr ⟨docs, hDocs, doc, hDoc, .inr ?_⟩)).symm
      exact ⟨k, hk, rfl, rfl⟩
  · rintro ⟨hBreaks, hYaml⟩ n p hp hReport
    have hLine := hBreaks.lineAt_of_reports hYaml hp hReport
    exact (actsOn_iff hp).mpr ⟨((plainBreaks_iff text).mp hBreaks p hp).trans hLine, hLine⟩

def formFeed : Text := ['a', '\x0c', 'b', '\n', 'c']

theorem form_feed_counts :
    grepFile (· = ['c']) 100 formFeed = [3] ∧
      getFileRange formFeed 3 3 = some [(['c'], 3)] ∧
      grepTree (fun _ => [4]) 1 formFeed = [(2, 4)] ∧
      getFileRange formFeed 2 2 = some [(['b'], 2)] ∧
      lines formFeed = [['a', '\x0c', 'b'], ['c']] ∧
      ∀ ast yaml, ¬∀ n p, p < formFeed.length → Reports ast yaml formFeed n p →
        ActsOn formFeed n p := by
  refine ⟨by decide, by decide, by decide, by decide, by decide, fun ast yaml h => ?_⟩
  have hReport : Reports ast yaml formFeed 2 4 :=
    @Reports.grepTree _ _ _ (fun _ => [4]) 1 _ _ (by decide)
  have hBoth := (actsOn_iff (by decide)).mp (h 2 4 (by decide) hReport)
  exact absurd hBoth.1 (by decide)

end OpenSpoke.GitHub
