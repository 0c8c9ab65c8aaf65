import OpenSpoke.GitHub.Edits

/-!
# Python in YAML

A ConfigMap may hold a Python source in a literal block. The tools find the first block,
take its indent off and put it back on.
-/

namespace OpenSpoke.GitHub

open Python (Text)

/-- `not line.strip()`. -/
def blank (line : Text) : Bool := Python.strip line = []

/-- `len(line) - len(line.lstrip())`. -/
def indentOf (line : Text) : Nat := (line.takeWhile Python.isSpace).length

/-- The key of a line that matches `^(\s*)(\S+)\.py:\s*\|[+-]?\s*$`; it is read from the end. -/
def blockKey (line : Text) : Option Text :=
  let sign : Text → Text
    | '+' :: t | '-' :: t => t
    | t => t
  match sign (line.reverse.dropWhile Python.isSpace) with
  | '|' :: t =>
    match t.dropWhile Python.isSpace with
    | ':' :: 'y' :: 'p' :: '.' :: name =>
      let name := name.reverse.dropWhile Python.isSpace
      if name ≠ [] ∧ name.all (!Python.isSpace ·) then some (name ++ ".py".toList) else none
    | _ => none
  | _ => none

structure Block where
  key : Text
  keyLine : Nat
  contentStartLine : Nat
  contentEndLine : Nat
  contentIndent : Nat

/-- Whether a line goes on with a block whose key has an indent. -/
def goesOn (keyIndent : Nat) (l : Text) : Bool := blank l || keyIndent < indentOf l

def contentSize (keyIndent : Nat) (content : List Text) : Nat :=
  (content.takeWhile (goesOn keyIndent)).length

/-- The block whose key is in a line, which is counted from 0. -/
def blockAt (ls : List Text) (i : Nat) : Option Block := do
  let line ← ls[i]?
  let key ← blockKey line
  let first ← (ls.drop (i + 1)).find? (!blank ·)
  if indentOf first ≤ indentOf line then none
  else
    let size := contentSize (indentOf line) (ls.drop (i + 1))
    some ⟨key, i + 1, i + 2, i + 1 + size, indentOf first⟩

/-- `_gh_find_literal_block`. -/
def findLiteralBlock (text : Text) : Option Block :=
  (List.range (lines text).length).findSome? (blockAt (lines text))

def dedent (indent : Nat) (line : Text) : Text :=
  if blank line then []
  else if List.replicate indent ' ' <+: line then line.drop indent
  else line

def Block.content (b : Block) (text : Text) : List Text :=
  ((lines text).take b.contentEndLine).drop (b.contentStartLine - 1)

/-- `_gh_extract_python_from_yaml`. -/
def extractPython (text : Text) (b : Block) : Text :=
  unlines ((b.content text).map (dedent b.contentIndent))

theorem blank_iff (line : Text) : blank line = true ↔ ∀ c ∈ line, Python.isSpace c = true := by
  rw [blank, decide_eq_true_eq, Python.strip_eq_nil_iff]

theorem dedent_suffix (indent : Nat) (line : Text) : dedent indent line <:+ line := by
  rw [dedent]
  split
  · exact List.nil_suffix
  · split
    · exact List.drop_suffix indent line
    · exact List.suffix_rfl

theorem blockAt_eq_some_iff {ls : List Text} {i : Nat} {b : Block} :
    blockAt ls i = some b ↔
      ∃ line key first, ls[i]? = some line ∧ blockKey line = some key ∧
        (ls.drop (i + 1)).find? (!blank ·) = some first ∧ indentOf line < indentOf first ∧
        b = ⟨key, i + 1, i + 2, i + 1 + contentSize (indentOf line) (ls.drop (i + 1)),
          indentOf first⟩ := by
  constructor
  · intro h
    simp only [blockAt, bind, Option.bind_eq_some_iff] at h
    obtain ⟨line, hLine, key, hKey, first, hFirst, h⟩ := h
    split at h
    · cases h
    · rename_i hIndent
      exact ⟨line, key, first, hLine, hKey, hFirst, Nat.lt_of_not_le hIndent, (Option.some.inj h).symm⟩
  · rintro ⟨line, key, first, hLine, hKey, hFirst, hIndent, rfl⟩
    simp only [blockAt, bind, hLine, hKey, hFirst, Option.bind_some]
    rw [if_neg (Nat.not_le_of_gt hIndent)]

/-- A block is what goes on, and the first line of it that is not blank gives the indent. -/
theorem blockAt_parts {ls : List Text} {i : Nat} {b : Block} (h : blockAt ls i = some b) :
    ∃ front line key content rest first, ls = front ++ line :: (content ++ rest) ∧
      front.length = i ∧ blockKey line = some key ∧ content.find? (!blank ·) = some first ∧
      indentOf line < indentOf first ∧ (∀ l ∈ content, goesOn (indentOf line) l = true) ∧
      (∀ l ∈ rest.head?, goesOn (indentOf line) l = false) ∧
      b = ⟨key, i + 1, i + 2, i + 1 + content.length, indentOf first⟩ := by
  obtain ⟨line, key, first, hLine, hKey, hFirst, hIndent, rfl⟩ := blockAt_eq_some_iff.mp h
  obtain ⟨hi, rfl⟩ := List.getElem?_eq_some_iff.mp hLine
  have hSplit := List.takeWhile_append_dropWhile (p := goesOn (indentOf ls[i])) (l := ls.drop (i + 1))
  have hEnd : ∀ l ∈ ((ls.drop (i + 1)).dropWhile (goesOn (indentOf ls[i]))).head?,
      goesOn (indentOf ls[i]) l = false := by
    intro l hl
    have hNot := List.head?_dropWhile_not (goesOn (indentOf ls[i])) (ls.drop (i + 1))
    rw [hl] at hNot
    exact hNot
  refine ⟨ls.take i, ls[i], key, (ls.drop (i + 1)).takeWhile (goesOn (indentOf ls[i])),
    (ls.drop (i + 1)).dropWhile (goesOn (indentOf ls[i])), first, ?_, ?_, hKey, ?_, hIndent,
    fun l hl => List.mem_takeWhile_imp hl, hEnd, rfl⟩
  · rw [hSplit, ← List.drop_eq_getElem_cons hi, List.take_append_drop]
  · rw [List.length_take, Nat.min_eq_left (Nat.le_of_lt hi)]
  · rw [← hSplit, List.find?_append] at hFirst
    obtain hIn | ⟨-, hOut⟩ := Option.or_eq_some_iff.mp hFirst
    · exact hIn
    · exfalso
      -- the first line behind the block is not blank, and its indent is too small
      generalize (ls.drop (i + 1)).dropWhile (goesOn (indentOf ls[i])) = rest at hEnd hOut
      cases rest with
      | nil => cases hOut
      | cons l rest =>
        have hNot := hEnd l rfl
        rw [goesOn, Bool.or_eq_false_iff, decide_eq_false_iff_not] at hNot
        rw [List.find?_cons_of_pos (by simp [hNot.1])] at hOut
        obtain rfl := Option.some.inj hOut
        exact hNot.2 hIndent

theorem blockAt_of_parts {front content rest : List Text} {line key first : Text}
    (hKey : blockKey line = some key) (hFirst : content.find? (!blank ·) = some first)
    (hIndent : indentOf line < indentOf first)
    (hContent : ∀ l ∈ content, goesOn (indentOf line) l = true)
    (hRest : ∀ l ∈ rest.head?, goesOn (indentOf line) l = false) :
    blockAt (front ++ line :: (content ++ rest)) front.length =
      some ⟨key, front.length + 1, front.length + 2, front.length + 1 + content.length,
        indentOf first⟩ := by
  have hDrop : (front ++ line :: (content ++ rest)).drop (front.length + 1) = content ++ rest := by
    rw [List.drop_length_add_append]
    rfl
  rw [blockAt_eq_some_iff]
  refine ⟨line, key, first, ?_, hKey, ?_, hIndent, ?_⟩
  · rw [List.getElem?_append_right (Nat.le_refl _), Nat.sub_self]
    rfl
  · rw [hDrop, List.find?_append, hFirst, Option.some_or]
  · have hTake : (content ++ rest).takeWhile (goesOn (indentOf line)) = content := by
      rw [List.takeWhile_append_of_pos hContent]
      cases rest with
      | nil => rw [List.takeWhile_nil, List.append_nil]
      | cons l rest => rw [List.takeWhile_cons_of_neg (by simp [hRest l rfl]), List.append_nil]
    rw [hDrop, contentSize, hTake]

theorem findLiteralBlock_eq_some_iff {text : Text} {b : Block} :
    findLiteralBlock text = some b ↔
      ∃ i, blockAt (lines text) i = some b ∧ ∀ j, j < i → blockAt (lines text) j = none := by
  rw [findLiteralBlock, List.findSome?_eq_some_iff]
  constructor
  · rintro ⟨before, i, after, hRange, hHere, hBefore⟩
    have hAt : ∀ k : Nat, (List.range (lines text).length)[k]? = (before ++ i :: after)[k]? := by
      intro k
      rw [hRange]
    have hIndex : i = before.length := by
      have hMid := hAt before.length
      rw [List.getElem?_append_right (Nat.le_refl _), Nat.sub_self, List.getElem?_cons_zero,
        List.getElem?_eq_some_iff] at hMid
      obtain ⟨hLt, hEq⟩ := hMid
      rw [← hEq, List.getElem_range]
    refine ⟨i, hHere, fun j hj => hBefore j ?_⟩
    have hEarly := hAt j
    rw [List.getElem?_append_left (by omega),
      List.getElem?_eq_getElem (l := before) (by omega)] at hEarly
    obtain ⟨hLt, hEq⟩ := List.getElem?_eq_some_iff.mp hEarly
    rw [List.getElem_range] at hEq
    rw [hEq]
    exact List.getElem_mem _
  · rintro ⟨i, hHere, hBefore⟩
    obtain ⟨line, -, -, hLine, -⟩ := blockAt_eq_some_iff.mp hHere
    obtain ⟨hi, -⟩ := List.getElem?_eq_some_iff.mp hLine
    refine ⟨List.range i, i, (List.range (lines text).length).drop (i + 1), ?_, hHere, ?_⟩
    · have hSplit := List.take_append_drop i (List.range (lines text).length)
      rw [List.drop_eq_getElem_cons (by rwa [List.length_range]), List.getElem_range,
        List.take_range, Nat.min_eq_left (Nat.le_of_lt hi)] at hSplit
      exact hSplit.symm
    · intro j hj
      exact hBefore j (List.mem_range.mp hj)

/-! ## The block after an edit of its content -/

theorem blank_eq_false_of_blockKey {line key : Text} (h : blockKey line = some key) :
    blank line = false := by
  rw [Bool.eq_false_iff]
  intro hBlank
  have hNil : line.reverse.dropWhile Python.isSpace = [] :=
    List.dropWhile_eq_nil_iff.mpr fun c hc =>
      (blank_iff line).mp hBlank c (List.mem_reverse.mp hc)
  rw [blockKey, hNil] at h
  cases h

/-- Whether a block begins in a line is decided before the next line that is not blank ends. -/
theorem blockAt_eq_none {front behind behind' : List Text} {line : Text} (hLine : blank line = false)
    {j : Nat} (hj : j < front.length) (h : blockAt (front ++ line :: behind) j = none) :
    blockAt (front ++ line :: behind') j = none := by
  rw [Option.eq_none_iff_forall_ne_some]
  intro b hSome
  obtain ⟨l, key, first, hl, hKey, hFirst, hIndent, -⟩ := blockAt_eq_some_iff.mp hSome
  have hFind : ∀ t : List Text, ((front ++ line :: t).drop (j + 1)).find? (!blank ·) =
      ((front.drop (j + 1)).find? (!blank ·)).or (some line) := by
    intro t
    rw [List.drop_append_of_le_length (by omega), List.find?_append,
      List.find?_cons_of_pos (by simp [hLine])]
  rw [List.getElem?_append_left hj] at hl
  rw [hFind] at hFirst
  have hOther := blockAt_eq_some_iff.mpr
    ⟨l, key, first, (List.getElem?_append_left hj).trans hl, hKey, (hFind behind).trans hFirst,
      hIndent, rfl⟩
  rw [h] at hOther
  cases hOther

/-- A text around the block that the tools find in it. -/
structure Around (text : Text) (b : Block) (front : List Text) (line : Text)
    (rest : List Text) : Prop where
  lines_eq : lines text = front ++ line :: (b.content text ++ rest)
  start : b.contentStartLine = front.length + 2
  goesOn : ∀ l ∈ b.content text, goesOn (indentOf line) l = true
  indent : ∃ first, (b.content text).find? (!blank ·) = some first ∧
    b.contentIndent = indentOf first ∧ indentOf line < indentOf first
  /-- Another content with the same indent is found in its place. -/
  replaced : ∀ content first, content.find? (!blank ·) = some first →
    indentOf first = b.contentIndent → (∀ l ∈ content, OpenSpoke.GitHub.goesOn (indentOf line) l = true) →
    (∀ l ∈ content, '\n' ∉ l) →
    ∃ b', findLiteralBlock (unlines (front ++ line :: (content ++ rest))) = some b' ∧
      b'.content (unlines (front ++ line :: (content ++ rest))) = content ∧
      b'.contentIndent = b.contentIndent

theorem content_eq {text : Text} {b : Block} {front content rest : List Text} {line : Text}
    (hLines : lines text = front ++ line :: (content ++ rest))
    (hStart : b.contentStartLine = front.length + 2)
    (hEnd : b.contentEndLine = front.length + 1 + content.length) : b.content text = content := by
  have hSplit : front ++ line :: (content ++ rest) = (front ++ [line]) ++ (content ++ rest) := by simp
  have hLen : (front ++ [line]).length = front.length + 1 := by simp
  have hDrop : front.length + 2 - 1 = (front ++ [line]).length := by
    rw [hLen]
    omega
  rw [Block.content, hLines, hStart, hEnd, hSplit, hDrop, ← hLen, List.take_length_add_append,
    List.drop_left, List.take_left]

theorem exists_around {text : Text} {b : Block} (h : findLiteralBlock text = some b) :
    ∃ front line rest, Around text b front line rest := by
  obtain ⟨i, hHere, hBefore⟩ := findLiteralBlock_eq_some_iff.mp h
  obtain ⟨front, line, key, content, rest, first, hLines, rfl, hKey, hFirst, hIndent, hGoesOn, hRest,
    rfl⟩ := blockAt_parts hHere
  have hContent := content_eq (b := ⟨key, front.length + 1, front.length + 2,
    front.length + 1 + content.length, indentOf first⟩) hLines rfl rfl
  refine ⟨front, line, rest, ?_, rfl, ?_, ⟨first, ?_, rfl, hIndent⟩, ?_⟩
  · rw [hContent, hLines]
  · rwa [hContent]
  · rwa [hContent]
  · intro content' first' hFirst' hSame hGoesOn' hNewline
    have hNew : lines (unlines (front ++ line :: (content' ++ rest))) =
        front ++ line :: (content' ++ rest) := by
      apply lines_unlines
      · intro l hl
        have hOld : ∀ l ∈ front ++ line :: (content ++ rest), '\n' ∉ l := by
          rw [← hLines]
          exact fun l hl => newline_not_mem hl
        simp only [List.mem_append, List.mem_cons] at hl hOld
        rcases hl with hl | rfl | hl | hl
        · exact hOld l (.inl hl)
        · exact hOld l (.inr (.inl rfl))
        · exact hNewline l hl
        · exact hOld l (.inr (.inr (.inr hl)))
      · simp
    have hBlock := @blockAt_of_parts front _ _ _ _ _ hKey hFirst' (hSame ▸ hIndent) hGoesOn' hRest
    refine ⟨⟨key, front.length + 1, front.length + 2, front.length + 1 + content'.length,
      indentOf first'⟩, findLiteralBlock_eq_some_iff.mpr ⟨front.length, ?_, fun j hj => ?_⟩,
      content_eq hNew rfl rfl, hSame⟩
    · rw [hNew, hBlock]
    · rw [hNew]
      rw [hLines] at hBefore
      exact blockAt_eq_none (blank_eq_false_of_blockKey hKey) hj (hBefore j hj)

end OpenSpoke.GitHub
