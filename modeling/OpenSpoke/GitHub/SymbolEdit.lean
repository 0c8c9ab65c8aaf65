import OpenSpoke.GitHub.LiteralBlock

/-!
# Replacing a symbol

`core_github_replace_symbol` finds a definition in a Python source, or in the Python of a
YAML text, and puts another body in its lines, at the indent they have.
-/

namespace OpenSpoke.GitHub

open Python (Text)

/-- `treat_as`; what is no Python in YAML is read as Python, and only named Python is read again
after the edit. -/
inductive Language
  | python
  | pythonInYaml
  | other

mutual

def Symbol.shift (lineOffset : Nat) : Symbol → Symbol
  | .mk name startLine endLine children =>
    .mk name (startLine + lineOffset) (endLine + lineOffset) (Symbol.shiftAll lineOffset children)

def Symbol.shiftAll (lineOffset : Nat) : List Symbol → List Symbol
  | [] => []
  | s :: ss => s.shift lineOffset :: Symbol.shiftAll lineOffset ss

end

def pythonOf : Language → Text → Option Text
  | .pythonInYaml, text => (findLiteralBlock text).map (extractPython text)
  | _, text => some text

def lineOffset : Language → Text → Nat
  | .pythonInYaml, text => ((findLiteralBlock text).map fun b => b.contentStartLine - 1).getD 0
  | _, _ => 0

-- the outline of a Python source, if it parses
variable (ast : Text → Option (List Symbol))

/-- `core_github_replace_symbol`. -/
def replaceSymbol (lang : Language) (path symbol newBody : Text) (dryRun : Bool) : ReplaceSymbol where
  path := path
  symbol := symbol
  newBody := newBody
  outline text := do
    let source ← pythonOf lang text
    let symbols ← ast source
    some (Symbol.shiftAll (lineOffset lang text) symbols)
  parses newText :=
    match lang with
    | .other => true
    | _ => ((pythonOf lang newText).bind ast).isSome
  dryRun := dryRun

/-- The symbol with a name, as `ClassName.method_name`. -/
def findSymbol (symbol : Text) (symbols : List Symbol) : Option Symbol :=
  match symbol.splitOn '.' with
  | [] => none
  | head :: parts => (symbols.find? fun s => s.name = head).bind (Symbol.descend · parts)

def indentText (line : Text) : Text := line.takeWhile Python.isSpace

/-- A definition that the outline finds, in the lines that are its own. -/
structure Definition (lang : Language) (symbol text : Text) where
  source : Text
  symbols : List Symbol
  target : Symbol
  firstLine : Text
  source_eq : pythonOf lang text = some source
  symbols_eq : ast source = some symbols
  target_eq : findSymbol symbol symbols = some target
  start_pos : 1 ≤ target.startLine
  start_le : target.startLine ≤ target.endLine
  end_le : target.endLine ≤ (lines source).length
  firstLine_eq : (lines source)[target.startLine - 1]? = some firstLine
  firstLine_not_blank : blank firstLine = false
  -- the first line has the indent of its literal block
  literal : ∀ b line, lang = .pythonInYaml → findLiteralBlock text = some b →
    (b.content text)[target.startLine - 1]? = some line →
      List.replicate b.contentIndent ' ' <+: line

/-- A body at the depth of a definition; what is blank stays as it is. -/
def indented (indent newBody : Text) : List Text :=
  (lines newBody).map fun ln => if blank ln then ln else indent ++ ln

section

variable {ast} {lang : Language} {symbol text : Text} (d : Definition ast lang symbol text)

/-- What an edit of the definition should make of the text. -/
structure Definition.Replaced (newBody newText : Text) : Prop where
  outside : ∃ mid, lines newText =
    (lines text).take (d.target.startLine + lineOffset lang text - 1) ++ mid ++
      (lines text).drop (d.target.endLine + lineOffset lang text)
  source : pythonOf lang newText = some (unlines
    ((lines d.source).take (d.target.startLine - 1) ++ indented (indentText d.firstLine) newBody ++
      (lines d.source).drop d.target.endLine))

/-- The lines of the definition in the file. -/
def Definition.ownLines : List Text :=
  ((lines text).take (d.target.endLine + lineOffset lang text)).drop
    (d.target.startLine + lineOffset lang text - 1)

def Definition.ownIndent : Text := indentText (d.ownLines.head?.getD [])

def deindented (indent line : Text) : Text :=
  if indent <+: line then line.drop indent.length else line

/-- The own text of the definition, without its indent. -/
def Definition.ownBody : Text := unlines (d.ownLines.map (deindented d.ownIndent))

end

/-! ## Symbols and their shift -/

theorem Symbol.shift_name (o : Nat) (s : Symbol) : (s.shift o).name = s.name := by
  cases s
  rfl

theorem Symbol.shift_children (o : Nat) (s : Symbol) :
    (s.shift o).children = Symbol.shiftAll o s.children := by
  cases s
  rfl

theorem Symbol.shift_startLine (o : Nat) (s : Symbol) :
    (s.shift o).startLine = s.startLine + o := by
  cases s
  rfl

theorem Symbol.shift_endLine (o : Nat) (s : Symbol) : (s.shift o).endLine = s.endLine + o := by
  cases s
  rfl

theorem Symbol.find_shiftAll (o : Nat) (name : Text) (ss : List Symbol) :
    (Symbol.shiftAll o ss).find? (fun s => s.name = name) =
      (ss.find? fun s => s.name = name).map (Symbol.shift o) := by
  induction ss with
  | nil => rfl
  | cons s ss ih =>
    rw [Symbol.shiftAll, List.find?_cons, List.find?_cons, Symbol.shift_name]
    split
    · rfl
    · exact ih

theorem Symbol.descend_shift (o : Nat) (s : Symbol) (parts : List Text) :
    (s.shift o).descend parts = (s.descend parts).map (Symbol.shift o) := by
  induction parts generalizing s with
  | nil => rfl
  | cons p parts ih =>
    rw [Symbol.descend, Symbol.descend, Symbol.shift_children, Symbol.find_shiftAll]
    cases (s.children.find? fun c => c.name = p) with
    | none => rfl
    | some c => exact ih c

theorem findSymbol_shiftAll (o : Nat) (symbol : Text) (ss : List Symbol) :
    findSymbol symbol (Symbol.shiftAll o ss) = (findSymbol symbol ss).map (Symbol.shift o) := by
  rw [findSymbol, findSymbol]
  split
  · rfl
  · rename_i head parts _
    rw [Symbol.find_shiftAll]
    cases (ss.find? fun s => s.name = head) with
    | none => rfl
    | some s => exact Symbol.descend_shift o s parts

/-! ## The lines of a definition in the file -/

/-- What `_gh_apply_indent` gives. -/
def reindented (indent newBody : Text) : List Text :=
  (lines newBody).map fun ln => if blank ln then [] else indent ++ ln

theorem applyIndent_eq (r : ReplaceSymbol) (indent : Text) :
    r.applyIndent indent = reindented indent r.newBody := by
  rw [ReplaceSymbol.applyIndent, reindented]
  refine List.map_congr_left fun ln _ => ?_
  by_cases hBlank : Python.strip ln = []
  · rw [if_neg (not_not_intro hBlank), if_pos (by rw [blank, hBlank]; rfl)]
  · rw [if_pos hBlank, if_neg (by rw [blank, decide_eq_true_eq]; exact hBlank)]

theorem reindented_newline {indent newBody : Text} (hIndent : '\n' ∉ indent) :
    ∀ l ∈ reindented indent newBody, '\n' ∉ l := by
  intro l hl
  obtain ⟨ln, hln, rfl⟩ := List.mem_map.mp hl
  split
  · exact List.not_mem_nil
  · rw [List.mem_append, not_or]
    exact ⟨hIndent, newline_not_mem hln⟩

theorem newline_not_mem_indentText {text line : Text} (h : line ∈ lines text) :
    '\n' ∉ indentText line :=
  fun hMem => newline_not_mem h ((List.takeWhile_prefix _).subset hMem)

/-- A body that begins at column 0. -/
def AtColumnZero (newBody : Text) : Prop :=
  ∃ c rest, newBody = c :: rest ∧ Python.isSpace c = false

theorem AtColumnZero.lines_eq {newBody : Text} (h : AtColumnZero newBody) :
    ∃ first rest, lines newBody = first :: rest ∧ blank first = false ∧
      ∀ indent, (∀ c ∈ indent, Python.isSpace c = true) → indentOf (indent ++ first) = indent.length := by
  obtain ⟨c, body, rfl, hc⟩ := h
  have hNewline : c ≠ '\n' := by
    rintro rfl
    cases hc
  obtain ⟨l, ls, hLines⟩ := List.exists_cons_of_ne_nil (lines_ne_nil body)
  refine ⟨c :: l, ls, ?_, ?_, fun indent hIndent => ?_⟩
  · rw [lines_cons, if_neg hNewline, hLines]
    rfl
  · rw [Bool.eq_false_iff, ne_eq, blank_iff]
    intro hAll
    rw [hAll c List.mem_cons_self] at hc
    cases hc
  · rw [indentOf, List.takeWhile_append_of_pos hIndent, List.takeWhile_cons_of_neg (by simp [hc]),
      List.append_nil]

/-- Where the lines of a source are in the file, and what is taken off them. -/
structure InFile {lang : Language} {symbol text : Text} (d : Definition ast lang symbol text)
    (front content rest : List Text) (strip : Text → Text) (line : Text) : Prop where
  lines_eq : lines text = front ++ (content ++ rest)
  offset : lineOffset lang text = front.length
  source_eq : lines d.source = content.map strip
  line_eq : content[d.target.startLine - 1]? = some line
  strip_nil : strip [] = []
  strip_indent : ∀ ln, blank ln = false →
    strip (indentText line ++ ln) = indentText d.firstLine ++ ln
  -- the source of the file with a body in the place of the definition
  pythonOf_eq : ∀ newBody content', AtColumnZero newBody →
    content' = content.take (d.target.startLine - 1) ++ reindented (indentText line) newBody ++
      content.drop d.target.endLine →
    pythonOf lang (unlines (front ++ (content' ++ rest))) = some (unlines (content'.map strip))

variable {ast}

theorem Definition.inFile_of_text {lang : Language} {symbol text : Text}
    (d : Definition ast lang symbol text) (hPython : ∀ t, pythonOf lang t = some t)
    (hOffset : lineOffset lang text = 0) :
    InFile ast d [] (lines text) [] id d.firstLine := by
  have hSource : d.source = text := Option.some.inj (d.source_eq.symm.trans (hPython text))
  constructor
  · rw [List.append_nil, List.nil_append]
  · exact hOffset
  · rw [hSource, List.map_id]
  · have hFirst := d.firstLine_eq
    rwa [hSource] at hFirst
  · rfl
  · exact fun ln _ => rfl
  · intro newBody content' _ _
    rw [hPython, List.map_id, List.append_nil, List.nil_append]

theorem blank_replicate_append {n : Nat} {ln : Text} :
    blank (List.replicate n ' ' ++ ln) = blank ln := by
  rw [Bool.eq_iff_iff, blank_iff, blank_iff]
  constructor
  · exact fun h c hc => h c (List.mem_append_right _ hc)
  · intro h c hc
    obtain hc | hc := List.mem_append.mp hc
    · rw [List.eq_of_mem_replicate hc]
      rfl
    · exact h c hc

theorem indentText_replicate (n : Nat) (ln : Text) :
    indentText (List.replicate n ' ' ++ ln) = List.replicate n ' ' ++ indentText ln := by
  rw [indentText, List.takeWhile_append_of_pos]
  · rfl
  · intro c hc
    rw [List.eq_of_mem_replicate hc]
    rfl

theorem dedent_replicate {n : Nat} {ln : Text} (h : blank ln = false) :
    dedent n (List.replicate n ' ' ++ ln) = ln := by
  rw [dedent, blank_replicate_append, if_neg (by simp [h]), if_pos (List.prefix_append _ _)]
  exact List.drop_left' List.length_replicate

theorem find_not_blank {before behind : List Text} {line : Text} (hLine : blank line = false) :
    (before ++ line :: behind).find? (!blank ·) = (before.find? (!blank ·)).or (some line) := by
  rw [List.find?_append, List.find?_cons_of_pos (by simp [hLine])]

theorem isSpace_of_mem_indentText {line : Text} {c : Char} (h : c ∈ indentText line) :
    Python.isSpace c = true :=
  List.mem_takeWhile_imp h

theorem goesOn_reindented {n : Nat} {line newBody : Text} (hLine : n < indentOf line) :
    ∀ l ∈ reindented (indentText line) newBody, goesOn n l = true := by
  intro l hl
  obtain ⟨ln, -, rfl⟩ := List.mem_map.mp hl
  split
  · rfl
  · have hLen : indentOf (indentText line ++ ln) =
        (indentText line).length + (ln.takeWhile Python.isSpace).length := by
      rw [indentOf, List.takeWhile_append_of_pos fun c hc => isSpace_of_mem_indentText hc,
        List.length_append]
    have hSame : (indentText line).length = indentOf line := rfl
    rw [goesOn, Bool.or_eq_true, decide_eq_true_eq]
    right
    omega

theorem find_replaced {content : List Text} (behind : List Text) {k : Nat} {line newBody first : Text}
    (hLine : content[k]? = some line) (hNotBlank : blank line = false) (hBody : AtColumnZero newBody)
    (hFirst : content.find? (!blank ·) = some first) :
    ∃ first', (content.take k ++ reindented (indentText line) newBody ++ behind).find? (!blank ·) =
      some first' ∧ indentOf first' = indentOf first := by
  obtain ⟨l, ls, hLines, hl, hIndent⟩ := hBody.lines_eq
  obtain ⟨hk, hAt⟩ := List.getElem?_eq_some_iff.mp hLine
  have hSplit : content = content.take k ++ line :: content.drop (k + 1) := by
    rw [← hAt, ← List.drop_eq_getElem_cons, List.take_append_drop]
  have hNew : reindented (indentText line) newBody =
      (indentText line ++ l) :: (ls.map fun ln => if blank ln then [] else indentText line ++ ln) := by
    rw [reindented, hLines, List.map_cons, if_neg (by simp [hl])]
  have hNewBlank : blank (indentText line ++ l) = false := by
    rw [Bool.eq_false_iff] at hl ⊢
    rw [ne_eq, blank_iff] at hl ⊢
    exact fun h => hl fun c hc => h c (List.mem_append_right _ hc)
  rw [hSplit, find_not_blank hNotBlank] at hFirst
  rw [hNew, List.append_assoc, List.cons_append, find_not_blank hNewBlank]
  cases hBefore : (content.take k).find? (!blank ·) with
  | some f =>
    rw [hBefore, Option.some_or] at hFirst
    exact ⟨f, rfl, congrArg indentOf (Option.some.inj hFirst)⟩
  | none =>
    rw [hBefore, Option.none_or] at hFirst
    obtain rfl := Option.some.inj hFirst
    exact ⟨_, rfl, hIndent _ fun c hc => isSpace_of_mem_indentText hc⟩

theorem Definition.inFile_of_block {symbol text : Text} {b : Block}
    (d : Definition ast .pythonInYaml symbol text) (hBlock : findLiteralBlock text = some b) :
    ∃ front rest line, InFile ast d front (b.content text) rest (dedent b.contentIndent) line := by
  obtain ⟨front, key, rest, hAround⟩ := exists_around hBlock
  obtain ⟨first, hFirst, hIndent, hDeeper⟩ := hAround.indent
  have hNewline : ∀ l ∈ b.content text, '\n' ∉ l := by
    intro l hl
    have hMem : l ∈ lines text := by
      rw [hAround.lines_eq]
      simp [hl]
    exact newline_not_mem hMem
  have hExtract : d.source = extractPython text b := by
    have hSource := d.source_eq
    rw [pythonOf, hBlock] at hSource
    exact (Option.some.inj hSource).symm
  have hSource : lines d.source = (b.content text).map (dedent b.contentIndent) := by
    rw [hExtract, extractPython, lines_unlines]
    · intro l hl hMem
      obtain ⟨l', hl', rfl⟩ := List.mem_map.mp hl
      exact hNewline l' hl' ((dedent_suffix _ _).subset hMem)
    · intro hNil
      rw [List.map_eq_nil_iff] at hNil
      rw [hNil] at hFirst
      cases hFirst
  obtain ⟨line, hLine, hStrip⟩ : ∃ line, (b.content text)[d.target.startLine - 1]? = some line ∧
      dedent b.contentIndent line = d.firstLine := by
    have hAt := d.firstLine_eq
    rw [hSource, List.getElem?_map, Option.map_eq_some_iff] at hAt
    exact hAt
  have hMem : line ∈ b.content text := List.mem_of_getElem? hLine
  have hNotBlank : blank line = false := by
    rw [Bool.eq_false_iff]
    intro hBlank
    have hNot := d.firstLine_not_blank
    rw [← hStrip, dedent, if_pos hBlank] at hNot
    cases hNot
  obtain ⟨ln, rfl⟩ := d.literal b line rfl hBlock hLine
  rw [blank_replicate_append] at hNotBlank
  obtain rfl : ln = d.firstLine := by rw [← hStrip, dedent_replicate hNotBlank]
  refine ⟨front ++ [key], rest, _, ⟨?_, ?_, hSource, hLine, ?_, ?_, ?_⟩⟩
  · rw [hAround.lines_eq, List.append_assoc]
    rfl
  · rw [lineOffset, hBlock, List.length_append, List.length_singleton, Option.map_some,
      Option.getD_some, hAround.start]
    omega
  · rfl
  · intro body hBody
    rw [indentText_replicate, List.append_assoc, dedent_replicate]
    rw [Bool.eq_false_iff] at hBody ⊢
    rw [ne_eq, blank_iff] at hBody ⊢
    exact fun h => hBody fun c hc => h c (List.mem_append_right _ hc)
  · intro newBody content' hBody hContent
    subst hContent
    obtain ⟨first', hFirst', hSame⟩ := find_replaced ((b.content text).drop d.target.endLine)
      hLine (by rwa [blank_replicate_append]) hBody hFirst
    have hLineDeeper := hAround.goesOn _ hMem
    rw [goesOn, blank_replicate_append, hNotBlank, Bool.false_or, decide_eq_true_eq] at hLineDeeper
    obtain ⟨b', hFind, hContent', hIndent'⟩ := hAround.replaced _ first' hFirst'
      (hSame.trans hIndent.symm)
      (by
        intro l hl
        rw [List.mem_append, List.mem_append] at hl
        obtain (hl | hl) | hl := hl
        · exact hAround.goesOn l (List.mem_of_mem_take hl)
        · exact goesOn_reindented hLineDeeper l hl
        · exact hAround.goesOn l (List.mem_of_mem_drop hl))
      (by
        intro l hl
        rw [List.mem_append, List.mem_append] at hl
        obtain (hl | hl) | hl := hl
        · exact hNewline l (List.mem_of_mem_take hl)
        · refine reindented_newline (fun hc => hNewline _ hMem ?_) l hl
          exact (List.takeWhile_prefix _).subset hc
        · exact hNewline l (List.mem_of_mem_drop hl))
    rw [List.append_assoc front, List.singleton_append, pythonOf, hFind, Option.map_some,
      extractPython, hContent', hIndent']

theorem Definition.exists_inFile {lang : Language} {symbol text : Text}
    (d : Definition ast lang symbol text) :
    ∃ front content rest strip line, InFile ast d front content rest strip line := by
  cases lang with
  | python => exact ⟨_, _, _, _, _, d.inFile_of_text (fun _ => rfl) rfl⟩
  | other => exact ⟨_, _, _, _, _, d.inFile_of_text (fun _ => rfl) rfl⟩
  | pythonInYaml =>
    obtain ⟨b, hBlock, -⟩ := Option.map_eq_some_iff.mp d.source_eq
    obtain ⟨front, rest, line, h⟩ := d.inFile_of_block hBlock
    exact ⟨front, _, rest, _, line, h⟩

/-! ## The edit -/

section

variable {lang : Language} {symbol text : Text} {d : Definition ast lang symbol text}
  {front content rest : List Text} {strip : Text → Text} {line : Text}

theorem InFile.end_le (h : InFile ast d front content rest strip line) :
    d.target.endLine ≤ content.length := by
  have hEnd := d.end_le
  rwa [h.source_eq, List.length_map] at hEnd

theorem InFile.split (h : InFile ast d front content rest strip line) :
    (lines text).take (d.target.startLine + lineOffset lang text - 1) =
        front ++ content.take (d.target.startLine - 1) ∧
      (lines text).drop (d.target.endLine + lineOffset lang text) =
        content.drop d.target.endLine ++ rest ∧
      (lines text)[d.target.startLine + lineOffset lang text - 1]? = some line := by
  have hStart := d.start_pos
  have hOrder := d.start_le
  have hEnd := h.end_le
  have hFrom : d.target.startLine + front.length - 1 = front.length + (d.target.startLine - 1) := by
    omega
  rw [h.offset, h.lines_eq, hFrom, Nat.add_comm d.target.endLine]
  refine ⟨?_, ?_, ?_⟩
  · rw [List.take_length_add_append, List.take_append_of_le_length (by omega)]
  · rw [List.drop_length_add_append, List.drop_append_of_le_length hEnd]
  · rw [List.getElem?_append_right (Nat.le_add_right _ _), Nat.add_sub_cancel_left,
      List.getElem?_append_left (by omega), h.line_eq]

theorem InFile.edit_eq (h : InFile ast d front content rest strip line) (path newBody : Text)
    (dryRun : Bool) {newText : Text}
    (hOk : (replaceSymbol ast lang path symbol newBody dryRun).edit text = some newText) :
    newText = unlines ((lines text).take (d.target.startLine + lineOffset lang text - 1) ++
      reindented (indentText line) newBody ++
      (lines text).drop (d.target.endLine + lineOffset lang text)) := by
  obtain ⟨-, -, hLine⟩ := h.split
  have hOutline : (replaceSymbol ast lang path symbol newBody dryRun).outline text =
      some (Symbol.shiftAll (lineOffset lang text) d.symbols) := by
    simp only [replaceSymbol, bind, d.source_eq, d.symbols_eq, Option.bind_some]
  have hTarget : (replaceSymbol ast lang path symbol newBody dryRun).target
      (Symbol.shiftAll (lineOffset lang text) d.symbols) =
        some (d.target.shift (lineOffset lang text)) := by
    have hShift := findSymbol_shiftAll (lineOffset lang text) symbol d.symbols
    rw [d.target_eq] at hShift
    exact hShift
  have hNe : d.target.startLine + lineOffset lang text ≠ 0 := by
    have hStart := d.start_pos
    omega
  rw [ReplaceSymbol.edit, hOutline] at hOk
  simp only [bind, Option.bind_some, hTarget, Symbol.shift_startLine, Symbol.shift_endLine,
    applyIndent_eq] at hOk
  rw [if_neg hNe, hLine, Option.getD_some] at hOk
  split at hOk
  · exact (Option.some.inj hOk).symm
  · cases hOk

theorem newline_not_mem_edit {t mid : List Text} {k n : Nat} {source : Text}
    (hSource : t = lines source) (hMid : ∀ l ∈ mid, '\n' ∉ l) :
    ∀ l ∈ t.take k ++ mid ++ t.drop n, '\n' ∉ l := by
  subst hSource
  intro l hl
  rw [List.mem_append, List.mem_append] at hl
  obtain (hl | hl) | hl := hl
  · exact newline_not_mem (List.mem_of_mem_take hl)
  · exact hMid l hl
  · exact newline_not_mem (List.mem_of_mem_drop hl)

theorem unlines_edit_inj {source : Text} {k n : Nat} {mid mid' : List Text}
    (hMid : ∀ l ∈ mid, '\n' ∉ l) (hMid' : ∀ l ∈ mid', '\n' ∉ l) (hNe : mid ≠ []) (hNe' : mid' ≠ []) :
    unlines ((lines source).take k ++ mid ++ (lines source).drop n) =
        unlines ((lines source).take k ++ mid' ++ (lines source).drop n) ↔ mid = mid' := by
  constructor
  · intro h
    have hLines := congrArg lines h
    rw [lines_unlines (newline_not_mem_edit rfl hMid) (by simp [hNe]),
      lines_unlines (newline_not_mem_edit rfl hMid') (by simp [hNe'])] at hLines
    exact List.append_cancel_left (List.append_cancel_right hLines)
  · rintro rfl
    rfl

theorem reindented_ne_nil (indent newBody : Text) : reindented indent newBody ≠ [] := by
  rw [reindented, ne_eq, List.map_eq_nil_iff]
  exact lines_ne_nil newBody

theorem indented_ne_nil (indent newBody : Text) : indented indent newBody ≠ [] := by
  rw [indented, ne_eq, List.map_eq_nil_iff]
  exact lines_ne_nil newBody

theorem indented_newline {indent newBody : Text} (hIndent : '\n' ∉ indent) :
    ∀ l ∈ indented indent newBody, '\n' ∉ l := by
  intro l hl
  obtain ⟨ln, hln, rfl⟩ := List.mem_map.mp hl
  split
  · exact newline_not_mem hln
  · rw [List.mem_append, not_or]
    exact ⟨hIndent, newline_not_mem hln⟩

theorem reindented_eq_indented_iff (indent newBody : Text) :
    reindented indent newBody = indented indent newBody ↔
      ∀ ln ∈ lines newBody, blank ln = true → ln = [] := by
  rw [reindented, indented, List.map_inj_left]
  refine forall₂_congr fun ln _ => ?_
  by_cases hBlank : blank ln = true
  · simp [hBlank, eq_comm]
  · simp [hBlank]

/-- The body comes out as it should exactly if what is blank in it is empty. -/
theorem InFile.replaced_iff (h : InFile ast d front content rest strip line) (path : Text)
    {newBody newText : Text} (dryRun : Bool) (hBody : AtColumnZero newBody)
    (hOk : (replaceSymbol ast lang path symbol newBody dryRun).edit text = some newText) :
    d.Replaced newBody newText ↔ ∀ ln ∈ lines newBody, blank ln = true → ln = [] := by
  obtain ⟨hTake, hDrop, hLine⟩ := h.split
  have hIndent := newline_not_mem_indentText (List.mem_of_getElem? hLine)
  have hFirst := newline_not_mem_indentText (List.mem_of_getElem? d.firstLine_eq)
  have hNew := h.edit_eq path newBody dryRun hOk
  have hStripped : (reindented (indentText line) newBody).map strip =
      reindented (indentText d.firstLine) newBody := by
    rw [reindented, reindented, List.map_map]
    refine List.map_congr_left fun ln _ => ?_
    rw [Function.comp_apply]
    split
    · exact h.strip_nil
    · rename_i hBlank
      exact h.strip_indent ln (Bool.eq_false_iff.mpr hBlank)
  have hSource : pythonOf lang newText = some (unlines
      ((lines d.source).take (d.target.startLine - 1) ++
        reindented (indentText d.firstLine) newBody ++
        (lines d.source).drop d.target.endLine)) := by
    have hOf := h.pythonOf_eq newBody _ hBody rfl
    rw [hTake, hDrop] at hNew
    rw [h.source_eq, ← hStripped, ← List.map_take, ← List.map_drop, ← List.map_append,
      ← List.map_append, ← hOf, hNew]
    simp only [List.append_assoc]
  rw [← reindented_eq_indented_iff (indentText d.firstLine),
    ← @unlines_edit_inj d.source (d.target.startLine - 1) d.target.endLine _ _
      (reindented_newline hFirst) (indented_newline hFirst) (reindented_ne_nil _ _)
      (indented_ne_nil _ _)]
  constructor
  · intro hReplaced
    exact Option.some.inj (hSource.symm.trans hReplaced.source)
  · intro hEq
    refine ⟨⟨reindented (indentText line) newBody, ?_⟩, hEq ▸ hSource⟩
    rw [hNew, lines_unlines]
    · exact newline_not_mem_edit rfl (reindented_newline hIndent)
    · simp [reindented_ne_nil]

theorem InFile.own_eq (h : InFile ast d front content rest strip line) :
    lines text = (lines text).take (d.target.startLine + lineOffset lang text - 1) ++ d.ownLines ++
        (lines text).drop (d.target.endLine + lineOffset lang text) ∧
      d.ownIndent = indentText line ∧ d.ownLines ≠ [] := by
  obtain ⟨-, -, hLine⟩ := h.split
  have hStart := d.start_pos
  have hOrder := d.start_le
  have hFrom : d.target.startLine + lineOffset lang text - 1 <
      d.target.endLine + lineOffset lang text := by
    omega
  have hHead : d.ownLines.head? = some line := by
    rw [Definition.ownLines, List.head?_drop, List.getElem?_take_of_lt hFrom, hLine]
  refine ⟨?_, ?_, ?_⟩
  · have hTake : (lines text).take (d.target.startLine + lineOffset lang text - 1) =
        ((lines text).take (d.target.endLine + lineOffset lang text)).take
          (d.target.startLine + lineOffset lang text - 1) := by
      rw [List.take_take, Nat.min_eq_left (Nat.le_of_lt hFrom)]
    rw [Definition.ownLines, hTake, List.take_append_drop, List.take_append_drop]
  · rw [Definition.ownIndent, hHead]
    rfl
  · intro hNil
    rw [hNil] at hHead
    cases hHead

theorem reindent_eq_self_iff {indent l : Text} (hIndent : ∀ c ∈ indent, Python.isSpace c = true) :
    (if blank (deindented indent l) then [] else indent ++ deindented indent l) = l ↔
      l = [] ∨ (blank l = false ∧ indent <+: l) := by
  have hBlank : blank (deindented indent l) = blank l := by
    rw [deindented]
    split
    · rename_i hPrefix
      obtain ⟨r, rfl⟩ := hPrefix
      rw [List.drop_left, Bool.eq_iff_iff, blank_iff, blank_iff]
      constructor
      · intro h c hc
        obtain hc | hc := List.mem_append.mp hc
        · exact hIndent c hc
        · exact h c hc
      · exact fun h c hc => h c (List.mem_append_right _ hc)
    · rfl
  rw [hBlank]
  split
  · rename_i h
    simp [h, eq_comm]
  · rename_i h
    rw [Bool.not_eq_true] at h
    have hNe : l ≠ [] := by
      rintro rfl
      cases h
    rw [deindented]
    split
    · rename_i hPrefix
      obtain ⟨r, rfl⟩ := hPrefix
      simp [h]
    · rename_i hPrefix
      refine iff_of_false (fun hEq => ?_) (by simp [hNe, hPrefix])
      obtain rfl := List.append_left_eq_self.mp hEq
      exact hPrefix List.nil_prefix

/-- The own text leaves the file as it is exactly if its lines have the indent or are empty. -/
theorem InFile.own_iff (h : InFile ast d front content rest strip line) (path : Text)
    {newText : Text} (dryRun : Bool)
    (hOk : (replaceSymbol ast lang path symbol d.ownBody dryRun).edit text = some newText) :
    newText = text ↔ ∀ l ∈ d.ownLines, l = [] ∨ (blank l = false ∧ d.ownIndent <+: l) := by
  obtain ⟨hSplit, hIndent, hNe⟩ := h.own_eq
  obtain ⟨-, -, hLine⟩ := h.split
  have hOwn : ∀ l ∈ d.ownLines, '\n' ∉ l := fun l hl =>
    newline_not_mem (List.mem_of_mem_take (List.mem_of_mem_drop hl))
  have hBody : lines d.ownBody = d.ownLines.map (deindented d.ownIndent) := by
    apply lines_unlines
    · intro l hl
      obtain ⟨l', hl', rfl⟩ := List.mem_map.mp hl
      rw [deindented]
      split
      · exact fun hMem => hOwn l' hl' ((List.drop_suffix _ _).subset hMem)
      · exact hOwn l' hl'
    · simpa using hNe
  have hNew := h.edit_eq path d.ownBody dryRun hOk
  have hText : text = unlines ((lines text).take (d.target.startLine + lineOffset lang text - 1) ++
      d.ownLines ++ (lines text).drop (d.target.endLine + lineOffset lang text)) := by
    rw [← hSplit, unlines_lines]
  have hSame : newText = text ↔ reindented (indentText line) d.ownBody = d.ownLines := by
    conv_lhs => rw [hText, hNew]
    exact unlines_edit_inj
      (reindented_newline (newline_not_mem_indentText (List.mem_of_getElem? hLine))) hOwn
      (reindented_ne_nil _ _) hNe
  rw [hSame, reindented, hBody, List.map_map, ← hIndent]
  conv_lhs => rhs; rw [← List.map_id d.ownLines]
  rw [List.map_inj_left]
  refine forall₂_congr fun l _ => ?_
  refine reindent_eq_self_iff fun c hc => ?_
  rw [hIndent] at hc
  exact isSpace_of_mem_indentText hc

end

/-- When a definition is replaced as it should be, and when by its own text. -/
theorem replace_symbol_iff {lang : Language} {symbol text : Text}
    (d : Definition ast lang symbol text) (path : Text) (dryRun : Bool) :
    (∀ newBody newText, AtColumnZero newBody →
      (replaceSymbol ast lang path symbol newBody dryRun).edit text = some newText →
      (d.Replaced newBody newText ↔ ∀ ln ∈ lines newBody, blank ln = true → ln = [])) ∧
    ∀ newText, (replaceSymbol ast lang path symbol d.ownBody dryRun).edit text = some newText →
      (newText = text ↔ ∀ l ∈ d.ownLines, l = [] ∨ (blank l = false ∧ d.ownIndent <+: l)) := by
  obtain ⟨front, content, rest, strip, line, h⟩ := d.exists_inFile
  constructor
  · intro newBody newText hBody hOk
    exact h.replaced_iff path dryRun hBody hOk
  · intro newText hOk
    exact h.own_iff path dryRun hOk

/-! ## Examples -/

def methodText : Text := "data:\n  a.py: |\n    class A:\n      def f(self):\n        pass".toList

def methodAst (_ : Text) : Option (List Symbol) :=
  some [.mk ['A'] 1 3 [.mk ['f'] 2 3 []]]

def method : Definition methodAst .pythonInYaml "A.f".toList methodText where
  source := "class A:\n  def f(self):\n    pass".toList
  symbols := [.mk ['A'] 1 3 [.mk ['f'] 2 3 []]]
  target := .mk ['f'] 2 3 []
  firstLine := "  def f(self):".toList
  source_eq := by decide
  symbols_eq := rfl
  target_eq := by rfl
  start_pos := by decide
  start_le := by decide
  end_le := by decide
  firstLine_eq := by decide
  firstLine_not_blank := by decide
  literal := by
    intro b line _ hBlock hLine
    have hFound : findLiteralBlock methodText = some ⟨"a.py".toList, 2, 3, 5, 4⟩ := by rfl
    obtain rfl := Option.some.inj (hFound.symm.trans hBlock)
    obtain rfl : "      def f(self):".toList = line := Option.some.inj hLine
    decide

theorem method_replaced :
    method.Replaced "def f(self):\n  return 1".toList
      "data:\n  a.py: |\n    class A:\n      def f(self):\n        return 1".toList :=
  ((replace_symbol_iff method [] true).1 _ _ ⟨'d', "ef f(self):\n  return 1".toList, rfl, by decide⟩
    (by rfl)).mpr (by decide)

def stringText : Text := "def f():\n return \"\"\"\n \n\"\"\"".toList

def stringAst (_ : Text) : Option (List Symbol) := some [.mk ['f'] 1 4 []]

def stringFunction : Definition stringAst .python ['f'] stringText where
  source := stringText
  symbols := [.mk ['f'] 1 4 []]
  target := .mk ['f'] 1 4 []
  firstLine := "def f():".toList
  source_eq := rfl
  symbols_eq := rfl
  target_eq := by rfl
  start_pos := by decide
  start_le := by decide
  end_le := by decide
  firstLine_eq := by decide
  firstLine_not_blank := by decide
  literal := by
    intro b line h
    cases h

theorem string_loses_blank :
    stringFunction.ownBody = stringText ∧
      (replaceSymbol stringAst .python [] ['f'] stringText true).edit stringText =
        some "def f():\n return \"\"\"\n\n\"\"\"".toList ∧
      ¬stringFunction.Replaced stringText "def f():\n return \"\"\"\n\n\"\"\"".toList := by
  have hOk : (replaceSymbol stringAst .python [] ['f'] stringText true).edit stringText =
      some "def f():\n return \"\"\"\n\n\"\"\"".toList := by rfl
  refine ⟨by rfl, hOk, fun h => ?_⟩
  have hSource := h.source
  revert hSource
  decide

end OpenSpoke.GitHub
