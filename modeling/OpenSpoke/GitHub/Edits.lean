import Mathlib.Data.List.DropRight
import OpenSpoke.Python.Text

/-!
# Edits of files on GitHub

What `regex-replace`, `replace-symbol` and `github_move_block` make of the text of a file.
Regular expressions and the outline of a Python source are parameters.
-/

namespace OpenSpoke.GitHub

open Python (Text)

def lines (text : Text) : List Text := text.splitOn '\n'

def unlines (ls : List Text) : Text := List.intercalate ['\n'] ls

theorem lines_cons (c : Char) (text : Text) :
    lines (c :: text) = if c = '\n' then [] :: lines text else (lines text).modifyHead (c :: ·) := by
  rw [lines, List.splitOn_eq_splitOnP, List.splitOnP_cons_eq_if_modifyHead, lines,
    List.splitOn_eq_splitOnP]
  simp

theorem lines_ne_nil (text : Text) : lines text ≠ [] := List.splitOn_ne_nil '\n' text

theorem unlines_lines (text : Text) : unlines (lines text) = text := List.intercalate_splitOn '\n'

theorem lines_unlines {ls : List Text} (hLines : ∀ l ∈ ls, '\n' ∉ l) (hNe : ls ≠ []) :
    lines (unlines ls) = ls :=
  List.splitOn_intercalate '\n' hLines hNe

theorem newline_not_mem {text line : Text} (h : line ∈ lines text) : '\n' ∉ line := by
  induction text generalizing line with
  | nil =>
    obtain rfl : line = [] := by simpa [lines] using h
    exact List.not_mem_nil
  | cons c text ih =>
    rw [lines_cons] at h
    split at h
    · obtain rfl | h := List.mem_cons.mp h
      · exact List.not_mem_nil
      · exact ih h
    · rename_i hc
      obtain ⟨first, rest, hLines⟩ := List.exists_cons_of_ne_nil (lines_ne_nil text)
      rw [hLines, List.modifyHead_cons] at h
      obtain rfl | h := List.mem_cons.mp h
      · intro hMem
        obtain hEq | hMem := List.mem_cons.mp hMem
        · exact hc hEq.symm
        · exact ih (hLines ▸ List.mem_cons_self) hMem
      · exact ih (hLines ▸ List.mem_cons_of_mem first h)

theorem unlines_cons_cons (l l' : Text) (ls : List Text) :
    unlines (l :: l' :: ls) = l ++ '\n' :: unlines (l' :: ls) := by
  rw [unlines, List.intercalate_cons_cons, List.append_assoc]
  rfl

theorem infix_unlines {line : Text} {ls : List Text} (h : line ∈ ls) : line <:+: unlines ls := by
  induction ls with
  | nil => cases h
  | cons l ls ih =>
    cases ls with
    | nil =>
      obtain rfl := List.mem_singleton.mp h
      rw [unlines, List.intercalate_singleton]
    | cons l' ls =>
      rw [unlines_cons_cons]
      obtain rfl | h := List.mem_cons.mp h
      · exact (List.prefix_append _ _).isInfix
      · exact (ih h).trans ((List.suffix_cons '\n' _).trans (List.suffix_append l _)).isInfix

/-! ## regex-replace -/

structure RegexReplace where
  path : Text
  -- `rx.subn(replacement, line, count)`
  subn : Text → Nat → Text × Nat
  -- `line_rx.search`
  lineRx : Option (Text → Bool)
  startLine : Int
  endLine : Int
  maxCount : Int
  dryRun : Bool

namespace RegexReplace

variable (r : RegexReplace)

def skips (no : Int) (line : Text) : Bool :=
  r.startLine ≠ 0 && no < r.startLine || r.endLine ≠ 0 && r.endLine < no ||
    r.lineRx.any fun rx => !rx line

/-- The lines from number `no` on after the loop, and the number of replacements by then. -/
def loop : Int → Nat → List Text → List Text × Nat
  | _, total, [] => ([], total)
  | no, total, line :: rest =>
    if r.skips no line then
      let out := loop (no + 1) total rest
      (line :: out.1, out.2)
    else if r.maxCount ≠ 0 ∧ r.maxCount ≤ total then (line :: rest, total)
    else
      let room := if r.maxCount ≠ 0 then (r.maxCount - total).toNat else 0
      let sub := r.subn line room
      let out := loop (no + 1) (total + sub.2) rest
      ((if sub.2 ≠ 0 then sub.1 else line) :: out.1, out.2)

/-- None if nothing matches. -/
def edit (text : Text) : Option Text :=
  let out := r.loop 1 0 (lines text)
  if out.2 = 0 then none else some (unlines out.1)

end RegexReplace

/-! ## replace-symbol -/

inductive Symbol
  | mk (name : Text) (startLine endLine : Nat) (children : List Symbol)

namespace Symbol

def name : Symbol → Text
  | mk name _ _ _ => name

def startLine : Symbol → Nat
  | mk _ startLine _ _ => startLine

def endLine : Symbol → Nat
  | mk _ _ endLine _ => endLine

def children : Symbol → List Symbol
  | mk _ _ _ children => children

/-- The child of a child, and so on. -/
def descend (s : Symbol) : List Text → Option Symbol
  | [] => some s
  | p :: parts => (s.children.find? fun c => c.name = p).bind (descend · parts)

end Symbol

structure ReplaceSymbol where
  path : Text
  symbol : Text
  newBody : Text
  -- the symbols of the source, or of the Python in it, none if it does not parse
  outline : Text → Option (List Symbol)
  -- whether the source still parses
  parses : Text → Bool
  dryRun : Bool

namespace ReplaceSymbol

variable (r : ReplaceSymbol)

def target (symbols : List Symbol) : Option Symbol :=
  match r.symbol.splitOn '.' with
  | [] => none
  | head :: parts => (symbols.find? fun s => s.name = head).bind (Symbol.descend · parts)

/-- `_gh_apply_indent`. -/
def applyIndent (indent : Text) : List Text :=
  (lines r.newBody).map fun ln => if Python.strip ln ≠ [] then indent ++ ln else []

def edit (text : Text) : Option Text := do
  let symbols ← r.outline text
  let target ← r.target symbols
  let all := lines text
  let first := if target.startLine = 0 then [] else (all[target.startLine - 1]?).getD []
  let indented := r.applyIndent (first.takeWhile Python.isSpace)
  let new := unlines (all.take (target.startLine - 1) ++ indented ++ all.drop target.endLine)
  if r.parses new then some new else none

end ReplaceSymbol

/-! ## github_move_block -/

inductive BlockRange
  | lines (startLine endLine : Int)
  | patterns (first last : Text → Bool)

/-- The first and the last of the lines, from 0. -/
def BlockRange.bounds (src : List Text) : BlockRange → Option (Nat × Nat)
  | lines startLine endLine =>
    if startLine < 1 ∨ endLine < 1 ∨ endLine < startLine ∨ src.length < endLine then none
    else some ((startLine - 1).toNat, (endLine - 1).toNat)
  | patterns first last => do
    let bi ← src.findIdx? first
    let n ← (src.drop bi).findIdx? last
    some (bi, bi + n)

structure MoveBlock where
  src : Text
  dst : Text
  range : BlockRange
  -- `dst_anchor_pattern`
  anchor : Option (Text → Bool)
  -- whether `dst_insert` is start
  atStart : Bool

namespace MoveBlock

variable (m : MoveBlock)

def block (src : Text) : Option (List Text) := do
  let (bi, ei) ← m.range.bounds (lines src)
  let block := ((lines src).take (ei + 1)).drop bi
  if Python.strip (unlines block) = [] then none else some block

/-- The source without the block. -/
def edit (src : Text) : Option Text := do
  let _ ← m.block src
  let (bi, ei) ← m.range.bounds (lines src)
  some (unlines ((lines src).take bi ++ (lines src).drop (ei + 1)))

def insertLines (block dst : List Text) : Option (List Text) :=
  match m.anchor with
  | some rx => (dst.findIdx? rx).map fun ai => dst.take (ai + 1) ++ block ++ dst.drop (ai + 1)
  | none =>
    if m.atStart then some (block ++ dst)
    else some (dst.rdropWhile (fun l => l = []) ++ [[]] ++ block)

/-- The destination with the block; it may be new. -/
def insert (block : List Text) (dst : Option Text) : Option Text :=
  if dst.getD [] = [] then some (unlines block ++ ['\n'])
  else
    (m.insertLines block (lines (dst.getD []))).map fun ls =>
      if (unlines ls).getLast? = some '\n' then unlines ls else unlines ls ++ ['\n']

end MoveBlock

end OpenSpoke.GitHub
