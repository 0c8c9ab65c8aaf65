import OpenSpoke.Lib.Cut
import OpenSpoke.Lib.Leftmost
import OpenSpoke.Python.Int
import OpenSpoke.Python.Lines

/-!
# Answers of `node_exec`

The spoke writes what a command has given as a text, with a line for the exit code and a section
for each of the two streams; the kernel takes the text apart again.
-/

namespace OpenSpoke.Kubeconfig.NodeExec

open Cut (before after)
open Python (Text isSpace strip decimal digitCount intOf isDecimal unlines)

/-- What the node shell answers; an integer in its JSON has at most 4300 digits. -/
structure Shell where
  exitCode : Int
  short : digitCount exitCode ≤ 4300
  durationMs : Int
  timeout : Bool
  truncated : Bool
  stdout : Text
  stderr : Text

/-- The ways in which `node_exec` and `_spoke_call` fail, with the texts that they show. -/
inductive Failure
  | noApiKey
  | noHttpx
  | noNode
  | noCommand
  | pod (type message : Text)
  | timedOut (timeout durationMs : Int)
  | raised (type message : Text)
  | status (code : Int) (body : Text)
  | notJson (body : Text)
  | denied (cluster allowed : Text)
  | noSpokes
  | unknownCluster (cluster known : Text)
  | noUrl (cluster : Text)
  | emptyAnswer
  | callFailed (cluster type message : Text)

structure Parsed where
  stdout : Text
  stderr : Text
  exitCode : Int
  deriving DecidableEq

def rstrip (t : Text) : Text := t.rdropWhile isSpace

/-! ## The texts -/

def exitMark : Text := "exit_code=".toList
def stdoutTitle : Text := ['\n', '[', 's', 't', 'd', 'o', 'u', 't', ']']
def stderrTitle : Text := ['\n', '[', 's', 't', 'd', 'e', 'r', 'r', ']']
def empty : Text := ['(', 'e', 'm', 'p', 't', 'y', ')']

def headFront : Text := "## node_exec node=".toList

def headBack (r : Shell) (spokeMs : Int) : Text :=
  " duration=".toList ++ decimal r.durationMs ++ "ms  spoke=".toList ++ decimal spokeMs ++
    "ms".toList ++ (if r.timeout then "  TIMEOUT".toList else []) ++
    (if r.truncated then "  TRUNCATED".toList else [])

def headLine (node : Text) (r : Shell) (spokeMs : Int) : Text :=
  headFront ++ (node ++ ' ' :: ' ' :: (exitMark ++ (decimal r.exitCode ++ ' ' ::
    headBack r spokeMs)))

/-- The text of `node_exec`. -/
def nodeExec (node : Text) (r : Shell) (spokeMs : Int) : Text :=
  unlines ([headLine node r spokeMs] ++
    (if r.stdout ≠ [] then [stdoutTitle, rstrip r.stdout] else [stdoutTitle ++ ' ' :: empty]) ++
    (if r.stderr ≠ [] then [stderrTitle, rstrip r.stderr] else []))

/-- `f"{type(e).__name__}: {str(e)[:n]}"`. -/
def shown (type message : Text) (n : Nat) : Text := type ++ ": ".toList ++ message.take n

def Failure.text : Failure → Text
  | noApiKey => ("実行失敗: NODE_SHELL_API_KEY が未設定です " ++
      "(Secret node-shell-auth が rag-spoke にあるか確認)").toList
  | noHttpx => "実行失敗: httpx ライブラリが利用できません".toList
  | noNode => "エラー: node が指定されていません。".toList
  | noCommand => "エラー: command が指定されていません。".toList
  | pod type message => "対象 Pod 検索失敗: ".toList ++ shown type message 300
  | timedOut timeout durationMs => "実行失敗: node-shell timeout after ".toList ++ decimal timeout ++
      "s (duration=".toList ++ decimal durationMs ++ "ms)".toList
  | raised type message => "実行失敗: ".toList ++ shown type message 200
  | status code body => "実行失敗: HTTP ".toList ++ decimal code ++ ": ".toList ++ body.take 500
  | notJson body => "実行失敗: non-json response: ".toList ++ body.take 200
  | denied cluster allowed => "❌ クラスタ '".toList ++ cluster ++
      "' へのアクセス権限がありません。 許可されているクラスタ: ".toList ++ allowed ++
      "。 管理者 (openspoke_admin) に user_acl 設定を依頼してください。".toList
  | noSpokes => ("エラー: スポークが 1 つも登録されていません (OpenSearch index=spoke_clusters が空)。" ++
      " spoke_register で登録してください。").toList
  | unknownCluster cluster known => "エラー: 未知の cluster '".toList ++ cluster ++
      "'。 登録済み: ".toList ++ known
  | noUrl cluster => "エラー: cluster '".toList ++ cluster ++ "' の url が未設定です。".toList
  | emptyAnswer => "(スポークから空応答)".toList
  | callFailed cluster type message => "エラー: スポーク '".toList ++ cluster ++
      "' の呼び出しに失敗しました (".toList ++ shown type message 200 ++ ")".toList

/-! ## The parser -/

def stdoutMark : Text := stdoutTitle ++ ['\n']
def stderrMark : Text := stderrTitle ++ ['\n']

/-- The match of `-?\d+` at the beginning. -/
def numberAt : Text → Option Text
  | '-' :: t => if t.takeWhile isDecimal = [] then none else some ('-' :: t.takeWhile isDecimal)
  | t => if t.takeWhile isDecimal = [] then none else some (t.takeWhile isDecimal)

/-- The group of `exit_code=(-?\d+)` at the beginning. -/
def exitCodeAt (t : Text) : Option Text :=
  if exitMark.isPrefixOf t then numberAt (t.drop exitMark.length) else none

def exitCodeOf (raw : Text) : Int :=
  match Leftmost.search exitCodeAt raw with
  | some number => (intOf number).getD (-1)
  | none => -1

def content (t : Text) : Text := if strip t = empty then [] else strip t

def parseNodeExecOutput (raw : Text) : Parsed where
  stdout := ((after stdoutMark raw).map fun rest => content (before stderrTitle rest)).getD []
  stderr := ((after stderrMark raw).map content).getD []
  exitCode := exitCodeOf raw

/-! ## The exit code -/

theorem exitCodeAt_of_apart {l rest : Text} (h : ¬l <+: exitMark ∧ ¬exitMark <+: l) :
    exitCodeAt (l ++ rest) = none := by
  refine if_neg fun hPrefix => ?_
  obtain hIn | hOut := List.prefix_or_prefix_of_prefix (List.isPrefixOf_iff_prefix.mp hPrefix)
    (List.prefix_append l rest)
  · exact h.2 hIn
  · exact h.1 hOut

theorem takeWhile_append_stop {p : Char → Bool} {d : Char} (hd : p d = false) (l rest : Text) :
    (l ++ d :: rest).takeWhile p = l.takeWhile p := by
  induction l with
  | nil => rw [List.nil_append, List.takeWhile_cons, hd, if_neg Bool.false_ne_true]; rfl
  | cons c l ih => rw [List.cons_append, List.takeWhile_cons, List.takeWhile_cons, ih]

theorem numberAt_append_blank (l rest : Text) : numberAt (l ++ ' ' :: rest) = numberAt l := by
  have hStop : ∀ l : Text, (l ++ ' ' :: rest).takeWhile isDecimal = l.takeWhile isDecimal :=
    fun l => takeWhile_append_stop (by decide) l rest
  cases l with
  | nil => rfl
  | cons c l =>
    by_cases hc : c = '-'
    · subst hc
      rw [List.cons_append, numberAt, numberAt, hStop]
    · have hNumber : ∀ l : Text, numberAt (c :: l) = if (c :: l).takeWhile isDecimal = [] then none
          else some ((c :: l).takeWhile isDecimal) := by
        intro l
        unfold numberAt
        split
        next hEq => exact absurd (List.cons.inj hEq).1 hc
        next => rfl
      rw [List.cons_append, hNumber, hNumber, ← List.cons_append, hStop]

theorem exitCodeAt_append_blank (l rest : Text) : exitCodeAt (l ++ ' ' :: rest) = exitCodeAt l := by
  unfold exitCodeAt
  by_cases hPrefix : exitMark <+: l
  · rw [if_pos (List.isPrefixOf_iff_prefix.mpr hPrefix),
      if_pos (List.isPrefixOf_iff_prefix.mpr (hPrefix.trans (List.prefix_append l _))),
      List.drop_append_of_le_length hPrefix.length_le, numberAt_append_blank]
  · rw [if_neg (mt List.isPrefixOf_iff_prefix.mp hPrefix)]
    refine if_neg fun hMore => ?_
    obtain hIn | ⟨u, hu⟩ := List.prefix_or_prefix_of_prefix (List.isPrefixOf_iff_prefix.mp hMore)
      (List.prefix_append l (' ' :: rest))
    · exact hPrefix hIn
    · rw [List.isPrefixOf_iff_prefix, ← hu, List.prefix_append_right_inj] at hMore
      cases u with
      | nil => exact hPrefix (by rw [← hu, List.append_nil])
      | cons c u =>
        obtain ⟨rfl, -⟩ := List.cons_prefix_cons.mp hMore
        have hBlank : ' ' ∈ exitMark := hu ▸ List.mem_append_right l List.mem_cons_self
        exact absurd hBlank (by decide)

theorem numberAt_decimal (i : Int) : numberAt (decimal i) = some (decimal i) := by
  have hDigits : ∀ n : Nat, (Nat.toDigits 10 n).takeWhile isDecimal = Nat.toDigits 10 n := fun n =>
    List.takeWhile_eq_self_iff.mpr fun c hc =>
      Python.isDecimal_of_isDigit (Python.toDigits_isDigit hc)
  cases i with
  | negSucc n => rw [decimal, numberAt, hDigits, if_neg Nat.toDigits_ne_nil]
  | ofNat n =>
    unfold numberAt
    split
    next t hEq =>
      have hMem : '-' ∈ decimal (.ofNat n) := hEq ▸ List.mem_cons_self
      exact absurd (Python.toDigits_isDigit hMem) (by decide)
    next => rw [decimal, hDigits, if_neg Nat.toDigits_ne_nil]

theorem exitCodeAt_nil : exitCodeAt [] = none := rfl

theorem search_front (rest : Text) :
    Leftmost.search exitCodeAt (headFront ++ rest) =
      Leftmost.search exitCodeAt rest := by
  have hFront : ∀ l ∈ headFront.tails, l ≠ [] →
      ¬l <+: exitMark ∧ ¬exitMark <+: l := by decide
  have hNone : Leftmost.search exitCodeAt headFront = none := by
    refine Leftmost.search_eq_none_iff.mpr fun l hl => ?_
    by_cases hne : l = []
    · rw [hne, exitCodeAt_nil]
    · rw [← List.append_nil l]
      exact exitCodeAt_of_apart (hFront l ((List.mem_tails _ _).mpr hl) hne)
  rw [Leftmost.search_append_of_local exitCodeAt_nil, hNone, Option.none_or]
  intro l hl hne
  have hApart := hFront l ((List.mem_tails _ _).mpr hl) hne
  have hAlone : exitCodeAt (l ++ []) = none := exitCodeAt_of_apart hApart
  rw [List.append_nil] at hAlone
  rw [exitCodeAt_of_apart hApart, hAlone]

theorem search_blank (rest : Text) :
    Leftmost.search exitCodeAt (' ' :: rest) = Leftmost.search exitCodeAt rest := by
  have hNone : exitCodeAt ([' '] ++ rest) = none := exitCodeAt_of_apart (by decide)
  rw [Leftmost.search_cons, ← List.singleton_append, hNone, Option.none_or]

theorem search_exitMark (i : Int) (rest : Text) :
    Leftmost.search exitCodeAt (exitMark ++ (decimal i ++ ' ' :: rest)) = some (decimal i) := by
  apply Leftmost.search_here
  rw [exitCodeAt, if_pos (List.isPrefixOf_iff_prefix.mpr (List.prefix_append _ _)),
    List.drop_left, numberAt_append_blank, numberAt_decimal]

theorem search_headLine (node : Text) (r : Shell) (spokeMs : Int) (body : Text) :
    Leftmost.search exitCodeAt (headLine node r spokeMs ++ body) =
      (Leftmost.search exitCodeAt node).or (some (decimal r.exitCode)) := by
  simp only [headLine, List.append_assoc, List.cons_append]
  rw [search_front, Leftmost.search_append_of_local exitCodeAt_nil
    fun l _ _ => exitCodeAt_append_blank l _, search_blank, search_blank, search_exitMark]

theorem exitCode_nodeExec (node : Text) (r : Shell) (spokeMs : Int) (body : Text) :
    exitCodeOf (headLine node r spokeMs ++ body) =
      match Leftmost.search exitCodeAt node with
      | some number => (intOf number).getD (-1)
      | none => r.exitCode := by
  rw [exitCodeOf, search_headLine]
  cases Leftmost.search exitCodeAt node with
  | some number => rfl
  | none =>
    simp only [Option.none_or]
    rw [Python.intOf_decimal r.short]
    rfl

/-! ## The sections -/

/-- The section of stderr, with what stands before it. -/
def errorPart (r : Shell) : Text :=
  if r.stderr = [] then [] else '\n' :: (stderrTitle ++ '\n' :: rstrip r.stderr)

theorem nodeExec_output {r : Shell} (h : r.stdout ≠ []) (node : Text) (spokeMs : Int) :
    nodeExec node r spokeMs = headLine node r spokeMs ++
      ('\n' :: stdoutTitle ++ '\n' :: (rstrip r.stdout ++ errorPart r)) := by
  rw [nodeExec, if_pos h, errorPart]
  by_cases hErr : r.stderr = []
  · rw [if_neg (not_not.mpr hErr), if_pos hErr]
    simp [unlines, List.intercalate]
  · rw [if_pos hErr, if_neg hErr]
    simp [unlines, List.intercalate]

theorem nodeExec_silent {r : Shell} (h : r.stdout = []) (node : Text) (spokeMs : Int) :
    nodeExec node r spokeMs = headLine node r spokeMs ++
      ('\n' :: (stdoutTitle ++ ' ' :: empty) ++ errorPart r) := by
  rw [nodeExec, if_neg (not_not.mpr h), errorPart]
  by_cases hErr : r.stderr = []
  · rw [if_neg (not_not.mpr hErr), if_pos hErr]
    simp [unlines, List.intercalate]
  · rw [if_pos hErr, if_neg hErr]
    simp [unlines, List.intercalate]

theorem newline_not_mem_headLine {node : Text} (hNode : ∀ c ∈ node, isSpace c = false) (r : Shell)
    (spokeMs : Int) : '\n' ∉ headLine node r spokeMs := by
  have hNot : '\n' ∉ node := fun h => absurd (hNode _ h) (by decide)
  have hDecimal := Python.newline_not_mem_decimal
  have hFront : '\n' ∉ headFront := by decide
  have hMark : '\n' ∉ exitMark := by decide
  have hBack : '\n' ∉ headBack r spokeMs := by
    unfold headBack
    cases r.timeout <;> cases r.truncated <;> simp [hDecimal]
  simp [headLine, hNot, hDecimal, hFront, hMark, hBack]

theorem after_headLine {node : Text} (hNode : ∀ c ∈ node, isSpace c = false) (r : Shell)
    (spokeMs : Int) (mark body : Text) :
    after ('\n' :: mark) (headLine node r spokeMs ++ body) = after ('\n' :: mark) body :=
  Cut.after_of_cut (Cut.cut_append_of_notMem (newline_not_mem_headLine hNode r spokeMs))

/-- Text in which neither the mark begins nor that begins it is passed over. -/
theorem after_apart (front : Text) {mark : Text}
    (h : ∀ l ∈ front.tails, l ≠ [] → ¬l <+: mark ∧ ¬mark <+: l) (rest : Text) :
    after mark (front ++ rest) = after mark rest :=
  Cut.after_of_cut (Cut.cut_append_of_apart h)

theorem cut_newlines (mark rest : Text) :
    Cut.cut ('\n' :: '[' :: mark) (['\n'] ++ '\n' :: rest) =
      (Cut.cut ('\n' :: '[' :: mark) ('\n' :: rest)).map fun p => (['\n'] ++ p.1, p.2) := by
  refine Cut.cut_append fun l hl hne hPrefix => ?_
  have hAll : l = ['\n'] := by
    obtain rfl | hNil := List.suffix_cons_iff.mp hl
    · rfl
    · exact absurd (List.suffix_nil.mp hNil) hne
  subst hAll
  obtain ⟨hBracket, -⟩ := List.cons_prefix_cons.mp (List.cons_prefix_cons.mp hPrefix).2
  exact absurd hBracket (by decide)

theorem after_newlines (mark rest : Text) :
    after ('\n' :: '[' :: mark) ('\n' :: '\n' :: rest) =
      after ('\n' :: '[' :: mark) ('\n' :: rest) :=
  Cut.after_of_cut (cut_newlines mark rest)

section Output

variable {node : Text} (hNode : ∀ c ∈ node, isSpace c = false) {r : Shell} (spokeMs : Int)

include hNode

theorem stdout_of_output (h : r.stdout ≠ []) :
    (parseNodeExecOutput (nodeExec node r spokeMs)).stdout =
      content (before stderrTitle (rstrip r.stdout ++ errorPart r)) := by
  have hAfter : after stdoutMark (nodeExec node r spokeMs) =
      some (rstrip r.stdout ++ errorPart r) := by
    rw [nodeExec_output h, stdoutMark, stdoutTitle]
    refine (after_headLine hNode r spokeMs _ _).trans ((after_newlines _ _).trans ?_)
    exact Cut.after_prefix stdoutMark _
  rw [parseNodeExecOutput, hAfter]
  rfl

theorem stderr_of_output (h : r.stdout ≠ []) :
    (parseNodeExecOutput (nodeExec node r spokeMs)).stderr =
      ((after stderrMark ('\n' :: (rstrip r.stdout ++ errorPart r))).map content).getD [] := by
  have hAfter : after stderrMark (nodeExec node r spokeMs) =
      after stderrMark ('\n' :: (rstrip r.stdout ++ errorPart r)) := by
    rw [nodeExec_output h]
    exact (after_headLine hNode r spokeMs _ _).trans (after_apart _ (by decide) _)
  rw [parseNodeExecOutput, hAfter]

theorem stdout_of_silent (h : r.stdout = []) :
    (parseNodeExecOutput (nodeExec node r spokeMs)).stdout =
      if r.stderr = [] then [] else
        ((after stdoutMark ('\n' :: rstrip r.stderr)).map
          fun rest => content (before stderrTitle rest)).getD [] := by
  have hAfter : after stdoutMark (nodeExec node r spokeMs) = after stdoutMark (errorPart r) := by
    rw [nodeExec_silent h]
    exact (after_headLine hNode r spokeMs _ _).trans (after_apart _ (by decide) _)
  rw [parseNodeExecOutput, hAfter, errorPart]
  split
  · rfl
  · have hTitle : after stdoutMark ('\n' :: (stderrTitle ++ '\n' :: rstrip r.stderr)) =
        after stdoutMark ('\n' :: rstrip r.stderr) :=
      after_apart ('\n' :: stderrTitle) (by decide) _
    rw [hTitle]

theorem stderr_of_silent (h : r.stdout = []) :
    (parseNodeExecOutput (nodeExec node r spokeMs)).stderr =
      if r.stderr = [] then [] else content (rstrip r.stderr) := by
  have hAfter : after stderrMark (nodeExec node r spokeMs) = after stderrMark (errorPart r) := by
    rw [nodeExec_silent h]
    exact (after_headLine hNode r spokeMs _ _).trans (after_apart _ (by decide) _)
  rw [parseNodeExecOutput, hAfter, errorPart]
  split
  · rfl
  · have hTitle : after stderrMark ('\n' :: (stderrTitle ++ '\n' :: rstrip r.stderr)) =
        some (rstrip r.stderr) :=
      (after_newlines _ _).trans (Cut.after_prefix stderrMark _)
    rw [hTitle]
    rfl

end Output

/-! ## What is read back -/

/-- What the kernel reads is what the command has given, up to blanks around it. -/
structure ReadBack (node : Text) (r : Shell) (spokeMs : Int) : Prop where
  exitCode : (parseNodeExecOutput (nodeExec node r spokeMs)).exitCode = r.exitCode
  stdout : strip (parseNodeExecOutput (nodeExec node r spokeMs)).stdout = strip r.stdout
  stderr : strip (parseNodeExecOutput (nodeExec node r spokeMs)).stderr = strip r.stderr

/-- A section with the text is read as an empty one. -/
def Hollow (t : Text) : Prop := strip t = [] ∨ strip t = empty

/-- When the marks of the text are not imitated. -/
structure Plain (node : Text) (r : Shell) : Prop where
  -- an exit code in the name is the exit code
  exitCode : ∀ number, Leftmost.search exitCodeAt node = some number →
    (intOf number).getD (-1) = r.exitCode
  stdout : strip r.stdout ≠ empty
  stderr : strip r.stderr ≠ empty
  uncut : ¬stderrTitle <:+: rstrip r.stdout
  -- stdout does not begin with the title of stderr, unless nothing but (empty) follows
  titled : r.stdout ≠ [] →
    stderrMark.tail <+: rstrip r.stdout ++ (if r.stderr = [] then [] else ['\n']) →
    r.stderr = [] ∧ Hollow ((rstrip r.stdout).drop stderrMark.tail.length)
  -- where stdout is empty, stderr has no line with its title, unless nothing follows
  untitled : r.stdout = [] → r.stderr ≠ [] → ∀ rest,
    after stdoutMark ('\n' :: rstrip r.stderr) = some rest → Hollow (before stderrTitle rest)

theorem content_eq_nil_iff {t : Text} : content t = [] ↔ Hollow t := by
  unfold content Hollow
  split
  next h => simp [h]
  next h => simp [h]

theorem strip_content (t : Text) : strip (content t) = content t := by
  unfold content
  split
  · rfl
  · exact Python.strip_strip t

theorem content_of_ne {t : Text} (h : strip t ≠ empty) : content t = strip t := if_neg h

theorem strip_rstrip (t : Text) : strip (rstrip t) = strip t := by
  have hSplit : rstrip t ++ t.rtakeWhile isSpace = t := List.rdropWhile_append_rtakeWhile
  have hBack : ∀ c ∈ t.rtakeWhile isSpace, isSpace c = true := fun c hc =>
    List.mem_rtakeWhile_imp hc
  rw [strip, strip, ← Python.stripIf_append_of_all hBack (rstrip t), hSplit]

theorem content_rstrip (t : Text) : content (rstrip t) = content t := by
  rw [content, strip_rstrip, content]

/-- The number of characters that are not blank. -/
def ink (t : Text) : Nat := t.countP (!isSpace ·)

theorem ink_append (s t : Text) : ink (s ++ t) = ink s + ink t := List.countP_append

theorem ink_strip (t : Text) : ink (strip t) = ink t := by
  obtain ⟨back, hSplit, hBack, -⟩ := Python.stripIf_split isSpace t
  have hNone : ∀ blanks : Text, (∀ c ∈ blanks, isSpace c = true) → ink blanks = 0 := by
    intro blanks hBlank
    refine List.countP_eq_zero.mpr fun c hc => ?_
    rw [hBlank c hc]
    decide
  have hCount := congrArg ink hSplit
  rw [ink_append, ink_append, hNone _ fun c hc => List.mem_takeWhile_imp hc,
    hNone back hBack] at hCount
  rw [strip]
  omega

theorem ink_content_le (t : Text) : ink (content t) ≤ ink t := by
  unfold content
  split
  · exact Nat.zero_le _
  · exact (ink_strip t).le

theorem content_eq_strip_iff {t : Text} : content t = strip t ↔ strip t ≠ empty := by
  unfold content
  split
  next h =>
    rw [h]
    exact iff_of_false (by decide) (not_not.mpr rfl)
  next h => exact iff_of_true rfl h

theorem errorPart_nil {r : Shell} (h : r.stderr = []) : errorPart r = [] := if_pos h

theorem errorPart_cons {r : Shell} (h : r.stderr ≠ []) :
    errorPart r = '\n' :: (stderrTitle ++ '\n' :: rstrip r.stderr) := if_neg h

theorem ink_rstrip (t : Text) : ink (rstrip t) = ink t := by
  rw [← ink_strip, strip_rstrip, ink_strip]

theorem content_before {r : Shell} (h : ¬stderrTitle <:+: rstrip r.stdout) :
    content (before stderrTitle (rstrip r.stdout ++ errorPart r)) = content r.stdout := by
  by_cases hErr : r.stderr = []
  · rw [errorPart_nil hErr, List.append_nil, Cut.before_of_not_infix (by decide) h, content_rstrip]
  · have hLater :
        before stderrTitle ('\n' :: (stderrTitle ++ '\n' :: rstrip r.stderr)) = ['\n'] := by
      have hNewlines := Cut.before_of_cut (cut_newlines stderrTitle.tail.tail
        (stderrTitle.tail ++ '\n' :: rstrip r.stderr))
      have hHere : before stderrTitle (stderrTitle ++ '\n' :: rstrip r.stderr) = [] := by
        rw [before, Cut.cut_prefix]
      exact hNewlines.trans (congrArg (['\n'] ++ ·) hHere)
    have hBefore : before stderrTitle (rstrip r.stdout ++ errorPart r) =
        rstrip r.stdout ++ ['\n'] := by
      rw [errorPart_cons hErr, ← hLater]
      exact Cut.before_of_cut (Cut.cut_append_of_not_infix [] (by decide) h)
    have hBlank : strip (rstrip r.stdout ++ ['\n']) = strip (rstrip r.stdout) :=
      Python.stripIf_append_of_all (List.all_eq_true.mp (by decide)) _
    rw [hBefore, content, hBlank, strip_rstrip, content]

section

variable {node : Text} (hNode : ∀ c ∈ node, isSpace c = false) {r : Shell} (spokeMs : Int)

include hNode

theorem stdout_output_iff (h : r.stdout ≠ []) :
    strip (parseNodeExecOutput (nodeExec node r spokeMs)).stdout = strip r.stdout ↔
      strip r.stdout ≠ empty ∧ ¬stderrTitle <:+: rstrip r.stdout := by
  rw [stdout_of_output hNode spokeMs h, strip_content]
  by_cases hCut : stderrTitle <:+: rstrip r.stdout
  · refine iff_of_false (fun hEq => ?_) fun hBoth => hBoth.2 hCut
    obtain ⟨later, hSplit, hBefore⟩ := Cut.before_of_infix hCut (by decide) (errorPart r)
    -- what is cut off has letters
    have hInk := congrArg ink hSplit
    have hTitle : ink stderrTitle = 8 := by decide
    have hLe := ink_content_le (before stderrTitle (rstrip r.stdout))
    rw [ink_append, ink_append, hTitle, ink_rstrip] at hInk
    rw [hBefore] at hEq
    rw [hEq, ink_strip] at hLe
    omega
  · rw [content_before hCut, content_eq_strip_iff, and_iff_left hCut]

theorem stderr_titled (h : r.stdout ≠ [])
    (hTitle : stderrMark.tail <+: rstrip r.stdout ++ (if r.stderr = [] then [] else ['\n'])) :
    strip (parseNodeExecOutput (nodeExec node r spokeMs)).stderr = strip r.stderr ↔
      r.stderr = [] ∧ Hollow ((rstrip r.stdout).drop stderrMark.tail.length) := by
  obtain ⟨u, hu⟩ := hTitle
  rw [stderr_of_output hNode spokeMs h]
  by_cases hErr : r.stderr = []
  · rw [if_pos hErr, List.append_nil] at hu
    have hAfter : after stderrMark ('\n' :: (rstrip r.stdout ++ errorPart r)) = some u := by
      rw [errorPart_nil hErr, List.append_nil, ← hu]
      exact Cut.after_prefix stderrMark u
    have hDrop : (rstrip r.stdout).drop stderrMark.tail.length = u := by rw [← hu, List.drop_left]
    rw [hAfter, hDrop, hErr, Option.map_some, Option.getD_some, strip_content, eq_self, true_and,
      ← content_eq_nil_iff]
    rfl
  · rw [if_neg hErr] at hu
    refine iff_of_false (fun hEq => ?_) fun hBoth => hErr hBoth.1
    have hAfter : after stderrMark ('\n' :: (rstrip r.stdout ++ errorPart r)) =
        some (u ++ (stderrTitle ++ '\n' :: rstrip r.stderr)) := by
      have hText : rstrip r.stdout ++ '\n' :: (stderrTitle ++ '\n' :: rstrip r.stderr) =
          stderrMark.tail ++ (u ++ (stderrTitle ++ '\n' :: rstrip r.stderr)) := by
        rw [← List.append_assoc, hu, List.append_assoc]
        rfl
      rw [errorPart_cons hErr, hText]
      exact Cut.after_prefix stderrMark _
    rw [hAfter, Option.map_some, Option.getD_some, strip_content] at hEq
    -- the section has the title and all of stderr
    have hInk :
        ink (u ++ (stderrTitle ++ '\n' :: rstrip r.stderr)) = ink u + (8 + ink r.stderr) := by
      have hTitle : ink (stderrTitle ++ ['\n']) = 8 := by decide
      rw [ink_append, ← List.singleton_append, ← List.append_assoc, ink_append, hTitle, ink_rstrip]
    have hFull : strip (u ++ (stderrTitle ++ '\n' :: rstrip r.stderr)) ≠ empty := by
      intro hEmpty
      have hSeven : ink empty = 7 := by decide
      rw [← hEmpty, ink_strip, hInk] at hSeven
      omega
    rw [content_of_ne hFull] at hEq
    have hSame := congrArg ink hEq
    rw [ink_strip, ink_strip, hInk] at hSame
    omega

theorem stderr_output_iff (h : r.stdout ≠ []) (hCut : ¬stderrTitle <:+: rstrip r.stdout)
    (hTitle : ¬stderrMark.tail <+: rstrip r.stdout ++ (if r.stderr = [] then [] else ['\n'])) :
    strip (parseNodeExecOutput (nodeExec node r spokeMs)).stderr = strip r.stderr ↔
      strip r.stderr ≠ empty := by
  -- no mark begins in front of stdout
  have hFront : after stderrMark ('\n' :: (rstrip r.stdout ++ errorPart r)) =
      after stderrMark (rstrip r.stdout ++ errorPart r) := by
    have hHead : ¬stderrMark.tail <+: rstrip r.stdout ++ errorPart r := by
      by_cases hErr : r.stderr = []
      · rw [if_pos hErr] at hTitle
        rwa [errorPart_nil hErr]
      · rw [if_neg hErr] at hTitle
        rw [errorPart_cons hErr]
        exact fun hPrefix => hTitle (Cut.prefix_of_last (w := stderrTitle.tail) (by decide) hPrefix)
    have hSkip : after stderrMark (['\n'] ++ (rstrip r.stdout ++ errorPart r)) =
        after stderrMark (rstrip r.stdout ++ errorPart r) := by
      refine Cut.after_of_cut (Cut.cut_append fun l hl hne hPrefix => ?_)
      obtain rfl | hNil := List.suffix_cons_iff.mp hl
      · exact hHead (List.cons_prefix_cons.mp hPrefix).2
      · exact hne (List.suffix_nil.mp hNil)
    exact hSkip
  rw [stderr_of_output hNode spokeMs h, hFront]
  by_cases hErr : r.stderr = []
  · have hNone : ¬stderrMark <:+: rstrip r.stdout := fun hMark =>
      hCut ((List.prefix_append stderrTitle ['\n']).isInfix.trans hMark)
    rw [errorPart_nil hErr, List.append_nil, Cut.after_of_not_infix (by decide) hNone, hErr]
    exact iff_of_true rfl (by decide)
  · have hAfter : after stderrMark (rstrip r.stdout ++ errorPart r) = some (rstrip r.stderr) := by
      rw [errorPart_cons hErr]
      refine (Cut.after_of_cut (Cut.cut_append_of_not_infix ['\n'] (by decide) hCut)).trans ?_
      exact (after_newlines _ _).trans (Cut.after_prefix stderrMark _)
    rw [hAfter, Option.map_some, Option.getD_some, strip_content, content_rstrip,
      content_eq_strip_iff]

theorem stdout_silent_iff (h : r.stdout = []) :
    strip (parseNodeExecOutput (nodeExec node r spokeMs)).stdout = strip r.stdout ↔
      (r.stderr ≠ [] → ∀ rest, after stdoutMark ('\n' :: rstrip r.stderr) = some rest →
        Hollow (before stderrTitle rest)) := by
  have hNil : strip [] = [] := rfl
  rw [stdout_of_silent hNode spokeMs h, h, hNil]
  by_cases hErr : r.stderr = []
  · rw [if_pos hErr]
    exact iff_of_true rfl fun hNe => absurd hErr hNe
  · rw [if_neg hErr]
    cases after stdoutMark ('\n' :: rstrip r.stderr) with
    | none => exact iff_of_true rfl (by simp)
    | some rest =>
      rw [Option.map_some, Option.getD_some, strip_content, content_eq_nil_iff]
      simp [hErr]

theorem stderr_silent_iff (h : r.stdout = []) :
    strip (parseNodeExecOutput (nodeExec node r spokeMs)).stderr = strip r.stderr ↔
      strip r.stderr ≠ empty := by
  rw [stderr_of_silent hNode spokeMs h]
  by_cases hErr : r.stderr = []
  · rw [if_pos hErr, hErr]
    exact iff_of_true rfl (by decide)
  · rw [if_neg hErr, strip_content, content_rstrip, content_eq_strip_iff]

omit hNode in
theorem exitCode_iff (node : Text) (r : Shell) :
    (parseNodeExecOutput (nodeExec node r spokeMs)).exitCode = r.exitCode ↔
      ∀ number, Leftmost.search exitCodeAt node = some number →
        (intOf number).getD (-1) = r.exitCode := by
  have hCode : (parseNodeExecOutput (nodeExec node r spokeMs)).exitCode =
      match Leftmost.search exitCodeAt node with
      | some number => (intOf number).getD (-1)
      | none => r.exitCode := by
    by_cases h : r.stdout = []
    · rw [nodeExec_silent h]
      exact exitCode_nodeExec ..
    · rw [nodeExec_output h]
      exact exitCode_nodeExec ..
  rw [hCode]
  cases Leftmost.search exitCodeAt node with
  | none => simp
  | some number => simp

theorem readBack_iff : ReadBack node r spokeMs ↔ Plain node r := by
  by_cases h : r.stdout = []
  · constructor
    · intro hRead
      refine ⟨(exitCode_iff spokeMs node r).mp hRead.exitCode, ?_,
        (stderr_silent_iff hNode spokeMs h).mp hRead.stderr, ?_, fun hNe => absurd h hNe,
        fun _ => (stdout_silent_iff hNode spokeMs h).mp hRead.stdout⟩
      · rw [h]
        decide
      · rw [h]
        decide
    · exact fun hPlain => ⟨(exitCode_iff spokeMs node r).mpr hPlain.exitCode,
        (stdout_silent_iff hNode spokeMs h).mpr (hPlain.untitled h),
        (stderr_silent_iff hNode spokeMs h).mpr hPlain.stderr⟩
  · constructor
    · intro hRead
      obtain ⟨hStdout, hCut⟩ := (stdout_output_iff hNode spokeMs h).mp hRead.stdout
      refine ⟨(exitCode_iff spokeMs node r).mp hRead.exitCode, hStdout, ?_, hCut,
        fun _ hTitle => (stderr_titled hNode spokeMs h hTitle).mp hRead.stderr,
        fun hNil => absurd hNil h⟩
      by_cases hTitle : stderrMark.tail <+:
          rstrip r.stdout ++ (if r.stderr = [] then [] else ['\n'])
      · rw [((stderr_titled hNode spokeMs h hTitle).mp hRead.stderr).1]
        decide
      · exact (stderr_output_iff hNode spokeMs h hCut hTitle).mp hRead.stderr
    · intro hPlain
      refine ⟨(exitCode_iff spokeMs node r).mpr hPlain.exitCode,
        (stdout_output_iff hNode spokeMs h).mpr ⟨hPlain.stdout, hPlain.uncut⟩, ?_⟩
      by_cases hTitle : stderrMark.tail <+:
          rstrip r.stdout ++ (if r.stderr = [] then [] else ['\n'])
      · exact (stderr_titled hNode spokeMs h hTitle).mpr (hPlain.titled h hTitle)
      · exact (stderr_output_iff hNode spokeMs h hPlain.uncut hTitle).mpr hPlain.stderr

end

/-! ## Failures -/

/-- A text that is read as a failure. -/
def ReadAsFailure (raw : Text) : Prop :=
  (parseNodeExecOutput raw).exitCode = -1 ∧ (parseNodeExecOutput raw).stdout = []

/-- The first exit code in the text is -1, if there is one, and the first line with the title of
stdout is followed by nothing. -/
structure Unmarked (raw : Text) : Prop where
  exitCode : ∀ number, Leftmost.search exitCodeAt raw = some number →
    (intOf number).getD (-1) = -1
  stdout : ∀ rest, after stdoutMark raw = some rest → Hollow (before stderrTitle rest)

theorem readAsFailure_iff (raw : Text) : ReadAsFailure raw ↔ Unmarked raw := by
  have hCode : (parseNodeExecOutput raw).exitCode = -1 ↔
      ∀ number, Leftmost.search exitCodeAt raw = some number →
        (intOf number).getD (-1) = -1 := by
    rw [parseNodeExecOutput, exitCodeOf]
    cases Leftmost.search exitCodeAt raw with
    | none => simp
    | some number => simp
  have hStdout : (parseNodeExecOutput raw).stdout = [] ↔
      ∀ rest, after stdoutMark raw = some rest → Hollow (before stderrTitle rest) := by
    rw [parseNodeExecOutput]
    cases after stdoutMark raw with
    | none => simp
    | some rest => simp [content_eq_nil_iff]
  exact ⟨fun h => ⟨hCode.mp h.1, hStdout.mp h.2⟩,
    fun h => ⟨hCode.mpr h.exitCode, hStdout.mpr h.stdout⟩⟩

end OpenSpoke.Kubeconfig.NodeExec
