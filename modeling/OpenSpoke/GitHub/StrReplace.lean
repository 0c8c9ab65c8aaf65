import OpenSpoke.GitHub.Edits
import OpenSpoke.Python.Lines

/-!
# String replacements in files on GitHub

`github_apply_str_replace` replaces a string in a file and pushes the file, the batch does
a list of replacements with one push, and `str-replace-dryrun` says what one would do.
-/

namespace OpenSpoke.GitHub

open Python (Text)

structure StrReplace where
  oldStr : Text
  newStr : Text
  count : Int

namespace StrReplace

inductive Refusal
  | oldStrEmpty
  | countLow (count : Int)
  | occurrences (expected : Int) (actual : Nat)
  | unchanged
  | noReplacements

def Refusal.forCount : Refusal → Bool
  | countLow _ | occurrences _ _ => true
  | _ => false

variable (r : StrReplace)

def check : Option Refusal :=
  if r.oldStr = [] then some .oldStrEmpty
  else if r.count < 1 then some (.countLow r.count)
  else none

def replaceIn (text : Text) : Except Refusal Text :=
  if (Python.count r.oldStr text : Int) ≠ r.count then
    .error (.occurrences r.count (Python.count r.oldStr text))
  else .ok (Python.replace r.oldStr r.newStr text r.count)

def changed (text newText : Text) : Except Refusal Text :=
  if newText = text then .error .unchanged else .ok newText

/-- `github_apply_str_replace`, up to the push. -/
def applyStrReplace (text : Text) : Except Refusal Text :=
  match r.check with
  | some e => .error e
  | none => (r.replaceIn text).bind (changed text)

def replaceAll : List StrReplace → Text → Except Refusal Text
  | [], text => .ok text
  | r :: rs, text => (r.replaceIn text).bind (replaceAll rs)

/-- `github_apply_str_replace_batch`, up to the push. -/
def applyStrReplaceBatch (replacements : List StrReplace) (text : Text) : Except Refusal Text :=
  if replacements = [] then .error .noReplacements
  else
    match replacements.findSome? check with
    | some e => .error e
    | none => (replaceAll replacements text).bind (changed text)

/-- The file after a tool that pushes what it makes of it. -/
def pushed (text : Text) : Except Refusal Text → Text
  | .ok newText => newText
  | .error _ => text

/-! ## str-replace-dryrun -/

structure DryRun where
  ok : Bool
  foundOccurrences : Nat
  expectedOccurrences : Int
  matchLines : List Nat
  diffPreview : Text

def matchLines (oldStr text : Text) : (room : Nat) → (searchFrom : Nat) → List Nat
  | 0, _ => []
  | room + 1, searchFrom =>
    match Python.find oldStr text searchFrom with
    | none => []
    | some idx => Python.lineAt text idx :: matchLines oldStr text room (idx + 1)

section

-- `difflib.unified_diff`, with the names of the two files
variable (differ : Text → Text → List Text → List Text → List Text)

/-- `_gh_unified_diff`. -/
def unifiedDiff (before after : List Text) (label : Text) : Text :=
  let diff := differ (label ++ " (before)".toList) (label ++ " (after)".toList) before after
  unlines (if 200 < diff.length then diff.take 200 ++ ["... (truncated)".toList] else diff)

/-- `core_github_str_replace_dryrun`. -/
def dryrun (path text : Text) : DryRun :=
  let count := if r.count = 0 then 1 else r.count
  if r.oldStr = [] then ⟨false, 0, count, [], []⟩
  else
    let occ := Python.count r.oldStr text
    let lines := matchLines r.oldStr text 20 0
    if (occ : Int) ≠ count then ⟨false, occ, count, lines, []⟩
    else
      let newText := Python.replace r.oldStr r.newStr text count
      ⟨true, occ, count, lines,
        unifiedDiff differ (Python.splitlines text) (Python.splitlines newText) path⟩

/-- What a dry run should say of the edit. -/
structure Predicts (path text : Text) : Prop where
  ok_iff : (r.dryrun differ path text).ok = true ↔ ∃ newText, r.applyStrReplace text = .ok newText
  lines : ∀ newText, r.applyStrReplace text = .ok newText →
    (r.dryrun differ path text).matchLines.length < 20 →
    (r.dryrun differ path text).matchLines =
      (Python.replaced r.oldStr text r.count).map (Python.lineAt text)
  preview : ∀ newText, r.applyStrReplace text = .ok newText →
    (r.dryrun differ path text).diffPreview =
      unifiedDiff differ (Python.splitlines text) (Python.splitlines newText) path

end

/-- The occurrences a dry run counts are those that an edit would replace. -/
structure Foreseen (text : Text) : Prop where
  count_ne : r.count ≠ 0
  new_ne : r.newStr ≠ r.oldStr
  apart : (Occurrences.places r.oldStr text).length < 20 → Occurrences.Apart r.oldStr text

/-! ## Several replacements -/

def oneByOne (replacements : List StrReplace) (text : Text) : Text :=
  replacements.foldl (fun text r => pushed text (r.applyStrReplace text)) text

/-- One of the replacements, when its turn comes, is refused for its count. -/
def RefusedForCount : List StrReplace → Text → Prop
  | [], _ => False
  | r :: rs, text =>
    (∃ e, r.applyStrReplace text = .error e ∧ e.forCount = true) ∨
      RefusedForCount rs (pushed text (r.applyStrReplace text))

structure BatchAgrees (replacements : List StrReplace) (text : Text) : Prop where
  refused : RefusedForCount replacements text →
    ∃ e, applyStrReplaceBatch replacements text = .error e
  same : ¬RefusedForCount replacements text →
    pushed text (applyStrReplaceBatch replacements text) = oneByOne replacements text

/-- The text with the replacements that say what to replace. -/
def net (replacements : List StrReplace) (text : Text) : Text :=
  replacements.foldl (fun text r =>
    if r.oldStr = [] then text else Python.replace r.oldStr r.newStr text r.count) text

/-- Each replacement, when its turn comes, has its strings in the text. -/
def CountsFit : List StrReplace → Text → Prop
  | [], _ => True
  | r :: rs, text =>
    (r.oldStr ≠ [] → 1 ≤ r.count ∧ (Python.count r.oldStr text : Int) = r.count) ∧
      CountsFit rs (net [r] text)

/-! ## The dry run and the edit -/

theorem matchLines_eq (oldStr text : Text) (room searchFrom : Nat) :
    matchLines oldStr text room searchFrom =
      (((Occurrences.places oldStr text).filter (searchFrom ≤ ·)).take room).map
        (Python.lineAt text) := by
  induction room generalizing searchFrom with
  | zero => rfl
  | succ room ih =>
    rw [matchLines]
    cases hFind : Python.find oldStr text searchFrom with
    | none =>
      rw [Python.find, Occurrences.first, List.head?_eq_none_iff] at hFind
      rw [hFind]
      rfl
    | some idx =>
      rw [Occurrences.filter_succ hFind, List.take_succ_cons, List.map_cons, ← ih]

theorem matchLines_twenty (oldStr text : Text) :
    matchLines oldStr text 20 0 =
      ((Occurrences.places oldStr text).take 20).map (Python.lineAt text) := by
  rw [matchLines_eq, List.filter_eq_self.mpr fun j _ => decide_eq_true (Nat.zero_le j)]

/-- The lines fit if there are twenty, or else if no occurrences overlap. -/
theorem lines_iff {oldStr : Text} (text : Text) (hOld : oldStr ≠ []) :
    ((matchLines oldStr text 20 0).length < 20 →
        matchLines oldStr text 20 0 =
          (Occurrences.starts oldStr 0 0 text).map (Python.lineAt text)) ↔
      ((Occurrences.places oldStr text).length < 20 → Occurrences.Apart oldStr text) := by
  have hLength : (matchLines oldStr text 20 0).length < 20 ↔
      (Occurrences.places oldStr text).length < 20 := by
    rw [matchLines_twenty, List.length_map, List.length_take]
    omega
  rw [hLength]
  refine imp_congr_right fun hFew => ?_
  rw [matchLines_twenty, List.take_of_length_le (by omega)]
  constructor
  · intro hEq
    have hLen := congrArg List.length hEq
    rw [List.length_map, List.length_map] at hLen
    exact (Occurrences.length_eq_iff hOld text).mp hLen
  · intro hApart
    rw [(Occurrences.places_eq_starts_iff hOld text).mpr hApart]

theorem applyStrReplace_of_fits {r : StrReplace} {text : Text} (hOld : r.oldStr ≠ [])
    (hCount : 1 ≤ r.count) (hOcc : (Python.count r.oldStr text : Int) = r.count) :
    r.applyStrReplace text = changed text (Python.replace r.oldStr r.newStr text r.count) := by
  have hCheck : r.check = none := by
    rw [check, if_neg hOld, if_neg (by omega)]
  have hReplace : r.replaceIn text = .ok (Python.replace r.oldStr r.newStr text r.count) := by
    rw [replaceIn, if_neg (not_not_intro hOcc)]
  rw [applyStrReplace, hCheck, hReplace]
  rfl

theorem refused_of_not_fits {r : StrReplace} {text : Text} (hOld : r.oldStr ≠ [])
    (h : ¬(1 ≤ r.count ∧ (Python.count r.oldStr text : Int) = r.count)) :
    ∃ e, r.applyStrReplace text = .error e ∧ e.forCount = true := by
  rw [applyStrReplace, check, if_neg hOld]
  split
  · rename_i e hCheck
    split at hCheck
    · obtain rfl := Option.some.inj hCheck
      exact ⟨_, rfl, rfl⟩
    · cases hCheck
  · rename_i hCheck
    split at hCheck
    · cases hCheck
    · rename_i hCount
      have hOcc : (Python.count r.oldStr text : Int) ≠ r.count := fun hEq => h ⟨by omega, hEq⟩
      rw [replaceIn, if_pos hOcc]
      exact ⟨_, rfl, rfl⟩

theorem refused_of_empty {r : StrReplace} (text : Text) (hOld : r.oldStr = []) :
    r.applyStrReplace text = .error .oldStrEmpty := by
  rw [applyStrReplace, check, if_pos hOld]

theorem pushed_changed (text newText : Text) : pushed text (changed text newText) = newText := by
  rw [changed]
  split
  · rename_i hSame
    exact hSame.symm
  · rfl

section

variable {differ : Text → Text → List Text → List Text → List Text} {path text : Text}
  {r : StrReplace}

theorem dryrun_of_fits (hOld : r.oldStr ≠ []) (hCount : r.count ≠ 0)
    (hOcc : (Python.count r.oldStr text : Int) = r.count) :
    r.dryrun differ path text =
      ⟨true, Python.count r.oldStr text, r.count, matchLines r.oldStr text 20 0,
        unifiedDiff differ (Python.splitlines text)
          (Python.splitlines (Python.replace r.oldStr r.newStr text r.count)) path⟩ := by
  rw [dryrun, if_neg hOld, if_neg hCount]
  exact if_neg (not_not_intro hOcc)

theorem predicts_of_refused {e : Refusal} (hDry : (r.dryrun differ path text).ok = false)
    (hRefused : r.applyStrReplace text = .error e) : r.Predicts differ path text := by
  constructor
  · rw [hDry, hRefused]
    simp
  · intro newText h
    rw [hRefused] at h
    cases h
  · intro newText h
    rw [hRefused] at h
    cases h

theorem not_predicts_of_refused {e : Refusal} (hDry : (r.dryrun differ path text).ok = true)
    (hRefused : r.applyStrReplace text = .error e) : ¬r.Predicts differ path text := by
  intro h
  obtain ⟨newText, hOk⟩ := h.ok_iff.mp hDry
  rw [hRefused] at hOk
  cases hOk

theorem predicts_iff_of_fits (hOld : r.oldStr ≠ []) (hCount : r.count ≠ 0)
    (hOcc : (Python.count r.oldStr text : Int) = r.count) :
    r.Predicts differ path text ↔ r.Foreseen text := by
  have hDry := @dryrun_of_fits differ path text r hOld hCount hOcc
  have hApply := applyStrReplace_of_fits hOld (by omega) hOcc
  by_cases hNew : r.newStr = r.oldStr
  · rw [changed, hNew, if_pos (Python.replace_self text hOld hOcc)] at hApply
    exact iff_of_false (not_predicts_of_refused (by rw [hDry]) hApply) fun h => h.new_ne hNew
  · rw [changed, if_neg (mt (Python.replace_eq_self_iff hOld hCount hOcc).mp hNew)] at hApply
    have hReplaced := Python.replaced_count hOcc
    constructor
    · intro h
      refine ⟨hCount, hNew, (lines_iff text hOld).mp fun hFew => ?_⟩
      have hLines := h.lines _ hApply (by rwa [hDry])
      rwa [hDry, hReplaced] at hLines
    · intro h
      constructor
      · rw [hDry, hApply]
        simp
      · intro newText _ hFew
        rw [hDry] at hFew ⊢
        rw [hReplaced]
        exact (lines_iff text hOld).mpr h.apart hFew
      · intro newText hOk
        rw [hApply] at hOk
        obtain rfl := Except.ok.inj hOk
        rw [hDry]

end

theorem predicts_iff (differ : Text → Text → List Text → List Text → List Text) (path : Text)
    (r : StrReplace) (text : Text) :
    r.Predicts differ path text ↔
      (r.oldStr ≠ [] → (Python.count r.oldStr text : Int) = (if r.count = 0 then 1 else r.count) →
        r.Foreseen text) := by
  by_cases hOld : r.oldStr = []
  · refine iff_of_true (predicts_of_refused ?_ (refused_of_empty text hOld)) fun h => absurd hOld h
    rw [dryrun, if_pos hOld]
  · by_cases hOcc : (Python.count r.oldStr text : Int) = (if r.count = 0 then 1 else r.count)
    · by_cases hZero : r.count = 0
      · obtain ⟨e, hRefused, -⟩ := @refused_of_not_fits r text hOld (by omega)
        refine iff_of_false (not_predicts_of_refused ?_ hRefused) fun h =>
          (h hOld hOcc).count_ne hZero
        rw [dryrun, if_neg hOld]
        exact congrArg DryRun.ok (if_neg (not_not_intro hOcc))
      · rw [if_neg hZero] at hOcc ⊢
        rw [predicts_iff_of_fits hOld hZero hOcc]
        exact ⟨fun h _ _ => h, fun h => h hOld hOcc⟩
    · obtain ⟨e, hRefused, -⟩ := @refused_of_not_fits r text hOld (by
        rintro ⟨hCount, hEq⟩
        rw [if_neg (by omega)] at hOcc
        exact hOcc hEq)
      refine iff_of_true (predicts_of_refused ?_ hRefused) fun _ h => absurd h hOcc
      rw [dryrun, if_neg hOld]
      exact congrArg DryRun.ok (if_pos hOcc)

/-! ## The batch and the edits -/

theorem pushed_fits {r : StrReplace} {text : Text}
    (h : r.oldStr ≠ [] → 1 ≤ r.count ∧ (Python.count r.oldStr text : Int) = r.count) :
    pushed text (r.applyStrReplace text) = net [r] text := by
  rw [net, List.foldl_cons, List.foldl_nil]
  split
  · rename_i hOld
    rw [refused_of_empty text hOld]
    rfl
  · rename_i hOld
    obtain ⟨hCount, hOcc⟩ := h hOld
    rw [applyStrReplace_of_fits hOld hCount hOcc, pushed_changed]

theorem not_forCount_of_fits {r : StrReplace} {text : Text} {e : Refusal}
    (h : r.oldStr ≠ [] → 1 ≤ r.count ∧ (Python.count r.oldStr text : Int) = r.count)
    (he : r.applyStrReplace text = .error e) : e.forCount = false := by
  by_cases hOld : r.oldStr = []
  · rw [refused_of_empty text hOld] at he
    obtain rfl := Except.error.inj he
    rfl
  · obtain ⟨hCount, hOcc⟩ := h hOld
    rw [applyStrReplace_of_fits hOld hCount hOcc, changed] at he
    split at he
    · obtain rfl := Except.error.inj he
      rfl
    · cases he

theorem refusedForCount_iff (replacements : List StrReplace) (text : Text) :
    RefusedForCount replacements text ↔ ¬CountsFit replacements text := by
  induction replacements generalizing text with
  | nil => simp [RefusedForCount, CountsFit]
  | cons r rs ih =>
    rw [RefusedForCount, CountsFit, not_and_or]
    by_cases hFits : r.oldStr ≠ [] → 1 ≤ r.count ∧ (Python.count r.oldStr text : Int) = r.count
    · rw [pushed_fits hFits, ih]
      constructor
      · rintro (⟨e, he, hFor⟩ | hLater)
        · rw [not_forCount_of_fits hFits he] at hFor
          cases hFor
        · exact .inr hLater
      · rintro (hNot | hLater)
        · exact absurd hFits hNot
        · exact .inr hLater
    · rw [Classical.not_imp] at hFits
      refine iff_of_true (.inl (refused_of_not_fits hFits.1 hFits.2)) (.inl fun h => ?_)
      exact hFits.2 (h hFits.1)

theorem oneByOne_eq_net {replacements : List StrReplace} {text : Text}
    (h : CountsFit replacements text) : oneByOne replacements text = net replacements text := by
  induction replacements generalizing text with
  | nil => rfl
  | cons r rs ih =>
    have hRest := ih h.2
    rw [oneByOne] at hRest ⊢
    rw [List.foldl_cons, pushed_fits h.1, hRest]
    rfl

theorem replaceAll_eq {replacements : List StrReplace} {text : Text}
    (hOld : ∀ r ∈ replacements, r.oldStr ≠ []) (h : CountsFit replacements text) :
    replaceAll replacements text = .ok (net replacements text) := by
  induction replacements generalizing text with
  | nil => rfl
  | cons r rs ih =>
    obtain ⟨-, hOcc⟩ := h.1 (hOld r List.mem_cons_self)
    have hRest := ih (fun r' hr' => hOld r' (List.mem_cons_of_mem r hr')) h.2
    have hHere : net [r] text = Python.replace r.oldStr r.newStr text r.count := by
      rw [net, List.foldl_cons, List.foldl_nil, if_neg (hOld r List.mem_cons_self)]
    rw [replaceAll, replaceIn, if_neg (not_not_intro hOcc)]
    rw [hHere] at hRest
    refine hRest.trans ?_
    rw [← hHere]
    rfl

theorem replaceAll_error {replacements : List StrReplace} {text : Text}
    (hCheck : ∀ r ∈ replacements, r.check = none) (h : ¬CountsFit replacements text) :
    ∃ e, replaceAll replacements text = .error e := by
  induction replacements generalizing text with
  | nil => exact absurd trivial h
  | cons r rs ih =>
    have hHere := hCheck r List.mem_cons_self
    rw [check] at hHere
    split at hHere
    · cases hHere
    · rename_i hOld
      split at hHere
      · cases hHere
      · rename_i hCount
        rw [replaceAll, replaceIn]
        split
        · exact ⟨_, rfl⟩
        · rename_i hOcc
          rw [ne_eq, not_not] at hOcc
          have hNet : net [r] text = Python.replace r.oldStr r.newStr text r.count := by
            rw [net, List.foldl_cons, List.foldl_nil, if_neg hOld]
          refine ih (fun r' hr' => hCheck r' (List.mem_cons_of_mem r hr')) fun hRest => h ⟨?_, ?_⟩
          · exact fun _ => ⟨by omega, hOcc⟩
          · rwa [hNet]

theorem one_le_count {replacements : List StrReplace} {text : Text}
    (h : CountsFit replacements text) : ∀ r ∈ replacements, r.oldStr ≠ [] → 1 ≤ r.count := by
  induction replacements generalizing text with
  | nil => simp
  | cons r rs ih =>
    intro r' hr' hOld
    obtain rfl | hr' := List.mem_cons.mp hr'
    · exact (h.1 hOld).1
    · exact ih h.2 r' hr' hOld

theorem batchAgrees_iff (replacements : List StrReplace) (text : Text) :
    BatchAgrees replacements text ↔
      (CountsFit replacements text →
        (∀ r ∈ replacements, r.oldStr ≠ []) ∨ net replacements text = text) := by
  by_cases hFit : CountsFit replacements text
  · have hNot := mt (refusedForCount_iff replacements text).mp (not_not_intro hFit)
    have hNet := oneByOne_eq_net hFit
    by_cases hOld : ∀ r ∈ replacements, r.oldStr ≠ []
    · refine iff_of_true ⟨fun h => absurd h hNot, fun _ => ?_⟩ (fun _ => .inl hOld)
      rw [hNet, applyStrReplaceBatch]
      split
      · rename_i hNone
        rw [hNone]
        rfl
      · have hChecks : replacements.findSome? check = none := by
          rw [List.findSome?_eq_none_iff]
          intro r hr
          have hCount := one_le_count hFit r hr (hOld r hr)
          rw [check, if_neg (hOld r hr), if_neg (by omega)]
        rw [hChecks, replaceAll_eq hOld hFit]
        exact pushed_changed text _
    · obtain ⟨r, hr, hEmpty⟩ : ∃ r ∈ replacements, r.oldStr = [] := by simpa using hOld
      have hBatch : pushed text (applyStrReplaceBatch replacements text) = text := by
        rw [applyStrReplaceBatch, if_neg (List.ne_nil_of_mem hr)]
        cases hChecks : replacements.findSome? check with
        | some e => rfl
        | none =>
          have hHere := List.findSome?_eq_none_iff.mp hChecks r hr
          rw [check, if_pos hEmpty] at hHere
          cases hHere
      constructor
      · intro h _
        right
        rw [← hNet, ← h.same hNot, hBatch]
      · intro h
        refine ⟨fun h => absurd h hNot, fun _ => ?_⟩
        obtain hAll | hSame := h hFit
        · exact absurd hEmpty (hAll r hr)
        · rw [hBatch, hNet, hSame]
  · refine iff_of_true ⟨fun _ => ?_, fun h => ?_⟩ (fun h => absurd h hFit)
    · rw [applyStrReplaceBatch]
      split
      · exact ⟨_, rfl⟩
      · cases hChecks : replacements.findSome? check with
        | some e => exact ⟨e, rfl⟩
        | none =>
          obtain ⟨e, he⟩ := replaceAll_error (List.findSome?_eq_none_iff.mp hChecks) hFit
          rw [he]
          exact ⟨e, rfl⟩
    · exact absurd ((refusedForCount_iff replacements text).mpr hFit) h

theorem tools_fit_iff (differ : Text → Text → List Text → List Text → List Text) (path : Text)
    (r : StrReplace) (replacements : List StrReplace) (text : Text) :
    (r.Predicts differ path text ↔
        (r.oldStr ≠ [] →
          (Python.count r.oldStr text : Int) = (if r.count = 0 then 1 else r.count) →
          r.Foreseen text)) ∧
      (BatchAgrees replacements text ↔
        (CountsFit replacements text →
          (∀ r ∈ replacements, r.oldStr ≠ []) ∨ net replacements text = text)) :=
  ⟨predicts_iff differ path r text, batchAgrees_iff replacements text⟩

/-- A replacement of "aa" in "aaa". -/
def overlap : StrReplace := ⟨"aa".toList, "b".toList, 1⟩

theorem overlap_listed_twice :
    overlap.applyStrReplace "aaa".toList = .ok "ba".toList ∧
      Python.replaced overlap.oldStr "aaa".toList overlap.count = [0] ∧
      ∀ differ path, (overlap.dryrun differ path "aaa".toList).matchLines = [1, 1] ∧
        ¬overlap.Predicts differ path "aaa".toList := by
  have hOk : overlap.applyStrReplace "aaa".toList = .ok "ba".toList := by rfl
  refine ⟨hOk, by decide, fun differ path => ?_⟩
  have hLines : (overlap.dryrun differ path "aaa".toList).matchLines = [1, 1] := by rfl
  refine ⟨hLines, fun h => ?_⟩
  have hEq := h.lines _ hOk (by rw [hLines]; decide)
  rw [hLines] at hEq
  exact absurd hEq (by decide)

end StrReplace

end OpenSpoke.GitHub
