import Mathlib.Data.List.Perm.Basic
import OpenSpoke.Kubeconfig.NodeExec
import OpenSpoke.Lib.Dict

/-!
# Listings of nodes and of clusters

The pods of the node shell and the registry of the hub are shown as lines of Markdown, from which
the kernel takes the names again.
-/

namespace OpenSpoke.Kubeconfig.Listings

open Python (Text isSpace strip decimal isLineBreak splitlines fullLines unlines)

/-! ## Nodes -/

/-- A pod as `_list_node_shell_pods` describes it. -/
structure Pod where
  node : Text
  podIp : Text
  phase : Text
  ready : Bool

def nodeMark : Text := ['n', 'o', 'd', 'e', '=']

def Pod.details (p : Pod) : Text :=
  " podIP=".toList ++ p.podIp ++ "  phase=".toList ++ p.phase ++ "  ready=".toList ++
    (if p.ready then "True".toList else "False".toList)

def Pod.row (p : Pod) : Text := '-' :: ' ' :: (nodeMark ++ (p.node ++ ' ' :: p.details))

def title (front : Text) (count : Nat) : Text :=
  '#' :: '#' :: ' ' :: (front ++ decimal count ++ " 件)".toList)

def podsFront : Text := "node-shell pods (".toList

def nodeList (pods : List Pod) : Text :=
  if pods = [] then "node-shell pod がありません (DaemonSet 未デプロイ?)。".toList
  else unlines ((title podsFront pods.length ++ ['\n']) :: pods.map Pod.row)

/-- The match of `\S+` at the beginning. -/
def wordAt (t : Text) : Option Text :=
  if t.takeWhile (!isSpace ·) = [] then none else some (t.takeWhile (!isSpace ·))

/-- The group of `^-\s+node=(\S+)`. -/
def nodeAt : Text → Option Text
  | '-' :: c :: t =>
    if isSpace c ∧ nodeMark.isPrefixOf (t.dropWhile isSpace) then
      wordAt ((t.dropWhile isSpace).drop nodeMark.length)
    else none
  | _ => none

/-- `_list_spoke_nodes`; an empty text has no lines. -/
def listSpokeNodes (raw : Text) : List Text := (splitlines raw).filterMap nodeAt

theorem isSpace_of_isLineBreak {c : Char} (h : isLineBreak c = true) : isSpace c = true := by
  simp only [isLineBreak, isSpace, Bool.or_eq_true, Bool.and_eq_true, decide_eq_true_eq] at h ⊢
  omega

theorem wordAt_line (t : Text) : wordAt (t.takeWhile (!isLineBreak ·)) = wordAt t := by
  have hWord : (t.takeWhile (!isLineBreak ·)).takeWhile (!isSpace ·) =
      t.takeWhile (!isSpace ·) := by
    rw [List.takeWhile_takeWhile]
    congr 1
    funext c
    cases hBreak : isLineBreak c with
    | true => simp [isSpace_of_isLineBreak hBreak]
    | false => simp
  rw [wordAt, hWord, wordAt]

theorem wordAt_append_blank (l rest : Text) : wordAt (l ++ ' ' :: rest) = wordAt l := by
  rw [wordAt, NodeExec.takeWhile_append_stop (by decide), wordAt]

theorem wordAt_eq_some {t : Text} (h : ∀ c ∈ t, isSpace c = false) (hne : t ≠ []) :
    wordAt t = some t := by
  have hAll : t.takeWhile (!isSpace ·) = t :=
    List.takeWhile_eq_self_iff.mpr fun c hc => by rw [h c hc]; rfl
  rw [wordAt, hAll, if_neg hne]

theorem nonblank_of_wordAt {t w : Text} (h : wordAt t = some w) :
    w ≠ [] ∧ ∀ c ∈ w, isSpace c = false := by
  unfold wordAt at h
  split at h
  · cases h
  next hne =>
    cases h
    exact ⟨hne, fun c hc => by simpa using List.mem_takeWhile_imp hc⟩

theorem nodeAt_row (t : Text) : nodeAt ('-' :: ' ' :: (nodeMark ++ t)) = wordAt t := rfl

theorem nodes_of_row (p : Pod) : (fullLines p.row).filterMap nodeAt =
    (wordAt p.node).toList ++ (splitlines p.row).tail.filterMap nodeAt := by
  have hNil : nodeAt [] = none := rfl
  have hFirst : p.row.takeWhile (!isLineBreak ·) = '-' :: ' ' ::
      (nodeMark ++ (p.node ++ ' ' :: p.details).takeWhile (!isLineBreak ·)) := rfl
  have hNode : nodeAt (p.row.takeWhile (!isLineBreak ·)) = wordAt p.node := by
    rw [hFirst, nodeAt_row, wordAt_line, wordAt_append_blank]
  have hHead : splitlines p.row = p.row.takeWhile (!isLineBreak ·) :: (splitlines p.row).tail :=
    Python.splitlines_head (List.cons_ne_nil _ _)
  rw [Python.filterMap_fullLines hNil, hHead, List.filterMap_cons, hNode]
  cases wordAt p.node <;> rfl

theorem not_break_of_mem_decimal {i : Int} {c : Char} (h : c ∈ decimal i) :
    isLineBreak c = false := by
  obtain rfl | hDigit := Python.decimal_mem h
  · decide
  · simp only [Char.isDigit, ge_iff_le, Bool.and_eq_true, decide_eq_true_eq, UInt32.le_iff_toNat_le]
      at hDigit
    simp only [isLineBreak, Char.toNat, Bool.or_eq_false_iff, Bool.and_eq_false_iff,
      decide_eq_false_iff_not]
    have hLow := hDigit.1
    have hHigh := hDigit.2
    change 48 ≤ _ at hLow
    change _ ≤ 57 at hHigh
    omega

theorem fullLines_title {front : Text} (h : ∀ c ∈ front, isLineBreak c = false) (count : Nat) :
    fullLines (title front count ++ ['\n']) = [title front count] := by
  have hBack : ∀ c ∈ " 件)".toList, isLineBreak c = false := Python.none_of_all (by decide)
  refine Python.fullLines_title (List.cons_ne_nil _ _) fun c hc => ?_
  simp only [title, List.mem_cons, List.mem_append] at hc
  obtain rfl | rfl | rfl | (hc | hc) | hc := hc
  · decide
  · decide
  · decide
  · exact h c hc
  · exact not_break_of_mem_decimal hc
  · exact hBack c hc

theorem listSpokeNodes_nodeList (pods : List Pod) : listSpokeNodes (nodeList pods) =
    pods.flatMap fun p =>
      (wordAt p.node).toList ++ (splitlines p.row).tail.filterMap nodeAt := by
  have hNil : nodeAt [] = none := rfl
  rw [listSpokeNodes, nodeList, ← Python.filterMap_fullLines hNil]
  split
  next h =>
    subst h
    decide
  next h =>
    have hNone : nodeAt (title podsFront pods.length) = none := rfl
    rw [Python.fullLines_unlines, List.flatMap_cons,
      fullLines_title (Python.none_of_all (by decide)), List.singleton_append,
      List.filterMap_cons, hNone, List.filterMap_flatMap, List.flatMap_map]
    simp only [nodes_of_row]

/-- A pod whose name is one word, and that has no other line with a name. -/
structure Pod.Plain (p : Pod) : Prop where
  node : ∀ c ∈ p.node, isSpace c = false
  lines : ∀ l ∈ (splitlines p.row).tail, nodeAt l = none

/-- The names that are shown; a pod that is on no node yet has none. -/
def shownNodes (pods : List Pod) : List Text := pods.flatMap fun p =>
  if p.node = [] then [] else [p.node]

theorem nonblank_of_nodeAt {l w : Text} (h : nodeAt l = some w) :
    w ≠ [] ∧ ∀ c ∈ w, isSpace c = false := by
  unfold nodeAt at h
  split at h
  · split at h
    · exact nonblank_of_wordAt h
    · cases h
  · cases h

theorem Pod.word {p : Pod} (h : ∀ c ∈ p.node, isSpace c = false) :
    (wordAt p.node).toList = if p.node = [] then [] else [p.node] := by
  split
  next hNil => rw [hNil]; rfl
  next hne => rw [wordAt_eq_some h hne]; rfl

theorem listSpokeNodes_iff (pods : List Pod) :
    listSpokeNodes (nodeList pods) = shownNodes pods ↔ ∀ p ∈ pods, p.Plain := by
  rw [listSpokeNodes_nodeList, shownNodes]
  constructor
  · intro hEq
    -- no name that is read has a blank
    have hNode : ∀ p ∈ pods, ∀ c ∈ p.node, isSpace c = false := by
      intro p hp
      by_cases hNil : p.node = []
      · simp [hNil]
      · have hShown : p.node ∈ pods.flatMap fun p => if p.node = [] then [] else [p.node] :=
          List.mem_flatMap.mpr ⟨p, hp, by simp [hNil]⟩
        rw [← hEq, List.mem_flatMap] at hShown
        obtain ⟨q, -, hMem⟩ := hShown
        rw [List.mem_append, Option.mem_toList, List.mem_filterMap] at hMem
        obtain hWord | ⟨l, -, hl⟩ := hMem
        · exact (nonblank_of_wordAt hWord).2
        · exact (nonblank_of_nodeAt hl).2
    have hOwn : (pods.flatMap fun p => if p.node = [] then [] else [p.node]) =
        pods.flatMap fun p => (wordAt p.node).toList :=
      List.flatMap_congr fun p hp => (Pod.word (hNode p hp)).symm
    -- so there is no place for further ones
    have hPerm := List.flatMap_append_perm pods (fun p => (wordAt p.node).toList)
      fun p => (splitlines p.row).tail.filterMap nodeAt
    have hNone : (pods.flatMap fun p => (splitlines p.row).tail.filterMap nodeAt) = [] := by
      have hLength := hPerm.length_eq
      rw [hEq, hOwn, List.length_append] at hLength
      exact List.length_eq_zero_iff.mp (by omega)
    exact fun p hp =>
      ⟨hNode p hp, List.filterMap_eq_nil_iff.mp (List.flatMap_eq_nil_iff.mp hNone p hp)⟩
  · intro hPlain
    refine List.flatMap_congr fun p hp => ?_
    rw [Pod.word (hPlain p hp).node, List.filterMap_eq_nil_iff.mpr (hPlain p hp).lines,
      List.append_nil]

/-! ## Clusters -/

/-- `_source` of a document of the registry. A text that is missing is empty; the two fields whose
absence shows are optional. -/
structure Source where
  clusterName : Text
  kind : Text
  env : Text
  k8sDistribution : Text
  url : Option Text
  cloudflareTunnelId : Text
  description : Text
  purpose : Text
  owner : Text
  status : Text
  rancherManaged : Option Bool
  notes : Text
  updatedAt : Text

def orElse (t default : Text) : Text := if t = [] then default else t

def disabled : Text := ['d', 'i', 's', 'a', 'b', 'l', 'e', 'd']

def put (out : Dict Text Source) (hit : Text × Source) : Dict Text Source :=
  if orElse hit.2.clusterName hit.1 = [] then out
  else out.set (orElse hit.2.clusterName hit.1) hit.2

/-- `_load_registry`: the hits have their ids. -/
def loadRegistry (index : List (Text × Source)) : Dict Text Source :=
  ((index.filter fun hit => hit.2.status ≠ disabled).take 1000).foldl put Dict.empty

/-- `sorted(clusters.keys())`, each with its entry. -/
def sorted (clusters : Dict Text Source) : List (Text × Source) :=
  (clusters.keys.insertionSort fun s t => Python.before t s = false).filterMap fun name =>
    (clusters.get name).map fun e => (name, e)

def statusKey : Text := ['ス', 'テ', 'ー', 'タ', 'ス']

/-- A line that is there only if the text is. -/
def given (key : String) (text : Text) : List (Text × Text) :=
  if text = [] then [] else [(key.toList, text)]

/-- The attributes in front of the status. -/
def Source.front (e : Source) : List (Text × Text) :=
  [("種別".toList, orElse e.kind "cluster".toList)] ++ given "環境" e.env ++
    given "ディストリビューション" e.k8sDistribution ++
    [("endpoint".toList, e.url.getD "(未設定)".toList)] ++
    given "Cloudflare Tunnel ID" e.cloudflareTunnelId ++ given "説明" e.description ++
    given "利用目的" e.purpose ++ given "所有者" e.owner

/-- The attributes behind the status. -/
def Source.back (e : Source) : List (Text × Text) :=
  (e.rancherManaged.toList.map fun managed =>
    ("Rancher 管理下".toList, if managed then "yes".toList else "no".toList)) ++
    given "備考" e.notes ++ given "更新日時" e.updatedAt

def attributeLine (a : Text × Text) : Text := '-' :: ' ' :: (a.1 ++ ':' :: ' ' :: a.2)

def heading (name : Text) : Text := '#' :: '#' :: '#' :: ' ' :: name

def statusRow (e : Source) : List (Text × Text) :=
  if e.status = [] then [] else [(statusKey, e.status)]

def block (c : Text × Source) : List Text :=
  heading c.1 :: ((c.2.front ++ statusRow c.2 ++ c.2.back).map attributeLine ++ [[]])

def clustersFront : Text := "登録済みクラスタ (".toList

def noClusters : Text :=
  "スポーククラスタは未登録です。 spoke_register で登録してください。".toList

def noAccess : Text :=
  "アクセス可能なクラスタがありません。".toList ++
    " 管理者 (openspoke_admin) に user_acl 設定を依頼してください。".toList

/-- `list_clusters`; what the user may see is a parameter. -/
def listClusters (index : List (Text × Source)) (allowed : Text → Bool) : Text :=
  if (loadRegistry index).keys = [] then noClusters
  else if ((loadRegistry index).filter allowed).keys = [] then noAccess
  else
    unlines ((title clustersFront ((loadRegistry index).filter allowed).keys.length ++ ['\n']) ::
      (sorted ((loadRegistry index).filter allowed)).flatMap block)

/-! ### The parser -/

def clusterNameKey : Text := ['c', 'l', 'u', 's', 't', 'e', 'r', '_', 'n', 'a', 'm', 'e']
def englishStatusKey : Text := ['s', 't', 'a', 't', 'u', 's']

/-- The group of `^###\s+(\S+)\s*$`. -/
def headingAt : Text → Option Text
  | '#' :: '#' :: '#' :: c :: t =>
    if isSpace c ∧ ((t.dropWhile isSpace).dropWhile (!isSpace ·)).all isSpace then
      wordAt (t.dropWhile isSpace)
    else none
  | _ => none

/-- The groups of `^-\s+([^:]+):\s*(.*)$`, stripped. -/
def attributeAt : Text → Option (Text × Text)
  | '-' :: c :: t =>
    if isSpace c then
      match Cut.cut [':'] t with
      | some (key, value) => if key = [] then none else some (strip key, strip value)
      | none => none
    else none
  | _ => none

structure State where
  entries : List (Dict Text Text)
  current : Option (Dict Text Text)

/-- One line in `_list_registered_clusters`. -/
def step (s : State) (line : Text) : State :=
  match headingAt line with
  | some name => ⟨s.entries ++ s.current.toList, some (Dict.empty.set clusterNameKey name)⟩
  | none =>
    match s.current, attributeAt line with
    | some current, some (key, value) => ⟨s.entries, some (current.set key value)⟩
    | _, _ => s

def statusOf (e : Dict Text Text) : Text :=
  orElse ((e.get statusKey).getD []) ((e.get englishStatusKey).getD [])

def State.all (s : State) : List (Dict Text Text) := s.entries ++ s.current.toList

def listRegisteredClusters (raw : Text) : List (Dict Text Text) :=
  ((splitlines raw).foldl step ⟨[], none⟩).all.filter fun e => strip (statusOf e) ≠ disabled

/-! ### What is read back -/

/-- The keys that the kernel asks for. -/
def reserved : List Text := [clusterNameKey, statusKey, englishStatusKey]

/-- A line that opens no entry and sets none of these keys. -/
structure Quiet (line : Text) : Prop where
  heading : headingAt line = none
  key : ∀ a, attributeAt line = some a → a.1 ∉ reserved

/-- An entry of the registry whose texts do not look like lines of the listing. -/
structure Clear (c : Text × Source) : Prop where
  name : ∀ x ∈ c.1, isSpace x = false
  stripped : strip c.2.status = c.2.status
  status : ∀ x ∈ c.2.status, isLineBreak x = false
  lines : ∀ a ∈ c.2.front ++ c.2.back, ∀ l ∈ (splitlines a.2).tail, Quiet l

theorem foldl_quiet {ls : List Text} (h : ∀ l ∈ ls, Quiet l) (es : List (Dict Text Text))
    (e : Dict Text Text) :
    ∃ e', ls.foldl step ⟨es, some e⟩ = ⟨es, some e'⟩ ∧ ∀ k ∈ reserved, e'.get k = e.get k := by
  induction ls generalizing e with
  | nil => exact ⟨e, rfl, fun k _ => rfl⟩
  | cons l ls ih =>
    obtain ⟨hHeading, hKey⟩ := h l List.mem_cons_self
    have hRest : ∀ l ∈ ls, Quiet l := fun m hm => h m (List.mem_cons_of_mem l hm)
    rw [List.foldl_cons]
    cases hAt : attributeAt l with
    | none =>
      have hStep : step ⟨es, some e⟩ l = ⟨es, some e⟩ := by rw [step, hHeading, hAt]
      rw [hStep]
      exact ih hRest e
    | some a =>
      have hStep : step ⟨es, some e⟩ l = ⟨es, some (e.set a.1 a.2)⟩ := by
        rw [step, hHeading, hAt]
      obtain ⟨e', hRun, hSame⟩ := ih hRest (e.set a.1 a.2)
      rw [hStep]
      refine ⟨e', hRun, fun k hk => ?_⟩
      have hNe : k ≠ a.1 := fun hEq => hKey a hAt (hEq ▸ hk)
      rw [hSame k hk, Dict.get_set, if_neg hNe]

def otherKeys : List Text :=
  ["種別".toList, "環境".toList, "ディストリビューション".toList, "endpoint".toList,
    "Cloudflare Tunnel ID".toList, "説明".toList, "利用目的".toList, "所有者".toList,
    "Rancher 管理下".toList, "備考".toList, "更新日時".toList]

theorem otherKeys_plain : ∀ key ∈ statusKey :: otherKeys,
    ':' ∉ key ∧ key ≠ [] ∧ strip key = key ∧ ∀ c ∈ key, isLineBreak c = false := by
  have hAll : ∀ key ∈ statusKey :: otherKeys, ':' ∉ key ∧ key ≠ [] ∧ strip key = key ∧
      key.all (fun c => !isLineBreak c) = true := by
    decide
  intro key hKey
  obtain ⟨hColon, hne, hStrip, hLine⟩ := hAll key hKey
  exact ⟨hColon, hne, hStrip, Python.none_of_all hLine⟩

theorem not_reserved_of_mem {key : Text} (h : key ∈ otherKeys) : key ∉ reserved := by
  revert key
  decide

theorem mem_of_given {key : String} {text : Text} {a : Text × Text} (h : a ∈ given key text)
    (hKey : key.toList ∈ otherKeys) : a.1 ∈ otherKeys := by
  unfold given at h
  split at h
  · cases h
  · rwa [List.mem_singleton.mp h]

theorem key_mem {e : Source} {a : Text × Text} (h : a ∈ e.front ++ e.back) : a.1 ∈ otherKeys := by
  simp only [Source.front, Source.back, List.mem_append, List.mem_singleton, List.mem_map] at h
  obtain (((((((rfl | h) | h) | rfl) | h) | h) | h) | h) | (⟨managed, -, rfl⟩ | h) | h := h <;>
    first
    | exact mem_of_given h (by decide)
    | dsimp only; decide

theorem attributeAt_attributeLine {key : Text} (h : ':' ∉ key) (hne : key ≠ []) (value : Text) :
    attributeAt (attributeLine (key, value)) = some (strip key, strip value) := by
  have hCut : Cut.cut [':'] (key ++ ([':'] ++ ' ' :: value)) = some (key, ' ' :: value) := by
    rw [Cut.cut_append_of_notMem h, Cut.cut_prefix]
    simp
  have hBlank : isSpace ' ' = true := by decide
  have hStrip : strip (' ' :: value) = strip value := rfl
  rw [attributeLine, attributeAt, if_pos hBlank]
  rw [List.singleton_append] at hCut
  simp only [hCut]
  rw [if_neg hne, hStrip]

theorem fullLines_attributeLine {key : Text} (h : ∀ c ∈ key, isLineBreak c = false)
    (value : Text) :
    fullLines (attributeLine (key, value)) =
      attributeLine (key, (splitlines value).headD []) ::
        (splitlines value).tail.filter (· ≠ []) := by
  have hFront : ∀ c ∈ '-' :: ' ' :: (key ++ [':', ' ']), isLineBreak c = false := by
    simp only [List.mem_cons, List.mem_append, List.not_mem_nil, or_false]
    rintro c (rfl | rfl | hc | rfl | rfl)
    · decide
    · decide
    · exact h c hc
    · decide
    · decide
  have hLine : ∀ value : Text,
      attributeLine (key, value) = '-' :: ' ' :: (key ++ [':', ' ']) ++ value := by
    simp [attributeLine]
  rw [fullLines, hLine value, Python.splitlines_append hFront (List.cons_ne_nil _ _), hLine]
  exact List.filter_cons_of_pos (by simp)

theorem headingAt_attributeLine (a : Text × Text) : headingAt (attributeLine a) = none := rfl

theorem quiet_of_mem {key value : Text} (hKey : key ∈ otherKeys)
    (h : ∀ l ∈ (splitlines value).tail, Quiet l) {l : Text}
    (hl : l ∈ fullLines (attributeLine (key, value))) : Quiet l := by
  obtain ⟨hColon, hne, hStrip, hBreak⟩ := otherKeys_plain key (List.mem_cons_of_mem _ hKey)
  rw [fullLines_attributeLine hBreak, List.mem_cons] at hl
  obtain rfl | hl := hl
  · refine ⟨headingAt_attributeLine _, fun a ha => ?_⟩
    rw [attributeAt_attributeLine hColon hne, hStrip] at ha
    cases ha
    exact not_reserved_of_mem hKey
  · exact h l (List.mem_filter.mp hl).1

theorem headingAt_heading {name : Text} (hne : name ≠ []) (h : ∀ c ∈ name, isSpace c = false) :
    headingAt (heading name) = some name := by
  have hDrop : name.dropWhile isSpace = name := by
    rw [List.dropWhile_eq_self_iff]
    intro hPos hSpace
    rw [h _ (List.getElem_mem hPos)] at hSpace
    cases hSpace
  have hRest : name.dropWhile (!isSpace ·) = [] :=
    List.dropWhile_eq_nil_iff.mpr fun c hc => by rw [h c hc]; rfl
  have hBlank : isSpace ' ' = true := by decide
  rw [heading, headingAt, hDrop, hRest, if_pos ⟨hBlank, rfl⟩, wordAt_eq_some h hne]

theorem fullLines_heading {name : Text} (h : ∀ c ∈ name, isSpace c = false) :
    fullLines (heading name) = [heading name] := by
  have hBreak : ∀ c ∈ heading name, isLineBreak c = false := by
    simp only [heading, List.mem_cons]
    rintro c (rfl | rfl | rfl | rfl | hc)
    · decide
    · decide
    · decide
    · decide
    · exact Bool.eq_false_iff.mpr fun hEq =>
        absurd (isSpace_of_isLineBreak hEq) (by rw [h c hc]; decide)
  have hne : heading name ≠ [] := List.cons_ne_nil _ _
  rw [fullLines, Python.splitlines_eq_singleton hne hBreak]
  exact List.filter_cons_of_pos (by simp [hne])

theorem step_heading {name : Text} (hne : name ≠ []) (h : ∀ c ∈ name, isSpace c = false)
    (s : State) :
    step s (heading name) = ⟨s.all, some (Dict.empty.set clusterNameKey name)⟩ := by
  rw [step, headingAt_heading hne h]
  rfl

theorem foldl_statusRow {c : Text × Source} (h : Clear c) (es : List (Dict Text Text))
    (e : Dict Text Text) :
    ∃ e', ((statusRow c.2).flatMap fun a => fullLines (attributeLine a)).foldl step ⟨es, some e⟩ =
        ⟨es, some e'⟩ ∧
      (∀ k, k ≠ statusKey → e'.get k = e.get k) ∧
      e'.get statusKey = if c.2.status = [] then e.get statusKey else some c.2.status := by
  obtain ⟨hColon, hne, hStrip, hBreak⟩ := otherKeys_plain statusKey List.mem_cons_self
  rw [statusRow]
  split
  next hNil => exact ⟨e, rfl, fun k _ => rfl, rfl⟩
  next hStatus =>
    have hLines : splitlines c.2.status = [c.2.status] :=
      Python.splitlines_eq_singleton hStatus h.status
    have hStep : step ⟨es, some e⟩ (attributeLine (statusKey, c.2.status)) =
        ⟨es, some (e.set statusKey c.2.status)⟩ := by
      rw [step, headingAt_attributeLine, attributeAt_attributeLine hColon hne, hStrip, h.stripped]
    refine ⟨e.set statusKey c.2.status, ?_, fun k hk => ?_, ?_⟩
    · rw [List.flatMap_singleton, fullLines_attributeLine hBreak, hLines]
      exact hStep
    · rw [Dict.get_set, if_neg hk]
    · rw [Dict.get_set, if_pos rfl]

/-- The lines of a cluster make one entry, with its name and its status. -/
theorem all_foldl_block {c : Text × Source} (hne : c.1 ≠ []) (h : Clear c) (s : State) :
    ∃ e, (((block c).flatMap fullLines).foldl step s).all = s.all ++ [e] ∧
      e.get clusterNameKey = some c.1 ∧ statusOf e = c.2.status := by
  have hQuiet : ∀ as : List (Text × Text), (∀ a ∈ as, a ∈ c.2.front ++ c.2.back) →
      ∀ l ∈ as.flatMap fun a => fullLines (attributeLine a), Quiet l := by
    intro as hAs l hl
    obtain ⟨a, ha, hl⟩ := List.mem_flatMap.mp hl
    exact quiet_of_mem (key_mem (hAs a ha)) (h.lines a (hAs a ha)) hl
  obtain ⟨e₁, hRun₁, hSame₁⟩ := foldl_quiet
    (hQuiet c.2.front fun a ha => List.mem_append_left _ ha) s.all
    (Dict.empty.set clusterNameKey c.1)
  obtain ⟨e₂, hRun₂, hSame₂, hStatus⟩ := foldl_statusRow h s.all e₁
  obtain ⟨e₃, hRun₃, hSame₃⟩ := foldl_quiet
    (hQuiet c.2.back fun a ha => List.mem_append_right _ ha) s.all e₂
  have hEmpty : fullLines [] = [] := rfl
  have hRun : ((block c).flatMap fullLines).foldl step s = ⟨s.all, some e₃⟩ := by
    rw [block, List.flatMap_cons, fullLines_heading h.name, List.flatMap_append, List.flatMap_map,
      List.flatMap_append, List.flatMap_append, List.flatMap_singleton, hEmpty, List.append_nil,
      List.foldl_append, List.foldl_append, List.foldl_append, List.foldl_cons, List.foldl_nil,
      step_heading hne h.name, hRun₁, hRun₂, hRun₃]
  have hEnglish : e₃.get englishStatusKey = none := by
    rw [hSame₃ _ (by decide), hSame₂ _ (by decide), hSame₁ _ (by decide)]
    rfl
  refine ⟨e₃, by rw [hRun]; rfl, ?_, ?_⟩
  · rw [hSame₃ _ (by decide), hSame₂ _ (by decide), hSame₁ _ (by decide)]
    rfl
  · have hOwn : e₃.get statusKey = if c.2.status = [] then none else some c.2.status := by
      rw [hSame₃ _ (by decide), hStatus, hSame₁ _ (by decide)]
      rfl
    rw [statusOf, hEnglish, hOwn]
    by_cases hNil : c.2.status = []
    · rw [if_pos hNil, hNil]
      rfl
    · rw [if_neg hNil]
      exact if_neg hNil

theorem all_foldl_blocks {cs : List (Text × Source)} (hne : ∀ c ∈ cs, c.1 ≠ [])
    (h : ∀ c ∈ cs, Clear c) (s : State) :
    ∃ es, (((cs.flatMap block).flatMap fullLines).foldl step s).all = s.all ++ es ∧
      es.map (fun e => (e.get clusterNameKey, statusOf e)) =
        cs.map fun c => (some c.1, c.2.status) := by
  induction cs generalizing s with
  | nil => exact ⟨[], (List.append_nil _).symm, rfl⟩
  | cons c cs ih =>
    obtain ⟨e, hAll, hName, hStatus⟩ :=
      all_foldl_block (hne c List.mem_cons_self) (h c List.mem_cons_self) s
    obtain ⟨es, hRun, hMap⟩ := ih (fun d hd => hne d (List.mem_cons_of_mem c hd))
      (fun d hd => h d (List.mem_cons_of_mem c hd)) (((block c).flatMap fullLines).foldl step s)
    refine ⟨e :: es, ?_, ?_⟩
    · rw [List.flatMap_cons, List.flatMap_append, List.foldl_append, hRun, hAll,
        List.append_assoc, List.singleton_append]
    · rw [List.map_cons, hMap, hName, hStatus, List.map_cons]

theorem get_put {out : Dict Text Source} {hit : Text × Source} {name : Text} {e : Source}
    (h : (put out hit).get name = some e) : out.get name = some e ∨ (name ≠ [] ∧ e = hit.2) := by
  unfold put at h
  split at h
  · exact .inl h
  next hne =>
    rw [Dict.get_set] at h
    split at h
    next hName =>
      cases h
      exact .inr ⟨hName ▸ hne, rfl⟩
    · exact .inl h

theorem loadRegistry_get {index : List (Text × Source)} {name : Text} {e : Source}
    (h : (loadRegistry index).get name = some e) : name ≠ [] ∧ e.status ≠ disabled := by
  have hRun : ∀ (hits : List (Text × Source)) (out : Dict Text Source),
      (hits.foldl put out).get name = some e →
        out.get name = some e ∨ (name ≠ [] ∧ ∃ hit ∈ hits, e = hit.2) := by
    intro hits
    induction hits with
    | nil => exact fun out h => .inl h
    | cons hit hits ih =>
      intro out h
      obtain hPut | ⟨hne, hit', hMem, hEq⟩ := ih _ h
      · obtain hOut | ⟨hne, hEq⟩ := get_put hPut
        · exact .inl hOut
        · exact .inr ⟨hne, hit, List.mem_cons_self, hEq⟩
      · exact .inr ⟨hne, hit', List.mem_cons_of_mem hit hMem, hEq⟩
  obtain hEmpty | ⟨hne, hit, hMem, rfl⟩ := hRun _ _ h
  · cases hEmpty
  · exact ⟨hne, by simpa using (List.mem_filter.mp (List.mem_of_mem_take hMem)).2⟩

theorem mem_sorted {clusters : Dict Text Source} {c : Text × Source} (h : c ∈ sorted clusters) :
    clusters.get c.1 = some c.2 := by
  obtain ⟨name, -, hGet⟩ := List.mem_filterMap.mp h
  obtain ⟨e, he, rfl⟩ := Option.map_eq_some_iff.mp hGet
  exact he

/-- The entries that the listing shows. -/
def rendered (index : List (Text × Source)) (allowed : Text → Bool) : List (Text × Source) :=
  sorted ((loadRegistry index).filter allowed)

theorem rendered_get {index : List (Text × Source)} {allowed : Text → Bool} {c : Text × Source}
    (h : c ∈ rendered index allowed) : (loadRegistry index).get c.1 = some c.2 := by
  have hGet := mem_sorted h
  rw [Dict.get_filter] at hGet
  split at hGet
  · exact hGet
  · cases hGet

theorem rendered_eq_nil {index : List (Text × Source)} {allowed : Text → Bool}
    (h : ((loadRegistry index).filter allowed).keys = []) : rendered index allowed = [] := by
  rw [rendered, sorted, h]
  rfl

theorem step_nil (s : State) : step s [] = s := by
  unfold step
  cases s.current <;> rfl

theorem listRegisteredClusters_message {t : Text} (h : ∀ c ∈ t, isLineBreak c = false)
    (hHead : t.head? ≠ some '#') : listRegisteredClusters t = [] := by
  by_cases hNil : t = []
  · rw [hNil]
    rfl
  · have hStep : step ⟨[], none⟩ t = ⟨[], none⟩ := by
      have hNone : headingAt t = none := by
        unfold headingAt
        split
        next => exact absurd rfl hHead
        next => rfl
      rw [step, hNone]
    rw [listRegisteredClusters, Python.splitlines_eq_singleton hNil h, List.foldl_cons, hStep]
    rfl

/-- The kernel has the clusters that are shown, each with its name and its status. -/
theorem listRegisteredClusters_listClusters {index : List (Text × Source)} {allowed : Text → Bool}
    (h : ∀ c ∈ rendered index allowed, Clear c) :
    (listRegisteredClusters (listClusters index allowed)).map
        (fun e => (e.get clusterNameKey, statusOf e)) =
      (rendered index allowed).map fun c => (some c.1, c.2.status) := by
  rw [listClusters]
  split
  next hNil =>
    have hNone : rendered index allowed = [] := by
      refine List.eq_nil_iff_forall_not_mem.mpr fun c hc => ?_
      have hKey : c.1 ∈ (loadRegistry index).keys := by
        rw [Dict.mem_keys_iff, rendered_get hc]
        rfl
      rw [hNil] at hKey
      cases hKey
    rw [hNone, listRegisteredClusters_message (Python.none_of_all (by decide)) (by decide)]
    rfl
  · split
    next hNil =>
      rw [rendered_eq_nil hNil,
        listRegisteredClusters_message (Python.none_of_all (by decide)) (by decide)]
      rfl
    · have hTitle : ∀ count, step ⟨[], none⟩ (title clustersFront count) = ⟨[], none⟩ :=
        fun count => rfl
      obtain ⟨es, hAll, hMap⟩ := all_foldl_blocks
        (fun c hc => (loadRegistry_get (rendered_get hc)).1) h ⟨[], none⟩
      have hKept : es.filter (fun e => strip (statusOf e) ≠ disabled) = es := by
        refine List.filter_eq_self.mpr fun e he => ?_
        have hPair := List.mem_map_of_mem (f := fun e => (e.get clusterNameKey, statusOf e)) he
        rw [hMap, List.mem_map] at hPair
        obtain ⟨c, hc, hEq⟩ := hPair
        have hStatus : c.2.status = statusOf e := congrArg Prod.snd hEq
        rw [← hStatus, (h c hc).stripped]
        simpa using (loadRegistry_get (rendered_get hc)).2
      rw [listRegisteredClusters, ← Python.foldl_fullLines step_nil, Python.fullLines_unlines,
        List.flatMap_cons, fullLines_title (Python.none_of_all (by decide)),
        List.singleton_append, List.foldl_cons, hTitle]
      change List.map _ (List.filter _ (List.foldl step ⟨[], none⟩
        (((rendered index allowed).flatMap block).flatMap fullLines)).all) = _
      rw [hAll]
      change List.map _ (es.filter _) = _
      rw [hKept, hMap]

end OpenSpoke.Kubeconfig.Listings

/-! ## Text answers read back

The kernel knows nodes, clusters and the outcome of a command only through the texts that the
tools show. -/

namespace OpenSpoke.Kubeconfig

open Python (Text isSpace)

/-- What is shown as text. -/
inductive Answer
  | exec (node : Text) (nonblank : ∀ c ∈ node, isSpace c = false) (r : NodeExec.Shell)
    (spokeMs : Int)
  | failure (f : NodeExec.Failure)
  | nodes (pods : List Listings.Pod)
  | clusters (index : List (Text × Listings.Source)) (allowed : Text → Bool)

namespace Answer

/-- The kernel reads from the text what the text was made of. -/
def ReadBack : Answer → Prop
  | exec node _ r spokeMs => NodeExec.ReadBack node r spokeMs
  | failure f => NodeExec.ReadAsFailure f.text
  | nodes pods => Listings.listSpokeNodes (Listings.nodeList pods) = Listings.shownNodes pods
  | clusters index allowed =>
    (Listings.listRegisteredClusters (Listings.listClusters index allowed)).map
        (fun e => (e.get Listings.clusterNameKey, Listings.statusOf e)) =
      (Listings.rendered index allowed).map fun c => (some c.1, c.2.status)

/-- The free texts do not imitate the marks of the text around them. -/
def Plain : Answer → Prop
  | exec node _ r _ => NodeExec.Plain node r
  | failure f => NodeExec.Unmarked f.text
  | nodes pods => ∀ p ∈ pods, p.Plain
  | clusters index allowed => ∀ c ∈ Listings.rendered index allowed, Listings.Clear c

def IsClusters : Answer → Prop
  | clusters _ _ => True
  | _ => False

/-- Plain answers are read back; of the others only a listing of clusters can be, where what one
text forges another one hides. -/
theorem readBack_of_plain (x : Answer) :
    (x.Plain → x.ReadBack) ∧ (x.ReadBack → x.IsClusters ∨ x.Plain) := by
  cases x with
  | exec node nonblank r spokeMs =>
    have hIff := NodeExec.readBack_iff nonblank (r := r) spokeMs
    exact ⟨hIff.mpr, fun h => .inr (hIff.mp h)⟩
  | failure f =>
    have hIff := NodeExec.readAsFailure_iff f.text
    exact ⟨hIff.mpr, fun h => .inr (hIff.mp h)⟩
  | nodes pods =>
    have hIff := Listings.listSpokeNodes_iff pods
    exact ⟨hIff.mpr, fun h => .inr (hIff.mp h)⟩
  | clusters index allowed =>
    exact ⟨fun h => Listings.listRegisteredClusters_listClusters h, fun _ => .inl trivial⟩

/-- A command prints a line `[stderr]`. -/
def printed : NodeExec.Shell where
  exitCode := 0
  short := by decide
  durationMs := 5
  timeout := false
  truncated := false
  stdout := "a\n[stderr]\nb".toList
  stderr := []

/-- The notes of a cluster have a heading. -/
def noted : Listings.Source where
  clusterName := ['a']
  kind := []
  env := []
  k8sDistribution := []
  url := none
  cloudflareTunnelId := []
  description := []
  purpose := []
  owner := []
  status := []
  rancherManaged := none
  notes := "x\n### y".toList
  updatedAt := []

theorem marks_read : ¬(exec ['n'] (Python.none_of_all (by decide)) printed 7).ReadBack ∧
    ¬(failure (.status 500 "exit_code=0".toList)).ReadBack ∧
    ¬(clusters [(['a'], noted)] fun _ => true).ReadBack := by
  refine ⟨fun h => ?_, fun h => ?_, fun h => ?_⟩
  · exact absurd h.stdout (by decide)
  · exact absurd h.1 (by decide)
  · exact absurd (congrArg List.length h) (by decide)

end Answer

end OpenSpoke.Kubeconfig
