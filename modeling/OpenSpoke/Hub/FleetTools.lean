import OpenSpoke.Hub.FleetDocs
import OpenSpoke.Hub.Ledger
import OpenSpoke.Lib.Cut

/-!
# The migration tools

`cluster_fleet_token_create`, `cluster_fleet_agent_install`, `cluster_fleet_cluster_label`
and `cluster_fleet_cluster_delete` call a spoke, and take the text that `_spoke_call`
gives them for a success unless it mentions an error.
-/

namespace OpenSpoke.Hub

open Parts
open Python (Text strip)

def error : Text := ['E', 'R', 'R', 'O', 'R']

/-- `upper()`, as far as it makes an `E`, an `R` or an `O`. -/
def upper (t : Text) : Text := t.map Char.toUpper

/-- `"ERROR" in t.upper()`. -/
def MentionsError (t : Text) : Prop := error <:+: upper t

instance (t : Text) : Decidable (MentionsError t) := inferInstanceAs (Decidable (_ <:+: _))

/-! ## What a call of a spoke comes to -/

inductive Reply
  -- the texts of the answer
  | answered (parts : List Text)
  -- an exception, and whether the spoke has executed the tool
  | raised (type message : Text) (ran : Bool)
  -- an exception that `_spoke_call` lets through
  | cancelled (ran : Bool)

inductive Outcome
  | denied (allowed : Allowed)
  | unresolved (e : Unresolved)
  | called (r : Reply)

/-- `_spoke_call`; none is allowed everything. -/
def spokeCall (allowed : Option Allowed) (clusters : List (Text × Spoke)) (cluster : Text)
    (r : Reply) : Outcome :=
  let reached :=
    match resolve clusters cluster with
    | .error e => .unresolved e
    | .ok _ => .called r
  match allowed with
  | some a => if a.passes cluster then reached else .denied a
  | none => reached

def nothing : Text := "(なし)".toList

def Allowed.printed (quote : Text → Text) : Allowed → Text
  | .text t => orElse t nothing
  | .list l => if l = [] then nothing else Hub.printed quote l

def deniedText (cluster allowed : Text) : Text :=
  "❌ クラスタ '".toList ++ cluster ++
    "' へのアクセス権限がありません。 許可されているクラスタ: ".toList ++ allowed ++
    "。 管理者 (openspoke_admin) に user_acl 設定を依頼してください。".toList

def noSpokesText : Text :=
  "スポークが 1 つも登録されていません ".toList ++
    "(OpenSearch index=spoke_clusters が空)。 spoke_register で登録してください。".toList

def Unresolved.text (cluster : Text) : Unresolved → Text
  | .noSpokes => noSpokesText
  | .unknown known =>
    "未知の cluster '".toList ++ cluster ++ "'。 登録済み: ".toList ++ orElse (commas known) nothing
  | .noUrl => "cluster '".toList ++ cluster ++ "' の url が未設定です。".toList

def failedText (cluster type message : Text) : Text :=
  "エラー: スポーク '".toList ++ cluster ++ "' の呼び出しに失敗しました (".toList ++ type ++
    ": ".toList ++ message.take 200 ++ ")".toList

/-- The text that the tool goes on with, none if it does not. -/
def Outcome.result (quote : Text → Text) (cluster : Text) : Outcome → Option Text
  | .denied allowed => some (deniedText cluster (allowed.printed quote))
  | .unresolved e => some ("エラー: ".toList ++ e.text cluster)
  | .called (.answered parts) =>
    some (orElse (strip (unlines parts)) "(スポークから空応答)".toList)
  | .called (.raised type message _) => some (failedText cluster type message)
  | .called (.cancelled _) => none

/-- The spoke has executed the tool, which then did not fail. -/
def Outcome.executed : Outcome → Bool
  | .called (.answered parts) => !error.isPrefixOf (unlines parts)
  | .called (.raised _ _ ran) | .called (.cancelled ran) => ran
  | .denied _ | .unresolved _ => false

/-! ## What the tools record -/

def isLineBreak (c : Char) : Bool :=
  c.toNat ∈ [0x0A, 0x0B, 0x0C, 0x0D, 0x1C, 0x1D, 0x1E, 0x85, 0x2028, 0x2029]

def splitlines : Text → List Text
  | [] => []
  | '\r' :: '\n' :: t => [] :: splitlines t
  | c :: t =>
    if isLineBreak c then [] :: splitlines t
    else
      match splitlines t with
      | [] => [[c]]
      | line :: lines => (c :: line) :: lines

def clientIdLabel : Text := "client_id:".toList

/-- What follows `client_id:` on the first line that starts so. -/
def clientId (result : Text) : Text :=
  match (splitlines result).find? clientIdLabel.isPrefixOf with
  | some line => strip (line.drop clientIdLabel.length)
  | none => []

def clusterSlash : Text := "cluster/".toList

/-- The name of the Cluster CR that the answer starts with. -/
def crName (result : Text) : Text :=
  if clusterSlash.isPrefixOf result then (result.takeWhile (· ≠ ' ')).drop clusterSlash.length
  else []

inductive Tool
  | tokenCreate (cluster targetClusterName : Text)
  | agentInstall (cluster : Text)
  | clusterLabel (cluster clientId clusterNameLabel : Text)
  | clusterDelete (cluster clusterNameLabel : Text)

def migrationStatus : Text := "migration_status".toList

/-- A field, unless its text is empty. -/
def unlessEmpty (name t : Text) : Fields := if t = [] then [] else [(name, .text t)]

namespace Tool

def cluster : Tool → Text
  | tokenCreate cluster _ | agentInstall cluster | clusterLabel cluster _ _
  | clusterDelete cluster _ => cluster

def status : Tool → Text
  | tokenCreate .. => "in-progress".toList
  | agentInstall _ => "agent-installed".toList
  | clusterLabel .. => "labeled".toList
  | clusterDelete .. => "cluster_cr_deleted".toList

/-- The cluster whose document a call is recorded in. -/
def docKey (result : Text) : Tool → Option Text
  | tokenCreate _ target => some target
  | agentInstall cluster => some cluster
  | clusterLabel _ _ label => some label
  | clusterDelete _ label =>
    if orElse label (crName result) = [] then none else some (orElse label (crName result))

def fields (result now : Text) (t : Tool) : Fields :=
  (migrationStatus, .text t.status) ::
  match t with
  | tokenCreate cluster _ =>
    ("token_issued_at".toList, .text now) :: ("fleet_manager_cluster".toList, .text cluster) ::
      unlessEmpty "client_id".toList (Hub.clientId result)
  | agentInstall _ =>
    ("agent_installed_at".toList, .text now) ::
      if "helm release secrets removed".toList <:+: result then
        [("legacy_fleet_cleaned_up_at".toList, .text now)]
      else []
  | clusterLabel _ clientId label =>
    ("labeled_at".toList, .text now) :: ("client_id".toList, .text clientId) ::
      ("cluster_name_label".toList, .text label) ::
      unlessEmpty "fleet_cluster_cr".toList (crName result)
  | clusterDelete .. =>
    ("cluster_cr_deleted_at".toList, .text now) ::
      unlessEmpty "last_deleted_fleet_cluster_cr".toList (crName result)

/-- The document that is updated after a call, and with what. -/
def record (result : Option Text) (now : Text) (t : Tool) : Option (Text × Fields) :=
  match result with
  | some result =>
    if MentionsError result then none else (t.docKey result).map fun key => (key, t.fields result now)
  | none => none

end Tool

/-! ## Texts that mention an error -/

theorem not_mentionsError_nil : ¬MentionsError [] := by decide

theorem mentionsError_append {s : Text} (h : Separates error (upper s)) (a b : Text) :
    MentionsError (a ++ s ++ b) ↔ MentionsError a ∨ MentionsError b := by
  simp only [MentionsError, upper, List.map_append]
  exact h _ _

theorem mentionsError_orElse {t default : Text} (h : ¬MentionsError default) :
    MentionsError (orElse t default) ↔ MentionsError t := by
  unfold orElse
  split
  next hNil =>
    rw [hNil]
    exact iff_of_false h not_mentionsError_nil
  next => rfl

theorem mentionsError_commas (names : List Text) :
    MentionsError (commas names) ↔ ∃ name ∈ names, MentionsError name := by
  have hSep : Separates error (upper [',', ' ']) :=
    separates_of (by decide) (by decide) (by decide)
  have hMap : ∀ names : List Text, upper (commas names) = (upper [',', ' ']).intercalate (names.map upper) := by
    intro names
    induction names with
    | nil => rfl
    | cons name names ih =>
      cases names with
      | nil => simp [commas, joined, List.intercalate, upper]
      | cons other names =>
        simp only [commas, joined, List.intercalate, upper, List.intersperse, List.map_cons,
          List.flatten_cons, List.map_append] at ih ⊢
        rw [ih]
  rw [MentionsError, hMap, infix_intercalate hSep (by decide)]
  simp [MentionsError]

theorem mentionsError_before {s : Text} (h : Separates error (upper s)) (b : Text) :
    MentionsError (s ++ b) ↔ MentionsError b := by
  have hSplit := mentionsError_append h [] b
  rw [List.nil_append] at hSplit
  rw [hSplit]
  exact or_iff_right not_mentionsError_nil

theorem mentionsError_after {s : Text} (h : Separates error (upper s)) (a : Text) :
    MentionsError (a ++ s) ↔ MentionsError a := by
  have hSplit := mentionsError_append h a []
  rw [List.append_nil] at hSplit
  rw [hSplit]
  exact or_iff_left not_mentionsError_nil

theorem mentionsError_deniedText (cluster allowed : Text) :
    MentionsError (deniedText cluster allowed) ↔ MentionsError cluster ∨ MentionsError allowed := by
  unfold deniedText
  rw [mentionsError_after, mentionsError_append, mentionsError_before]
  · exact separates_of (by decide) (by decide) (by decide)
  · exact separates_of (by decide) (by decide) (by decide)
  · exact separates_of (by decide) (by decide) (by decide)

theorem mentionsError_failedText (cluster type message : Text) :
    MentionsError (failedText cluster type message) ↔
      MentionsError cluster ∨ MentionsError type ∨ MentionsError (message.take 200) := by
  unfold failedText
  rw [mentionsError_after, mentionsError_append, mentionsError_append,
    mentionsError_before, or_assoc]
  · exact separates_of (by decide) (by decide) (by decide)
  · exact separates_of (by decide) (by decide) (by decide)
  · exact separates_of (by decide) (by decide) (by decide)
  · exact separates_of (by decide) (by decide) (by decide)

theorem not_mentionsError_noSpokes : ¬MentionsError noSpokesText := by decide +kernel

theorem mentionsError_unknown (cluster : Text) (known : List Text) :
    MentionsError (Unresolved.text cluster (.unknown known)) ↔
      MentionsError cluster ∨ ∃ name ∈ known, MentionsError name := by
  unfold Unresolved.text
  rw [mentionsError_append, mentionsError_before, mentionsError_orElse,
    mentionsError_commas]
  · decide
  · exact separates_of (by decide) (by decide) (by decide)
  · exact separates_of (by decide) (by decide) (by decide)

theorem mentionsError_noUrl (cluster : Text) :
    MentionsError (Unresolved.text cluster .noUrl) ↔ MentionsError cluster := by
  unfold Unresolved.text
  rw [mentionsError_after, mentionsError_before]
  · exact separates_of (by decide) (by decide) (by decide)
  · exact separates_of (by decide) (by decide) (by decide)

theorem mentionsError_cons {c : Char} (h : c.toUpper ∉ error) (t : Text) :
    MentionsError (c :: t) ↔ MentionsError t := by
  have hSplit : error <:+: [] ++ c.toUpper :: upper t ↔ error <:+: [] ∨ error <:+: upper t :=
    infix_append_cons h
  exact hSplit.trans (or_iff_right not_mentionsError_nil)

theorem mentionsError_concat {c : Char} (h : c.toUpper ∉ error) (t : Text) :
    MentionsError (t ++ [c]) ↔ MentionsError t := by
  have hSplit : error <:+: upper t ++ c.toUpper :: [] ↔ error <:+: upper t ∨ error <:+: [] :=
    infix_append_cons h
  rw [MentionsError, upper, List.map_append]
  exact hSplit.trans (or_iff_left not_mentionsError_nil)

theorem toUpper_space {c : Char} (h : Python.isSpace c = true) : c.toUpper ∉ error := by
  have hSame : c.toUpper = c := by
    unfold Char.toUpper
    rw [dif_neg]
    rintro ⟨hLow, hHigh⟩
    have hLow : 97 ≤ c.toNat := hLow
    have hHigh : c.toNat ≤ 122 := hHigh
    simp [Python.isSpace] at h
    omega
  rw [hSame]
  intro hMem
  simp only [error, List.mem_cons, List.not_mem_nil, or_false] at hMem
  rcases hMem with rfl | rfl | rfl | rfl | rfl
  all_goals
    revert h
    decide

theorem mentionsError_strip (t : Text) : MentionsError (strip t) ↔ MentionsError t := by
  have hFront : ∀ t : Text, MentionsError (t.dropWhile Python.isSpace) ↔ MentionsError t := by
    intro t
    induction t with
    | nil => rfl
    | cons c t ih =>
      rw [List.dropWhile_cons]
      split
      next h => rw [ih, mentionsError_cons (toUpper_space h)]
      next => rfl
  have hBack : ∀ t : Text, MentionsError (t.rdropWhile Python.isSpace) ↔ MentionsError t := by
    intro t
    induction t using List.reverseRecOn with
    | nil => rfl
    | append_singleton t c ih =>
      cases h : Python.isSpace c with
      | true => rw [List.rdropWhile_concat_pos _ _ _ h, ih, mentionsError_concat (toUpper_space h)]
      | false => rw [List.rdropWhile_concat_neg _ _ _ (by simp [h])]
  rw [strip, Python.stripIf_eq, hBack, hFront]

/-! ## When the text tells whether the tool has been executed -/

namespace Outcome

/-- The parts of the text that the code has not written say what has happened. -/
def Clear (quote : Text → Text) (cluster : Text) : Outcome → Prop
  | .denied allowed => MentionsError cluster ∨ MentionsError (allowed.printed quote)
  | .unresolved .noSpokes => False
  | .unresolved (.unknown known) => MentionsError cluster ∨ ∃ name ∈ known, MentionsError name
  | .unresolved .noUrl => MentionsError cluster
  | .called (.answered parts) => error <+: unlines parts ∨ ¬MentionsError (unlines parts)
  | .called (.raised type message ran) =>
    (MentionsError cluster ∨ MentionsError type ∨ MentionsError (message.take 200)) ↔ ran = false
  | .called (.cancelled ran) => ran = false

variable {quote : Text → Text} {cluster : Text}

instance : (o : Outcome) → Decidable (o.Clear quote cluster)
  | .denied _ | .unresolved (.unknown _) | .called (.answered _) => inferInstanceAs (Decidable (_ ∨ _))
  | .unresolved .noSpokes => .isFalse id
  | .unresolved .noUrl => inferInstanceAs (Decidable (MentionsError _))
  | .called (.raised ..) => inferInstanceAs (Decidable (_ ↔ _))
  | .called (.cancelled ran) => inferInstanceAs (Decidable (ran = false))

/-- The tool goes on and takes the text for a success. -/
def Taken (quote : Text → Text) (cluster : Text) (o : Outcome) : Prop :=
  ∃ result, o.result quote cluster = some result ∧ ¬MentionsError result

theorem taken_some {o : Outcome} {result : Text} (h : o.result quote cluster = some result) :
    o.Taken quote cluster ↔ ¬MentionsError result := by
  constructor
  · rintro ⟨r, hr, hNot⟩
    rw [h] at hr
    cases hr
    exact hNot
  · intro hNot
    exact ⟨result, h, hNot⟩

theorem mentionsError_resolved (t : Text) :
    MentionsError ("エラー: ".toList ++ t) ↔ MentionsError t :=
  mentionsError_before (separates_of (by decide) (by decide) (by decide)) t

theorem mentionsError_of_failed {t : Text} (h : error <+: t) : MentionsError t := by
  have hUpper : upper error <+: upper t := h.map Char.toUpper
  exact hUpper.isInfix

theorem taken_iff {o : Outcome} :
    (o.Taken quote cluster ↔ o.executed = true) ↔ o.Clear quote cluster := by
  cases o with
  | denied allowed =>
    rw [taken_some rfl, mentionsError_deniedText]
    simp only [executed, Clear, Bool.false_eq_true, iff_false, not_not]
  | unresolved e =>
    rw [taken_some rfl, mentionsError_resolved]
    cases e with
    | noSpokes =>
      have hNot : ¬MentionsError (Unresolved.text cluster .noSpokes) := not_mentionsError_noSpokes
      simp only [executed, Clear, hNot, Bool.false_eq_true, iff_false, not_true_eq_false,
        not_false_eq_true]
    | unknown known =>
      rw [mentionsError_unknown]
      simp only [executed, Clear, Bool.false_eq_true, iff_false, not_not]
    | noUrl =>
      rw [mentionsError_noUrl]
      simp only [executed, Clear, Bool.false_eq_true, iff_false, not_not]
  | called r =>
    cases r with
    | answered parts =>
      have hEmpty : ¬MentionsError "(スポークから空応答)".toList := by decide
      rw [taken_some rfl, mentionsError_orElse hEmpty, mentionsError_strip]
      simp only [executed, Clear, Bool.not_eq_true', ← Bool.not_eq_true, List.isPrefixOf_iff_prefix]
      have hFailed := mentionsError_of_failed (t := unlines parts)
      tauto
    | raised type message ran =>
      rw [taken_some rfl, mentionsError_failedText]
      cases ran with
      | false => simp only [executed, Clear, Bool.false_eq_true, iff_false, not_not, iff_true]
      | true => simp only [executed, Clear, iff_true, Bool.true_eq_false, iff_false]
    | cancelled ran =>
      have hNone : ¬Taken quote cluster (.called (.cancelled ran)) := by
        rintro ⟨result, hResult, -⟩
        cases hResult
      simp [hNone, executed, Clear]

end Outcome

end OpenSpoke.Hub
