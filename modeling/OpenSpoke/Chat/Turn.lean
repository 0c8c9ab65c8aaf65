import Mathlib.Algebra.Group.Nat.Defs
import Mathlib.Data.Rat.Defs
import OpenSpoke.Chat.Window
import OpenSpoke.Lib.Rounds
import OpenSpoke.Python.Text

/-!
# A streamed turn

The loop of `core_chat_send_stream` for a Claude model: calls of the model, the tools it asks
for, and the four ways the turn ends. The input of a tool is a parameter. An event that cannot
be written raises where it is emitted. First come the tokens of the calls, and what they cost by
the prices of the chat and by those of the usage record.
-/

namespace OpenSpoke.Chat

open Python (Text)

@[ext]
structure Tokens where
  input : ℕ
  output : ℕ
  cacheW : ℕ
  cacheR : ℕ
  deriving DecidableEq

namespace Tokens

instance : Zero Tokens := ⟨⟨0, 0, 0, 0⟩⟩

instance : Add Tokens :=
  ⟨fun a b => ⟨a.input + b.input, a.output + b.output, a.cacheW + b.cacheW, a.cacheR + b.cacheR⟩⟩

instance : AddMonoid Tokens where
  add_assoc a b c := Tokens.ext (Nat.add_assoc ..) (Nat.add_assoc ..) (Nat.add_assoc ..)
    (Nat.add_assoc ..)
  zero_add a := Tokens.ext (Nat.zero_add _) (Nat.zero_add _) (Nat.zero_add _) (Nat.zero_add _)
  add_zero _ := rfl
  nsmul := nsmulRec

end Tokens

/-- Dollars for a million tokens. -/
structure Prices where
  input : ℚ
  output : ℚ
  cacheW : ℚ
  cacheR : ℚ

def Prices.sonnet : Prices := ⟨3, 15, 3.75, 0.3⟩
def Prices.opus : Prices := ⟨15, 75, 18.75, 1.5⟩
def Prices.haiku : Prices := ⟨1, 5, 1.25, 0.1⟩

def Prices.cost (p : Prices) (t : Tokens) : ℚ :=
  t.input * p.input / 1000000 + t.cacheW * p.cacheW / 1000000 + t.cacheR * p.cacheR / 1000000 +
    t.output * p.output / 1000000

/-- `str.lower`, as far as it gives letters of ASCII. -/
def lower (t : Text) : Text :=
  t.flatMap fun c =>
    if c = '\u212a' then ['k'] else if c = '\u0130' then ['i', '\u0307'] else [c.toLower]

def isOllamaModel (model : Text) : Bool := !"claude".toList.isPrefixOf (lower model)

def chatPrices (model : Text) : Prices :=
  if "opus".toList <:+: lower model then .opus
  else if "haiku".toList <:+: lower model then .haiku
  else .sonnet

def computeCostUsd (model : Text) (t : Tokens) : ℚ :=
  if isOllamaModel model then 0 else (chatPrices model).cost t

/-- The cost in the usage record, whatever the model. -/
def usageCostUsd (t : Tokens) : ℚ := Prices.sonnet.cost t

end OpenSpoke.Chat

namespace OpenSpoke.Chat.Turn

open DocIndex (Answer)
open Python (Text Str grouped)
open Python.Str (lit encodable strip)
open Window (Context)

def chatMaxToolIterations : ℕ := 100
def chatAccumulatedTokensCap : ℕ := 3000000
def mcpToolResultMaxChars : ℕ := 30000
def toolResultBriefCharLimit : ℕ := 500
def maxOutputTokens : ℕ := 4096

def chatScopedToolNames : List Text :=
  ["list_my_chat_threads", "read_chat_thread_messages", "search_my_chat_history",
    "search_topic_chunks", "lookup_topic_chunk_range"].map String.toList

def modelsSupporting1MContext : List Text :=
  ["claude-sonnet-4-6", "claude-opus-4-6", "claude-opus-4-7", "claude-opus-4-8",
    "claude-opus-5"].map String.toList

/-- An exception, by the name of its type and its text. -/
structure Raised where
  type : Text
  message : Str

/-! ## Answers of the model -/

structure Usage where
  inputTokens : Option ℕ
  outputTokens : Option ℕ
  cacheCreationInputTokens : Option ℕ
  cacheReadInputTokens : Option ℕ

def Usage.tokens (u : Usage) : Tokens :=
  ⟨u.inputTokens.getD 0, u.outputTokens.getD 0, u.cacheCreationInputTokens.getD 0,
    u.cacheReadInputTokens.getD 0⟩

structure Use (ι : Type*) where
  id : Text
  name : Text
  input : ι

inductive Block (ι : Type*)
  | text (t : Str)
  | toolUse (u : Use ι)
  | other

structure Final (ι : Type*) where
  content : List (Block ι)
  stopReason : Option Text
  usage : Usage

/-- The texts of the stream, and how it ends. -/
structure Reply (ι : Type*) where
  chunks : List Str
  final : Except Raised (Final ι)

inductive Outcome
  | text (t : Str)
  | raised (e : Raised)

/-! ## The transcript -/

inductive Part (ι : Type*)
  | text (t : Str)
  | toolUse (u : Use ι)
  | toolResult (id : Text) (content : Str) (isError : Bool)

structure Marked (ι : Type*) where
  part : Part ι
  cacheControl : Bool

inductive Content (ι : Type*)
  | plain (t : Str)
  | parts (ps : List (Marked ι))

structure Msg (ι : Type*) where
  role : Role
  content : Content ι

structure Request (ι : Type*) where
  model : Text
  maxTokens : ℕ
  messages : List (Msg ι)
  system : Option Text
  longContext : Bool

structure ToolCall (ι : Type*) where
  name : Text
  input : ι
  resultBrief : Str
  ok : Bool

inductive Event (ι : Type*)
  | start
  | delta (t : Str)
  | toolUse (name : Text) (input : ι)
  | toolResult (name : Text) (ok : Bool) (error : Option Text) (brief : Str)
  | done (tokens : Tokens) (stopReason : Option Text) (toolCallsCount : ℕ)
  | error (t : Str)

structure UsageDoc where
  op : Text
  model : Text
  tokens : Tokens
  userId : Text
  costUsd : ℚ

structure Saved (ι : Type*) where
  threadId : Text
  owner : Text
  order : ℕ
  role : Role
  content : Str
  model : Text
  tokens : Tokens
  costUsd : ℚ
  toolCalls : List (ToolCall ι)

structure St (ι : Type*) where
  msgs : List (Msg ι)
  -- `tool_results_content`
  results : List (Marked ι)
  -- `accumulated_text_parts` and `accumulated_tool_calls`
  parts : List Str
  calls : List (ToolCall ι)
  totals : Tokens
  requests : List (Request ι)
  events : List (Event ι)
  usageDocs : List UsageDoc
  -- the tools that were run, with what came of it
  invoked : List (Use ι × Outcome)

inductive Setup
  | importFailed (e : Raised)
  | notConfigured
  | clientFailed (e : Raised)
  | connectFailed (e : Raised)
  | toolsFailed (e : Raised)
  | ready

structure Env (ι : Type*) where
  setup : Setup
  -- whether the start event and the input of a tool can be written
  startEncodes : Bool
  encodes : ι → Bool
  -- the exception of an event that cannot be written
  encodeError : Event ι → Text × Text
  reply : ℕ → Reply ι
  -- what comes of the tools of a round, by their places
  outcome : ℕ → ℕ → Outcome
  -- whether the usage of a call is recorded
  recorded : ℕ → Bool
  -- the put of the assistant message
  put : Answer

/-! ## Requests -/

def markLast {ι : Type*} (ps : List (Marked ι)) : List (Marked ι) :=
  match ps.getLast? with
  | some p => ps.dropLast ++ [⟨p.part, true⟩]
  | none => ps

def messagesWithCacheControl {ι : Type*} (msgs : List (Msg ι)) : List (Msg ι) :=
  match msgs.getLast? with
  | none => msgs
  | some last =>
    match last.content with
    | .plain t => msgs.dropLast ++ [⟨last.role, .parts [⟨.text t, true⟩]⟩]
    | .parts [] => msgs
    | .parts ps => msgs.dropLast ++ [⟨last.role, .parts (markLast ps)⟩]

section

variable {ι μ : Type*} (env : Env ι) (ctx : Context μ)

def request (msgs : List (Msg ι)) : Request ι where
  model := ctx.model
  maxTokens := maxOutputTokens
  messages := messagesWithCacheControl msgs
  system := if ctx.systemPrompt = [] then none else some ctx.systemPrompt
  longContext := ctx.model ∈ modelsSupporting1MContext

/-! ## Events -/

def Event.encodable : Event ι → Bool
  | .start => env.startEncodes
  | .delta t => Str.encodable t
  | .toolUse _ input => env.encodes input
  | .toolResult _ _ _ brief => Str.encodable brief
  | .done .. => true
  | .error t => Str.encodable t

def raisedBy (e : Event ι) : Raised := ⟨(env.encodeError e).1, lit (env.encodeError e).2⟩

/-- `yield _emit(..)`. -/
def emit (e : Event ι) (s : St ι) : Except (St ι × Raised) (St ι) :=
  if e.encodable env then .ok { s with events := s.events ++ [e] } else .error (s, raisedBy env e)

def emitDeltas : List Str → St ι → Except (St ι × Raised) (St ι)
  | [], s => .ok s
  | chunk :: chunks, s =>
    if chunk = [] then emitDeltas chunks s
    else
      match emit env (.delta chunk) { s with parts := s.parts ++ [chunk] } with
      | .ok s => emitDeltas chunks s
      | .error e => .error e

/-! ## Tools -/

def truncated (t : Str) : Str :=
  if mcpToolResultMaxChars < t.length then
    t.take mcpToolResultMaxChars ++ lit ("\n\n[結果が長いため ".toList ++ grouped mcpToolResultMaxChars ++
      " 文字で切り詰めました (元の長さ: ".toList ++ grouped t.length ++ (" 文字)。 より具体的なクエリで" ++
      "再度呼び出してください。 例: 一覧系 tool はページング引数を使う、 " ++
      "検索系はより狭い検索クエリにする]").toList)
  else t

/-- The text of a tool as the model is given it. -/
def contentOf (name : Text) (t : Str) : Str :=
  truncated (if name ∈ chatScopedToolNames ∨ t ≠ [] then t else lit "(no result)".toList)

def errMsg (e : Raised) : Str :=
  lit ("ツール実行エラー: ".toList ++ e.type ++ ": ".toList) ++ e.message.take 120

/-- The `except` of a tool. -/
def toolFailed (u : Use ι) (e : Raised) (s : St ι) : Except (St ι × Raised) (St ι) :=
  emit env (.toolResult u.name false (some e.type) (errMsg e)) { s with
    results := s.results ++ [⟨.toolResult u.id (errMsg e) true, false⟩]
    calls := s.calls ++ [⟨u.name, u.input, errMsg e, false⟩] }

/-- The `try` of a tool that has given a text. The event is emitted within it. -/
def toolAnswered (u : Use ι) (t : Str) (s : St ι) : Except (St ι × Raised) (St ι) :=
  let content := contentOf u.name t
  let brief := content.take toolResultBriefCharLimit
  match emit env (.toolResult u.name true none brief) { s with
    results := s.results ++ [⟨.toolResult u.id content false, false⟩]
    calls := s.calls ++ [⟨u.name, u.input, brief, true⟩] } with
  | .ok s => .ok s
  | .error (s, e) => toolFailed env u e s

def runTool (u : Use ι) (o : Outcome) (s : St ι) : Except (St ι × Raised) (St ι) :=
  match emit env (.toolUse u.name u.input) s with
  | .error e => .error e
  | .ok s =>
    let s := { s with invoked := s.invoked ++ [(u, o)] }
    match o with
    | .raised e => toolFailed env u e s
    | .text t => toolAnswered env u t s

def runTools : List (Use ι × Outcome) → St ι → Except (St ι × Raised) (St ι)
  | [], s => .ok s
  | (u, o) :: rest, s =>
    match runTool env u o s with
    | .ok s => runTools rest s
    | .error e => .error e

/-! ## Rounds -/

def assistantContent (content : List (Block ι)) : List (Marked ι) :=
  content.filterMap fun
    | .text t => some ⟨.text t, false⟩
    | .toolUse u => some ⟨.toolUse u, false⟩
    | .other => none

def uses (content : List (Block ι)) : List (Use ι) :=
  content.filterMap fun
    | .toolUse u => some u
    | _ => none

/-- The tools of a round with what comes of them. -/
def invocations (k : ℕ) (content : List (Block ι)) : List (Use ι × Outcome) :=
  (uses content).mapIdx fun i u => (u, env.outcome k i)

inductive Exit (ι : Type*)
  | finished (s : St ι) (stopReason : Option Text)
  | capped (s : St ι)
  | exhausted (s : St ι)
  -- with an error event, and without one
  | failed (s : St ι)
  | broken (s : St ι)

def errorText (e : Raised) : Str := lit (e.type ++ ": ".toList) ++ e.message.take 200

/-- The `except` around the loop. -/
def outerError (s : St ι) (e : Raised) : Exit ι :=
  match emit env (.error (errorText e)) s with
  | .ok s => .failed s
  | .error (s, _) => .broken s

/-- The `except` around the stream, within the one around the loop. -/
def streamError (s : St ι) (e : Raised) : Exit ι :=
  match emit env (.error (errorText e)) s with
  | .ok s => .failed s
  | .error (s, e) => outerError env s e

/-- `record_claude_usage`. -/
def usageDoc (t : Tokens) : UsageDoc :=
  ⟨"chat_send_stream".toList, ctx.model, t, ctx.owner, usageCostUsd t⟩

def round (k : ℕ) (s : St ι) : St ι ⊕ Exit ι :=
  let s := { s with requests := s.requests ++ [request ctx s.msgs] }
  match emitDeltas env (env.reply k).chunks s with
  | .error (s, e) => .inr (streamError env s e)
  | .ok s =>
    match (env.reply k).final with
    | .error e => .inr (streamError env s e)
    | .ok final =>
      let s := { s with
        totals := s.totals + final.usage.tokens
        usageDocs := s.usageDocs ++
          (if env.recorded k then [usageDoc ctx final.usage.tokens] else []) }
      if chatAccumulatedTokensCap < s.totals.input + s.totals.output then .inr (.capped s)
      else if final.stopReason ≠ some "tool_use".toList then .inr (.finished s final.stopReason)
      else
        let s := { s with
          msgs := s.msgs ++ [⟨.assistant, .parts (assistantContent final.content)⟩]
          results := [] }
        match runTools env (invocations env k final.content) s with
        | .error (s, e) => .inr (outerError env s e)
        | .ok s => .inl { s with msgs := s.msgs ++ [⟨.user, .parts s.results⟩] }

/-! ## The turn -/

inductive Limit
  | tokens
  | rounds
  deriving DecidableEq

/-- How the stream ends, a `done` with the limit that was hit. -/
inductive End
  | done (hit : Option Limit)
  | error
  | broken

structure Out (ι : Type*) where
  state : St ι
  stored : List (Saved ι)
  ended : End

def Limit.notice (reached : Text) : Limit → Text
  | tokens => "[累積 ".toList ++ grouped chatAccumulatedTokensCap ++ " token の コスト上限に".toList ++
      reached ++ " 続けて発話すれば追加調査できます]".toList
  | rounds => "[Claude が ".toList ++ Nat.toDigits 10 chatMaxToolIterations ++
      " 回の tool 呼び出し上限に".toList ++ reached ++ " 続けて発話すれば追加調査できます]".toList

/-- The text that is stored, with the notice of the limit. -/
def noticed (text : Str) : Option Limit → Str
  | none => text
  | some hit =>
    if text = [] then lit (hit.notice "達し、 回答を完結できませんでした。".toList)
    else text ++ lit ("\n\n".toList ++ hit.notice "達しました。".toList)

/-- `_finalize_send` and the `done` event. -/
def finalizeSend (s : St ι) (hit : Option Limit) (stopReason : Option Text) : Out ι :=
  let saved : Saved ι := ⟨ctx.threadId, ctx.owner, ctx.nextOrder + 1, .assistant,
    noticed (strip s.parts.flatten) hit, ctx.model, s.totals, computeCostUsd ctx.model s.totals,
    s.calls⟩
  ⟨{ s with events := s.events ++ [.done s.totals stopReason s.calls.length] },
    if env.put = .refused then [] else [saved], .done hit⟩

def finish : Exit ι → Out ι
  | .finished s stopReason => finalizeSend env ctx s none stopReason
  | .capped s => finalizeSend env ctx s (some .tokens) (some "cost_cap".toList)
  | .exhausted s => finalizeSend env ctx s (some .rounds) (some "max_iterations".toList)
  | .failed s => ⟨s, [], .error⟩
  | .broken s => ⟨s, [], .broken⟩

/-- An error event outside of every `try`. -/
def plainError (s : St ι) (t : Str) : Exit ι :=
  match emit env (.error t) s with
  | .ok s => .failed s
  | .error (s, _) => .broken s

def withCause (what : Text) (e : Raised) : Str :=
  lit (what ++ e.type ++ ": ".toList) ++ e.message

def start : St ι where
  msgs := ctx.apiMessages.map fun m => ⟨m.role, .plain (lit m.content)⟩
  results := []
  parts := []
  calls := []
  totals := 0
  requests := []
  events := [.start]
  usageDocs := []
  invoked := []

def loop : Exit ι :=
  match env.setup with
  | .importFailed e => plainError env (start ctx) (withCause "main import failed: ".toList e)
  | .notConfigured => plainError env (start ctx)
      (lit "MCP config missing (MCP_API_KEY/MCP_SERVER_URL not set)".toList)
  | .clientFailed e =>
    plainError env (start ctx) (withCause "anthropic client init failed: ".toList e)
  | .connectFailed e => outerError env (start ctx) e
  | .toolsFailed e =>
    match emit env (.error (withCause "MCP list_tools failed: ".toList e)) (start ctx) with
    | .ok s => .failed s
    | .error (s, e) => outerError env s e
  | .ready => Rounds.loop (round env ctx) .exhausted chatMaxToolIterations 0 (start ctx)

/-- What `core_chat_send_stream` does after `_prepare_send`, with a Claude model. -/
def run : Out ι :=
  if env.startEncodes then finish env ctx (loop env ctx)
  else ⟨{ start ctx with events := [] }, [], .broken⟩

end

end OpenSpoke.Chat.Turn
