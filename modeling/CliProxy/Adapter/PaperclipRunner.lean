import CliProxy.Lib.Text

/-! # One run of an adapter

`src/adapter/paperclip-runner.ts` with the parsers `stream-json-parser.ts` and
`codex-jsonl-parser.ts`. What adapters print is parsed but not checked, so reading it can throw;
listeners do not throw. -/

namespace CliProxy.Adapter

/-- What `JSON.parse` returns. A number is the text that `String` makes of it. -/
inductive Json where
  | null
  | bool (b : Bool)
  | num (text : String)
  | str (s : String)
  | arr (items : List Json)
  | obj (fields : List (String × Json))
  deriving BEq, Repr

namespace Json

/-- A property, `none` if it is undefined. The properties of `null` are read with `?.` only. -/
def get (v : Json) (key : String) : Option Json :=
  match v with
  | obj fields => fields.lookup key
  | _ => none

/-- `v === s`. -/
def isStr (v : Option Json) (s : String) : Bool :=
  match v with
  | some (str s') => s' == s
  | _ => false

def truthy : Option Json → Bool
  | none | some null => false
  | some (bool b) => b
  | some (num text) => text != "0"
  | some (str s) => s != ""
  | some (arr _) | some (obj _) => true

/-- `v == null`. -/
def nullish : Option Json → Bool
  | none | some null => true
  | _ => false

/-- `v ?? default`. -/
def orDefault (v : Option Json) (default : Json) : Json :=
  match v with
  | none | some null => default
  | some v => v

mutual

/-- `String(v)`; an object with a `toString` of its own makes it throw. -/
def toText : Json → Option String
  | null => some "null"
  | bool b => some (toString b)
  | num text => some text
  | str s => some s
  | arr items => (joinTexts items).map (String.intercalate ",")
  | obj fields => if (fields.lookup "toString").isSome then none else some "[object Object]"

/-- The texts that `join` puts together. -/
def joinTexts : List Json → Option (List String)
  | [] => some []
  | item :: items => do
    let text ← match item with
      | null => some ""
      | item => toText item
    let texts ← joinTexts items
    return text :: texts

end

/-- `` `${v || 0}` `` does not throw. -/
def printable (v : Option Json) : Bool :=
  !truthy v || ((v.bind toText).isSome)

end Json

/-! ## Tool events -/

inductive ToolPhase where
  | call | result
  deriving DecidableEq, Repr

/-- A `ToolEvent`, without what the tool read and printed. -/
structure ToolEvent where
  id : Json
  phase : ToolPhase
  name : Json
  parentId : Option Json

/-- The names of the calls that `ClaudeToolEventExtractor` has seen. -/
abbrev ToolNames := List (Json × Json)

/-- `ClaudeToolEventExtractor.extract` for the blocks of a message. -/
def extractBlocks (fromAssistant : Bool) (parentId : Option Json) :
    ToolNames → List Json → ToolNames × List ToolEvent
  | names, [] => (names, [])
  | names, block :: blocks =>
    if fromAssistant && Json.isStr (block.get "type") "tool_use" && Json.truthy (block.get "id") then
      let id := Json.orDefault (block.get "id") .null
      let name := Json.orDefault (block.get "name") (.str "tool")
      let (names, events) := extractBlocks fromAssistant parentId ((id, name) :: names) blocks
      (names, ⟨id, .call, name, parentId⟩ :: events)
    else if !fromAssistant && Json.isStr (block.get "type") "tool_result"
        && Json.truthy (block.get "tool_use_id") then
      let id := Json.orDefault (block.get "tool_use_id") .null
      let name := (names.lookup id).getD (.str "tool")
      let (names, events) := extractBlocks fromAssistant parentId names blocks
      (names, ⟨id, .result, name, parentId⟩ :: events)
    else extractBlocks fromAssistant parentId names blocks

/-- `ClaudeToolEventExtractor.extract`. -/
def extract (names : ToolNames) (message : Json) : ToolNames × List ToolEvent :=
  let fromAssistant := Json.isStr (message.get "type") "assistant"
  if !fromAssistant && !Json.isStr (message.get "type") "user" then (names, [])
  else match (message.get "message").bind (·.get "content") with
    | some (.arr content) =>
      let parentId := match message.get "parent_tool_use_id" with
        | some .null => none
        | parentId => parentId
      extractBlocks fromAssistant parentId names content
    | _ => (names, [])

/-- `CODEX_NON_TOOL_ITEMS`. -/
def CODEX_NON_TOOL_ITEMS : List String := ["agent_message", "reasoning", "todo_list", "error"]

/-- `codexItemToToolEvent`, `none` if it throws. Whether `clip` takes an output that is no text
depends on the home directory. -/
def codexItemToToolEvent (clips : Json → Bool) (phase : ToolPhase) (item : Json) :
    Option (Option ToolEvent) :=
  if !Json.truthy (item.get "type") || !Json.truthy (item.get "id")
      || CODEX_NON_TOOL_ITEMS.any (Json.isStr (item.get "type")) then some none
  else
    let id := Json.orDefault (item.get "id") .null
    let type := Json.orDefault (item.get "type") .null
    if Json.isStr (some type) "command_execution" && phase == .result
        && !clips (Json.orDefault (item.get "aggregated_output") (.str "")) then none
    else if Json.isStr (some type) "mcp_tool_call" then do
      let named := [item.get "server", item.get "tool"].filter Json.truthy
      let texts ← Json.joinTexts (named.filterMap fun part => part)
      let name := String.intercalate "." texts
      return some ⟨id, phase, if name == "" then type else .str name, none⟩
    else some (some ⟨id, phase, type, none⟩)

/-! ## Errors -/

/-- `OpenAIErrorShape`, without the time to retry after. -/
structure OpenAIErrorShape where
  status : Nat
  type : String
  code : Option String
  engine : Option String
  deriving DecidableEq, Repr

/-- An `Error`; an `AdapterRunError` has a shape. -/
structure RunError where
  message : String
  openai : Option OpenAIErrorShape
  deriving DecidableEq, Repr

structure UsageSummary where
  inputTokens : Option Nat
  outputTokens : Option Nat
  cachedInputTokens : Option Nat

structure AdapterExecutionResult where
  exitCode : Option Int
  signal : Option String
  timedOut : Bool
  errorMessage : Option String
  errorCode : Option String
  errorFamily : Option String
  sessionId : Option String
  summary : Option String
  usage : Option UsageSummary

/-- `unauthenticatedShape`. -/
def unauthenticatedShape (engine : Option String) : OpenAIErrorShape :=
  ⟨401, "invalid_request_error", some "engine_unauthenticated", engine⟩

/-- `mapToOpenAI`. -/
def mapToOpenAI (result : AdapterExecutionResult) (engine : Option String) : OpenAIErrorShape :=
  if result.errorCode = some "claude_auth_required" then unauthenticatedShape engine
  else if result.errorCode = some "model_not_found" then
    ⟨404, "invalid_request_error", some "model_not_found", none⟩
  else if result.errorCode = some "provider_quota" ∨ result.errorFamily = some "provider_quota" then
    ⟨429, "insufficient_quota", some "insufficient_quota", none⟩
  else if result.errorCode = some "claude_transient_upstream"
      ∨ result.errorFamily = some "transient_upstream" then
    ⟨429, "rate_limit_exceeded", some "rate_limit_exceeded", none⟩
  else ⟨500, "server_error", none, none⟩

/-- `adapterRunError`. -/
def adapterRunError (message : String) (result : AdapterExecutionResult)
    (engine : Option String) : RunError := ⟨message, some (mapToOpenAI result engine)⟩

/-! ## The runner -/

inductive OutputMode where
  | streamJson | codexJsonl
  deriving DecidableEq, Repr

structure RunnerConfig where
  outputMode : OutputMode
  engine : Option String
  /-- `JSON.parse`, `none` if it throws. -/
  parse : List Char → Option Json
  /-- `clip` does not throw. -/
  clips : Json → Bool

inductive RunnerEvent where
  | message (message : Json)
  | contentDelta (event : Json)
  | assistant (message : Json)
  | toolEvent (event : ToolEvent)
  | result (result : Json) (mainChainModel : Option Json)
  | raw (line : List Char)
  | error (error : RunError)
  | close (code : Int)

/-- An event, and the directories of the run that exist when it is emitted. -/
structure Emitted where
  event : RunnerEvent
  directories : List String

structure Runner where
  buffer : List Char
  names : ToolNames
  streamErrored : Bool
  streamErrorText : String
  codexStreamed : Bool
  mainChainModel : Option Json
  /-- `cwd` and the custom Codex home. -/
  directories : List String
  emitted : List Emitted

namespace Runner

def start (directories : List String) : Runner :=
  ⟨[], [], false, "", false, none, directories, []⟩

def emit (s : Runner) (event : RunnerEvent) : Runner :=
  { s with emitted := s.emitted ++ [⟨event, s.directories⟩] }

def emitAll (s : Runner) (events : List RunnerEvent) : Runner := events.foldl emit s

/-- `cleanupRunDirectories`. -/
def cleanup (s : Runner) : Runner := { s with directories := [] }

/-- A `content_delta` with this text. -/
def textDelta (text sessionId : String) : RunnerEvent :=
  .contentDelta <| .obj [
    ("type", .str "stream_event"),
    ("event", .obj [
      ("type", .str "content_block_delta"),
      ("delta", .obj [("type", .str "text_delta"), ("text", .str text)])]),
    ("session_id", .str sessionId),
    ("uuid", .str "")]

def trimText (text : String) : String := String.ofList (Lib.trim text.toList)

/-- The tokens of a result can be logged. -/
def usagePrintable (result : Json) : Bool :=
  let usage := result.get "usage"
  !Json.truthy usage || Json.printable (usage.bind (·.get "input_tokens"))
    && Json.printable (usage.bind (·.get "output_tokens"))

/-- `result.is_error === true || result.subtype === "error"`. -/
def isErrorLine (result : Json) : Bool :=
  (match result.get "is_error" with | some (.bool b) => b | _ => false)
    || Json.isStr (result.get "subtype") "error"

/-- The text of a failed result, `none` if making it throws. -/
def inBandText (result : Json) : Option String := do
  let text ← (Json.orDefault (result.get "result") (.str "")).toText
  if trimText text != "" then return trimText text
  let subtype ← (result.get "subtype").elim (some "undefined") Json.toText
  return s!"Paperclip adapter run failed (subtype: {subtype})"

/-- `onResult` of `buildSink`. -/
def onResult (s : Runner) (result : Json) : Runner × Bool :=
  if !usagePrintable result then (s, false)
  else if isErrorLine result then
    match inBandText result with
    | none => ({ s with streamErrored := true }, false)
    | some streamErrorText => ({ s with streamErrored := true, streamErrorText }, true)
  else (s.emit (.result result (s.mainChainModel.filter fun m => Json.truthy (some m))), true)

/-- The model that the `system/init` message of a run names. -/
def noteModel (s : Runner) (message : Json) : Runner :=
  if Json.isStr (message.get "type") "system" && Json.isStr (message.get "subtype") "init" then
    { s with mainChainModel := message.get "model" }
  else s

/-- `onMessage` of `buildSink`, once the message is no `null`. -/
def onMessage (s : Runner) (message : Json) : Runner :=
  let s := s.noteModel message
  let extracted := extract s.names message
  { s.emit (.message message) with names := extracted.1 }.emitAll (extracted.2.map .toolEvent)

/-- `StreamJsonParser.handleLine` for a parsed line. -/
def handleMessage (s : Runner) (message : Json) : Runner × Bool :=
  if Json.nullish (some message) then (s, false)
  else
    let s := s.onMessage message
    if Json.isStr (message.get "type") "stream_event" then
      if Json.nullish (message.get "event") then (s, false)
      else if Json.isStr ((message.get "event").bind (·.get "type")) "content_block_delta" then
        (s.emit (.contentDelta message), true)
      else (s, true)
    else if Json.isStr (message.get "type") "assistant" then (s.emit (.assistant message), true)
    else if Json.isStr (message.get "type") "result" then s.onResult message
    else (s, true)

/-- `onAgentMessage` of `buildCodexSink`. -/
def onAgentMessage (s : Runner) (text : String) : Runner :=
  if text == "" then s
  else
    let chunk := if s.codexStreamed then "\n\n" ++ text else text
    ({ s with codexStreamed := true }).emit (textDelta chunk "")

/-- `onItem` of `buildCodexSink`. -/
def onItem (clips : Json → Bool) (s : Runner) (phase : ToolPhase) (item : Json) : Runner × Bool :=
  match codexItemToToolEvent clips phase item with
  | none => (s, false)
  | some none => (s, true)
  | some (some event) => (s.emit (.toolEvent event), true)

/-- The item of an event that starts or completes one. -/
def itemOf (event : Json) : Option (ToolPhase × Json) :=
  let started := Json.isStr (event.get "type") "item.started"
  let completed := Json.isStr (event.get "type") "item.completed"
  if (started || completed) && Json.truthy (event.get "item") then
    some (if started then .call else .result, Json.orDefault (event.get "item") .null)
  else none

/-- The text of an event that completes an `agent_message`. -/
def messageText (event : Json) : Option String :=
  let item := event.get "item"
  if Json.isStr (event.get "type") "item.completed"
      && Json.isStr (item.bind (·.get "type")) "agent_message" then
    match item.bind (·.get "text") with
    | some (.str text) => some text
    | _ => none
  else none

/-- `onItem` is called for an event that has an item. -/
def handleItem (clips : Json → Bool) (s : Runner) (event : Json) : Runner × Bool :=
  match itemOf event with
  | some (phase, item) => s.onItem clips phase item
  | none => (s, true)

/-- `CodexJsonlParser.handleLine` for a parsed line. -/
def handleCodexEvent (clips : Json → Bool) (s : Runner) (event : Json) : Runner × Bool :=
  if Json.nullish (some event) then (s, false)
  else match s.handleItem clips event with
    | (s, false) => (s, false)
    | (s, true) =>
      match messageText event with
      | some text => (s.onAgentMessage text, true)
      | none => (s, true)

variable (cfg : RunnerConfig)

/-- `handleLine` of the parser; the second component says that it does not throw. -/
def handleLine (s : Runner) (line : List Char) : Runner × Bool :=
  match Lib.trim line with
  | [] => (s, true)
  | trimmed =>
    match cfg.parse trimmed with
    | none => (s.emit (.raw trimmed), true)
    | some value =>
      match cfg.outputMode with
      | .streamJson => s.handleMessage value
      | .codexJsonl => s.handleCodexEvent cfg.clips value

/-- The lines of a chunk, up to the one that throws. -/
def handleLines (s : Runner) : List (List Char) → Runner
  | [] => s
  | line :: lines =>
    match s.handleLine cfg line with
    | (s, true) => s.handleLines lines
    | (s, false) => s

/-- `push`, called by `onLog` for what the adapter prints to stdout. -/
def push (s : Runner) (chunk : List Char) : Runner :=
  let (lines, rest) := Lib.splitLines (s.buffer ++ chunk)
  ({ s with buffer := rest }).handleLines cfg lines

/-- `flush`. -/
def flush (s : Runner) : Runner × Bool :=
  match s.handleLine cfg s.buffer with
  | (s, true) => ({ s with buffer := [] }, true)
  | (s, false) => (s, false)

/-- `isErrorResult`. -/
def isErrorResult (result : AdapterExecutionResult) : Bool :=
  (result.errorMessage.getD "" != "") || result.timedOut || result.signal.isSome
    || (result.exitCode.getD 0 != 0)

/-- `failureMessage`. -/
def failureMessage (s : Runner) (result : AdapterExecutionResult) : String :=
  let errorMessage := trimText (result.errorMessage.getD "")
  if errorMessage != "" then errorMessage
  else if s.streamErrorText != "" then s.streamErrorText
  else if result.timedOut then "Paperclip adapter run timed out"
  else match result.signal with
    | some signal => s!"Paperclip adapter run terminated by signal {signal}"
    | none =>
      let exitCode := match result.exitCode with
        | some code => toString code
        | none => "null"
      s!"Paperclip adapter run failed (exit code {exitCode})"

/-- `failureCloseCode`. -/
def failureCloseCode (result : AdapterExecutionResult) : Int :=
  match result.exitCode with
  | some code => if code ≠ 0 then code else if result.timedOut then 124 else 1
  | none => if result.timedOut then 124 else 1

def tokenField (key : String) (count : Option Nat) : List (String × Json) :=
  (count.map fun n => (key, .num (toString n))).toList

/-- `synthesizeUsage`. -/
def synthesizeUsage (usage : Option UsageSummary) : Json :=
  let cached := usage.bind (·.cachedInputTokens)
  .obj (tokenField "input_tokens" ((usage.bind (·.inputTokens)).map (· - cached.getD 0))
    ++ tokenField "output_tokens" (usage.bind (·.outputTokens))
    ++ tokenField "cache_read_input_tokens" cached)

/-- The result that `emitSummary` makes up, without the times and the cost. -/
def synthesizedResult (result : AdapterExecutionResult) : Json :=
  let failed := result.timedOut || result.exitCode != some 0
  .obj [
    ("type", .str "result"),
    ("subtype", .str (if failed then "error" else "success")),
    ("is_error", .bool (result.errorMessage.getD "" != "" || failed)),
    ("result", .str (result.summary.getD "")),
    ("session_id", .str (result.sessionId.getD "")),
    ("usage", synthesizeUsage result.usage),
    ("modelUsage", .obj [])]

/-- `emitCodexTerminal`. -/
def emitCodexTerminal (s : Runner) (result : AdapterExecutionResult) : Runner :=
  let text := result.summary.getD ""
  let s := if text != "" && !s.codexStreamed then
    s.emit (textDelta text (result.sessionId.getD "")) else s
  s.emit (.result (synthesizedResult result) (s.mainChainModel.filter fun m => Json.truthy (some m)))

/-- The handler for a result of `execute`. -/
def onResolved (s : Runner) (result : AdapterExecutionResult) : Runner × Bool :=
  match s.flush cfg with
  | (s, false) => (s, false)
  | (s, true) =>
    let failed := s.streamErrored || isErrorResult result
    let s := if cfg.outputMode = .codexJsonl ∧ !failed then s.emitCodexTerminal result else s
    let s := s.cleanup
    if failed then
      ((s.emit (.error (adapterRunError (s.failureMessage result) result cfg.engine))).emit
        (.close (failureCloseCode result)), true)
    else (s.emit (.close (result.exitCode.getD (if result.timedOut then 124 else 0))), true)

/-- The handler for an exception. -/
def onRejected (s : Runner) (message : String) : Runner × Bool :=
  match s.flush cfg with
  | (s, false) => (s, false)
  | (s, true) => ((s.cleanup.emit (.error ⟨message, none⟩)).emit (.close 1), true)

end Runner

/-- How `execute` settles. -/
inductive Settlement where
  | resolved (result : AdapterExecutionResult)
  | rejected (message : String)

namespace Runner

variable (cfg : RunnerConfig)

/-- The second component says that no rejection is left unhandled. -/
def settle (s : Runner) : Settlement → Runner × Bool
  | .resolved result =>
    match s.onResolved cfg result with
    | (s, true) => (s, true)
    | (s, false) => s.onRejected cfg "TypeError"
  | .rejected message => s.onRejected cfg message

/-- The run from the call of `execute` on. -/
def run (directories : List String) (chunks : List (List Char)) (settlement : Settlement) :
    Runner × Bool :=
  (chunks.foldl (push cfg) (start directories)).settle cfg settlement

end Runner

end CliProxy.Adapter
