import CliProxy.Adapter.PaperclipRunner
import CliProxy.Usage.RunUsage

/-! # Answers to a completion request

`handleStreamingResponse` and `handleNonStreamingResponse` of `src/server/routes.ts`. What their
listeners are called with is a `Signal`; a result has the type that `ClaudeCliResult` declares. -/

namespace CliProxy.Server

open Adapter (ToolEvent RunError)
open Usage (ClaudeCliResult OpenAIUsage ModelUsage cliUsageToOpenai runUsage)

/-- What a run emits before it ends, as far as a handler listens to it. -/
inductive Progress where
  | contentDelta (text : String)
  | toolEvent (event : ToolEvent)
  | result (result : ClaudeCliResult)
  | other

inductive Signal where
  | progress (event : Progress)
  | error (error : RunError)
  | close (code : Int)
  /-- The connection to the client closes. -/
  | disconnect
  /-- `start` rejects. -/
  | rejected (message : String)

/-- What a handler is called with, and the functions it uses. -/
structure ChatContext where
  requestedModel : String
  jsonMode : Bool
  includeUsage : Bool
  surfaceTools : Bool
  /-- `authUiPath`. -/
  authUiPath : Option String → Option String
  /-- `extractJsonFromText`. -/
  extractJsonFromText : String → String
  /-- `ToolEventNarrator.narrate`, after the events it has seen. -/
  narrate : List ToolEvent → ToolEvent → String

/-- What `usageTracker.record` is called with, without the duration. -/
structure UsageRecord where
  model : String
  modelUsage : List (String × ModelUsage)
  mainChainModel : Option String
  inputTokens : Nat
  outputTokens : Nat
  cacheReadTokens : Nat
  cacheWriteTokens : Nat
  stream : Bool
  success : Bool

structure ErrorBody where
  message : String
  type : String
  code : Option String
  engine : Option String
  authUrl : Option String

namespace ChatContext

variable (ctx : ChatContext)

def successRecord (stream : Bool) (result : ClaudeCliResult) : UsageRecord where
  model := ctx.requestedModel
  modelUsage := result.modelUsage
  mainChainModel := result.mainChainModel
  inputTokens := (result.usage.bind (·.input_tokens)).getD 0
  outputTokens := (result.usage.bind (·.output_tokens)).getD 0
  cacheReadTokens := (result.usage.bind (·.cache_read_input_tokens)).getD 0
  cacheWriteTokens := (result.usage.bind (·.cache_creation_input_tokens)).getD 0
  stream
  success := true

def failureRecord (stream : Bool) : UsageRecord where
  model := ctx.requestedModel
  modelUsage := []
  mainChainModel := none
  inputTokens := 0
  outputTokens := 0
  cacheReadTokens := 0
  cacheWriteTokens := 0
  stream
  success := false

/-- The body for an error that `openaiErrorFromError` classifies. -/
def errorBody (error : RunError) : ErrorBody :=
  match error.openai with
  | some shape =>
    ⟨error.message, shape.type, shape.code, shape.engine, ctx.authUiPath shape.engine⟩
  | none => ⟨error.message, "server_error", none, none, ctx.authUiPath none⟩

def errorStatus (error : RunError) : Nat := error.openai.elim 500 (·.status)

/-- A body of the handler's own. -/
def serverError (message : String) : ErrorBody := ⟨message, "server_error", none, none, none⟩

end ChatContext

/-! ## Streaming -/

/-- What is written to the stream. `role` says that the role of the assistant goes with it. -/
inductive Chunk where
  | content (role : Bool) (text : String)
  | reasoning (role : Bool) (text : String) (event : ToolEvent)
  | json (content : String)
  /-- `createDoneChunk`, whose `finish_reason` is `stop`. -/
  | stop
  | usage (usage : OpenAIUsage)
  | error (body : ErrorBody)
  | done

structure Streaming where
  isFirst : Bool
  isComplete : Bool
  jsonBuffer : String
  narrated : List ToolEvent
  body : List Chunk
  writableEnded : Bool
  /-- The calls of `res.end`. -/
  ends : Nat
  killed : Bool
  records : List UsageRecord

namespace Streaming

def start : Streaming := ⟨true, false, "", [], [], false, 0, false, []⟩

variable (ctx : ChatContext) (s : Streaming)

/-- The last chunks are written, unless the stream has ended. -/
def finish (chunks : List Chunk) : Streaming :=
  if s.writableEnded then s
  else { s with body := s.body ++ chunks, writableEnded := true, ends := s.ends + 1 }

/-- The text that JSON is extracted from, when this result comes. -/
def jsonSource (result : ClaudeCliResult) : String :=
  if result.result != "" then result.result else s.jsonBuffer

def onResult (result : ClaudeCliResult) : Streaming :=
  let s := { s with
    isComplete := true
    records := s.records ++ [ctx.successRecord true result] }
  let json := if ctx.jsonMode && s.jsonSource result != "" then
    [Chunk.json (ctx.extractJsonFromText (s.jsonSource result))] else []
  let usage := if ctx.includeUsage then
    [Chunk.usage (cliUsageToOpenai (runUsage result))] else []
  s.finish (json ++ [.stop] ++ usage ++ [.done])

/-- `handleSubprocessError`. -/
def onError (error : RunError) : Streaming :=
  let s := { s with isComplete := true, records := s.records ++ [ctx.failureRecord true] }
  s.finish [.error (ctx.errorBody error)]

def onClose (code : Int) : Streaming :=
  s.finish ((if code ≠ 0 ∧ !s.isComplete then
    [Chunk.error (ChatContext.serverError s!"Process exited with code {code}")] else []) ++ [.done])

def onProgress : Progress → Streaming
  | .contentDelta text =>
    if text == "" || s.writableEnded then s
    else if ctx.jsonMode then { s with jsonBuffer := s.jsonBuffer ++ text }
    else { s with body := s.body ++ [.content s.isFirst text], isFirst := false }
  | .toolEvent event =>
    if !ctx.surfaceTools || s.writableEnded then s
    else { s with
      body := s.body ++ [.reasoning s.isFirst (ctx.narrate s.narrated event) event]
      narrated := s.narrated ++ [event]
      isFirst := false }
  | .result result => s.onResult ctx result
  | .other => s

def on : Signal → Streaming
  | .progress event => s.onProgress ctx event
  | .error error => s.onError ctx error
  | .close code => s.onClose code
  | .disconnect => { s with killed := s.killed || !s.isComplete }
  | .rejected message => s.onError ctx ⟨message, none⟩

end Streaming

/-! ## Not streaming -/

inductive Response where
  /-- `cliResultToOpenai`, with the tool events that are added to its message. -/
  | completion (content : String) (usage : OpenAIUsage) (reasoning : String)
      (toolEvents : List ToolEvent)
  | failure (status : Nat) (body : ErrorBody)

/-- `res.writable` of the platform, given whether the response was ended and whether its
connection is closed. -/
structure Http where
  writable : Bool → Bool → Bool
  open_writable : writable false false = true

structure NonStreaming where
  finalResult : Option ClaudeCliResult
  isComplete : Bool
  toolEvents : List ToolEvent
  reasoning : String
  /-- A response was sent: its headers too. -/
  ended : Bool
  closed : Bool
  killed : Bool
  responses : List Response
  records : List UsageRecord

namespace NonStreaming

def start : NonStreaming := ⟨none, false, [], "", false, false, false, [], []⟩

variable (http : Http) (ctx : ChatContext) (s : NonStreaming)

def writable : Bool := http.writable s.ended s.closed

/-- `res.json`, which throws once the headers are sent. -/
def json (response : Response) : NonStreaming × Bool :=
  if s.ended then (s, false)
  else ({ s with ended := true, responses := s.responses ++ [response] }, true)

/-- `cliResultToOpenai`. -/
def completion (result : ClaudeCliResult) : Response :=
  .completion (if ctx.jsonMode then ctx.extractJsonFromText result.result else result.result)
    (cliUsageToOpenai (runUsage result)) s.reasoning s.toolEvents

def onError (error : RunError) : NonStreaming × Bool :=
  let s := { s with isComplete := true, records := s.records ++ [ctx.failureRecord false] }
  if s.writable http then s.json (.failure (ChatContext.errorStatus error) (ctx.errorBody error))
  else (s, true)

def onClose (code : Int) : NonStreaming × Bool :=
  let s := { s with isComplete := true }
  match s.finalResult with
  | some result =>
    let s := { s with records := s.records ++ [ctx.successRecord false result] }
    if s.writable http then s.json (s.completion ctx result) else (s, true)
  | none =>
    if !s.ended && s.writable http then
      let s := { s with records := s.records ++ [ctx.failureRecord false] }
      s.json (.failure 500
        (ChatContext.serverError s!"CLI exited with code {code} without response"))
    else (s, true)

def onProgress : Progress → NonStreaming
  | .toolEvent event =>
    if ctx.surfaceTools then { s with
      reasoning := s.reasoning ++ ctx.narrate s.toolEvents event
      toolEvents := s.toolEvents ++ [event] }
    else s
  | .result result => { s with finalResult := some result }
  | .contentDelta _ | .other => s

/-- The second component says that the listener does not throw. -/
def on : Signal → NonStreaming × Bool
  | .progress event => (s.onProgress ctx event, true)
  | .error error => s.onError http ctx error
  | .close code => s.onClose http ctx code
  | .disconnect => ({ s with killed := s.killed || !s.isComplete, closed := true }, true)
  | .rejected message => s.json (.failure 500 (ChatContext.serverError message))

/-- A listener that throws makes the run's `catch` emit an error and a `close`. -/
def recover : NonStreaming → List Signal → NonStreaming
  | s, [] => s
  | s, signal :: signals =>
    match s.on http ctx signal with
    | (s, true) => recover s signals
    | (s, false) => s

def handle : NonStreaming → List Signal → NonStreaming
  | s, [] => s
  | s, signal :: signals =>
    match s.on http ctx signal with
    | (s, true) => handle s signals
    | (s, false) =>
      recover http ctx s ([.error ⟨"Cannot set headers after they are sent to the client", none⟩,
        .close 1] ++ signals)

end NonStreaming

/-! ## Runs -/

/-- How a run ends: see `Adapter.Runner.settle`. -/
inductive Ending where
  /-- The rest of the output could not be read. -/
  | hangs
  | closes
  | fails (error : RunError) (code : Int)

def Ending.signals : Ending → List Signal
  | hangs => []
  | closes => [.close 0]
  | fails error code => [.error error, .close code]

/-- What a call of `start` comes to. -/
inductive RunTrace where
  | rejected (message : String)
  /-- No gateway is provisioned for the engine. -/
  | refused (error : RunError)
  | runs (progress : List Progress) (ending : Ending)

def RunTrace.signals : RunTrace → List Signal
  | rejected message => [.rejected message]
  | refused error => [.error error, .close 1]
  | runs progress ending => progress.map .progress ++ ending.signals

/-- When the client disconnects, counted in the signals before it. -/
inductive Client where
  | stays
  | leaves (after : Nat)

def Client.signals (client : Client) (trace : RunTrace) : List Signal :=
  match client with
  | stays => trace.signals
  | leaves after => trace.signals.take after ++ [.disconnect] ++ trace.signals.drop after

/-- `handleStreamingResponse`. -/
def handleStreamingResponse (ctx : ChatContext) (trace : RunTrace) (client : Client) : Streaming :=
  (client.signals trace).foldl (Streaming.on ctx) .start

/-- `handleNonStreamingResponse`. -/
def handleNonStreamingResponse (http : Http) (ctx : ChatContext) (trace : RunTrace)
    (client : Client) : NonStreaming :=
  NonStreaming.handle http ctx .start (client.signals trace)

end CliProxy.Server
