import CliProxy.Adapter.PaperclipRunner
import CliProxy.Lib.Lines

/-! # Parsers of newline-delimited JSON

`src/adapter/stream-json-parser.ts` and `src/adapter/codex-jsonl-parser.ts`, for any sink that does
not throw. A text is a list of UTF-16 units, so that a chunk may end within a character. -/

namespace CliProxy.Adapter.Ndjson

abbrev Text := List UInt16

/-- The white space that `trim` removes; no surrogate is one. -/
def isTrimmed (unit : UInt16) : Bool := Lib.isTrimmed (Char.ofNat unit.toNat)

def trim (line : Text) : Text :=
  ((line.dropWhile isTrimmed).reverse.dropWhile isTrimmed).reverse

/-- What `handleLine` does with a trimmed line that is not empty: it calls `onRaw` if the line is no
JSON. The second component says that it does not throw. -/
def handleText {κ : Type} (parse : Text → Option Json) (raw : Text → κ) (handle : Json → List κ × Bool)
    (line : Text) : List κ × Bool :=
  match trim line with
  | [] => ([], true)
  | unit :: units =>
    match parse (unit :: units) with
    | none => ([raw (unit :: units)], true)
    | some value => handle value

/-- `push`, `flush` and `handleLine`, which the parsers have in common. -/
def parser {κ : Type} (parse : Text → Option Json) (raw : Text → κ) (handle : Json → List κ × Bool) :
    Lib.LineHandler UInt16 κ where
  newline := 10
  blank line := (trim line).isEmpty
  handle := handleText parse raw handle
  handle_blank line h := by
    unfold handleText
    rw [List.isEmpty_iff.mp h]

/-! ## `StreamJsonParser` -/

inductive StreamJsonCall where
  | onMessage (message : Json)
  | onContentDelta (message : Json)
  | onAssistant (message : Json)
  | onResult (message : Json)
  | onRaw (line : Text)

/-- `isContentDelta`, `none` if it throws. -/
def isContentDelta (message : Json) : Option Bool :=
  if Json.nullish (some message) then none
  else if Json.isStr (message.get "type") "stream_event" then
    if Json.nullish (message.get "event") then none
    else some (Json.isStr ((message.get "event").bind (·.get "type")) "content_block_delta")
  else some false

def handleMessage (message : Json) : List StreamJsonCall × Bool :=
  match isContentDelta message with
  | none => ([.onMessage message], false)
  | some true => ([.onMessage message, .onContentDelta message], true)
  | some false =>
    if Json.isStr (message.get "type") "assistant" then
      ([.onMessage message, .onAssistant message], true)
    else if Json.isStr (message.get "type") "result" then
      ([.onMessage message, .onResult message], true)
    else ([.onMessage message], true)

def streamJsonParser (parse : Text → Option Json) : Lib.LineHandler UInt16 StreamJsonCall :=
  parser parse .onRaw handleMessage

/-! ## `CodexJsonlParser` -/

inductive CodexJsonlCall where
  | onItem (phase : ToolPhase) (item : Json)
  | onAgentMessage (text : String)
  | onRaw (line : Text)

def handleEvent (event : Json) : List CodexJsonlCall × Bool :=
  if Json.nullish (some event) then ([], false)
  else
    (((Runner.itemOf event).map fun (phase, item) => .onItem phase item).toList
      ++ ((Runner.messageText event).map .onAgentMessage).toList, true)

def codexJsonlParser (parse : Text → Option Json) : Lib.LineHandler UInt16 CodexJsonlCall :=
  parser parse .onRaw handleEvent

/-! ## Lines that throw -/

/-- No call throws, and the sink gets the calls of every line once, in order. -/
def Isolates {κ : Type} (H : Lib.LineHandler UInt16 κ) (chunks : List Text) : Prop :=
  (Lib.LineReader.run H chunks).threw = false ∧
    (Lib.LineReader.run H chunks).calls =
      Lib.LineReader.callsOf H (chunks.flatten.splitOn H.newline)

/-- The JSON values of the lines of a text. -/
def values (parse : Text → Option Json) (text : Text) : List Json :=
  (text.splitOn 10).filterMap fun line => if trim line = [] then none else parse (trim line)

/-- The parser throws for this value. -/
def streamThrows (value : Json) : Bool :=
  Json.nullish (some value) ||
    Json.isStr (value.get "type") "stream_event" && Json.nullish (value.get "event")

def codexThrows (value : Json) : Bool := Json.nullish (some value)

theorem isolates_iff {κ : Type} (parse : Text → Option Json) (raw : Text → κ)
    {handle : Json → List κ × Bool} {throws : Json → Bool}
    (h : ∀ value, (handle value).2 = !throws value) (chunks : List Text) :
    Isolates (parser parse raw handle) chunks ↔
      ∀ value ∈ values parse chunks.flatten, throws value = false := by
  have hline : ∀ line, (handleText parse raw handle line).2 = true ↔
      ∀ value, (if trim line = [] then none else parse (trim line)) = some value →
        throws value = false := by
    intro line
    unfold handleText
    split
    next htrim =>
      rw [htrim, if_pos rfl]
      exact iff_of_true rfl fun value hvalue => absurd hvalue.symm (Option.some_ne_none value)
    next unit units htrim =>
      rw [htrim, if_neg (List.cons_ne_nil unit units)]
      cases hparse : parse (unit :: units) with
      | none => exact iff_of_true rfl fun value hvalue => absurd hvalue.symm (Option.some_ne_none value)
      | some value =>
        dsimp only
        rw [h value, Bool.not_eq_true']
        constructor
        · intro hgood value' hvalue'
          rw [← Option.some.inj hvalue', hgood]
        · exact fun hall => hall value rfl
  unfold Isolates
  rw [Lib.LineReader.run_iff]
  unfold Lib.LineReader.Handles values
  constructor
  · intro hall value hvalue
    obtain ⟨line, hmem, hvalue⟩ := List.mem_filterMap.mp hvalue
    exact (hline line).mp (hall line hmem) value hvalue
  · intro hall line hmem
    refine (hline line).mpr fun value hvalue => hall value ?_
    exact List.mem_filterMap.mpr ⟨line, hmem, hvalue⟩

theorem handleMessage_throws (message : Json) :
    (handleMessage message).2 = !streamThrows message := by
  unfold handleMessage isContentDelta streamThrows
  cases Json.nullish (some message) with
  | true => rfl
  | false =>
    cases Json.isStr (message.get "type") "stream_event" with
    | true =>
      cases Json.nullish (message.get "event") with
      | true => rfl
      | false =>
        cases Json.isStr ((message.get "event").bind (·.get "type")) "content_block_delta" with
        | true => rfl
        | false =>
          simp only [Bool.false_eq_true, if_false, if_true, Bool.false_or, Bool.and_false]
          split
          next => rfl
          next => split <;> rfl
    | false =>
      simp only [Bool.false_eq_true, if_false, Bool.false_or, Bool.false_and]
      split
      next => rfl
      next => split <;> rfl

theorem handleEvent_throws (event : Json) : (handleEvent event).2 = !codexThrows event := by
  unfold handleEvent codexThrows
  cases Json.nullish (some event) <;> rfl

/-- For every text and every split of it, the parsers isolate lines iff none of them throws: for
Codex no line is `null`, and for Claude no `stream_event` is without an event either. -/
theorem parsersIsolate_iff (parse : Text → Option Json) (chunks : List Text) :
    (Isolates (streamJsonParser parse) chunks ↔
        ∀ value ∈ values parse chunks.flatten, streamThrows value = false) ∧
      (Isolates (codexJsonlParser parse) chunks ↔
        ∀ value ∈ values parse chunks.flatten, codexThrows value = false) := by
  constructor
  · exact isolates_iff parse StreamJsonCall.onRaw handleMessage_throws chunks
  · exact isolates_iff parse CodexJsonlCall.onRaw handleEvent_throws chunks

def units (text : String) : Text := text.toList.map fun c => c.toNat.toUInt16

/-- `JSON.parse` for `null` and `1`. -/
def parseSmall (line : Text) : Option Json :=
  if line = units "null" then some .null else if line = units "1" then some (.num "1") else none

/-- A line that is `null` makes `push` throw; the line after it is dropped. -/
theorem nullLine_drops :
    (Lib.LineReader.run (streamJsonParser parseSmall) [units "null\n1\n"]).calls.length = 1 ∧
      ¬Isolates (streamJsonParser parseSmall) [units "null\n1\n"] ∧
      (Lib.LineReader.run (codexJsonlParser parseSmall) [units "null\n1\n"]).calls.length = 0 ∧
      ¬Isolates (codexJsonlParser parseSmall) [units "null\n1\n"] := by
  refine ⟨by decide +kernel, fun h => ?_, by decide +kernel, fun h => ?_⟩
  · exact absurd h.1 (by decide +kernel)
  · exact absurd h.1 (by decide +kernel)

end CliProxy.Adapter.Ndjson
