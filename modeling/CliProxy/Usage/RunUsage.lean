import Mathlib.Data.List.Basic

/-! # The tokens of a run

`src/usage/run-usage.ts`, and the usage object of `src/adapter/cli-to-openai.ts`. -/

namespace CliProxy.Usage

structure ModelUsage where
  inputTokens : Option Nat
  outputTokens : Option Nat
  cacheReadInputTokens : Option Nat
  cacheCreationInputTokens : Option Nat
  deriving DecidableEq, Repr

structure RunTokens where
  inputTokens : Nat
  outputTokens : Nat
  cacheReadTokens : Nat
  cacheWriteTokens : Nat
  deriving DecidableEq, Repr

/-- The `usage` of a result. -/
structure CliUsage where
  input_tokens : Option Nat
  output_tokens : Option Nat
  cache_read_input_tokens : Option Nat
  cache_creation_input_tokens : Option Nat
  deriving DecidableEq, Repr

/-- `ClaudeCliResult`, as far as the proxy reads it. -/
structure ClaudeCliResult where
  result : String
  usage : Option CliUsage
  modelUsage : List (String × ModelUsage)
  mainChainModel : Option String
  deriving DecidableEq, Repr

/-- A model id without its context window, `id.toLowerCase().replace(/\[[^\]]*\]$/, "")`. -/
def bare (id : String) : List Char :=
  let id := id.toList.map Char.toLower
  match id.reverse with
  | ']' :: rest =>
    let window := (rest.takeWhile (· ≠ ']')).reverse
    if '[' ∈ window then (rest.dropWhile (· ≠ ']')).reverse ++ window.takeWhile (· ≠ '[') else id
  | _ => id

def sameModel (usageKey model : String) : Bool := bare usageKey == bare model

/-- The sum of what the models reported, `none` if none did. -/
def reportedSum (counts : List (Option Nat)) : Option Nat :=
  counts.foldl (fun total count =>
    match count with
    | some n => some (total.getD 0 + n)
    | none => total) none

/-- `aggregateRunTokens`. -/
def aggregateRunTokens (modelUsage : List (String × ModelUsage)) (fallback : RunTokens)
    (mainChainModel : Option String) : RunTokens :=
  if modelUsage = [] then fallback
  else
    let isMainChain (name : String) : Bool := mainChainModel.any (sameModel name)
    let withMainChain (count : ModelUsage → Option Nat) (runTotal : Nat) : Nat :=
      let reported := reportedSum (modelUsage.map fun entry => count entry.2)
      let accounted := modelUsage.any fun entry => isMainChain entry.1 && (count entry.2).isSome
      if modelUsage.any fun entry => isMainChain entry.1 then
        reported.getD 0 + (if accounted then 0 else runTotal)
      else reported.getD runTotal
    { inputTokens := modelUsage.foldl (fun n entry => n + entry.2.inputTokens.getD 0) 0
      outputTokens := modelUsage.foldl (fun n entry => n + entry.2.outputTokens.getD 0) 0
      cacheReadTokens := withMainChain (·.cacheReadInputTokens) fallback.cacheReadTokens
      cacheWriteTokens := withMainChain (·.cacheCreationInputTokens) fallback.cacheWriteTokens }

/-- `runUsage`. -/
def runUsage (result : ClaudeCliResult) : Option CliUsage :=
  if result.usage = none ∧ result.modelUsage = [] then none
  else
    let run (count : CliUsage → Option Nat) : Nat := (result.usage.bind count).getD 0
    let totals := aggregateRunTokens result.modelUsage
      ⟨run (·.input_tokens), run (·.output_tokens), run (·.cache_read_input_tokens),
        run (·.cache_creation_input_tokens)⟩ result.mainChainModel
    let reported (runCount : CliUsage → Option Nat) (count : ModelUsage → Option Nat)
        (total : Nat) : Option Nat :=
      if (result.usage.bind runCount).isSome
          || result.modelUsage.any fun entry => (count entry.2).isSome then some total else none
    some {
      input_tokens := reported (·.input_tokens) (·.inputTokens) totals.inputTokens
      output_tokens := reported (·.output_tokens) (·.outputTokens) totals.outputTokens
      cache_read_input_tokens :=
        reported (·.cache_read_input_tokens) (·.cacheReadInputTokens) totals.cacheReadTokens
      cache_creation_input_tokens := reported (·.cache_creation_input_tokens)
        (·.cacheCreationInputTokens) totals.cacheWriteTokens }

/-- `OpenAIUsage`; the details are `cached_tokens` and `cache_write_tokens`. -/
structure OpenAIUsage where
  prompt_tokens : Option Nat
  completion_tokens : Option Nat
  total_tokens : Option Nat
  prompt_tokens_details : Option (Option Nat × Option Nat)
  deriving DecidableEq, Repr

/-- `cliUsageToOpenai`. -/
def cliUsageToOpenai : Option CliUsage → OpenAIUsage
  | none => ⟨none, none, none, none⟩
  | some usage =>
    let cachedTokens := usage.cache_read_input_tokens
    let writtenTokens := usage.cache_creation_input_tokens
    let promptTokens :=
      usage.input_tokens.map fun n => n + cachedTokens.getD 0 + writtenTokens.getD 0
    { prompt_tokens := promptTokens
      completion_tokens := usage.output_tokens
      total_tokens := promptTokens.bind fun prompt => usage.output_tokens.map (prompt + ·)
      prompt_tokens_details := some (cachedTokens, writtenTokens) }

end CliProxy.Usage
