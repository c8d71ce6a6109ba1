import CliProxy.Usage.RunUsage
import Mathlib

/-! # What a run is billed

`billRun` of `src/usage/tracker.ts`, with exact rational arithmetic. -/

namespace CliProxy.Usage

inductive PricingFamily where
  | opus | sonnet | haiku
  deriving DecidableEq, Repr

/-- The rates of `PRICING` for a million tokens. -/
structure Pricing where
  input : ℚ
  output : ℚ

def PRICING : PricingFamily → Pricing
  | .opus => ⟨15, 75⟩
  | .sonnet => ⟨3, 15⟩
  | .haiku => ⟨1 / 4, 5 / 4⟩

def PER_MILLION : ℚ := 1000000

def CACHE_READ_DIVISOR : ℚ := PER_MILLION * 10

def CACHE_WRITE_RATE : ℚ := 5 / 4

/-- `toLowerCase`, as far as the letters of a family's name are concerned: the Kelvin sign is the
only other character whose lower case is one of them. -/
def lowerCase (c : Char) : Char := if c.toNat = 0x212A then 'k' else c.toLower

def pricingFamily (model : String) : PricingFamily :=
  let id := model.toList.map lowerCase
  if "opus".toList <:+: id then .opus
  else if "haiku".toList <:+: id then .haiku
  else .sonnet

/-- The tokens that one call of `cost` is given. -/
structure ChargedTokens where
  inputTokens : Int
  outputTokens : Int
  cacheReadTokens : Int
  cacheWriteTokens : Int
  deriving DecidableEq, Repr

def cost (family : PricingFamily) (tokens : ChargedTokens) : ℚ :=
  tokens.inputTokens * (PRICING family).input / PER_MILLION
    + tokens.cacheReadTokens * (PRICING family).input / CACHE_READ_DIVISOR
    + tokens.cacheWriteTokens * (PRICING family).input * CACHE_WRITE_RATE / PER_MILLION
    + tokens.outputTokens * (PRICING family).output / PER_MILLION

/-- A call of `cost`. -/
structure Charge where
  family : PricingFamily
  tokens : ChargedTokens

def Charge.cost (c : Charge) : ℚ := Usage.cost c.family c.tokens

structure BilledRun extends RunTokens where
  model : PricingFamily
  costUsd : ℚ
  /-- The calls of `cost` that `costUsd` is the sum of. -/
  charges : List Charge

/-- What a run is billed by when it reported no model. -/
structure Fallback where
  model : String
  inputTokens : Nat
  outputTokens : Nat
  cacheReadTokens : Option Nat
  cacheWriteTokens : Option Nat

/-- The variables of the loop of `billRun`. -/
structure Billing where
  model : PricingFamily
  dominantOutput : Int
  costUsd : ℚ
  pricedCacheRead : Nat
  pricedCacheWrite : Nat
  charges : List Charge

namespace Billing

def init : Billing := ⟨.sonnet, -1, 0, 0, 0, []⟩

def charge (b : Billing) (c : Charge) : Billing :=
  { b with costUsd := b.costUsd + c.cost, charges := b.charges ++ [c] }

end Billing

def outputOf (entry : String × ModelUsage) : Nat := entry.2.outputTokens.getD 0

/-- What an entry is priced at. -/
def chargeOf (entry : String × ModelUsage) : Charge where
  family := pricingFamily entry.1
  tokens := {
    inputTokens := (entry.2.inputTokens.getD 0 : Nat)
    outputTokens := outputOf entry
    cacheReadTokens := (entry.2.cacheReadInputTokens.getD 0 : Nat)
    cacheWriteTokens := (entry.2.cacheCreationInputTokens.getD 0 : Nat) }

/-- The body of the loop. -/
def Billing.entry (b : Billing) (entry : String × ModelUsage) : Billing :=
  let b := { b with
    pricedCacheRead := b.pricedCacheRead + entry.2.cacheReadInputTokens.getD 0
    pricedCacheWrite := b.pricedCacheWrite + entry.2.cacheCreationInputTokens.getD 0 }
  let b := b.charge (chargeOf entry)
  if b.dominantOutput < (outputOf entry : Int) then
    { b with dominantOutput := outputOf entry, model := pricingFamily entry.1 }
  else b

/-- The main chain, if the run named one. -/
def namedMainChain (mainChainModel : Option String) : Option String := mainChainModel.filter (· ≠ "")

def billRun (modelUsage : List (String × ModelUsage)) (mainChainModel : Option String)
    (fallback : Fallback) : BilledRun :=
  let tokens := aggregateRunTokens modelUsage
    ⟨fallback.inputTokens, fallback.outputTokens, fallback.cacheReadTokens.getD 0,
      fallback.cacheWriteTokens.getD 0⟩ mainChainModel
  if modelUsage = [] then
    let family := pricingFamily fallback.model
    let charge : Charge := ⟨family, ⟨tokens.inputTokens, tokens.outputTokens,
      tokens.cacheReadTokens, tokens.cacheWriteTokens⟩⟩
    { tokens with model := family, costUsd := charge.cost, charges := [charge] }
  else
    let b := modelUsage.foldl Billing.entry .init
    let b := b.charge {
      family := match namedMainChain mainChainModel with
        | some model => pricingFamily model
        | none => b.model
      tokens := ⟨0, 0, tokens.cacheReadTokens - b.pricedCacheRead,
        tokens.cacheWriteTokens - b.pricedCacheWrite⟩ }
    { tokens with model := b.model, costUsd := b.costUsd, charges := b.charges }

/-- The bill of the record for a completed request. -/
def billResult (requestedModel : String) (result : ClaudeCliResult) : BilledRun :=
  billRun result.modelUsage result.mainChainModel {
    model := requestedModel
    inputTokens := (result.usage.bind (·.input_tokens)).getD 0
    outputTokens := (result.usage.bind (·.output_tokens)).getD 0
    cacheReadTokens := some ((result.usage.bind (·.cache_read_input_tokens)).getD 0)
    cacheWriteTokens := some ((result.usage.bind (·.cache_creation_input_tokens)).getD 0) }

/-! ## Sums -/

/-- The sum of the counts that are reported. -/
def total (count : ModelUsage → Option Nat) (modelUsage : List (String × ModelUsage)) : Nat :=
  (modelUsage.map fun entry => (count entry.2).getD 0).sum

theorem foldl_total (count : ModelUsage → Option Nat) (modelUsage : List (String × ModelUsage)) :
    modelUsage.foldl (fun n entry => n + (count entry.2).getD 0) 0 = total count modelUsage := by
  have h : ∀ n, modelUsage.foldl (fun n entry => n + (count entry.2).getD 0) n =
      n + total count modelUsage := by
    induction modelUsage with
    | nil => exact fun n => rfl
    | cons entry modelUsage ih =>
      intro n
      rw [List.foldl_cons, ih]
      simp only [total, List.map_cons, List.sum_cons]
      omega
  rw [h 0, Nat.zero_add]

theorem reportedSum_total (count : ModelUsage → Option Nat)
    (modelUsage : List (String × ModelUsage)) :
    (reportedSum (modelUsage.map fun entry => count entry.2)).getD 0 = total count modelUsage := by
  have h : ∀ add : Option Nat → Option Nat → Option Nat,
      (∀ total n, add total (some n) = some (total.getD 0 + n)) → (∀ total, add total none = total) →
      ∀ acc, ((modelUsage.map fun entry => count entry.2).foldl add acc).getD 0 =
        acc.getD 0 + total count modelUsage := by
    intro add hsome hnone
    induction modelUsage with
    | nil => exact fun acc => rfl
    | cons entry modelUsage ih =>
      intro acc
      rw [List.map_cons, List.foldl_cons, ih]
      simp only [total, List.map_cons, List.sum_cons]
      cases count entry.2 with
      | none => rw [hnone, Option.getD_none, Nat.zero_add]
      | some n =>
        rw [hsome, Option.getD_some, Option.getD_some]
        omega
  exact (h _ (fun _ _ => rfl) (fun _ => rfl) none).trans (Nat.zero_add _)

/-- Nothing was reported. -/
theorem reportedSum_none (count : ModelUsage → Option Nat) {modelUsage : List (String × ModelUsage)}
    (h : modelUsage.any (fun entry => (count entry.2).isSome) = false) :
    reportedSum (modelUsage.map fun entry => count entry.2) = none := by
  induction modelUsage with
  | nil => rfl
  | cons entry modelUsage ih =>
    rw [List.any_cons, Bool.or_eq_false_iff] at h
    have hnone : count entry.2 = none := Option.not_isSome_iff_eq_none.mp (by simp [h.1])
    have hrest := ih h.2
    unfold reportedSum at hrest ⊢
    rw [List.map_cons, List.foldl_cons, hnone]
    exact hrest

/-! ## The loop -/

namespace Billing

/-- The costs of the calls add up to the cost of the run. -/
def Priced (b : Billing) : Prop := b.costUsd = (b.charges.map Charge.cost).sum

theorem Priced.charge {b : Billing} (H : b.Priced) (c : Charge) : (b.charge c).Priced := by
  unfold Priced Billing.charge at *
  rw [List.map_append, List.sum_append, ← H]
  simp

theorem Priced.entry {b : Billing} (H : b.Priced) (entry : String × ModelUsage) :
    (b.entry entry).Priced := by
  have hcharged := Priced.charge (b := { b with
    pricedCacheRead := b.pricedCacheRead + entry.2.cacheReadInputTokens.getD 0
    pricedCacheWrite := b.pricedCacheWrite + entry.2.cacheCreationInputTokens.getD 0 }) H
    (chargeOf entry)
  unfold Billing.entry
  dsimp only
  split
  next => exact hcharged
  next => exact hcharged

theorem entry_charges (b : Billing) (entry : String × ModelUsage) :
    (b.entry entry).charges = b.charges ++ [chargeOf entry] ∧
      (b.entry entry).pricedCacheRead =
        b.pricedCacheRead + entry.2.cacheReadInputTokens.getD 0 ∧
      (b.entry entry).pricedCacheWrite =
        b.pricedCacheWrite + entry.2.cacheCreationInputTokens.getD 0 := by
  unfold Billing.entry
  dsimp only
  split
  next => exact ⟨rfl, rfl, rfl⟩
  next => exact ⟨rfl, rfl, rfl⟩

/-- What the loop has done after all entries. -/
theorem foldl_entry (modelUsage : List (String × ModelUsage)) {b : Billing} (H : b.Priced) :
    (modelUsage.foldl entry b).Priced ∧
      (modelUsage.foldl entry b).charges = b.charges ++ modelUsage.map chargeOf ∧
      (modelUsage.foldl entry b).pricedCacheRead =
        b.pricedCacheRead + total (·.cacheReadInputTokens) modelUsage ∧
      (modelUsage.foldl entry b).pricedCacheWrite =
        b.pricedCacheWrite + total (·.cacheCreationInputTokens) modelUsage := by
  induction modelUsage generalizing b with
  | nil => exact ⟨H, (List.append_nil _).symm, rfl, rfl⟩
  | cons entry modelUsage ih =>
    obtain ⟨hcharges, hread, hwrite⟩ := b.entry_charges entry
    obtain ⟨ihpriced, ihcharges, ihread, ihwrite⟩ := ih (H.entry entry)
    rw [List.foldl_cons]
    refine ⟨ihpriced, ?_, ?_, ?_⟩
    · rw [ihcharges, hcharges, List.append_assoc]
      rfl
    · rw [ihread, hread]
      simp only [total, List.map_cons, List.sum_cons]
      omega
    · rw [ihwrite, hwrite]
      simp only [total, List.map_cons, List.sum_cons]
      omega

end Billing

/-! ## Every token is priced once -/

/-- The cost is the sum of the charges, which add up to the tokens of the run. -/
structure BilledRun.Conserved (run : BilledRun) : Prop where
  cost : run.costUsd = (run.charges.map Charge.cost).sum
  inputTokens : (run.charges.map (·.tokens.inputTokens)).sum = run.inputTokens
  outputTokens : (run.charges.map (·.tokens.outputTokens)).sum = run.outputTokens
  cacheReadTokens : (run.charges.map (·.tokens.cacheReadTokens)).sum = run.cacheReadTokens
  cacheWriteTokens : (run.charges.map (·.tokens.cacheWriteTokens)).sum = run.cacheWriteTokens
  nonneg : ∀ c ∈ run.charges, 0 ≤ c.tokens.inputTokens ∧ 0 ≤ c.tokens.outputTokens ∧
    0 ≤ c.tokens.cacheReadTokens ∧ 0 ≤ c.tokens.cacheWriteTokens

theorem sum_charges (f : Charge → Int) (count : ModelUsage → Option Nat)
    (h : ∀ entry, f (chargeOf entry) = ((count entry.2).getD 0 : Nat))
    (modelUsage : List (String × ModelUsage)) :
    ((modelUsage.map chargeOf).map f).sum = total count modelUsage := by
  induction modelUsage with
  | nil => rfl
  | cons entry modelUsage ih =>
    simp only [total, List.map_cons, List.sum_cons] at ih ⊢
    rw [h, ih]
    push_cast
    rfl

/-- The aggregate counts no less than what the models reported. -/
theorem aggregate_spec {modelUsage : List (String × ModelUsage)} (hne : modelUsage ≠ [])
    (fallback : RunTokens) (mainChainModel : Option String) :
    let tokens := aggregateRunTokens modelUsage fallback mainChainModel
    tokens.inputTokens = total (·.inputTokens) modelUsage ∧
      tokens.outputTokens = total (·.outputTokens) modelUsage ∧
      total (·.cacheReadInputTokens) modelUsage ≤ tokens.cacheReadTokens ∧
      total (·.cacheCreationInputTokens) modelUsage ≤ tokens.cacheWriteTokens := by
  have hreported : ∀ (count : ModelUsage → Option Nat) (main : Bool) (n runTotal : Nat),
      total count modelUsage ≤
        if main then (reportedSum (modelUsage.map fun entry => count entry.2)).getD 0 + n
        else (reportedSum (modelUsage.map fun entry => count entry.2)).getD runTotal := by
    intro count main n runTotal
    rw [← reportedSum_total count]
    cases reportedSum (modelUsage.map fun entry => count entry.2) with
    | none => exact Nat.zero_le _
    | some m =>
      cases main with
      | false => exact Nat.le_refl m
      | true => exact Nat.le_add_right m n
  unfold aggregateRunTokens
  rw [if_neg hne]
  exact ⟨foldl_total _ _, foldl_total _ _, hreported .., hreported ..⟩

theorem billRun_conserved (modelUsage : List (String × ModelUsage)) (mainChainModel : Option String)
    (fallback : Fallback) : (billRun modelUsage mainChainModel fallback).Conserved := by
  unfold billRun
  dsimp only
  split
  next =>
    refine ⟨by simp, by simp, by simp, by simp, by simp, fun c hc => ?_⟩
    rw [List.mem_singleton.mp hc]
    exact ⟨Int.natCast_nonneg _, Int.natCast_nonneg _, Int.natCast_nonneg _, Int.natCast_nonneg _⟩
  next hne =>
    obtain ⟨hinput, houtput, hread, hwrite⟩ := aggregate_spec hne
      ⟨fallback.inputTokens, fallback.outputTokens, fallback.cacheReadTokens.getD 0,
        fallback.cacheWriteTokens.getD 0⟩ mainChainModel
    generalize aggregateRunTokens modelUsage _ mainChainModel = tokens at *
    obtain ⟨hpriced, hcharges, hpricedRead, hpricedWrite⟩ :=
      Billing.foldl_entry modelUsage (b := .init) rfl
    generalize modelUsage.foldl Billing.entry .init = b at *
    replace hcharges : b.charges = modelUsage.map chargeOf := hcharges
    replace hpricedRead : b.pricedCacheRead = _ := hpricedRead.trans (Nat.zero_add _)
    replace hpricedWrite : b.pricedCacheWrite = _ := hpricedWrite.trans (Nat.zero_add _)
    refine ⟨hpriced.charge _, ?_, ?_, ?_, ?_, fun c hc => ?_⟩
    · simp only [Billing.charge]
      rw [hcharges, List.map_append, List.sum_append,
        sum_charges (·.tokens.inputTokens) (·.inputTokens) (fun _ => rfl), hinput]
      simp
    · simp only [Billing.charge]
      rw [hcharges, List.map_append, List.sum_append,
        sum_charges (·.tokens.outputTokens) (·.outputTokens) (fun _ => rfl), houtput]
      simp
    · simp only [Billing.charge]
      rw [hcharges, List.map_append, List.sum_append,
        sum_charges (·.tokens.cacheReadTokens) (·.cacheReadInputTokens) (fun _ => rfl),
        hpricedRead]
      simp
    · simp only [Billing.charge]
      rw [hcharges, List.map_append, List.sum_append,
        sum_charges (·.tokens.cacheWriteTokens) (·.cacheCreationInputTokens) (fun _ => rfl), hpricedWrite]
      simp
    · simp only [Billing.charge] at hc
      rw [hcharges, List.mem_append, List.mem_singleton] at hc
      rcases hc with hc | rfl
      · obtain ⟨entry, -, rfl⟩ := List.mem_map.mp hc
        exact ⟨Int.natCast_nonneg _, Int.natCast_nonneg _, Int.natCast_nonneg _,
          Int.natCast_nonneg _⟩
      · dsimp only at hread hwrite ⊢
        omega

/-! ## The usage that the client sees -/

/-- The fields of a usage object that are present have the recorded tokens. -/
structure OpenAIUsage.Reports (usage : OpenAIUsage) (run : BilledRun) : Prop where
  prompt : ∀ n, usage.prompt_tokens = some n →
    n = run.inputTokens + run.cacheReadTokens + run.cacheWriteTokens
  completion : ∀ n, usage.completion_tokens = some n → n = run.outputTokens
  cached : ∀ cached written, usage.prompt_tokens_details = some (cached, written) →
    (∀ n, cached = some n → n = run.cacheReadTokens) ∧
      ∀ n, written = some n → n = run.cacheWriteTokens

theorem billRun_tokens (modelUsage : List (String × ModelUsage)) (mainChainModel : Option String)
    (fallback : Fallback) : (billRun modelUsage mainChainModel fallback).toRunTokens =
      aggregateRunTokens modelUsage ⟨fallback.inputTokens, fallback.outputTokens,
        fallback.cacheReadTokens.getD 0, fallback.cacheWriteTokens.getD 0⟩ mainChainModel := by
  unfold billRun
  dsimp only
  split <;> rfl

/-- Tokens that neither the run nor a model reported are not counted. -/
theorem aggregate_unreported (modelUsage : List (String × ModelUsage)) (tokens : RunTokens)
    (mainChainModel : Option String) :
    let totals := aggregateRunTokens modelUsage tokens mainChainModel
    (tokens.cacheReadTokens = 0 →
        modelUsage.any (fun entry => entry.2.cacheReadInputTokens.isSome) = false →
        totals.cacheReadTokens = 0) ∧
      (tokens.cacheWriteTokens = 0 →
        modelUsage.any (fun entry => entry.2.cacheCreationInputTokens.isSome) = false →
        totals.cacheWriteTokens = 0) := by
  unfold aggregateRunTokens
  dsimp only
  by_cases hne : modelUsage = []
  · rw [if_pos hne]
    exact ⟨fun h _ => h, fun h _ => h⟩
  · rw [if_neg hne]
    dsimp only
    constructor
    · intro hzero hnone
      rw [reportedSum_none (·.cacheReadInputTokens) hnone, hzero]
      simp
    · intro hzero hnone
      rw [reportedSum_none (·.cacheCreationInputTokens) hnone, hzero]
      simp

theorem usage_reports (requestedModel : String) (result : ClaudeCliResult) :
    (cliUsageToOpenai (runUsage result)).Reports (billResult requestedModel result) := by
  have htokens := billRun_tokens result.modelUsage result.mainChainModel {
    model := requestedModel
    inputTokens := (result.usage.bind (·.input_tokens)).getD 0
    outputTokens := (result.usage.bind (·.output_tokens)).getD 0
    cacheReadTokens := some ((result.usage.bind (·.cache_read_input_tokens)).getD 0)
    cacheWriteTokens := some ((result.usage.bind (·.cache_creation_input_tokens)).getD 0) }
  replace htokens : (billResult requestedModel result).toRunTokens = _ := htokens
  dsimp only [Option.getD_some] at htokens
  unfold runUsage
  split
  next =>
    exact ⟨fun n h => absurd h.symm (Option.some_ne_none n),
      fun n h => absurd h.symm (Option.some_ne_none n),
      fun _ _ h => absurd h.symm (Option.some_ne_none _)⟩
  next =>
    dsimp only
    obtain ⟨hread, hwrite⟩ := aggregate_unreported result.modelUsage
      ⟨(result.usage.bind (·.input_tokens)).getD 0, (result.usage.bind (·.output_tokens)).getD 0,
        (result.usage.bind (·.cache_read_input_tokens)).getD 0,
        (result.usage.bind (·.cache_creation_input_tokens)).getD 0⟩ result.mainChainModel
    rw [← htokens] at hread hwrite ⊢
    generalize billResult requestedModel result = run at hread hwrite ⊢
    dsimp only at hread hwrite
    -- what is not reported is zero
    have hzero : ∀ (runCount : Option Nat) (models : Bool) (n : Nat),
        (runCount.getD 0 = 0 → models = false → n = 0) →
        (if runCount.isSome || models then some n else none).getD 0 = n := by
      intro runCount models n h
      cases runCount with
      | some => rfl
      | none =>
        cases models with
        | true => rfl
        | false => exact (h rfl rfl).symm
    have hsome : ∀ (p : Bool) (n m : Nat), (if p then some n else none) = some m → m = n := by
      intro p n m h
      cases p with
      | true => exact (Option.some.inj h).symm
      | false => exact absurd h.symm (Option.some_ne_none m)
    refine ⟨fun n h => ?_, fun n h => hsome _ _ n h, fun cached written h => ?_⟩
    · obtain ⟨input, hinput, rfl⟩ := Option.map_eq_some_iff.mp h
      rw [hsome _ _ input hinput]
      dsimp only
      rw [hzero _ _ _ hread, hzero _ _ _ hwrite]
    · obtain ⟨rfl, rfl⟩ := Prod.mk.inj (Option.some.inj h)
      exact ⟨fun n h => hsome _ _ n h, fun n h => hsome _ _ n h⟩

/-- The output tokens of a family, over all its entries. -/
def familyOutput (modelUsage : List (String × ModelUsage)) (family : PricingFamily) : Nat :=
  ((modelUsage.filter fun entry => pricingFamily entry.1 = family).map outputOf).sum

/-- The family produced the most output, and has the cache remainder of a run that did not name its
main chain. -/
def BilledRun.LabelledByOutput (run : BilledRun) (modelUsage : List (String × ModelUsage))
    (mainChainModel : Option String) : Prop :=
  (∀ family, familyOutput modelUsage family ≤ familyOutput modelUsage run.model) ∧
    (namedMainChain mainChainModel = none → run.charges.getLast?.map (·.family) = some run.model)

/-- The family of the first entry with the most output tokens produced the most output. -/
def LargestEntryLeads (modelUsage : List (String × ModelUsage)) : Prop :=
  ∀ entry, modelUsage.argmax outputOf = some entry →
    ∀ family, familyOutput modelUsage family ≤ familyOutput modelUsage (pricingFamily entry.1)

/-- The loop has the first of the largest entries that it has seen. -/
def Billing.Follows (b : Billing) : Option (String × ModelUsage) → Prop
  | none => b.dominantOutput = -1
  | some entry => b.dominantOutput = outputOf entry ∧ b.model = pricingFamily entry.1

theorem Billing.foldl_follows (modelUsage : List (String × ModelUsage)) :
    (modelUsage.foldl Billing.entry .init).Follows (modelUsage.argmax outputOf) := by
  induction modelUsage using List.reverseRecOn with
  | nil => exact rfl
  | append_singleton modelUsage entry ih =>
    rw [List.foldl_append, List.foldl_cons, List.foldl_nil, List.argmax_concat]
    generalize modelUsage.foldl Billing.entry .init = b at ih ⊢
    cases hlargest : modelUsage.argmax outputOf with
    | none =>
      rw [hlargest] at ih
      have hdominant : b.dominantOutput = -1 := ih
      have hless : b.dominantOutput < (outputOf entry : Int) := by omega
      unfold Billing.entry
      dsimp only [Billing.charge]
      rw [if_pos hless]
      exact ⟨rfl, rfl⟩
    | some largest =>
      rw [hlargest] at ih
      obtain ⟨hdominant, hmodel⟩ := ih
      unfold Billing.entry
      dsimp only [Billing.charge]
      by_cases hless : outputOf largest < outputOf entry
      · rw [if_pos hless, if_pos (by omega)]
        exact ⟨rfl, rfl⟩
      · rw [if_neg hless, if_neg (by omega)]
        exact ⟨hdominant, hmodel⟩

theorem billRun_model {modelUsage : List (String × ModelUsage)} (hne : modelUsage ≠ [])
    (mainChainModel : Option String) (fallback : Fallback) :
    ∃ entry, modelUsage.argmax outputOf = some entry ∧
      (billRun modelUsage mainChainModel fallback).model = pricingFamily entry.1 := by
  have hfollows := Billing.foldl_follows modelUsage
  cases hlargest : modelUsage.argmax outputOf with
  | none => exact absurd (List.argmax_eq_none.mp hlargest) hne
  | some entry =>
    rw [hlargest] at hfollows
    refine ⟨entry, rfl, ?_⟩
    unfold billRun
    dsimp only
    rw [if_neg hne]
    exact hfollows.2

theorem billRun_remainder {modelUsage : List (String × ModelUsage)} (hne : modelUsage ≠ [])
    {mainChainModel : Option String} (hunnamed : namedMainChain mainChainModel = none)
    (fallback : Fallback) : (billRun modelUsage mainChainModel fallback).charges.getLast?.map
      (·.family) = some (billRun modelUsage mainChainModel fallback).model := by
  unfold billRun
  dsimp only
  rw [if_neg hne, hunnamed]
  simp [Billing.charge]

def plainUsage (outputTokens : Nat) : ModelUsage := ⟨some 1, some outputTokens, none, none⟩

end CliProxy.Usage
