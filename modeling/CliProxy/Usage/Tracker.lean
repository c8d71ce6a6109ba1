import CliProxy.Usage.Billing
import CliProxy.Lib.Machine

/-! # The usage tracker

`UsageTracker` of `src/usage/tracker.ts` with its directories. One event is one call or one
callback; a file operation takes effect when its promise settles. -/

namespace CliProxy.Usage

def PricingFamily.name : PricingFamily → String
  | .opus => "opus"
  | .sonnet => "sonnet"
  | .haiku => "haiku"

structure RequestRecord where
  timestamp : Nat
  model : String
  inputTokens : Nat
  outputTokens : Nat
  cacheReadTokens : Nat
  cacheWriteTokens : Nat
  durationMs : Nat
  estimatedApiCostUsd : ℚ
  stream : Bool
  success : Bool
  deriving DecidableEq

/-- What `record` is called with. -/
structure RecordEntry where
  model : String
  modelUsage : List (String × ModelUsage)
  mainChainModel : Option String
  inputTokens : Nat
  outputTokens : Nat
  cacheReadTokens : Option Nat
  cacheWriteTokens : Option Nat
  durationMs : Nat
  stream : Bool
  success : Bool

/-- The record that an entry makes. -/
def RecordEntry.record (entry : RecordEntry) (now : Nat) : RequestRecord :=
  let billed := billRun entry.modelUsage entry.mainChainModel
    ⟨entry.model, entry.inputTokens, entry.outputTokens, entry.cacheReadTokens, entry.cacheWriteTokens⟩
  { timestamp := now
    model := billed.model.name
    inputTokens := billed.inputTokens
    outputTokens := billed.outputTokens
    cacheReadTokens := billed.cacheReadTokens
    cacheWriteTokens := billed.cacheWriteTokens
    durationMs := entry.durationMs
    estimatedApiCostUsd := billed.costUsd
    stream := entry.stream
    success := entry.success }

/-! ## Files -/

/-- `usage.json`. -/
inductive UsageFile where
  /-- The text is not the JSON of an object. -/
  | unreadable
  | saved (startedAt : Option Nat) (records : Option (List RequestRecord))

/-- `DATA_DIR_NAME` and `LEGACY_DATA_DIR_NAME`. -/
inductive DataDir where
  | data | legacy
  deriving DecidableEq

/-- The directories that exist, with the file in each. -/
structure Disk where
  data : Option (Option UsageFile)
  legacy : Option (Option UsageFile)

namespace Disk

variable (disk : Disk)

def get : DataDir → Option (Option UsageFile)
  | .data => disk.data
  | .legacy => disk.legacy

def set (dir : DataDir) (contents : Option UsageFile) : Disk :=
  match dir with
  | .data => { disk with data := some contents }
  | .legacy => { disk with legacy := some contents }

/-- `fs.mkdir` with `recursive`. -/
def mkdir (dir : DataDir) : Disk :=
  match disk.get dir with
  | some _ => disk
  | none => disk.set dir none

/-- `fs.rename` of the legacy directory, `none` if it throws: a directory can only take the place
of an empty one. -/
def adopt : Option Disk :=
  match disk.legacy, disk.data with
  | some contents, none | some contents, some none => some ⟨some contents, none⟩
  | _, _ => none

end Disk

/-! ## The tracker -/

structure UsageTracker where
  records : List RequestRecord
  totalRequests : Nat
  failedRequests : Nat
  lastRequestAt : Option Nat
  dataDir : DataDir
  loaded : Bool
  /-- The timer of a save is running. -/
  saveDebounce : Bool
  startedAt : Nat

structure UsageTotals where
  totalRequests : Nat
  failedRequests : Nat
  lastRequestAt : Option Nat
  deriving DecidableEq

structure ModelSummary where
  requests : Nat
  inputTokens : Nat
  outputTokens : Nat
  estimatedCostUsd : ℚ

structure UsageSummary where
  totalRequests : Nat
  successfulRequests : Nat
  failedRequests : Nat
  totalInputTokens : Nat
  totalOutputTokens : Nat
  totalCacheReadTokens : Nat
  totalCacheWriteTokens : Nat
  estimatedApiCostSavedUsd : ℚ
  avgResponseMs : Nat
  byModel : List (String × ModelSummary)
  since : Nat
  lastRequest : Option Nat

/-- `Math.round(usd * 10000) / 10000`. -/
def roundUsd (usd : ℚ) : ℚ := ⌊usd * 10000 + 1 / 2⌋ / 10000

/-- One record more in `byModel`. -/
def addByModel (byModel : List (String × ModelSummary)) (r : RequestRecord) :
    List (String × ModelSummary) :=
  let byModel := if byModel.any (·.1 = r.model) then byModel else byModel ++ [(r.model, ⟨0, 0, 0, 0⟩)]
  byModel.map fun (model, s) =>
    if model = r.model then
      (model, ⟨s.requests + 1, s.inputTokens + r.inputTokens, s.outputTokens + r.outputTokens,
        s.estimatedCostUsd + r.estimatedApiCostUsd⟩)
    else (model, s)

namespace UsageTracker

variable (t : UsageTracker)

def recountTotals : UsageTracker := { t with
  totalRequests := t.records.length
  failedRequests := (t.records.filter (!·.success)).length
  lastRequestAt := t.records.getLast?.map (·.timestamp) }

/-- `record`, with the record of the entry. -/
def record (r : RequestRecord) : UsageTracker := { t with
  records := t.records ++ [r]
  totalRequests := t.totalRequests + 1
  failedRequests := if r.success then t.failedRequests else t.failedRequests + 1
  lastRequestAt := some r.timestamp
  saveDebounce := true }

/-- `clear` before its save. -/
def clear (now : Nat) : UsageTracker := { { t with records := [] }.recountTotals with startedAt := now }

def getTotals : UsageTotals := ⟨t.totalRequests, t.failedRequests, t.lastRequestAt⟩

def getSummary (since : Option Nat) : UsageSummary :=
  let filtered := t.records.filter fun r => since.getD 0 ≤ r.timestamp
  let sum (count : RequestRecord → Nat) : Nat := (filtered.map count).sum
  { totalRequests := filtered.length
    successfulRequests := (filtered.filter (·.success)).length
    failedRequests := (filtered.filter (!·.success)).length
    totalInputTokens := sum (·.inputTokens)
    totalOutputTokens := sum (·.outputTokens)
    totalCacheReadTokens := sum (·.cacheReadTokens)
    totalCacheWriteTokens := sum (·.cacheWriteTokens)
    estimatedApiCostSavedUsd := roundUsd (filtered.map (·.estimatedApiCostUsd)).sum
    avgResponseMs := (2 * sum (·.durationMs) + filtered.length) / (2 * filtered.length)
    byModel := (filtered.foldl addByModel []).map fun (model, s) =>
      (model, { s with estimatedCostUsd := roundUsd s.estimatedCostUsd })
    since := t.startedAt
    lastRequest := filtered.getLast?.map (·.timestamp) }

end UsageTracker

/-! ## Loads and saves -/

/-- What `load` waits for. -/
inductive LoadPhase where
  | accessData | accessLegacy | rename | accessAgain
  /-- The promise of `migrateLegacyDataDir`. -/
  | migrated
  | mkdir | readFile
  | done
  deriving DecidableEq

/-- What a save waits for. -/
inductive SavePhase where
  | mkdir
  | writeFile (file : UsageFile)

/-- The tracker while `load` is running or done, with the saves that are under way. -/
structure Tracking where
  tracker : UsageTracker
  disk : Disk
  load : LoadPhase
  saves : List SavePhase
  /-- The persisted records and those that were made, less what `clear` has removed. -/
  kept : List RequestRecord

namespace Tracking

variable (s : Tracking)

/-- The end of `load`. -/
def finish (file : UsageFile) (now : Nat) : Tracking :=
  match file with
  | .saved startedAt records => { s with
      tracker := { { s.tracker with
        records := records.getD []
        startedAt := (startedAt.filter (· ≠ 0)).getD now }.recountTotals with loaded := true }
      load := .done }
  | .unreadable => { s with
      tracker := { { s.tracker with records := [] }.recountTotals with loaded := true }
      load := .done }

/-- The operation that `load` waits for succeeds if it can and `ok` says so. -/
def loadOn (ok : Bool) (now : Nat) : Tracking :=
  match s.load with
  | .accessData =>
    if ok && s.disk.data.isSome then { s with load := .migrated } else { s with load := .accessLegacy }
  | .accessLegacy =>
    if ok && s.disk.legacy.isSome then { s with load := .rename } else { s with load := .migrated }
  | .rename =>
    match (if ok then s.disk.adopt else none) with
    | some disk => { s with disk, load := .migrated }
    | none => { s with load := .accessAgain }
  | .accessAgain =>
    if ok && s.disk.data.isSome then { s with load := .migrated }
    else { s with tracker.dataDir := .legacy, load := .migrated }
  | .migrated => { s with load := .mkdir }
  | .mkdir =>
    if ok then { s with disk := s.disk.mkdir s.tracker.dataDir, load := .readFile }
    else s.finish .unreadable now
  | .readFile =>
    match s.disk.get s.tracker.dataDir, ok with
    | some (some file), true => s.finish file now
    | _, _ => s.finish .unreadable now
  | .done => s

/-- A save goes on; one that fails is over. -/
def saveOn (i : Nat) (ok : Bool) : Tracking :=
  match s.saves[i]?, ok with
  | none, _ => s
  | some .mkdir, true => { s with
      disk := s.disk.mkdir s.tracker.dataDir
      saves := s.saves.set i (.writeFile (.saved (some s.tracker.startedAt) (some s.tracker.records))) }
  | some (.writeFile file), true => { s with
      disk := s.disk.set s.tracker.dataDir (some file)
      saves := s.saves.eraseIdx i }
  | some _, false => { s with saves := s.saves.eraseIdx i }

end Tracking

inductive TrackingEvent where
  | load (ok : Bool) (now : Nat)
  | record (entry : RecordEntry) (now : Nat)
  | clear (now : Nat)
  | timer
  | save (i : Nat) (ok : Bool)

namespace Tracking

def step (s : Tracking) : TrackingEvent → Tracking
  | .load ok now => s.loadOn ok now
  | .record entry now => { s with
      tracker := s.tracker.record (entry.record now)
      kept := s.kept ++ [entry.record now] }
  | .clear now => { s with
      tracker := s.tracker.clear now
      saves := s.saves ++ [.mkdir]
      kept := [] }
  | .timer =>
    if s.tracker.saveDebounce then { s with
      tracker.saveDebounce := false
      saves := s.saves ++ [.mkdir] }
    else s
  | .save i ok => s.saveOn i ok

end Tracking

/-- The records in a directory. -/
def Disk.records (disk : Disk) (dir : DataDir) : List RequestRecord :=
  match disk.get dir with
  | some (some (.saved _ records)) => records.getD []
  | _ => []

/-- The records that are persisted before the start; a tracker that migrates adopts the legacy
directory if there is no other. -/
def Disk.persisted (disk : Disk) (migrates : Bool) : List RequestRecord :=
  if migrates && disk.data.isNone then disk.records .legacy else disk.records .data

/-- The tracker after the constructor and the call of `load`. -/
def Tracking.init (migrates : Bool) (disk : Disk) (now : Nat) : Tracking where
  tracker := ⟨[], 0, 0, none, .data, false, false, now⟩
  disk
  load := if migrates then .accessData else .migrated
  saves := []
  kept := disk.persisted migrates

def tracking (migrates : Bool) (disk : Disk) (now : Nat) : Lib.Machine Tracking TrackingEvent where
  init := .init migrates disk now
  step := .step

/-! ## The counters -/

/-- The counters are those of the records. -/
structure UsageTracker.Counted (t : UsageTracker) : Prop where
  total : t.totalRequests = t.records.length
  failed : t.failedRequests = (t.records.filter (!·.success)).length
  last : t.lastRequestAt = t.records.getLast?.map (·.timestamp)

namespace UsageTracker

theorem counted_recountTotals (t : UsageTracker) : t.recountTotals.Counted := ⟨rfl, rfl, rfl⟩

theorem Counted.record {t : UsageTracker} (H : t.Counted) (r : RequestRecord) :
    (t.record r).Counted where
  total := by
    show t.totalRequests + 1 = (t.records ++ [r]).length
    rw [H.total, List.length_append]
    rfl
  failed := by
    show (if r.success then t.failedRequests else t.failedRequests + 1) =
      ((t.records ++ [r]).filter (!·.success)).length
    rw [List.filter_append, List.length_append, H.failed]
    cases hsuccess : r.success with
    | true => simp [hsuccess]
    | false => simp [hsuccess]
  last := by
    show some r.timestamp = (t.records ++ [r]).getLast?.map (·.timestamp)
    rw [List.getLast?_concat]
    rfl

theorem counted_clear (t : UsageTracker) (now : Nat) : (t.clear now).Counted := ⟨rfl, rfl, rfl⟩

/-- What the tracker reports of its counters is the recount of its records, and what a summary
says. -/
def Agrees (t : UsageTracker) : Prop :=
  t.getTotals = t.recountTotals.getTotals ∧
    t.getTotals = ⟨(t.getSummary none).totalRequests, (t.getSummary none).failedRequests,
      (t.getSummary none).lastRequest⟩

theorem Counted.agrees {t : UsageTracker} (H : t.Counted) : t.Agrees := by
  have hrecount : t.getTotals = t.recountTotals.getTotals := by
    unfold getTotals
    rw [H.total, H.failed, H.last]
    rfl
  have hall : t.records.filter (fun r => decide ((none : Option Nat).getD 0 ≤ r.timestamp)) =
      t.records := List.filter_eq_self.mpr fun r _ => decide_eq_true (Nat.zero_le r.timestamp)
  refine ⟨hrecount, ?_⟩
  rw [hrecount]
  unfold getSummary
  dsimp only
  rw [hall]
  rfl

end UsageTracker

namespace Tracking

variable {s : Tracking}

theorem counted_finish (file : UsageFile) (now : Nat) : (s.finish file now).tracker.Counted := by
  cases file with
  | unreadable => exact ⟨rfl, rfl, rfl⟩
  | saved startedAt records => exact ⟨rfl, rfl, rfl⟩

theorem counted_loadOn (H : s.tracker.Counted) (ok : Bool) (now : Nat) :
    (s.loadOn ok now).tracker.Counted := by
  unfold loadOn
  split
  next => split <;> exact H
  next => split <;> exact H
  next => split <;> exact H
  next =>
    split
    next => exact H
    next => exact ⟨H.total, H.failed, H.last⟩
  next => exact H
  next =>
    split
    next => exact H
    next => exact counted_finish .unreadable now
  next => split <;> exact counted_finish ..
  next => exact H

theorem saveOn_tracker (i : Nat) (ok : Bool) : (s.saveOn i ok).tracker = s.tracker := by
  unfold saveOn
  split <;> rfl

theorem counted_step (H : s.tracker.Counted) (event : TrackingEvent) :
    (s.step event).tracker.Counted := by
  cases event with
  | load ok now => exact counted_loadOn H ok now
  | record entry now => exact H.record _
  | clear now => exact s.tracker.counted_clear now
  | timer =>
    unfold step
    dsimp only
    split
    next => exact ⟨H.total, H.failed, H.last⟩
    next => exact H
  | save i ok =>
    show (s.saveOn i ok).tracker.Counted
    rw [saveOn_tracker]
    exact H

/-! ## The records -/

/-- Requests are recorded and cleared after `load` has settled, whose operations succeed where they
can; the legacy directory may be left where it is. -/
def Quiet (s : Tracking) : TrackingEvent → Prop
  | .load ok _ => s.load = .rename ∨ ok = true
  | .record _ _ | .clear _ => s.load = .done
  | .timer | .save _ _ => True

/-- Where `load` will find the records that are kept. -/
def Finds (s : Tracking) : Prop :=
  match s.load with
  | .accessData => s.tracker.dataDir = .data ∧ s.kept = s.disk.persisted true
  | .accessLegacy =>
    s.tracker.dataDir = .data ∧ s.disk.data = none ∧ s.kept = s.disk.records .legacy
  | .rename | .accessAgain => s.tracker.dataDir = .data ∧ s.disk.data = none ∧
    s.disk.legacy.isSome = true ∧ s.kept = s.disk.records .legacy
  | .migrated | .mkdir | .readFile => s.kept = s.disk.records s.tracker.dataDir
  | .done => s.tracker.records = s.kept

theorem finds_done (h : s.load = .done) : s.Finds ↔ s.tracker.records = s.kept := by
  unfold Finds
  rw [h]

/-- There are no records, no save is under way, and none will be started. -/
def Idle (s : Tracking) : Prop :=
  s.tracker.records = [] ∧ s.saves = [] ∧ s.tracker.saveDebounce = false

/-- Nothing is saved before `load` has settled. -/
structure Undisturbed (s : Tracking) : Prop where
  finds : s.Finds
  idle : s.load ≠ .done → s.Idle

theorem idle_loadOn (H : s.Idle) {ok : Bool} {now : Nat} (hload : (s.loadOn ok now).load ≠ .done) :
    (s.loadOn ok now).Idle := by
  have hfinish : ∀ file, (s.finish file now).load = .done := by
    intro file
    cases file <;> rfl
  unfold loadOn at hload ⊢
  split
  next => split <;> exact H
  next => split <;> exact H
  next => split <;> exact H
  next => split <;> exact H
  next => exact H
  next hphase =>
    rw [hphase] at hload
    dsimp only at hload
    split
    next => exact H
    next hok =>
      rw [if_neg hok] at hload
      exact absurd (hfinish .unreadable) hload
  next hphase =>
    rw [hphase] at hload
    dsimp only at hload
    split at hload
    next => exact absurd (hfinish _) hload
    next => exact absurd (hfinish .unreadable) hload
  next => exact H

theorem records_mkdir (disk : Disk) (dir : DataDir) :
    (disk.mkdir dir).records dir = disk.records dir := by
  unfold Disk.mkdir
  split
  next => rfl
  next hnone =>
    cases dir with
    | data =>
      have hdata : disk.data = none := hnone
      simp [Disk.set, Disk.records, Disk.get, hdata]
    | legacy =>
      have hlegacy : disk.legacy = none := hnone
      simp [Disk.set, Disk.records, Disk.get, hlegacy]

theorem records_adopt {disk disk' : Disk} (h : disk.adopt = some disk') :
    disk'.records .data = disk.records .legacy := by
  unfold Disk.adopt at h
  split at h
  next contents hlegacy _ =>
    cases h
    simp [Disk.records, Disk.get, hlegacy]
  next contents hlegacy _ =>
    cases h
    simp [Disk.records, Disk.get, hlegacy]
  next => exact absurd h.symm (Option.some_ne_none disk')

theorem finish_records (file : UsageFile) (now : Nat) :
    (s.finish file now).load = .done ∧ (s.finish file now).kept = s.kept ∧
      (s.finish file now).tracker.records = match file with
        | .saved _ records => records.getD []
        | .unreadable => [] := by
  cases file with
  | unreadable => exact ⟨rfl, rfl, rfl⟩
  | saved startedAt records => exact ⟨rfl, rfl, rfl⟩

/-- `load` ends with the records of the file. -/
theorem finds_finish {file : UsageFile} (now : Nat) (hkept : s.kept = match file with
    | .saved _ records => records.getD []
    | .unreadable => []) : (s.finish file now).Finds := by
  obtain ⟨hload, hkept', hrecords⟩ := finish_records (s := s) file now
  unfold Finds
  rw [hload]
  dsimp only
  rw [hrecords, hkept', hkept]

theorem finds_loadOn (H : s.Finds) {ok : Bool} (hok : s.load = .rename ∨ ok = true) (now : Nat) :
    (s.loadOn ok now).Finds := by
  unfold Finds at H
  unfold loadOn
  cases hload : s.load with
  | accessData =>
    rw [hload] at H
    obtain ⟨hdir, hkept⟩ := H
    obtain rfl := hok.resolve_left (by rw [hload]; exact LoadPhase.noConfusion)
    dsimp only
    cases hdata : s.disk.data with
    | some contents =>
      rw [if_pos (show (true && (some contents).isSome) = true from rfl)]
      show s.kept = s.disk.records s.tracker.dataDir
      rw [hkept, hdir]
      simp [Disk.persisted, hdata]
    | none =>
      rw [if_neg (by decide)]
      refine ⟨hdir, hdata, hkept.trans ?_⟩
      simp [Disk.persisted, hdata]
  | accessLegacy =>
    rw [hload] at H
    obtain ⟨hdir, hdata, hkept⟩ := H
    obtain rfl := hok.resolve_left (by rw [hload]; exact LoadPhase.noConfusion)
    dsimp only
    cases hlegacy : s.disk.legacy with
    | some contents =>
      rw [if_pos (show (true && (some contents).isSome) = true from rfl)]
      exact ⟨hdir, hdata, by show s.disk.legacy.isSome = true; rw [hlegacy]; rfl, hkept⟩
    | none =>
      rw [if_neg (by decide)]
      show s.kept = s.disk.records s.tracker.dataDir
      rw [hkept, hdir]
      simp [Disk.records, Disk.get, hlegacy, hdata]
  | rename =>
    rw [hload] at H
    obtain ⟨hdir, hdata, hlegacy, hkept⟩ := H
    dsimp only
    split
    next disk hadopt =>
      split at hadopt
      next =>
        show s.kept = disk.records s.tracker.dataDir
        rw [hdir, records_adopt hadopt, hkept]
      next => exact absurd hadopt.symm (Option.some_ne_none disk)
    next => exact ⟨hdir, hdata, hlegacy, hkept⟩
  | accessAgain =>
    rw [hload] at H
    obtain ⟨hdir, hdata, -, hkept⟩ := H
    dsimp only
    rw [hdata, Option.isSome_none, Bool.and_false, if_neg Bool.false_ne_true]
    exact hkept
  | migrated =>
    rw [hload] at H
    exact H
  | mkdir =>
    rw [hload] at H
    obtain rfl := hok.resolve_left (by rw [hload]; exact LoadPhase.noConfusion)
    dsimp only
    rw [if_pos rfl]
    show s.kept = (s.disk.mkdir s.tracker.dataDir).records s.tracker.dataDir
    rw [records_mkdir]
    exact H
  | readFile =>
    rw [hload] at H
    obtain rfl := hok.resolve_left (by rw [hload]; exact LoadPhase.noConfusion)
    replace H : s.kept = s.disk.records s.tracker.dataDir := H
    unfold Disk.records at H
    dsimp only
    split
    next file hfile _ =>
      rw [hfile] at H
      refine finds_finish now ?_
      cases file with
      | unreadable => exact H
      | saved startedAt records => exact H
    next hno =>
      refine finds_finish now (H.trans ?_)
      split
      next startedAt records hfile => exact (hno (.saved startedAt records) hfile rfl).elim
      next => rfl
  | done =>
    rw [hload] at H
    dsimp only
    unfold Finds
    rw [hload]
    exact H

theorem undisturbed_init (migrates : Bool) (disk : Disk) (now : Nat) :
    (Tracking.init migrates disk now).Undisturbed := by
  refine ⟨?_, fun _ => ⟨rfl, rfl, rfl⟩⟩
  cases migrates with
  | true => exact ⟨rfl, rfl⟩
  | false => exact rfl

theorem undisturbed_step (H : s.Undisturbed) {event : TrackingEvent} (hquiet : s.Quiet event) :
    (s.step event).Undisturbed := by
  have hfinds := H.finds
  cases event with
  | load ok now =>
    refine ⟨finds_loadOn hfinds hquiet now, fun hload => idle_loadOn (H.idle fun hdone => hload ?_) hload⟩
    show (s.loadOn ok now).load = .done
    unfold loadOn
    rw [hdone]
    exact hdone
  | record entry now =>
    have hdone : s.load = .done := hquiet
    rw [finds_done hdone] at hfinds
    refine ⟨(finds_done (s := s.step (.record entry now)) hdone).mpr ?_, fun hload => absurd hdone hload⟩
    exact congrArg (· ++ [entry.record now]) hfinds
  | clear now =>
    have hdone : s.load = .done := hquiet
    exact ⟨(finds_done (s := s.step (.clear now)) hdone).mpr rfl, fun hload => absurd hdone hload⟩
  | timer =>
    unfold step
    dsimp only
    split
    next htimer =>
      have hdone : s.load = .done := by
        by_contra hload
        exact absurd (htimer.symm.trans (H.idle hload).2.2) (Bool.false_ne_true ∘ Eq.symm)
      rw [finds_done hdone] at hfinds
      refine ⟨?_, fun hload => absurd hdone hload⟩
      unfold Finds
      rw [hdone]
      exact hfinds
    next => exact H
  | save i ok =>
    by_cases hdone : s.load = .done
    · have hload : (s.step (.save i ok)).load = .done := by
        show (s.saveOn i ok).load = .done
        unfold saveOn
        split <;> exact hdone
      have hkept : (s.step (.save i ok)).kept = s.kept := by
        show (s.saveOn i ok).kept = s.kept
        unfold saveOn
        split <;> rfl
      rw [finds_done hdone] at hfinds
      refine ⟨(finds_done hload).mpr ?_, fun h => absurd hload h⟩
      rw [hkept, ← hfinds]
      exact congrArg UsageTracker.records (saveOn_tracker i ok)
    · have hsame : s.step (.save i ok) = s := by
        show s.saveOn i ok = s
        unfold saveOn
        rw [(H.idle hdone).2.1]
        rfl
      rw [hsame]
      exact H

/-- Only `clear` removes a record. -/
theorem records_step (H : s.Undisturbed) {event : TrackingEvent}
    (hclear : ∀ now, event ≠ .clear now) : s.tracker.records <+: (s.step event).tracker.records := by
  cases event with
  | load ok now =>
    by_cases hdone : s.load = .done
    · have hsame : s.step (.load ok now) = s := by
        show s.loadOn ok now = s
        unfold loadOn
        rw [hdone]
      rw [hsame]
    · rw [(H.idle hdone).1]
      exact List.nil_prefix
  | record entry now => exact List.prefix_append ..
  | clear now => exact absurd rfl (hclear now)
  | timer =>
    unfold step
    dsimp only
    split <;> exact List.prefix_rfl
  | save i ok =>
    show s.tracker.records <+: (s.saveOn i ok).tracker.records
    rw [saveOn_tracker]

end Tracking

/-- The counters agree with the records in every run; if nothing is recorded or cleared before
`load` has settled, whose operations succeed, it leaves the persisted records followed by the ones
that were made, and only `clear` removes a record. -/
theorem usageKept (migrates : Bool) (disk : Disk) (start : Nat) :
    (∀ events, ((tracking migrates disk start).run events).tracker.Agrees) ∧
    ∀ events, (tracking migrates disk start).Along Tracking.Quiet (.init migrates disk start) events →
      let s := (tracking migrates disk start).run events
      (s.load = .done → s.tracker.records = s.kept) ∧
        ∀ event, (∀ now, event ≠ .clear now) →
          s.tracker.records <+: (s.step event).tracker.records := by
  refine ⟨fun events => ?_, fun events hquiet => ?_⟩
  · have H : ((tracking migrates disk start).run events).tracker.Counted :=
      Lib.Machine.Reachable.keeps (I := fun s : Tracking => s.tracker.Counted)
        ⟨rfl, rfl, rfl⟩
        (fun s event H => Tracking.counted_step H event) ⟨events, rfl⟩
    exact H.agrees
  · have H : ((tracking migrates disk start).run events).Undisturbed :=
      Lib.Machine.runFrom_keeps_along (I := Tracking.Undisturbed)
        (fun s event hevent H => Tracking.undisturbed_step H hevent)
        (Tracking.undisturbed_init migrates disk start) hquiet
    exact ⟨fun hdone => (Tracking.finds_done hdone).mp H.finds, fun event => Tracking.records_step H⟩

def plainEntry : RecordEntry := ⟨"claude", [], none, 1, 1, none, none, 5, false, true⟩

/-- A request that is recorded while the file is read is lost. -/
theorem record_lostByLoad :
    let s := (tracking true ⟨none, none⟩ 0).run [.load true 0, .load true 0, .load true 0,
      .load true 0, .record plainEntry 7, .load true 8]
    s.load = .done ∧ s.tracker.records = [] ∧ s.kept = [plainEntry.record 7] := by
  exact ⟨rfl, rfl, rfl⟩

end CliProxy.Usage
