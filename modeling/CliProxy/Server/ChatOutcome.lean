import CliProxy.Adapter.RunProtocol
import CliProxy.Server.CompletedAnswer

/-! # One outcome for each request

How many records a handler leaves is read off the trace of the run, and so is whether they agree
with the response. -/

namespace CliProxy.Server

open Adapter (Json RunError RunnerEvent Runner RunnerConfig Settlement)
open Usage (ClaudeCliResult cliUsageToOpenai runUsage)

/-! ## The traces of a runner -/

/-- `event.event.delta?.text || ""`. -/
def deltaText (event : Json) : String :=
  match ((event.get "event").bind (·.get "delta")).bind (·.get "text") with
  | some (.str text) => text
  | _ => ""

/-- What a listener is called with; `read` takes a result for the type it is declared to have. -/
def Signal.ofEvent (read : Json → Option Json → ClaudeCliResult) : RunnerEvent → Signal
  | .contentDelta event => .progress (.contentDelta (deltaText event))
  | .toolEvent event => .progress (.toolEvent event)
  | .result result mainChainModel => .progress (.result (read result mainChainModel))
  | .error e => .error e
  | .close code => .close code
  | .message _ | .assistant _ | .raw _ => .progress .other

variable (read : Json → Option Json → ClaudeCliResult)

theorem exists_progress {events : List RunnerEvent} (h : ∀ e ∈ events, e.isProgress = true) :
    ∃ progress : List Progress, events.map (Signal.ofEvent read) = progress.map .progress := by
  induction events with
  | nil => exact ⟨[], rfl⟩
  | cons event events ih =>
    rw [List.forall_mem_cons] at h
    obtain ⟨progress, hprogress⟩ := ih h.2
    have hevent : ∃ p : Progress, Signal.ofEvent read event = .progress p := by
      cases event with
      | error error | close code => exact absurd h.1 Bool.false_ne_true
      | _ => exact ⟨_, rfl⟩
    obtain ⟨p, hp⟩ := hevent
    exact ⟨p :: progress, by rw [List.map_cons, hp, hprogress, List.map_cons]⟩

/-- Whatever a runner reads and however it settles, its listeners are called as for a trace. -/
theorem exists_trace (cfg : RunnerConfig) (directories : List String) (chunks : List (List Char))
    (settlement : Settlement) : ∃ progress ending,
      (Runner.run cfg directories chunks settlement).1.events.map (Signal.ofEvent read) =
        (RunTrace.runs progress ending).signals := by
  have hread : Runner.HasRead directories ([] ++ chunks.flatten)
      (chunks.foldl (Runner.push cfg) (Runner.start directories)) := Runner.HasRead.start.pushAll chunks
  have hended : ∀ {s : Runner} {ending : List RunnerEvent}, Runner.Ended s ending →
      ∃ progress : List Progress, s.events.map (Signal.ofEvent read) =
        progress.map .progress ++ ending.map (Signal.ofEvent read) := by
    intro s ending H
    obtain ⟨events, hevents, hall⟩ := H.events_eq
    obtain ⟨progress, hprogress⟩ := exists_progress read hall
    exact ⟨progress, by rw [hevents, List.map_append, hprogress]⟩
  unfold Runner.run
  cases h : Adapter.malformed cfg (Lib.lastLine ([] ++ chunks.flatten)) with
  | true =>
    have hall := (Runner.settle_malformed hread h settlement).2.emitted
    obtain ⟨progress, hprogress⟩ := exists_progress read (List.forall_mem_map.mpr hall)
    exact ⟨progress, .hangs, hprogress.trans (List.append_nil _).symm⟩
  | false =>
    obtain ⟨-, hclosed | ⟨error, code, hfailed⟩⟩ := Runner.settle_wellFormed hread h settlement
    · obtain ⟨progress, hprogress⟩ := hended hclosed
      exact ⟨progress, .closes, hprogress⟩
    · obtain ⟨progress, hprogress⟩ := hended hfailed
      exact ⟨progress, .fails error code, hprogress⟩

/-! ## Outcomes -/

/-- At most one response is sent, and one record says whether the request succeeds. -/
structure OneOutcome (sent : Nat) (records : List UsageRecord) (success : Prop) : Prop where
  atMostOne : sent ≤ 1
  recorded : ∃ record, records = [record] ∧ (record.success = true ↔ success)

theorem not_oneOutcome_nil {sent : Nat} {success : Prop} : ¬OneOutcome sent [] success :=
  fun H => by
    obtain ⟨record, h, -⟩ := H.recorded
    exact absurd h.symm (List.cons_ne_nil _ _)

theorem not_oneOutcome_of_two {sent : Nat} {records : List UsageRecord} {success : Prop}
    (h : 2 ≤ records.length) : ¬OneOutcome sent records success := by
  intro H
  obtain ⟨record, rfl, -⟩ := H.recorded
  exact absurd h (by simp)

/-! ## Streaming -/

/-- The answer ends with `finish_reason` `stop` and `[DONE]`. -/
def Streaming.Succeeded (s : Streaming) : Prop := Chunk.stop ∈ s.body ∧ Chunk.done ∈ s.body

/-- The success is that of the response that a connected client is sent. -/
def StreamingOutcome (ctx : ChatContext) (trace : RunTrace) (client : Client) : Prop :=
  OneOutcome (handleStreamingResponse ctx trace client).ends
    (handleStreamingResponse ctx trace client).records
    (handleStreamingResponse ctx trace .stays).Succeeded

/-- The run emits one result and does not fail, or fails without a result. -/
def RunTrace.streamsOnce : RunTrace → Prop
  | rejected _ | refused _ => True
  | runs progress (.fails _ _) => resultsOf progress = []
  | runs progress _ => (resultsOf progress).length = 1

namespace Streaming

variable {ctx : ChatContext} {s : Streaming} {trace : RunTrace} {chunks : List Chunk}

theorem EndedWith.mem_body (H : EndedWith chunks s) {c : Chunk} (hc : c.isPlain = false) :
    c ∈ s.body ↔ c ∈ chunks := by
  obtain ⟨plain, hbody, hplain⟩ := H.body
  rw [hbody, List.mem_append]
  refine ⟨fun h => h.resolve_left fun hmem => ?_, .inr⟩
  exact Bool.false_ne_true (hc.symm.trans (hplain c hmem))

theorem EndedWith.succeeded (H : EndedWith chunks s) :
    s.Succeeded ↔ .stop ∈ chunks ∧ .done ∈ chunks := by
  rw [Succeeded, H.mem_body rfl, H.mem_body rfl]

theorem answer_succeeds (ctx : ChatContext) (source : String) (result : ClaudeCliResult) :
    .stop ∈ answer ctx source result ∧ .done ∈ answer ctx source result := by
  simp [answer]

theorem Answered.ends_le (H : Answered ctx trace s) : s.ends ≤ 1 := by
  cases hend : endOf ctx trace with
  | some chunks => exact Nat.le_of_eq (H.ended chunks hend).ends
  | none => exact Nat.le_trans (Nat.le_of_eq (H.running hend).1) (Nat.zero_le 1)

theorem Answered.succeeded_runs {progress : List Progress} {ending : Ending}
    (H : Answered ctx (.runs progress ending) s) : s.Succeeded ↔ resultsOf progress ≠ [] := by
  cases hresults : resultsOf progress with
  | cons result results =>
    have hended := H.ended (answer ctx (jsonSourceOf progress result) result) (by
      simp only [endOf, hresults])
    rw [hended.succeeded]
    exact iff_of_true (answer_succeeds ctx _ _) (List.cons_ne_nil _ _)
  | nil =>
    refine iff_of_false ?_ (fun h => h rfl)
    cases ending with
    | hangs =>
      obtain ⟨-, hplain⟩ := H.running (by simp only [endOf, hresults])
      intro h
      exact absurd (hplain _ h.1) Bool.false_ne_true
    | closes =>
      rw [(H.ended [.done] (by simp only [endOf, hresults])).succeeded]
      simp
    | fails error code =>
      rw [(H.ended [.error (ctx.errorBody error)] (by simp only [endOf, hresults])).succeeded]
      simp

theorem streamingOutcome_congr (ctx : ChatContext) (trace : RunTrace) (client : Client) :
    StreamingOutcome ctx trace client ↔ StreamingOutcome ctx trace .stays := by
  have h := handle_forget ctx trace client
  have hends : (handleStreamingResponse ctx trace client).ends =
      (handleStreamingResponse ctx trace .stays).ends := congrArg (·.ends) h
  have hrecords : (handleStreamingResponse ctx trace client).records =
      (handleStreamingResponse ctx trace .stays).records := congrArg (·.records) h
  unfold StreamingOutcome
  rw [hends, hrecords]

theorem streamingOutcome_iff (ctx : ChatContext) (trace : RunTrace) (client : Client) :
    StreamingOutcome ctx trace client ↔ trace.streamsOnce := by
  rw [streamingOutcome_congr]
  have H := answered_handle ctx trace
  have hfailed : ∀ error : RunError, endOf ctx trace = some [.error (ctx.errorBody error)] →
      recordsOf ctx trace = [ctx.failureRecord true] → StreamingOutcome ctx trace .stays := by
    intro error hend hrecords
    refine ⟨H.ends_le, _, H.records.trans hrecords, iff_of_false Bool.false_ne_true ?_⟩
    rw [(H.ended _ hend).succeeded]
    simp
  cases trace with
  | rejected message => exact iff_of_true (hfailed _ rfl rfl) trivial
  | refused error => exact iff_of_true (hfailed _ rfl rfl) trivial
  | runs progress ending =>
    have hsucceeded := H.succeeded_runs
    have hone : ∀ {results}, resultsOf progress = results →
        recordsOf ctx (.runs progress ending) = results.map (ctx.successRecord true) →
          (StreamingOutcome ctx (.runs progress ending) .stays ↔ results.length = 1) := by
      intro results hresults hrecords
      constructor
      · rintro ⟨-, record, h, -⟩
        rw [H.records, hrecords] at h
        have hlength := congrArg List.length h
        rwa [List.length_map] at hlength
      · intro hlength
        obtain ⟨result, rfl⟩ := List.length_eq_one_iff.mp hlength
        refine ⟨H.ends_le, _, H.records.trans hrecords, iff_of_true rfl ?_⟩
        rw [hsucceeded, hresults]
        exact List.cons_ne_nil _ _
    cases ending with
    | hangs => exact hone rfl (List.append_nil _)
    | closes => exact hone rfl (List.append_nil _)
    | fails error code =>
      constructor
      · rintro ⟨-, record, h, -⟩
        rw [H.records, recordsOf] at h
        have hlength := congrArg List.length h
        rw [List.length_append, List.length_map] at hlength
        exact List.length_eq_zero_iff.mp (Nat.succ.inj hlength)
      · intro hnone
        replace hnone : resultsOf progress = [] := hnone
        exact hfailed error (by simp only [endOf, hnone]) (by simp only [recordsOf, hnone]; rfl)

end Streaming

/-! ## Not streaming -/

def Response.isCompletion : Response → Bool
  | .completion _ _ _ _ => true
  | .failure _ _ => false

/-- A completion was sent. -/
def NonStreaming.Succeeded (s : NonStreaming) : Prop := ∃ r ∈ s.responses, r.isCompletion = true

/-- The success is that of the response that a connected client is sent. -/
def NonStreamingOutcome (http : Http) (ctx : ChatContext) (trace : RunTrace) (client : Client) :
    Prop :=
  OneOutcome (handleNonStreamingResponse http ctx trace client).responses.length
    (handleNonStreamingResponse http ctx trace client).records
    (handleNonStreamingResponse http ctx trace .stays).Succeeded

/-- The run ends, and either has a result or fails; or it closes without a result while the
response is writable. -/
def RunTrace.completesOnce (http : Http) (client : Client) : RunTrace → Prop
  | rejected _ => False
  | refused _ => True
  | runs _ .hangs => False
  | runs progress .closes =>
    resultsOf progress ≠ [] ∨ http.writable false (client.leavesDuring progress) = true
  | runs progress (.fails _ _) => resultsOf progress = []

namespace NonStreaming

variable {http : Http} {ctx : ChatContext} {s : NonStreaming} {progress : List Progress}
  {client : Client}

theorem succeeded_singleton (r : Response) (h : s.responses = [r]) :
    s.Succeeded ↔ r.isCompletion = true := by
  rw [Succeeded, h]
  exact ⟨fun ⟨r', hr, hc⟩ => List.mem_singleton.mp hr ▸ hc, fun hc => ⟨r, List.mem_singleton_self r, hc⟩⟩

theorem length_ite_le (b : Bool) (r : Response) : (if b then [r] else []).length ≤ 1 := by
  cases b <;> simp

theorem handle_closes_some (http : Http) (ctx : ChatContext) {result : ClaudeCliResult}
    (hlast : (resultsOf progress).getLast? = some result) (client : Client) :
    (handleNonStreamingResponse http ctx (.runs progress .closes) client).records =
        [ctx.successRecord false result] ∧
      ∃ reasoning toolEvents,
        (handleNonStreamingResponse http ctx (.runs progress .closes) client).responses =
          if http.writable false (client.leavesDuring progress) then
            [.completion (if ctx.jsonMode then ctx.extractJsonFromText result.result
              else result.result) (cliUsageToOpenai (runUsage result)) reasoning toolEvents]
          else [] := by
  obtain ⟨s, signals, H, hrun, hsignals⟩ := waiting_handle http ctx progress .closes client
  obtain ⟨t, hclose, hrecords, hresponses⟩ := H.close_some http ctx hlast 0
  obtain ⟨hrecords', hresponses'⟩ := handle_closes hclose (mem_endings hsignals)
  rw [hrun]
  exact ⟨hrecords'.trans hrecords, s.reasoning, s.toolEvents, hresponses'.trans hresponses⟩

theorem handle_closes_none (http : Http) (ctx : ChatContext) (hnone : resultsOf progress = [])
    (client : Client) :
    (handleNonStreamingResponse http ctx (.runs progress .closes) client).records =
        (if http.writable false (client.leavesDuring progress) then
          [ctx.failureRecord false] else []) ∧
      (handleNonStreamingResponse http ctx (.runs progress .closes) client).responses =
        if http.writable false (client.leavesDuring progress) then
          [.failure 500 (ChatContext.serverError
            s!"CLI exited with code {(0 : Int)} without response")] else [] := by
  obtain ⟨s, signals, H, hrun, hsignals⟩ := waiting_handle http ctx progress .closes client
  obtain ⟨t, hclose, hrecords, hresponses⟩ := H.close_none http ctx hnone 0
  obtain ⟨hrecords', hresponses'⟩ := handle_closes hclose (mem_endings hsignals)
  rw [hrun]
  exact ⟨hrecords'.trans hrecords, hresponses'.trans hresponses⟩

theorem handle_fails_none (http : Http) (ctx : ChatContext) (hnone : resultsOf progress = [])
    (error : RunError) (code : Int) (client : Client) :
    (handleNonStreamingResponse http ctx (.runs progress (.fails error code)) client).records =
        [ctx.failureRecord false] ∧
      (handleNonStreamingResponse http ctx (.runs progress (.fails error code)) client).responses =
        if http.writable false (client.leavesDuring progress) then
          [.failure (ChatContext.errorStatus error) (ctx.errorBody error)] else [] := by
  obtain ⟨s, signals, H, hrun, hsignals⟩ :=
    waiting_handle http ctx progress (.fails error code) client
  rw [hrun]
  exact H.fails_none hnone (mem_endings hsignals)

theorem handle_fails_some {result : ClaudeCliResult}
    (hlast : (resultsOf progress).getLast? = some result) (error : RunError) (code : Int)
    (client : Client) :
    2 ≤ (handleNonStreamingResponse http ctx (.runs progress (.fails error code))
      client).records.length := by
  obtain ⟨s, signals, H, hrun, hsignals⟩ :=
    waiting_handle http ctx progress (.fails error code) client
  rw [hrun]
  exact H.fails_some hlast (mem_endings hsignals)

theorem handle_hangs (http : Http) (ctx : ChatContext) (progress : List Progress)
    (client : Client) :
    (handleNonStreamingResponse http ctx (.runs progress .hangs) client).records = [] ∧
      (handleNonStreamingResponse http ctx (.runs progress .hangs) client).responses = [] := by
  obtain ⟨s, signals, H, hrun, hsignals⟩ := waiting_handle http ctx progress .hangs client
  rw [hrun]
  exact H.hangs (mem_endings hsignals)

/-- A `start` that rejects is answered, but not recorded. -/
theorem handle_rejected (http : Http) (ctx : ChatContext) (message : String) (client : Client) :
    (handleNonStreamingResponse http ctx (.rejected message) client).records = [] ∧
      (handleNonStreamingResponse http ctx (.rejected message) client).responses =
        [.failure 500 (ChatContext.serverError message)] := by
  cases client with
  | stays => exact ⟨rfl, rfl⟩
  | leaves after =>
    cases after with
    | zero => exact ⟨rfl, rfl⟩
    | succ after =>
      have hsignals : (Client.leaves (after + 1)).signals (.rejected message) =
          [.rejected message, .disconnect] := by
        simp [Client.signals, RunTrace.signals]
      unfold handleNonStreamingResponse
      rw [hsignals]
      exact ⟨rfl, rfl⟩

theorem exists_getLast {results : List ClaudeCliResult} (h : results ≠ []) :
    ∃ result, results.getLast? = some result := ⟨_, List.getLast?_eq_some_getLast h⟩

theorem leavesDuring_stays (http : Http) (progress : List Progress) :
    http.writable false (Client.stays.leavesDuring progress) = true := http.open_writable

theorem outcome_fails (hnone : resultsOf progress = []) (error : RunError) (code : Int)
    (client : Client) : NonStreamingOutcome http ctx (.runs progress (.fails error code)) client := by
  obtain ⟨hrecords, hresponses⟩ := handle_fails_none http ctx hnone error code client
  obtain ⟨-, hstays⟩ := handle_fails_none http ctx hnone error code .stays
  rw [leavesDuring_stays, if_pos rfl] at hstays
  refine ⟨hresponses ▸ length_ite_le _ _, _, hrecords, iff_of_false Bool.false_ne_true ?_⟩
  rw [succeeded_singleton _ hstays]
  exact Bool.false_ne_true

/-- A run that is refused is one that fails at once. -/
theorem handle_refused (http : Http) (ctx : ChatContext) (error : RunError) (client : Client) :
    handleNonStreamingResponse http ctx (.refused error) client =
      handleNonStreamingResponse http ctx (.runs [] (.fails error 1)) client := by
  cases client <;> rfl

theorem nonStreamingOutcome_iff (http : Http) (ctx : ChatContext) (trace : RunTrace)
    (client : Client) : NonStreamingOutcome http ctx trace client ↔ trace.completesOnce http client := by
  cases trace with
  | rejected message =>
    refine iff_of_false ?_ id
    unfold NonStreamingOutcome
    rw [(handle_rejected http ctx message client).1]
    exact not_oneOutcome_nil
  | refused error =>
    refine iff_of_true ?_ trivial
    unfold NonStreamingOutcome
    rw [handle_refused, handle_refused]
    exact outcome_fails rfl error 1 client
  | runs progress ending =>
    cases ending with
    | hangs =>
      refine iff_of_false ?_ id
      unfold NonStreamingOutcome
      rw [(handle_hangs http ctx progress client).1]
      exact not_oneOutcome_nil
    | closes =>
      by_cases hnone : resultsOf progress = []
      · have hcondition : RunTrace.completesOnce http client (.runs progress .closes) ↔
            http.writable false (client.leavesDuring progress) = true :=
          ⟨fun h => h.resolve_left fun hsome => hsome hnone, .inr⟩
        rw [hcondition]
        obtain ⟨hrecords, hresponses⟩ := handle_closes_none http ctx hnone client
        obtain ⟨-, hstays⟩ := handle_closes_none http ctx hnone .stays
        rw [leavesDuring_stays, if_pos rfl] at hstays
        cases hwritable : http.writable false (client.leavesDuring progress) with
        | true =>
          rw [hwritable, if_pos rfl] at hrecords
          refine iff_of_true ⟨hresponses ▸ length_ite_le _ _, _, hrecords, ?_⟩ rfl
          refine iff_of_false Bool.false_ne_true ?_
          rw [succeeded_singleton _ hstays]
          exact Bool.false_ne_true
        | false =>
          rw [hwritable, if_neg Bool.false_ne_true] at hrecords
          refine iff_of_false ?_ Bool.false_ne_true
          unfold NonStreamingOutcome
          rw [hrecords]
          exact not_oneOutcome_nil
      · obtain ⟨result, hlast⟩ := exists_getLast hnone
        obtain ⟨hrecords, reasoning, toolEvents, hresponses⟩ :=
          handle_closes_some http ctx hlast client
        obtain ⟨-, reasoning', toolEvents', hstays⟩ :=
          handle_closes_some http ctx hlast .stays
        rw [leavesDuring_stays, if_pos rfl] at hstays
        refine iff_of_true ⟨hresponses ▸ length_ite_le _ _, _, hrecords, ?_⟩ (.inl hnone)
        exact iff_of_true rfl ((succeeded_singleton _ hstays).mpr rfl)
    | fails error code =>
      by_cases hnone : resultsOf progress = []
      · exact iff_of_true (outcome_fails hnone error code client) hnone
      · obtain ⟨result, hlast⟩ := exists_getLast hnone
        exact iff_of_false (not_oneOutcome_of_two (handle_fails_some hlast error code client)) hnone

end NonStreaming

/-- A context that adds nothing to a run. -/
def plainContext : ChatContext where
  requestedModel := "claude"
  jsonMode := false
  includeUsage := false
  surfaceTools := false
  authUiPath _ := none
  extractJsonFromText text := text
  narrate _ _ := ""

def okResult : ClaudeCliResult := ⟨"4", none, [], none⟩

/-- The run prints its result, and then its adapter reports an exit code of 1. -/
def failedAfterResult : RunTrace :=
  .runs [.other, .result okResult] (.fails ⟨"Paperclip adapter run failed (exit code 1)",
    some ⟨500, "server_error", none, none⟩⟩ 1)

/-- A response stays writable. -/
def alwaysWritable : Http := ⟨fun _ _ => true, rfl⟩

end CliProxy.Server
