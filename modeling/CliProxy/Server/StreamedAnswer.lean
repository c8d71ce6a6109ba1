import Mathlib.Data.List.Induction
import CliProxy.Server.ChatCompletions

/-! # What a streaming answer consists of

Until the first result the stream is open and nothing is recorded (`Quiet`). The first result ends
it, and each later one leaves a record only. -/

namespace CliProxy.Server

open Adapter (RunError)
open Usage (ClaudeCliResult cliUsageToOpenai runUsage)

/-- The results that a run emits. -/
def resultsOf (progress : List Progress) : List ClaudeCliResult :=
  progress.filterMap fun
    | .result result => some result
    | _ => none

@[simp] theorem resultsOf_append (progress progress' : List Progress) :
    resultsOf (progress ++ progress') = resultsOf progress ++ resultsOf progress' :=
  List.filterMap_append

/-- The text of the deltas. -/
def deltas (progress : List Progress) : String :=
  progress.foldl (fun text event =>
    match event with
    | .contentDelta delta => text ++ delta
    | _ => text) ""

/-- The run up to its first result. -/
theorem exists_first_result {progress : List Progress} {result : ClaudeCliResult}
    {results : List ClaudeCliResult} (h : resultsOf progress = result :: results) :
    ∃ before after, progress = before ++ .result result :: after ∧ resultsOf before = [] ∧
      resultsOf after = results := by
  induction progress with
  | nil => exact absurd h.symm (List.cons_ne_nil _ _)
  | cons event progress ih =>
    cases event with
    | result r =>
      obtain ⟨rfl, hrest⟩ := List.cons.inj h
      exact ⟨[], progress, rfl, rfl, hrest⟩
    | _ =>
      obtain ⟨before, after, rfl, hbefore, hafter⟩ := ih h
      exact ⟨_ :: before, after, rfl, hbefore, hafter⟩

/-- Chunks that neither end the stream nor carry an error. -/
def Chunk.isPlain : Chunk → Bool
  | .content _ _ | .reasoning _ _ _ => true
  | _ => false

/-- The text that JSON is extracted from: that of the first result, else the deltas before it. -/
def jsonSourceOf (progress : List Progress) (result : ClaudeCliResult) : String :=
  if result.result != "" then result.result
  else deltas (progress.takeWhile fun
    | .result _ => false
    | _ => true)

namespace Streaming

variable {ctx : ChatContext} {s : Streaming} {progress : List Progress}

/-- The stream after `progress` without a result. -/
structure Quiet (ctx : ChatContext) (progress : List Progress) (s : Streaming) : Prop where
  records : s.records = []
  ends : s.ends = 0
  writableEnded : s.writableEnded = false
  isComplete : s.isComplete = false
  jsonBuffer : ctx.jsonMode = true → s.jsonBuffer = deltas progress
  plain : ∀ c ∈ s.body, c.isPlain = true

theorem Quiet.start : Quiet ctx [] .start :=
  ⟨rfl, rfl, rfl, rfl, fun _ => rfl, fun _ h => absurd h List.not_mem_nil⟩

theorem Quiet.onProgress (H : Quiet ctx progress s) {event : Progress}
    (h : resultsOf [event] = []) : Quiet ctx (progress ++ [event]) (s.onProgress ctx event) := by
  have hplain : ∀ {chunk : Chunk}, chunk.isPlain = true →
      ∀ c ∈ s.body ++ [chunk], c.isPlain = true := by
    intro chunk hchunk c hc
    obtain hc | hc := List.mem_append.mp hc
    · exact H.plain c hc
    · exact List.mem_singleton.mp hc ▸ hchunk
  have hdeltas : ∀ text, deltas (progress ++ [.contentDelta text]) = deltas progress ++ text := by
    intro text
    rw [deltas, List.foldl_append]
    rfl
  cases event with
  | contentDelta text =>
    have hopen : (text == "" || s.writableEnded) = (text == "") := by
      rw [H.writableEnded, Bool.or_false]
    unfold Streaming.onProgress
    dsimp only
    rw [hopen]
    split
    next htext =>
      obtain rfl := beq_iff_eq.mp htext
      refine { H with jsonBuffer := fun hjson => ?_ }
      rw [hdeltas, H.jsonBuffer hjson, String.append_empty]
    next =>
      split
      next =>
        refine { H with jsonBuffer := fun hjson => ?_ }
        rw [hdeltas, ← H.jsonBuffer hjson]
      next hjson => exact { H with jsonBuffer := fun h => absurd h hjson, plain := hplain rfl }
  | toolEvent event =>
    have hsame : deltas (progress ++ [.toolEvent event]) = deltas progress := by
      rw [deltas, List.foldl_append]
      rfl
    unfold Streaming.onProgress
    dsimp only
    split
    next => exact { H with jsonBuffer := fun hjson => hsame ▸ H.jsonBuffer hjson }
    next =>
      exact { H with jsonBuffer := fun hjson => hsame ▸ H.jsonBuffer hjson, plain := hplain rfl }
  | result result => exact absurd h (List.cons_ne_nil _ _)
  | other =>
    have hsame : deltas (progress ++ [.other]) = deltas progress := by
      rw [deltas, List.foldl_append]
      rfl
    exact { H with jsonBuffer := fun hjson => hsame ▸ H.jsonBuffer hjson }

theorem quiet_foldl (ctx : ChatContext) (h : resultsOf progress = []) :
    Quiet ctx progress (progress.foldl (onProgress ctx) start) := by
  induction progress using List.reverseRecOn with
  | nil => exact .start
  | append_singleton progress event ih =>
    rw [resultsOf_append, List.append_eq_nil_iff] at h
    rw [List.foldl_append]
    exact (ih h.1).onProgress h.2

/-- What is written for a result. -/
def answer (ctx : ChatContext) (source : String) (result : ClaudeCliResult) : List Chunk :=
  (if ctx.jsonMode && source != "" then [.json (ctx.extractJsonFromText source)] else []) ++ [.stop]
    ++ (if ctx.includeUsage then [.usage (cliUsageToOpenai (runUsage result))] else []) ++ [.done]

/-- A stream that has ended with these chunks. -/
structure EndedWith (chunks : List Chunk) (s : Streaming) : Prop where
  ends : s.ends = 1
  writableEnded : s.writableEnded = true
  body : ∃ plain, s.body = plain ++ chunks ∧ ∀ c ∈ plain, c.isPlain = true

theorem endedWith_finish (hopen : s.writableEnded = false) (hends : s.ends = 0)
    (hplain : ∀ c ∈ s.body, c.isPlain = true) (chunks : List Chunk) :
    EndedWith chunks (s.finish chunks) := by
  unfold Streaming.finish
  rw [hopen]
  exact ⟨congrArg (· + 1) hends, rfl, s.body, rfl, hplain⟩

@[simp] theorem finish_records (s : Streaming) (chunks : List Chunk) :
    (s.finish chunks).records = s.records := by
  unfold finish
  split <;> rfl

theorem EndedWith.finish {chunks : List Chunk} (H : EndedWith chunks s) (more : List Chunk) :
    s.finish more = s := by
  unfold Streaming.finish
  rw [H.writableEnded]
  rfl

theorem EndedWith.onProgress (ctx : ChatContext) {chunks : List Chunk} (H : EndedWith chunks s)
    (event : Progress) : EndedWith chunks (s.onProgress ctx event) ∧
      (s.onProgress ctx event).records =
        s.records ++ (resultsOf [event]).map (ctx.successRecord true) := by
  have ignored : s.onProgress ctx event = s → resultsOf [event] = [] →
      EndedWith chunks (s.onProgress ctx event) ∧ (s.onProgress ctx event).records =
        s.records ++ (resultsOf [event]).map (ctx.successRecord true) := by
    intro hsame hnone
    rw [hsame, hnone]
    exact ⟨H, (List.append_nil _).symm⟩
  cases event with
  | contentDelta text =>
    refine ignored ?_ rfl
    unfold Streaming.onProgress
    dsimp only
    rw [H.writableEnded, Bool.or_true]
    rfl
  | toolEvent event =>
    refine ignored ?_ rfl
    unfold Streaming.onProgress
    dsimp only
    rw [H.writableEnded, Bool.or_true]
    rfl
  | result result =>
    have hended : EndedWith chunks { s with
        isComplete := true
        records := s.records ++ [ctx.successRecord true result] } :=
      ⟨H.ends, H.writableEnded, H.body⟩
    unfold Streaming.onProgress onResult
    dsimp only
    rw [hended.finish]
    exact ⟨hended, rfl⟩
  | other => exact ignored rfl rfl

theorem EndedWith.foldl (ctx : ChatContext) {chunks : List Chunk} (H : EndedWith chunks s)
    (progress : List Progress) : EndedWith chunks (progress.foldl (Streaming.onProgress ctx) s) ∧
      (progress.foldl (Streaming.onProgress ctx) s).records =
        s.records ++ (resultsOf progress).map (ctx.successRecord true) := by
  induction progress generalizing s with
  | nil => exact ⟨H, (List.append_nil _).symm⟩
  | cons event progress ih =>
    obtain ⟨hended, hrecords⟩ := H.onProgress ctx event
    obtain ⟨hended', hrecords'⟩ := ih hended
    refine ⟨hended', hrecords'.trans ?_⟩
    rw [hrecords, List.append_assoc, ← List.map_append, ← resultsOf_append]
    rfl

theorem jsonSourceOf_first {before after : List Progress} {result : ClaudeCliResult}
    (h : resultsOf before = []) : jsonSourceOf (before ++ .result result :: after) result =
      if result.result != "" then result.result else deltas before := by
  unfold jsonSourceOf
  rw [List.takeWhile_append_of_pos, List.takeWhile_cons]
  · simp
  · intro event hmem
    have hnone := List.filterMap_eq_nil_iff.mp h event hmem
    cases event with
    | result r => exact absurd hnone (Option.some_ne_none r)
    | _ => rfl

/-- The first result is answered. -/
theorem answered (ctx : ChatContext) {result : ClaudeCliResult} {results : List ClaudeCliResult}
    (h : resultsOf progress = result :: results) :
    EndedWith (answer ctx (jsonSourceOf progress result) result)
        (progress.foldl (onProgress ctx) start) ∧
      (progress.foldl (onProgress ctx) start).records =
        (result :: results).map (ctx.successRecord true) := by
  obtain ⟨before, after, rfl, hbefore, rfl⟩ := exists_first_result h
  rw [List.foldl_append, List.foldl_cons, jsonSourceOf_first hbefore]
  have hquiet := quiet_foldl ctx hbefore
  generalize before.foldl (onProgress ctx) start = s at hquiet
  have hanswer : s.onProgress ctx (.result result) = { s with
      isComplete := true
      records := s.records ++ [ctx.successRecord true result] }.finish (answer ctx
        (if result.result != "" then result.result else deltas before) result) := by
    have hsource : answer ctx (s.jsonSource result) result = answer ctx
        (if result.result != "" then result.result else deltas before) result := by
      unfold answer
      cases hjson : ctx.jsonMode with
      | false => rfl
      | true => rw [jsonSource, hquiet.jsonBuffer hjson]
    rw [← hsource]
    rfl
  have hended := endedWith_finish (s := { s with
      isComplete := true
      records := s.records ++ [ctx.successRecord true result] })
    hquiet.writableEnded hquiet.ends hquiet.plain (answer ctx
      (if result.result != "" then result.result else deltas before) result)
  rw [← hanswer] at hended
  obtain ⟨hfold, hrecords⟩ := hended.foldl ctx after
  refine ⟨hfold, hrecords.trans ?_⟩
  rw [hanswer, finish_records, hquiet.records]
  rfl

/-! ## Whole answers -/

/-- The usage records that a streaming answer leaves. -/
def recordsOf (ctx : ChatContext) : RunTrace → List UsageRecord
  | .rejected _ | .refused _ => [ctx.failureRecord true]
  | .runs progress ending =>
    (resultsOf progress).map (ctx.successRecord true) ++ match ending with
      | .fails _ _ => [ctx.failureRecord true]
      | _ => []

/-- The chunks that a stream ends with, `none` if it does not end. -/
def endOf (ctx : ChatContext) : RunTrace → Option (List Chunk)
  | .rejected message => some [.error (ctx.errorBody ⟨message, none⟩)]
  | .refused error => some [.error (ctx.errorBody error)]
  | .runs progress ending =>
    match resultsOf progress with
    | result :: _ => some (answer ctx (jsonSourceOf progress result) result)
    | [] =>
      match ending with
      | .hangs => none
      | .closes => some [.done]
      | .fails error _ => some [.error (ctx.errorBody error)]

theorem EndedWith.onClose {chunks : List Chunk} (H : EndedWith chunks s) (code : Int) :
    s.onClose code = s := H.finish _

theorem Quiet.onError (H : Quiet ctx progress s) (error : RunError) :
    EndedWith [.error (ctx.errorBody error)] (s.onError ctx error) ∧
      (s.onError ctx error).records = [ctx.failureRecord true] := by
  have hended : EndedWith [.error (ctx.errorBody error)] (s.onError ctx error) :=
    endedWith_finish (s := { s with
      isComplete := true
      records := s.records ++ [ctx.failureRecord true] }) H.writableEnded H.ends H.plain _
  refine ⟨hended, ?_⟩
  unfold Streaming.onError
  rw [finish_records, H.records]
  rfl

theorem EndedWith.onError {chunks : List Chunk} (H : EndedWith chunks s) (ctx : ChatContext)
    (error : RunError) : EndedWith chunks (s.onError ctx error) ∧
      (s.onError ctx error).records = s.records ++ [ctx.failureRecord true] := by
  have hended : EndedWith chunks { s with
      isComplete := true
      records := s.records ++ [ctx.failureRecord true] } := ⟨H.ends, H.writableEnded, H.body⟩
  unfold Streaming.onError
  rw [hended.finish]
  exact ⟨hended, rfl⟩

/-- What a connected client is sent, and what is recorded. -/
structure Answered (ctx : ChatContext) (trace : RunTrace) (s : Streaming) : Prop where
  records : s.records = recordsOf ctx trace
  ended : ∀ chunks, endOf ctx trace = some chunks → EndedWith chunks s
  running : endOf ctx trace = none → s.ends = 0 ∧ ∀ c ∈ s.body, c.isPlain = true

theorem EndedWith.answered {trace : RunTrace} {chunks : List Chunk} (H : EndedWith chunks s)
    (hend : endOf ctx trace = some chunks) (hrecords : s.records = recordsOf ctx trace) :
    Answered ctx trace s := by
  refine ⟨hrecords, fun chunks' h => ?_, fun h => ?_⟩
  · exact Option.some.inj (hend.symm.trans h) ▸ H
  · exact absurd (hend.symm.trans h) (Option.some_ne_none chunks)

/-- The ending of a run that has emitted a result. -/
theorem EndedWith.ending {chunks : List Chunk} (H : EndedWith chunks s) (ctx : ChatContext)
    (ending : Ending) : EndedWith chunks (ending.signals.foldl (on ctx) s) ∧
      (ending.signals.foldl (on ctx) s).records = s.records ++ match ending with
        | .fails _ _ => [ctx.failureRecord true]
        | _ => [] := by
  cases ending with
  | hangs => exact ⟨H, (List.append_nil _).symm⟩
  | closes =>
    show EndedWith chunks (s.onClose 0) ∧ (s.onClose 0).records = _
    rw [H.onClose]
    exact ⟨H, (List.append_nil _).symm⟩
  | fails error code =>
    obtain ⟨hfailed, hrecords⟩ := H.onError ctx error
    show EndedWith chunks ((s.onError ctx error).onClose code) ∧
      ((s.onError ctx error).onClose code).records = _
    rw [hfailed.onClose]
    exact ⟨hfailed, hrecords⟩

/-- The ending of a run that has not. -/
theorem Quiet.ending (H : Quiet ctx progress s) (hresults : resultsOf progress = [])
    (ending : Ending) : Answered ctx (.runs progress ending) (ending.signals.foldl (on ctx) s) := by
  have hrecords : recordsOf ctx (.runs progress ending) = match ending with
      | .fails _ _ => [ctx.failureRecord true]
      | _ => [] := by
    unfold recordsOf
    dsimp only
    rw [hresults]
    rfl
  cases ending with
  | hangs =>
    have hend : endOf ctx (.runs progress .hangs) = none := by simp [endOf, hresults]
    refine ⟨H.records.trans hrecords.symm, fun chunks h => ?_, fun _ => ⟨H.ends, H.plain⟩⟩
    exact absurd (h.symm.trans hend) (Option.some_ne_none chunks)
  | closes =>
    have hend : endOf ctx (.runs progress .closes) = some [.done] := by simp [endOf, hresults]
    have hended : EndedWith [.done] (s.onClose 0) :=
      endedWith_finish H.writableEnded H.ends H.plain [.done]
    refine hended.answered hend ?_
    rw [hrecords, Streaming.onClose, finish_records]
    exact H.records
  | fails error code =>
    have hend : endOf ctx (.runs progress (.fails error code)) =
        some [.error (ctx.errorBody error)] := by simp [endOf, hresults]
    obtain ⟨hfailed, hfailure⟩ := H.onError error
    show Answered ctx _ ((s.onError ctx error).onClose code)
    rw [hfailed.onClose]
    exact hfailed.answered hend (hfailure.trans hrecords.symm)

theorem answered_handle (ctx : ChatContext) (trace : RunTrace) :
    Answered ctx trace (handleStreamingResponse ctx trace .stays) := by
  have hstart : Quiet ctx [] start := .start
  cases trace with
  | rejected message =>
    obtain ⟨hended, hrecords⟩ := hstart.onError ⟨message, none⟩
    exact hended.answered rfl hrecords
  | refused error =>
    obtain ⟨hended, hrecords⟩ := hstart.onError error
    show Answered ctx _ ((start.onError ctx error).onClose 1)
    rw [hended.onClose]
    exact hended.answered rfl hrecords
  | runs progress ending =>
    show Answered ctx _ ((progress.map Signal.progress ++ ending.signals).foldl (on ctx) start)
    rw [List.foldl_append, List.foldl_map]
    show Answered ctx _ (ending.signals.foldl (on ctx) (progress.foldl (onProgress ctx) start))
    cases hresults : resultsOf progress with
    | nil => exact (quiet_foldl ctx hresults).ending hresults ending
    | cons result results =>
      obtain ⟨hended, hrecords⟩ := answered ctx hresults
      obtain ⟨hended', hrecords'⟩ := hended.ending ctx ending
      refine hended'.answered (by simp [endOf, hresults]) (hrecords'.trans ?_)
      rw [hrecords, ← hresults]
      rfl

/-! ## A client that disconnects -/

/-- A stream but for whether its run was killed. -/
def forget (s : Streaming) : Streaming := { s with killed := false }

theorem finish_forget (s : Streaming) (chunks : List Chunk) :
    (s.finish chunks).forget = (s.forget.finish chunks).forget := by
  rcases s with ⟨isFirst, isComplete, jsonBuffer, narrated, body, writableEnded, ends, killed, records⟩
  cases writableEnded <;> rfl

theorem onProgress_forget (s : Streaming) (event : Progress) :
    (s.onProgress ctx event).forget = (s.forget.onProgress ctx event).forget := by
  rcases s with ⟨isFirst, isComplete, jsonBuffer, narrated, body, writableEnded, ends, killed, records⟩
  cases event with
  | contentDelta text =>
    unfold Streaming.onProgress forget
    dsimp only
    split
    next => rfl
    next => split <;> rfl
  | toolEvent event =>
    unfold Streaming.onProgress forget
    dsimp only
    split <;> rfl
  | result result => exact finish_forget _ _
  | other => rfl

theorem on_forget (s : Streaming) (signal : Signal) :
    (s.on ctx signal).forget = (s.forget.on ctx signal).forget := by
  cases signal with
  | progress event => exact s.onProgress_forget event
  | error error | rejected message => exact finish_forget _ _
  | close code => exact finish_forget _ _
  | disconnect => rfl

theorem foldl_forget (signals : List Signal) {s t : Streaming} (h : s.forget = t.forget) :
    (signals.foldl (on ctx) s).forget = (signals.foldl (on ctx) t).forget := by
  induction signals generalizing s t with
  | nil => exact h
  | cons signal signals ih =>
    refine ih ?_
    rw [on_forget s, h, ← on_forget t]

/-- What is written and recorded does not depend on the client. -/
theorem handle_forget (ctx : ChatContext) (trace : RunTrace) (client : Client) :
    (handleStreamingResponse ctx trace client).forget =
      (handleStreamingResponse ctx trace .stays).forget := by
  cases client with
  | stays => rfl
  | leaves after =>
    have hsplit : handleStreamingResponse ctx trace .stays =
        (trace.signals.take after ++ trace.signals.drop after).foldl (on ctx) start := by
      rw [List.take_append_drop]
      rfl
    rw [hsplit, List.foldl_append]
    unfold handleStreamingResponse Client.signals
    dsimp only
    rw [List.foldl_append, List.foldl_append]
    exact foldl_forget _ rfl

end Streaming

end CliProxy.Server
