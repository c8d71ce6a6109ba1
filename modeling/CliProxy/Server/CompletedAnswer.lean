import CliProxy.Server.StreamedAnswer

/-! # What an answer consists of that is not streamed

Until the run ends nothing is answered (`Waiting`). Records are only added, and after a response
no other one is sent (`Grows`). -/

namespace CliProxy.Server

open Adapter (RunError)
open Usage (ClaudeCliResult)

namespace NonStreaming

variable {http : Http} {ctx : ChatContext} {s t u : NonStreaming} {progress : List Progress}
  {closed : Bool}

/-! ## Every signal -/

structure Grows (s t : NonStreaming) : Prop where
  records : s.records <+: t.records
  ended : s.ended = true → t.ended = true ∧ t.responses = s.responses

namespace Grows

theorem refl (s : NonStreaming) : Grows s s := ⟨List.prefix_rfl, fun h => ⟨h, rfl⟩⟩

theorem trans (H : Grows s t) (H' : Grows t u) : Grows s u := by
  refine ⟨H.records.trans H'.records, fun h => ?_⟩
  obtain ⟨hended, hresponses⟩ := H.ended h
  obtain ⟨hended', hresponses'⟩ := H'.ended hended
  exact ⟨hended', hresponses'.trans hresponses⟩

theorem json (s : NonStreaming) (response : Response) : Grows s (s.json response).1 := by
  unfold NonStreaming.json
  split
  next => exact .refl s
  next h => exact ⟨List.prefix_rfl, fun h' => absurd h' h⟩

theorem record (s : NonStreaming) (isComplete : Bool) (record : UsageRecord) :
    Grows s { s with isComplete, records := s.records ++ [record] } :=
  ⟨List.prefix_append .., fun h => ⟨h, rfl⟩⟩

theorem on (http : Http) (ctx : ChatContext) (s : NonStreaming) (signal : Signal) :
    Grows s (s.on http ctx signal).1 := by
  cases signal with
  | progress event =>
    cases event with
    | toolEvent event =>
      show Grows s (if ctx.surfaceTools then _ else _)
      split
      next => exact ⟨List.prefix_rfl, fun h => ⟨h, rfl⟩⟩
      next => exact .refl s
    | contentDelta text => exact .refl s
    | result result => exact ⟨List.prefix_rfl, fun h => ⟨h, rfl⟩⟩
    | other => exact .refl s
  | error error =>
    have hrecord := record s true (ctx.failureRecord false)
    show Grows s (s.onError http ctx error).1
    unfold onError
    dsimp only
    split
    next => exact hrecord.trans (json ..)
    next => exact hrecord
  | close code =>
    show Grows s (s.onClose http ctx code).1
    unfold onClose
    dsimp only
    split
    next result _ =>
      have hrecord := record s true (ctx.successRecord false result)
      split
      next => exact hrecord.trans (json ..)
      next => exact hrecord
    next =>
      split
      next => exact (record s true (ctx.failureRecord false)).trans (json ..)
      next => exact ⟨List.prefix_rfl, fun h => ⟨h, rfl⟩⟩
  | disconnect => exact ⟨List.prefix_rfl, fun h => ⟨h, rfl⟩⟩
  | rejected message => exact json ..

theorem recover (http : Http) (ctx : ChatContext) (s : NonStreaming) (signals : List Signal) :
    Grows s (NonStreaming.recover http ctx s signals) := by
  induction signals generalizing s with
  | nil => exact .refl s
  | cons signal signals ih =>
    have hon := on http ctx s signal
    unfold NonStreaming.recover
    split
    next heq =>
      rw [heq] at hon
      exact hon.trans (ih _)
    next heq =>
      rw [heq] at hon
      exact hon

theorem handle (http : Http) (ctx : ChatContext) (s : NonStreaming) (signals : List Signal) :
    Grows s (NonStreaming.handle http ctx s signals) := by
  induction signals generalizing s with
  | nil => exact .refl s
  | cons signal signals ih =>
    have hon := on http ctx s signal
    unfold NonStreaming.handle
    split
    next heq =>
      rw [heq] at hon
      exact hon.trans (ih _)
    next heq =>
      rw [heq] at hon
      exact hon.trans (recover ..)

end Grows

/-! ## Before the run ends -/

/-- Nothing was answered yet, and the client has disconnected or not. -/
structure Waiting (progress : List Progress) (closed : Bool) (s : NonStreaming) : Prop where
  finalResult : s.finalResult = (resultsOf progress).getLast?
  ended : s.ended = false
  closed : s.closed = closed
  responses : s.responses = []
  records : s.records = []

theorem Waiting.start : Waiting [] false .start := ⟨rfl, rfl, rfl, rfl, rfl⟩

theorem Waiting.onProgress (H : Waiting progress closed s) (ctx : ChatContext) (event : Progress) :
    Waiting (progress ++ [event]) closed (s.onProgress ctx event) := by
  have hlast : (resultsOf (progress ++ [event])).getLast? =
      (resultsOf [event]).getLast?.or (resultsOf progress).getLast? := by
    rw [resultsOf_append, List.getLast?_append]
  cases event with
  | toolEvent event =>
    show Waiting _ closed (if ctx.surfaceTools then _ else _)
    split <;> exact ⟨H.finalResult.trans hlast.symm, H.ended, H.closed, H.responses, H.records⟩
  | result result => exact ⟨hlast.symm, H.ended, H.closed, H.responses, H.records⟩
  | contentDelta text | other => exact { H with finalResult := H.finalResult.trans hlast.symm }

theorem Waiting.foldl (H : Waiting progress closed s) (ctx : ChatContext)
    (more : List Progress) :
    Waiting (progress ++ more) closed (more.foldl (NonStreaming.onProgress ctx) s) := by
  induction more generalizing progress s with
  | nil => exact (List.append_nil progress).symm ▸ H
  | cons event more ih =>
    rw [List.append_cons]
    exact ih (H.onProgress ctx event)

/-- The state of a handler whose client has disconnected. -/
def disconnected (s : NonStreaming) : NonStreaming :=
  { s with killed := s.killed || !s.isComplete, closed := true }

theorem Waiting.disconnected (H : Waiting progress closed s) : Waiting progress true s.disconnected :=
  { H with closed := rfl }

theorem handle_progress (http : Http) (ctx : ChatContext) (s : NonStreaming)
    (progress : List Progress) (signals : List Signal) :
    handle http ctx s (progress.map .progress ++ signals) =
      handle http ctx (progress.foldl (onProgress ctx) s) signals := by
  induction progress generalizing s with
  | nil => rfl
  | cons event progress ih => exact ih (s.onProgress ctx event)

theorem handle_disconnect (http : Http) (ctx : ChatContext) (s : NonStreaming)
    (signals : List Signal) :
    handle http ctx s (.disconnect :: signals) = handle http ctx s.disconnected signals := rfl

end NonStreaming

/-- The client disconnects before the run ends. -/
def Client.leavesDuring (client : Client) (progress : List Progress) : Bool :=
  match client with
  | stays => false
  | leaves after => after ≤ progress.length

namespace NonStreaming

variable {http : Http} {ctx : ChatContext} {s : NonStreaming} {progress : List Progress}

/-- The handler once the run has only its ending to emit; the client may disconnect in it. -/
theorem waiting_handle (http : Http) (ctx : ChatContext) (progress : List Progress)
    (ending : Ending) (client : Client) :
    ∃ s signals, Waiting progress (client.leavesDuring progress) s ∧
      handleNonStreamingResponse http ctx (.runs progress ending) client =
        handle http ctx s signals ∧
      (signals = ending.signals ∨ client.leavesDuring progress = false ∧ ∃ n, signals =
        ending.signals.take (n + 1) ++ [.disconnect] ++ ending.signals.drop (n + 1)) := by
  cases client with
  | stays =>
    refine ⟨_, ending.signals, Waiting.start.foldl ctx progress, ?_, .inl rfl⟩
    exact handle_progress http ctx .start progress ending.signals
  | leaves after =>
    by_cases hduring : after ≤ progress.length
    · refine ⟨(progress.drop after).foldl (onProgress ctx)
          ((progress.take after).foldl (onProgress ctx) start).disconnected, ending.signals,
        ?_, ?_, .inl rfl⟩
      · have hclosed : (Client.leaves after).leavesDuring progress = true := by
          simp [Client.leavesDuring, hduring]
        have hdropped := (Waiting.start.foldl ctx (progress.take after)).disconnected.foldl ctx
          (progress.drop after)
        rw [List.nil_append, List.take_append_drop] at hdropped
        exact hclosed.symm ▸ hdropped
      · have hlength : after ≤ (progress.map Signal.progress).length := by
          rw [List.length_map]
          exact hduring
        unfold handleNonStreamingResponse Client.signals RunTrace.signals
        dsimp only
        rw [List.take_append_of_le_length hlength, List.drop_append_of_le_length hlength,
          ← List.map_take, ← List.map_drop, List.append_assoc, handle_progress,
          List.singleton_append, handle_disconnect, handle_progress]
    · obtain ⟨n, rfl⟩ : ∃ n, after = progress.length + (n + 1) :=
        ⟨after - progress.length - 1, by omega⟩
      have hclosed : (Client.leaves (progress.length + (n + 1))).leavesDuring progress = false := by
        simp [Client.leavesDuring]
      refine ⟨_, _, hclosed.symm ▸ Waiting.start.foldl ctx progress, ?_, .inr ⟨hclosed, n, rfl⟩⟩
      unfold handleNonStreamingResponse Client.signals RunTrace.signals
      dsimp only
      rw [← List.length_map (f := Signal.progress), List.take_length_add_append,
        List.drop_length_add_append, List.append_assoc, List.append_assoc, handle_progress,
        List.append_assoc]

/-! ## The ending -/

variable {closed : Bool}

theorem json_open (h : s.ended = false) (response : Response) : s.json response =
    ({ s with ended := true, responses := s.responses ++ [response] }, true) := by
  unfold json
  rw [h]
  rfl

/-- The run closes with a result. -/
theorem Waiting.close_some (H : Waiting progress closed s) (http : Http) (ctx : ChatContext)
    {result : ClaudeCliResult} (hlast : (resultsOf progress).getLast? = some result) (code : Int) :
    ∃ t, s.onClose http ctx code = (t, true) ∧ t.records = [ctx.successRecord false result] ∧
      t.responses = if http.writable false closed then [s.completion ctx result] else [] := by
  have hwritable : writable http { s with
      isComplete := true
      records := s.records ++ [ctx.successRecord false result] } = http.writable false closed := by
    unfold writable
    rw [H.ended, H.closed]
  unfold onClose
  dsimp only
  split
  next last hfinal =>
    obtain rfl := Option.some.inj (hfinal.symm.trans (H.finalResult.trans hlast))
    rw [hwritable, json_open]
    · cases http.writable false closed with
      | true => exact ⟨_, rfl, by rw [H.records]; rfl, by rw [H.responses]; rfl⟩
      | false => exact ⟨_, rfl, by rw [H.records]; rfl, H.responses⟩
    · exact H.ended
  next hfinal => exact absurd (hlast.symm.trans (H.finalResult.symm.trans hfinal)) (Option.some_ne_none _)

/-- The run closes without one. -/
theorem Waiting.close_none (H : Waiting progress closed s) (http : Http) (ctx : ChatContext)
    (hnone : resultsOf progress = []) (code : Int) :
    ∃ t, s.onClose http ctx code = (t, true) ∧
      t.records = (if http.writable false closed then [ctx.failureRecord false] else []) ∧
      t.responses = if http.writable false closed then [.failure 500 (ChatContext.serverError
        s!"CLI exited with code {code} without response")] else [] := by
  have hsend : (!s.ended && writable http { s with isComplete := true }) =
      http.writable false closed := by
    unfold writable
    rw [H.ended, H.closed]
    rfl
  unfold onClose
  dsimp only
  split
  next last hfinal =>
    rw [H.finalResult, hnone] at hfinal
    exact absurd hfinal.symm (Option.some_ne_none last)
  next =>
    rw [hsend, json_open]
    · cases http.writable false closed with
      | true => exact ⟨_, rfl, by rw [H.records]; rfl, by rw [H.responses]; rfl⟩
      | false => exact ⟨_, rfl, H.records, H.responses⟩
    · exact H.ended

/-- The run fails. -/
theorem Waiting.error (H : Waiting progress closed s) (http : Http) (ctx : ChatContext)
    (error : RunError) :
    ∃ t, s.onError http ctx error = (t, true) ∧ t.records = [ctx.failureRecord false] ∧
      t.finalResult = (resultsOf progress).getLast? ∧ t.closed = closed ∧
      t.ended = http.writable false closed ∧
      t.responses = if http.writable false closed then
        [.failure (ChatContext.errorStatus error) (ctx.errorBody error)] else [] := by
  have hwritable : writable http { s with
      isComplete := true
      records := s.records ++ [ctx.failureRecord false] } = http.writable false closed := by
    unfold writable
    rw [H.ended, H.closed]
  unfold onError
  dsimp only
  rw [hwritable, json_open]
  · cases http.writable false closed with
    | true =>
      exact ⟨_, rfl, by rw [H.records]; rfl, H.finalResult, H.closed, rfl,
        by rw [H.responses]; rfl⟩
    | false =>
      exact ⟨_, rfl, by rw [H.records]; rfl, H.finalResult, H.closed, H.ended, H.responses⟩
  · exact H.ended

/-- Nothing is added by the `close` of a failed run without a result. -/
theorem close_failed (http : Http) (ctx : ChatContext) (hfinal : s.finalResult = none)
    (hended : s.ended = false → http.writable false s.closed = false) (code : Int) :
    s.onClose http ctx code = ({ s with isComplete := true }, true) := by
  have hskip : (!s.ended && writable http { s with isComplete := true }) = false := by
    cases h : s.ended with
    | true => rfl
    | false =>
      exact hended h
  unfold onClose
  dsimp only
  split
  next last hsome => exact absurd (hsome.symm.trans hfinal) (Option.some_ne_none last)
  next => rw [if_neg (Bool.eq_false_iff.mp hskip)]

/-- The signals of an ending, with a disconnect of the client or without. -/
def endings (ending : Ending) (closed : Bool) : List (List Signal) :=
  match ending with
  | .hangs => if closed then [[]] else [[], [.disconnect]]
  | .closes => if closed then [[.close 0]] else [[.close 0], [.close 0, .disconnect]]
  | .fails error code =>
    if closed then [[.error error, .close code]]
    else [[.error error, .close code], [.error error, .disconnect, .close code],
      [.error error, .close code, .disconnect]]

theorem mem_endings {ending : Ending} {signals : List Signal}
    (h : signals = ending.signals ∨ closed = false ∧ ∃ n, signals =
      ending.signals.take (n + 1) ++ [.disconnect] ++ ending.signals.drop (n + 1)) :
    signals ∈ endings ending closed := by
  obtain rfl | ⟨rfl, n, rfl⟩ := h
  · cases ending <;> cases closed <;> simp [endings, Ending.signals]
  · cases ending with
    | hangs | closes => simp [endings, Ending.signals]
    | fails error code => cases n <;> simp [endings, Ending.signals]

theorem handle_close {t : NonStreaming} {code : Int} (h : s.onClose http ctx code = (t, true))
    (signals : List Signal) :
    handle http ctx s (.close code :: signals) = handle http ctx t signals := by
  rw [handle, on, h]

theorem handle_error {t : NonStreaming} {error : RunError}
    (h : s.onError http ctx error = (t, true)) (signals : List Signal) :
    handle http ctx s (.error error :: signals) = handle http ctx t signals := by
  rw [handle, on, h]

theorem Grows.cons (http : Http) (ctx : ChatContext) (s : NonStreaming) (signal : Signal)
    (signals : List Signal) :
    Grows (s.on http ctx signal).1 (NonStreaming.handle http ctx s (signal :: signals)) := by
  unfold NonStreaming.handle
  split
  next heq =>
    rw [heq]
    exact handle ..
  next heq =>
    rw [heq]
    exact recover ..

theorem json_records (s : NonStreaming) (response : Response) :
    (s.json response).1.records = s.records := by
  unfold json
  split <;> rfl

/-- A result is recorded when the run closes, answered or not. -/
theorem onClose_records {result : ClaudeCliResult} (h : s.finalResult = some result) (code : Int) :
    (s.onClose http ctx code).1.records = s.records ++ [ctx.successRecord false result] := by
  unfold onClose
  dsimp only
  split
  next last hlast =>
    obtain rfl := Option.some.inj (hlast.symm.trans h)
    split
    next => exact json_records ..
    next => rfl
  next hnone => exact absurd (h.symm.trans hnone) (Option.some_ne_none _)

variable {signals : List Signal}

/-- A run that hangs is not answered. -/
theorem Waiting.hangs (H : Waiting progress closed s) (hsignals : signals ∈ endings .hangs closed) :
    (handle http ctx s signals).records = [] ∧ (handle http ctx s signals).responses = [] := by
  have hcases : signals = [] ∨ signals = [.disconnect] := by
    cases closed <;> simp_all [endings]
  obtain rfl | rfl := hcases
  · exact ⟨H.records, H.responses⟩
  · exact ⟨H.records, H.responses⟩

/-- A run that closes, with its last result or without one. -/
theorem handle_closes {t : NonStreaming} (h : s.onClose http ctx 0 = (t, true))
    (hsignals : signals ∈ endings .closes closed) :
    (handle http ctx s signals).records = t.records ∧
      (handle http ctx s signals).responses = t.responses := by
  have hcases : signals = [.close 0] ∨ signals = [.close 0, .disconnect] := by
    cases closed <;> simp_all [endings]
  obtain rfl | rfl := hcases
  · rw [handle_close h]
    exact ⟨rfl, rfl⟩
  · rw [handle_close h]
    exact ⟨rfl, rfl⟩

theorem fails_cases {error : RunError} {code : Int}
    (hsignals : signals ∈ endings (.fails error code) closed) :
    ∃ rest, signals = .error error :: rest ∧ (rest = [.close code] ∨ rest = [.close code, .disconnect] ∨
      closed = false ∧ rest = [.disconnect, .close code]) := by
  cases closed with
  | true =>
    obtain rfl := List.mem_singleton.mp hsignals
    exact ⟨_, rfl, .inl rfl⟩
  | false =>
    have hcases : signals = [.error error, .close code] ∨
        signals = [.error error, .disconnect, .close code] ∨
        signals = [.error error, .close code, .disconnect] := by
      simpa [endings] using hsignals
    obtain rfl | rfl | rfl := hcases
    · exact ⟨_, rfl, .inl rfl⟩
    · exact ⟨_, rfl, .inr (.inr ⟨rfl, rfl⟩)⟩
    · exact ⟨_, rfl, .inr (.inl rfl)⟩

/-- A run that fails without a result. -/
theorem Waiting.fails_none (H : Waiting progress closed s) (hnone : resultsOf progress = [])
    {error : RunError} {code : Int} (hsignals : signals ∈ endings (.fails error code) closed) :
    (handle http ctx s signals).records = [ctx.failureRecord false] ∧
      (handle http ctx s signals).responses = if http.writable false closed then
        [.failure (ChatContext.errorStatus error) (ctx.errorBody error)] else [] := by
  obtain ⟨t, herror, hrecords, hfinal, hclosed, hended, hresponses⟩ := H.error http ctx error
  obtain ⟨rest, rfl, hrest⟩ := fails_cases hsignals
  rw [handle_error herror, ← hrecords, ← hresponses]
  have hfinal' : t.finalResult = none := by rw [hfinal, hnone]; rfl
  have hskip : t.ended = false → http.writable false closed = false := fun h => hended.symm.trans h
  have hclose := close_failed http ctx hfinal' (hclosed.symm ▸ hskip) code
  obtain rfl | rfl | ⟨rfl, rfl⟩ := hrest
  · rw [handle_close hclose]
    exact ⟨rfl, rfl⟩
  · rw [handle_close hclose]
    exact ⟨rfl, rfl⟩
  · have hopen : t.ended = true := hended.trans http.open_writable
    have hclose' := close_failed http ctx (s := t.disconnected) hfinal'
      (fun h => absurd (hopen.symm.trans h).symm Bool.false_ne_true) code
    rw [handle_disconnect, handle_close hclose']
    exact ⟨rfl, rfl⟩

/-- A run that fails after a result leaves two records. -/
theorem Waiting.fails_some (H : Waiting progress closed s) {result : ClaudeCliResult}
    (hlast : (resultsOf progress).getLast? = some result) {error : RunError} {code : Int}
    (hsignals : signals ∈ endings (.fails error code) closed) :
    2 ≤ (handle http ctx s signals).records.length := by
  obtain ⟨t, herror, hrecords, hfinal, -, -, -⟩ := H.error http ctx error
  obtain ⟨rest, rfl, hrest⟩ := fails_cases hsignals
  rw [handle_error herror]
  have hclose : ∀ {u : NonStreaming}, u.finalResult = some result →
      u.records = [ctx.failureRecord false] → ∀ signals,
        2 ≤ (handle http ctx u (.close code :: signals)).records.length := by
    intro u hu hone signals
    have hlength := (Grows.cons http ctx u (.close code) signals).records.length_le
    have hon : (u.on http ctx (.close code)).1.records = _ := onClose_records hu code
    rw [hon, hone] at hlength
    exact hlength
  have hfinal' := hfinal.trans hlast
  obtain rfl | rfl | ⟨-, rfl⟩ := hrest
  · exact hclose hfinal' hrecords _
  · exact hclose hfinal' hrecords _
  · rw [handle_disconnect]
    exact hclose (u := t.disconnected) hfinal' hrecords _

end NonStreaming

end CliProxy.Server
