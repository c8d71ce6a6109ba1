import CliProxy.Adapter.PaperclipRunner

/-! # How a run ends

Reading a line emits only progress (`Advances`); `error` and `close` come from the handlers for
the settlement of `execute`. Both handlers flush the parser first, so the rest of the output
decides alone whether a run ends. -/

namespace CliProxy.Adapter

namespace RunnerEvent

def isError : RunnerEvent → Bool
  | .error _ => true
  | _ => false

def isClose : RunnerEvent → Bool
  | .close _ => true
  | _ => false

def isProgress (event : RunnerEvent) : Bool := !event.isError && !event.isClose

end RunnerEvent

/-! ## The lines that throw -/

/-- `onResult` throws. -/
def resultThrows (result : Json) : Bool :=
  !Runner.usagePrintable result
    || Runner.isErrorLine result && (Runner.inBandText result).isNone

/-- A message that `StreamJsonParser` throws on. -/
def messageThrows (message : Json) : Bool :=
  Json.nullish (some message)
    || Json.isStr (message.get "type") "stream_event" && Json.nullish (message.get "event")
    || Json.isStr (message.get "type") "result" && resultThrows message

/-- An event that `CodexJsonlParser` throws on. -/
def codexEventThrows (clips : Json → Bool) (event : Json) : Bool :=
  Json.nullish (some event)
    || match Runner.itemOf event with
      | some (phase, item) => (codexItemToToolEvent clips phase item).isNone
      | none => false

/-- A line of stdout that the parser throws on. -/
def malformed (cfg : RunnerConfig) (line : List Char) : Bool :=
  match Lib.trim line with
  | [] => false
  | trimmed =>
    match cfg.parse trimmed with
    | none => false
    | some value =>
      match cfg.outputMode with
      | .streamJson => messageThrows value
      | .codexJsonl => codexEventThrows cfg.clips value

theorem Json.isStr_inj {v : Option Json} {s t : String} (hs : Json.isStr v s = true)
    (ht : Json.isStr v t = true) : s = t := by
  cases v with
  | none => exact absurd hs Bool.false_ne_true
  | some v =>
    cases v with
    | str s' => exact (beq_iff_eq.mp hs).symm.trans (beq_iff_eq.mp ht)
    | _ => exact absurd hs Bool.false_ne_true

namespace Runner

variable {cfg : RunnerConfig} {s t u : Runner}

theorem onResult_snd (s : Runner) (result : Json) :
    (s.onResult result).2 = !resultThrows result := by
  unfold onResult resultThrows
  cases usagePrintable result with
  | false => rfl
  | true =>
    cases isErrorLine result with
    | false => rfl
    | true => cases inBandText result <;> rfl

theorem handleMessage_snd (s : Runner) (message : Json) :
    (s.handleMessage message).2 = !messageThrows message := by
  have hresult := (s.onMessage message).onResult_snd message
  unfold handleMessage messageThrows
  cases Json.nullish (some message) with
  | true => rfl
  | false =>
    cases hstream : Json.isStr (message.get "type") "stream_event" with
    | true =>
      have hother : Json.isStr (message.get "type") "result" = false := by
        rw [Bool.eq_false_iff]
        intro h
        exact absurd (Json.isStr_inj hstream h) (by decide)
      rw [hother]
      cases Json.nullish (message.get "event") with
      | true => rfl
      | false => cases Json.isStr ((message.get "event").bind (·.get "type")) _ <;> rfl
    | false =>
      cases hassistant : Json.isStr (message.get "type") "assistant" with
      | true =>
        have hother : Json.isStr (message.get "type") "result" = false := by
          rw [Bool.eq_false_iff]
          intro h
          exact absurd (Json.isStr_inj hassistant h) (by decide)
        rw [hother]
        rfl
      | false =>
        cases Json.isStr (message.get "type") "result" with
        | true => exact hresult
        | false => rfl

theorem handleItem_snd (clips : Json → Bool) (s : Runner) (event : Json) :
    (s.handleItem clips event).2 = !match itemOf event with
      | some (phase, item) => (codexItemToToolEvent clips phase item).isNone
      | none => false := by
  unfold handleItem
  cases itemOf event with
  | none => rfl
  | some item =>
    obtain ⟨phase, item⟩ := item
    unfold onItem
    dsimp only
    cases codexItemToToolEvent clips phase item with
    | none => rfl
    | some tool => cases tool <;> rfl

theorem handleCodexEvent_snd (clips : Json → Bool) (s : Runner) (event : Json) :
    (s.handleCodexEvent clips event).2 = !codexEventThrows clips event := by
  have hitem := s.handleItem_snd clips event
  unfold handleCodexEvent codexEventThrows
  cases Json.nullish (some event) with
  | true => rfl
  | false =>
    rw [Bool.false_or, ← hitem, if_neg Bool.false_ne_true]
    split
    next heq => rw [heq]
    next heq =>
      rw [heq]
      cases messageText event <;> rfl

theorem handleLine_snd (s : Runner) (line : List Char) :
    (s.handleLine cfg line).2 = !malformed cfg line := by
  unfold handleLine malformed
  cases Lib.trim line with
  | nil => rfl
  | cons c trimmed =>
    dsimp only
    cases cfg.parse (c :: trimmed) with
    | none => rfl
    | some value =>
      cases cfg.outputMode with
      | streamJson => exact s.handleMessage_snd value
      | codexJsonl => exact s.handleCodexEvent_snd cfg.clips value

/-! ## Reading emits progress -/

/-- Only progress is emitted, and what is read later is not touched. -/
structure Advances (s t : Runner) : Prop where
  buffer : t.buffer = s.buffer
  directories : t.directories = s.directories
  emitted : ∃ progress, t.emitted = s.emitted ++ progress ∧
    ∀ e ∈ progress, e.event.isProgress = true

namespace Advances

theorem refl (s : Runner) : Advances s s := ⟨rfl, rfl, [], (List.append_nil _).symm, by simp⟩

theorem trans (H : Advances s t) (H' : Advances t u) : Advances s u := by
  obtain ⟨progress, hp, hall⟩ := H.emitted
  obtain ⟨progress', hp', hall'⟩ := H'.emitted
  refine ⟨H'.buffer.trans H.buffer, H'.directories.trans H.directories, progress ++ progress',
    by rw [hp', hp, List.append_assoc], fun e he => ?_⟩
  exact (List.mem_append.mp he).elim (hall e) (hall' e)

theorem emit (s : Runner) {event : RunnerEvent} (h : event.isProgress = true) :
    Advances s (s.emit event) := by
  refine ⟨rfl, rfl, [⟨event, s.directories⟩], rfl, fun e he => ?_⟩
  obtain rfl := List.mem_singleton.mp he
  exact h

theorem emitAll (s : Runner) {events : List RunnerEvent}
    (h : ∀ event ∈ events, event.isProgress = true) : Advances s (s.emitAll events) := by
  induction events generalizing s with
  | nil => exact .refl s
  | cons event events ih =>
    exact (emit s (h event List.mem_cons_self)).trans
      (ih (s.emit event) fun e he => h e (List.mem_cons_of_mem _ he))

/-- The other fields do not matter. -/
theorem congr (H : Advances s t) (hbuffer : u.buffer = t.buffer)
    (hdirectories : u.directories = t.directories) (hemitted : u.emitted = t.emitted) :
    Advances s u := by
  obtain ⟨progress, hp, hall⟩ := H.emitted
  exact ⟨hbuffer.trans H.buffer, hdirectories.trans H.directories, progress, hemitted.trans hp, hall⟩

theorem onResult (s : Runner) (result : Json) : Advances s (s.onResult result).1 := by
  unfold Runner.onResult
  split
  next => exact .refl s
  next =>
    split
    next => split <;> exact (refl s).congr rfl rfl rfl
    next => exact .emit s rfl

theorem noteModel (s : Runner) (message : Json) : Advances s (s.noteModel message) := by
  unfold Runner.noteModel
  split
  next => exact (refl s).congr rfl rfl rfl
  next => exact refl s

theorem onMessage (s : Runner) (message : Json) : Advances s (s.onMessage message) := by
  have hnamed (t : Runner) (names : ToolNames) :
      Advances t { t.emit (.message message) with names } := (emit t rfl).congr rfl rfl rfl
  refine (noteModel s message).trans ((hnamed _ _).trans (emitAll _ fun event hmem => ?_))
  obtain ⟨tool, -, rfl⟩ := List.mem_map.mp hmem
  rfl

theorem handleMessage (s : Runner) (message : Json) : Advances s (s.handleMessage message).1 := by
  have hmessage := onMessage s message
  unfold Runner.handleMessage
  split
  next => exact .refl s
  next =>
    dsimp only
    split
    next =>
      split
      next => exact hmessage
      next =>
        split
        next => exact hmessage.trans (emit _ rfl)
        next => exact hmessage
    next =>
      split
      next => exact hmessage.trans (emit _ rfl)
      next =>
        split
        next => exact hmessage.trans (onResult _ message)
        next => exact hmessage

theorem onAgentMessage (s : Runner) (text : String) : Advances s (s.onAgentMessage text) := by
  unfold Runner.onAgentMessage
  split
  next => exact .refl s
  next =>
    have hstreamed : Advances s { s with codexStreamed := true } := (refl s).congr rfl rfl rfl
    exact hstreamed.trans (emit _ rfl)

theorem onItem (clips : Json → Bool) (s : Runner) (phase : ToolPhase) (item : Json) :
    Advances s (s.onItem clips phase item).1 := by
  unfold Runner.onItem
  split
  next => exact .refl s
  next => exact .refl s
  next => exact emit s rfl

theorem handleItem (clips : Json → Bool) (s : Runner) (event : Json) :
    Advances s (s.handleItem clips event).1 := by
  unfold Runner.handleItem
  split
  next => exact onItem ..
  next => exact .refl s

theorem handleCodexEvent (clips : Json → Bool) (s : Runner) (event : Json) :
    Advances s (s.handleCodexEvent clips event).1 := by
  have hitem := handleItem clips s event
  unfold Runner.handleCodexEvent
  split
  next => exact .refl s
  next =>
    split
    next heq =>
      rw [heq] at hitem
      exact hitem
    next heq =>
      rw [heq] at hitem
      split
      next => exact hitem.trans (onAgentMessage ..)
      next => exact hitem

theorem handleLine (s : Runner) (line : List Char) : Advances s (s.handleLine cfg line).1 := by
  unfold Runner.handleLine
  split
  next => exact .refl s
  next =>
    split
    next => exact emit s rfl
    next =>
      split
      next => exact handleMessage ..
      next => exact handleCodexEvent ..

theorem handleLines (s : Runner) (lines : List (List Char)) :
    Advances s (s.handleLines cfg lines) := by
  induction lines generalizing s with
  | nil => exact .refl s
  | cons line lines ih =>
    have hline := @handleLine cfg s line
    unfold Runner.handleLines
    split
    next s' heq =>
      rw [heq] at hline
      exact hline.trans (ih s')
    next s' heq =>
      rw [heq] at hline
      exact hline

end Advances

/-! ## Before the settlement -/

/-- `text` was read, and the run goes on. -/
structure HasRead (directories : List String) (text : List Char) (s : Runner) : Prop where
  buffer : s.buffer = Lib.lastLine text
  directories : s.directories = directories
  emitted : ∀ e ∈ s.emitted, e.event.isProgress = true

namespace HasRead

variable {directories : List String} {text : List Char}

theorem start : HasRead directories [] (start directories) :=
  ⟨rfl, rfl, fun _ h => absurd h List.not_mem_nil⟩

theorem advance (H : HasRead directories text s) (h : Advances s t) :
    HasRead directories text t := by
  obtain ⟨progress, hp, hall⟩ := h.emitted
  refine ⟨h.buffer.trans H.buffer, h.directories.trans H.directories, fun e he => ?_⟩
  rw [hp] at he
  exact (List.mem_append.mp he).elim (H.emitted e) (hall e)

theorem push (H : HasRead directories text s) (chunk : List Char) :
    HasRead directories (text ++ chunk) (s.push cfg chunk) := by
  have hbuffer : HasRead directories (text ++ chunk)
      { s with buffer := Lib.lastLine (s.buffer ++ chunk) } :=
    ⟨by rw [Lib.lastLine_append text, ← H.buffer], H.directories, H.emitted⟩
  exact hbuffer.advance (.handleLines _ _)

theorem pushAll (H : HasRead directories text s) (chunks : List (List Char)) :
    HasRead directories (text ++ chunks.flatten) (chunks.foldl (Runner.push cfg) s) := by
  induction chunks generalizing text s with
  | nil => exact (List.append_nil text).symm ▸ H
  | cons chunk chunks ih =>
    rw [List.flatten_cons, ← List.append_assoc]
    exact ih (H.push chunk)

/-- `flush` throws on a malformed rest, and keeps it. -/
theorem flush_malformed (H : HasRead directories text s)
    (h : malformed cfg (Lib.lastLine text) = true) :
    (s.flush cfg).2 = false ∧ HasRead directories text (s.flush cfg).1 := by
  have hline := @handleLine_snd cfg s s.buffer
  rw [H.buffer, h] at hline
  have hadvance := @Advances.handleLine cfg s s.buffer
  unfold Runner.flush
  rw [H.buffer] at hadvance ⊢
  split
  next heq =>
    rw [heq] at hline
    exact absurd hline.symm Bool.false_ne_true
  next heq =>
    rw [heq] at hadvance
    exact ⟨rfl, H.advance hadvance⟩

theorem flush_wellFormed (H : HasRead directories text s)
    (h : malformed cfg (Lib.lastLine text) = false) :
    (s.flush cfg).2 = true ∧ HasRead directories [] (s.flush cfg).1 := by
  have hline := @handleLine_snd cfg s s.buffer
  rw [H.buffer, h] at hline
  have hadvance := @Advances.handleLine cfg s s.buffer
  unfold Runner.flush
  rw [H.buffer] at hadvance ⊢
  split
  next heq =>
    rw [heq] at hadvance
    have hread := H.advance hadvance
    exact ⟨rfl, rfl, hread.directories, hread.emitted⟩
  next heq =>
    rw [heq] at hline
    exact absurd hline Bool.false_ne_true

end HasRead

/-! ## The settlement -/

/-- The directories are gone, and only the end of the run is left to emit. -/
structure Cleaned (s : Runner) : Prop where
  directories : s.directories = []
  emitted : ∀ e ∈ s.emitted, e.event.isProgress = true

/-- A run that has ended, with the events that ended it. -/
def Ended (s : Runner) (ending : List RunnerEvent) : Prop :=
  ∃ progress, s.emitted = progress ++ ending.map (⟨·, []⟩) ∧
    ∀ e ∈ progress, e.event.isProgress = true

theorem HasRead.cleaned {directories : List String} {text : List Char}
    (H : HasRead directories text s) : Cleaned s.cleanup := ⟨rfl, H.emitted⟩

theorem Cleaned.close (H : Cleaned s) (code : Int) :
    Ended (s.emit (.close code)) [.close code] :=
  ⟨s.emitted, by rw [← H.directories]; rfl, H.emitted⟩

theorem Cleaned.fail (H : Cleaned s) (error : RunError) (code : Int) :
    Ended ((s.emit (.error error)).emit (.close code)) [.error error, .close code] := by
  refine ⟨s.emitted, ?_, H.emitted⟩
  show s.emitted ++ [⟨_, s.directories⟩] ++ [⟨_, s.directories⟩] = _
  rw [H.directories, List.append_assoc]
  rfl

theorem emitCodexTerminal_advances (s : Runner) (result : AdapterExecutionResult) :
    Advances s (s.emitCodexTerminal result) := by
  unfold emitCodexTerminal
  dsimp only
  split
  next => exact (Advances.emit s rfl).trans (.emit _ rfl)
  next => exact .emit s rfl

/-- A run that does not fail has no exit code but 0. -/
theorem closeCode_eq_zero {result : AdapterExecutionResult} (h : isErrorResult result = false) :
    result.exitCode.getD (if result.timedOut then 124 else 0) = 0 := by
  simp only [isErrorResult, Bool.or_eq_false_iff, bne_eq_false_iff_eq] at h
  obtain ⟨⟨⟨-, htimedOut⟩, -⟩, hexit⟩ := h
  rw [htimedOut]
  exact hexit

section Settled

variable {directories : List String} {text : List Char}

theorem settle_malformed (H : HasRead directories text s)
    (h : malformed cfg (Lib.lastLine text) = true) (settlement : Settlement) :
    (s.settle cfg settlement).2 = false ∧ HasRead directories text (s.settle cfg settlement).1 := by
  have hrejected : ∀ {t : Runner}, HasRead directories text t → ∀ message,
      (t.onRejected cfg message).2 = false ∧
        HasRead directories text (t.onRejected cfg message).1 := by
    intro t ht message
    obtain ⟨hflush, hread⟩ := ht.flush_malformed h
    unfold onRejected
    split
    next heq =>
      rw [heq] at hread
      exact ⟨rfl, hread⟩
    next heq =>
      rw [heq] at hflush
      exact absurd hflush.symm Bool.false_ne_true
  cases settlement with
  | rejected message => exact hrejected H message
  | resolved result =>
    obtain ⟨hflush, hread⟩ := H.flush_malformed h
    have hresolved : s.onResolved cfg result = ((s.flush cfg).1, false) := by
      unfold onResolved
      split
      next heq => rw [heq]
      next heq =>
        rw [heq] at hflush
        exact absurd hflush.symm Bool.false_ne_true
    unfold settle
    dsimp only
    rw [hresolved]
    exact hrejected hread "TypeError"

theorem settle_wellFormed (H : HasRead directories text s)
    (h : malformed cfg (Lib.lastLine text) = false) (settlement : Settlement) :
    (s.settle cfg settlement).2 = true ∧
      (Ended (s.settle cfg settlement).1 [.close 0] ∨
        ∃ error code, Ended (s.settle cfg settlement).1 [.error error, .close code]) := by
  obtain ⟨hflush, hread⟩ := H.flush_wellFormed h
  cases settlement with
  | rejected message =>
    unfold settle onRejected
    dsimp only
    split
    next heq =>
      rw [heq] at hflush
      exact absurd hflush Bool.false_ne_true
    next t heq =>
      rw [heq] at hread
      exact ⟨rfl, .inr ⟨_, _, hread.cleaned.fail ⟨message, none⟩ 1⟩⟩
  | resolved result =>
    have hresolved : (s.onResolved cfg result).2 = true ∧
        (Ended (s.onResolved cfg result).1 [.close 0] ∨
          ∃ error code, Ended (s.onResolved cfg result).1 [.error error, .close code]) := by
      unfold onResolved
      split
      next heq =>
        rw [heq] at hflush
        exact absurd hflush Bool.false_ne_true
      next t heq =>
        rw [heq] at hread
        dsimp only
        generalize hfailed : (t.streamErrored || isErrorResult result) = failed
        have hterminal : HasRead directories [] (if cfg.outputMode = .codexJsonl ∧ (!failed) = true
            then t.emitCodexTerminal result else t) := by
          split
          next => exact hread.advance (emitCodexTerminal_advances t result)
          next => exact hread
        cases failed with
        | true => exact ⟨rfl, .inr ⟨_, _, hterminal.cleaned.fail _ _⟩⟩
        | false =>
          rw [closeCode_eq_zero (Bool.or_eq_false_iff.mp hfailed).2]
          exact ⟨rfl, .inl (hterminal.cleaned.close 0)⟩
    unfold settle
    dsimp only
    split
    next heq =>
      rw [heq] at hresolved
      exact hresolved
    next heq =>
      rw [heq] at hresolved
      exact absurd hresolved.1 Bool.false_ne_true

end Settled

/-- The events of a run, in the order of their emission. -/
def events (s : Runner) : List RunnerEvent := s.emitted.map (·.event)

/-- How a run is to end: with its only `close`, after at most one `error`, when its directories
are gone, and with no rejection left unhandled. -/
structure Terminates (run : Runner × Bool) : Prop where
  handled : run.2 = true
  closes : ∃ before code, run.1.events = before ++ [.close code] ∧ ∀ e ∈ before, e.isClose = false
  errors : (run.1.events.filter (·.isError)).length ≤ 1
  removed : ∀ e ∈ run.1.emitted, e.event.isClose = true → e.directories = []

theorem Ended.events_eq {ending : List RunnerEvent} (H : Ended s ending) :
    ∃ progress, s.events = progress ++ ending ∧ ∀ e ∈ progress, e.isProgress = true := by
  obtain ⟨progress, hp, hall⟩ := H
  refine ⟨progress.map (·.event), ?_, fun e he => ?_⟩
  · rw [events, hp, List.map_append, List.map_map]
    exact congrArg _ (List.map_id' ending)
  · obtain ⟨emitted, hmem, rfl⟩ := List.mem_map.mp he
    exact hall emitted hmem

theorem Ended.terminates (before : List RunnerEvent) {code : Int}
    (H : Ended s (before ++ [.close code])) (hclose : ∀ e ∈ before, e.isClose = false)
    (herrors : (before.filter (·.isError)).length ≤ 1) : Terminates (s, true) := by
  obtain ⟨progress, hevents, hall⟩ := H.events_eq
  refine ⟨rfl, ⟨progress ++ before, code, ?_, fun e he => ?_⟩, ?_, fun e he h => ?_⟩
  · rw [hevents, List.append_assoc]
  · obtain he | he := List.mem_append.mp he
    · have hprogress := hall e he
      rw [RunnerEvent.isProgress, Bool.and_eq_true] at hprogress
      simpa using hprogress.2
    · exact hclose e he
  · have hnone : progress.filter (·.isError) = [] := by
      refine List.filter_eq_nil_iff.mpr fun e he herror => ?_
      have hprogress := hall e he
      rw [RunnerEvent.isProgress, herror] at hprogress
      exact Bool.false_ne_true hprogress
    rw [hevents, List.filter_append, hnone, List.filter_append]
    simpa [RunnerEvent.isError] using herrors
  · obtain ⟨emitted, hp, hprogress⟩ := H
    rw [hp] at he
    obtain he | he := List.mem_append.mp he
    · have := hprogress e he
      rw [RunnerEvent.isProgress, h, Bool.not_true, Bool.and_false] at this
      exact absurd this Bool.false_ne_true
    · obtain ⟨event, -, rfl⟩ := List.mem_map.mp he
      rfl

/-- A run ends if and only if the rest of its output, which no newline ends, can be read. -/
theorem terminates_iff (cfg : RunnerConfig) (directories : List String)
    (chunks : List (List Char)) (settlement : Settlement) :
    Terminates (run cfg directories chunks settlement) ↔
      malformed cfg (Lib.lastLine chunks.flatten) = false := by
  have hread : HasRead directories chunks.flatten (chunks.foldl (push cfg) (start directories)) :=
    HasRead.start.pushAll chunks
  constructor
  · intro H
    by_contra h
    rw [Bool.not_eq_false] at h
    have hhandled := (settle_malformed hread h settlement).1
    exact Bool.false_ne_true (hhandled.symm.trans H.handled)
  · intro h
    obtain ⟨hhandled, hended⟩ := settle_wellFormed hread h settlement
    have heta : run cfg directories chunks settlement =
        ((run cfg directories chunks settlement).1, true) := Prod.ext rfl hhandled
    rw [heta]
    obtain hclosed | ⟨error, code, hfailed⟩ := hended
    · exact hclosed.terminates [] (List.forall_mem_nil _) (Nat.zero_le 1)
    · exact hfailed.terminates [.error error] (by simp [RunnerEvent.isClose])
        (by simp [RunnerEvent.isError])

/-- A literal that `JSON.parse` accepts. -/
def nullConfig (outputMode : OutputMode) : RunnerConfig where
  outputMode
  engine := none
  parse line := if line = "null".toList then some .null else none
  clips _ := true

/-- The output is `null`, without a newline, and the adapter exits with 0. -/
theorem null_rest_never_closes :
    ¬Terminates (run (nullConfig .streamJson) ["/tmp/paperclip-run-a"] ["null".toList]
      (.resolved ⟨some 0, none, false, none, none, none, none, none, none⟩)) := by
  intro H
  exact absurd H.handled (by decide)

end Runner

end CliProxy.Adapter
