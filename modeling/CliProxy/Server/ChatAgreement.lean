import CliProxy.Server.ChatOutcome

/-! # Streaming and not streaming

Both handlers are given the same trace and a client that stays. The stream is answered with the
first result, the other request with the last one. -/

namespace CliProxy.Server

open Adapter (RunError)
open Usage (ClaudeCliResult OpenAIUsage cliUsageToOpenai runUsage)

/-- The content of a stream in JSON mode. -/
def Streaming.jsonContent (s : Streaming) : String :=
  String.join (s.body.filterMap fun
    | .json content => some content
    | _ => none)

def Streaming.usages (s : Streaming) : List OpenAIUsage :=
  s.body.filterMap fun
    | .usage usage => some usage
    | _ => none

/-- A streamed answer and one that is not streamed are the same to the client. -/
structure Agree (ctx : ChatContext) (s : Streaming) (t : NonStreaming) : Prop where
  success : s.Succeeded ↔ t.Succeeded
  content : ctx.jsonMode = true → ∀ {content usage reasoning toolEvents},
    .completion content usage reasoning toolEvents ∈ t.responses → s.jsonContent = content
  usage : ctx.includeUsage = true → ∀ {content usage reasoning toolEvents},
    .completion content usage reasoning toolEvents ∈ t.responses → s.usages = [usage]
  failure : (∃ body, .error body ∈ s.body) ↔ ∃ status body, .failure status body ∈ t.responses
  kind : ∀ {body status body'}, .error body ∈ s.body → .failure status body' ∈ t.responses →
    body.type = body'.type ∧ body.code = body'.code

/-- The content that a stream is answered with in JSON mode. -/
def jsonAnswer (ctx : ChatContext) (source : String) : String :=
  if source != "" then ctx.extractJsonFromText source else ""

/-- The run emits no result unless it closes; if it closes, the first result and the last one give
the same answer. -/
def RunTrace.answersAlike (ctx : ChatContext) : RunTrace → Prop
  | rejected _ | refused _ => True
  | runs progress .closes =>
    ∃ first last, (resultsOf progress).head? = some first ∧
      (resultsOf progress).getLast? = some last ∧
      (ctx.jsonMode = true → jsonAnswer ctx (jsonSourceOf progress first) =
        ctx.extractJsonFromText last.result) ∧
      (ctx.includeUsage = true →
        cliUsageToOpenai (runUsage first) = cliUsageToOpenai (runUsage last))
  | runs progress _ => resultsOf progress = []

namespace Streaming

variable {ctx : ChatContext} {s : Streaming} {chunks : List Chunk}

theorem filterMap_plain {β : Type} {f : Chunk → Option β} {plain : List Chunk}
    (hf : ∀ c : Chunk, c.isPlain = true → f c = none) (h : ∀ c ∈ plain, c.isPlain = true) :
    plain.filterMap f = [] :=
  List.filterMap_eq_nil_iff.mpr fun c hc => hf c (h c hc)

theorem EndedWith.jsonContent {source : String} {result : ClaudeCliResult}
    (H : EndedWith (answer ctx source result) s) (hjson : ctx.jsonMode = true) :
    s.jsonContent = jsonAnswer ctx source := by
  obtain ⟨plain, hbody, hplain⟩ := H.body
  unfold Streaming.jsonContent jsonAnswer
  rw [hbody, List.filterMap_append, filterMap_plain _ hplain, answer, hjson, Bool.true_and]
  · cases source != "" <;> cases ctx.includeUsage <;> simp
  · intro c hc
    cases c with
    | content role text | reasoning role text event => rfl
    | _ => exact absurd hc Bool.false_ne_true

theorem EndedWith.usages {source : String} {result : ClaudeCliResult}
    (H : EndedWith (answer ctx source result) s) (husage : ctx.includeUsage = true) :
    s.usages = [cliUsageToOpenai (runUsage result)] := by
  obtain ⟨plain, hbody, hplain⟩ := H.body
  unfold Streaming.usages
  rw [hbody, List.filterMap_append, filterMap_plain _ hplain, answer, husage]
  · split <;> rfl
  · intro c hc
    cases c with
    | content role text | reasoning role text event => rfl
    | _ => exact absurd hc Bool.false_ne_true

theorem EndedWith.error_mem (H : EndedWith chunks s) {body : ErrorBody} :
    .error body ∈ s.body ↔ .error body ∈ chunks := H.mem_body rfl

theorem not_error_mem_answer (ctx : ChatContext) (source : String) (result : ClaudeCliResult)
    (body : ErrorBody) : .error body ∉ answer ctx source result := by
  unfold answer
  split <;> split <;> simp

end Streaming

namespace NonStreaming

variable {http : Http} {ctx : ChatContext} {s : NonStreaming} {progress : List Progress}

/-- A connected client of a run that fails is sent the error, whatever the run has emitted. -/
theorem fails_stays (http : Http) (ctx : ChatContext) (progress : List Progress) (error : RunError)
    (code : Int) :
    (handleNonStreamingResponse http ctx (.runs progress (.fails error code)) .stays).responses =
      [.failure (ChatContext.errorStatus error) (ctx.errorBody error)] := by
  obtain ⟨s, signals, H, hrun, hsignals⟩ :=
    waiting_handle http ctx progress (.fails error code) .stays
  obtain ⟨t, herror, -, -, -, hended, hresponses⟩ := H.error http ctx error
  obtain ⟨rest, rfl, -⟩ := fails_cases (mem_endings hsignals)
  rw [leavesDuring_stays] at hended hresponses
  rw [hrun, handle_error herror]
  exact ((Grows.handle http ctx t rest).ended hended).2.trans hresponses

end NonStreaming

section Agreement

variable {ctx : ChatContext} {s : Streaming} {t : NonStreaming}

/-- Both answers are errors. -/
theorem Agree.ofErrors {body body' : ErrorBody} {status : Nat}
    (H : Streaming.EndedWith [.error body] s) (hresponses : t.responses = [.failure status body'])
    (htype : body.type = body'.type) (hcode : body.code = body'.code) : Agree ctx s t := by
  have hnone : ∀ {content usage reasoning toolEvents},
      ¬Response.completion content usage reasoning toolEvents ∈ t.responses := by
    intros
    simp [hresponses]
  refine ⟨iff_of_false ?_ ?_, fun _ _ _ _ _ h => absurd h hnone, fun _ _ _ _ _ h => absurd h hnone,
    iff_of_true ⟨body, ?_⟩ ⟨status, body', ?_⟩, ?_⟩
  · rw [H.succeeded]
    simp
  · rw [NonStreaming.succeeded_singleton _ hresponses]
    exact Bool.false_ne_true
  · rw [H.error_mem]
    exact List.mem_singleton_self _
  · rw [hresponses]
    exact List.mem_singleton_self _
  · intro b st b' hb hb'
    rw [H.error_mem, List.mem_singleton] at hb
    rw [hresponses, List.mem_singleton] at hb'
    cases hb
    cases hb'
    exact ⟨htype, hcode⟩

/-- Neither request is answered. -/
theorem Agree.ofSilence (hplain : ∀ c ∈ s.body, c.isPlain = true) (hresponses : t.responses = []) :
    Agree ctx s t := by
  have hnone : ∀ r, ¬r ∈ t.responses := by simp [hresponses]
  refine ⟨iff_of_false ?_ ?_, fun _ _ _ _ _ h => absurd h (hnone _),
    fun _ _ _ _ _ h => absurd h (hnone _), iff_of_false ?_ ?_, fun _ h => absurd h (hnone _)⟩
  · intro h
    exact Bool.false_ne_true (hplain _ h.1)
  · rintro ⟨r, hr, -⟩
    exact hnone r hr
  · rintro ⟨body, hbody⟩
    exact Bool.false_ne_true (hplain _ hbody)
  · rintro ⟨status, body, hbody⟩
    exact hnone _ hbody

/-- Both answers are results. -/
theorem agree_results_iff {source content reasoning : String} {result : ClaudeCliResult}
    {usage : OpenAIUsage} {toolEvents : List Adapter.ToolEvent}
    (H : Streaming.EndedWith (Streaming.answer ctx source result) s)
    (hresponses : t.responses = [.completion content usage reasoning toolEvents]) :
    Agree ctx s t ↔ (ctx.jsonMode = true → jsonAnswer ctx source = content) ∧
      (ctx.includeUsage = true → cliUsageToOpenai (runUsage result) = usage) := by
  have hmem : Response.completion content usage reasoning toolEvents ∈ t.responses := by
    rw [hresponses]
    exact List.mem_singleton_self _
  constructor
  · intro hagree
    refine ⟨fun hjson => ?_, fun husage => ?_⟩
    · exact (H.jsonContent hjson).symm.trans (hagree.content hjson hmem)
    · exact List.singleton_inj.mp ((H.usages husage).symm.trans (hagree.usage husage hmem))
  · rintro ⟨hcontent, husage⟩
    refine ⟨iff_of_true ?_ ?_, fun hjson => ?_, fun hinclude => ?_, iff_of_false ?_ ?_, ?_⟩
    · exact H.succeeded.mpr (Streaming.answer_succeeds ctx source result)
    · exact (NonStreaming.succeeded_singleton _ hresponses).mpr rfl
    · intro content' usage' reasoning' toolEvents' h
      rw [hresponses, List.mem_singleton] at h
      cases h
      exact (H.jsonContent hjson).trans (hcontent hjson)
    · intro content' usage' reasoning' toolEvents' h
      rw [hresponses, List.mem_singleton] at h
      cases h
      rw [H.usages hinclude, husage hinclude]
    · rintro ⟨body, hbody⟩
      exact Streaming.not_error_mem_answer ctx source result body (H.error_mem.mp hbody)
    · rintro ⟨status, body, hbody⟩
      simp [hresponses] at hbody
    · intro body status body' hbody
      exact absurd (H.error_mem.mp hbody) (Streaming.not_error_mem_answer ctx source result body)

end Agreement

/-- The CLI exits with 0 and prints no result. -/
def exitWithoutResult : RunTrace := .runs [] .closes

end CliProxy.Server
