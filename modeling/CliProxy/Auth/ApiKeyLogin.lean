import CliProxy.Auth.LoginAdapter
import CliProxy.Lib.Text

/-! # The api-key logins

`src/auth/adapters/codex-api-key.ts` and `src/auth/adapters/codex-custom-api-key.ts`. Both wait
in `submit()` for one promise, of a command or of a probe, which may ignore its abort signal. -/

namespace CliProxy.Auth

namespace ApiKeyLogin

/-- Where a call of `submit()` is: its promise is open, or has settled with an answer and the
rest of the method is queued. -/
inductive Phase (ρ : Type) where
  | running
  | answered (answer : ρ)
  | settled (outcome : Outcome)
  deriving DecidableEq, Repr

structure Call (π ρ : Type) where
  input : π
  phase : Phase ρ
  doomed : Bool := false
  late : Bool := false
  deriving DecidableEq, Repr

namespace Call

variable {π ρ : Type} (c : Call π ρ)

def outcome : Option Outcome :=
  match c.phase with
  | .settled outcome => some outcome
  | _ => none

def view : CallView := ⟨c.doomed, c.late, c.outcome⟩

def doom : Call π ρ := { c with doomed := c.doomed || c.outcome.isNone }

/-- Once the session is aborted, a doomed or late call can only be rejected. -/
structure Ok (aborted : Bool) : Prop where
  doomed : c.doomed = true → aborted = true ∧
    ∀ outcome, c.outcome = some outcome → ∃ rejection, outcome = .rejected rejection
  late : c.late = true → aborted = true ∧
    ∀ result, c.outcome = some (.submitted result) → result.credential = none

variable {c} {aborted : Bool}

theorem Ok.move (H : c.Ok aborted) (answer : ρ) : Ok { c with phase := .answered answer } aborted :=
  ⟨fun h => ⟨(H.doomed h).1, fun _ h => absurd h.symm (Option.some_ne_none _)⟩,
    fun h => ⟨(H.late h).1, fun _ h => absurd h.symm (Option.some_ne_none _)⟩⟩

/-- The rest of `submit()` reads whether the session is aborted. -/
theorem Ok.settle (H : c.Ok aborted) {outcome : Outcome}
    (h : aborted = true → ∃ rejection, outcome = .rejected rejection) :
    Ok { c with phase := (.settled outcome : Phase ρ) } aborted where
  doomed hd := by
    refine ⟨(H.doomed hd).1, fun outcome' ho => ?_⟩
    rw [← Option.some.inj ho]
    exact h (H.doomed hd).1
  late hl := by
    refine ⟨(H.late hl).1, fun result ho => ?_⟩
    obtain ⟨rejection, hr⟩ := h (H.late hl).1
    exact Outcome.noConfusion (hr.symm.trans (Option.some.inj ho))

theorem Ok.doom (H : c.Ok aborted) : Ok c.doom true where
  doomed hd := by
    refine ⟨rfl, fun outcome ho => ?_⟩
    have ho : c.outcome = some outcome := ho
    have hd : (c.doomed || c.outcome.isNone) = true := hd
    rw [ho, Option.isNone_some, Bool.or_false] at hd
    exact (H.doomed hd).2 outcome ho
  late hl := ⟨rfl, (H.late hl).2⟩

end Call

end ApiKeyLogin

open ApiKeyLogin (Phase Call)

def loginCancelled : Rejection := .auth "Login was cancelled" "session_cancelled"

/-! ### `codex login --with-api-key` -/

namespace CodexApiKey

structure CommandResult where
  exitCode : Option Int
  stdout : List Char
  stderr : List Char
  deriving DecidableEq, Repr

abbrev Answer := Except Rejection CommandResult

/-- The input of a call is the child that `runCommand` has spawned for it, if it has. -/
structure Session where
  aborted : Bool := false
  children : List Child := []
  calls : List (Call (Option Nat) Answer) := []

inductive Event where
  | start
  | submit (apiKey : List Char)
  | cancel
  /-- The child of a call emits `close`. -/
  | closed (call : Nat) (result : CommandResult)
  /-- The child of a call emits `error`. -/
  | errored (call : Nat) (message : String)
  | timedOut (call : Nat)
  /-- A runner other than `runCommand` settles its promise. -/
  | ran (call : Nat) (answer : Answer)
  | resumed (call : Nat)

/-- Never echo more than the CLI's own first error line. -/
def firstLine (text : List Char) : List Char :=
  Lib.trim (((Lib.trim text).splitOn '\n').headD [])

def exitText : Option Int → List Char
  | some code => ("exit " ++ toString code).toList
  | none => "exit null".toList

def startResult : AuthStartResult where
  instructions := "Submit an OpenAI API key. It is passed to `codex login --with-api-key` over " ++
    "stdin and stored by the codex CLI."

namespace Session

variable (s : Session)

/-- The rest of `submit()` once the command has answered. -/
def outcome : Answer → Outcome
  | .error (.provisioning error) => .rejected (.provisioning error)
  | .error (.other message) => .rejected (.auth
    (if Lib.includes "ENOENT".toList message.toList then "codex CLI not found on this host" else message)
    "cli_unavailable")
  | .ok result =>
    if s.aborted then .rejected loginCancelled
    else if result.exitCode ≠ some 0 then
      let detail := [firstLine result.stderr, firstLine result.stdout, exitText result.exitCode]
      .rejected (.auth ("codex login failed: " ++
        String.ofList ((detail.find? (· ≠ [])).getD [])) "login_failed")
    else .submitted {}

def push (input : Option Nat) (phase : Phase Answer) : Session :=
  { s with calls := s.calls ++ [{ input, phase, late := s.aborted }] }

/-- `submit()` with `runCommand`, which spawns nothing once the signal is aborted, or with
another runner. -/
def submit (custom : Bool) (apiKey : List Char) : Session :=
  if Lib.trim apiKey = [] then
    s.push none (.settled (.rejected (.auth "API key is empty" "empty_api_key")))
  else if custom then s.push none .running
  else if s.aborted then s.push none (.answered (.error loginCancelled))
  else { s with children := s.children ++ [({} : Child)] }.push (some s.children.length) .running

/-- The promise of a call settles, if it has not. -/
def answer (i : Nat) (answer : Answer) : Session :=
  { s with calls := s.calls.modify i fun c =>
      match c.phase with
      | .running => { c with phase := .answered answer }
      | _ => c }

/-- A child's command still runs. -/
def runs (k : Nat) : Bool := s.calls.any fun c => c.input = some k && c.phase matches .running

/-- The abort listeners: terminate the child and reject. -/
def abort : Session where
  aborted := true
  children := s.children.mapIdx fun k child =>
    { child with signalled := child.signalled || s.runs k }
  calls := s.calls.map fun c =>
    match c.phase, c.input with
    | .running, some _ => { c with phase := .answered (.error loginCancelled) }
    | _, _ => c

def cancel : Session :=
  let t := if s.aborted then s else s.abort
  { t with calls := t.calls.map Call.doom }

def modifyChild (k : Nat) (f : Child → Child) : Session :=
  { s with children := s.children.modify k f }

def timeoutError (timeoutMs : Nat) : Rejection := .auth
  ("`codex login --with-api-key` did not finish within " ++ toString timeoutMs ++ "ms")
  "cli_timeout"

/-- An event that cannot occur changes nothing. -/
def step (custom : Bool) (timeoutMs : Nat) : Event → Session
  | .start => s.push none (.settled (.started startResult))
  | .submit apiKey => s.submit custom apiKey
  | .cancel => s.cancel
  | .closed i result => match s.calls[i]? with
    | some { input := some k, .. } =>
      (s.modifyChild k ({ · with exited := true })).answer i (.ok result)
    | _ => s
  | .errored i message => match s.calls[i]? with
    | some { input := some k, .. } =>
      (s.modifyChild k ({ · with exited := true })).answer i (.error (.other message))
    | _ => s
  | .timedOut i => match s.calls[i]? with
    | some { input := some k, phase := .running, .. } =>
      (s.modifyChild k ({ · with signalled := true })).answer i (.error (timeoutError timeoutMs))
    | _ => s
  | .ran i answer => match s.calls[i]? with
    | some { input := none, phase := .running, .. } => s.answer i answer
    | _ => s
  | .resumed i => match s.calls[i]? with
    | some { phase := .answered answer, .. } =>
      { s with calls := s.calls.modify i fun c => { c with phase := .settled (s.outcome answer) } }
    | _ => s

end Session

def machine (custom : Bool) (timeoutMs : Nat) : Lib.Machine Session Event where
  init := {}
  step s := s.step custom timeoutMs

/-- The calls are in order, and a child that is neither signalled nor gone is the one of a
command that runs in a session that is not aborted. -/
structure Inv (s : Session) : Prop where
  calls : ∀ c ∈ s.calls, c.Ok s.aborted
  children : ∀ k child, s.children[k]? = some child →
    child.signalled = true ∨ child.exited = true ∨ (s.aborted = false ∧ s.runs k = true)

namespace Inv

variable {s : Session}

theorem runs_iff {k : Nat} : s.runs k = true ↔
    ∃ c ∈ s.calls, c.input = some k ∧ c.phase = .running := by
  rw [Session.runs, List.any_eq_true]
  refine exists_congr fun c => and_congr_right fun _ => ?_
  rw [Bool.and_eq_true, decide_eq_true_iff]
  cases c.phase <;> simp

theorem push (H : Inv s) {input : Option Nat} {phase : Phase Answer}
    (h : ∀ result, phase = .settled (.submitted result) → result.credential = none) :
    Inv (s.push input phase) where
  calls c hc := by
    obtain hc | hc := List.mem_append.mp hc
    · exact H.calls c hc
    · rw [List.mem_singleton.mp hc]
      refine ⟨fun h => absurd h Bool.false_ne_true, fun hl => ⟨hl, fun result ho => ?_⟩⟩
      cases phase with
      | settled outcome => exact h result (congrArg _ (Option.some.inj ho))
      | _ => exact absurd ho.symm (Option.some_ne_none _)
  children k child hchild := by
    obtain h | h | ⟨ha, hr⟩ := H.children k child hchild
    · exact .inl h
    · exact .inr (.inl h)
    · obtain ⟨c, hc, h⟩ := runs_iff.mp hr
      exact .inr (.inr ⟨ha, runs_iff.mpr ⟨c, List.mem_append_left _ hc, h⟩⟩)

theorem submit (H : Inv s) (custom : Bool) (apiKey : List Char) :
    Inv (s.submit custom apiKey) := by
  rw [Session.submit]
  split
  · exact H.push fun _ h => Outcome.noConfusion (Phase.settled.inj h)
  split
  · exact H.push fun _ h => by cases h
  split
  · exact H.push fun _ h => by cases h
  next hn =>
    have hpushed : Inv (s.push (some s.children.length) .running) := H.push fun _ h => by cases h
    have hcalls := hpushed.calls
    refine ⟨hcalls, fun k child hchild => ?_⟩
    change (s.children ++ [({} : Child)])[k]? = some child at hchild
    rw [List.getElem?_append] at hchild
    split at hchild
    next =>
      obtain h | h | ⟨ha, hr⟩ := H.children k child hchild
      · exact .inl h
      · exact .inr (.inl h)
      · obtain ⟨c, hc, h⟩ := runs_iff.mp hr
        exact .inr (.inr ⟨ha, runs_iff.mpr ⟨c, List.mem_append_left _ hc, h⟩⟩)
    next hk =>
      obtain ⟨hlt, -⟩ := List.getElem?_eq_some_iff.mp hchild
      rw [List.length_singleton] at hlt
      have hk' : s.children.length = k := by omega
      exact .inr (.inr ⟨Bool.eq_false_iff.mpr hn, runs_iff.mpr
        ⟨_, List.mem_append_right _ (List.mem_singleton_self _), congrArg some hk', rfl⟩⟩)

/-- The promise of a call settles, where no child needs the call to be running. -/
theorem answer {i : Nat} (hcalls : ∀ c ∈ s.calls, c.Ok s.aborted)
    (hchildren : ∀ k child, s.children[k]? = some child →
      child.signalled = true ∨ child.exited = true ∨ (s.aborted = false ∧
        ∃ j c, j ≠ i ∧ s.calls[j]? = some c ∧ c.input = some k ∧ c.phase = .running))
    (answer : Answer) : Inv (s.answer i answer) where
  calls c hc := by
    obtain hc | ⟨c₀, hc₀, rfl⟩ := mem_modify hc
    · exact hcalls c hc
    · have hok := hcalls c₀ (List.mem_of_getElem? hc₀)
      split
      · exact hok.move answer
      · exact hok
  children k child hchild := by
    obtain h | h | ⟨ha, j, c, hj, hc, hk, hr⟩ := hchildren k child hchild
    · exact .inl h
    · exact .inr (.inl h)
    · refine .inr (.inr ⟨ha, runs_iff.mpr ⟨c, ?_, hk, hr⟩⟩)
      refine List.mem_of_getElem? (i := j) ?_
      exact (List.getElem?_modify_ne _ _ hj.symm).trans hc

/-- The promise of a call settles once its child is signalled or gone. -/
theorem answerChild (H : Inv s) {i k : Nat} {c : Call (Option Nat) Answer}
    (hc : s.calls[i]? = some c) (hk : c.input = some k) {f : Child → Child}
    (hf : ∀ child, (f child).signalled = true ∨ (f child).exited = true) (a : Answer) :
    Inv ((s.modifyChild k f).answer i a) := by
  refine answer (s := s.modifyChild k f) H.calls (fun k' child hchild => ?_) a
  change (s.children.modify k f)[k']? = some child at hchild
  rw [List.getElem?_modify] at hchild
  obtain ⟨child₀, hchild₀, he⟩ := Option.map_eq_some_iff.mp hchild
  split at he
  next =>
    subst he
    obtain h | h := hf child₀
    · exact .inl h
    · exact .inr (.inl h)
  next hkk =>
    subst he
    obtain h | h | ⟨ha, hr⟩ := H.children k' child₀ hchild₀
    · exact .inl h
    · exact .inr (.inl h)
    · obtain ⟨c', hc', hk', hp⟩ := runs_iff.mp hr
      obtain ⟨j, hj⟩ := List.mem_iff_getElem?.mp hc'
      refine .inr (.inr ⟨ha, j, c', fun hji => hkk ?_, hj, hk', hp⟩)
      subst hji
      obtain rfl := Option.some.inj (hc.symm.trans hj)
      exact Option.some.inj (hk.symm.trans hk')

theorem ran (H : Inv s) {i : Nat} {c : Call (Option Nat) Answer} (hc : s.calls[i]? = some c)
    (hk : c.input = none) (a : Answer) : Inv (s.answer i a) := by
  refine answer H.calls (fun k child hchild => ?_) a
  obtain h | h | ⟨ha, hr⟩ := H.children k child hchild
  · exact .inl h
  · exact .inr (.inl h)
  · obtain ⟨c', hc', hk', hp⟩ := runs_iff.mp hr
    obtain ⟨j, hj⟩ := List.mem_iff_getElem?.mp hc'
    refine .inr (.inr ⟨ha, j, c', fun hji => ?_, hj, hk', hp⟩)
    subst hji
    obtain rfl := Option.some.inj (hc.symm.trans hj)
    exact Option.some_ne_none k (hk'.symm.trans hk)

/-- The abort reaches the child of every command that still runs. -/
theorem abort (H : Inv s) : Inv s.abort where
  calls c hc := by
    obtain ⟨c₀, hc₀, rfl⟩ := List.mem_map.mp hc
    have hok := H.calls c₀ hc₀
    have hmono : c₀.Ok true := ⟨fun h => ⟨rfl, (hok.doomed h).2⟩, fun h => ⟨rfl, (hok.late h).2⟩⟩
    split
    · exact hmono.move _
    · exact hmono
  children k child hchild := by
    rw [Session.abort, List.getElem?_mapIdx] at hchild
    obtain ⟨child₀, hchild₀, rfl⟩ := Option.map_eq_some_iff.mp hchild
    obtain h | h | ⟨-, hr⟩ := H.children k child₀ hchild₀
    · exact .inl (Bool.or_eq_true_iff.mpr (.inl h))
    · exact .inr (.inl h)
    · exact .inl (Bool.or_eq_true_iff.mpr (.inr hr))

theorem cancel (H : Inv s) : Inv s.cancel := by
  have haborted : ∀ t : Session, Inv t → t.aborted = true →
      Inv { t with calls := t.calls.map Call.doom } := by
    intro t ht ha
    refine ⟨fun c hc => ?_, fun k child hchild => ?_⟩
    · obtain ⟨c₀, hc₀, rfl⟩ := List.mem_map.mp hc
      have hok := (ht.calls c₀ hc₀).doom
      rwa [← ha] at hok
    · obtain h | h | ⟨hn, -⟩ := ht.children k child hchild
      · exact .inl h
      · exact .inr (.inl h)
      · exact absurd (hn.symm.trans ha) Bool.false_ne_true
  rw [Session.cancel]
  split
  next ha => exact haborted s H ha
  next => exact haborted s.abort H.abort rfl

/-- The check after the command has answered is what keeps a late answer from counting. -/
theorem outcome_of_aborted (h : s.aborted = true) (a : Answer) :
    ∃ rejection, s.outcome a = .rejected rejection := by
  cases a with
  | error rejection => cases rejection <;> exact ⟨_, rfl⟩
  | ok result => exact ⟨loginCancelled, if_pos h⟩

theorem resumed (H : Inv s) {i : Nat} {c : Call (Option Nat) Answer} {a : Answer}
    (hc : s.calls[i]? = some c) (ha : c.phase = .answered a) :
    Inv { s with calls := s.calls.modify i fun c => { c with phase := .settled (s.outcome a) } } where
  calls c' hc' := by
    obtain hc' | ⟨c₀, hc₀, rfl⟩ := mem_modify hc'
    · exact H.calls c' hc'
    · exact (H.calls c₀ (List.mem_of_getElem? hc₀)).settle (outcome_of_aborted · a)
  children k child hchild := by
    obtain h | h | ⟨hn, hr⟩ := H.children k child hchild
    · exact .inl h
    · exact .inr (.inl h)
    · obtain ⟨c', hc', hk, hp⟩ := runs_iff.mp hr
      obtain ⟨j, hj⟩ := List.mem_iff_getElem?.mp hc'
      have hij : i ≠ j := by
        rintro rfl
        obtain rfl := Option.some.inj (hc.symm.trans hj)
        have := ha.symm.trans hp
        cases this
      refine .inr (.inr ⟨hn, runs_iff.mpr ⟨c', List.mem_of_getElem? (i := j) ?_, hk, hp⟩⟩)
      exact (List.getElem?_modify_ne _ _ hij).trans hj

theorem step (H : Inv s) (custom : Bool) (timeoutMs : Nat) (event : Event) :
    Inv (s.step custom timeoutMs event) := by
  cases event with
  | start => exact H.push fun _ h => Outcome.noConfusion (Phase.settled.inj h)
  | submit apiKey => exact H.submit custom apiKey
  | cancel => exact H.cancel
  | closed i result =>
    rw [Session.step]
    split
    next hc => exact H.answerChild hc rfl (fun _ => .inr rfl) _
    next => exact H
  | errored i message =>
    rw [Session.step]
    split
    next hc => exact H.answerChild hc rfl (fun _ => .inr rfl) _
    next => exact H
  | timedOut i =>
    rw [Session.step]
    split
    next hc => exact H.answerChild hc rfl (fun _ => .inl rfl) _
    next => exact H
  | ran i answer =>
    rw [Session.step]
    split
    next hc => exact H.ran hc rfl answer
    next => exact H
  | resumed i =>
    rw [Session.step]
    split
    next hc => exact H.resumed hc rfl
    next => exact H

end Inv

/-- The cancellation latches, whatever the commands and the runner do. -/
theorem latches (custom : Bool) (timeoutMs : Nat) (events : List Event) :
    Latched ((machine custom timeoutMs).run events).aborted
      (((machine custom timeoutMs).run events).calls.map Call.view)
      ((machine custom timeoutMs).run events).children := by
  have hinit : Inv (machine custom timeoutMs).init :=
    ⟨fun _ h => absurd h List.not_mem_nil,
      fun _ child h => absurd (h.symm.trans List.getElem?_nil) (Option.some_ne_none child)⟩
  have hinv : Inv ((machine custom timeoutMs).run events) :=
    Lib.Machine.Reachable.keeps hinit (fun _ event H => H.step custom timeoutMs event) ⟨events, rfl⟩
  refine ⟨fun v hv hd => ?_, fun v hv hl => ?_, fun ha child hchild => ?_⟩
  · obtain ⟨c, hc, rfl⟩ := List.mem_map.mp hv
    exact ((hinv.calls c hc).doomed hd).2
  · obtain ⟨c, hc, rfl⟩ := List.mem_map.mp hv
    exact ((hinv.calls c hc).late hl).2
  · obtain ⟨k, hk⟩ := List.mem_iff_getElem?.mp hchild
    obtain h | h | ⟨hn, -⟩ := hinv.children k child hk
    · exact .inl h
    · exact .inr h
    · exact absurd (hn.symm.trans ha) Bool.false_ne_true

end CodexApiKey

/-! ### A key for a custom gateway -/

namespace CodexCustomApiKey

/-- What the code reads of a parsed URL; `href` is `url.toString()`. -/
structure Url where
  protocol : String
  hostname : String
  username : String
  password : String
  search : String
  hash : String
  href : List Char
  deriving DecidableEq, Repr

/-- The URL parser of the platform, and the timeout of a probe. -/
structure Config where
  parseUrl : List Char → Option Url
  timeoutMs : Nat

def LOOPBACK_HOSTS : List String := ["localhost", "127.0.0.1", "::1", "[::1]"]

/-- The gateway root in the form codex appends its endpoint path to. -/
def normalizeGatewayBaseUrl (cfg : Config) (raw : List Char) : Except AuthError String :=
  let trimmed := Lib.trim raw
  if trimmed = [] then .error ⟨"`base_url` is empty", "missing_base_url"⟩
  else match cfg.parseUrl trimmed with
    | none => .error
      ⟨"`base_url` must be an absolute URL, e.g. https://openrouter.ai/api/v1", "invalid_base_url"⟩
    | some url =>
      if url.protocol ≠ "https:" ∧ url.protocol ≠ "http:" then
        .error ⟨"`base_url` must use http or https", "invalid_base_url"⟩
      else if url.protocol = "http:" ∧ url.hostname ∉ LOOPBACK_HOSTS then
        .error ⟨"`base_url` must use https: the API key is sent to it as a bearer token on every " ++
          "request. Plaintext http is accepted only for loopback hosts.", "insecure_base_url"⟩
      else if url.username ≠ "" ∨ url.password ≠ "" then
        .error ⟨"`base_url` must not embed credentials; submit the key as `api_key` instead",
          "invalid_base_url"⟩
      else if url.search ≠ "" ∨ url.hash ≠ "" then
        .error ⟨"`base_url` must not carry a query string or fragment: the CLI appends " ++
          "`/responses` to it", "invalid_base_url"⟩
      else .ok (String.ofList (url.href.reverse.dropWhile (· = '/')).reverse)

structure GatewayVerdict where
  accepted : Bool
  detail : Option String := none
  deriving DecidableEq, Repr

abbrev Answer := Except Rejection GatewayVerdict

structure Input where
  key : List Char
  baseUrl : String
  /-- `timeoutAborter.signal.aborted` -/
  timedOut : Bool := false
  deriving DecidableEq, Repr

structure Session where
  aborted : Bool := false
  calls : List (Call Input Answer) := []

inductive Event where
  | start
  | submit (apiKey : List Char) (baseUrl : Option (List Char))
  | cancel
  | timedOut (call : Nat)
  /-- The promise of a probe settles, whatever its signal says. -/
  | probed (call : Nat) (answer : Answer)
  | resumed (call : Nat)

def startResult : AuthStartResult where
  instructions := "Submit an API key together with `base_url`, the OpenAI-compatible API root it " ++
    "authenticates against (e.g. https://openrouter.ai/api/v1). The key is held in proxy " ++
    "memory only and injected into paperclip/codex_custom runs as CODEX_CUSTOM_API_KEY. " ++
    "The gateway must serve OpenAI's Responses API: the codex CLI no longer speaks Chat Completions."

def credential (input : Input) : StoredCredential where
  envVar := "CODEX_CUSTOM_API_KEY"
  value := String.ofList input.key
  gateway := some input.baseUrl

namespace Session

variable (s : Session)

def push (input : Input) (phase : Phase Answer) : Session :=
  { s with calls := s.calls ++ [{ input, phase, late := s.aborted }] }

def refuse (error : AuthError) : Session :=
  s.push ⟨[], "", false⟩ (.settled (.rejected (.provisioning error)))

def submit (cfg : Config) (apiKey : List Char) (baseUrl : Option (List Char)) : Session :=
  let key := Lib.trim apiKey
  if key = [] then s.refuse ⟨"API key is empty", "empty_api_key"⟩
  else match baseUrl with
    | none => s.refuse ⟨"`base_url` is required for this engine: a key alone does not say which " ++
      "gateway to spend it at", "missing_base_url"⟩
    | some raw => match normalizeGatewayBaseUrl cfg raw with
      | .error error => s.refuse error
      | .ok baseUrl => s.push { key, baseUrl } .running

/-- The rest of `submit()` once the probe has answered. -/
def outcome (cfg : Config) (input : Input) : Answer → Outcome
  | .error rejection =>
    if s.aborted then .rejected loginCancelled
    else if input.timedOut then .rejected (.auth ("The gateway did not answer within " ++
      toString cfg.timeoutMs ++ "ms") "gateway_unreachable")
    else match rejection with
      | .provisioning error => .rejected (.provisioning error)
      | .other message => .rejected (.auth message "gateway_unreachable")
  | .ok verdict =>
    if s.aborted then .rejected loginCancelled
    else if verdict.accepted then .submitted ⟨some (credential input)⟩
    else .rejected (.auth (verdict.detail.getD "The gateway rejected the API key") "invalid_api_key")

def modifyCall (i : Nat) (f : Call Input Answer → Call Input Answer) : Session :=
  { s with calls := s.calls.modify i f }

/-- An event that cannot occur changes nothing. -/
def step (cfg : Config) : Event → Session
  | .start => s.push ⟨[], "", false⟩ (.settled (.started startResult))
  | .submit apiKey baseUrl => s.submit cfg apiKey baseUrl
  | .cancel => ⟨true, s.calls.map Call.doom⟩
  | .timedOut i => match s.calls[i]? with
    | some { phase := .running, .. } =>
      s.modifyCall i fun c => { c with input := { c.input with timedOut := true } }
    | _ => s
  | .probed i answer => match s.calls[i]? with
    | some { phase := .running, .. } => s.modifyCall i ({ · with phase := .answered answer })
    | _ => s
  | .resumed i => match s.calls[i]? with
    | some { input, phase := .answered answer, .. } =>
      s.modifyCall i ({ · with phase := .settled (s.outcome cfg input answer) })
    | _ => s

end Session

def machine (cfg : Config) : Lib.Machine Session Event where
  init := {}
  step s := s.step cfg

/-- The rest of `submit()` reads the latch before it reads the verdict. -/
theorem Session.outcome_of_aborted {s : Session} (h : s.aborted = true) (cfg : Config)
    (input : Input) (a : Answer) : ∃ rejection, s.outcome cfg input a = .rejected rejection := by
  cases a with
  | error rejection => exact ⟨loginCancelled, if_pos h⟩
  | ok verdict => exact ⟨loginCancelled, if_pos h⟩

def Session.Ok (s : Session) : Prop := ∀ c ∈ s.calls, c.Ok s.aborted

namespace Session.Ok

variable {s : Session}

theorem push (H : s.Ok) {input : Input} {phase : Phase Answer}
    (h : ∀ result, phase ≠ .settled (.submitted result)) : (s.push input phase).Ok := by
  intro c hc
  obtain hc | hc := List.mem_append.mp hc
  · exact H c hc
  · rw [List.mem_singleton.mp hc]
    refine ⟨fun h => absurd h Bool.false_ne_true, fun hl => ⟨hl, fun result ho => ?_⟩⟩
    cases phase with
    | settled outcome => exact absurd (congrArg _ (Option.some.inj ho)) (h result)
    | _ => exact absurd ho.symm (Option.some_ne_none _)

theorem refuse (H : s.Ok) (error : AuthError) : (s.refuse error).Ok :=
  H.push fun _ h => Outcome.noConfusion (Phase.settled.inj h)

theorem modifyCall (H : s.Ok) {i : Nat} {f : Call Input Answer → Call Input Answer}
    (hf : ∀ c, s.calls[i]? = some c → c.Ok s.aborted → (f c).Ok s.aborted) :
    (s.modifyCall i f).Ok := by
  intro c hc
  obtain hc | ⟨c₀, hc₀, rfl⟩ := mem_modify hc
  · exact H c hc
  · exact hf c₀ hc₀ (H c₀ (List.mem_of_getElem? hc₀))

theorem submit (H : s.Ok) (cfg : Config) (apiKey : List Char) (baseUrl : Option (List Char)) :
    (s.submit cfg apiKey baseUrl).Ok := by
  unfold Session.submit
  dsimp only
  split
  · exact H.refuse _
  split
  · exact H.refuse _
  split
  · exact H.refuse _
  · exact H.push fun _ h => by cases h

theorem step (H : s.Ok) (cfg : Config) (event : Event) : (s.step cfg event).Ok := by
  cases event with
  | start => exact H.push fun _ h => Outcome.noConfusion (Phase.settled.inj h)
  | submit apiKey baseUrl => exact H.submit cfg apiKey baseUrl
  | cancel =>
    intro c hc
    obtain ⟨c₀, hc₀, rfl⟩ := List.mem_map.mp hc
    exact (H c₀ hc₀).doom
  | timedOut i =>
    rw [Session.step]
    split
    · exact H.modifyCall fun c _ hok => ⟨hok.doomed, hok.late⟩
    · exact H
  | probed i answer =>
    rw [Session.step]
    split
    · exact H.modifyCall fun c _ hok => hok.move answer
    · exact H
  | resumed i =>
    rw [Session.step]
    split
    next input answer _ _ _ =>
      exact H.modifyCall fun c _ hok => hok.settle (outcome_of_aborted · cfg input answer)
    · exact H

end Session.Ok

/-- The cancellation latches, whatever the probes do. -/
theorem latches (cfg : Config) (events : List Event) :
    Latched ((machine cfg).run events).aborted (((machine cfg).run events).calls.map Call.view)
      [] := by
  have hok : ((machine cfg).run events).Ok :=
    Lib.Machine.Reachable.keeps (M := machine cfg) (I := Session.Ok)
      (fun _ h => absurd h List.not_mem_nil) (fun _ event H => H.step cfg event) ⟨events, rfl⟩
  refine ⟨fun v hv hd => ?_, fun v hv hl => ?_, fun _ child h => absurd h List.not_mem_nil⟩
  · obtain ⟨c, hc, rfl⟩ := List.mem_map.mp hv
    exact ((hok c hc).doomed hd).2
  · obtain ⟨c, hc, rfl⟩ := List.mem_map.mp hv
    exact ((hok c hc).late hl).2

end CodexCustomApiKey

end CliProxy.Auth
