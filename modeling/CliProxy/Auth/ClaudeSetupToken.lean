import CliProxy.Auth.LoginAdapter
import CliProxy.Auth.TerminalScrape

/-! # The login adapter of claude

`src/auth/adapters/claude-setup-token.ts`. Each stretch of a method between two awaits is one
event: what the methods are called with, what the child and the timers do, and the
continuations that a settled promise has queued. The queue is drained before the next callback
of the event loop runs (`quiescent`). -/

namespace CliProxy.Auth

namespace ClaudeSetupToken

inductive Kind where
  | start | submit
  deriving DecidableEq, Repr

/-- Where a call of `start()` or `submit()` is suspended. -/
inductive Phase where
  /-- `await spawn(...)` -/
  | spawning
  /-- The delay before Enter. -/
  | entering
  /-- `await this.nextEvent(remaining)` -/
  | waiting
  /-- `nextEvent` has resolved; the next round of `waitFor` is queued. -/
  | woken
  /-- `waitFor` has resolved; the rest of the method is queued. -/
  | found (value : List Char)
  | settled (outcome : Outcome)
  deriving DecidableEq, Repr

def Phase.decided : Phase → Bool
  | .settled _ => true
  | _ => false

def Phase.isFound : Phase → Bool
  | .found _ => true
  | _ => false

/-- The continuation of the call is queued. -/
def Phase.queued : Phase → Bool
  | .woken | .found _ => true
  | _ => false

structure Call where
  kind : Kind
  phase : Phase
  doomed : Bool := false
  late : Bool := false
  deriving DecidableEq, Repr

def Call.view (c : Call) : CallView where
  doomed := c.doomed
  late := c.late
  outcome := match c.phase with
    | .settled outcome => some outcome
    | _ => none

def Call.wake (c : Call) : Call :=
  if c.phase = .waiting then { c with phase := .woken } else c

def Call.onCancel (c : Call) : Call :=
  { c.wake with doomed := c.doomed || !c.phase.decided }

structure Session where
  /-- The child that the session holds, by its position in `children`. -/
  pty : Option Nat := none
  buffer : List Char := []
  exited : Bool := false
  cancelled : Bool := false
  children : List Child := []
  written : List (Nat × List Char) := []
  calls : List Call := []

inductive Event where
  | start
  | submit (code : List Char)
  | cancel
  | spawned (call : Nat) (expired : Bool)
  | spawnFailed (call : Nat) (rejection : Rejection)
  | data (child : Nat) (text : List Char)
  | exit (child : Nat)
  | timeout (call : Nat)
  | delayed (call : Nat) (expired : Bool)
  | resumed (call : Nat) (expired : Bool)
  | returned (call : Nat)
  deriving DecidableEq, Repr

namespace Session

variable (s : Session)

/-- A call whose synchronous part ends in `phase`. -/
def call (kind : Kind) (phase : Phase) : Session :=
  { s with calls := s.calls ++ [{ kind, phase, late := s.cancelled }] }

def setPhase (i : Nat) (phase : Phase) : Session :=
  { s with calls := s.calls.modify i fun c => { c with phase } }

def fail (i : Nat) (message code : String) : Session :=
  s.setPhase i (.settled (.rejected (.auth message code)))

def wake : Session := { s with calls := s.calls.map Call.wake }

/-- Drop captured output, wake whoever waits and kill the child. -/
def cancel : Session :=
  { s with
    pty := none
    cancelled := true
    buffer := []
    children := kill s.pty s.children
    calls := s.calls.map Call.onCancel }

def tail : List Char := lastChars 300 (lastLines s.buffer)

def probe : Kind → Option (List Char)
  | .start => authorizeUrl s.buffer
  | .submit => oauthToken s.buffer

/-- Why the current wait can no longer succeed: cancellation is checked before the exit, since
killing the child also makes it exit. -/
def abortReason (message code : String) : Option AuthError :=
  if s.cancelled then some ⟨"Claude login was cancelled", "session_cancelled"⟩
  else if s.exited then some ⟨message, code⟩ else none

/-- A rejected exchange does not exit the CLI, it re-prompts. -/
def abort : Kind → Option AuthError
  | .start => s.abortReason "Claude login exited before printing an authorization URL" "session_closed"
  | .submit =>
    if oauthError s.buffer then some ⟨"Claude rejected the authorization code", "code_rejected"⟩
    else s.abortReason "Claude rejected the authorization code" "code_rejected"

def timeoutError : Kind → AuthError
  | .start => ⟨"Timed out waiting for the Claude authorization URL", "verification_url_timeout"⟩
  | .submit => ⟨"Timed out waiting for Claude to return a token", "token_timeout"⟩

/-- One round of `waitFor`. The call that gives up is decided before the others learn of the
cancellation. -/
def iterate (i : Nat) (kind : Kind) (expired : Bool) : Session :=
  match s.probe kind with
  | some value => s.setPhase i (.found value)
  | none => match s.abort kind with
    | some reason => (s.fail i (withDetail reason.message s.tail) reason.code).cancel
    | none =>
      if expired then (s.fail i (timeoutError kind).message (timeoutError kind).code).cancel
      else s.setPhase i .waiting

def startResult (url : List Char) : AuthStartResult where
  verificationUrl := some (String.ofList url)
  instructions := "Open the URL, approve access, then submit the code shown on the callback page."

def submitResult (token : List Char) : AuthSubmitResult where
  credential := some { envVar := "CLAUDE_CODE_OAUTH_TOKEN", value := String.ofList token }

/-- The rest of `start()` or `submit()` once `waitFor` has resolved. -/
def conclude (i : Nat) (value : List Char) : Kind → Session
  | .start => s.setPhase i (.settled (.started (startResult value)))
  | .submit => (s.setPhase i (.settled (.submitted (submitResult value)))).cancel

def start : Session :=
  if s.pty.isSome then s.call .start
    (.settled (.rejected (.auth "Session already started" "session_already_started")))
  else s.call .start .spawning

def submit (code : List Char) : Session :=
  match s.pty with
  | none => s.call .submit
    (.settled (.rejected (.auth "Session not started" "session_not_started")))
  | some k =>
    let trimmed := Lib.trim code
    if trimmed = [] then s.call .submit
      (.settled (.rejected (.auth "Authorization code is empty" "empty_code")))
    else if s.exited then s.call .submit (.settled (.rejected (.auth
      ("Claude login exited before the code was submitted: " ++ String.ofList s.tail)
      "session_closed")))
    else { s with written := s.written ++ [(k, trimmed)] }.call .submit .entering

/-- `this.pty = await spawn(...)`: the child is held, and listened to, from here on. -/
def spawned : Session :=
  { s with pty := some s.children.length, children := s.children ++ [{}] }

/-- Enter arrives as its own input event, unless the session was cancelled or the CLI died. -/
def enter : Session :=
  match s.pty with
  | some k => if s.exited then s else { s with written := s.written ++ [(k, ['\r'])] }
  | none => s

/-- No continuation is queued. -/
def quiescent : Bool := s.calls.all fun c => !c.phase.queued

/-- An event that cannot occur changes nothing. -/
def step : Event → Session
  | .start => s.start
  | .submit code => s.submit code
  | .cancel => s.cancel
  | .spawned i expired => match s.calls[i]? with
    | some { kind, phase := .spawning, .. } => s.spawned.iterate i kind expired
    | _ => s
  | .spawnFailed i rejection => match s.calls[i]? with
    | some { phase := .spawning, .. } => s.setPhase i (.settled (.rejected rejection))
    | _ => s
  | .data k text =>
    if k < s.children.length ∧ s.quiescent then
      { s with buffer := s.buffer ++ text }.wake
    else s
  | .exit k =>
    if k < s.children.length ∧ s.quiescent then
      { s with
        exited := true
        children := s.children.modify k fun child => { child with exited := true } }.wake
    else s
  | .timeout i => match s.calls[i]? with
    | some { phase := .waiting, .. } => if s.quiescent then s.setPhase i .woken else s
    | _ => s
  | .delayed i expired => match s.calls[i]? with
    | some { kind, phase := .entering, .. } =>
      if s.quiescent then s.enter.iterate i kind expired else s
    | _ => s
  | .resumed i expired => match s.calls[i]? with
    | some { kind, phase := .woken, .. } => s.iterate i kind expired
    | _ => s
  | .returned i => match s.calls[i]? with
    | some { kind, phase := .found value, .. } => s.conclude i value kind
    | _ => s

end Session

def machine : Lib.Machine Session Event where
  init := {}
  step := Session.step

theorem Call.view_outcome {c : Call} {outcome : Outcome} (h : c.view.outcome = some outcome) :
    c.phase = .settled outcome := by
  rw [view] at h
  dsimp only at h
  split at h
  next hs => rw [hs, Option.some.inj h]
  · exact absurd h.symm (Option.some_ne_none outcome)

/-! ### What one round of `waitFor` does -/

namespace Session

variable {s : Session}

/-- The round of `waitFor` ends in `cancel()`. -/
def givesUp (s : Session) (kind : Kind) (expired : Bool) : Bool :=
  (s.probe kind).isNone && ((s.abort kind).isSome || expired)

theorem abort_of_cancelled (h : s.cancelled = true) (kind : Kind) : (s.abort kind).isSome := by
  have hreason : ∀ message code, (s.abortReason message code).isSome := by
    intro message code
    rw [abortReason, if_pos h]
    rfl
  cases kind with
  | start => exact hreason _ _
  | submit =>
    rw [abort]
    split
    · rfl
    · exact hreason _ _

theorem iterate_cases (s : Session) (i : Nat) (kind : Kind) (expired : Bool) :
    (∃ value, s.probe kind = some value ∧ s.iterate i kind expired = s.setPhase i (.found value)) ∨
    (s.givesUp kind expired = true ∧ ∃ rejection,
      s.iterate i kind expired = (s.setPhase i (.settled (.rejected rejection))).cancel) ∨
    (s.cancelled = false ∧ s.iterate i kind expired = s.setPhase i .waiting) := by
  rw [iterate]
  cases hp : s.probe kind with
  | some value => exact .inl ⟨value, rfl, rfl⟩
  | none =>
    cases ha : s.abort kind with
    | some reason => exact .inr (.inl ⟨by rw [givesUp, hp, ha]; rfl, _, rfl⟩)
    | none =>
      cases expired with
      | true => exact .inr (.inl ⟨by rw [givesUp, hp, Bool.or_true]; rfl, _, rfl⟩)
      | false =>
        refine .inr (.inr ⟨Bool.eq_false_iff.mpr fun hc => ?_, rfl⟩)
        have := abort_of_cancelled hc kind
        rw [ha] at this
        exact Bool.false_ne_true this

end Session

/-! ### A promise that has settled -/

namespace Session

def outcome (s : Session) (i : Nat) : Option Outcome := (s.calls[i]?).bind fun c => c.view.outcome

variable {s : Session} {i : Nat} {outcome : Outcome}

theorem outcome_eq_some : s.outcome i = some outcome ↔
    ∃ c, s.calls[i]? = some c ∧ c.phase = .settled outcome := by
  rw [Session.outcome, Option.bind_eq_some_iff]
  refine exists_congr fun c => and_congr_right fun _ => ⟨Call.view_outcome, fun h => ?_⟩
  rw [Call.view, h]

theorem outcome_map {f : Call → Call} {t : Session} (ht : t.calls = s.calls.map f)
    (hf : ∀ c, c.phase = .settled outcome → (f c).phase = .settled outcome)
    (h : s.outcome i = some outcome) : t.outcome i = some outcome := by
  obtain ⟨c, hc, hp⟩ := outcome_eq_some.mp h
  exact outcome_eq_some.mpr ⟨f c, by rw [ht, List.getElem?_map, hc]; rfl, hf c hp⟩

theorem outcome_wake (h : s.outcome i = some outcome) : s.wake.outcome i = some outcome := by
  refine outcome_map rfl (fun c hp => ?_) h
  rw [Call.wake, if_neg (by rw [hp]; exact Phase.noConfusion)]
  exact hp

theorem outcome_cancel (h : s.outcome i = some outcome) : s.cancel.outcome i = some outcome := by
  refine outcome_map rfl (fun c hp => ?_) h
  show c.wake.phase = _
  rw [Call.wake, if_neg (by rw [hp]; exact Phase.noConfusion)]
  exact hp

theorem outcome_setPhase {j : Nat} (hij : j ≠ i) (phase : Phase) (h : s.outcome i = some outcome) :
    (s.setPhase j phase).outcome i = some outcome := by
  obtain ⟨c, hc, hp⟩ := outcome_eq_some.mp h
  exact outcome_eq_some.mpr ⟨c, (List.getElem?_modify_ne _ _ hij).trans hc, hp⟩

theorem outcome_call (kind : Kind) (phase : Phase) (h : s.outcome i = some outcome) :
    (s.call kind phase).outcome i = some outcome := by
  obtain ⟨c, hc, hp⟩ := outcome_eq_some.mp h
  refine outcome_eq_some.mpr ⟨c, ?_, hp⟩
  show (s.calls ++ _)[i]? = _
  rw [List.getElem?_append_left (List.getElem?_eq_some_iff.mp hc).1, hc]

theorem outcome_iterate {j : Nat} (hij : j ≠ i) (kind : Kind) (expired : Bool)
    (h : s.outcome i = some outcome) : (s.iterate j kind expired).outcome i = some outcome := by
  obtain ⟨_, -, he⟩ | ⟨-, _, he⟩ | ⟨-, he⟩ := s.iterate_cases j kind expired
  · rw [he]
    exact outcome_setPhase hij _ h
  · rw [he]
    exact outcome_cancel (outcome_setPhase hij _ h)
  · rw [he]
    exact outcome_setPhase hij _ h

/-- What a promise has settled with stays. -/
theorem outcome_step (h : s.outcome i = some outcome) (event : Event) :
    (s.step event).outcome i = some outcome := by
  have hne : ∀ {j : Nat} {c : Call}, s.calls[j]? = some c → c.phase.decided = false → j ≠ i := by
    rintro j c hc hd rfl
    obtain ⟨c', hc', hp⟩ := outcome_eq_some.mp h
    obtain rfl := Option.some.inj (hc.symm.trans hc')
    rw [hp] at hd
    exact Bool.false_ne_true hd.symm
  cases event with
  | start =>
    rw [step, start]
    split <;> exact outcome_call _ _ h
  | submit code =>
    rw [step, submit]
    split
    · exact outcome_call _ _ h
    dsimp only
    split
    · exact outcome_call _ _ h
    split
    · exact outcome_call _ _ h
    next => exact outcome_call _ _ h
  | cancel => exact outcome_cancel h
  | spawned j expired =>
    rw [step]
    split
    next hc => exact outcome_iterate (s := s.spawned) (hne hc rfl) _ _ h
    next => exact h
  | spawnFailed j rejection =>
    rw [step]
    split
    next hc => exact outcome_setPhase (hne hc rfl) _ h
    next => exact h
  | data k text =>
    rw [step]
    split
    · exact outcome_wake h
    · exact h
  | exit k =>
    rw [step]
    split
    · exact outcome_wake h
    · exact h
  | timeout j =>
    rw [step]
    split
    next hc =>
      split
      · exact outcome_setPhase (hne hc rfl) _ h
      · exact h
    next => exact h
  | delayed j expired =>
    rw [step]
    split
    next hc =>
      have henter : s.enter.outcome i = some outcome := by
        rw [enter]
        split
        · split <;> exact h
        · exact h
      split
      · exact outcome_iterate (hne hc rfl) _ _ henter
      · exact h
    next => exact h
  | resumed j expired =>
    rw [step]
    split
    next hc => exact outcome_iterate (hne hc rfl) _ _ h
    next => exact h
  | returned j =>
    rw [step]
    split
    next kind value _ _ hc =>
      cases kind with
      | start => exact outcome_setPhase (hne hc rfl) _ h
      | submit => exact outcome_cancel (outcome_setPhase (hne hc rfl) _ h)
    next => exact h

theorem outcome_runFrom (h : s.outcome i = some outcome) (events : List Event) :
    (machine.runFrom s events).outcome i = some outcome := by
  induction events generalizing s with
  | nil => exact h
  | cons event events ih => exact ih (outcome_step h event)

end Session

/-! ### Cancellation -/

namespace Session

variable (s : Session)

def phase (i : Nat) : Option Phase := (s.calls[i]?).map (·.phase)

/-- The event calls `cancel()`. -/
def callsCancel : Event → Bool
  | .cancel => true
  | .spawned i expired => match s.calls[i]? with
    | some { kind, phase := .spawning, .. } => s.spawned.givesUp kind expired
    | _ => false
  | .delayed i expired => match s.calls[i]? with
    | some { kind, phase := .entering, .. } => s.enter.givesUp kind expired
    | _ => false
  | .resumed i expired => match s.calls[i]? with
    | some { kind, phase := .woken, .. } => s.givesUp kind expired
    | _ => false
  | .returned i => match s.calls[i]? with
    | some { kind := .submit, phase := .found _, .. } => true
    | _ => false
  | _ => false

/-- What every step has to meet for the cancellation to latch. No child finishes spawning while
an earlier one is still held and alive, or after `cancel()` with a URL of an earlier child in the
buffer; the delay before Enter does not end after `cancel()` with a token in the buffer; and
`cancel()` is not called between the moment `waitFor` resolves and the one its method returns. -/
def Latching (event : Event) : Prop :=
  (match event with
    | .spawned i _ => s.phase i = some .spawning →
      (s.pty.bind (s.children[·]?)).all (·.exited) = true ∧
        (s.cancelled = true → authorizeUrl s.buffer = none)
    | .delayed i _ =>
      s.phase i = some .entering → s.cancelled = true → oauthToken s.buffer = none
    | _ => True) ∧
  (s.callsCancel event = true →
    ∀ j < s.calls.length, (s.phase j).any Phase.isFound = true → event = .returned j)

instance : ∀ event, Decidable (s.Latching event)
  | .spawned _ _ | .delayed _ _ => inferInstanceAs (Decidable (_ ∧ _))
  | .start | .submit _ | .cancel | .spawnFailed _ _ | .data _ _ | .exit _ | .timeout _
  | .resumed _ _ | .returned _ => inferInstanceAs (Decidable (True ∧ _))

end Session

/-- What holds of a call in a session with these fields. -/
structure CallOk (cancelled : Bool) (buffer : List Char) (c : Call) : Prop where
  spawning : c.phase = .spawning → c.kind = .start
  entering : c.phase = .entering → c.kind = .submit
  waiting : cancelled = true → c.phase ≠ .waiting
  woken : cancelled = true → c.phase = .woken → buffer = []
  doomed : c.doomed = true → cancelled = true ∧ c.phase.isFound = false ∧
    ∀ outcome, c.phase = .settled outcome → ∃ rejection, outcome = .rejected rejection
  late : c.late = true → c.kind = .submit → ∃ rejection, c.phase = .settled (.rejected rejection)
  started : c.kind = .start → ∀ result, c.phase ≠ .settled (.submitted result)

/-- The calls are in order, and a child that is neither signalled nor gone is the one held. -/
structure Tracked (s : Session) : Prop where
  calls : ∀ c ∈ s.calls, CallOk s.cancelled s.buffer c
  children : Held s.pty s.children

structure Inv (s : Session) : Prop extends Tracked s where
  released : s.cancelled = true → s.pty = none

namespace CallOk

variable {cancelled : Bool} {buffer : List Char} {c : Call}

theorem reject (H : CallOk cancelled buffer c) (rejection : Rejection) :
    CallOk cancelled buffer { c with phase := .settled (.rejected rejection) } where
  spawning := Phase.noConfusion
  entering := Phase.noConfusion
  waiting _ := Phase.noConfusion
  woken _ := Phase.noConfusion
  doomed h := ⟨(H.doomed h).1, rfl, fun _ h => ⟨rejection, (Phase.settled.inj h).symm⟩⟩
  late _ _ := ⟨rejection, rfl⟩
  started _ _ h := Outcome.noConfusion (Phase.settled.inj h)

/-- A call that is not decided goes on in a session that is not cancelled. -/
theorem resume (H : CallOk cancelled buffer c) (hn : cancelled ≠ true)
    (hpending : ∀ outcome, c.phase ≠ .settled outcome) {phase : Phase} (hs : phase ≠ .spawning)
    (he : phase ≠ .entering) (ho : ∀ outcome, phase ≠ .settled outcome) :
    CallOk cancelled buffer { c with phase } where
  spawning h := absurd h hs
  entering h := absurd h he
  waiting h := absurd h hn
  woken h := absurd h hn
  doomed h := absurd (H.doomed h).1 hn
  late hl hk := by
    obtain ⟨_, h⟩ := H.late hl hk
    exact absurd h (hpending _)
  started _ _ := ho _

theorem wake (H : CallOk cancelled buffer c) (hquiet : c.phase.queued = false) (text : List Char) :
    CallOk cancelled (buffer ++ text) c.wake := by
  rw [Call.wake]
  split
  next h =>
    have hc : cancelled ≠ true := fun hc => H.waiting hc h
    exact ⟨Phase.noConfusion, Phase.noConfusion, fun h => absurd h hc, fun h => absurd h hc,
      fun h => absurd (H.doomed h).1 hc, fun hl hk => by
        obtain ⟨_, h'⟩ := H.late hl hk
        exact Phase.noConfusion (h.symm.trans h'), fun _ _ => Phase.noConfusion⟩
  next h =>
    refine ⟨H.spawning, H.entering, H.waiting, fun _ hw => ?_, H.doomed, H.late, H.started⟩
    rw [hw] at hquiet
    exact absurd hquiet.symm Bool.false_ne_true

theorem onCancel (H : CallOk cancelled buffer c) (hfound : c.phase.isFound = false) :
    CallOk true [] c.onCancel := by
  have hwake : c.wake.phase = c.phase ∨ c.phase = .waiting ∧ c.wake.phase = .woken := by
    rw [Call.wake]
    split
    next h => exact .inr ⟨h, rfl⟩
    · exact .inl rfl
  have hkind : c.wake.kind = c.kind := by
    rw [Call.wake]
    split <;> rfl
  have hlate : c.wake.late = c.late := by
    rw [Call.wake]
    split <;> rfl
  refine ⟨?_, ?_, ?_, fun _ _ => rfl, ?_, ?_, ?_⟩
  · intro h
    obtain hw | ⟨-, hw⟩ := hwake
    · exact hkind.trans (H.spawning (hw.symm.trans h))
    · exact Phase.noConfusion (hw.symm.trans h)
  · intro h
    obtain hw | ⟨-, hw⟩ := hwake
    · exact hkind.trans (H.entering (hw.symm.trans h))
    · exact Phase.noConfusion (hw.symm.trans h)
  · intro _ h
    change c.wake.phase = .waiting at h
    rw [Call.wake] at h
    split at h
    · exact Phase.noConfusion h
    next hne => exact hne h
  · intro hd
    refine ⟨rfl, ?_, ?_⟩
    · change c.wake.phase.isFound = false
      obtain hw | ⟨-, hw⟩ := hwake
      · rw [hw, hfound]
      · rw [hw]
        rfl
    · intro outcome h
      obtain hw | ⟨-, hw⟩ := hwake
      · have hs : c.phase = .settled outcome := hw.symm.trans h
        have hd' : c.doomed = true := by
          have hd : (c.doomed || !c.phase.decided) = true := hd
          rwa [hs, Phase.decided, Bool.not_true, Bool.or_false] at hd
        exact (H.doomed hd').2.2 outcome hs
      · exact Phase.noConfusion (hw.symm.trans h)
  · intro hl hk
    obtain ⟨rejection, h⟩ := H.late (hlate.symm.trans hl) (hkind.symm.trans hk)
    obtain hw | ⟨hw, -⟩ := hwake
    · exact ⟨rejection, hw.trans h⟩
    · exact Phase.noConfusion (hw.symm.trans h)
  · intro hk result h
    obtain hw | ⟨-, hw⟩ := hwake
    · exact H.started (hkind.symm.trans hk) result (hw.symm.trans h)
    · exact Phase.noConfusion (hw.symm.trans h)

end CallOk

namespace Tracked

variable {s : Session}

theorem setPhase (H : Tracked s) {i : Nat} {phase : Phase}
    (h : ∀ c, s.calls[i]? = some c → CallOk s.cancelled s.buffer { c with phase }) :
    Tracked (s.setPhase i phase) where
  calls c hc := by
    obtain hc | ⟨c₀, hc₀, rfl⟩ := mem_modify hc
    · exact H.calls c hc
    · exact h c₀ hc₀
  children := H.children

theorem fail (H : Tracked s) (i : Nat) (rejection : Rejection) :
    Tracked (s.setPhase i (.settled (.rejected rejection))) :=
  H.setPhase fun c hc => (H.calls c (List.mem_of_getElem? hc)).reject rejection

/-- `cancel()` signals the child that the session holds, and no call succeeds after it. -/
theorem cancel (H : Tracked s) (hfound : ∀ c ∈ s.calls, c.phase.isFound = false) :
    Inv s.cancel where
  calls c hc := by
    obtain ⟨c₀, hc₀, rfl⟩ := List.mem_map.mp hc
    exact (H.calls c₀ hc₀).onCancel (hfound c₀ hc₀)
  children := H.children.kill
  released _ := rfl

/-- A round of `waitFor` that finds nothing after `cancel()` keeps the order of the calls. -/
theorem iterate (H : Tracked s) {i : Nat} {c : Call} {expired : Bool}
    (hc : s.calls[i]? = some c) (hpending : ∀ outcome, c.phase ≠ .settled outcome)
    (hprobe : s.cancelled = true → s.probe c.kind = none)
    (hfound : s.givesUp c.kind expired = true →
      ∀ j < s.calls.length, (s.phase j).any Phase.isFound = true → j = i) :
    Inv (s.iterate i c.kind expired) := by
  have hmem := H.calls c (List.mem_of_getElem? hc)
  obtain ⟨value, hv, he⟩ | ⟨hgive, rejection, he⟩ | ⟨hn, he⟩ := s.iterate_cases i c.kind expired
  · have hn : s.cancelled ≠ true := fun h =>
      Option.some_ne_none value (hv.symm.trans (hprobe h))
    rw [he]
    refine ⟨H.setPhase fun c' hc' => ?_, fun h => absurd h hn⟩
    obtain rfl := Option.some.inj (hc.symm.trans hc')
    exact hmem.resume hn hpending Phase.noConfusion Phase.noConfusion fun _ => Phase.noConfusion
  · rw [he]
    refine (H.fail i rejection).cancel fun c' hc' => ?_
    obtain ⟨j, hj⟩ := List.mem_iff_getElem?.mp hc'
    rw [Session.setPhase, List.getElem?_modify] at hj
    obtain ⟨c₀, hc₀, rfl⟩ := Option.map_eq_some_iff.mp hj
    split
    · rfl
    next hij =>
      rw [Bool.eq_false_iff]
      intro hf
      have hlt : j < s.calls.length := (List.getElem?_eq_some_iff.mp hc₀).1
      refine hij (hfound hgive j hlt ?_).symm
      rw [Session.phase, hc₀]
      exact hf
  · have hn : s.cancelled ≠ true := Bool.eq_false_iff.mp hn
    rw [he]
    refine ⟨H.setPhase fun c' hc' => ?_, fun h => absurd h hn⟩
    obtain rfl := Option.some.inj (hc.symm.trans hc')
    exact hmem.resume hn hpending Phase.noConfusion Phase.noConfusion fun _ => Phase.noConfusion

end Tracked

namespace Inv

variable {s : Session}

theorem call (H : Inv s) {kind : Kind} {phase : Phase}
    (h : CallOk s.cancelled s.buffer { kind, phase, late := s.cancelled }) :
    Inv (s.call kind phase) where
  calls c hc := by
    obtain hc | hc := List.mem_append.mp hc
    · exact H.calls c hc
    · rw [List.mem_singleton.mp hc]
      exact h
  children := H.children
  released := H.released

/-- A call that is refused at once. -/
theorem refuse (H : Inv s) (kind : Kind) (rejection : Rejection) :
    Inv (s.call kind (.settled (.rejected rejection))) :=
  H.call ⟨Phase.noConfusion, Phase.noConfusion, fun _ => Phase.noConfusion,
    fun _ => Phase.noConfusion, fun h => absurd h Bool.false_ne_true,
    fun _ _ => ⟨rejection, rfl⟩, fun _ _ h => Outcome.noConfusion (Phase.settled.inj h)⟩

theorem start (H : Inv s) : Inv s.start := by
  rw [Session.start]
  split
  · exact H.refuse ..
  · exact H.call ⟨fun _ => rfl, Phase.noConfusion, fun _ => Phase.noConfusion,
      fun _ => Phase.noConfusion, fun h => absurd h Bool.false_ne_true,
      fun _ hk => Kind.noConfusion hk, fun _ _ => Phase.noConfusion⟩

theorem submit (H : Inv s) (code : List Char) : Inv (s.submit code) := by
  rw [Session.submit]
  cases hpty : s.pty with
  | none => exact H.refuse ..
  | some k =>
    dsimp only
    split
    · exact H.refuse ..
    split
    · exact H.refuse ..
    have hn : s.cancelled ≠ true := fun h =>
      Option.some_ne_none k (hpty.symm.trans (H.released h))
    have hwritten : Inv { s with pty := some k, written := s.written ++ [(k, Lib.trim code)] } :=
      ⟨⟨H.calls, hpty ▸ H.children⟩, fun h => absurd h hn⟩
    exact hwritten.call ⟨Phase.noConfusion, fun _ => rfl, fun _ => Phase.noConfusion,
      fun _ => Phase.noConfusion, fun h => absurd h Bool.false_ne_true,
      fun h _ => absurd h hn, fun _ _ => Phase.noConfusion⟩

theorem probe_nil (kind : Kind) (h : s.buffer = []) : s.probe kind = none := by
  cases kind with
  | start => rw [Session.probe, h]; rfl
  | submit => rw [Session.probe, h]; rfl

theorem spawned (H : Inv s) (i : Nat) (expired : Bool)
    (hl : s.Latching (.spawned i expired)) : Inv (s.step (.spawned i expired)) := by
  rw [Session.step]
  split
  next kind doomed late hc =>
    have hcond := hl.1 (by rw [Session.phase, hc]; rfl)
    have hkind : kind = .start := (H.calls _ (List.mem_of_getElem? hc)).spawning rfl
    have htracked : Tracked s.spawned := ⟨H.calls, H.children.spawn hcond.1⟩
    refine htracked.iterate (c := ⟨kind, .spawning, doomed, late⟩) hc
      (fun _ => Phase.noConfusion) (fun h => ?_) fun hgive j hj hf => ?_
    · rw [hkind]
      exact hcond.2 h
    · have hcancel : s.callsCancel (.spawned i expired) = true := by
        rw [Session.callsCancel, hc]
        exact hgive
      exact absurd (hl.2 hcancel j hj hf) Event.noConfusion
  next => exact H

theorem data (H : Inv s) (k : Nat) (text : List Char) : Inv (s.step (.data k text)) := by
  rw [Session.step]
  split
  next h =>
    refine ⟨⟨fun c hc => ?_, H.children⟩, H.released⟩
    obtain ⟨c₀, hc₀, rfl⟩ := List.mem_map.mp hc
    exact (H.calls c₀ hc₀).wake (by simpa using List.all_eq_true.mp h.2 c₀ hc₀) text
  next => exact H

theorem exit (H : Inv s) (k : Nat) : Inv (s.step (.exit k)) := by
  rw [Session.step]
  split
  next h =>
    refine ⟨⟨fun c hc => ?_, H.children.exit k⟩, H.released⟩
    obtain ⟨c₀, hc₀, rfl⟩ := List.mem_map.mp hc
    have := (H.calls c₀ hc₀).wake (by simpa using List.all_eq_true.mp h.2 c₀ hc₀) []
    rwa [List.append_nil] at this
  next => exact H

theorem timeout (H : Inv s) (i : Nat) : Inv (s.step (.timeout i)) := by
  rw [Session.step]
  split
  next kind doomed late hc =>
    split
    · have hok := H.calls _ (List.mem_of_getElem? hc)
      have hn : s.cancelled ≠ true := fun h => hok.waiting h rfl
      refine ⟨H.toTracked.setPhase fun c' hc' => ?_, H.released⟩
      obtain rfl := Option.some.inj (hc.symm.trans hc')
      exact hok.resume hn (fun _ => Phase.noConfusion) Phase.noConfusion Phase.noConfusion
        fun _ => Phase.noConfusion
    · exact H
  next => exact H

theorem delayed (H : Inv s) (i : Nat) (expired : Bool)
    (hl : s.Latching (.delayed i expired)) : Inv (s.step (.delayed i expired)) := by
  have henter : s.enter.calls = s.calls ∧ s.enter.cancelled = s.cancelled ∧
      s.enter.buffer = s.buffer ∧ s.enter.children = s.children ∧ s.enter.pty = s.pty := by
    rw [Session.enter]
    split
    · split <;> exact ⟨rfl, rfl, rfl, rfl, rfl⟩
    · exact ⟨rfl, rfl, rfl, rfl, rfl⟩
  obtain ⟨hcalls, hcancelled, hbuffer, hchildren, hpty⟩ := henter
  rw [Session.step]
  split
  next kind doomed late hc =>
    split
    · have htracked : Tracked s.enter := by
        constructor
        · rw [hcalls, hcancelled, hbuffer]
          exact H.calls
        · rw [hchildren, hpty]
          exact H.children
      have hkind : kind = .submit := (H.calls _ (List.mem_of_getElem? hc)).entering rfl
      refine htracked.iterate (c := ⟨kind, .entering, doomed, late⟩) (hcalls.symm ▸ hc)
        (fun _ => Phase.noConfusion) (fun h => ?_) fun hgive j hj hf => ?_
      · rw [hkind, Session.probe, hbuffer]
        exact hl.1 (by rw [Session.phase, hc]; rfl) (hcancelled ▸ h)
      · have hcancel : s.callsCancel (.delayed i expired) = true := by
          rw [Session.callsCancel, hc]
          exact hgive
        rw [hcalls] at hj
        rw [Session.phase, hcalls] at hf
        exact absurd (hl.2 hcancel j hj hf) Event.noConfusion
    · exact H
  next => exact H

theorem resumed (H : Inv s) (i : Nat) (expired : Bool)
    (hl : s.Latching (.resumed i expired)) : Inv (s.step (.resumed i expired)) := by
  rw [Session.step]
  split
  next kind doomed late hc =>
    have hok := H.calls _ (List.mem_of_getElem? hc)
    refine H.toTracked.iterate (c := ⟨kind, .woken, doomed, late⟩) hc
      (fun _ => Phase.noConfusion) (fun h => probe_nil _ (hok.woken h rfl)) fun hgive j hj hf => ?_
    have hcancel : s.callsCancel (.resumed i expired) = true := by
      rw [Session.callsCancel, hc]
      exact hgive
    exact absurd (hl.2 hcancel j hj hf) Event.noConfusion
  next => exact H

theorem returned (H : Inv s) (i : Nat) (hl : s.Latching (.returned i)) :
    Inv (s.step (.returned i)) := by
  rw [Session.step]
  split
  next kind value doomed late hc =>
    have hok := H.calls _ (List.mem_of_getElem? hc)
    have hd : doomed ≠ true := fun h => absurd (hok.doomed h).2.1 Bool.false_ne_true.symm
    cases kind with
    | start =>
      refine ⟨H.toTracked.setPhase fun c' hc' => ?_, H.released⟩
      obtain rfl := Option.some.inj (hc.symm.trans hc')
      exact ⟨Phase.noConfusion, Phase.noConfusion, fun _ => Phase.noConfusion,
        fun _ => Phase.noConfusion, fun h => absurd h hd, fun _ hk => Kind.noConfusion hk,
        fun _ _ h => Outcome.noConfusion (Phase.settled.inj h)⟩
    | submit =>
      have hlate : late ≠ true := by
        intro h
        obtain ⟨_, h⟩ := hok.late h rfl
        exact Phase.noConfusion h
      refine Tracked.cancel (H.toTracked.setPhase fun c' hc' => ?_) fun c' hc' => ?_
      · obtain rfl := Option.some.inj (hc.symm.trans hc')
        exact ⟨Phase.noConfusion, Phase.noConfusion, fun _ => Phase.noConfusion,
          fun _ => Phase.noConfusion, fun h => absurd h hd, fun h _ => absurd h hlate,
          fun hk => Kind.noConfusion hk⟩
      · obtain ⟨j, hj⟩ := List.mem_iff_getElem?.mp hc'
        rw [Session.setPhase, List.getElem?_modify] at hj
        obtain ⟨c₀, hc₀, rfl⟩ := Option.map_eq_some_iff.mp hj
        split
        · rfl
        next hij =>
          rw [Bool.eq_false_iff]
          intro hf
          have hcancel : s.callsCancel (.returned i) = true := by
            rw [Session.callsCancel, hc]
          have he := hl.2 hcancel j (List.getElem?_eq_some_iff.mp hc₀).1
            (by rw [Session.phase, hc₀]; exact hf)
          exact hij (Event.returned.inj he)
  next => exact H

theorem step (H : Inv s) (event : Event) (hl : s.Latching event) : Inv (s.step event) := by
  cases event with
  | start => exact H.start
  | submit code => exact H.submit code
  | cancel =>
    refine H.toTracked.cancel fun c hc => ?_
    obtain ⟨j, hj⟩ := List.mem_iff_getElem?.mp hc
    rw [Bool.eq_false_iff]
    intro hf
    exact absurd (hl.2 rfl j (List.getElem?_eq_some_iff.mp hj).1
      (by rw [Session.phase, hj]; exact hf)) Event.noConfusion
  | spawned i expired => exact H.spawned i expired hl
  | spawnFailed i rejection =>
    rw [Session.step]
    split
    · exact ⟨H.toTracked.fail i rejection, H.released⟩
    · exact H
  | data k text => exact H.data k text
  | exit k => exact H.exit k
  | timeout i => exact H.timeout i
  | delayed i expired => exact H.delayed i expired hl
  | resumed i expired => exact H.resumed i expired hl
  | returned i => exact H.returned i hl

end Inv

theorem Inv.latched {s : Session} (H : Inv s) :
    Latched s.cancelled (s.calls.map Call.view) s.children where
  doomed v hv hd outcome ho := by
    obtain ⟨c, hc, rfl⟩ := List.mem_map.mp hv
    exact ((H.calls c hc).doomed hd).2.2 outcome (Call.view_outcome ho)
  late v hv hl result ho := by
    obtain ⟨c, hc, rfl⟩ := List.mem_map.mp hv
    have hs := Call.view_outcome ho
    cases hk : c.kind with
    | start => exact absurd hs ((H.calls c hc).started hk result)
    | submit =>
      obtain ⟨rejection, h⟩ := (H.calls c hc).late hl hk
      exact Outcome.noConfusion (Phase.settled.inj (h.symm.trans hs))
  children hc _ hchild := by
    have hheld := H.children
    rw [H.released hc] at hheld
    exact hheld.gone hchild

theorem Inv.initial : Inv machine.init where
  calls _ h := absurd h List.not_mem_nil
  children _ child h := absurd (h.symm.trans List.getElem?_nil) (Option.some_ne_none child)
  released _ := rfl

/-- In every run whose steps all meet the condition, the cancellation has latched. -/
theorem latched_of_latching {events : List Event}
    (h : machine.Along Session.Latching machine.init events) :
    Latched (machine.run events).cancelled ((machine.run events).calls.map Call.view)
      (machine.run events).children := by
  have hinv : Inv (machine.run events) :=
    Lib.Machine.runFrom_keeps_along (M := machine) (I := Inv)
      (fun _ event hl H => H.step event hl) Inv.initial h
  exact hinv.latched

end ClaudeSetupToken

end CliProxy.Auth
