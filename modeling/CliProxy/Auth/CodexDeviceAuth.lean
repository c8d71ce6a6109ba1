import CliProxy.Auth.LoginAdapter
import CliProxy.Auth.TerminalScrape

/-! # The device-code login of codex

`src/auth/adapters/codex-device-auth.ts`. The child is spawned synchronously; nothing is
submitted, and `wait()` follows the child to its own verdict. -/

namespace CliProxy.Auth.CodexDeviceAuth

/-- Where a call of `start()` or `wait()` is suspended. -/
inductive Phase where
  /-- `await this.nextEvent(remaining)`, or `await this.nextEvent()` in `wait()`. -/
  | waiting
  /-- `nextEvent` has resolved; the next round of the loop is queued. -/
  | woken
  /-- `waitFor` has resolved; the rest of `start()` is queued. -/
  | found (url code : List Char)
  | settled (outcome : Outcome)
  deriving DecidableEq, Repr

def Phase.decided : Phase → Bool
  | .settled _ => true
  | _ => false

def Phase.isFound : Phase → Bool
  | .found _ _ => true
  | _ => false

def Phase.queued : Phase → Bool
  | .woken | .found _ _ => true
  | _ => false

inductive Kind where
  | start | submit | wait
  deriving DecidableEq, Repr

structure Call where
  kind : Kind
  phase : Phase
  doomed : Bool := false
  late : Bool := false
  deriving DecidableEq, Repr

def Call.view (c : Call) : CallView where
  doomed := c.doomed
  late := c.late
  outcome := match c.phase with
    | .settled outcome => some outcome
    | _ => none

def Call.wake (c : Call) : Call :=
  if c.phase = .waiting then { c with phase := .woken } else c

def Call.onCancel (c : Call) : Call :=
  { c.wake with doomed := c.doomed || !c.phase.decided }

structure Session where
  /-- The child that the session holds, by its position in `children`. -/
  proc : Option Nat := none
  /-- Separate from `proc`, which `cancel()` nulls: a cancelled session was still started. -/
  started : Bool := false
  buffer : List Char := []
  exited : Bool := false
  exitCode : Option Int := none
  cancelled : Bool := false
  children : List Child := []
  calls : List Call := []

inductive Event where
  | start (expired : Bool)
  /-- `start()` where the spawn function throws. -/
  | startThrows (rejection : Rejection)
  | submit
  | wait
  | cancel
  | data (child : Nat) (text : List Char)
  | exit (child : Nat) (exitCode : Option Int)
  | timeout (call : Nat)
  | resumed (call : Nat) (expired : Bool)
  | returned (call : Nat)
  deriving DecidableEq, Repr

namespace Session

variable (s : Session)

def call (kind : Kind) (phase : Phase) : Session :=
  { s with calls := s.calls ++ [{ kind, phase, late := s.cancelled }] }

def setPhase (i : Nat) (phase : Phase) : Session :=
  { s with calls := s.calls.modify i fun c => { c with phase } }

def fail (i : Nat) (message code : String) : Session :=
  s.setPhase i (.settled (.rejected (.auth message code)))

def wake : Session := { s with calls := s.calls.map Call.wake }

/-- Wakes whoever waits and kills the child; the output stays. -/
def cancel : Session :=
  { s with
    proc := none
    cancelled := true
    children := kill s.proc s.children
    calls := s.calls.map Call.onCancel }

def tail : List Char := lastChars 300 (Lib.trim (lastLines s.buffer))

/-- One round of `waitFor`. -/
def iterate (i : Nat) (expired : Bool) : Session :=
  match deviceCode s.buffer with
  | some (url, code) => s.setPhase i (.found url code)
  | none =>
    if s.cancelled then s.fail i "Login was cancelled" "session_cancelled"
    else if s.exited then
      (s.fail i (withDetail "codex login exited before printing a device code" s.tail)
        "login_failed").cancel
    else if expired then
      (s.fail i "Timed out waiting for codex to print its device code"
        "verification_url_timeout").cancel
    else s.setPhase i .waiting

def exitText : Option Int → String
  | some code => "exit " ++ toString code
  | none => "exit null"

/-- The verdict of `codex login`. The CLI persisted the credential itself; nothing to hold. -/
def verdict : Outcome :=
  if s.cancelled then .rejected (.auth "Login was cancelled" "session_cancelled")
  else if s.exitCode ≠ some 0 then .rejected (.auth ("codex login failed: " ++
    if s.tail = [] then exitText s.exitCode else String.ofList s.tail) "login_failed")
  else .submitted {}

/-- One round of the loop of `wait()`. -/
def follow (i : Nat) : Session :=
  if s.exited || s.cancelled then s.setPhase i (.settled s.verdict) else s.setPhase i .waiting

def startResult (url code : List Char) : AuthStartResult where
  verificationUrl := some (String.ofList url)
  userCode := some (String.ofList code)
  instructions := "Open the URL, sign in to ChatGPT, and enter the one-time code " ++
    String.ofList code ++ ". The login completes on its own — poll this session for the result."

def refuse (kind : Kind) (message code : String) : Session :=
  s.call kind (.settled (.rejected (.auth message code)))

/-- `this.proc = spawnFn("codex", ["login", "--device-auth"])` -/
def spawned : Session :=
  { s with
    started := true
    proc := some s.children.length
    children := s.children ++ [{}] }

def start (expired : Bool) : Session :=
  if s.started then s.refuse .start "Session already started" "session_already_started"
  else (s.spawned.call .start .woken).iterate s.calls.length expired

def wait : Session :=
  if s.started then (s.call .wait .woken).follow s.calls.length
  else s.refuse .wait "Session not started" "session_not_started"

def submissionNotSupported : String :=
  "The device-code flow takes no submission: enter the code at the verification URL, " ++
    "then poll the session."

def quiescent : Bool := s.calls.all fun c => !c.phase.queued

/-- An event that cannot occur changes nothing. -/
def step : Event → Session
  | .start expired => s.start expired
  | .startThrows rejection =>
    if s.started then s.refuse .start "Session already started" "session_already_started"
    else { s with started := true }.call .start (.settled (.rejected rejection))
  | .submit => s.refuse .submit submissionNotSupported "submission_not_supported"
  | .wait => s.wait
  | .cancel => s.cancel
  | .data k text =>
    if k < s.children.length ∧ s.quiescent then
      { s with buffer := s.buffer ++ text }.wake
    else s
  | .exit k exitCode =>
    if k < s.children.length ∧ s.quiescent then
      { s with
        -- The handle is dropped, so that no reused process group is ever signalled.
        proc := none
        exited := true
        exitCode
        children := s.children.modify k fun child => { child with exited := true } }.wake
    else s
  | .timeout i => match s.calls[i]? with
    | some { kind := .start, phase := .waiting, .. } =>
      if s.quiescent then s.setPhase i .woken else s
    | _ => s
  | .resumed i expired => match s.calls[i]? with
    | some { kind := .start, phase := .woken, .. } => s.iterate i expired
    | some { kind := .wait, phase := .woken, .. } => s.follow i
    | _ => s
  | .returned i => match s.calls[i]? with
    | some { phase := .found url code, .. } =>
      s.setPhase i (.settled (.started (startResult url code)))
    | _ => s

def phase (i : Nat) : Option Phase := (s.calls[i]?).map (·.phase)

/-- The round of `waitFor` ends in `cancel()`. -/
def givesUp (expired : Bool) : Bool :=
  (deviceCode s.buffer).isNone && !s.cancelled && (s.exited || expired)

/-- The event calls `cancel()`. -/
def callsCancel : Event → Bool
  | .cancel => true
  | .start expired => !s.started && s.givesUp expired
  | .resumed i expired => match s.calls[i]? with
    | some { kind := .start, phase := .woken, .. } => s.givesUp expired
    | _ => false
  | _ => false

/-- What every step has to meet for the cancellation to latch. `start()` is not called for the
first time after `cancel()`; a waiter of `start()` is not resumed after `cancel()` with the URL
and the code in the buffer; and `cancel()` is not called between the moment `waitFor` resolves
and the one `start()` returns. -/
def Latching (event : Event) : Prop :=
  (match event with
    | .start _ => s.started = false → s.cancelled = false
    | .resumed i _ => (s.calls[i]?).any (fun c => c.kind = .start && c.phase = .woken) = true →
      s.cancelled = true → deviceCode s.buffer = none
    | _ => True) ∧
  (s.callsCancel event = true →
    ∀ j < s.calls.length, (s.phase j).any Phase.isFound = true → event = .returned j)

instance : ∀ event, Decidable (s.Latching event)
  | .start _ | .resumed _ _ => inferInstanceAs (Decidable (_ ∧ _))
  | .startThrows _ | .submit | .wait | .cancel | .data _ _ | .exit _ _ | .timeout _
  | .returned _ => inferInstanceAs (Decidable (True ∧ _))

end Session

def machine : Lib.Machine Session Event where
  init := {}
  step := Session.step

/-! ### A promise that has settled -/

theorem Call.view_outcome {c : Call} {outcome : Outcome} (h : c.view.outcome = some outcome) :
    c.phase = .settled outcome := by
  rw [view] at h
  dsimp only at h
  split at h
  next hs => rw [hs, Option.some.inj h]
  · exact absurd h.symm (Option.some_ne_none outcome)

theorem Session.iterate_cases (s : Session) (i : Nat) (expired : Bool) :
    (∃ url code, deviceCode s.buffer = some (url, code) ∧
      s.iterate i expired = s.setPhase i (.found url code)) ∨
    (∃ rejection, s.iterate i expired = s.setPhase i (.settled (.rejected rejection))) ∨
    (s.givesUp expired = true ∧ ∃ rejection,
      s.iterate i expired = (s.setPhase i (.settled (.rejected rejection))).cancel) ∨
    (s.cancelled = false ∧ s.iterate i expired = s.setPhase i .waiting) := by
  rw [iterate, givesUp]
  cases hp : deviceCode s.buffer with
  | some found => exact .inl ⟨_, _, rfl, rfl⟩
  | none =>
    dsimp only
    cases hc : s.cancelled with
    | true => exact .inr (.inl ⟨_, rfl⟩)
    | false =>
      cases he : s.exited with
      | true => exact .inr (.inr (.inl ⟨rfl, _, rfl⟩))
      | false =>
        cases expired with
        | true => exact .inr (.inr (.inl ⟨rfl, _, rfl⟩))
        | false => exact .inr (.inr (.inr ⟨rfl, rfl⟩))

namespace Session

def outcome (s : Session) (i : Nat) : Option Outcome := (s.calls[i]?).bind fun c => c.view.outcome

variable {s : Session} {i : Nat} {outcome : Outcome}

theorem outcome_eq_some : s.outcome i = some outcome ↔
    ∃ c, s.calls[i]? = some c ∧ c.phase = .settled outcome := by
  rw [Session.outcome, Option.bind_eq_some_iff]
  refine exists_congr fun c => and_congr_right fun _ => ⟨Call.view_outcome, fun h => ?_⟩
  rw [Call.view, h]

theorem outcome_map {f : Call → Call} {t : Session} (ht : t.calls = s.calls.map f)
    (hf : ∀ c, c.phase = .settled outcome → (f c).phase = .settled outcome)
    (h : s.outcome i = some outcome) : t.outcome i = some outcome := by
  obtain ⟨c, hc, hp⟩ := outcome_eq_some.mp h
  exact outcome_eq_some.mpr ⟨f c, by rw [ht, List.getElem?_map, hc]; rfl, hf c hp⟩

theorem outcome_wake (h : s.outcome i = some outcome) : s.wake.outcome i = some outcome := by
  refine outcome_map rfl (fun c hp => ?_) h
  rw [Call.wake, if_neg (by rw [hp]; exact Phase.noConfusion)]
  exact hp

theorem outcome_cancel (h : s.outcome i = some outcome) : s.cancel.outcome i = some outcome := by
  refine outcome_map rfl (fun c hp => ?_) h
  show c.wake.phase = _
  rw [Call.wake, if_neg (by rw [hp]; exact Phase.noConfusion)]
  exact hp

theorem outcome_setPhase {j : Nat} (hij : j ≠ i) (phase : Phase) (h : s.outcome i = some outcome) :
    (s.setPhase j phase).outcome i = some outcome := by
  obtain ⟨c, hc, hp⟩ := outcome_eq_some.mp h
  exact outcome_eq_some.mpr ⟨c, (List.getElem?_modify_ne _ _ hij).trans hc, hp⟩

theorem outcome_call (kind : Kind) (phase : Phase) (h : s.outcome i = some outcome) :
    (s.call kind phase).outcome i = some outcome := by
  obtain ⟨c, hc, hp⟩ := outcome_eq_some.mp h
  refine outcome_eq_some.mpr ⟨c, ?_, hp⟩
  show (s.calls ++ _)[i]? = _
  rw [List.getElem?_append_left (List.getElem?_eq_some_iff.mp hc).1, hc]

theorem outcome_iterate {j : Nat} (hij : j ≠ i) (expired : Bool)
    (h : s.outcome i = some outcome) : (s.iterate j expired).outcome i = some outcome := by
  obtain ⟨_, _, -, he⟩ | ⟨_, he⟩ | ⟨-, _, he⟩ | ⟨-, he⟩ := s.iterate_cases j expired
  · rw [he]
    exact outcome_setPhase hij _ h
  · rw [he]
    exact outcome_setPhase hij _ h
  · rw [he]
    exact outcome_cancel (outcome_setPhase hij _ h)
  · rw [he]
    exact outcome_setPhase hij _ h

theorem outcome_follow {j : Nat} (hij : j ≠ i) (h : s.outcome i = some outcome) :
    (s.follow j).outcome i = some outcome := by
  rw [follow]
  split <;> exact outcome_setPhase hij _ h

/-- What a promise has settled with stays. -/
theorem outcome_step (h : s.outcome i = some outcome) (event : Event) :
    (s.step event).outcome i = some outcome := by
  have hne : ∀ {j : Nat} {c : Call}, s.calls[j]? = some c → c.phase.decided = false → j ≠ i := by
    rintro j c hc hd rfl
    obtain ⟨c', hc', hp⟩ := outcome_eq_some.mp h
    obtain rfl := Option.some.inj (hc.symm.trans hc')
    rw [hp] at hd
    exact Bool.false_ne_true hd.symm
  have hnew : s.calls.length ≠ i := by
    obtain ⟨_, hc, -⟩ := outcome_eq_some.mp h
    exact Nat.ne_of_gt (List.getElem?_eq_some_iff.mp hc).1
  cases event with
  | start expired =>
    rw [step, start]
    split
    · exact outcome_call _ _ h
    · exact outcome_iterate hnew _ (outcome_call (s := s.spawned) _ _ h)
  | startThrows rejection =>
    rw [step]
    split
    · exact outcome_call _ _ h
    · exact outcome_call (s := { s with started := true }) _ _ h
  | submit => exact outcome_call _ _ h
  | wait =>
    rw [step, wait]
    split
    · exact outcome_follow hnew (outcome_call _ _ h)
    · exact outcome_call _ _ h
  | cancel => exact outcome_cancel h
  | data k text =>
    rw [step]
    split
    · exact outcome_wake h
    · exact h
  | exit k =>
    rw [step]
    split
    · exact outcome_wake h
    · exact h
  | timeout j =>
    rw [step]
    split
    next hc =>
      split
      · exact outcome_setPhase (hne hc rfl) _ h
      · exact h
    next => exact h
  | resumed j expired =>
    rw [step]
    split
    next hc => exact outcome_iterate (hne hc rfl) _ h
    next hc => exact outcome_follow (hne hc rfl) h
    next => exact h
  | returned j =>
    rw [step]
    split
    next hc => exact outcome_setPhase (hne hc rfl) _ h
    next => exact h

theorem outcome_runFrom (h : s.outcome i = some outcome) (events : List Event) :
    (machine.runFrom s events).outcome i = some outcome := by
  induction events generalizing s with
  | nil => exact h
  | cons event events ih => exact ih (outcome_step h event)

end Session

/-! ### Cancellation -/

/-- What holds of a call in a session that is cancelled or not. -/
structure CallOk (cancelled : Bool) (c : Call) : Prop where
  waiting : cancelled = true → c.phase ≠ .waiting
  doomed : c.doomed = true → cancelled = true ∧ c.phase.isFound = false ∧
    ∀ outcome, c.phase = .settled outcome → ∃ rejection, outcome = .rejected rejection
  submitted : ∀ result, c.phase = .settled (.submitted result) → result.credential = none

/-- The calls are in order, and a child that is neither signalled nor gone is the one held. -/
structure Inv (s : Session) : Prop where
  calls : ∀ c ∈ s.calls, CallOk s.cancelled c
  children : Held s.proc s.children
  released : s.cancelled = true → s.proc = none
  unstarted : s.started = false → s.proc = none ∧ s.children = []
  single : s.children.length ≤ 1

namespace CallOk

variable {cancelled : Bool} {c : Call}

theorem reject (H : CallOk cancelled c) (rejection : Rejection) :
    CallOk cancelled { c with phase := .settled (.rejected rejection) } where
  waiting _ := Phase.noConfusion
  doomed h := ⟨(H.doomed h).1, rfl, fun _ h => ⟨rejection, (Phase.settled.inj h).symm⟩⟩
  submitted _ h := Outcome.noConfusion (Phase.settled.inj h)

/-- A call in a session that is not cancelled may do anything but hand out a credential. -/
theorem free (hn : cancelled ≠ true) (hd : c.doomed = true → cancelled = true)
    (hs : ∀ result, c.phase = .settled (.submitted result) → result.credential = none) :
    CallOk cancelled c where
  waiting h := absurd h hn
  doomed h := absurd (hd h) hn
  submitted := hs

theorem wake (H : CallOk cancelled c) : CallOk cancelled c.wake := by
  rw [Call.wake]
  split
  next h =>
    have hn : cancelled ≠ true := fun hc => H.waiting hc h
    exact free hn (fun hd => (H.doomed hd).1) fun _ => Phase.noConfusion
  next => exact H

theorem onCancel (H : CallOk cancelled c) (hfound : c.phase.isFound = false) :
    CallOk true c.onCancel := by
  rw [Call.onCancel, Call.wake]
  split
  next h =>
    exact ⟨fun _ => Phase.noConfusion, fun _ => ⟨rfl, rfl, fun _ => Phase.noConfusion⟩,
      fun _ => Phase.noConfusion⟩
  next h =>
    refine ⟨fun _ => h, fun hd => ⟨rfl, hfound, fun outcome ho => ?_⟩, H.submitted⟩
    have hd : (c.doomed || !c.phase.decided) = true := hd
    have ho : c.phase = .settled outcome := ho
    rw [ho, Phase.decided, Bool.not_true, Bool.or_false] at hd
    exact (H.doomed hd).2.2 outcome ho

end CallOk

namespace Inv

variable {s : Session}

theorem setPhase (H : Inv s) {i : Nat} {phase : Phase}
    (h : ∀ c, s.calls[i]? = some c → CallOk s.cancelled { c with phase }) :
    Inv (s.setPhase i phase) where
  calls c hc := by
    obtain hc | ⟨c₀, hc₀, rfl⟩ := mem_modify hc
    · exact H.calls c hc
    · exact h c₀ hc₀
  children := H.children
  released := H.released
  unstarted := H.unstarted
  single := H.single

theorem fail (H : Inv s) (i : Nat) (rejection : Rejection) :
    Inv (s.setPhase i (.settled (.rejected rejection))) :=
  H.setPhase fun c hc => (H.calls c (List.mem_of_getElem? hc)).reject rejection

theorem call (H : Inv s) (kind : Kind) {phase : Phase} (hp : phase ≠ .waiting)
    (hs : ∀ result, phase = .settled (.submitted result) → result.credential = none) :
    Inv (s.call kind phase) where
  calls c hc := by
    obtain hc | hc := List.mem_append.mp hc
    · exact H.calls c hc
    · rw [List.mem_singleton.mp hc]
      exact ⟨fun _ => hp, fun h => absurd h Bool.false_ne_true, hs⟩
  children := H.children
  released := H.released
  unstarted := H.unstarted
  single := H.single

theorem refuse (H : Inv s) (kind : Kind) (message code : String) :
    Inv (s.refuse kind message code) :=
  H.call kind Phase.noConfusion fun _ h => Outcome.noConfusion (Phase.settled.inj h)

theorem cancel (H : Inv s) (hfound : ∀ c ∈ s.calls, c.phase.isFound = false) :
    Inv s.cancel where
  calls c hc := by
    obtain ⟨c₀, hc₀, rfl⟩ := List.mem_map.mp hc
    exact (H.calls c₀ hc₀).onCancel (hfound c₀ hc₀)
  children := H.children.kill
  released _ := rfl
  unstarted h := ⟨rfl, by rw [Session.cancel, (H.unstarted h).2, (H.unstarted h).1]; rfl⟩
  single := by
    rw [Session.cancel, length_kill]
    exact H.single

theorem iterate (H : Inv s) {i : Nat} {expired : Bool}
    (hprobe : s.cancelled = true → deviceCode s.buffer = none)
    (hfound : s.givesUp expired = true →
      ∀ j < s.calls.length, (s.phase j).any Phase.isFound = true → j = i) :
    Inv (s.iterate i expired) := by
  obtain ⟨url, code, hv, he⟩ | ⟨rejection, he⟩ | ⟨hgive, rejection, he⟩ | ⟨hn, he⟩ :=
    s.iterate_cases i expired
  · have hn : s.cancelled ≠ true := fun h =>
      Option.some_ne_none _ (hv.symm.trans (hprobe h))
    rw [he]
    exact H.setPhase fun c hc => .free hn
      (fun hd => ((H.calls c (List.mem_of_getElem? hc)).doomed hd).1) fun _ => Phase.noConfusion
  · rw [he]
    exact H.fail i rejection
  · rw [he]
    refine (H.fail i rejection).cancel fun c hc => ?_
    obtain ⟨j, hj⟩ := List.mem_iff_getElem?.mp hc
    rw [Session.setPhase, List.getElem?_modify] at hj
    obtain ⟨c₀, hc₀, rfl⟩ := Option.map_eq_some_iff.mp hj
    split
    · rfl
    next hij =>
      rw [Bool.eq_false_iff]
      intro hf
      have hlt : j < s.calls.length := (List.getElem?_eq_some_iff.mp hc₀).1
      refine hij (hfound hgive j hlt ?_).symm
      rw [Session.phase, hc₀]
      exact hf
  · rw [he]
    exact H.setPhase fun c hc => .free (Bool.eq_false_iff.mp hn)
      (fun hd => ((H.calls c (List.mem_of_getElem? hc)).doomed hd).1) fun _ => Phase.noConfusion

/-- `wait()` never succeeds once the session is cancelled. -/
theorem follow (H : Inv s) (i : Nat) : Inv (s.follow i) := by
  rw [Session.follow]
  split
  · rw [Session.verdict]
    split
    · exact H.fail i _
    next hn =>
      split
      · exact H.fail i _
      · exact H.setPhase fun c hc => .free hn
          (fun hd => ((H.calls c (List.mem_of_getElem? hc)).doomed hd).1)
          fun result h => by
            rw [← Outcome.submitted.inj (Phase.settled.inj h)]
  next hn =>
    rw [Bool.or_eq_true, not_or] at hn
    exact H.setPhase fun c hc => .free hn.2
      (fun hd => ((H.calls c (List.mem_of_getElem? hc)).doomed hd).1) fun _ => Phase.noConfusion

theorem start (H : Inv s) (expired : Bool) (hl : s.Latching (.start expired)) :
    Inv (s.start expired) := by
  rw [Session.start]
  split
  · exact H.refuse ..
  next hstarted =>
    have hstarted := Bool.eq_false_iff.mpr hstarted
    have hn := hl.1 hstarted
    obtain ⟨hproc, hnil⟩ := H.unstarted hstarted
    have hspawned : Inv s.spawned := by
      refine ⟨H.calls, H.children.spawn (by rw [hproc]; rfl), fun h => ?_, fun h => ?_, ?_⟩
      · exact absurd (hn.symm.trans h) Bool.false_ne_true
      · exact absurd h Bool.false_ne_true.symm
      · rw [Session.spawned, hnil]
        exact Nat.le_refl 1
    refine (hspawned.call .start Phase.noConfusion fun _ => Phase.noConfusion).iterate
      (fun h => absurd (hn.symm.trans h) Bool.false_ne_true) fun hgive j hj hf => ?_
    have hcancel : s.callsCancel (.start expired) = true := by
      rw [Session.callsCancel, hstarted]
      exact hgive
    rw [Session.phase, Session.call, List.getElem?_append] at hf
    split at hf
    next hlt => exact absurd (hl.2 hcancel j hlt hf) Event.noConfusion
    next hge =>
      rw [Session.call, List.length_append, List.length_singleton] at hj
      exact Nat.le_antisymm (Nat.le_of_lt_succ hj) (Nat.le_of_not_lt hge)

theorem wait (H : Inv s) : Inv s.wait := by
  rw [Session.wait]
  split
  · exact (H.call .wait Phase.noConfusion fun _ => Phase.noConfusion).follow _
  · exact H.refuse ..

theorem wake (H : Inv s) : Inv s.wake where
  calls c hc := by
    obtain ⟨c₀, hc₀, rfl⟩ := List.mem_map.mp hc
    exact (H.calls c₀ hc₀).wake
  children := H.children
  released := H.released
  unstarted := H.unstarted
  single := H.single

theorem exit (H : Inv s) (k : Nat) (exitCode : Option Int) : Inv (s.step (.exit k exitCode)) := by
  rw [Session.step]
  split
  next hk =>
    have hk := hk.1
    have hsingle := H.single
    refine wake ⟨H.calls, fun j child hchild => ?_, fun _ => rfl, fun h => ?_, ?_⟩
    · rw [List.getElem?_modify] at hchild
      obtain ⟨child₀, hchild₀, he⟩ := Option.map_eq_some_iff.mp hchild
      split at he
      next => exact .inr (.inl (he ▸ rfl))
      next hkj =>
        have hj := (List.getElem?_eq_some_iff.mp hchild₀).1
        exact absurd (by omega : k = j) hkj
    · rw [(H.unstarted h).2] at hk
      exact absurd hk (Nat.not_lt_zero k)
    · rw [List.length_modify]
      exact hsingle
  · exact H

theorem step (H : Inv s) (event : Event) (hl : s.Latching event) : Inv (s.step event) := by
  cases event with
  | start expired => exact H.start expired hl
  | startThrows rejection =>
    rw [Session.step]
    split
    · exact H.refuse ..
    · have hstarted : Inv { s with started := true } :=
        ⟨H.calls, H.children, H.released, fun h => absurd h Bool.false_ne_true.symm, H.single⟩
      exact hstarted.call .start Phase.noConfusion
        fun _ h => Outcome.noConfusion (Phase.settled.inj h)
  | submit => exact H.refuse ..
  | wait => exact H.wait
  | cancel =>
    refine H.cancel fun c hc => ?_
    obtain ⟨j, hj⟩ := List.mem_iff_getElem?.mp hc
    rw [Bool.eq_false_iff]
    intro hf
    exact absurd (hl.2 rfl j (List.getElem?_eq_some_iff.mp hj).1
      (by rw [Session.phase, hj]; exact hf)) Event.noConfusion
  | data k text =>
    rw [Session.step]
    split
    · exact wake ⟨H.calls, H.children, H.released, H.unstarted, H.single⟩
    · exact H
  | exit k exitCode => exact H.exit k exitCode
  | timeout i =>
    rw [Session.step]
    split
    next doomed late hc =>
      have hok := H.calls _ (List.mem_of_getElem? hc)
      split
      · refine H.setPhase fun c' hc' => ?_
        obtain rfl := Option.some.inj (hc.symm.trans hc')
        exact .free (fun h => hok.waiting h rfl) (fun hd => (hok.doomed hd).1)
          fun _ => Phase.noConfusion
      · exact H
    next => exact H
  | resumed i expired =>
    rw [Session.step]
    split
    next doomed late hc =>
      refine H.iterate (hl.1 (by rw [hc]; rfl)) fun hgive j hj hf => ?_
      have hcancel : s.callsCancel (.resumed i expired) = true := by
        rw [Session.callsCancel, hc]
        exact hgive
      exact absurd (hl.2 hcancel j hj hf) Event.noConfusion
    next => exact H.follow i
    next => exact H
  | returned i =>
    rw [Session.step]
    split
    next kind url code doomed late hc =>
      have hok := H.calls _ (List.mem_of_getElem? hc)
      refine H.setPhase fun c' hc' => ?_
      obtain rfl := Option.some.inj (hc.symm.trans hc')
      exact ⟨fun _ => Phase.noConfusion,
        fun hd => absurd (hok.doomed hd).2.1 Bool.false_ne_true.symm,
        fun _ h => Outcome.noConfusion (Phase.settled.inj h)⟩
    next => exact H

end Inv

theorem Inv.latched {s : Session} (H : Inv s) :
    Latched s.cancelled (s.calls.map Call.view) s.children where
  doomed v hv hd outcome ho := by
    obtain ⟨c, hc, rfl⟩ := List.mem_map.mp hv
    exact ((H.calls c hc).doomed hd).2.2 outcome (Call.view_outcome ho)
  late v hv _ result ho := by
    obtain ⟨c, hc, rfl⟩ := List.mem_map.mp hv
    exact (H.calls c hc).submitted result (Call.view_outcome ho)
  children hc _ hchild := by
    have hheld := H.children
    rw [H.released hc] at hheld
    exact hheld.gone hchild

theorem Inv.initial : Inv machine.init where
  calls _ h := absurd h List.not_mem_nil
  children _ child h := absurd (h.symm.trans List.getElem?_nil) (Option.some_ne_none child)
  released _ := rfl
  unstarted _ := ⟨rfl, rfl⟩
  single := Nat.zero_le 1

/-- In every run whose steps all meet the condition, the cancellation has latched. -/
theorem latched_of_latching {events : List Event}
    (h : machine.Along Session.Latching machine.init events) :
    Latched (machine.run events).cancelled ((machine.run events).calls.map Call.view)
      (machine.run events).children := by
  have hinv : Inv (machine.run events) :=
    Lib.Machine.runFrom_keeps_along (M := machine) (I := Inv)
      (fun _ event hl H => H.step event hl) Inv.initial h
  exact hinv.latched

end CliProxy.Auth.CodexDeviceAuth
