import CliProxy.Auth.ScrapedOutput

/-! # Sessions whose output arrives in pieces

The runs in which a child prints a text in several data events, with nothing else in between, and
what the methods that scrape it resolve with. -/

namespace CliProxy.Auth

/-- The first buffer in which the probe finds a value, with that value and the output that
follows. A buffer in which the wait is given up ends the search. -/
def acceptedAt {β : Type} (probe : List Char → Option β) (abort : List Char → Bool) :
    (buffer : List Char) → (chunks : List (List Char)) → Option (β × List Char × List Char)
  | _, [] => none
  | buffer, chunk :: chunks => match probe (buffer ++ chunk) with
    | some value => some (value, buffer ++ chunk, chunks.flatten)
    | none =>
      if abort (buffer ++ chunk) then none else acceptedAt probe abort (buffer ++ chunk) chunks

namespace ClaudeSetupToken

/-- The child prints `text`, and the continuations that this has queued run. -/
def printed (text : List Char) : List Event :=
  [.data 0 text, .resumed 0 false, .returned 0, .resumed 1 false, .returned 1]

/-- A session that holds its first child. -/
def opened (buffer : List Char) (written : List (Nat × List Char)) (calls : List Call) : Session :=
  { pty := some 0, buffer, children := [{}], written, calls }

/-- Where `start()` is once it has read the buffer. -/
def startPhase (buffer : List Char) : Phase → Phase
  | .waiting => match authorizeUrl buffer with
    | some url => .settled (.started (Session.startResult url))
    | none => .waiting
  | phase => phase

/-- A call that is not about to be resumed. -/
def Phase.Quiet (phase : Phase) : Prop := phase = .waiting ∨ ∃ outcome, phase = .settled outcome

theorem startPhase_quiet {phase : Phase} (h : phase.Quiet) (buffer : List Char) :
    (startPhase buffer phase).Quiet := by
  obtain rfl | ⟨outcome, rfl⟩ := h
  · rw [startPhase]
    cases authorizeUrl buffer with
    | some url => exact .inr ⟨_, rfl⟩
    | none => exact .inl rfl
  · exact .inr ⟨outcome, rfl⟩

section
variable {phase : Phase} (hphase : phase.Quiet) (buffer text : List Char)
  (written : List (Nat × List Char))
include hphase

/-- Output is read by `start()` at once, if it still waits. -/
theorem printed_start :
    machine.runFrom (opened buffer written [⟨.start, phase, false, false⟩]) (printed text) =
      opened (buffer ++ text) written
        [⟨.start, startPhase (buffer ++ text) phase, false, false⟩] := by
  obtain rfl | ⟨o, rfl⟩ := hphase
  · cases h : authorizeUrl (buffer ++ text) <;>
      simp [printed, opened, machine, Lib.Machine.runFrom, Session.step, Session.quiescent,
        Session.wake, Call.wake, Phase.queued, Session.iterate, Session.probe, h,
        Session.setPhase, Session.conclude, startPhase, Session.abort, Session.abortReason]
  · simp [printed, opened, machine, Lib.Machine.runFrom, Session.step, Session.quiescent,
      Session.wake, Call.wake, Phase.queued, startPhase]

/-- Output in the delay before Enter only reaches the buffer. -/
theorem printed_entering :
    machine.runFrom (opened buffer written
        [⟨.start, phase, false, false⟩, ⟨.submit, .entering, false, false⟩]) (printed text) =
      opened (buffer ++ text) written [⟨.start, startPhase (buffer ++ text) phase, false, false⟩,
        ⟨.submit, .entering, false, false⟩] := by
  obtain rfl | ⟨o, rfl⟩ := hphase
  · cases h : authorizeUrl (buffer ++ text) <;>
      simp [printed, opened, machine, Lib.Machine.runFrom, Session.step, Session.quiescent,
        Session.wake, Call.wake, Phase.queued, Session.iterate, Session.probe, h,
        Session.setPhase, Session.conclude, startPhase, Session.abort, Session.abortReason]
  · simp [printed, opened, machine, Lib.Machine.runFrom, Session.step, Session.quiescent,
      Session.wake, Call.wake, Phase.queued, startPhase]

/-- One event of output for a `submit()` that waits for its token. -/
theorem printed_waiting :
    let s := machine.runFrom (opened buffer written
      [⟨.start, phase, false, false⟩, ⟨.submit, .waiting, false, false⟩]) (printed text)
    (∃ token, oauthToken (buffer ++ text) = some token ∧
      s.outcome 1 = some (.submitted (Session.submitResult token))) ∨
    (oauthToken (buffer ++ text) = none ∧ oauthError (buffer ++ text) = true ∧
      ∃ rejection, s.outcome 1 = some (.rejected rejection)) ∨
    (oauthToken (buffer ++ text) = none ∧ oauthError (buffer ++ text) = false ∧
      s = opened (buffer ++ text) written [⟨.start, startPhase (buffer ++ text) phase, false, false⟩,
        ⟨.submit, .waiting, false, false⟩]) := by
  intro s
  have hstart : machine.runFrom (opened buffer written
      [⟨.start, phase, false, false⟩, ⟨.submit, .waiting, false, false⟩])
        [.data 0 text, .resumed 0 false, .returned 0] =
      opened (buffer ++ text) written [⟨.start, startPhase (buffer ++ text) phase, false, false⟩,
        ⟨.submit, .woken, false, false⟩] := by
    obtain rfl | ⟨o, rfl⟩ := hphase
    · cases h : authorizeUrl (buffer ++ text) <;>
        simp [opened, machine, Lib.Machine.runFrom, Session.step, Session.quiescent,
          Session.wake, Call.wake, Phase.queued, Session.iterate, Session.probe, h,
          Session.setPhase, Session.conclude, startPhase, Session.abort, Session.abortReason]
    · simp [opened, machine, Lib.Machine.runFrom, Session.step, Session.quiescent,
        Session.wake, Call.wake, Phase.queued, startPhase]
  have hs : s = machine.runFrom (opened (buffer ++ text) written
      [⟨.start, startPhase (buffer ++ text) phase, false, false⟩, ⟨.submit, .woken, false, false⟩])
        [.resumed 1 false, .returned 1] := by
    rw [← hstart, ← Lib.Machine.runFrom_append]
    rfl
  rw [hs]
  cases ht : oauthToken (buffer ++ text) with
  | some token =>
    refine .inl ⟨token, rfl, ?_⟩
    simp [opened, machine, Lib.Machine.runFrom, Session.step, Session.iterate, Session.probe, ht,
      Session.setPhase, Session.conclude, Session.cancel, Session.outcome, Call.onCancel, Call.wake,
      Call.view]
  | none =>
    cases he : oauthError (buffer ++ text) with
    | true =>
      refine .inr (.inl ⟨rfl, rfl, ?_⟩)
      simp [opened, machine, Lib.Machine.runFrom, Session.step, Session.iterate, Session.probe, ht,
        Session.abort, he, Session.fail, Session.setPhase, Session.cancel, Session.outcome,
        Call.onCancel, Call.wake, Call.view]
    | false =>
      refine .inr (.inr ⟨rfl, rfl, ?_⟩)
      simp [opened, machine, Lib.Machine.runFrom, Session.step, Session.iterate, Session.probe, ht,
        Session.abort, he, Session.abortReason, Session.setPhase]

end

/-! ### Runs -/

/-- The run in which `start()` reads `chunks`. -/
def startRun (chunks : List (List Char)) : List Event :=
  .start :: .spawned 0 false :: chunks.flatMap printed

/-- The run in which `submit(code)` is called after `early` has been printed, and the delay before
Enter ends after `during`. -/
def submitRun (code : List Char) (early during late : List (List Char)) : List Event :=
  startRun early ++ .submit code :: (during.flatMap printed ++
    .delayed 1 false :: .returned 1 :: late.flatMap printed)

theorem run_startRun (chunks : List (List Char)) : machine.run (startRun chunks) =
    machine.runFrom (opened [] [] [⟨.start, .waiting, false, false⟩]) (chunks.flatMap printed) :=
  rfl

theorem printedAll_start {phase : Phase} (hphase : phase.Quiet) (buffer : List Char)
    (written : List (Nat × List Char)) (chunks : List (List Char)) : ∃ phase' : Phase,
    phase'.Quiet ∧ machine.runFrom (opened buffer written [⟨.start, phase, false, false⟩])
      (chunks.flatMap printed) =
        opened (buffer ++ chunks.flatten) written [⟨.start, phase', false, false⟩] := by
  induction chunks generalizing buffer phase with
  | nil => exact ⟨phase, hphase, by rw [List.flatten_nil, List.append_nil]; rfl⟩
  | cons chunk chunks ih =>
    rw [List.flatMap_cons, Lib.Machine.runFrom_append, printed_start hphase, List.flatten_cons,
      ← List.append_assoc]
    exact ih (startPhase_quiet hphase _) _

theorem printedAll_entering {phase : Phase} (hphase : phase.Quiet) (buffer : List Char)
    (written : List (Nat × List Char)) (chunks : List (List Char)) : ∃ phase' : Phase,
    phase'.Quiet ∧ machine.runFrom (opened buffer written
      [⟨.start, phase, false, false⟩, ⟨.submit, .entering, false, false⟩]) (chunks.flatMap printed) =
        opened (buffer ++ chunks.flatten) written
          [⟨.start, phase', false, false⟩, ⟨.submit, .entering, false, false⟩] := by
  induction chunks generalizing buffer phase with
  | nil => exact ⟨phase, hphase, by rw [List.flatten_nil, List.append_nil]; rfl⟩
  | cons chunk chunks ih =>
    rw [List.flatMap_cons, Lib.Machine.runFrom_append, printed_entering hphase, List.flatten_cons,
      ← List.append_assoc]
    exact ih (startPhase_quiet hphase _) _

/-- `start()` resolves with what it finds in the first buffer that shows a URL. -/
theorem start_fulfils_iff (chunks : List (List Char)) (result : AuthStartResult) :
    (machine.run (startRun chunks)).outcome 0 = some (.started result) ↔
      ∃ url buffer rest, acceptedAt authorizeUrl (fun _ => false) [] chunks =
        some (url, buffer, rest) ∧ result = Session.startResult url := by
  rw [run_startRun]
  generalize ([] : List Char) = buffer
  induction chunks generalizing buffer with
  | nil =>
    refine iff_of_false (fun h => Option.some_ne_none _ h.symm) ?_
    rintro ⟨_, _, _, h, -⟩
    exact Option.some_ne_none _ h.symm
  | cons chunk chunks ih =>
    rw [List.flatMap_cons, Lib.Machine.runFrom_append, printed_start (.inl rfl), acceptedAt]
    cases h : authorizeUrl (buffer ++ chunk) with
    | some url =>
      have hsettled : (opened (buffer ++ chunk) []
          [⟨.start, startPhase (buffer ++ chunk) .waiting, false, false⟩]).outcome 0 =
            some (.started (Session.startResult url)) := by
        rw [startPhase, h]
        rfl
      rw [Session.outcome_runFrom hsettled]
      constructor
      · exact fun he => ⟨url, _, _, rfl, (Outcome.started.inj (Option.some.inj he)).symm⟩
      · rintro ⟨_, _, _, he, rfl⟩
        rw [(Prod.mk.inj (Option.some.inj he)).1]
    | none =>
      rw [startPhase, h]
      exact ih (buffer ++ chunk)

/-- What `submit()` does with the output that follows a buffer without a token. -/
theorem waiting_fulfils_iff {phase : Phase} (hphase : phase.Quiet) (buffer : List Char)
    (written : List (Nat × List Char)) (chunks : List (List Char)) (result : AuthSubmitResult) :
    (machine.runFrom (opened buffer written
      [⟨.start, phase, false, false⟩, ⟨.submit, .waiting, false, false⟩])
        (chunks.flatMap printed)).outcome 1 = some (.submitted result) ↔
      ∃ token seen rest, acceptedAt oauthToken oauthError buffer chunks =
        some (token, seen, rest) ∧ result = Session.submitResult token := by
  induction chunks generalizing buffer phase with
  | nil =>
    refine iff_of_false (fun h => Option.some_ne_none _ h.symm) ?_
    rintro ⟨_, _, _, h, -⟩
    exact Option.some_ne_none _ h.symm
  | cons chunk chunks ih =>
    rw [List.flatMap_cons, Lib.Machine.runFrom_append, acceptedAt]
    obtain ⟨token, ht, ho⟩ | ⟨ht, he, rejection, ho⟩ | ⟨ht, he, hs⟩ :=
      printed_waiting hphase buffer chunk written
    · rw [Session.outcome_runFrom ho, ht]
      constructor
      · exact fun he => ⟨token, _, _, rfl, (Outcome.submitted.inj (Option.some.inj he)).symm⟩
      · rintro ⟨_, _, _, he, rfl⟩
        rw [(Prod.mk.inj (Option.some.inj he)).1]
    · rw [Session.outcome_runFrom ho, ht]
      dsimp only
      rw [if_pos he]
      refine iff_of_false (fun h => Outcome.noConfusion (Option.some.inj h)) ?_
      rintro ⟨_, _, _, h, -⟩
      exact Option.some_ne_none _ h.symm
    · rw [hs, ht]
      dsimp only
      rw [he, if_neg Bool.false_ne_true]
      exact ih (startPhase_quiet hphase _) _

/-- The end of the delay before Enter, for what has been printed until then. -/
theorem entered {phase : Phase} (hphase : phase.Quiet) (buffer : List Char)
    (written : List (Nat × List Char)) :
    let s := machine.runFrom (opened buffer written
      [⟨.start, phase, false, false⟩, ⟨.submit, .entering, false, false⟩])
        [.delayed 1 false, .returned 1]
    (∃ token, oauthToken buffer = some token ∧
      s.outcome 1 = some (.submitted (Session.submitResult token))) ∨
    (oauthToken buffer = none ∧ oauthError buffer = true ∧
      ∃ rejection, s.outcome 1 = some (.rejected rejection)) ∨
    (oauthToken buffer = none ∧ oauthError buffer = false ∧
      s = opened buffer (written ++ [(0, ['\r'])])
        [⟨.start, phase, false, false⟩, ⟨.submit, .waiting, false, false⟩]) := by
  intro s
  have hs : s = machine.runFrom ((opened buffer (written ++ [(0, ['\r'])])
      [⟨.start, phase, false, false⟩, ⟨.submit, .entering, false, false⟩]).iterate 1 .submit false)
        [.returned 1] := by
    obtain rfl | ⟨_, rfl⟩ := hphase <;> rfl
  rw [hs]
  cases ht : oauthToken buffer with
  | some token =>
    refine .inl ⟨token, rfl, ?_⟩
    simp [opened, machine, Lib.Machine.runFrom, Session.step, Session.iterate, Session.probe, ht,
      Session.setPhase, Session.conclude, Session.cancel, Session.outcome, Call.onCancel, Call.wake,
      Call.view]
  | none =>
    cases he : oauthError buffer with
    | true =>
      refine .inr (.inl ⟨rfl, rfl, ?_⟩)
      simp [opened, machine, Lib.Machine.runFrom, Session.step, Session.iterate, Session.probe, ht,
        Session.abort, he, Session.fail, Session.setPhase, Session.cancel, Session.outcome,
        Call.onCancel, Call.wake, Call.view]
    | false =>
      refine .inr (.inr ⟨rfl, rfl, ?_⟩)
      simp [opened, machine, Lib.Machine.runFrom, Session.step, Session.iterate, Session.probe, ht,
        Session.abort, he, Session.abortReason, Session.setPhase]

theorem submit_opened {code : List Char} (hcode : Lib.trim code ≠ []) (phase : Phase)
    (buffer : List Char) (written : List (Nat × List Char)) :
    machine.step (opened buffer written [⟨.start, phase, false, false⟩]) (.submit code) =
      opened buffer (written ++ [(0, Lib.trim code)])
        [⟨.start, phase, false, false⟩, ⟨.submit, .entering, false, false⟩] := by
  simp [machine, Session.step, opened, Session.submit, hcode, Session.call]

theorem submit_fulfils_iff {code : List Char} (hcode : Lib.trim code ≠ [])
    (early during late : List (List Char)) (result : AuthSubmitResult) :
    (machine.run (submitRun code early during late)).outcome 1 = some (.submitted result) ↔
      ∃ token seen rest, acceptedAt oauthToken oauthError []
        ((early.flatten ++ during.flatten) :: late) = some (token, seen, rest) ∧
          result = Session.submitResult token := by
  rw [submitRun, Lib.Machine.run, Lib.Machine.runFrom_append, ← Lib.Machine.run, run_startRun]
  obtain ⟨phase, hphase, hearly⟩ := printedAll_start (.inl rfl) [] [] early
  rw [hearly, Lib.Machine.runFrom_cons, submit_opened hcode, Lib.Machine.runFrom_append]
  simp only [acceptedAt, List.nil_append]
  obtain ⟨phase', hphase', hduring⟩ :=
    printedAll_entering hphase early.flatten [(0, Lib.trim code)] during
  have hsplit : (Event.delayed 1 false :: .returned 1 :: late.flatMap printed : List Event) =
    [.delayed 1 false, .returned 1] ++ late.flatMap printed := rfl
  rw [hduring, hsplit, Lib.Machine.runFrom_append]
  obtain ⟨token, ht, ho⟩ | ⟨ht, he, rejection, ho⟩ | ⟨ht, he, hs⟩ :=
    entered hphase' (early.flatten ++ during.flatten) [(0, Lib.trim code)]
  · rw [Session.outcome_runFrom ho, ht]
    constructor
    · exact fun he => ⟨token, _, _, rfl, (Outcome.submitted.inj (Option.some.inj he)).symm⟩
    · rintro ⟨_, _, _, he, rfl⟩
      rw [(Prod.mk.inj (Option.some.inj he)).1]
  · rw [Session.outcome_runFrom ho, ht]
    dsimp only
    rw [if_pos he]
    refine iff_of_false (fun h => Outcome.noConfusion (Option.some.inj h)) ?_
    rintro ⟨_, _, _, h, -⟩
    exact Option.some_ne_none _ h.symm
  · rw [hs, ht]
    dsimp only
    rw [he, if_neg Bool.false_ne_true]
    exact waiting_fulfils_iff hphase' _ _ _ _

/-- A blank code is refused. -/
theorem submit_blank {code : List Char} (hcode : Lib.trim code = [])
    (early during late : List (List Char)) (result : AuthSubmitResult) :
    (machine.run (submitRun code early during late)).outcome 1 ≠ some (.submitted result) := by
  rw [submitRun, Lib.Machine.run, Lib.Machine.runFrom_append, ← Lib.Machine.run, run_startRun]
  obtain ⟨phase, -, hearly⟩ := printedAll_start (.inl rfl) [] [] early
  rw [hearly, Lib.Machine.runFrom_cons]
  have hrefused : (machine.step (opened ([] ++ early.flatten) [] [⟨.start, phase, false, false⟩])
      (.submit code)).outcome 1 =
        some (.rejected (.auth "Authorization code is empty" "empty_code")) := by
    simp [machine, Session.step, opened, Session.submit, hcode, Session.call, Session.outcome,
      Call.view]
  rw [Session.outcome_runFrom hrefused]
  exact fun h => Outcome.noConfusion (Option.some.inj h)

end ClaudeSetupToken

namespace CodexDeviceAuth

/-- The child prints `text`, and the continuations that this has queued run. -/
def printed (text : List Char) : List Event := [.data 0 text, .resumed 0 false, .returned 0]

def startRun (chunks : List (List Char)) : List Event := .start false :: chunks.flatMap printed

/-- A session whose `start()` waits. -/
def opened (buffer : List Char) (phase : Phase) : Session :=
  { proc := some 0, started := true, buffer, children := [{}],
    calls := [⟨.start, phase, false, false⟩] }

theorem run_startRun (chunks : List (List Char)) : machine.run (startRun chunks) =
    machine.runFrom (opened [] .waiting) (chunks.flatMap printed) := rfl

theorem printed_found {buffer text url code : List Char}
    (h : deviceCode (buffer ++ text) = some (url, code)) :
    (machine.runFrom (opened buffer .waiting) (printed text)).outcome 0 =
      some (.started (Session.startResult url code)) := by
  simp [printed, opened, machine, Lib.Machine.runFrom, Session.step, Session.quiescent,
    Session.wake, Call.wake, Phase.queued, Session.iterate, h, Session.setPhase, Session.outcome,
    Call.view]

theorem printed_none {buffer text : List Char} (h : deviceCode (buffer ++ text) = none) :
    machine.runFrom (opened buffer .waiting) (printed text) =
      opened (buffer ++ text) .waiting := by
  simp [printed, opened, machine, Lib.Machine.runFrom, Session.step, Session.quiescent,
    Session.wake, Call.wake, Phase.queued, Session.iterate, h, Session.setPhase]

theorem start_fulfils_iff (chunks : List (List Char)) (result : AuthStartResult) :
    (machine.run (startRun chunks)).outcome 0 = some (.started result) ↔
      ∃ found buffer rest, acceptedAt deviceCode (fun _ => false) [] chunks =
        some (found, buffer, rest) ∧ result = Session.startResult found.1 found.2 := by
  rw [run_startRun]
  generalize ([] : List Char) = buffer
  induction chunks generalizing buffer with
  | nil =>
    refine iff_of_false (fun h => Option.some_ne_none _ h.symm) ?_
    rintro ⟨_, _, _, h, -⟩
    exact Option.some_ne_none _ h.symm
  | cons chunk chunks ih =>
    rw [List.flatMap_cons, Lib.Machine.runFrom_append, acceptedAt]
    cases h : deviceCode (buffer ++ chunk) with
    | some found =>
      rw [Session.outcome_runFrom (printed_found h)]
      constructor
      · exact fun he => ⟨found, _, _, rfl, (Outcome.started.inj (Option.some.inj he)).symm⟩
      · rintro ⟨_, _, _, he, rfl⟩
        rw [(Prod.mk.inj (Option.some.inj he)).1]
    | none =>
      rw [printed_none h]
      exact ih (buffer ++ chunk)

end CodexDeviceAuth

/-! ### The value of the whole output -/

section
variable {β : Type} {probe : List Char → Option β} {abort : List Char → Bool}

theorem acceptedAt_some {buffer seen rest : List Char} {chunks : List (List Char)} {value : β}
    (h : acceptedAt probe abort buffer chunks = some (value, seen, rest)) :
    probe seen = some value ∧ seen ++ rest = buffer ++ chunks.flatten := by
  induction chunks generalizing buffer with
  | nil => exact absurd h.symm (Option.some_ne_none _)
  | cons chunk chunks ih =>
    rw [acceptedAt] at h
    split at h
    next value' hv =>
      obtain ⟨rfl, rfl, rfl⟩ := Option.some.inj h
      exact ⟨hv, by rw [List.flatten_cons, List.append_assoc]⟩
    next =>
      split at h
      · exact absurd h.symm (Option.some_ne_none _)
      · rw [List.flatten_cons, ← List.append_assoc]
        exact ih h

theorem acceptedAt_singleton (text : List Char) :
    acceptedAt probe abort [] [text] = (probe text).map fun value => (value, text, []) := by
  rw [acceptedAt, List.nil_append]
  cases probe text with
  | some value => rfl
  | none =>
    dsimp only [acceptedAt]
    rw [ite_self]
    rfl

/-- The value accepted is that of the whole output exactly if it is whole where it is accepted. -/
theorem accepted_iff {W : List Char → List Char → β → Prop}
    (hW : ∀ buffer rest value, probe buffer = some value →
      (probe (buffer ++ rest) = some value ↔ W buffer rest value)) (chunks : List (List Char)) :
    (∀ value buffer rest, acceptedAt probe abort [] chunks = some (value, buffer, rest) →
      probe chunks.flatten = some value) ↔
    ∀ value buffer rest, acceptedAt probe abort [] chunks = some (value, buffer, rest) →
      W buffer rest value := by
  refine forall₃_congr fun value buffer rest => forall_congr' fun h => ?_
  obtain ⟨hprobe, happend⟩ := acceptedAt_some h
  rw [List.nil_append] at happend
  rw [← happend]
  exact hW buffer rest value hprobe

end

theorem oauthToken_append_iff {buffer rest value : List Char}
    (h : oauthToken buffer = some value) : oauthToken (buffer ++ rest) = some value ↔
      Whole OAUTH_TOKEN isTokenChar (fun _ => true) buffer rest value := by
  have hfirst : ∀ matches' : List (List Char), matches'.head? = matches'.find? fun _ => true := by
    intro matches'
    cases matches' <;> rfl
  rw [oauthToken, hfirst] at h ⊢
  exact whole_iff continues_OAUTH_TOKEN (fun _ _ _ => rfl) h

theorem deviceCode_eq_some {buffer url code : List Char} :
    deviceCode buffer = some (url, code) ↔ findVerificationUrl buffer isDeviceUrl = some url ∧
      (USER_CODE.matchAll (stripAnsi buffer)).head? = some code := by
  rw [deviceCode]
  constructor
  · intro h
    split at h
    next hu hc =>
      obtain ⟨rfl, rfl⟩ := Option.some.inj h
      exact ⟨hu, hc⟩
    next => exact absurd h.symm (Option.some_ne_none _)
  · rintro ⟨hu, hc⟩
    rw [hu, hc]

namespace ClaudeSetupToken

/-- What `start()` resolves with is what it resolves with when the output is one event. -/
def StartsAsWhole (chunks : List (List Char)) : Prop :=
  ∀ result, (machine.run (startRun chunks)).outcome 0 = some (.started result) →
    (machine.run (startRun [chunks.flatten])).outcome 0 = some (.started result)

/-- What `submit()` resolves with is what it resolves with when the output is one event. -/
def SubmitsAsWhole (code : List Char) (early during late : List (List Char)) : Prop :=
  ∀ result, (machine.run (submitRun code early during late)).outcome 1 =
      some (.submitted result) →
    (machine.run (submitRun code [] [] [early.flatten ++ during.flatten ++ late.flatten])).outcome 1
      = some (.submitted result)

theorem startResult_inj {url url' : List Char}
    (h : Session.startResult url = Session.startResult url') : url = url' :=
  String.ofList_injective (Option.some.inj (congrArg AuthStartResult.verificationUrl h))

theorem submitResult_inj {token token' : List Char}
    (h : Session.submitResult token = Session.submitResult token') : token = token' :=
  String.ofList_injective (congrArg StoredCredential.value
    (Option.some.inj (congrArg AuthSubmitResult.credential h)))

theorem authorizeUrl_append_iff {buffer rest url : List Char}
    (h : authorizeUrl buffer = some url) :
    authorizeUrl (buffer ++ rest) = some url ↔ WholeUrl isAuthorizeUrl buffer rest url :=
  wholeUrl_iff (fun _ more haccept => Lib.includes_append haccept more) h

theorem startsAsWhole_iff (chunks : List (List Char)) : StartsAsWhole chunks ↔
    ∀ url buffer rest, acceptedAt authorizeUrl (fun _ => false) [] chunks =
      some (url, buffer, rest) → WholeUrl isAuthorizeUrl buffer rest url := by
  rw [← accepted_iff fun buffer rest url h => authorizeUrl_append_iff h]
  constructor
  · intro H url buffer rest h
    obtain ⟨url', _, _, hwhole, hurl⟩ := (start_fulfils_iff _ _).mp
      (H _ ((start_fulfils_iff _ _).mpr ⟨url, buffer, rest, h, rfl⟩))
    obtain rfl := startResult_inj hurl
    have hprobe := (acceptedAt_some hwhole).1
    rw [acceptedAt_singleton, Option.map_eq_some_iff] at hwhole
    obtain ⟨_, h, he⟩ := hwhole
    rw [h, (Prod.mk.inj he).1]
  · intro H result h
    obtain ⟨url, buffer, rest, haccepted, rfl⟩ := (start_fulfils_iff _ _).mp h
    refine (start_fulfils_iff _ _).mpr ⟨url, chunks.flatten, [], ?_, rfl⟩
    rw [acceptedAt_singleton, H url buffer rest haccepted]
    rfl

theorem submitsAsWhole_iff (code : List Char) (early during late : List (List Char)) :
    SubmitsAsWhole code early during late ↔ (Lib.trim code ≠ [] →
      ∀ token buffer rest, acceptedAt oauthToken oauthError []
        ((early.flatten ++ during.flatten) :: late) = some (token, buffer, rest) →
          Whole OAUTH_TOKEN isTokenChar (fun _ => true) buffer rest token) := by
  by_cases hcode : Lib.trim code = []
  · exact iff_of_true (fun result h => absurd h (submit_blank hcode early during late result))
      fun h => absurd hcode h
  rw [← accepted_iff fun buffer rest token h => oauthToken_append_iff h]
  have hwhole : ∀ token : List Char, ∀ text, (∃ seen rest, acceptedAt oauthToken oauthError []
      (([].flatten ++ [].flatten : List Char) :: [text]) = some (token, seen, rest)) ↔
        oauthToken text = some token := by
    intro token text
    have hfirst : acceptedAt oauthToken oauthError [] (([].flatten ++ [].flatten : List Char) :: [text]) =
      acceptedAt oauthToken oauthError [] [text] := rfl
    rw [hfirst]
    constructor
    · rintro ⟨seen, rest, h⟩
      rw [acceptedAt_singleton, Option.map_eq_some_iff] at h
      obtain ⟨_, h, he⟩ := h
      rw [h, (Prod.mk.inj he).1]
    · intro h
      exact ⟨text, [], by rw [acceptedAt_singleton, h]; rfl⟩
  constructor
  · intro H _ token buffer rest h
    obtain ⟨token', seen, rest', hw, htoken⟩ := (submit_fulfils_iff hcode _ _ _ _).mp
      (H _ ((submit_fulfils_iff hcode _ _ _ _).mpr ⟨token, buffer, rest, h, rfl⟩))
    obtain rfl := submitResult_inj htoken
    exact (hwhole _ _).mp ⟨seen, rest', hw⟩
  · intro H result h
    obtain ⟨token, buffer, rest, haccepted, rfl⟩ := (submit_fulfils_iff hcode _ _ _ _).mp h
    obtain ⟨seen, rest', hw⟩ := (hwhole token _).mpr (H hcode token buffer rest haccepted)
    exact (submit_fulfils_iff hcode _ _ _ _).mpr ⟨token, seen, rest', hw, rfl⟩

end ClaudeSetupToken

namespace CodexDeviceAuth

def StartsAsWhole (chunks : List (List Char)) : Prop :=
  ∀ result, (machine.run (startRun chunks)).outcome 0 = some (.started result) →
    (machine.run (startRun [chunks.flatten])).outcome 0 = some (.started result)

/-- The page and the one-time code are both whole. -/
def WholeDeviceCode (buffer rest : List Char) (found : List Char × List Char) : Prop :=
  WholeUrl isDeviceUrl buffer rest found.1 ∧ WholeWord USER_CODE isWordChar buffer rest found.2

theorem startResult_inj {url url' code code' : List Char}
    (h : Session.startResult url code = Session.startResult url' code') :
    url = url' ∧ code = code' :=
  ⟨String.ofList_injective (Option.some.inj (congrArg AuthStartResult.verificationUrl h)),
    String.ofList_injective (Option.some.inj (congrArg AuthStartResult.userCode h))⟩

theorem deviceCode_append_iff {buffer rest : List Char} {found : List Char × List Char}
    (h : deviceCode buffer = some found) :
    deviceCode (buffer ++ rest) = some found ↔ WholeDeviceCode buffer rest found := by
  obtain ⟨url, code⟩ := found
  obtain ⟨hurl, hcode⟩ := deviceCode_eq_some.mp h
  have haccept : ∀ word more, isDeviceUrl word = true → isDeviceUrl (word ++ more) = true :=
    fun _ more h => Lib.includes_append h more
  rw [deviceCode_eq_some, wholeUrl_iff haccept hurl, wholeWord_iff endsBefore_USER_CODE hcode]
  rfl

theorem startsAsWhole_iff (chunks : List (List Char)) : StartsAsWhole chunks ↔
    ∀ found buffer rest, acceptedAt deviceCode (fun _ => false) [] chunks =
      some (found, buffer, rest) → WholeDeviceCode buffer rest found := by
  rw [← accepted_iff fun buffer rest found h => deviceCode_append_iff h]
  constructor
  · intro H found buffer rest h
    obtain ⟨found', _, _, hwhole, hfound⟩ := (start_fulfils_iff _ _).mp
      (H _ ((start_fulfils_iff _ _).mpr ⟨found, buffer, rest, h, rfl⟩))
    rw [acceptedAt_singleton, Option.map_eq_some_iff] at hwhole
    obtain ⟨_, hprobe, he⟩ := hwhole
    obtain ⟨hurl, hcode⟩ := startResult_inj hfound
    rw [hprobe, (Prod.mk.inj he).1, Prod.ext hurl hcode]
  · intro H result h
    obtain ⟨found, buffer, rest, haccepted, rfl⟩ := (start_fulfils_iff _ _).mp h
    refine (start_fulfils_iff _ _).mpr ⟨found, chunks.flatten, [], ?_, rfl⟩
    rw [acceptedAt_singleton, H found buffer rest haccepted]
    rfl

end CodexDeviceAuth

end CliProxy.Auth
