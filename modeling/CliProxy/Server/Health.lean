import CliProxy.Lib.Machine

/-! # Readiness of the engines

`src/server/health.ts`. One event is one call or one callback. A round of probes is in flight until
the promise that `refresh` returned settles, which is after the round has published. -/

namespace CliProxy.Server

/-- How long a snapshot is served before the next reader starts a refresh. -/
def PROBE_TTL_MS : Nat := 30000

inductive EngineAuthState where
  | authenticated | unauthenticated | unknown
  deriving DecidableEq, Repr

inductive CredentialSource where
  | provisioned | host
  deriving DecidableEq, Repr

structure EngineAuthStatus where
  state : EngineAuthState
  source : Option CredentialSource
  detail : Option String
  deriving DecidableEq, Repr

abbrev EngineItems := List (String × EngineAuthStatus)

structure EngineHealth where
  probedAt : Option Int
  ageMs : Option Int
  stale : Bool
  items : EngineItems
  deriving DecidableEq, Repr

/-- How the race between a check and its timeout ends. -/
inductive CheckOutcome where
  | answered (status : EngineAuthStatus)
  | timedOut
  | threw (message : String)

/-- What `probeEngine` returns for a registered engine. -/
def CheckOutcome.status : CheckOutcome → EngineAuthStatus
  | .answered status => status
  | .timedOut => ⟨.unknown, none, some "status check did not answer in time"⟩
  | .threw message => ⟨.unknown, none, some message⟩

def notRegistered : EngineAuthStatus := ⟨.unknown, none, some "engine is not registered"⟩

inductive RoundPhase where
  | probing
  /-- The function of the round has returned or thrown; `inFlight` is not cleared yet. -/
  | finished
  | settled
  deriving DecidableEq, Repr

/-- A call of the function in `refresh`. -/
structure Round where
  startedAt : Nat
  results : List (String × Option EngineAuthStatus)
  phase : RoundPhase
  /-- The number of events before the round was started. -/
  turn : Nat
  published : Bool

/-- The results, once every engine has one. -/
def Round.items (r : Round) : Option EngineItems :=
  r.results.mapM fun (id, status) => status.map (id, ·)

structure Snapshot where
  probedAt : Int
  items : EngineItems
  /-- The round that published it. -/
  round : Nat

/-- The variables of the module, and what has happened. -/
structure Health where
  snapshot : Option Snapshot
  inFlight : Option Nat
  generation : Nat
  rounds : List Round
  turn : Nat
  /-- The turn of the latest credential change. -/
  changed : Option Nat

structure EngineRegistry where
  ids : List String
  registered : String → Bool

namespace Health

variable (registry : EngineRegistry) (s : Health)

def init : Health := ⟨none, none, 0, [], 0, none⟩

/-- A round that is just started. -/
def newRound : Round where
  startedAt := s.generation
  results := registry.ids.map fun id =>
    (id, if registry.registered id then none else some notRegistered)
  phase := .probing
  turn := s.turn
  published := false

def refresh : Health :=
  match s.inFlight with
  | some _ => s
  | none => { s with
      rounds := s.rounds ++ [newRound registry s]
      inFlight := some s.rounds.length }

def engineHealth (now : Int) : Health × EngineHealth :=
  match s.snapshot with
  | none => (refresh registry s, ⟨none, none, true, []⟩)
  | some snapshot =>
    let ageMs := now - snapshot.probedAt
    let stale := decide ((PROBE_TTL_MS : Int) ≤ ageMs)
    (if stale then refresh registry s else s,
      ⟨some snapshot.probedAt, some ageMs, stale, snapshot.items⟩)

/-- The callback of `onCredentialChange`. -/
def credentialChange : Health :=
  { s with snapshot := none, generation := s.generation + 1, changed := some s.turn }

def setRound (round : Nat) (r : Round) : Health := { s with rounds := s.rounds.set round r }

/-- A probe of the round has a result. -/
def answered (round engine : Nat) (outcome : CheckOutcome) : Health :=
  match s.rounds[round]? with
  | some r => s.setRound round { r with
      results := r.results.modify engine fun (id, status) =>
        (id, some (status.getD outcome.status)) }
  | none => s

/-- The round goes on after all its probes. -/
def resumed (round : Nat) (now : Int) : Health :=
  match s.rounds[round]? with
  | some r =>
    match r.phase, r.items with
    | .probing, some items =>
      if s.generation ≠ r.startedAt then s.setRound round { r with phase := .finished }
      else { s.setRound round { r with phase := .finished, published := true } with
        snapshot := some ⟨now, items, round⟩ }
    | _, _ => s
  | none => s

/-- The function of the round throws. -/
def rejected (round : Nat) : Health :=
  match s.rounds[round]? with
  | some r =>
    match r.phase with
    | .probing => s.setRound round { r with phase := .finished }
    | _ => s
  | none => s

/-- The callbacks of `run.then`. -/
def cleared (round : Nat) : Health :=
  match s.rounds[round]? with
  | some r =>
    match r.phase with
    | .finished => { s.setRound round { r with phase := .settled } with inFlight := none }
    | _ => s
  | none => s

end Health

inductive HealthEvent where
  | read (now : Int)
  /-- `warmEngineProbe`. -/
  | warm
  | answered (round engine : Nat) (outcome : CheckOutcome)
  | resumed (round : Nat) (now : Int)
  | rejected (round : Nat)
  | cleared (round : Nat)
  | credentialChange

def Health.on (registry : EngineRegistry) (s : Health) : HealthEvent → Health
  | .read now => (s.engineHealth registry now).1
  | .warm => s.refresh registry
  | .answered round engine outcome => s.answered round engine outcome
  | .resumed round now => s.resumed round now
  | .rejected round => s.rejected round
  | .cleared round => s.cleared round
  | .credentialChange => s.credentialChange

def Health.step (registry : EngineRegistry) (s : Health) (event : HealthEvent) : Health :=
  let s := s.on registry event
  { s with turn := s.turn + 1 }

def healthMachine (registry : EngineRegistry) : Lib.Machine Health HealthEvent where
  init := .init
  step := .step registry

/-! ## The invariant -/

/-- The round was started after the latest credential change. -/
def Round.Current (r : Round) (s : Health) : Prop := ∀ turn, s.changed = some turn → turn < r.turn

/-- The promise of the round has not settled. -/
def Round.InFlight (r : Round) : Prop := r.phase ≠ .settled

/-- `inFlight` is the one round that is in flight. -/
structure Health.SingleFlight (s : Health) : Prop where
  flight : ∀ i (r : Round), s.rounds[i]? = some r → r.InFlight → s.inFlight = some i
  pending : ∀ i, s.inFlight = some i → ∃ r, s.rounds[i]? = some r ∧ r.InFlight

/-- The rounds of the present generation are the current ones; the snapshot is of one of them. -/
structure Health.Dated (s : Health) : Prop where
  generation : ∀ r ∈ s.rounds, r.startedAt ≤ s.generation
  current : ∀ r ∈ s.rounds, r.startedAt = s.generation → r.Current s
  snapshot : ∀ snapshot, s.snapshot = some snapshot → ∃ r, s.rounds[snapshot.round]? = some r ∧
    r.published = true ∧ r.startedAt = s.generation ∧ r.items = some snapshot.items
  changed : ∀ turn, s.changed = some turn → turn < s.turn

structure Health.Coherent (s : Health) : Prop extends s.SingleFlight, s.Dated

/-- A result that is there is kept. -/
theorem Round.items_answered {r : Round} {items : EngineItems} (h : r.items = some items)
    (engine : Nat) (outcome : CheckOutcome) : Round.items { r with
      results := r.results.modify engine fun (id, status) =>
        (id, some (status.getD outcome.status)) } = some items := by
  have hsame : r.results.modify engine (fun (id, status) =>
      (id, some (status.getD outcome.status))) = r.results := by
    unfold Round.items at h
    generalize r.results = results at h ⊢
    induction results generalizing engine items with
    | nil => exact List.modify_nil ..
    | cons result results ih =>
      rw [List.mapM_cons] at h
      obtain ⟨item, hitem, h⟩ := Option.bind_eq_some_iff.mp h
      obtain ⟨rest, hrest, -⟩ := Option.bind_eq_some_iff.mp h
      cases engine with
      | zero =>
        obtain ⟨status, hstatus, -⟩ := Option.map_eq_some_iff.mp hitem
        rw [List.modify_zero_cons]
        dsimp only
        rw [hstatus, Option.getD_some, ← hstatus]
      | succ engine => rw [List.modify_succ_cons, ih engine hrest]
  rw [hsame]
  exact h

/-- What a round may become. -/
structure Round.Continues (r r' : Round) : Prop where
  startedAt : r'.startedAt = r.startedAt
  turn : r'.turn = r.turn
  published : r.published = true → r'.published = true
  items : ∀ items, r.items = some items → r'.items = some items

namespace Health

variable {registry : EngineRegistry} {s : Health}

theorem getElem?_setRound {round i : Nat} {r q : Round}
    (h : (s.setRound round r).rounds[i]? = some q) :
    i = round ∧ q = r ∨ i ≠ round ∧ s.rounds[i]? = some q := by
  replace h : (s.rounds.set round r)[i]? = some q := h
  rw [List.getElem?_set] at h
  split at h
  next hi =>
    subst hi
    split at h
    next => exact .inl ⟨rfl, (Option.some.inj h).symm⟩
    next => exact absurd h.symm (Option.some_ne_none q)
  next hi => exact .inr ⟨Ne.symm hi, h⟩

theorem setRound_self {round : Nat} {r : Round} (h : s.rounds[round]? = some r) (r' : Round) :
    (s.setRound round r').rounds[round]? = some r' :=
  List.getElem?_set_self (List.getElem?_eq_some_iff.mp h).1

theorem setRound_ne {round i : Nat} (h : i ≠ round) (r' : Round) :
    (s.setRound round r').rounds[i]? = s.rounds[i]? := List.getElem?_set_ne h.symm

theorem Dated.setRound (H : s.Dated) {round : Nat} {r r' : Round} (hr : s.rounds[round]? = some r)
    (hcontinues : r.Continues r') : (s.setRound round r').Dated := by
  have hmem : ∀ q ∈ (s.setRound round r').rounds, q = r' ∨ q ∈ s.rounds := by
    intro q hq
    obtain ⟨i, hi⟩ := List.mem_iff_getElem?.mp hq
    rcases getElem?_setRound hi with ⟨-, rfl⟩ | ⟨-, hi⟩
    · exact .inl rfl
    · exact .inr (List.mem_of_getElem? hi)
  have hrmem := List.mem_of_getElem? hr
  refine ⟨fun q hq => ?_, fun q hq hcurrent => ?_, fun snapshot h => ?_, H.changed⟩
  · rcases hmem q hq with rfl | hq
    · rw [hcontinues.startedAt]
      exact H.generation r hrmem
    · exact H.generation q hq
  · rcases hmem q hq with rfl | hq
    · intro turn h
      rw [hcontinues.turn]
      exact H.current r hrmem (hcontinues.startedAt.symm.trans hcurrent) turn h
    · exact H.current q hq hcurrent
  · obtain ⟨q, hq, hpublished, hcurrent, hitems⟩ := H.snapshot snapshot h
    by_cases hround : snapshot.round = round
    · rw [hround] at hq ⊢
      cases hr.symm.trans hq
      exact ⟨r', setRound_self hr r', hcontinues.published hpublished,
        hcontinues.startedAt.trans hcurrent, hcontinues.items _ hitems⟩
    · exact ⟨q, (setRound_ne hround r').trans hq, hpublished, hcurrent, hitems⟩

theorem SingleFlight.setRound (H : s.SingleFlight) {round : Nat} {r r' : Round}
    (hr : s.rounds[round]? = some r) (hflight : r'.InFlight ↔ r.InFlight) :
    (s.setRound round r').SingleFlight := by
  constructor
  · intro i q hq h
    rcases getElem?_setRound hq with ⟨rfl, rfl⟩ | ⟨-, hq⟩
    · exact H.flight i r hr (hflight.mp h)
    · exact H.flight i q hq h
  · intro i hi
    obtain ⟨q, hq, h⟩ := H.pending i hi
    by_cases hround : i = round
    · subst hround
      cases hr.symm.trans hq
      exact ⟨r', setRound_self hr r', hflight.mpr h⟩
    · exact ⟨q, (setRound_ne hround r').trans hq, h⟩

end Health

namespace Health.Coherent

variable {registry : EngineRegistry} {s : Health}

theorem init : Coherent .init where
  flight _ _ h := absurd h.symm (Option.some_ne_none _)
  pending _ h := absurd h.symm (Option.some_ne_none _)
  generation := List.forall_mem_nil _
  current := List.forall_mem_nil _
  snapshot _ h := absurd h.symm (Option.some_ne_none _)
  changed _ h := absurd h.symm (Option.some_ne_none _)

theorem tick (H : Coherent s) : Coherent { s with turn := s.turn + 1 } :=
  { H with changed := fun turn h => Nat.lt_succ_of_lt (H.changed turn h) }

theorem setRound (H : Coherent s) {round : Nat} {r r' : Round} (hr : s.rounds[round]? = some r)
    (hcontinues : r.Continues r') (hflight : r'.InFlight ↔ r.InFlight) :
    Coherent (s.setRound round r') :=
  ⟨H.toSingleFlight.setRound hr hflight, H.toDated.setRound hr hcontinues⟩

theorem refresh (H : Coherent s) : Coherent (s.refresh registry) := by
  unfold Health.refresh
  split
  next => exact H
  next hidle =>
    have hsettled : ∀ (i : Nat) (r : Round), s.rounds[i]? = some r → ¬r.InFlight := by
      intro i r hr hflight
      have hi := H.flight i r hr hflight
      rw [hidle] at hi
      exact Option.some_ne_none i hi.symm
    have hlast : (s.rounds ++ [newRound registry s])[s.rounds.length]? =
        some (newRound registry s) := List.getElem?_concat_length
    have hmem : ∀ r ∈ s.rounds ++ [newRound registry s], r ∈ s.rounds ∨ r = newRound registry s := by
      intro r hr
      rcases List.mem_append.mp hr with hr | hr
      · exact .inl hr
      · exact .inr (List.mem_singleton.mp hr)
    refine ⟨⟨fun i r hr hflight => ?_, fun i hi => ?_⟩, fun r hr => ?_, fun r hr hcurrent => ?_,
      fun snapshot h => ?_, H.changed⟩
    · by_cases hi : i < s.rounds.length
      · replace hr := (List.getElem?_append_left hi).symm.trans hr
        exact absurd hflight (hsettled i r hr)
      · have hlt := (List.getElem?_eq_some_iff.mp hr).1
        rw [List.length_append, List.length_singleton] at hlt
        exact congrArg some (by omega)
    · cases hi
      exact ⟨_, hlast, fun h => RoundPhase.noConfusion h⟩
    · rcases hmem r hr with hr | rfl
      · exact H.generation r hr
      · exact Nat.le_refl _
    · rcases hmem r hr with hr | rfl
      · exact H.current r hr hcurrent
      · exact H.changed
    · obtain ⟨r, hr, hpublished⟩ := H.snapshot snapshot h
      have hi := (List.getElem?_eq_some_iff.mp hr).1
      exact ⟨r, (List.getElem?_append_left hi).trans hr, hpublished⟩

theorem answered (H : Coherent s) (round engine : Nat) (outcome : CheckOutcome) :
    Coherent (s.answered round engine outcome) := by
  unfold Health.answered
  split
  next r hr =>
    exact H.setRound hr ⟨rfl, rfl, id, fun _ h => Round.items_answered h engine outcome⟩ Iff.rfl
  next => exact H

/-- The function of a round ends while the round is in flight. -/
theorem inFlight_finished {r : Round} (hphase : r.phase = .probing) (published : Bool) :
    Round.InFlight { r with phase := .finished, published } ↔ r.InFlight :=
  iff_of_true (fun h => RoundPhase.noConfusion h)
    fun h => RoundPhase.noConfusion (hphase.symm.trans h)

theorem resumed (H : Coherent s) (round : Nat) (now : Int) : Coherent (s.resumed round now) := by
  unfold Health.resumed
  split
  next r hr =>
    split
    next items hphase hitems =>
      split
      next =>
        exact H.setRound hr ⟨rfl, rfl, id, fun _ h => h⟩ (inFlight_finished hphase r.published)
      next hcurrent =>
        rw [not_not] at hcurrent
        have H' : Coherent (s.setRound round { r with phase := .finished, published := true }) :=
          H.setRound hr ⟨rfl, rfl, fun _ => rfl, fun _ h => h⟩ (inFlight_finished hphase true)
        refine { H' with snapshot := fun snapshot h => ?_ }
        cases h
        exact ⟨_, setRound_self hr _, rfl, hcurrent.symm, hitems⟩
    next => exact H
  next => exact H

theorem rejected (H : Coherent s) (round : Nat) : Coherent (s.rejected round) := by
  unfold Health.rejected
  split
  next r hr =>
    split
    next hphase =>
      exact H.setRound hr ⟨rfl, rfl, id, fun _ h => h⟩ (inFlight_finished hphase r.published)
    next => exact H
  next => exact H

theorem cleared (H : Coherent s) (round : Nat) : Coherent (s.cleared round) := by
  unfold Health.cleared
  split
  next r hr =>
    split
    next hphase =>
      have hround := H.flight round r hr fun h => RoundPhase.noConfusion (hphase.symm.trans h)
      have hdated : (s.setRound round { r with phase := .settled }).Dated :=
        H.toDated.setRound hr ⟨rfl, rfl, id, fun _ h => h⟩
      refine { hdated with
        flight := fun i q hq hflight => ?_
        pending := fun i h => absurd h.symm (Option.some_ne_none i) }
      rcases getElem?_setRound hq with ⟨-, rfl⟩ | ⟨hne, hq⟩
      · exact absurd rfl hflight
      · exact absurd (Option.some.inj ((H.flight i q hq hflight).symm.trans hround)) hne
    next => exact H
  next => exact H

theorem read (H : Coherent s) (now : Int) : Coherent (s.engineHealth registry now).1 := by
  unfold Health.engineHealth
  split
  next => exact H.refresh
  next =>
    dsimp only
    split
    next => exact H.refresh
    next => exact H

theorem credentialChange (H : Coherent s) :
    Coherent { s.credentialChange with turn := s.turn + 1 } where
  flight := H.flight
  pending := H.pending
  generation r hr := Nat.le_succ_of_le (H.generation r hr)
  current r hr h := absurd h (Nat.ne_of_lt (Nat.lt_succ_of_le (H.generation r hr)))
  snapshot _ h := absurd h.symm (Option.some_ne_none _)
  changed turn h := by
    cases h
    exact Nat.lt_succ_self s.turn

theorem step (H : Coherent s) (event : HealthEvent) : Coherent (s.step registry event) := by
  cases event with
  | read now => exact (H.read now).tick
  | warm => exact H.refresh.tick
  | answered round engine outcome => exact (H.answered round engine outcome).tick
  | resumed round now => exact (H.resumed round now).tick
  | rejected round => exact (H.rejected round).tick
  | cleared round => exact (H.cleared round).tick
  | credentialChange => exact H.credentialChange

end Health.Coherent

end CliProxy.Server
