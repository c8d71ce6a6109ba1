import CliProxy.Lib.Machine

/-! # The registry of in-flight auth attempts

`src/auth/session-manager.ts`. The three maps `byId`, `byEngine` and `starting` are module
state; record objects are compared by identity, so they live in a heap (`records`) that
outlives `byId`. Every run-to-completion stretch between two awaits is one event: a call from
a route, the settlement of an adapter's `start()`, `submit()` or `wait()`, or a timer. -/

namespace CliProxy.Auth

inductive AuthFlow where
  | apiKey | pasteCode | deviceCode
  deriving DecidableEq, Repr

def AuthFlow.name : AuthFlow → String
  | .apiKey => "api-key"
  | .pasteCode => "paste-code"
  | .deviceCode => "device-code"

inductive SessionStatus where
  | pending | authorized | failed | cancelled
  deriving DecidableEq, Repr

def SessionStatus.name : SessionStatus → String
  | .pending => "pending"
  | .authorized => "authorized"
  | .failed => "failed"
  | .cancelled => "cancelled"

structure StoredCredential where
  envVar : String
  value : String
  gateway : Option String := none
  deriving DecidableEq, Repr

structure AuthStartResult where
  verificationUrl : Option String := none
  userCode : Option String := none
  instructions : String
  deriving DecidableEq, Repr

structure AuthSubmitResult where
  credential : Option StoredCredential := none
  deriving DecidableEq, Repr

/-- A message with its code: `AuthProvisioningError`, or a view's `error`. -/
structure AuthError where
  message : String
  code : String
  deriving DecidableEq, Repr

/-- What an adapter's promise rejects with. -/
inductive Rejection where
  | provisioning (error : AuthError)
  | other (message : String)
  deriving DecidableEq, Repr

/-- The error shown for a rejection; only an `AuthProvisioningError` brings its own code. -/
def Rejection.toError (fallback : String) : Rejection → AuthError
  | .provisioning error => error
  | .other message => ⟨message, fallback⟩

/-- One way to log an engine in. `waits` says whether the sessions `createSession()` builds
carry a `wait` (the flows that complete without a submission). -/
structure EngineFlowDescriptor where
  flow : AuthFlow
  injectsCredential : Bool := false
  waits : Bool := false
  deriving DecidableEq, Repr

structure EngineAuthDescriptor where
  engine : String
  flows : List EngineFlowDescriptor
  deriving DecidableEq, Repr

abbrev HandleId := Nat
abbrev SessionId := Nat
abbrev CallId := Nat

structure SessionOptions where
  provisioningUrl : Option String := none
  provisioningGeneration : Option String := none
  provisioningWorkspaceId : Option String := none
  sessionTtlMs : Option Nat := none
  deriving DecidableEq, Repr

structure Reservation where
  handle : HandleId
  provisioningGeneration : Option String
  deriving DecidableEq, Repr

structure SessionView where
  sessionId : SessionId
  engine : String
  flow : AuthFlow
  status : SessionStatus
  verificationUrl : Option String
  userCode : Option String
  instructions : String
  expiresAt : Nat
  error : Option AuthError
  deriving DecidableEq, Repr

structure SessionRecord extends SessionView where
  handle : HandleId
  /-- `handle.wait` is present. -/
  waits : Bool
  submitting : Bool
  provisioningUrl : Option String
  provisioningGeneration : Option String
  provisioningWorkspaceId : Option String
  deriving DecidableEq, Repr

/-- What the manager does to the world outside its own maps. -/
inductive Effect where
  | cancel (handle : HandleId)
  | startAdapter (handle : HandleId)
  | submitAdapter (handle : HandleId) (input : String)
  | setCredential (engine : String) (credential : StoredCredential)
  | notifyCredentialChange
  | handleAuthorizedSession (session : SessionId) (workspace url : Option String)
  | supersededGeneration (generation : String)
  deriving DecidableEq, Repr

/-- `createSession` suspended in `await handle.start()`. -/
structure StartFrame where
  engine : String
  flow : EngineFlowDescriptor
  options : SessionOptions
  /-- The scoped workspace of the calling context. -/
  context : Option String
  deriving DecidableEq, Repr

/-- `submitSession` suspended in `await record.handle.submit(input, options)`. -/
structure SubmitFrame where
  engine : String
  session : SessionId
  deriving DecidableEq, Repr

structure Config where
  resolveEngine : String → Option EngineAuthDescriptor
  trustsCompletionCallers : Bool
  authSessionTtlMs : Nat

structure Manager where
  records : SessionId → Option SessionRecord
  byId : SessionId → Bool
  byEngine : String → Option SessionId
  starting : AList fun _ : String => Reservation
  /-- The timer of this session is armed. -/
  timers : SessionId → Bool
  starts : HandleId → Option StartFrame
  submits : CallId → Option SubmitFrame
  /-- The `then` of `settleWhenDone` has not run yet. -/
  waiting : SessionId → Bool
  nextHandle : HandleId
  nextSession : SessionId
  nextCall : CallId
  startRejected : HandleId → Bool
  effects : List Effect

def Manager.initial : Manager where
  records _ := none
  byId _ := false
  byEngine _ := none
  starting := ∅
  timers _ := false
  starts _ := none
  submits _ := none
  waiting _ := false
  nextHandle := 0
  nextSession := 0
  nextCall := 0
  startRejected _ := false
  effects := []

/-- How a call or a settled continuation answers. -/
inductive Reply where
  | awaiting
  | view (view : SessionView)
  | error (error : AuthError)
  /-- The adapter's own rejection, passed on. -/
  | rejected (rejection : Rejection)
  | done
  deriving DecidableEq, Repr

open Function (update)

namespace Manager

variable (s : Manager)

/-- The record `byId` holds under an id. -/
def get (id : SessionId) : Option SessionRecord :=
  if s.byId id then s.records id else none

def emit (effect : Effect) : Manager := { s with effects := s.effects ++ [effect] }

def setRecord (id : SessionId) (record : SessionRecord) : Manager :=
  { s with records := update s.records id (some record) }

/-- `if (byEngine.get(record.engine) === record.sessionId) byEngine.delete(record.engine)`. -/
def releaseEngine (engine : String) (id : SessionId) : Manager :=
  { s with byEngine :=
      if s.byEngine engine = some id then update s.byEngine engine none else s.byEngine }

/-- Drop a session and kill whatever it was holding. -/
def dispose (record : SessionRecord) (status : SessionStatus) : Manager :=
  let s := { s with timers := update s.timers record.sessionId false }
  let s := s.setRecord record.sessionId { record with status }
  let s := s.emit (.cancel record.handle)
  let s := { s with byId := update s.byId record.sessionId false }
  s.releaseEngine record.engine record.sessionId

def supersededError (engine : String) : AuthError :=
  ⟨s!"A newer authentication attempt for \"{engine}\" superseded this one", "session_superseded"⟩

/-- `onSupersededProvisioningGeneration`, called only with a non-empty generation. -/
def reportSuperseded : Option String → Manager
  | some generation => if generation = "" then s else s.emit (.supersededGeneration generation)
  | none => s

/-- Cancel the session `byEngine` holds for the engine. -/
def supersedeSession (engine : String) : Manager :=
  match s.byEngine engine with
  | none => s
  | some existingId =>
    match s.get existingId with
    | none => s
    | some existing =>
      (s.reportSuperseded existing.provisioningGeneration).dispose existing .cancelled

/-- Supersede a start that has not registered yet, killing its child now. -/
def supersedeStart (engine : String) : Manager :=
  match s.starting.lookup engine with
  | none => s
  | some superseded =>
    let s := { s with starting := s.starting.erase engine }
    (s.reportSuperseded superseded.provisioningGeneration).emit (.cancel superseded.handle)

/-- The flow a `createSession` call names, or why the call is refused. -/
def selectFlow (cfg : Config) (engine : String) (flow : Option String) :
    Except AuthError EngineFlowDescriptor :=
  match cfg.resolveEngine engine with
  | none => .error ⟨s!"Unknown engine \"{engine}\"", "unknown_engine"⟩
  | some descriptor =>
    let found := match flow with
      | some flow => descriptor.flows.find? fun (candidate : EngineFlowDescriptor) => candidate.flow.name = flow
      | none => descriptor.flows.head?
    match found with
    | none =>
      let named := flow.getD "undefined"
      let supported := ", ".intercalate (descriptor.flows.map fun (candidate : EngineFlowDescriptor) => candidate.flow.name)
      .error ⟨s!"Engine \"{engine}\" does not support flow \"{named}\". "
        ++ s!"Supported: {supported}.", "unsupported_flow"⟩
    | some flowDescriptor =>
      if flowDescriptor.injectsCredential && !cfg.trustsCompletionCallers then
        .error ⟨s!"Provisioning \"{engine}\" is refused: its credential can only reach the CLI "
          ++ "through a completion child's environment, which any completion caller can read. "
          ++ "Set AUTH_TRUST_COMPLETION_CALLERS=1 to declare that every completion caller is as "
          ++ "trusted as this admin key.", "caller_trust_not_declared"⟩
      else .ok flowDescriptor

/-- `createSession` up to `await handle.start()`. -/
def createSession (cfg : Config) (engine : String) (flow : Option String)
    (options : SessionOptions) (context : Option String) : Reply × Manager :=
  match selectFlow cfg engine flow with
  | .error error => (.error error, s)
  | .ok flowDescriptor =>
    let s := (s.supersedeSession engine).supersedeStart engine
    let handle := s.nextHandle
    let s := { s with
      nextHandle := handle + 1
      starting := s.starting.insert engine ⟨handle, options.provisioningGeneration⟩
      starts := update s.starts handle (some ⟨engine, flowDescriptor, options, context⟩) }
    (.awaiting, s.emit (.startAdapter handle))

/-- `starting.get(engine) === reservation`; a reservation is known by its handle. -/
def ownsSlot (engine : String) (handle : HandleId) : Bool :=
  (s.starting.lookup engine).map (·.handle) = some handle

/-- The `finally` of the awaited start: a later start may already own the slot. -/
def clearReservation (engine : String) (handle : HandleId) : Manager :=
  if s.ownsSlot engine handle then { s with starting := s.starting.erase engine } else s

/-- The record a started attempt registers. -/
def newRecord (cfg : Config) (now : Nat) (handle : HandleId) (frame : StartFrame)
    (started : AuthStartResult) : SessionRecord where
  sessionId := s.nextSession
  engine := frame.engine
  flow := frame.flow.flow
  status := .pending
  verificationUrl := started.verificationUrl
  userCode := started.userCode
  instructions := started.instructions
  expiresAt := now + frame.options.sessionTtlMs.getD cfg.authSessionTtlMs
  error := none
  handle := handle
  waits := frame.flow.waits
  submitting := false
  provisioningUrl := frame.options.provisioningUrl
  provisioningGeneration := frame.options.provisioningGeneration
  provisioningWorkspaceId := frame.options.provisioningWorkspaceId.or frame.context

def register (record : SessionRecord) : Manager :=
  let s := { s with nextSession := record.sessionId + 1 }
  let s := { s with timers := update s.timers record.sessionId true }
  let s := s.setRecord record.sessionId record
  let s := { s with byId := update s.byId record.sessionId true }
  let s := { s with byEngine := update s.byEngine record.engine (some record.sessionId) }
  if record.waits then { s with waiting := update s.waiting record.sessionId true } else s

/-- `createSession` after `start()` fulfilled. -/
def startFulfilled (cfg : Config) (now : Nat) (handle : HandleId) (started : AuthStartResult) :
    Reply × Manager :=
  match s.starts handle with
  | none => (.done, s)
  | some frame =>
    let s := { s with starts := update s.starts handle none }
    let s := s.clearReservation frame.engine handle
    -- Registering now would resurrect the session a later start just superseded.
    if (s.starting.lookup frame.engine).isSome || (s.byEngine frame.engine).isSome then
      (.error (supersededError frame.engine), s.emit (.cancel handle))
    else
      let record := s.newRecord cfg now handle frame started
      (.view record.toSessionView, s.register record)

/-- `createSession` after `start()` rejected. -/
def startRejects (handle : HandleId) (rejection : Rejection) : Reply × Manager :=
  match s.starts handle with
  | none => (.done, s)
  | some frame =>
    -- Superseding cancels the handle mid-start: report the race the caller actually lost.
    let reply := if s.ownsSlot frame.engine handle then .rejected rejection else
      .error (supersededError frame.engine)
    let s := { s with
      starts := update s.starts handle none
      startRejected := update s.startRejected handle true }
    (reply, s.clearReservation frame.engine handle)

/-- The inner `conclude` of `settleWhenDone`. -/
def conclude (id : SessionId) (status : SessionStatus) (error : Option AuthError) : Manager :=
  match s.get id with
  | none => s
  | some record =>
    if record.status ≠ .pending then s else
      let s := s.setRecord id { record with status, error }
      let s := s.releaseEngine record.engine id
      if status = .authorized then s.emit .notifyCredentialChange else s

/-- `setCredential` announces the change itself. -/
def storeCredential (engine : String) : Option StoredCredential → Manager
  | some credential => (s.emit (.setCredential engine credential)).emit .notifyCredentialChange
  | none => s

/-- `settleWhenDone`, once `wait()` fulfilled. -/
def waitFulfilled (id : SessionId) (result : AuthSubmitResult) : Manager :=
  match s.waiting id, s.records id with
  | true, some record =>
    let s := { s with waiting := update s.waiting id false }
    let s := s.storeCredential record.engine result.credential
    let s := s.conclude id .authorized none
    -- Read after the conclusion: a record that was authorized before passes as well.
    if (s.records id).map (·.status) = some .authorized then
      s.emit (.handleAuthorizedSession id record.provisioningWorkspaceId record.provisioningUrl)
    else s
  | _, _ => s

/-- `settleWhenDone`, once `wait()` rejected. -/
def waitRejects (id : SessionId) (rejection : Rejection) : Manager :=
  if s.waiting id then
    ({ s with waiting := update s.waiting id false }).conclude id .failed
      (rejection.toError "login_failed")
  else s

def unknownSession (id : SessionId) : AuthError :=
  ⟨s!"Unknown session \"{id}\"", "unknown_session"⟩

def requireSession (engine : String) (id : SessionId) : Except AuthError SessionRecord :=
  match s.get id with
  | some record =>
    if record.engine ≠ engine then .error (unknownSession id) else .ok record
  | none => .error (unknownSession id)

/-- `submitSession` up to `await record.handle.submit(input, options)`. -/
def submitSession (engine : String) (id : SessionId) (input : String) : Reply × Manager :=
  match s.requireSession engine id with
  | .error error => (.error error, s)
  | .ok record =>
    if record.status = .authorized ∧ ¬ record.waits then (.view record.toSessionView, s)
    else if record.status ≠ .pending then
      (.error ⟨s!"Session is already {record.status.name}", "session_not_pending"⟩, s)
    else if record.waits then
      (.error ⟨"This flow takes no submission: enter the code at the verification URL, then "
        ++ "poll the session.", "submission_not_supported"⟩, s)
    else if record.submitting then
      (.error ⟨"Another submission for this session is already in progress",
        "session_submitting"⟩, s)
    else
      let call := s.nextCall
      let s := s.setRecord id { record with submitting := true }
      let s := { s with
        nextCall := call + 1
        submits := update s.submits call (some ⟨engine, id⟩) }
      (.awaiting, s.emit (.submitAdapter record.handle input))

/-- The `finally` of `submitSession`: `record.submitting = false`. -/
def endSubmission (id : SessionId) : Manager :=
  match s.records id with
  | some record => s.setRecord id { record with submitting := false }
  | none => s

/-- The record still decides: it is the one `byId` holds and nothing concluded it. -/
def stillPending (id : SessionId) : Bool :=
  match s.get id with
  | some record => record.status = .pending
  | none => false

/-- `submitSession` after the adapter's `submit` fulfilled. -/
def submitFulfilled (call : CallId) (result : AuthSubmitResult) : Reply × Manager :=
  match s.submits call with
  | none => (.done, s)
  | some frame =>
    let s := { s with submits := update s.submits call none }
    match s.records frame.session with
    | none => (.done, s)
    | some record =>
      if !s.stillPending frame.session then
        (.error (supersededError frame.engine), s.endSubmission frame.session)
      else
        let s := s.storeCredential frame.engine result.credential
        let record := { record with status := .authorized }
        let s := s.setRecord frame.session record
        let s := s.emit .notifyCredentialChange
        let s := s.emit (.cancel record.handle)
        let s := s.releaseEngine record.engine record.sessionId
        let s := s.emit (.handleAuthorizedSession frame.session record.provisioningWorkspaceId
          record.provisioningUrl)
        (.view record.toSessionView, s.endSubmission frame.session)

/-- `submitSession` after the adapter's `submit` rejected. -/
def submitRejects (call : CallId) (rejection : Rejection) : Reply × Manager :=
  match s.submits call with
  | none => (.done, s)
  | some frame =>
    let s := { s with submits := update s.submits call none }
    match s.records frame.session with
    | none => (.done, s)
    | some record =>
      if !s.stillPending frame.session then
        (.error (supersededError frame.engine), s.endSubmission frame.session)
      else
        let failed := { record.toSessionView with
          status := .failed, error := some (rejection.toError "submit_failed") }
        (.view failed, (s.dispose record .failed).endSubmission frame.session)

def cancelSession (engine : String) (id : SessionId) : Reply × Manager :=
  match s.requireSession engine id with
  | .error error => (.error error, s)
  | .ok record =>
    let status := if record.status = .pending then .cancelled else record.status
    (.view { record.toSessionView with status }, s.dispose record status)

/-- The timer of a session fires. -/
def expire (id : SessionId) : Manager :=
  if s.timers id then
    let s := { s with timers := update s.timers id false }
    match s.get id with
    | some record => s.dispose record .failed
    | none => s
  else s

/-- Dispose the session with this id, if `byId` holds one. -/
def resetSession (id : SessionId) : Manager :=
  match s.get id with
  | some record => s.dispose record .cancelled
  | none => s

/-- Drop one reservation, killing its child. -/
def resetStart (entry : Sigma fun _ : String => Reservation) : Manager :=
  ({ s with starting := s.starting.erase entry.1 }).emit (.cancel entry.2.handle)

/-- Drop every session, killing any child it holds. -/
def resetSessions : Manager :=
  let s := (List.range s.nextSession).foldl resetSession s
  s.starting.entries.foldl resetStart s

end Manager

/-- One run-to-completion stretch. -/
inductive Event where
  | createSession (engine : String) (flow : Option String) (options : SessionOptions)
      (context : Option String)
  | startFulfilled (now : Nat) (handle : HandleId) (started : AuthStartResult)
  | startRejects (handle : HandleId) (rejection : Rejection)
  | submitSession (engine : String) (id : SessionId) (input : String)
  | submitFulfilled (call : CallId) (result : AuthSubmitResult)
  | submitRejects (call : CallId) (rejection : Rejection)
  | waitFulfilled (id : SessionId) (result : AuthSubmitResult)
  | waitRejects (id : SessionId) (rejection : Rejection)
  | cancelSession (engine : String) (id : SessionId)
  | expire (id : SessionId)
  | resetSessions

namespace Manager

/-- The manager after an event. A settlement of a call that is not in flight does nothing. -/
def step (cfg : Config) (s : Manager) : Event → Manager
  | .createSession engine flow options context =>
    (s.createSession cfg engine flow options context).2
  | .startFulfilled now handle started => (s.startFulfilled cfg now handle started).2
  | .startRejects handle rejection => (s.startRejects handle rejection).2
  | .submitSession engine id input => (s.submitSession engine id input).2
  | .submitFulfilled call result => (s.submitFulfilled call result).2
  | .submitRejects call rejection => (s.submitRejects call rejection).2
  | .waitFulfilled id result => s.waitFulfilled id result
  | .waitRejects id rejection => s.waitRejects id rejection
  | .cancelSession engine id => (s.cancelSession engine id).2
  | .expire id => s.expire id
  | .resetSessions => s.resetSessions

/-- The session manager as a machine, driven by its callers and by the adapters. -/
def machine (cfg : Config) : Lib.Machine Manager Event := ⟨.initial, step cfg⟩

end Manager

end CliProxy.Auth
