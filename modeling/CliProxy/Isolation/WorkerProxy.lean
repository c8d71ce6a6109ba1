import CliProxy.Isolation.IssuedBindings
import CliProxy.Lib.Machine

/-! # Requests that the gateway forwards

`UserWorkerProxy.forward`. One event is one callback, which runs to its end; a client that closes
its connection and a readiness timeout destroy the request to the worker, whose `error` is an event
of its own. -/

namespace CliProxy.WorkerProxy

open Function (update)
open Isolation (decodeProvisioningGeneration Uuidv7)

inductive WorkerIsolationErrorCode where
  | identity_required | identity_invalid | platform_unsupported | provisioner_unavailable
  | provisioning_failed | worker_unavailable
  deriving DecidableEq, Repr

/-- The workspace of a request, as `validIdentity` checked it. -/
structure RequestWorkspace where
  workspaceId : String
  workspaceScoped : Bool
  valid : workspaceScoped = true → validWorkspaceId workspaceId = true

/-- What `forward` is called with. -/
structure Call where
  method : String
  path : String
  /-- `provisioning_url` of the body, if it is a string. -/
  provisioningUrl : Option String
  workspace : RequestWorkspace
  /-- `onAuthorizedProvisioningUrl` is given. -/
  notifies : Bool

structure WorkerResponse where
  statusCode : Nat
  /-- The text that the header for an authorized URL encodes. -/
  authorizedProvisioning : Option String
  provisioningGeneration : Option String
  supersededGeneration : Option String

/-- A response to the client. -/
inductive Reply where
  | worker (status : Nat)
  | failure (status : Nat) (code : WorkerIsolationErrorCode)

/-- The body that the listeners collect, `none` once it is too large. -/
abbrev SessionBody := Option (List UInt8)

inductive Phase where
  | ensuring
  | waiting (accountName : String) (issued : Option IssuedProvisioningBinding)
  | streaming (accountName : String) (issued : Option IssuedProvisioningBinding)
      (response : WorkerResponse) (body : SessionBody)
  /-- The promise has settled; `answer` is a response of the worker that was read to its end. -/
  | settled (issued : Option IssuedProvisioningBinding)
      (answer : Option (WorkerResponse × SessionBody))

structure Forward where
  call : Call
  /-- The connection to the client is closed: `clientClosed` and `res.destroyed`. -/
  closed : Bool
  replies : List Reply
  phase : Phase

namespace Forward

variable (f : Forward)

/-- `res.headersSent`. -/
def headersSent : Bool := !f.replies.isEmpty

/-- The headers are sent, unless they were or nobody is left to receive them. -/
def reply (r : Reply) : Forward :=
  if f.headersSent || f.closed then f else { f with replies := f.replies ++ [r] }

def sendFailure (code : WorkerIsolationErrorCode) : Forward :=
  f.reply (.failure (if code = .platform_unsupported then 501 else 503) code)

def settle (issued : Option IssuedProvisioningBinding)
    (answer : Option (WorkerResponse × SessionBody)) : Forward :=
  { f with phase := .settled issued answer }

end Forward

/-! ## What was done -/

/-- A call of `onAuthorizedProvisioningUrl`. -/
structure Notification where
  url : String
  generation : String
  accountName : String
  path : String
  workspaceId : Option String
  expiresAt : Int
  now : Int

structure History where
  issued : List IssuedProvisioningBinding
  bound : List IssuedProvisioningBinding
  notified : List Notification

structure Gateway where
  store : Store
  forwards : Nat → Option Forward
  history : History

/-- The gateway as one request sees it. -/
structure Turn where
  store : Store
  forward : Forward
  history : History

namespace Turn

variable (cfg : GatewayConfig) (t : Turn)

def reply (r : Reply) : Turn := { t with forward := t.forward.reply r }

def fail (code : WorkerIsolationErrorCode) : Turn :=
  { t with forward := t.forward.sendFailure code }

def settle (issued : Option IssuedProvisioningBinding)
    (answer : Option (WorkerResponse × SessionBody)) : Turn :=
  { t with forward := t.forward.settle issued answer }

/-! ## Before the request to the worker -/

/-- `allowedProvisioningUrl`. -/
def allowedProvisioningUrl (call : Call) : Option String :=
  match call.provisioningUrl with
  | some url =>
    if (4 * utf8Length url.toList + 2) / 3 ≤ 8 * 1024 && cfg.checkUrlAllowed url then
      cfg.normalizeUrl url
    else none
  | none => none

/-- The binding that a call asks for. -/
def requestedBinding (call : Call) (accountName : String) : Option IssueOptions :=
  if call.notifies && call.method == "POST" then
    match allowedProvisioningUrl cfg call, authSessionCollection call.path with
    | some url, some engine => some {
        url
        accountName
        engine
        workspaceId :=
          if call.workspace.workspaceScoped then some call.workspace.workspaceId else none }
    | _, _ => none
  else none

def ensured (accountName : String) (uuid : Uuidv7) (issuedAt now : Int) (saved : Bool) : Turn :=
  if t.forward.closed then t.settle none none
  else match requestedBinding cfg t.forward.call accountName with
    | none => { t with forward.phase := .waiting accountName none }
    | some options =>
      match t.store.issueProvisioningGeneration cfg options uuid issuedAt now saved with
      | (store, some issued) => { t with
          store
          forward.phase := .waiting accountName (some issued)
          history.issued := t.history.issued ++ [issued] }
      | (store, none) => ({ t with store }.fail .worker_unavailable).settle none none

/-! ## The response of the worker -/

/-- Whether each save in the callback for a response succeeds. -/
structure ResponseSaves where
  released : Bool
  cancelled : Bool
  notified : Bool

/-- Only a 201 is waited for. -/
def bindingToFinalize (issued : Option IssuedProvisioningBinding) (response : WorkerResponse) :
    Option IssuedProvisioningBinding := if response.statusCode = 201 then issued else none

def superseded (response : WorkerResponse) : Option String :=
  decodeProvisioningGeneration response.supersededGeneration

/-- The bindings that end with this response, `false` if a save throws. -/
def releaseAnswered (accountName : String) (issued : Option IssuedProvisioningBinding)
    (response : WorkerResponse) (saved : Bool) : Store × Bool :=
  let sessionCollection := authSessionCollection t.forward.call.path
  if (bindingToFinalize issued response).isNone
      && (issued.isSome || (sessionCollection.isSome && (superseded response).isSome)) then
    t.store.releaseWorkerResponseBindings issued accountName sessionCollection (superseded response)
      saved
  else (t.store, true)

/-- The session that a successful DELETE cancels. -/
def cancelledSession (response : WorkerResponse) : Option (String × String) :=
  if t.forward.call.method == "DELETE" && 200 ≤ response.statusCode && response.statusCode < 300 then
    authSessionResource t.forward.call.path
  else none

def releaseCancelled (accountName : String) (response : WorkerResponse) (saved : Bool) :
    Store × Bool :=
  match t.cancelledSession response with
  | some (engine, sessionId) => t.store.releaseIssuedSession accountName engine sessionId saved
  | none => (t.store, true)

/-- The notification in the headers of a response. -/
def relay (accountName : String) (response : WorkerResponse) (now : Int) (saved : Bool) : Turn :=
  match response.authorizedProvisioning.bind cfg.normalizeUrl,
      decodeProvisioningGeneration response.provisioningGeneration with
  | some url, some generation =>
    if t.forward.call.notifies then
      match t.store.relayProvisioningNotification cfg url generation accountName t.forward.call.path
          now saved with
      | (store, some binding) => { t with
          store
          history.notified := t.history.notified ++ [{
            url, generation, accountName, path := t.forward.call.path
            workspaceId := binding.workspaceId, expiresAt := binding.expiresAt, now }] }
      | (store, none) => { t with store }
    else t
  | _, _ => t

def response (accountName : String) (issued : Option IssuedProvisioningBinding)
    (response : WorkerResponse) (now : Int) (saves : ResponseSaves) : Turn :=
  match t.releaseAnswered accountName issued response saves.released with
  | (store, false) => ({ t with store }.fail .worker_unavailable).settle issued none
  | (store, true) =>
    match { t with store }.releaseCancelled accountName response saves.cancelled with
    | (store, false) => ({ t with store }.fail .worker_unavailable).settle issued none
    | (store, true) =>
      let t := if (bindingToFinalize issued response).isNone then
        { t with store }.relay cfg accountName response now saves.notified else { t with store }
      { t with forward.phase := .streaming accountName issued response (some []) }

/-- A chunk is piped to the client, or collected. -/
def data (accountName : String) (issued : Option IssuedProvisioningBinding)
    (response : WorkerResponse) (body : SessionBody) (chunk : List UInt8) : Turn :=
  if (bindingToFinalize issued response).isNone then
    t.reply (.worker response.statusCode)
  else
    let body := (body.map (· ++ chunk)).filter (·.length ≤ MAX_SESSION_RESPONSE_BYTES)
    { t with forward.phase := .streaming accountName issued response body }

/-! ## The end of the response -/

structure EndSaves where
  bound : Bool
  released : Bool

/-- The binding gets its session, `false` if the response is not answered with it. -/
def bindSession (binding : IssuedProvisioningBinding) (response : WorkerResponse)
    (body : SessionBody) (now : Int) (saved : Bool) : Turn × Bool :=
  match body with
  | none => (t, false)
  | some body =>
    match t.store.bindIssuedGenerationToSession cfg binding body (superseded response) now saved with
    | (store, some true) => ({ t with
        store
        history.bound := t.history.bound ++ (Store.finalized cfg binding body now).toList }, true)
    | (store, _) => ({ t with store }, false)

def ended (accountName : String) (issued : Option IssuedProvisioningBinding)
    (response : WorkerResponse) (body : SessionBody) (now : Int) (saves : EndSaves) : Turn :=
  match bindingToFinalize issued response with
  | none =>
    (t.reply (.worker response.statusCode)).settle issued (some (response, body))
  | some binding =>
    match t.bindSession cfg binding response body now saves.bound with
    | (t, true) => (t.reply (.worker response.statusCode)).settle issued (some (response, body))
    | (t, false) =>
      let released := t.store.releaseWorkerResponseBindings (some binding) accountName
        (authSessionCollection t.forward.call.path) (superseded response) saves.released
      ({ t with store := released.1 }.fail .worker_unavailable).settle issued
        (some (response, body))

/-- `error` of the response. -/
def responseError (accountName : String) (issued : Option IssuedProvisioningBinding)
    (response : WorkerResponse) (saved : Bool) : Turn :=
  let sessionCollection := authSessionCollection t.forward.call.path
  let released := if issued.isSome || (sessionCollection.isSome && (superseded response).isSome) then
    t.store.releaseWorkerResponseBindings issued accountName sessionCollection (superseded response)
      saved
    else (t.store, true)
  ({ t with store := released.1 }.fail .worker_unavailable).settle issued none

/-- `error` of the request. -/
def requestError (issued : Option IssuedProvisioningBinding) (saved : Bool) : Turn :=
  let released := match issued with
    | some issued => t.store.releaseIssuedGeneration issued saved
    | none => (t.store, true)
  ({ t with store := released.1 }.fail .worker_unavailable).settle issued none

end Turn

/-! ## The gateway -/

inductive ForwardEvent where
  | ensured (accountName : String) (uuid : Uuidv7) (issuedAt now : Int) (saved : Bool)
  | ensureFailed (code : WorkerIsolationErrorCode)
  | response (response : WorkerResponse) (now : Int) (saves : Turn.ResponseSaves)
  | data (chunk : List UInt8)
  | ended (now : Int) (saves : Turn.EndSaves)
  | responseError (saved : Bool)
  | requestError (saved : Bool)
  | clientClosed

/-- A callback of a request; one that cannot happen in its phase changes nothing. -/
def Turn.on (cfg : GatewayConfig) (t : Turn) (event : ForwardEvent) : Turn :=
  match event with
  | .clientClosed => { t with forward.closed := true }
  | .ensured accountName uuid issuedAt now saved =>
    match t.forward.phase with
    | .ensuring => t.ensured cfg accountName uuid issuedAt now saved
    | _ => t
  | .ensureFailed code =>
    match t.forward.phase with
    | .ensuring => (t.fail code).settle none none
    | _ => t
  | .response response now saves =>
    match t.forward.phase with
    | .waiting accountName issued => t.response cfg accountName issued response now saves
    | _ => t
  | .requestError saved =>
    match t.forward.phase with
    | .waiting _ issued => t.requestError issued saved
    | _ => t
  | .data chunk =>
    match t.forward.phase with
    | .streaming accountName issued response body => t.data accountName issued response body chunk
    | _ => t
  | .ended now saves =>
    match t.forward.phase with
    | .streaming accountName issued response body =>
      t.ended cfg accountName issued response body now saves
    | _ => t
  | .responseError saved =>
    match t.forward.phase with
    | .streaming accountName issued response _ =>
      t.responseError accountName issued response saved
    | _ => t

inductive Event where
  | call (id : Nat) (call : Call)
  | on (id : Nat) (event : ForwardEvent)
  /-- The process stops at any moment, and another one is started. -/
  | restart (now : Int)

namespace Gateway

variable (cfg : GatewayConfig)

def call (g : Gateway) (id : Nat) (call : Call) : Gateway :=
  match g.forwards id with
  | some _ => g
  | none => { g with forwards := update g.forwards id (some ⟨call, false, [], .ensuring⟩) }

def on (g : Gateway) (id : Nat) (event : ForwardEvent) : Gateway :=
  match g.forwards id with
  | none => g
  | some forward =>
    let t := (Turn.mk g.store forward g.history).on cfg event
    ⟨t.store, update g.forwards id (some t.forward), t.history⟩

def restart (g : Gateway) (now : Int) : Gateway :=
  { g with
    store := ⟨g.store.files, .ofFiles g.store.files now⟩
    forwards := fun _ => none }

def step (g : Gateway) : Event → Gateway
  | .call id call => g.call id call
  | .on id event => g.on cfg id event
  | .restart now => g.restart now

end Gateway

/-- The files before the first start: what an earlier version left of them. -/
structure EarlierFiles where
  notification : Option String
  issued : Option String

def EarlierFiles.files (earlier : EarlierFiles) : Files :=
  ⟨earlier.notification, match earlier.issued with
    | some generation => .legacy generation
    | none => .absent⟩

def Gateway.init (earlier : EarlierFiles) (now : Int) : Gateway where
  store := ⟨earlier.files, .ofFiles earlier.files now⟩
  forwards _ := none
  history := ⟨[], [], []⟩

def gateway (cfg : GatewayConfig) (earlier : EarlierFiles) (now : Int) :
    Lib.Machine Gateway Event where
  init := .init earlier now
  step := Gateway.step cfg

end CliProxy.WorkerProxy
