import CliProxy.Lib.Machine
import CliProxy.Provision.Types

/-! # The operations of one workspace, microtask by microtask

`syncNow`, `serialize`, `registerManifestUrl`, `approveItem`, `deleteItem` and
`handleAuthorizedSession` of `src/provision/sync.ts`, with what `runSync` does to the
workspace runtime. `jobs` is the microtask queue: a promise that settles appends the reactions
registered on it, and `tick` runs the first one. Callers enter between any two jobs, and so
does the outside world when it answers an await of a running `runSync`. -/

namespace CliProxy.Provision

open Function (update)

/-- A body handed to `serialize`. -/
inductive Body where
  | runSync (loop generation : Nat)
  | approve (call : Nat) (key : Key) (generation : Nat)
  | delete (key : Key)
  deriving DecidableEq, Repr

abbrev Outcome := Except String Unit

/-- The promise `runSync` returned. -/
structure Run where
  /-- Past `fetchManifest` and its generation check. -/
  fetched : Bool
  /-- The promise of `serialize` follows this one. -/
  adopted : Bool
  outcome : Option Outcome

inductive LoopPhase where
  | awaiting
  | returned (outcome : Except String (Option Nat))
  | settled (outcome : Except String (Option Nat))
  deriving DecidableEq

/-- An activation of `loop()`: the operation its last iteration awaits, `startedGeneration`,
and the run whose status `result` holds. -/
structure Loop where
  op : Nat
  startedGeneration : Nat
  result : Option Nat
  phase : LoopPhase
  deriving DecidableEq

/-- A caller that holds the promise of a `loop()`. -/
structure Join where
  loop : Nat
  /-- The operation that saved the grant, for `approveItem`. -/
  grant : Option Nat
  /-- The generation this caller registered before it called `syncNow`. -/
  wanted : Option Nat
  /-- `handleAuthorizedSession` records the failure. -/
  authorized : Bool
  deriving DecidableEq

inductive Call where
  | approving (op : Nat)
  | joined (join : Join)
  | rejected (message : String)
  deriving DecidableEq

inductive Job where
  | operation (op : Nat)
  | adopt (op : Nat)
  | resolve (op : Nat) (outcome : Outcome)
  /-- The `pendingOperations -= 1` that settles the promise `operationTail`. -/
  | advance (op : Nat)
  | loop (loop op : Nat) (outcome : Outcome)
  | approved (call op : Nat) (outcome : Outcome)
  | caught (loop : Nat) (outcome : Except String (Option Nat))
  | cleared (loop : Nat) (outcome : Except String (Option Nat))
  | settle (loop : Nat) (outcome : Except String (Option Nat))

/-- What the bodies did, in the order it happened. -/
inductive Entry where
  | started (op : Nat)
  | granted (op : Nat)
  | loaded (op : Nat)
  | ended (op : Nat)
  deriving DecidableEq, Repr

def Entry.op : Entry → Nat
  | .started op | .granted op | .loaded op | .ended op => op

structure QueueConfig where
  enabled : Bool
  /-- `fixedManifestUrl`, in the workspace it pins. -/
  pinned : Option String
  checkUrlAllowed : String → Outcome

structure Workspace where
  shuttingDown : Bool
  manifestUrl : Option String
  manifestGeneration : Nat
  lastManifest : Option (List Key)
  lastManifestGeneration : Option Nat
  lastError : Option String
  inFlight : Option Nat
  syncRequested : Bool
  pendingOperations : Nat
  /-- Every body handed to `serialize`, in order. -/
  bodies : List Body
  /-- How many promises of the `operationTail` chain have settled. -/
  advanced : Nat
  runs : Nat → Option Run
  loops : Nat → Option Loop
  nextLoop : Nat
  calls : Nat → Option Call
  nextCall : Nat
  /-- The generation a caller's last URL change produced. -/
  registered : Nat → Option Nat
  jobs : List Job
  log : List Entry

def Workspace.fresh : Workspace where
  shuttingDown := false
  manifestUrl := none
  manifestGeneration := 0
  lastManifest := none
  lastManifestGeneration := none
  lastError := none
  inFlight := none
  syncRequested := false
  pendingOperations := 0
  bodies := []
  advanced := 0
  runs _ := none
  loops _ := none
  nextLoop := 0
  calls _ := none
  nextCall := 0
  registered _ := none
  jobs := []
  log := []

namespace Workspace

variable (s : Workspace)

def record (entry : Entry) : Workspace := { s with log := s.log ++ [entry] }

def enqueue (jobs : List Job) : Workspace := { s with jobs := s.jobs ++ jobs }

def dequeue (jobs : List Job) : Workspace := { s with jobs }

def setRun (op : Nat) (run : Run) : Workspace := { s with runs := update s.runs op (some run) }

/-- A body joins `operationTail`; it runs at once, as a job, when the tail has settled. -/
def serialize (body : Body) : Workspace :=
  let op := s.bodies.length
  let s := { s with bodies := s.bodies ++ [body], pendingOperations := s.pendingOperations + 1 }
  if s.advanced = op then s.enqueue [.operation op] else s

/-- The promise `serialize` returned settles: `operationTail` reacts first, then the `await`. -/
def settleOperation (op : Nat) (outcome : Outcome) : Workspace :=
  match s.bodies[op]? with
  | some (.runSync loop _) => s.enqueue [.advance op, .loop loop op outcome]
  | some (.approve call _ _) => s.enqueue [.advance op, .approved call op outcome]
  | _ => s.enqueue [.advance op]

/-- The promise `runSync` returned settles. -/
def settleRun (op : Nat) (run : Run) (outcome : Outcome) : Workspace :=
  let s := (s.setRun op { run with outcome := some outcome }).record (.ended op)
  if run.adopted then s.enqueue [.resolve op outcome] else s

/-- `runSync` up to `await fetchManifest(url)`. -/
def startRun (cfg : QueueConfig) (op : Nat) : Workspace :=
  let run := ⟨false, false, none⟩
  let s := if !cfg.enabled then
      s.settleRun op run
        (.error "Provisioning is disabled. Set PROVISION_SYNC=1 to enable it.")
    else if s.manifestUrl.isNone then s.settleRun op run (.error "No manifest URL registered.")
    else s.setRun op run
  s.enqueue [.adopt op]

/-- `fetchManifest` settled for the run `op`. -/
def fetched (op : Nat) (answer : Except String (List Key)) : Workspace :=
  match s.runs op, s.bodies[op]? with
  | some run, some (.runSync _ generation) =>
    if run.fetched || run.outcome.isSome then s else
    match answer with
    | .error message => s.settleRun op run (.error message)
    | .ok manifest =>
      if generation ≠ s.manifestGeneration then
        s.settleRun op run
          (.error "Provisioning sync was superseded by a newer manifest URL.")
      else
        let s := { s with
          lastManifest := some manifest
          lastManifestGeneration := some generation }
        (s.setRun op { run with fetched := true }).record (.loaded op)
  | _, _ => s

/-- The run `op` ends after it loaded the lockfile. -/
def finished (op : Nat) (outcome : Outcome) : Workspace :=
  match s.runs op with
  | some run => if run.fetched && run.outcome.isNone then s.settleRun op run outcome else s
  | none => s

/-- The manifest of this generation carries the key. -/
def knows (generation : Nat) (key : Key) : Bool :=
  s.lastManifestGeneration = some generation && (s.lastManifest.any (·.contains key))

def unknownItem (key : Key) : String := s!"No item \"{key.type}/{key.name}\" in the current manifest"

/-- The body of `approveItem`; `disk` says whether loading and saving the lockfile threw. -/
def grant (op : Nat) (key : Key) (generation : Nat) (disk : Outcome) : Outcome × Workspace :=
  if generation = s.manifestGeneration && s.knows generation key then
    match disk with
    | .ok () => (.ok (), s.record (.granted op))
    | .error message => (.error message, s)
  else (.error (unknownItem key), s)

/-- The job that calls a body; `disk` is how the file system answers a body that never awaits. -/
def runOperation (cfg : QueueConfig) (op : Nat) (disk : Outcome) : Workspace :=
  let s := s.record (.started op)
  match s.bodies[op]? with
  | some (.runSync _ _) => s.startRun cfg op
  | some (.approve _ key generation) =>
    let (outcome, s) := s.grant op key generation disk
    (s.record (.ended op)).settleOperation op outcome
  | some (.delete _) => (s.record (.ended op)).settleOperation op disk
  | none => s

def adopt (op : Nat) : Workspace :=
  match s.runs op with
  | some run =>
    let s := s.setRun op { run with adopted := true }
    match run.outcome with
    | some outcome => s.enqueue [.resolve op outcome]
    | none => s
  | none => s

/-- `operationTail` settles and the next body, if one is waiting, is due. -/
def advance : Workspace :=
  let s := { s with pendingOperations := s.pendingOperations - 1, advanced := s.advanced + 1 }
  if s.advanced < s.bodies.length then s.enqueue [.operation s.advanced] else s

/-- An iteration of `loop()` up to its `await`. -/
def iterate (loop : Nat) (result : Option Nat) : Workspace :=
  let generation := s.manifestGeneration
  let s := { s with
    syncRequested := false
    loops := update s.loops loop (some ⟨s.bodies.length, generation, result, .awaiting⟩) }
  s.serialize (.runSync loop generation)

def setPhase (loop : Nat) (phase : LoopPhase) : Workspace :=
  match s.loops loop with
  | some l => { s with loops := update s.loops loop (some { l with phase }) }
  | none => s

def returnLoop (loop : Nat) (outcome : Except String (Option Nat)) : Workspace :=
  (s.setPhase loop (.returned outcome)).enqueue [.caught loop outcome]

/-- `loop()` after its `await`. -/
def resumeLoop (loop op : Nat) (outcome : Outcome) : Workspace :=
  match s.loops loop with
  | none => s
  | some l =>
    let current := decide (l.startedGeneration = s.manifestGeneration)
    let next (result : Option Nat) : Workspace :=
      if !current || s.syncRequested then s.iterate loop result
      else s.returnLoop loop (.ok result)
    match outcome with
    | .ok () => next (some op)
    -- A superseded URL's failure is swallowed, a current one ends the loop.
    | .error message =>
      if current && !s.syncRequested then s.returnLoop loop (.error message) else next l.result

/-- What `assertAcceptingOperations` throws. -/
def refusal : String := "Provisioning is shutting down."

/-- `syncNow` of a workspace that accepts operations: the loop whose promise the caller gets. -/
def syncNow : Nat × Workspace :=
  match s.inFlight with
  | some loop => (loop, s)
  | none =>
    let loop := s.nextLoop
    (loop, { { s with nextLoop := loop + 1 }.iterate loop none with inFlight := some loop })

def setCall (call : Nat) (value : Call) : Workspace :=
  { s with calls := update s.calls call (some value) }

def newCall (value : Call) : Workspace :=
  { s.setCall s.nextCall value with nextCall := s.nextCall + 1 }

/-- `approveItem` after `await serialize(...)`. -/
def resumeApprove (call op : Nat) : Outcome → Workspace
  | .error message => s.setCall call (.rejected message)
  | .ok () =>
    if s.shuttingDown then s.setCall call (.rejected refusal) else
    let (loop, s) := s.syncNow
    s.setCall call (.joined ⟨loop, some op, none, false⟩)

/-- The handler of `.catch` and, for a fulfilled loop, the job that passes it by. -/
def catchLoop (loop : Nat) (outcome : Except String (Option Nat)) : Workspace :=
  let s := match outcome with
    | .error message => { s with lastError := some message }
    | .ok _ => s
  s.enqueue [.cleared loop outcome]

/-- The handler of `.finally`. The promise itself settles some jobs later. -/
def clearLoop (loop : Nat) (outcome : Except String (Option Nat)) : Workspace :=
  ({ s with inFlight := none }).enqueue [.settle loop outcome]

/-- The promise `inFlight` held settles; an awaiting `handleAuthorizedSession` records a failure. -/
def settleLoop (loop : Nat) (outcome : Except String (Option Nat)) : Workspace :=
  let watched := (List.range s.nextCall).any fun call =>
    match s.calls call with
    | some (.joined join) => join.loop = loop && join.authorized
    | _ => false
  let s := s.setPhase loop (.settled outcome)
  match outcome with
  | .error message => if watched then { s with lastError := some message } else s
  | .ok _ => s

def runJob (cfg : QueueConfig) (disk : Outcome) : Job → Workspace
  | .operation op => s.runOperation cfg op disk
  | .adopt op => s.adopt op
  | .resolve op outcome => s.settleOperation op outcome
  | .advance _ => s.advance
  | .loop loop op outcome => s.resumeLoop loop op outcome
  | .approved call op outcome => s.resumeApprove call op outcome
  | .caught loop outcome => s.catchLoop loop outcome
  | .cleared loop outcome => s.clearLoop loop outcome
  | .settle loop outcome => s.settleLoop loop outcome

/-- The first microtask runs. -/
def tick (cfg : QueueConfig) (disk : Outcome) : Workspace :=
  match s.jobs with
  | [] => s
  | job :: jobs => (s.dequeue jobs).runJob cfg disk job

/-- `persisted` is how `saveRegisteredManifestUrl` ends, when the caller asks for it. -/
def registerManifestUrl (cfg : QueueConfig) (caller : Nat) (url : String)
    (persisted : Option Outcome) : Outcome × Workspace :=
  if s.shuttingDown then (.error refusal, s)
  else if !cfg.enabled then (.ok (), s)
  else if cfg.pinned.any (· ≠ url) then
    (.error ("Manifest URL is pinned by PROVISION_MANIFEST_URL and cannot be changed at "
      ++ "runtime."), s)
  else
    match cfg.checkUrlAllowed url, (if cfg.pinned.isSome then none else persisted) with
    | .error message, _ => (.error message, s)
    | .ok (), some (.error message) => (.error message, s)
    | .ok (), _ =>
      if s.manifestUrl ≠ some url then
        (.ok (), { s with
          manifestUrl := some url
          manifestGeneration := s.manifestGeneration + 1
          lastManifest := none
          lastManifestGeneration := none
          syncRequested := if s.inFlight.isSome then true else s.syncRequested
          registered := update s.registered caller (some (s.manifestGeneration + 1)) })
      else (.ok (), s)

/-- A caller of `syncNow`, which may have registered a URL before. -/
def callSync (caller : Nat) (authorized : Bool) : Workspace :=
  if s.shuttingDown then s.newCall (.rejected refusal) else
  let (loop, s) := s.syncNow
  s.newCall (.joined ⟨loop, none, s.registered caller, authorized⟩)

/-- `approveItem` up to `await serialize(...)`. -/
def approveItem (key : Key) (adopt : Bool) : Workspace :=
  let generation := s.manifestGeneration
  if s.shuttingDown then s.newCall (.rejected refusal)
  else if adopt && key.type ≠ "config" then
    s.newCall (.rejected "`adopt` is supported only for config items")
  else if !s.knows generation key then s.newCall (.rejected (unknownItem key))
  else
    let s := if s.inFlight.isSome then { s with syncRequested := true } else s
    let op := s.bodies.length
    (s.serialize (.approve s.nextCall key generation)).newCall (.approving op)

def deleteItem (key : Key) : Workspace :=
  if s.shuttingDown then s
  else if !isValidItemName key.type || !isValidItemName key.name then s
  else
    let s := if s.inFlight.isSome then { s with syncRequested := true } else s
    s.serialize (.delete key)

def handleAuthorizedSession (cfg : QueueConfig) (caller : Nat) (url : Option String)
    (persisted : Outcome) : Workspace :=
  match url with
  | none => s
  | some url =>
    if !cfg.enabled || url = "" then s else
    match s.registerManifestUrl cfg caller url (some persisted) with
    | (.error message, s) => { s with lastError := some message }
    | (.ok (), s) => s.callSync caller true

end Workspace

inductive QueueEvent where
  | tick (disk : Outcome)
  | fetched (op : Nat) (answer : Except String (List Key))
  | finished (op : Nat) (outcome : Outcome)
  | registerManifestUrl (caller : Nat) (url : String) (persisted : Option Outcome)
  | syncNow (caller : Nat)
  | approveItem (key : Key) (adopt : Bool)
  | deleteItem (key : Key)
  | handleAuthorizedSession (caller : Nat) (url : Option String) (persisted : Outcome)
  | shutdown

namespace Workspace

def step (cfg : QueueConfig) (s : Workspace) : QueueEvent → Workspace
  | .tick disk => s.tick cfg disk
  | .fetched op answer => s.fetched op answer
  | .finished op outcome => s.finished op outcome
  | .registerManifestUrl caller url persisted => (s.registerManifestUrl cfg caller url persisted).2
  | .syncNow caller => s.callSync caller false
  | .approveItem key adopt => s.approveItem key adopt
  | .deleteItem key => s.deleteItem key
  | .handleAuthorizedSession caller url persisted =>
    s.handleAuthorizedSession cfg caller url persisted
  | .shutdown => { s with shuttingDown := true }

def queue (cfg : QueueConfig) : Lib.Machine Workspace QueueEvent := ⟨.fresh, step cfg⟩

end Workspace

end CliProxy.Provision
