import CliProxy.Lib.Machine
import CliProxy.Lib.Text

/-! # The mapping of users to OS accounts

`src/isolation/linux-user-provisioner.ts`. A call of `ensureWorker` runs from one await to the
next; every settlement of what it awaits is one event, and so are a new call and a crash of the
process, which keeps the state file only. The state file changes with the `rename` of
`writeState`. -/

namespace CliProxy.Isolation

open Function (update)

structure UserIdentity where
  tenantId : String
  userId : String
  deriving DecidableEq, Repr

inductive UserStatus where
  | creating | ready
  deriving DecidableEq, Repr

structure UserRecord where
  accountName : String
  uid : Option Int
  gid : Option Int
  home : String
  createdAt : String
  status : Option UserStatus
  deriving DecidableEq, Repr

structure WorkerTarget where
  accountName : String
  uid : Option Int
  gid : Option Int
  home : String
  /-- The address of the `unix` endpoint. -/
  address : String
  deriving DecidableEq, Repr

abbrev Fingerprint := String

/-- `MappingState`, whose `version` is checked when it is read. -/
abbrev Users := AList fun _ : Fingerprint => UserRecord

/-- What is at the path of the state file. -/
inductive StateFile where
  | missing
  /-- No JSON, or not a version 1 mapping. -/
  | unsupported
  | users (users : Users)

def StateFile.all : StateFile → Users
  | users all => all
  | _ => ∅

structure LinuxProvisionerConfig where
  /-- The hex digest of the HMAC with `identitySecret`. -/
  hmac : String → String
  /-- `path.join(usersDir, accountName)`. -/
  home : String → String
  /-- The socket of an account below `workerSocketDir`. -/
  socket : String → String
  maxUsers : Nat

/-! ## Checks -/

/-- `STABLE_ID_RE`. -/
def isStableId (id : String) : Bool :=
  match id.toList with
  | [] => false
  | c :: cs => c.isAlphanum && cs.length ≤ 199
    && cs.all fun c => c.isAlphanum || ['.', '_', ':', '@', '/', '-'].contains c

/-- `assertIdentity`. -/
def validIdentity (identity : UserIdentity) : Bool :=
  isStableId identity.tenantId && isStableId identity.userId

def isHexDigit (c : Char) : Bool := c.isDigit || ('a' ≤ c && c ≤ 'f')

/-- `ACCOUNT_RE`. -/
def isAccountName (name : String) : Bool :=
  match name.toList with
  | 'c' :: 'a' :: 'p' :: '_' :: digits => digits.length = 20 && digits.all isHexDigit
  | _ => false

/-- The number that `id` printed. -/
def numericOutput (stdout : String) : Option Int :=
  match Lib.trim stdout.toList with
  | [] => none
  | digits =>
    if digits.all Char.isDigit then
      some (Int.ofNat (digits.foldl (fun n c => 10 * n + (c.toNat - '0'.toNat)) 0))
    else none

def MAX_SAFE_INTEGER : Int := 9007199254740991

/-- `Number.isSafeInteger(id) && id >= 1`. -/
def isSafeId : Option Int → Bool
  | some id => 1 ≤ id && id ≤ MAX_SAFE_INTEGER
  | none => false

namespace LinuxProvisionerConfig

variable (cfg : LinuxProvisionerConfig)

/-- What is signed for an identity. -/
def message (identity : UserIdentity) : String :=
  "v1\x00" ++ identity.tenantId ++ "\x00" ++ identity.userId

def fingerprint (identity : UserIdentity) : Fingerprint := cfg.hmac (message identity)

def accountName (fingerprint : Fingerprint) : String :=
  String.ofList ("cap_".toList ++ fingerprint.toList.take 20)

/-- `assertPendingRecord`. -/
def pendingRecord (record : UserRecord) : Bool :=
  isAccountName record.accountName && record.home == cfg.home record.accountName

/-- `assertRecord`. -/
def readyRecord (record : UserRecord) : Bool :=
  isAccountName record.accountName && isSafeId record.uid && isSafeId record.gid
    && record.home == cfg.home record.accountName

end LinuxProvisionerConfig

/-- `ensureLocked` creates the account of the record. -/
def UserRecord.isPending (record : UserRecord) : Bool :=
  record.status = some .creating || record.uid.isNone || record.gid.isNone

def invalidPending : String := "Provisioner state contains an invalid pending user record"
def invalidRecord : String := "Provisioner state contains an invalid user record"
def unsupportedFormat : String := "Provisioner state has an unsupported format"
def changedState : String := "Provisioner state changed while creating an OS account"

def userLimit (maxUsers : Nat) : String := s!"Provisioner user limit ({maxUsers}) reached"

def unresolved (flag accountName : String) : String :=
  s!"Unable to resolve {flag} for {accountName}"

def mismatched (accountName : String) : String :=
  s!"OS account {accountName} no longer matches its provisioned UID/GID"

/-! ## Calls in flight -/

/-- The awaits of `writeState`. -/
inductive WriteStep where
  | mkdir | writeFile | chmod | rename
  deriving DecidableEq, Repr

/-- What the operation that holds the state lock awaits. -/
inductive StoreStep where
  /-- The `then` that starts it. -/
  | begin
  | read
  /-- `mkdir(usersDir)` of `reserveRecord`. -/
  | mkdirUsers (users : Users)
  | write (step : WriteStep) (users : Users) (record : UserRecord)

/-- What `ensureLocked` awaits. -/
inductive Phase where
  /-- `withStateLock(reserveRecord)`. -/
  | reserving
  /-- `optionalNumericId("-u")`. -/
  | lookingUp (record : UserRecord)
  | useradd (record : UserRecord)
  | readingUid (record : UserRecord)
  | readingGid (record : UserRecord)
  | securingNew (record : UserRecord)
  /-- `withStateLock(persistReadyRecord)`. -/
  | persisting (record : UserRecord)
  | checkingUid (record : UserRecord)
  | checkingGid (record : UserRecord) (actualUid : Int)
  | securing (record : UserRecord)
  | systemctl (record : UserRecord)
  /-- Settled; the `finally` that unlocks has not run yet. -/
  | settled (result : Except String WorkerTarget)

/-- One operation of `locks`, with the identities it was called for. -/
structure Operation where
  phase : Phase
  callers : List UserIdentity

structure Provisioner where
  file : StateFile
  locks : Fingerprint → Option Operation
  /-- The operations of `stateQueue`, the running one first. -/
  stateQueue : List Fingerprint
  /-- What the running one awaits. -/
  store : StoreStep
  /-- Every target that a call returned, with the identity of the call. -/
  returned : List (UserIdentity × WorkerTarget)

/-- How an await settles: with the output of a command, or with an exception. -/
inductive Outcome where
  | done (stdout : String)
  | fails (message : String)

namespace Provisioner

def start (file : StateFile) : Provisioner := ⟨file, fun _ => none, [], .begin, []⟩

variable (cfg : LinuxProvisionerConfig) (s : Provisioner) (fp : Fingerprint)

def setPhase (phase : Phase) : Provisioner :=
  { s with locks := update s.locks fp ((s.locks fp).map fun operation => { operation with phase }) }

/-- `withStateLock`, for the operation that the phase describes. -/
def enqueue : Provisioner := { s with
  stateQueue := s.stateQueue ++ [fp]
  store := if s.stateQueue = [] then .begin else s.store }

/-- The running operation of `stateQueue` has settled. -/
def dequeue : Provisioner := { s with stateQueue := s.stateQueue.tail, store := .begin }

/-- The operation settles with this result for all its callers. -/
def settle (result : Except String WorkerTarget) : Provisioner :=
  let s := match result, s.locks fp with
    | .ok target, some operation =>
      { s with returned := s.returned ++ operation.callers.map fun identity => (identity, target) }
    | _, _ => s
  s.setPhase fp (.settled result)

def ensureWorker (identity : UserIdentity) : Provisioner :=
  if !validIdentity identity then s
  else
    let fp := cfg.fingerprint identity
    match s.locks fp with
    | some ⟨.settled (.ok target), callers⟩ => { s with
      locks := update s.locks fp (some ⟨.settled (.ok target), callers ++ [identity]⟩)
      returned := s.returned ++ [(identity, target)] }
    | some ⟨phase, callers⟩ =>
      { s with locks := update s.locks fp (some ⟨phase, callers ++ [identity]⟩) }
    | none => { s with locks := update s.locks fp (some ⟨.reserving, [identity]⟩) }.enqueue fp

/-- `this.locks.delete(fingerprint)`. -/
def unlock : Provisioner := { s with locks := update s.locks fp none }

/-- `ensureLocked` once it has its record. -/
def reserved (record : UserRecord) : Provisioner :=
  if record.isPending then
    if !cfg.pendingRecord record then s.settle fp (.error invalidPending)
    else s.setPhase fp (.lookingUp record)
  else if !cfg.readyRecord record then s.settle fp (.error invalidRecord)
  else s.setPhase fp (.checkingUid record)

/-- `ensureLocked` before it starts the worker. -/
def starting (record : UserRecord) : Provisioner :=
  if !cfg.readyRecord record then s.settle fp (.error invalidRecord)
  else s.setPhase fp (.systemctl record)

/-- `reserveRecord` after `readState`. -/
def reserveRecord (users : Users) : Provisioner :=
  match users.lookup fp with
  | some record => s.dequeue.reserved cfg fp record
  | none =>
    if cfg.maxUsers ≤ users.keys.length then
      s.dequeue.settle fp (.error (userLimit cfg.maxUsers))
    else if !isAccountName (LinuxProvisionerConfig.accountName fp) then
      s.dequeue.settle fp (.error "Generated account name is invalid")
    else { s with store := .mkdirUsers users }

def newRecord (now : String) : UserRecord where
  accountName := LinuxProvisionerConfig.accountName fp
  uid := none
  gid := none
  home := cfg.home (LinuxProvisionerConfig.accountName fp)
  createdAt := now
  status := some .creating

/-- `persistReadyRecord` up to `readState`. -/
def beginStore (phase : Phase) : Provisioner :=
  match phase with
  | .persisting record =>
    if !cfg.readyRecord record then s.dequeue.settle fp (.error invalidRecord)
    else { s with store := .read }
  | _ => { s with store := .read }

/-- `persistReadyRecord` after `readState`. -/
def persistReadyRecord (record : UserRecord) (users : Users) : Provisioner :=
  match users.lookup fp with
  | none => s.dequeue.settle fp (.error changedState)
  | some reserved =>
    if reserved.accountName ≠ record.accountName ∨ reserved.home ≠ record.home
        ∨ reserved.createdAt ≠ record.createdAt then s.dequeue.settle fp (.error changedState)
    else if !cfg.pendingRecord reserved then s.dequeue.settle fp (.error invalidPending)
    else { s with store := .write .mkdir (users.insert fp record) record }

/-- `readState` returned. -/
def withState (phase : Phase) (users : Users) : Provisioner :=
  match phase with
  | .reserving => s.reserveRecord cfg fp users
  | .persisting record => s.persistReadyRecord cfg fp record users
  | _ => s

/-- The state is saved. -/
def saved (phase : Phase) (record : UserRecord) : Provisioner :=
  match phase with
  | .reserving => s.dequeue.reserved cfg fp record
  | .persisting record => s.dequeue.starting cfg fp record
  | _ => s

/-- What the operation that holds the state lock awaits has settled. -/
def settleStore (phase : Phase) (outcome : Outcome) (now : String) : Provisioner :=
  match s.store, outcome with
  | .begin, _ => s.beginStore cfg fp phase
  | _, .fails message => s.dequeue.settle fp (.error message)
  | .read, .done _ =>
    match s.file with
    | .missing => s.withState cfg fp phase ∅
    | .unsupported => s.dequeue.settle fp (.error unsupportedFormat)
    | .users users => s.withState cfg fp phase users
  | .mkdirUsers users, .done _ =>
    let record := newRecord cfg fp now
    { s with store := .write .mkdir (users.insert fp record) record }
  | .write .mkdir users record, .done _ => { s with store := .write .writeFile users record }
  | .write .writeFile users record, .done _ => { s with store := .write .chmod users record }
  | .write .chmod users record, .done _ => { s with store := .write .rename users record }
  | .write .rename users record, .done _ =>
    { s with file := .users users }.saved cfg fp phase record

def targetOf (record : UserRecord) : WorkerTarget where
  accountName := record.accountName
  uid := record.uid
  gid := record.gid
  home := record.home
  address := cfg.socket record.accountName

/-- `numericId`. -/
def numericId (flag accountName : String) : Outcome → Except String Int
  | .fails message => .error message
  | .done stdout =>
    match numericOutput stdout with
    | some id => .ok id
    | none => .error (unresolved flag accountName)

/-- What `ensureLocked` awaits has settled. -/
def settlePhase (phase : Phase) (outcome : Outcome) (now : String) : Provisioner :=
  match phase with
  | .reserving | .persisting _ =>
    if s.stateQueue.head? = some fp then s.settleStore cfg fp phase outcome now else s
  | .lookingUp record =>
    match numericId "-u" record.accountName outcome with
    | .ok _ => s.setPhase fp (.readingUid record)
    | .error _ => s.setPhase fp (.useradd record)
  | .useradd record =>
    match outcome with
    | .done _ => s.setPhase fp (.readingUid record)
    | .fails message => s.settle fp (.error message)
  | .readingUid record =>
    match numericId "-u" record.accountName outcome with
    | .ok uid => s.setPhase fp (.readingGid { record with uid := some uid })
    | .error message => s.settle fp (.error message)
  | .readingGid record =>
    match numericId "-g" record.accountName outcome with
    | .ok gid => s.setPhase fp (.securingNew { record with gid := some gid })
    | .error message => s.settle fp (.error message)
  | .securingNew record =>
    match outcome with
    | .done _ => (s.setPhase fp (.persisting { record with status := some .ready })).enqueue fp
    | .fails message => s.settle fp (.error message)
  | .checkingUid record =>
    match numericId "-u" record.accountName outcome with
    | .ok uid => s.setPhase fp (.checkingGid record uid)
    | .error message => s.settle fp (.error message)
  | .checkingGid record actualUid =>
    match numericId "-g" record.accountName outcome with
    | .ok actualGid =>
      if some actualUid ≠ record.uid ∨ some actualGid ≠ record.gid then
        s.settle fp (.error (mismatched record.accountName))
      else s.setPhase fp (.securing record)
    | .error message => s.settle fp (.error message)
  | .securing record =>
    match outcome with
    | .done _ => s.starting cfg fp record
    | .fails message => s.settle fp (.error message)
  | .systemctl record =>
    match outcome with
    | .done _ => s.settle fp (.ok (targetOf cfg record))
    | .fails message => s.settle fp (.error message)
  | .settled _ => s.unlock fp

/-- The process dies and a new one starts. -/
def restart : Provisioner :=
  { s with locks := fun _ => none, stateQueue := [], store := .begin }

end Provisioner

inductive Event where
  | ensureWorker (identity : UserIdentity)
  /-- What the operation awaits settles; `now` is the clock at that time. -/
  | settle (fingerprint : Fingerprint) (outcome : Outcome) (now : String)
  | crash

namespace Provisioner

def step (cfg : LinuxProvisionerConfig) (s : Provisioner) : Event → Provisioner
  | .ensureWorker identity => s.ensureWorker cfg identity
  | .settle fp outcome now =>
    match s.locks fp with
    | some operation => s.settlePhase cfg fp operation.phase outcome now
    | none => s
  | .crash => s.restart

def machine (cfg : LinuxProvisionerConfig) (file : StateFile) : Lib.Machine Provisioner Event :=
  ⟨start file, step cfg⟩

end Provisioner

end CliProxy.Isolation
