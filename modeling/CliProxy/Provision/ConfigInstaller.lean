import CliProxy.Provision.ConfigDir

/-! # Installing a config item and resolving its journal

`installConfig` of `src/provision/config-installer.ts` as `runSync` calls it, and the functions of
`src/provision/sync.ts` that resolve the journal of an interrupted run. -/

namespace CliProxy.ConfigInstaller

open Lib Lib.Prog Sys Provision

def MAX_CONFIG_FILE_BYTES := 1024 * 1024
def MAX_CONFIG_TOTAL_BYTES := 10 * 1024 * 1024
def CANDIDATE_PREFIX := ".provision-config-candidate-"

/-- What `randomBytes(16).toString("hex")` returns. -/
abbrev RandomId := { id : String // isRecoveryId id = true }

def candidateName (id : RandomId) : String := CANDIDATE_PREFIX ++ id.val

/-- `CONFIG_CANDIDATE_PATTERN`. -/
def isCandidateName (name : String) : Bool :=
  CANDIDATE_PREFIX.toList.isPrefixOf name.toList &&
    isRecoveryId (String.ofList (name.toList.drop CANDIDATE_PREFIX.toList.length))

structure ConfigItem where
  name : String
  sha256 : String

structure ConfigInstallResult where
  files : List RelPath
  fileHashes : List (RelPath × Hash)
  deriving DecidableEq, Repr

/-- What the run gets from outside: the artifact, random names, and the identity of an item
directory that it makes. -/
structure Supply where
  download : Except Error Bytes
  bounded : Except Error Unit
  /-- `assertArchiveSafe`: whether there is a wrapper directory, and its name. -/
  archiveSafe : Except Error (Option String)
  /-- What `tar` extracts, or none when the archive does not extract. -/
  extracted : Option (List (String × ConfigEntry))
  draws : List RandomId
  directory : DirectoryIdentity

def untracked (message : String) : Error := .provision message "untracked_content"

/-! ## Staging -/

section Audit

variable (host : Host)

def auditConfigTree (entries : List (String × ConfigEntry)) :
    Except Error (ConfigInstallResult × Bytes) :=
  match entries with
  | [("config.json", entry)] =>
    match entry with
    | .directory =>
      .error (.provision "Config archive contains a directory: config.json" "archive_rejected")
    | .other => .error
        (.provision "Config archive entry is not a regular file: config.json" "archive_rejected")
    | .file file =>
      if MAX_CONFIG_FILE_BYTES < file.bytes.length then .error (.provision
        s!"Config file exceeds {MAX_CONFIG_FILE_BYTES} bytes: config.json" "audit_failed")
      else if MAX_CONFIG_TOTAL_BYTES < file.bytes.length then .error
        (.provision s!"Config contents exceed {MAX_CONFIG_TOTAL_BYTES} bytes" "audit_failed")
      else if file.bytes.contains 0 then
        .error (.provision "Binary config file refused: config.json" "audit_failed")
      else .ok (⟨[configJson], [(configJson, host.sha256 file.bytes)]⟩, file.bytes)
  | _ => .error (.provision
      "Config archive must contain exactly one flat file named \"config.json\"" "archive_rejected")

/-- `mkdtempSync(path.join(opts.configDir, ".provision-config-"))`. -/
def mkdtemp : Sys Unit := do
  call .mkdtemp
  setDisk fun disk => { disk with staging := some ⟨none, none⟩ }

def writeArchive (archive : Bytes) : Sys Unit := do
  let t ← turn .writeArchive
  match t.fault with
  | none => setStaging fun staging => { staging with archive := some archive }
  | some fault => do
    setStaging fun staging => { staging with archive := some (archive.take t.done) }
    faulty (some fault)

def extract (extracted : Option (List (String × ConfigEntry))) : Sys Unit :=
  tryCatch (do
    let t ← turn .extract
    match t.fault, extracted with
    | none, some entries => setStaging fun staging => { staging with extracted := some entries }
    | fault, _ => do
      setStaging fun staging => { staging with extracted := some ((extracted.getD []).take t.done) }
      faulty fault
      throw (.errno "1"))
    fun _ => throw (.provision "Config artifact extraction failed" "archive_rejected")

/-- Downloads into the staging directory, extracts there and audits the result. -/
def stage (item : ConfigItem) (supply : Supply) (archive : Bytes) :
    Sys (ConfigInstallResult × Bytes) := do
  call .chmodStaging
  writeArchive archive
  call .listArchive
  let wrapper ← ofExcept supply.archiveSafe
  throwIf (wrapper.any fun topLevel => topLevel != item.name) (.provision
    s!"Config archive wrapper must match item name \"{item.name}\"" "archive_rejected")
  call .mkdirExtracted
  setStaging fun staging => { staging with extracted := some [] }
  extract supply.extracted
  call .unlinkArchive
  setStaging fun staging => { staging with archive := none }
  call .auditExtracted
  let result ← ofExcept (auditConfigTree host (supply.extracted.getD []))
  call .chmodExtracted
  pure result

end Audit

/-! ## The item directory -/

def prepareTargetDirectory (name : String) (directory : DirectoryIdentity) : Sys Unit := do
  call .lstatTarget
  let w ← get
  match w.disk.item with
  | some (.dir _) => pure ()
  | some .other => throw (untracked s!"Refusing config \"{name}\": its target is not a directory")
  | none => do
    call .mkdirTarget
    setDisk fun disk => { disk with item := some (.dir (.empty directory)) }

def notStable (name : String) : Error :=
  untracked s!"Refusing config \"{name}\": its target is not a stable directory"

def openTargetDirectory (name : String) : Sys DirectoryIdentity := do
  tryCatch (call .openTarget) fun _ => throw (notStable name)
  let w ← get
  match w.disk.dir? with
  | some dir => pure dir.identity
  | none => throw (notStable name)

def assertTargetIdentity (targetFd : DirectoryIdentity) (name : String) : Sys Unit := do
  let changed := untracked s!"Refusing config \"{name}\": its target changed during installation"
  tryCatch (call .checkTarget) fun _ => throw changed
  let w ← get
  throwIf (w.disk.dir?.map ItemDir.identity != some targetFd) changed

/-- One attempt to create a candidate; it fails with `EEXIST` where the name is taken. -/
def createCandidate (targetFd : DirectoryIdentity) (name : String) (id : RandomId) :
    Sys ConfigCandidateJournal := do
  call .openCandidate
  let w ← get
  match w.disk.dir? with
  | none => throw (.errno "ENOENT")
  | some dir => do
    throwIf (dir.entries [candidateName id]).isSome (.errno "EEXIST")
    setDir fun dir => dir.create [candidateName id]
    assertTargetIdentity targetFd name
    call .statCandidate
    pure ⟨targetFd, ⟨⟨targetFd.dev, dir.nextIno⟩, candidateName id⟩⟩

def reserveAttempts (targetFd : DirectoryIdentity) (name : String) :
    List RandomId → Sys ConfigCandidateJournal
  | [] => throw (untracked "Could not reserve a config publication candidate")
  | id :: draws => tryCatch (createCandidate targetFd name id) fun err =>
    if err.code = "EEXIST" then reserveAttempts targetFd name draws else throw err

def reserveCandidate (targetFd : DirectoryIdentity) (name : String) (draws : List RandomId) :
    Sys ConfigCandidateJournal := do
  call .statTarget
  let journal ← reserveAttempts targetFd name (draws.take 4)
  setOwned (some journal)
  pure journal

/-- `ftruncateSync` and `fsyncSync` of the candidate; their failure is not reported. -/
def discardOpenCandidate (journal : ConfigCandidateJournal) : Sys Unit :=
  tryCatch (do
    call .truncateCandidate
    setDir fun dir => dir.change [journal.candidate.name] id fun _ => []
    call .syncCandidate) fun _ => pure ()

def writeCandidate (journal : ConfigCandidateJournal) (contents : Bytes) : Sys Unit := do
  let t ← turn .writeCandidate
  match t.fault with
  | none => setDir fun dir => dir.change [journal.candidate.name] id fun _ => contents
  | some fault => do
    setDir fun dir => dir.change [journal.candidate.name] id fun _ => contents.take t.done
    faulty (some fault)

/-- `secureFileDescriptor`. -/
def secureCandidate (journal : ConfigCandidateJournal) : Sys Unit := do
  call .secureCandidate
  setDir fun dir => dir.change [journal.candidate.name] (fun _ => FILE_MODE) id
  call .syncCandidate

/-- `secureDirectoryDescriptor`. -/
def secureTarget : Sys Unit := do
  call .chmodTarget
  setDir fun dir => dir.setMode DIRECTORY_MODE
  setStage (.reserved true)
  call .syncTarget

/-! ## The journal -/

/-- The new snapshot that `runSync` records. -/
def candidateSnapshot (fingerprint installedAt : String) (result : ConfigInstallResult) :
    InstalledSnapshot :=
  ⟨fingerprint, none, result.files, some [], some result.fileHashes, installedAt⟩

/-- The journaled record: a first install, or the stable snapshot with the pending one. -/
def journaledRecord (previous : Option InstalledSnapshot) (candidate : InstalledSnapshot)
    (journal : ConfigCandidateJournal) : InstalledRecord :=
  match previous with
  | some stable =>
    { InstalledRecord.ofSnapshot stable with
      pending := some candidate
      candidateIdentity := some journal.targetIdentity
      configCandidate := some journal.candidate }
  | none =>
    { InstalledRecord.ofSnapshot candidate with
      uncommitted := true
      candidateIdentity := some journal.targetIdentity
      configCandidate := some journal.candidate }

structure ConfigOpts where
  adopt : Bool
  fingerprint : String
  installedAt : String
  /-- The stable record of the item, or none before its first install. -/
  previous : Option InstalledSnapshot
  /-- `assertCurrentGeneration`. -/
  beforeMutation : Except Error Unit

def ConfigOpts.managedFiles (opts : ConfigOpts) : List RelPath :=
  match opts.previous with
  | some stable => stable.files.eraseDups
  | none => []

/-- `beforeCommit`; a record that cannot be saved is taken back. -/
def beforeCommit (opts : ConfigOpts) (result : ConfigInstallResult)
    (journal : ConfigCandidateJournal) : Sys Unit := do
  call .saveState
  let record := journaledRecord opts.previous
    (candidateSnapshot opts.fingerprint opts.installedAt result) journal
  modify fun w => { w with record := some record, stage := .reserved false }

/-! ## Publication -/

def collides (name : String) : Error :=
  untracked s!"Refusing to replace untracked file \"config.json\" in config \"{name}\""

/-- Reserves the candidate, journals it, fills and secures it. -/
def prepareCandidate (item : ConfigItem) (opts : ConfigOpts) (supply : Supply)
    (targetFd : DirectoryIdentity) (result : ConfigInstallResult) (contents : Bytes) :
    Sys ConfigCandidateJournal := do
  let journal ← reserveCandidate targetFd item.name supply.draws
  beforeCommit opts result journal
  assertTargetIdentity targetFd item.name
  writeCandidate journal contents
  secureCandidate journal
  assertTargetIdentity targetFd item.name
  pure journal

def publish (journal : ConfigCandidateJournal) : Sys Unit := do
  setDir fun dir => dir.rename [journal.candidate.name] configJson
  setStage (.published [])
  setOwned none

/-- `renameAtNoReplace`. -/
def renameNoReplace (journal : ConfigCandidateJournal) : Sys Bool := do
  call .renameCandidate
  let w ← get
  match w.disk.dir? with
  | none => throw (.errno "ENOENT")
  | some dir =>
    if (dir.entries configJson).isSome then pure false
    else do
      publish journal
      pure true

/-- `renameAtReplace`. -/
def renameReplace (journal : ConfigCandidateJournal) : Sys Unit := do
  call .renameCandidate
  let w ← get
  match w.disk.dir? with
  | none => throw (.errno "ENOENT")
  | some dir => do
    throwIf (dir.isDirectory configJson) (.errno "EISDIR")
    publish journal

def restoreMode (mode : Nat) : Sys Unit := do
  call .chmodTarget
  setDir fun dir => dir.setMode mode
  setStage (.reserved false)
  call .syncTarget

/-- The branch for a `config.json` that nobody owns. -/
def publishNew (item : ConfigItem) (opts : ConfigOpts) (supply : Supply)
    (targetFd : DirectoryIdentity) (result : ConfigInstallResult) (contents : Bytes) :
    Sys Unit := do
  call .lstatConfig
  let w ← get
  match w.disk.dir? with
  | none => throw (.errno "ENOENT")
  | some dir => do
    throwIf (dir.entries configJson).isSome (collides item.name)
    let journal ← prepareCandidate item opts supply targetFd result contents
    call .statTarget
    secureTarget
    let renamed ← renameNoReplace journal
    if renamed then call .syncTarget
    else do
      restoreMode dir.mode
      throw (collides item.name)

def removeStaleFile (name : String) (stale : RelPath) : Sys Unit := do
  throwIf (stale.length != 1 || (managedPathParts stale).isNone)
    (.provision s!"Config \"{name}\" records an unusable path" "invalid_item")
  call .removeStale
  let w ← get
  throwIf (w.disk.dir?.any fun dir => dir.isDirectory stale) (.errno "EISDIR")
  setDir fun dir => dir.remove stale
  modify fun w =>
    match w.stage with
    | .published removed => { w with stage := .published (removed ++ [stale]) }
    | _ => w

/-- A stale file that is already gone is no error. -/
def removeStale (name : String) (stale : RelPath) : Sys Unit :=
  if stale = configJson then pure ()
  else tryCatch (removeStaleFile name stale) fun err =>
    if err.code = "ENOENT" then pure () else throw err

def removeStales (name : String) : List RelPath → Sys Unit
  | [] => pure ()
  | stale :: managed => do
    removeStale name stale
    removeStales name managed

/-- The branch for an owned or adopted `config.json`. -/
def publishOwned (item : ConfigItem) (opts : ConfigOpts) (supply : Supply)
    (targetFd : DirectoryIdentity) (result : ConfigInstallResult) (contents : Bytes) :
    Sys Unit := do
  let journal ← prepareCandidate item opts supply targetFd result contents
  secureTarget
  renameReplace journal
  call .syncTarget
  removeStales item.name opts.managedFiles

/-- The `finally` block around the publication. -/
def discardOwned : Sys Unit := do
  let w ← get
  match w.owned with
  | some journal => discardOpenCandidate journal
  | none => pure ()

def publishCandidate (item : ConfigItem) (opts : ConfigOpts) (supply : Supply)
    (targetFd : DirectoryIdentity) (result : ConfigInstallResult) (contents : Bytes) : Sys Unit :=
  tryFinally
    (if !opts.adopt && !opts.managedFiles.contains configJson then
      publishNew item opts supply targetFd result contents
    else publishOwned item opts supply targetFd result contents)
    discardOwned

def rmStaging : Sys Unit := do
  call .rmStaging
  setDisk fun disk => { disk with staging := none }

section Install

variable (host : Host)

/-- The body of the `try` block that the staging directory lives for. -/
def installStaged (item : ConfigItem) (opts : ConfigOpts) (supply : Supply) (archive : Bytes) :
    Sys ConfigInstallResult := do
  let (result, contents) ← stage host item supply archive
  prepareTargetDirectory item.name supply.directory
  let targetFd ← openTargetDirectory item.name
  publishCandidate item opts supply targetFd result contents
  pure result

def installConfig (item : ConfigItem) (opts : ConfigOpts) (supply : Supply) :
    Sys ConfigInstallResult := do
  throwIf (!isValidItemName item.name)
    (.provision s!"Invalid config name \"{item.name}\"" "invalid_item")
  call .download
  let archive ← ofExcept supply.download
  throwIf (host.sha256 archive != lowerCase item.sha256)
    (.provision s!"sha256 mismatch for config \"{item.name}\"" "sha256_mismatch")
  ofExcept supply.bounded
  ofExcept opts.beforeMutation
  call .mkdirConfigDir
  mkdtemp
  tryFinally (installStaged host item opts supply archive) rmStaging

/-! ## Resolving a journal -/

def configSnapshotIntact (dir : ItemDir) (snapshot : InstalledSnapshot) : Bool :=
  snapshotIntact host.sha256 dir.isDirectory dir.read snapshot && dir.mode == DIRECTORY_MODE
    && snapshot.files.all fun relative => (dir.file? relative).map ConfigFile.mode == some FILE_MODE

/-- The snapshot is intact, and none of the other files is there that it does not have. -/
def snapshotComplete (dir : ItemDir) (snapshot : InstalledSnapshot) (others : List RelPath) :
    Bool :=
  configSnapshotIntact host dir snapshot
    && (others.filter fun file => !snapshot.files.contains file).all fun file =>
      (dir.entries file).isNone

def configSnapshotComplete (disk : Disk) (snapshot other : InstalledSnapshot) : Bool :=
  match disk.dir? with
  | none => false
  | some dir => snapshotComplete host dir snapshot other.files

def publishedConfigCandidateIntact (disk : Disk) (snapshot : InstalledSnapshot)
    (record : InstalledRecord) : Bool :=
  match record.candidateIdentity, record.configCandidate, snapshot.files,
    (snapshot.fileHashes.getD []).lookup configJson with
  | some target, some candidate, [["config.json"]], some hash =>
    match disk.dir? with
    | none => false
    | some dir =>
      dir.identity == target && dir.mode == DIRECTORY_MODE &&
        match dir.file? configJson with
        | none => false
        | some file =>
          dir.identity.dev == candidate.dev && file.ino == candidate.ino
            && file.mode == FILE_MODE && host.sha256 file.bytes == hash
  | _, _, _, _ => false

/-- `discardConfigCandidate`: the disk with the journaled inode erased, or none where it is not
the one found. -/
def discardConfigCandidate (disk : Disk) (target : Option DirectoryIdentity)
    (candidate : Option InstalledFileIdentity) : Option Disk :=
  match target, candidate, disk.dir? with
  | some target, some candidate, some dir =>
    if isCandidateName candidate.name && dir.identity == target
        && dir.identity.dev == candidate.dev
        && (dir.file? [candidate.name]).map ConfigFile.ino == some candidate.ino then
      some (disk.mapDir fun dir => dir.change [candidate.name] id fun _ => [])
    else none
  | _, _, _ => none

def discardRecordedConfigCandidate (disk : Disk) (record : InstalledRecord) : Option Disk :=
  if record.candidateIdentity.isNone && record.configCandidate.isNone then some disk
  else discardConfigCandidate disk record.candidateIdentity record.configCandidate

def configTargetIdentityMatches (disk : Disk) (record : InstalledRecord) : Bool :=
  match record.candidateIdentity with
  | none => false
  | some target => disk.dir?.map ItemDir.identity == some target

/-- `reconcileConfigUpgradeJournal`; publication needs no cleanup outside Windows. -/
def reconcileConfigUpgradeJournal (disk : Disk) (record : InstalledRecord) :
    InstalledRecord × Disk :=
  match record.pending with
  | none => (record, disk)
  | some pending =>
    if configSnapshotComplete host disk pending record.toInstalledSnapshot
        && publishedConfigCandidateIntact host disk pending record then (.ofSnapshot pending, disk)
    else if configSnapshotComplete host disk record.toInstalledSnapshot pending
        && configTargetIdentityMatches disk record then
      match discardRecordedConfigCandidate disk record with
      | some disk' => (.ofSnapshot (stableSnapshot record), disk')
      | none => (record, disk)
    else (record, disk)

/-- The config branch of `reconcileFirstInstallJournals`. -/
def reconcileFirstInstallJournal (disk : Disk) (record : InstalledRecord) :
    Option InstalledRecord × Disk :=
  if !record.uncommitted then (some record, disk)
  else if publishedConfigCandidateIntact host disk record.toInstalledSnapshot record then
    (some { record with
      uncommitted := false, candidateIdentity := none, configCandidate := none }, disk)
  else
    match discardRecordedConfigCandidate disk record with
    | some disk' => (none, disk')
    | none => (some record, disk)

/-- The record and the disk after the next reconciliation of the item's journals. -/
def reconcile (disk : Disk) : Option InstalledRecord → Option InstalledRecord × Disk
  | none => (none, disk)
  | some record =>
    match reconcileFirstInstallJournal host disk record with
    | (none, disk') => (none, disk')
    | (some record', disk') =>
      let (record'', disk'') := reconcileConfigUpgradeJournal host disk' record'
      (some record'', disk'')

/-- `configRecordForRemoval`, which `deleteItem` needs before it removes anything. -/
def configRecordForRemoval (name : String) (disk : Disk) (record : InstalledRecord) :
    Except Error InstalledRecord :=
  let reconciled := (reconcileConfigUpgradeJournal host disk record).1
  if reconciled.uncommitted || reconciled.pending.isSome then .error (untracked
    s!"Cannot remove \"{name}\" until its interrupted config journal is resolved")
  else .ok reconciled

end Install

end CliProxy.ConfigInstaller
