import CliProxy.Provision.SkillsDir

/-! # Installing and removing a skill

`installSkill`, `removeSkill` and what they call in `src/provision/installer.ts`. Getting the
source and extracting it are outside; they enter as the entries that `tar` puts into the
candidate. The test seams of the source are turns of the other process. -/

namespace CliProxy.Installer

open Lib Lib.Prog Sys Provision

def REMOVAL_RECOVERY_PREFIX := ".provision-removed-"
def UPGRADE_RECOVERY_PREFIX := ".provision-staging-"
def REJECTED_RECOVERY_PREFIX := ".provision-rejected-"
def CANDIDATE_PREFIX := ".provision-candidate-"

def MAX_FILE_BYTES := 1024 * 1024
def MAX_TOTAL_BYTES := 10 * 1024 * 1024

structure InstallResult where
  files : List RelPath
  directories : List RelPath
  fileHashes : List (RelPath × Hash)
  deriving DecidableEq, Repr

def InstallResult.empty : InstallResult := ⟨[], [], []⟩

/-! ## Reading trees -/

section Audit

variable (host : Host)

def auditFile (acc : InstallResult × Nat) (relative : RelPath) (bytes : Bytes) :
    Except Error (InstallResult × Nat) :=
  let name := "/".intercalate relative
  if (managedPathParts relative).isNone then
    .error (.provision s!"Archive path cannot be recorded: {name}" "archive_rejected")
  else if MAX_FILE_BYTES < bytes.length then
    .error (.provision s!"File exceeds {MAX_FILE_BYTES} bytes: {name}" "audit_failed")
  else if MAX_TOTAL_BYTES < acc.2 + bytes.length then
    .error (.provision s!"Contents exceed {MAX_TOTAL_BYTES} bytes" "audit_failed")
  else if bytes.contains 0 then
    .error (.provision s!"Binary file refused: {name}" "audit_failed")
  else
    match host.remoteExec bytes with
    | some why => .error (.provision s!"{name} {why}" "audit_failed")
    | none =>
      .ok ({ acc.1 with
        files := acc.1.files ++ [relative]
        fileHashes := acc.1.fileHashes ++ [(relative, host.sha256 bytes)] },
        acc.2 + bytes.length)

def auditEntry (acc : InstallResult × Nat) : RelPath × Entry → Except Error (InstallResult × Nat)
  | (_, .symlink) => .error (.provision "Extracted tree contains a symlink" "archive_rejected")
  | (relative, .directory) =>
    if (managedPathParts relative).isNone then
      let name := "/".intercalate relative
      .error (.provision s!"Archive path cannot be recorded: {name}" "archive_rejected")
    else .ok ({ acc.1 with directories := acc.1.directories ++ [relative] }, acc.2)
  | (relative, .other) =>
    let name := relative.getLastD ""
    .error (.provision s!"Not a regular file: {name}" "archive_rejected")
  | (relative, .file inode) => auditFile host acc relative inode.bytes

def auditEntries (entries : Entries) : Except Error InstallResult :=
  (entries.foldlM (auditEntry host) (.empty, 0)).map Prod.fst

end Audit

def unmanagedEntry (managedFiles : List RelPath) (managedDirectories : Option (List RelPath)) :
    RelPath × Entry → Bool
  | (relative, .directory) =>
    match managedDirectories with
    | some directories => !directories.contains relative
    | none => false
  | (relative, .file _) => !managedFiles.contains relative
  | _ => true

def sameInstallResult (left right : InstallResult) : Bool :=
  left.files.length == right.files.length && left.directories.length == right.directories.length
    && left.directories.all (fun directory => right.directories.contains directory)
    && left.files.all fun file =>
      (right.fileHashes.lookup file).isSome
        && left.fileHashes.lookup file == right.fileHashes.lookup file

/-- The path, as a file or a directory, and the directories above it. -/
def withParents (kind : Bool) (path : RelPath) : List (Bool × RelPath) :=
  (kind, path) :: ((List.range path.length).tail.map fun depth => (false, path.take depth))

/-- The paths that a tree of these files and directories has; files are marked `true`. -/
def expectedPaths (files : List RelPath) (directories : Option (List RelPath)) :
    List (Bool × RelPath) :=
  files.flatMap (withParents true) ++ (directories.getD []).flatMap (withParents false)

def actualPaths (entries : Entries) : Option (List (Bool × RelPath)) :=
  entries.mapM fun
    | (relative, .file _) => some (true, relative)
    | (relative, .directory) => some (false, relative)
    | _ => none

def exactPaths (files : List RelPath) (directories : Option (List RelPath)) (entries : Entries) :
    Bool :=
  (files ++ directories.getD []).all (fun relative => (managedPathParts relative).isSome) &&
    match actualPaths entries with
    | none => false
    | some actual =>
      let expected := expectedPaths files directories
      actual.all (fun path => expected.contains path) && expected.all fun path => actual.contains path

def verifiedOwnedFile (host : Host) (files : List RelPath)
    (fileHashes : List (RelPath × List Hash)) (entries : Entries) : Bool :=
  files.any fun relative =>
    match fileHashes.lookup relative, entries.lookup relative with
    | some accepted, some (.file inode) =>
      (managedPathParts relative).isSome && accepted.contains (host.sha256 inode.bytes)
    | _, _ => false

/-! ## Looking at the directory -/

section Calls

variable {σ : Type} (host : Host)

def targetExists (target : Place) : Sys σ Bool := do
  let node ← lstat target
  pure node.isSome

def directoryIdentity (target : Place) : Sys σ (Option DirectoryIdentity) := do
  let node ← lstat target
  match node with
  | some (.tree tree) => pure (some tree.identity)
  | _ => pure none

def existsAsDirectory (target : Place) : Sys σ Bool := do
  let identity ← directoryIdentity target
  pure identity.isSome

def hasUntrackedContent (root : Place) (managedFiles : List RelPath)
    (managedDirectories : Option (List RelPath)) : Sys σ Bool := do
  let node ← lstat root
  match node with
  | none => pure false
  | some (.tree _) => do
    let entries ← walk root
    pure (entries.any (unmanagedEntry managedFiles managedDirectories))
  | some _ => pure true

def auditTree (root : Place) : Sys σ InstallResult := do
  let entries ← walk root
  ofExcept (auditEntries host entries)

def managedTreeHasExactPaths (root : Place) (files : List RelPath)
    (directories : Option (List RelPath)) : Sys σ Bool :=
  tryCatch (do
    let entries ← walk root
    pure (exactPaths files directories entries)) fun _ => pure false

def managedTreeHasVerifiedOwnedFile (root : Place) (files : List RelPath)
    (fileHashes : List (RelPath × List Hash)) : Sys σ Bool :=
  tryCatch (do
    let entries ← walk root
    pure (verifiedOwnedFile host files fileHashes entries)) fun _ => pure false

def moveDirectoryNoReplace (source target : Place) : Sys σ Bool :=
  renameDirectoryNoReplace source target

/-! ## Removal -/

structure RemoveOpts where
  files : List RelPath
  directories : Option (List RelPath)
  /-- Complete path sets that may own the visible root. -/
  rootPathSnapshots : Option (List (List RelPath × Option (List RelPath)))
  fileHashes : List (RelPath × List Hash)
  quarantineParent : Option String
  recoveryId : Option String

structure Removal where
  clean : Bool
  recoveryPath : Option Place

def anySnapshotExact (root : Place) : List (List RelPath × Option (List RelPath)) → Sys σ Bool
  | [] => pure false
  | snapshot :: rest => do
    let exact ← managedTreeHasExactPaths root snapshot.1 snapshot.2
    if exact then pure true else anySnapshotExact root rest

/-- The tree that `removeManagedTree` moved is put back unless it is the one it audited. -/
def isolateAudited (root recovery : Place) (audited : DirectoryIdentity) : Sys σ Removal := do
  let moved ← moveDirectoryNoReplace root recovery
  throwIf (!moved) (.provision
    s!"Removal could not isolate \"{root.name}\" without replacing another entry"
    "untracked_content")
  let isolated ← directoryIdentity recovery
  if isolated = some audited then pure ⟨true, some recovery⟩
  else do
    let restored ← moveDirectoryNoReplace recovery root
    throwIf (!restored) (.provision
      s!"Removal stopped after the target changed; replacement preserved at \"{recovery.path}\""
      "untracked_content")
    pure ⟨false, none⟩

def removeManagedTree (root : Place) (opts : RemoveOpts) : Sys σ Removal := do
  let directory ← existsAsDirectory root
  if !directory then do
    let present ← targetExists root
    pure ⟨!present, none⟩
  else do
    let auditedRootIdentity ← directoryIdentity root
    let rootWasCompleteOwnedTree ← anySnapshotExact root
      (opts.rootPathSnapshots.getD [(opts.files, opts.directories)])
    let rootHasVerifiedOwnedFile ←
      managedTreeHasVerifiedOwnedFile host root opts.files opts.fileHashes
    match opts.quarantineParent, opts.recoveryId with
    | some parent, some recoveryId =>
      -- A visible target without a hash-verified file may belong to someone else.
      if !rootHasVerifiedOwnedFile then pure ⟨true, none⟩
      else
        match auditedRootIdentity with
        | none => pure ⟨false, none⟩
        | some audited =>
          isolateAudited root ⟨parent, REMOVAL_RECOVERY_PREFIX ++ recoveryId⟩ audited
    -- Upgrade staging is hidden already and stays whole.
    | _, _ => pure ⟨rootWasCompleteOwnedTree, some root⟩

structure RemoveSkillOpts where
  skillsDir : String
  files : List RelPath
  directories : Option (List RelPath)
  rootPathSnapshots : Option (List (List RelPath × Option (List RelPath)))
  fileHashes : List (RelPath × List Hash)
  recoveryId : Option String

/-- `randomId` is what `randomBytes` draws when no recovery was claimed. -/
def removeSkill (name : String) (opts : RemoveSkillOpts) (randomId : String) :
    Sys σ (Option Place) := do
  throwIf (!isLegacyName name) (.provision s!"Invalid skill name \"{name}\"" "invalid_item")
  let recoveryId := opts.recoveryId.getD randomId
  throwIf (!isRecoveryId recoveryId) (.provision "Invalid recovery identity" "invalid_item")
  let result ← removeManagedTree host ⟨opts.skillsDir, name⟩
    ⟨opts.files, opts.directories, opts.rootPathSnapshots, opts.fileHashes,
      some opts.skillsDir, some recoveryId⟩
  pure result.recoveryPath

end Calls

/-! ## Installation -/

section Install

variable {σ : Type} (host : Host)

structure InstallOpts (σ : Type) where
  skillsDir : String
  beforeMutation : Sys σ Unit
  /-- Persists ownership before exposure; returns an undo for a failed first install. -/
  beforeCommit : InstallResult → DirectoryIdentity → Sys σ (Option (Sys σ Unit))
  firstInstallMarker : Option String
  managedFiles : Option (List RelPath)
  managedDirectories : Option (List RelPath)
  managedFileHashes : List (RelPath × List Hash)
  requireVerifiedOwnership : Bool
  upgradeRecoveryId : Option String
  rejectionRecoveryId : Option String

/-- What the run gets from outside: the source, random names, and the inodes that the file
system hands out. -/
structure Supply where
  /-- The entries `tar` extracts, or none when the archive does not extract. -/
  source : Except Error (Option Entries)
  candidateId : String
  stagingId : String
  candidateIdentity : DirectoryIdentity
  markerInode : Nat

def setFrame (f : Frame → Frame) : Sys σ Unit := modify fun w => { w with frame := f w.frame }

def rejectChangedContents (itemName : String) : Error := .provision
  s!"Refusing to install \"{itemName}\" because its candidate contents changed before publication"
  "untracked_content"

def markerName (marker : String) : RelPath := [".provision-install-" ++ marker]

def markerBytes (marker : String) : Bytes := marker.toUTF8.toList

/-- The published contents without the marker file, once its hash is the expected one. -/
def withoutMarker (itemName : String) (published : InstallResult) :
    Option String → Except Error InstallResult
  | none => .ok published
  | some marker =>
    if published.fileHashes.lookup (markerName marker) != some (host.sha256 (markerBytes marker))
    then .error (rejectChangedContents itemName)
    else .ok
      { files := published.files.filter (· != markerName marker)
        directories := published.directories
        fileHashes := published.fileHashes.filter fun file => file.1 != markerName marker }

def assertPublishedCandidate (target : Place) (expected : DirectoryIdentity) (itemName : String)
    (expectedContents : InstallResult) (installMarker : Option String) : Sys σ Unit := do
  let identity ← directoryIdentity target
  throwIf (identity != some expected) (.provision
    s!"Refusing to install \"{itemName}\" because an unaudited candidate reached the target"
    "untracked_content")
  let published ← tryCatch (auditTree host target) fun _ => throw (rejectChangedContents itemName)
  let publishedContents ← ofExcept (withoutMarker host itemName published installMarker)
  throwIf (!sameInstallResult publishedContents expectedContents) (rejectChangedContents itemName)

/-- `isolateRejectedCandidate`, which returns the error to throw. -/
def isolateRejectedCandidate (target : Place) (itemName skillsDir : String)
    (recoveryId : Option String) (expected : DirectoryIdentity) : Sys σ Error :=
  match recoveryId with
  | none => throw (.provision
      s!"Rejected candidate for \"{itemName}\" could not be isolated without a preclaimed recovery"
      "untracked_content")
  | some recoveryId => do
    let recovery : Place := ⟨skillsDir, REJECTED_RECOVERY_PREFIX ++ recoveryId⟩
    let identity ← directoryIdentity target
    throwIf (identity != some expected) (.provision
      s!"Rejected candidate for \"{itemName}\" changed identity before isolation; ownership remains recorded"
      "untracked_content")
    let moved ← moveDirectoryNoReplace target recovery
    throwIf (!moved) (.provision
      s!"Rejected candidate for \"{itemName}\" could not be isolated; ownership remains recorded"
      "untracked_content")
    let isolated ← directoryIdentity recovery
    if isolated = some expected then
      pure (.provision s!"Rejected candidate for \"{itemName}\" was isolated at \"{recovery.path}\""
        "untracked_content")
    else do
      -- The name was rebound before the rename: put the unrelated tree back if possible.
      let _ ← moveDirectoryNoReplace recovery target
      throw (.provision
        s!"Rejected candidate for \"{itemName}\" changed identity during isolation; ownership remains recorded"
        "untracked_content")

/-- The names of one run. -/
structure Names where
  item : String
  target : Place
  candidate : Place
  previous : Place

def appeared (itemName : String) : Error := .provision
  s!"Refusing to replace \"{itemName}\" because the target appeared during installation"
  "untracked_content"

def appearedPreserving (itemName : String) (candidate : Place) : Error := .provision
  s!"Refusing to replace \"{itemName}\" because the target appeared during installation; candidate preserved at \"{candidate.path}\""
  "untracked_content"

/-- Moves the candidate to the target, or preserves it where it is. -/
def exposeCandidate (names : Names) (refused : Error) : Sys σ Unit := do
  let moved ← moveDirectoryNoReplace names.candidate names.target
  if moved then setFrame fun frame => { frame with candidateExposed := true }
  else do
    setFrame fun frame => { frame with preserveCandidate := true }
    throw refused

/-- `preserveCandidate = targetExists(candidate)`. -/
def preserveExisting (candidate : Place) : Sys σ Unit := do
  let present ← targetExists candidate
  setFrame fun frame => { frame with preserveCandidate := present }

def publishFirst (opts : InstallOpts σ) (names : Names) (identity : DirectoryIdentity)
    (result : InstallResult) : Sys σ Unit := do
  exposeCandidate names (appearedPreserving names.item names.candidate)
  tryCatch
    (assertPublishedCandidate host names.target identity names.item result opts.firstInstallMarker)
    fun _ => do
      let isolationError ← isolateRejectedCandidate names.target names.item opts.skillsDir
        opts.rejectionRecoveryId identity
      setFrame fun frame => { frame with rejectedCandidateIsolated := true }
      throw isolationError

def rollback (rollbackCommit : Option (Sys σ Unit)) : Sys σ Unit := rollbackCommit.getD (pure ())

/-- A candidate that is exposed and could not be isolated stays journaled. -/
def rollbackUnexposed (rollbackCommit : Option (Sys σ Unit)) : Sys σ Unit := do
  let w ← get
  if !w.frame.candidateExposed || w.frame.rejectedCandidateIsolated then rollback rollbackCommit
  else pure ()

/-- The part of `installSkill` for a first install after ownership was recorded. -/
def exposeFirstInstall (opts : InstallOpts σ) (names : Names) (identity : DirectoryIdentity)
    (result : InstallResult) (rollbackCommit : Option (Sys σ Unit)) : Sys σ Unit := do
  let present ← targetExists names.target
  if present then do
    rollback rollbackCommit
    throw (appeared names.item)
  else
    tryCatch (publishFirst host opts names identity result) fun err => do
      preserveExisting names.candidate
      rollbackUnexposed rollbackCommit
      throw err

/-- Moves the previous tree to its recovery; false when there is none. -/
def moveAside (names : Names) : Sys σ Bool :=
  tryCatch (do
    let moved ← moveDirectoryNoReplace names.target names.previous
    throwIf (!moved) (.provision s!"Upgrade recovery path already exists for \"{names.item}\""
      "untracked_content")
    pure true) fun err => if err.code = "ENOENT" then pure false else throw err

/-- Puts back a tree that holds what the record does not own. -/
def refusePrevious (names : Names) (reason : String) : Sys σ Unit := do
  modify fun w => w.record (.refuse names.previous)
  let restored ← moveDirectoryNoReplace names.previous names.target
  throwIf (!restored) (.provision
    s!"Refusing to replace \"{names.item}\" because {reason}; prior contents preserved at \"{names.previous.path}\""
    "untracked_content")
  throw (.provision s!"Refusing to replace \"{names.item}\" because {reason}" "untracked_content")

def publishUpgrade (opts : InstallOpts σ) (names : Names) (identity : DirectoryIdentity)
    (result : InstallResult) (hadPrevious : Bool) : Sys σ Unit := do
  exposeCandidate names
    (if hadPrevious then .provision
      s!"Upgrade failed because the target was recreated; prior contents preserved at \"{names.previous.path}\" and candidate at \"{names.candidate.path}\""
      "untracked_content"
    else appearedPreserving names.item names.candidate)
  tryCatch (assertPublishedCandidate host names.target identity names.item result none)
    fun err => do
      let _ ← isolateRejectedCandidate names.target names.item opts.skillsDir
        opts.rejectionRecoveryId identity
      throw err

/-- Checks the retained previous tree once more; it stays in its recovery either way. -/
def retainPrevious (opts : InstallOpts σ) (names : Names) (managedFiles : List RelPath) :
    Sys σ Unit := do
  let previousAudit ← removeManagedTree host names.previous
    ⟨managedFiles, opts.managedDirectories, none, opts.managedFileHashes, none, none⟩
  throwIf (!previousAudit.clean) (.provision
    s!"Upgrade completed, but content added during installation was preserved at \"{names.previous.path}\""
    "untracked_content")

def previousHasUntrackedContent (opts : InstallOpts σ) (names : Names)
    (managedFiles : List RelPath) (hadPrevious : Bool) : Sys σ Bool :=
  if hadPrevious then hasUntrackedContent names.previous managedFiles opts.managedDirectories
  else pure false

def previousLacksVerifiedOwnership (opts : InstallOpts σ) (names : Names)
    (managedFiles : List RelPath) (hadPrevious : Bool) : Sys σ Bool :=
  if hadPrevious && opts.requireVerifiedOwnership then do
    let verified ← managedTreeHasVerifiedOwnedFile host names.previous managedFiles
      opts.managedFileHashes
    pure !verified
  else pure false

/-- Exposes the candidate once the tree moved aside holds nothing unowned. -/
def replacePrevious (opts : InstallOpts σ) (names : Names) (identity : DirectoryIdentity)
    (result : InstallResult) (managedFiles : List RelPath) (hadPrevious : Bool) : Sys σ Unit := do
  tryCatch (publishUpgrade host opts names identity result hadPrevious) fun err =>
    if err.isUntrackedContent then throw err
    else do
      preserveExisting names.candidate
      throw err
  if hadPrevious then retainPrevious host opts names managedFiles else pure ()

/-- The part of `installSkill` for an upgrade after the journal was saved. -/
def exposeUpgrade (opts : InstallOpts σ) (names : Names) (identity : DirectoryIdentity)
    (result : InstallResult) (managedFiles : List RelPath) : Sys σ Unit := do
  let hadPrevious ← moveAside names
  let untracked ← previousHasUntrackedContent opts names managedFiles hadPrevious
  let unverified ← previousLacksVerifiedOwnership host opts names managedFiles hadPrevious
  if untracked || unverified then
    refusePrevious names
      (if unverified then "ownership could not be verified after interrupted removal"
      else "content was added during installation")
  else replacePrevious host opts names identity result managedFiles hadPrevious

def writeMarker (supply : Supply) (candidate : Place) (marker : String) : Sys σ Unit := do
  throwIf (!isRecoveryId marker) (.provision "Invalid first-install marker" "invalid_item")
  fillCandidate candidate fun entries =>
    if (entries.lookup (markerName marker)).isSome then .error (.errno "EEXIST")
    else .ok (entries ++ [(markerName marker, .file ⟨supply.markerInode, markerBytes marker⟩)])

/-- A first install carries a marker of its journal. -/
def markCandidate (opts : InstallOpts σ) (supply : Supply) (names : Names) : Sys σ Unit :=
  match opts.managedFiles, opts.firstInstallMarker with
  | none, some marker => writeMarker supply names.candidate marker
  | _, _ => pure ()

def commitCandidate (opts : InstallOpts σ) (names : Names) (identity : DirectoryIdentity)
    (result : InstallResult) (rollbackCommit : Option (Sys σ Unit)) : Sys σ Unit :=
  match opts.managedFiles with
  | none => exposeFirstInstall host opts names identity result rollbackCommit
  | some managedFiles => exposeUpgrade host opts names identity result managedFiles

/-- What the static audit found in the candidate, unless the candidate was replaced under it. -/
def prepareCandidate (names : Names) (identity : DirectoryIdentity)
    (extracted : Option Entries) : Sys σ InstallResult := do
  tryCatch
    (fillCandidate names.candidate fun _ =>
      match extracted with
      | some entries => .ok entries
      | none => .error (.errno "1"))
    fun _ => throw (.provision "Extraction failed" "archive_rejected")
  -- `normalizeExtractedModes`
  let _ ← call
  let result ← auditTree host names.candidate
  let now ← directoryIdentity names.candidate
  throwIf (now != some identity) (.provision
    s!"Refusing to install \"{names.item}\" because its candidate directory changed during audit"
    "untracked_content")
  throwIf result.files.isEmpty (.provision "Archive contains no files" "archive_rejected")
  pure result

def refuseTarget (opts : InstallOpts σ) (names : Names) : Sys σ Unit :=
  match opts.managedFiles with
  | none => do
    let present ← targetExists names.target
    throwIf present (appeared names.item)
  | some managedFiles => do
    let untracked ← hasUntrackedContent names.target managedFiles opts.managedDirectories
    throwIf untracked (.provision
      s!"Refusing to replace \"{names.item}\" because it contains untracked files"
      "untracked_content")

/-- The body of the `try` block of `installSkill`. -/
def installCandidate (opts : InstallOpts σ) (supply : Supply) (names : Names)
    (identity : DirectoryIdentity) (extracted : Option Entries) : Sys σ InstallResult := do
  let result ← prepareCandidate host names identity extracted
  refuseTarget opts names
  markCandidate opts supply names
  let rollbackCommit ← opts.beforeCommit result identity
  commitCandidate host opts names identity result rollbackCommit
  pure result

/-- The `finally` block: once exposed, the candidate name is no longer this run's. -/
def discardCandidate (candidate : Place) (identity : DirectoryIdentity) : Sys σ Unit := do
  let w ← get
  if w.frame.preserveCandidate || w.frame.candidateExposed then pure ()
  else do
    let now ← directoryIdentity candidate
    if now = some identity then rmCandidate candidate else pure ()

/-- The recovery the previous tree of an upgrade moves to. -/
def stagingName (opts : InstallOpts σ) (supply : Supply) : Except Error String :=
  match opts.upgradeRecoveryId with
  | some id =>
    if !isRecoveryId id || opts.managedFiles.isNone then
      .error (.provision "Invalid upgrade recovery identity" "invalid_item")
    else .ok (UPGRADE_RECOVERY_PREFIX ++ id)
  | none => .ok (UPGRADE_RECOVERY_PREFIX ++ supply.stagingId)

/-- The candidate is installed, or removed by the `finally` block. -/
def installStaged (opts : InstallOpts σ) (supply : Supply) (names : Names)
    (identity : DirectoryIdentity) (extracted : Option Entries) : Sys σ InstallResult := do
  throwIf (opts.rejectionRecoveryId.any fun id => !isRecoveryId id)
    (.provision "Invalid rejected-candidate recovery identity" "invalid_item")
  tryFinally (installCandidate host opts supply names identity extracted)
    (discardCandidate names.candidate identity)

def installSkill (name : String) (opts : InstallOpts σ) (supply : Supply) :
    Sys σ InstallResult := do
  throwIf (!isValidItemName name) (.provision s!"Invalid skill name \"{name}\"" "invalid_item")
  let _ ← call
  let extracted ← ofExcept supply.source
  opts.beforeMutation
  -- `mkdirSync(opts.skillsDir, { recursive: true })`
  let _ ← call
  let candidate : Place := ⟨opts.skillsDir, CANDIDATE_PREFIX ++ supply.candidateId⟩
  setFrame fun _ => .fresh
  mkdirCandidate candidate supply.candidateIdentity
  let candidateIdentity ← directoryIdentity candidate
  match candidateIdentity with
  | none => throw (.provision "Candidate directory identity is unavailable" "untracked_content")
  | some identity => do
    let staging ← ofExcept (stagingName opts supply)
    installStaged host opts supply
      ⟨name, ⟨opts.skillsDir, name⟩, candidate, ⟨opts.skillsDir, staging⟩⟩ identity extracted

/-! ## The caller's callbacks -/

/-- Callbacks that work on the state of the caller. -/
structure Callbacks (σ : Type) where
  beforeMutation : σ → Except Error Unit × σ
  beforeCommit : InstallResult → DirectoryIdentity → σ →
    Except Error (Option (σ → Except Error Unit × σ)) × σ

def onCaller {α : Type} (f : σ → Except Error α × σ) : Sys σ α := do
  let _ ← call
  let w ← get
  modify fun w => { w with caller := (f w.caller).2 }
  ofExcept (f w.caller).1

def InstallOpts.withCallbacks (opts : InstallOpts σ) (callbacks : Callbacks σ) : InstallOpts σ :=
  { opts with
    beforeMutation := onCaller callbacks.beforeMutation
    beforeCommit := fun result identity => do
      let undo ← onCaller (callbacks.beforeCommit result identity)
      pure (undo.map onCaller) }

end Install

end CliProxy.Installer
