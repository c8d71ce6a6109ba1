import Mathlib
import CliProxy.Adapter.JsonRecord
import CliProxy.Lib.PosixPath
import CliProxy.Provision.GitSource
import CliProxy.Provision.Records

/-! # The lockfile

`loadState` and `saveState` of `src/provision/state.ts`. Properties are written in the order in which
`loadState` makes them; no reader depends on the order. `dateParses` is whether `Date.parse` of a
text is finite. -/

namespace CliProxy.Provision.Lockfile

open Adapter (Json parseJson print Layout)
open Adapter.Json (text matching readAll optional object)

/-! ## Texts -/

/-- `HASH_PATTERN`, `/^[0-9a-f]{64}$/i` -/
def isHash (hash : String) : Bool := isHex 64 hash.toList

/-- `FILESYSTEM_ID_PATTERN`, `/^(?:0|[1-9][0-9]*)$/` -/
def isFilesystemId : List Char → Bool
  | [] => false
  | c :: rest => if c = '0' then rest.isEmpty else c.isDigit && rest.all Char.isDigit

def CONFIG_CANDIDATE_PREFIX := ".provision-config-candidate-"

/-- `CONFIG_CANDIDATE_PATTERN` -/
def isConfigCandidate (name : String) : Bool :=
  CONFIG_CANDIDATE_PREFIX.toList.isPrefixOf name.toList
    && isRecoveryId (String.ofList (name.toList.drop CONFIG_CANDIDATE_PREFIX.length))

def isAbsolute (path : String) : Bool := Lib.PosixPath.isAbsolute path.toList

def basename (path : String) : String := String.ofList (Lib.PosixPath.basename path.toList)

def normalize (path : String) : String := String.ofList (Lib.PosixPath.normalize path.toList)

/-- `KEY_PATTERN` -/
def itemKey (key : String) : Option Key :=
  match (key.toList.splitOn '/').map String.ofList with
  | [type, name] => if isLegacyName type && isLegacyName name then some ⟨type, name⟩ else none
  | _ => none

def keyText (key : Key) : String := key.type ++ "/" ++ key.name

def lowerKey (key : Key) : Key := ⟨lowerCase key.type, lowerCase key.name⟩

/-- `installedKey.toLowerCase().startsWith("skill/")` -/
def isSkillKey (key : Key) : Bool := lowerCase key.type == "skill"

/-- `managedPathParts` of a text. -/
def pathParts (path : String) : Option RelPath :=
  managedPathParts ((path.toList.splitOn '/').map String.ofList)

def joinPath (path : RelPath) : String := String.ofList (['/'].intercalate (path.map String.toList))

/-! ## Readers -/

/-- `Object.entries` of a property, nothing if it is not an object. -/
def entries : Option Json → List (String × Json)
  | some (.obj fields) => fields
  | some (.arr items) => items.zipIdx.map fun item => (toString item.2, item.1)
  | _ => []

def isTrue : Option Json → Bool
  | some (.bool b) => b
  | _ => false

def readKey (v : Json) : Option Key := v.text.bind itemKey

def canonicalKeys : Option Json → List Key
  | some (.arr items) => ((items.filterMap readKey).map lowerKey).eraseDups
  | _ => []

/-- The recovery identifiers of an array. -/
def recoveryIds : Option Json → Option (List String)
  | some (.arr items) => some (items.filterMap (matching isRecoveryId)).eraseDups
  | _ => none

def safeRelativeFile (v : Json) : Option RelPath := v.text.bind pathParts

/-- Paths of which no two are equal. -/
def distinctFiles (v : Json) : Option (List RelPath) :=
  (readAll safeRelativeFile v).filter fun files => decide files.Nodup

def filesystemId (v : Json) : Option Nat :=
  (matching (fun id => isFilesystemId id.toList) v).map fun id => Nat.ofDigitChars 10 id.toList 0

def absolutePath (v : Json) : Option String := (matching isAbsolute v).map normalize

/-- An absolute path that ends with the name of a skill. -/
def skillPath (name : String) (v : Json) : Option String :=
  (matching (fun path => isAbsolute path && basename path == name) v).map normalize

def directoryIdentity (v : Json) : Option DirectoryIdentity := do
  let dev ← (v.get "dev").bind filesystemId
  let ino ← (v.get "ino").bind filesystemId
  return ⟨dev, ino⟩

def fileIdentity (v : Json) : Option InstalledFileIdentity := do
  let name ← (v.get "name").bind (matching isConfigCandidate)
  let identity ← directoryIdentity v
  return { identity with name }

def sourceOf (v : Json) : Option GitSource :=
  (snapshotSource (some v)).map fun source =>
    ⟨String.ofList source.ref, String.ofList source.rev, source.path.map String.ofList⟩

def readFileHash (files : List RelPath) (entry : String × Json) : Option (RelPath × Hash) := do
  let file ← (pathParts entry.1).filter fun file => decide (file ∈ files)
  let hash ← matching isHash entry.2
  return (file, hash)

def readFileHashes (files : List RelPath) : Json → Option (List (RelPath × Hash))
  | .obj fields => if fields.length = files.length then fields.mapM (readFileHash files) else none
  | _ => none

section

variable (dateParses : String → Bool)

def installedSnapshot (value : Json) : Option InstalledSnapshot := do
  let sha256 ← (value.get "sha256").bind (matching isHash)
  let files ← (value.get "files").bind fun v => (distinctFiles v).filter (· ≠ [])
  let directories ← optional distinctFiles (value.get "directories")
  let installedAt ← (value.get "installedAt").bind (matching dateParses)
  let fileHashes ← optional (readFileHashes files) (value.get "fileHashes")
  return {
    sha256 := lowerCase sha256
    source := (value.get "source").bind sourceOf
    files
    directories
    fileHashes
    installedAt }

def skillLink (name : String) (entry : Json) : Option InstalledSkillLink := do
  let path ← (entry.get "path").bind (skillPath name)
  let target ← (entry.get "target").bind (skillPath name)
  let identity ← directoryIdentity entry
  return { identity with path, target }

/-- No two links have the same path. -/
def installedSkillLinks (installedKey : Key) (value : Json) : Option (List InstalledSkillLink) :=
  (readAll (skillLink installedKey.name) value).filter fun links =>
    decide (links.map InstalledSkillLink.path).Nodup

def installedSkillLinkPublication (installedKey : Key) (value : Json) :
    Option InstalledSkillLinkPublication := do
  let path ← (value.get "path").bind (skillPath installedKey.name)
  let target ← (value.get "target").bind (skillPath installedKey.name)
  return ⟨path, target⟩

def installedLegacySkillMigration (installedKey : Key) (value : Json) :
    Option InstalledLegacySkillMigration := do
  let key ← (value.get "installedKey").bind fun v =>
    (readKey v).filter fun key => isSkillKey key && lowerKey key == lowerKey installedKey
  let installRoot ← (value.get "installRoot").bind absolutePath
  let recoveryIdentity ← (value.get "recoveryIdentity").bind directoryIdentity
  return ⟨key, installRoot, recoveryIdentity⟩

def installedRecord (value : Json) (installedKey : Key) : Option InstalledRecord := do
  let stable ← installedSnapshot dateParses value
  let installRoot := (value.get "installRoot").bind absolutePath
  let links ← optional (installedSkillLinks installedKey) (value.get "skillLinks")
  let skillLinks := links.filter (· ≠ [])
  let skillLinkPublication ←
    optional (installedSkillLinkPublication installedKey) (value.get "skillLinkPublication")
  if !isSkillKey installedKey && (skillLinks.isSome || skillLinkPublication.isSome) then none else
  let pending := (value.get "pending").bind (installedSnapshot dateParses)
  let legacySkillMigration ←
    optional (installedLegacySkillMigration installedKey) (value.get "legacySkillMigration")
  let uncommitted := isTrue (value.get "uncommitted")
  let removalRecoveryId := (value.get "removalRecoveryId").bind (matching isRecoveryId)
  if legacySkillMigration.isSome
      && (!uncommitted || pending.isNone || removalRecoveryId.isNone) then none else
  return { stable with
    installRoot := installRoot.filter fun _ => isSkillKey installedKey
    skillLinks
    skillLinkPublication
    uncommitted
    candidateIdentity := (value.get "candidateIdentity").bind directoryIdentity
    configCandidate := (value.get "configCandidate").bind fileIdentity
    installMarker := (value.get "installMarker").bind (matching isRecoveryId)
    rejectionRecoveryId := (value.get "rejectionRecoveryId").bind (matching isRecoveryId)
    pending
    legacySkillMigration
    removalRecoveryId }

end

/-! ## States -/

structure ProvisionStateFile where
  approved : List Key
  revoked : List Key
  adopted : Option (List Key)
  removalRecoveries : Option (List String)
  removalRecoveryRoots : Option (List (String × String))
  upgradeRecoveries : Option (List String)
  installed : List (Key × InstalledRecord)
  deriving DecidableEq, Repr

def emptyState : ProvisionStateFile where
  approved := []
  revoked := []
  adopted := none
  removalRecoveries := none
  removalRecoveryRoots := none
  upgradeRecoveries := none
  installed := []

/-- The roots of the recoveries that have one. -/
def recoveryRoots (ids : List String) : Json → Option (List (String × String))
  | .obj fields =>
    some (ids.filterMap fun id => ((fields.lookup id).bind absolutePath).map (id, ·))
  | _ => none

def installedEntry (dateParses : String → Bool) (entry : String × Json) :
    Option (Key × InstalledRecord) := do
  let key ← itemKey entry.1
  let record ← installedRecord dateParses entry.2 key
  return (key, record)

/-- The state in a parsed lockfile. -/
def parsedState (dateParses : String → Bool) (parsed : Json) : ProvisionStateFile :=
  let removalRecoveries := recoveryIds (parsed.get "removalRecoveries")
  { approved := canonicalKeys (parsed.get "approved")
    revoked := canonicalKeys (parsed.get "revoked")
    adopted := (parsed.get "adopted").map fun v => canonicalKeys (some v)
    removalRecoveries
    removalRecoveryRoots := do
      let ids ← removalRecoveries
      let roots ← (parsed.get "removalRecoveryRoots").bind (recoveryRoots ids)
      if roots = [] then none else some roots
    upgradeRecoveries := recoveryIds (parsed.get "upgradeRecoveries")
    installed := (entries (parsed.get "installed")).filterMap (installedEntry dateParses) }

/-- The state in a lockfile that may be missing. -/
def loadState (number : List Char → String) (dateParses : String → Bool)
    (raw : Option (List Char)) : ProvisionStateFile :=
  match raw.bind (parseJson number) with
  | some (.obj fields) => parsedState dateParses (.obj fields)
  | some (.arr items) => parsedState dateParses (.arr items)
  | _ => emptyState

/-! ## Writers -/

def writeFiles (files : List RelPath) : Json := .arr (files.map fun file => .str (joinPath file))

def writeId (id : Nat) : Json := .str (toString id)

def writeIdentity (identity : DirectoryIdentity) : Json :=
  object [("dev", some (writeId identity.dev)), ("ino", some (writeId identity.ino))]

def writeFileIdentity (identity : InstalledFileIdentity) : Json :=
  object [("name", some (.str identity.name)), ("dev", some (writeId identity.dev)),
    ("ino", some (writeId identity.ino))]

def writeSource (source : GitSource) : Json :=
  InstalledSource.toJson ⟨source.ref.toList, source.rev.toList, source.path.map String.toList⟩

def writeFileHashes (hashes : List (RelPath × Hash)) : Json :=
  .obj (hashes.map fun hash => (joinPath hash.1, .str hash.2))

def snapshotFields (snapshot : InstalledSnapshot) : List (String × Option Json) :=
  [("sha256", some (.str snapshot.sha256)),
    ("source", snapshot.source.map writeSource),
    ("files", some (writeFiles snapshot.files)),
    ("directories", snapshot.directories.map writeFiles),
    ("fileHashes", snapshot.fileHashes.map writeFileHashes),
    ("installedAt", some (.str snapshot.installedAt))]

def writeSnapshot (snapshot : InstalledSnapshot) : Json := object (snapshotFields snapshot)

def writeSkillLink (link : InstalledSkillLink) : Json :=
  object [("path", some (.str link.path)), ("target", some (.str link.target)),
    ("dev", some (writeId link.dev)), ("ino", some (writeId link.ino))]

def writePublication (publication : InstalledSkillLinkPublication) : Json :=
  object [("path", some (.str publication.path)), ("target", some (.str publication.target))]

def writeMigration (migration : InstalledLegacySkillMigration) : Json :=
  object [("installedKey", some (.str (keyText migration.installedKey))),
    ("installRoot", some (.str migration.installRoot)),
    ("recoveryIdentity", some (writeIdentity migration.recoveryIdentity))]

def recordFields (record : InstalledRecord) : List (String × Option Json) :=
  snapshotFields record.toInstalledSnapshot ++
    [("installRoot", record.installRoot.map .str),
      ("skillLinks", record.skillLinks.map fun links => .arr (links.map writeSkillLink)),
      ("skillLinkPublication", record.skillLinkPublication.map writePublication),
      ("uncommitted", if record.uncommitted then some (.bool true) else none),
      ("candidateIdentity", record.candidateIdentity.map writeIdentity),
      ("configCandidate", record.configCandidate.map writeFileIdentity),
      ("installMarker", record.installMarker.map .str),
      ("rejectionRecoveryId", record.rejectionRecoveryId.map .str),
      ("removalRecoveryId", record.removalRecoveryId.map .str),
      ("pending", record.pending.map writeSnapshot),
      ("legacySkillMigration", record.legacySkillMigration.map writeMigration)]

def writeRecord (record : InstalledRecord) : Json := object (recordFields record)

def writeKeys (keys : List Key) : Json := .arr (keys.map fun key => .str (keyText key))

def writeRecoveryIds (ids : List String) : Json := .arr (ids.map .str)

def stateFields (state : ProvisionStateFile) : List (String × Option Json) :=
  [("version", some (.num "1")),
    ("approved", some (writeKeys state.approved)),
    ("revoked", some (writeKeys state.revoked)),
    ("adopted", state.adopted.map writeKeys),
    ("removalRecoveries", state.removalRecoveries.map writeRecoveryIds),
    ("removalRecoveryRoots", state.removalRecoveryRoots.map fun roots =>
      .obj (roots.map fun root => (root.1, .str root.2))),
    ("upgradeRecoveries", state.upgradeRecoveries.map writeRecoveryIds),
    ("installed", some (.obj (state.installed.map fun entry =>
      (keyText entry.1, writeRecord entry.2))))]

/-- The text that `saveState` writes. -/
def stateText (state : ProvisionStateFile) : List Char :=
  print .indented 0 (object (stateFields state)) ++ ['\n']

end CliProxy.Provision.Lockfile
