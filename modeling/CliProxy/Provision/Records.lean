import CliProxy.Provision.Types

/-! # What the lockfile records

The record types of `src/provision/types.ts`, the path policy of `src/provision/path-policy.ts`,
and the tests of a snapshot against files that `src/provision/sync.ts` makes. -/

namespace CliProxy.Provision

abbrev Bytes := List UInt8

abbrev Hash := String

/-- A path relative to the root of a tree, as its parts between the slashes. -/
abbrev RelPath := List String

/-- The `dev` and `ino` of a directory. -/
structure DirectoryIdentity where
  dev : Nat
  ino : Nat
  deriving DecidableEq, Repr

/-- `ProvisionError`, or the error of a system call. -/
inductive Error where
  | provision (message code : String)
  | errno (code : String)
  deriving DecidableEq, Repr

def Error.code : Error → String
  | .provision _ code => code
  | .errno code => code

/-- `err instanceof ProvisionError && err.code === "untracked_content"`. -/
def Error.isUntrackedContent : Error → Bool
  | .provision _ code => code == "untracked_content"
  | .errno _ => false

/-- How a system call goes wrong. -/
inductive Fault where
  | fails (code : String)
  | killed
  deriving DecidableEq, Repr

/-- What the installers rely on from outside the repository. -/
structure Host where
  sha256 : Bytes → Hash
  /-- `REMOTE_EXEC_PATTERNS`: why the first pattern that matches is refused. -/
  remoteExec : Bytes → Option String

/-! ## Paths and identifiers -/

def MAX_MANAGED_PATH_LENGTH := 1024

/-- The number of UTF-16 units of the joined path. -/
def pathLength (path : RelPath) : Nat :=
  (path.map fun part => (part.toList.map fun c => if c.toNat < 65536 then 1 else 2).sum).sum
    + (path.length - 1)

def managedPathParts (path : RelPath) : Option RelPath :=
  if path.isEmpty || decide (MAX_MANAGED_PATH_LENGTH < pathLength path)
      || path.any (fun part => part.toList.contains '\x00')
      || path.any (fun part => part == "" || part == "." || part == "..") then none
  else some path

def isLowerHex (c : Char) : Bool := ('0' ≤ c && c ≤ '9') || ('a' ≤ c && c ≤ 'f')

/-- `RECOVERY_ID_PATTERN` and `INSTALL_MARKER_PATTERN`, `/^[0-9a-f]{32}$/`. -/
def isRecoveryId (id : String) : Bool := id.toList.length == 32 && id.toList.all isLowerHex

def lowerCase (s : String) : String := String.ofList (s.toList.map Char.toLower)

/-- `LEGACY_NAME_PATTERN`, which accepts either case. -/
def isLegacyName (name : String) : Bool := isValidItemName (lowerCase name)

/-! ## Records -/

structure GitSource where
  ref : String
  rev : String
  path : Option String
  deriving DecidableEq, Repr

structure InstalledSnapshot where
  sha256 : String
  source : Option GitSource
  files : List RelPath
  directories : Option (List RelPath)
  fileHashes : Option (List (RelPath × Hash))
  installedAt : String
  deriving DecidableEq, Repr

/-- A reserved config candidate file. -/
structure InstalledFileIdentity extends DirectoryIdentity where
  name : String
  deriving DecidableEq, Repr

structure InstalledSkillLink extends DirectoryIdentity where
  path : String
  target : String
  deriving DecidableEq, Repr

structure InstalledSkillLinkPublication where
  path : String
  target : String
  deriving DecidableEq, Repr

structure InstalledLegacySkillMigration where
  installedKey : Key
  installRoot : String
  recoveryIdentity : DirectoryIdentity
  deriving DecidableEq, Repr

structure InstalledRecord extends InstalledSnapshot where
  installRoot : Option String
  skillLinks : Option (List InstalledSkillLink)
  skillLinkPublication : Option InstalledSkillLinkPublication
  uncommitted : Bool
  candidateIdentity : Option DirectoryIdentity
  configCandidate : Option InstalledFileIdentity
  installMarker : Option String
  rejectionRecoveryId : Option String
  pending : Option InstalledSnapshot
  legacySkillMigration : Option InstalledLegacySkillMigration
  removalRecoveryId : Option String
  deriving DecidableEq, Repr

/-- A record that holds a snapshot and nothing else. -/
def InstalledRecord.ofSnapshot (snapshot : InstalledSnapshot) : InstalledRecord :=
  { snapshot with
    installRoot := none
    skillLinks := none
    skillLinkPublication := none
    uncommitted := false
    candidateIdentity := none
    configCandidate := none
    installMarker := none
    rejectionRecoveryId := none
    pending := none
    legacySkillMigration := none
    removalRecoveryId := none }

def stableSnapshot (record : InstalledRecord) : InstalledSnapshot := record.toInstalledSnapshot

@[simp] theorem stableSnapshot_ofSnapshot (snapshot : InstalledSnapshot) :
    stableSnapshot (.ofSnapshot snapshot) = snapshot := rfl

/-- The tests of `installedSnapshotIntactAt` below a root, given what is a directory there and
what the regular files hold. -/
def snapshotIntact (sha256 : Bytes → Hash) (isDirectory : RelPath → Bool)
    (read : RelPath → Option Bytes) (snapshot : InstalledSnapshot) : Bool :=
  match snapshot.fileHashes with
  | none => false
  | some hashes =>
    hashes.length == snapshot.files.length
      && (snapshot.directories.getD []).all isDirectory
      && snapshot.files.all fun relative =>
        match read relative with
        | some bytes => hashes.lookup relative == some (sha256 bytes)
        | none => false

end CliProxy.Provision
