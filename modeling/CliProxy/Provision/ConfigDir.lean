import CliProxy.Lib.Prog
import CliProxy.Provision.Records

/-! # The directory of a config item

What `src/provision/config-installer.ts` reads and changes on disk: the item directory, which it
shares with the consuming program, and its own staging directory. Here nothing else touches the
item directory, so a descriptor and the path it was opened by denote the same inode. -/

namespace CliProxy.ConfigInstaller

open Lib Lib.Prog Provision

def DIRECTORY_MODE := 0o700
def FILE_MODE := 0o600

def configJson : RelPath := ["config.json"]

structure ConfigFile where
  ino : Nat
  mode : Nat
  bytes : Bytes
  deriving DecidableEq, Repr

inductive ConfigEntry where
  | file (file : ConfigFile)
  | directory
  | other
  deriving DecidableEq, Repr

/-- A directory on the device of `identity`; a new file gets an inode that none of its files has. -/
structure ItemDir where
  identity : DirectoryIdentity
  mode : Nat
  entries : RelPath → Option ConfigEntry
  nextIno : Nat
  below : ∀ path file, entries path = some (.file file) → file.ino < nextIno

namespace ItemDir

def empty (identity : DirectoryIdentity) : ItemDir :=
  ⟨identity, DIRECTORY_MODE, fun _ => none, 0, fun _ _ h => nomatch h⟩

variable (dir : ItemDir)

def isDirectory (path : RelPath) : Bool := dir.entries path == some .directory

def file? (path : RelPath) : Option ConfigFile :=
  match dir.entries path with
  | some (.file file) => some file
  | _ => none

def read (path : RelPath) : Option Bytes := (dir.file? path).map ConfigFile.bytes

def setMode (mode : Nat) : ItemDir := { dir with mode }

def create (path : RelPath) : ItemDir where
  identity := dir.identity
  mode := dir.mode
  entries := fun p => if p = path then some (.file ⟨dir.nextIno, FILE_MODE, []⟩) else dir.entries p
  nextIno := dir.nextIno + 1
  below := by
    intro p file h
    split at h
    · cases h
      exact Nat.lt_succ_self _
    · exact Nat.lt_succ_of_lt (dir.below p file h)

/-- A change of a file that keeps its inode. -/
def change (path : RelPath) (mode : Nat → Nat) (bytes : Bytes → Bytes) : ItemDir where
  identity := dir.identity
  mode := dir.mode
  entries := fun p =>
    match dir.entries p with
    | some (.file file) =>
      if p = path then some (.file ⟨file.ino, mode file.mode, bytes file.bytes⟩)
      else some (.file file)
    | entry => entry
  nextIno := dir.nextIno
  below := by
    intro p file h
    split at h
    · next old hold =>
      have hlt := dir.below p old hold
      split at h <;> (cases h; exact hlt)
    · exact dir.below p file h

def remove (path : RelPath) : ItemDir where
  identity := dir.identity
  mode := dir.mode
  entries := fun p => if p = path then none else dir.entries p
  nextIno := dir.nextIno
  below := by
    intro p file h
    split at h
    · exact nomatch h
    · exact dir.below p file h

def rename (source target : RelPath) : ItemDir where
  identity := dir.identity
  mode := dir.mode
  entries := fun p =>
    if p = target then dir.entries source else if p = source then none else dir.entries p
  nextIno := dir.nextIno
  below := by
    intro p file h
    split at h
    · exact dir.below source file h
    · split at h
      · exact nomatch h
      · exact dir.below p file h

theorem entries_create {path p : RelPath} : (dir.create path).entries p =
    if p = path then some (.file ⟨dir.nextIno, FILE_MODE, []⟩) else dir.entries p := rfl

theorem file?_create_self {path : RelPath} :
    (dir.create path).file? path = some ⟨dir.nextIno, FILE_MODE, []⟩ := by
  simp [file?, entries_create]

theorem entries_change_of_ne {path p : RelPath} {mode : Nat → Nat} {bytes : Bytes → Bytes}
    (h : p ≠ path) : (dir.change path mode bytes).entries p = dir.entries p := by
  simp only [change, if_neg h]
  split
  · next heq => rw [heq]
  · rfl

theorem entries_change_eq_none {path p : RelPath} {mode : Nat → Nat} {bytes : Bytes → Bytes} :
    (dir.change path mode bytes).entries p = none ↔ dir.entries p = none := by
  simp only [change]
  split
  · next heq =>
    rw [heq]
    split <;> simp
  · exact Iff.rfl

theorem entries_of_file? {path : RelPath} {file : ConfigFile} (h : dir.file? path = some file) :
    dir.entries path = some (.file file) := by
  unfold file? at h
  split at h
  · next old heq => rw [heq, Option.some.inj h]
  · exact nomatch h

theorem file?_change_self {path : RelPath} {mode : Nat → Nat} {bytes : Bytes → Bytes}
    {file : ConfigFile} (h : dir.file? path = some file) :
    (dir.change path mode bytes).file? path =
      some ⟨file.ino, mode file.mode, bytes file.bytes⟩ := by
  simp [file?, change, dir.entries_of_file? h]

theorem entries_rename {source target p : RelPath} : (dir.rename source target).entries p =
    if p = target then dir.entries source else if p = source then none else dir.entries p := rfl

theorem entries_remove {path p : RelPath} :
    (dir.remove path).entries p = if p = path then none else dir.entries p := rfl

theorem ino_lt {path : RelPath} {file : ConfigFile} (h : dir.file? path = some file) :
    file.ino < dir.nextIno := dir.below path file (dir.entries_of_file? h)

end ItemDir

inductive ItemNode where
  | dir (dir : ItemDir)
  | other

/-- `.provision-config-*`: the downloaded archive and what was extracted from it. -/
structure Staging where
  archive : Option Bytes
  extracted : Option (List (String × ConfigEntry))
  deriving DecidableEq, Repr

def ItemNode.dir? : Option ItemNode → Option ItemDir
  | some (.dir d) => some d
  | _ => none

def ItemNode.mapDir (f : ItemDir → ItemDir) : Option ItemNode → Option ItemNode
  | some (.dir d) => some (.dir (f d))
  | item => item

structure Disk where
  staging : Option Staging
  item : Option ItemNode

def Disk.dir? (disk : Disk) : Option ItemDir := ItemNode.dir? disk.item

def Disk.mapDir (disk : Disk) (f : ItemDir → ItemDir) : Disk :=
  { disk with item := ItemNode.mapDir f disk.item }

/-! ## The world of one run -/

/-- The system calls of `installConfig`, in the order of the source. -/
inductive Call where
  | download
  | mkdirConfigDir
  | mkdtemp
  | chmodStaging
  | writeArchive
  | listArchive
  | mkdirExtracted
  | extract
  | unlinkArchive
  | auditExtracted
  | chmodExtracted
  | lstatTarget
  | mkdirTarget
  | openTarget
  | lstatConfig
  | openCandidate
  | checkTarget
  | statCandidate
  | saveState
  | writeCandidate
  | secureCandidate
  | statTarget
  | chmodTarget
  | syncTarget
  | renameCandidate
  | removeStale
  | truncateCandidate
  | syncCandidate
  | rmStaging
  deriving DecidableEq, Repr

/-- What happens in one system call; one that fails may have done part of its work. -/
structure Turn where
  fault : Option Fault
  done : Nat
  deriving DecidableEq, Repr

def calm : Turn := ⟨none, 0⟩

/-- A call that was made, and whether the staging directory was there. -/
structure Taken where
  call : Call
  fault : Option Fault
  staged : Bool
  deriving DecidableEq, Repr

/-- The process is not killed while the staging directory is there, and the calls that erase do
not fail. -/
def Taken.Gentle (taken : Taken) : Prop :=
  match taken.fault with
  | none => True
  | some .killed => taken.staged = false
  | some (.fails _) => taken.call ≠ .rmStaging ∧ taken.call ≠ .truncateCandidate

instance : DecidablePred Taken.Gentle := fun taken => by
  unfold Taken.Gentle
  split <;> infer_instance

/-- How far the publication of the candidate has come since its journal was saved. -/
inductive Stage where
  | unsaved
  | reserved (secured : Bool)
  | published (removed : List RelPath)
  deriving DecidableEq, Repr

/-- `ConfigCandidateJournal`. -/
structure ConfigCandidateJournal where
  targetIdentity : DirectoryIdentity
  candidate : InstalledFileIdentity
  deriving DecidableEq, Repr

structure World where
  disk : Disk
  turns : List Turn
  /-- The lockfile's record of the item. -/
  record : Option InstalledRecord
  /-- The journal of the candidate, while `candidateOwned`. -/
  owned : Option ConfigCandidateJournal
  stage : Stage
  trace : List Taken

/-- The world before a run: no staging directory of it, and the item's stable record. -/
def World.start (item : Option ItemNode) (turns : List Turn) (previous : Option InstalledSnapshot) :
    World :=
  ⟨⟨none, item⟩, turns, previous.map .ofSnapshot, none, .unsaved, []⟩

abbrev Sys (α : Type) := Prog World Error α

namespace Sys

def turn (call : Call) : Sys Turn := fun w =>
  match w.turns with
  | [] => (.ok calm, { w with trace := w.trace ++ [⟨call, none, w.disk.staging.isSome⟩] })
  | t :: ts => (.ok t,
      { w with turns := ts, trace := w.trace ++ [⟨call, t.fault, w.disk.staging.isSome⟩] })

def faulty : Option Fault → Sys Unit
  | none => pure ()
  | some (.fails code) => throw (.errno code)
  | some .killed => die

def call (c : Call) : Sys Unit := do
  let t ← turn c
  faulty t.fault

def setDisk (f : Disk → Disk) : Sys Unit := modify fun w => { w with disk := f w.disk }

def setStaging (f : Staging → Staging) : Sys Unit :=
  setDisk fun disk => { disk with staging := disk.staging.map f }

def setDir (f : ItemDir → ItemDir) : Sys Unit := setDisk fun disk => disk.mapDir f

def setStage (stage : Stage) : Sys Unit := modify fun w => { w with stage }

def setOwned (owned : Option ConfigCandidateJournal) : Sys Unit := modify fun w => { w with owned }

end Sys

end CliProxy.ConfigInstaller
