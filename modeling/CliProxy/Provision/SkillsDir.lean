import CliProxy.Lib.Prog
import CliProxy.Provision.Records

/-! # The skill directories and their file-system calls

What `src/provision/installer.ts` reads and changes on disk. A directory maps names to entries;
a skill is one tree below it. Another process acts between any two calls of the program, so
every call first takes a *turn*: that process changes the directory as it likes, and the call
then goes through, fails, or is where the process is killed. -/

namespace CliProxy.Installer

open Lib Lib.Prog Provision

/-- A file inode with its contents. -/
structure Inode where
  ino : Nat
  bytes : Bytes
  deriving DecidableEq, Repr

inductive Entry where
  | file (inode : Inode)
  | directory
  | symlink
  | other
  deriving DecidableEq, Repr

/-- A directory tree, its entries in the order of the walks of the source: every directory
comes before what is in it. -/
structure Tree where
  identity : DirectoryIdentity
  entries : List (RelPath × Entry)
  deriving DecidableEq, Repr

inductive Node where
  | tree (tree : Tree)
  | file (inode : Inode)
  | other
  deriving DecidableEq, Repr

/-- A name directly below a skills directory. -/
structure Place where
  root : String
  name : String
  deriving DecidableEq, Repr

def Place.path (place : Place) : String := place.root ++ "/" ++ place.name

abbrev Dir := Place → Option Node

def Entry.inode? : Entry → Option Inode
  | .file inode => some inode
  | _ => none

def Tree.inodes (t : Tree) : List Inode := t.entries.filterMap fun entry => entry.2.inode?

def Node.inodes : Node → List Inode
  | .tree t => t.inodes
  | .file inode => [inode]
  | .other => []

/-! ## The world -/

abbrev Entries := List (RelPath × Entry)

/-- What happens around one system call. -/
structure Turn where
  /-- What the other process does before the call. -/
  act : Dir → Dir
  fault : Option Fault
  /-- What a walk sees while the other process acts under it, and what a call that fails
  halfway leaves behind. -/
  sight : Option Entries

def calm : Turn := ⟨id, none, none⟩

/-- The local variables of `installSkill` that its `finally` block reads. -/
structure Frame where
  preserveCandidate : Bool
  candidateExposed : Bool
  rejectedCandidateIsolated : Bool
  deriving DecidableEq, Repr

def Frame.fresh : Frame := ⟨false, false, false⟩

/-- What the program itself does to the directory. -/
inductive Act where
  | make (place : Place) (replaced : Option Node)
  | fill (place : Place) (own : Option Place)
  | discard (place : Place) (own : Option Place)
  | move (source target : Place) (moved : Node) (replaced : Option Node)
  /-- The tree moved aside to `previous` is found to hold what the record does not own. -/
  | refuse (previous : Place)
  deriving DecidableEq, Repr

structure World (σ : Type) where
  dir : Dir
  turns : List Turn
  /-- The state of the caller: its lockfile. -/
  caller : σ
  frame : Frame
  /-- The candidate directory of this run, while it is unexposed. -/
  own : Option Place
  /-- The files that nobody but the other process may remove, by the directory they are in. -/
  owed : String → Inode → Prop
  log : List Act

/-- The file is below the skills directory `root`, and not in the unexposed candidate. -/
def Stored (dir : Dir) (own : Option Place) (root : String) (inode : Inode) : Prop :=
  ∃ name node, own ≠ some ⟨root, name⟩ ∧ dir ⟨root, name⟩ = some node ∧ inode ∈ node.inodes

namespace World

variable {σ : Type}

/-- A world in which every file is owed. -/
def start (dir : Dir) (turns : List Turn) (caller : σ) : World σ :=
  ⟨dir, turns, caller, .fresh, none, Stored dir none, []⟩

/-- The other process acts, though not on the unexposed candidate. What it leaves behind is
owed; what it removes no longer is. -/
def meet (w : World σ) (act : Dir → Dir) : World σ :=
  let dir := fun place => if w.own = some place then w.dir place else act w.dir place
  { w with
    dir
    owed := fun root inode =>
      Stored dir w.own root inode ∨ w.owed root inode ∧ ¬Stored w.dir w.own root inode }

def record (w : World σ) (act : Act) : World σ := { w with log := w.log ++ [act] }

def put (w : World σ) (place : Place) (node : Option Node) : World σ :=
  { w with dir := fun p => if p = place then node else w.dir p }

/-- A candidate that moves is exposed from then on. -/
def move (w : World σ) (source target : Place) (node : Node) : World σ :=
  let w' := (w.put source none).put target (some node)
  { w' with own := if w.own = some source then none else w.own }.record
    (.move source target node (w.dir target))

end World

abbrev Sys (σ α : Type) := Prog (World σ) Error α

namespace Sys

variable {σ : Type}

def turn : Sys σ Turn := fun w =>
  match w.turns with
  | [] => (.ok calm, w.meet calm.act)
  | t :: ts => (.ok t, { w with turns := ts }.meet t.act)

/-- The fault of a turn, for a call that does nothing when it fails. -/
def faulty : Option Fault → Sys σ Unit
  | none => pure ()
  | some (.fails code) => throw (.errno code)
  | some .killed => die

def call : Sys σ Turn := do
  let t ← turn
  faulty t.fault
  pure t

def lstat (place : Place) : Sys σ (Option Node) := do
  let _ ← call
  let w ← get
  pure (w.dir place)

/-- `readdirSync`, `lstatSync` and `readFileSync` over a whole tree. -/
def walk (place : Place) : Sys σ Entries := do
  let t ← call
  let w ← get
  match w.dir place, t.sight, w.own == some place with
  | _, some seen, false => pure seen
  | some (.tree tree), _, _ => pure tree.entries
  | some _, _, _ => throw (.errno "ENOTDIR")
  | none, _, _ => throw (.errno "ENOENT")

/-- `mkdirSync` of the candidate. -/
def mkdirCandidate (place : Place) (identity : DirectoryIdentity) : Sys σ Unit := do
  let _ ← call
  let w ← get
  throwIf (w.dir place).isSome (.errno "EEXIST")
  modify fun w =>
    { (w.put place (some (.tree ⟨identity, []⟩))).record (.make place (w.dir place)) with
      own := some place }

/-- A change of the files in the candidate; one that fails leaves some of its work. -/
def fillCandidate (place : Place) (change : Entries → Except Error Entries) : Sys σ Unit := do
  let t ← turn
  let w ← get
  match w.dir place with
  | some (.tree tree) =>
    let fill (entries : Entries) : Sys σ Unit := modify fun w =>
      (w.put place (some (.tree { tree with entries }))).record (.fill place w.own)
    match t.fault with
    | none =>
      let entries ← ofExcept (change tree.entries)
      fill entries
    | some fault =>
      fill (t.sight.getD tree.entries)
      faulty (some fault)
  | some _ => throw (.errno "ENOTDIR")
  | none => throw (.errno "ENOENT")

/-- `rmSync(candidate, { recursive: true, force: true })`. -/
def rmCandidate (place : Place) : Sys σ Unit := do
  let t ← turn
  match t.fault with
  | none => modify fun w =>
      { (w.put place none).record (.discard place w.own) with
        own := if w.own = some place then none else w.own }
  | some fault =>
    modify fun w =>
      match w.dir place, t.sight with
      | some (.tree tree), some entries =>
        (w.put place (some (.tree { tree with entries }))).record (.discard place w.own)
      | _, _ => w
    faulty (some fault)

/-- `renameDirectoryNoReplace`: the native rename of a sibling that never overwrites. -/
def renameDirectoryNoReplace (source target : Place) : Sys σ Bool := do
  throwIf (source.root != target.root)
    (.provision "Atomic no-replace rename requires sibling paths" "atomic_rename_unavailable")
  let _ ← call
  let w ← get
  match w.dir source, w.dir target with
  | none, _ => throw (.errno "ENOENT")
  | some _, some _ => pure false
  | some node, none => do
    modify fun w => w.move source target node
    pure true

end Sys

end CliProxy.Installer
