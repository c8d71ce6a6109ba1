import CliProxy.Lib.FileTree
import CliProxy.Lib.Prog
import CliProxy.Lib.Text

/-! # Discovery roots

`skillLinkDirs` of `src/provision/sync.ts`: the directories in which skills are published as links.
A root that is not there yet is compared with the others by making its names in a probe directory
and looking them up. -/

namespace CliProxy.Provision.Roots

open Lib Lib.Prog

abbrev Name := List Char

abbrev Path := TreePath Name

inductive Failure where
  | errno (e : Errno)
  | provision (message : List Char) (code : String)
  deriving DecidableEq, Repr

/-- What the functions below depend on besides the tree. -/
structure Host (Key : Type) where
  /-- Two names with one key are one name for the file system. -/
  lookupKey : Name → Key
  /-- `collator.compare(left, right) === 0` -/
  collate : Name → Name → Bool
  /-- `randomBytes(16).toString("hex")` for each probe. -/
  nonce : Nat → Name
  /-- Why a directory cannot be made, other than for what the tree holds. -/
  refuse : FileTree Name → Path → Option Errno
  /-- How many symbolic links a path may lead through. -/
  links : Nat

structure World where
  tree : FileTree Name
  probes : Nat

/-! ## Paths as texts -/

def resolveSegment (path : Path) (segment : Name) : Path :=
  if segment.isEmpty || segment = ['.'] then path
  else if segment = ['.', '.'] then path.dropLast
  else path ++ [segment]

/-- `path.resolve(text)` -/
def resolvePath (cwd : Path) (text : List Char) : Path :=
  (text.splitOn '/').foldl resolveSegment (if text.head? = some '/' then [] else cwd)

/-- `path.join(base, ...names)` up to what `path.resolve` takes out again. -/
def joinPath (base : List Char) (names : Path) : List Char :=
  ['/'].intercalate ((base :: names).filter (!·.isEmpty))

def pathText (path : Path) : List Char :=
  if path.isEmpty then ['/'] else path.flatMap ('/' :: ·)

/-! ## Reading the tree -/

section

variable {Key : Type} [DecidableEq Key] (H : Host Key) (content : TreeContent Name)

def existingRealPath (candidate : Path) : Except Errno (Option Path) :=
  match realpath H.lookupKey content H.links candidate with
  | .ok real => .ok (some real)
  | .error e => if e = .ENOENT then .ok none else .error e

/-- The loop of the next two functions. The names of `ancestor` come last name first; `suffix` are
the names after it. -/
def nearestExisting : (ancestor suffix : Path) → Except Errno (Option Path × Path)
  | [], suffix => (existingRealPath H content []).map fun real => (real, suffix)
  | name :: parent, suffix => do
    match ← existingRealPath H content (name :: parent).reverse with
    | some real => .ok (some real, suffix)
    | none => nearestExisting parent (name :: suffix)

def resolvedPathThroughExistingAncestor (candidate : Path) : Except Errno Path :=
  (nearestExisting H content candidate.reverse []).map fun r =>
    match r.1 with
    | some real => real ++ r.2
    | none => candidate

structure ExistingPathAnchor where
  path : Path
  suffix : Path
  ino : Nat
  deriving DecidableEq, Repr

def existingPathAnchor (candidate : Path) : Except Errno ExistingPathAnchor := do
  let (real, suffix) ← nearestExisting H content candidate.reverse []
  let path := real.getD []
  let ino ← lstat H.lookupKey content H.links path
  return ⟨path, suffix, ino⟩

def sameAnchorIdentity (left right : ExistingPathAnchor) : Bool := left.ino = right.ino

def shorter (left right : Path) : Path := if left.length ≤ right.length then left else right

def longer (left right : Path) : Path := if left.length ≤ right.length then right else left

def partsOverlap (same : Name → Name → Bool) (leftParts rightParts : Path) : Bool :=
  ((shorter leftParts rightParts).zip (longer leftParts rightParts)).all fun p => same p.1 p.2

def pathPartsMayOverlapByLookupSemantics (leftParts rightParts : Path) : Bool :=
  partsOverlap H.collate leftParts rightParts

def exactPartsOverlap (leftParts rightParts : Path) : Bool :=
  partsOverlap (fun left right => left = right) leftParts rightParts

/-- The loop over `cursor` and its parents; the names come last name first. -/
def containsIdentity (ino : Nat) : (cursor : Path) → Except Errno Bool
  | [] => (lstat H.lookupKey content H.links []).map fun found => found = ino
  | name :: parent => do
    let found ← lstat H.lookupKey content H.links (name :: parent).reverse
    if found = ino then .ok true else containsIdentity ino parent

def existingTreeContainsIdentity (ancestor descendant : ExistingPathAnchor) :
    Except Errno Bool :=
  if 0 < ancestor.suffix.length then .ok false
  else containsIdentity H content ancestor.ino descendant.path.reverse

end

/-! ## Probing the tree -/

section

variable {Key : Type} [DecidableEq Key] (H : Host Key)

def read {α : Type} (f : TreeContent Name → Except Errno α) : Prog World Failure α := do
  let w ← Prog.get
  Prog.ofExcept ((f w.tree.content).mapError .errno)

def mkdirSync (path : Path) : Prog World Failure Unit := do
  let w ← Prog.get
  match H.refuse w.tree path with
  | some e => Prog.throw (.errno e)
  | none =>
    let tree ← Prog.ofExcept ((w.tree.mkdir H.lookupKey H.links path).mapError .errno)
    Prog.modify fun w => { w with tree }

def rmdirSync (path : Path) : Prog World Failure Unit := do
  let w ← Prog.get
  let tree ← Prog.ofExcept ((w.tree.rmdir H.lookupKey H.links path).mapError .errno)
  Prog.modify fun w => { w with tree }

def rmdirEach : List Path → Prog World Failure Unit
  | [] => pure ()
  | path :: paths => do
    rmdirSync H path
    rmdirEach paths

/-- The loop over the components: what was created in addition to `created`, and the exception that
ended the loop. -/
def makeComponents (created : List Path) (createdPath : Path) :
    Path → Prog World Failure (List Path × Option Failure)
  | [] => pure (created, none)
  | component :: components => do
    match ← Prog.attempt (mkdirSync H (createdPath ++ [component])) with
    | .error e => pure (created, some e)
    | .ok () =>
      makeComponents (created ++ [createdPath ++ [component]]) (createdPath ++ [component]) components

/-- The rest of the block: whether both paths name one directory. -/
def compareProbes (createdPath alternatePath : Path) : Option Failure → Prog World Failure Bool
  | some e => Prog.throw e
  | none =>
    Prog.tryCatch (do
      let created ← read fun content => lstat H.lookupKey content H.links createdPath
      let alternate ← read fun content => lstat H.lookupKey content H.links alternatePath
      return created = alternate)
      fun e => if e = .errno .ENOENT then pure false else Prog.throw e

def nextNonce : Prog World Failure Name := do
  let w ← Prog.get
  Prog.modify fun w => { w with probes := w.probes + 1 }
  return H.nonce w.probes

def anchoredSuffixesOverlapByFilesystemLookup (anchor : ExistingPathAnchor)
    (leftSuffix rightSuffix : Path) : Prog World Failure Bool :=
  if exactPartsOverlap leftSuffix rightSuffix then pure true
  else if !pathPartsMayOverlapByLookupSemantics H leftSuffix rightSuffix then pure false
  else do
    let short := shorter leftSuffix rightSuffix
    let long := longer leftSuffix rightSuffix
    let nonce ← nextNonce H
    let probeRoot := anchor.path ++ [".provision-lookup-".toList ++ nonce]
    mkdirSync H probeRoot
    let made ← makeComponents H [probeRoot] probeRoot short
    Prog.tryFinally
      (compareProbes H (probeRoot ++ short) (probeRoot ++ long.take short.length) made.2)
      (rmdirEach H made.1.reverse)

def pathsOverlapByFilesystemLookup (left right : Path) : Prog World Failure Bool := do
  let leftAnchor ← read fun content => existingPathAnchor H content left
  let rightAnchor ← read fun content => existingPathAnchor H content right
  if sameAnchorIdentity leftAnchor rightAnchor then
    anchoredSuffixesOverlapByFilesystemLookup H leftAnchor leftAnchor.suffix rightAnchor.suffix
  else do
    let inside ← read fun content => existingTreeContainsIdentity H content leftAnchor rightAnchor
    if inside then return true
    else read fun content => existingTreeContainsIdentity H content rightAnchor leftAnchor

/-! ## The configured roots -/

def assertDiscoveryRootOutsideCanonical (entry canonical : Path) : Prog World Failure Unit := do
  let resolved ← read fun content => resolvedPathThroughExistingAncestor H content entry
  let resolvedCanonical ← read fun content => resolvedPathThroughExistingAncestor H content canonical
  let overlaps ← pathsOverlapByFilesystemLookup H resolved resolvedCanonical
  Prog.throwIf overlaps (.provision
    ("Skill discovery root \"".toList ++ pathText entry ++
      "\" overlaps canonical skills directory \"".toList ++ pathText canonical ++ "\"".toList)
    "untracked_content")

/-- The loop over `seenResolvedPaths`: `resolved` is one of them. -/
def alreadySeen (resolved : Path) : List Path → Prog World Failure Bool
  | [] => pure false
  | seen :: rest =>
    if seen = resolved then pure true
    else if seen.length = resolved.length then do
      let overlaps ← pathsOverlapByFilesystemLookup H seen resolved
      if overlaps then pure true else alreadySeen resolved rest
    else alreadySeen resolved rest

/-- The test of the filter: the resolved path of an entry that is kept. -/
def keepsEntry (canonical resolvedCanonical : Path) (seenResolvedPaths : List Path)
    (entry : Path) : Prog World Failure (Option Path) :=
  if entry = canonical then pure none
  else do
    let resolved ← read fun content => resolvedPathThroughExistingAncestor H content entry
    if resolved = resolvedCanonical then pure none
    else do
      assertDiscoveryRootOutsideCanonical H entry canonical
      let seen ← alreadySeen H resolved seenResolvedPaths
      if seen then pure none else pure (some resolved)

def filterEntries (canonical resolvedCanonical : Path) :
    (seenResolvedPaths entries : List Path) → Prog World Failure (List Path)
  | _, [] => pure []
  | seenResolvedPaths, entry :: entries => do
    match ← keepsEntry H canonical resolvedCanonical seenResolvedPaths entry with
    | none => filterEntries canonical resolvedCanonical seenResolvedPaths entries
    | some resolved => do
      let kept ← filterEntries canonical resolvedCanonical (seenResolvedPaths ++ [resolved]) entries
      return entry :: kept

/-- A scoped workspace; an undefined directory is empty. -/
structure ScopedWorkspace where
  root : List Char
  skillsDir : List Char

/-- The workspace and the environment variables that name the directories. -/
structure Settings where
  workspace : Option ScopedWorkspace
  PROVISION_SKILLS_DIR : Option (List Char)
  PROVISION_SKILL_LINK_DIRS : Option (List Char)
  homedir : List Char
  cwd : Path

def orElse (text default : List Char) : List Char := if text.isEmpty then default else text

def Settings.skillsDir (s : Settings) : List Char :=
  let unscoped := orElse (trim (s.PROVISION_SKILLS_DIR.getD []))
    (joinPath s.homedir [".agents".toList, "skills".toList])
  match s.workspace with
  | some workspace => orElse workspace.skillsDir unscoped
  | none => unscoped

def Settings.entries (s : Settings) : List (List Char) :=
  let byDefault (root : List Char) := [joinPath root [".claude".toList, "skills".toList]]
  match s.workspace with
  | some workspace => byDefault (orElse workspace.root s.homedir)
  | none =>
    match s.PROVISION_SKILL_LINK_DIRS with
    | some configured => ((configured.splitOn ',').map trim).filter (!·.isEmpty)
    | none => byDefault s.homedir

def Settings.canonical (s : Settings) : Path := resolvePath s.cwd s.skillsDir

/-- `[...new Set(entries.map((entry) => path.resolve(entry)))]` -/
def Settings.configured (s : Settings) : List Path := (s.entries.map (resolvePath s.cwd)).eraseDups

def skillLinkDirs (s : Settings) : Prog World Failure (List Path) := do
  let resolvedCanonical ←
    read fun content => resolvedPathThroughExistingAncestor H content s.canonical
  filterEntries H s.canonical resolvedCanonical [resolvedCanonical] s.configured

end

end CliProxy.Provision.Roots
