import Mathlib.Data.List.Basic
import Mathlib.Logic.Function.Basic

/-! # Directory trees

A tree of directories, files and symbolic links, and what the file-system calls answer for a path.
Names are looked up through `fold`: two names with one key denote the same entry of a directory. -/

namespace CliProxy.Lib

/-- The names from the root. -/
abbrev TreePath (Name : Type) := List Name

inductive Errno where
  | EEXIST
  | ELOOP
  | ENOENT
  | ENOTDIR
  | ENOTEMPTY
  | other (code : String)
  deriving DecidableEq, Repr

/-- The text of a symbolic link; a relative one starts with `up` times `..`. -/
inductive LinkTarget (Name : Type) where
  | absolute (path : TreePath Name)
  | relative (up : Nat) (path : TreePath Name)
  deriving DecidableEq, Repr

def LinkTarget.fromDir {Name : Type} (dir : TreePath Name) : LinkTarget Name → TreePath Name
  | .absolute path => path
  | .relative up path => dir.take (dir.length - up) ++ path

/-- The number stands for the device and the inode number. -/
inductive TreeEntry (Name : Type) where
  | directory (ino : Nat)
  | file (ino : Nat)
  | link (ino : Nat) (target : LinkTarget Name)
  deriving DecidableEq, Repr

def TreeEntry.ino {Name : Type} : TreeEntry Name → Nat
  | .directory ino | .file ino | .link ino _ => ino

/-- The entries of each directory. -/
abbrev TreeContent (Name : Type) := Nat → List (Name × TreeEntry Name)

/-- No inode number from `fresh` on is in use. -/
structure FileTree (Name : Type) where
  content : TreeContent Name
  fresh : Nat
  known : ∀ dir, ∀ e ∈ content dir, e.2.ino < fresh
  vacant : ∀ dir, fresh ≤ dir → content dir = []

/-- A directory or a file that was reached from the root: the names on the way, its inode number
and those of the directories above it, the nearest first. -/
structure Place (Name : Type) where
  real : TreePath Name
  ino : Nat
  above : List Nat
  deriving DecidableEq, Repr

namespace Place

variable {Name : Type}

def root : Place Name := ⟨[], 0, []⟩

def enter (here : Place Name) (name : Name) (ino : Nat) : Place Name :=
  ⟨here.real ++ [name], ino, here.ino :: here.above⟩

end Place

/-- Where a path leads: what exists of it, and the names after that. -/
structure Location (Name : Type) where
  place : Place Name
  isFile : Bool
  missing : TreePath Name
  deriving DecidableEq, Repr

namespace Location

variable {Name Key : Type}

def path (l : Location Name) : TreePath Name := l.place.real ++ l.missing

def depth (l : Location Name) : Nat := l.path.length

/-- `l'` is `l` or below `l`: what exists of `l'` is in the directory `l`, or both start at one
directory and the names that follow there are looked up alike. -/
def Contains (fold : Name → Key) (l l' : Location Name) : Prop :=
  l.missing = [] ∧ l.place.ino ∈ l'.place.ino :: l'.place.above ∨
    l.place.ino = l'.place.ino ∧ l.missing.map fold <+: l'.missing.map fold

/-- Both denote one directory. -/
def Same (fold : Name → Key) (l l' : Location Name) : Prop :=
  l.place.ino = l'.place.ino ∧ l.missing.map fold = l'.missing.map fold

theorem Same.contains {fold : Name → Key} {l l' : Location Name} (h : l.Same fold l') :
    l.Contains fold l' :=
  .inr ⟨h.1, h.2 ▸ List.prefix_refl _⟩

end Location

section

variable {Name Key : Type} [DecidableEq Key] (fold : Name → Key) (content : TreeContent Name)

def findEntry (dir : Nat) (name : Name) : Option (TreeEntry Name) :=
  ((content dir).find? fun e => fold e.1 = fold name).map (·.2)

/-- Where the names lead without following a link. -/
inductive Stop (Name : Type) where
  | ends (location : Location Name)
  | notDirectory
  | link (here : Place Name) (ino : Nat) (target : LinkTarget Name) (rest : TreePath Name)
  deriving DecidableEq, Repr

def walk : Place Name → TreePath Name → Stop Name
  | here, [] => .ends ⟨here, false, []⟩
  | here, name :: rest =>
    match findEntry fold content here.ino name with
    | none => .ends ⟨here, false, name :: rest⟩
    | some (.directory ino) => walk (here.enter name ino) rest
    | some (.file ino) =>
      if rest.isEmpty then .ends ⟨here.enter name ino, true, []⟩ else .notDirectory
    | some (.link ino target) => .link here ino target rest

/-- Where a path leads; `links` bounds the links on the way. -/
def locate : Nat → TreePath Name → Except Errno (Location Name)
  | 0, _ => .error .ELOOP
  | links + 1, path =>
    match walk fold content .root path with
    | .ends location => .ok location
    | .notDirectory => .error .ENOTDIR
    | .link here _ target rest => locate links (target.fromDir here.real ++ rest)

/-- The inode number of what a path names; a link at its end is not followed. -/
def lstat : Nat → TreePath Name → Except Errno Nat
  | 0, _ => .error .ELOOP
  | links + 1, path =>
    match walk fold content .root path with
    | .ends location => if location.missing.isEmpty then .ok location.place.ino else .error .ENOENT
    | .notDirectory => .error .ENOTDIR
    | .link here ino target rest =>
      if rest.isEmpty then .ok ino else lstat links (target.fromDir here.real ++ rest)

def realpath (links : Nat) (path : TreePath Name) : Except Errno (TreePath Name) :=
  match locate fold content links path with
  | .error e => .error e
  | .ok location =>
    if location.missing.isEmpty then .ok location.place.real else .error .ENOENT

/-- The directory that a path names. -/
def directoryAt (links : Nat) (path : TreePath Name) : Except Errno Nat :=
  match locate fold content links path with
  | .error e => .error e
  | .ok location =>
    if !location.missing.isEmpty then .error .ENOENT
    else if location.isFile then .error .ENOTDIR
    else .ok location.place.ino

end

namespace FileTree

variable {Name Key : Type} [DecidableEq Key] (fold : Name → Key)

/-- A directory is added under an inode number that nothing has. -/
def addDirectory (t : FileTree Name) (dir : Nat) (name : Name) : FileTree Name where
  content := Function.update t.content dir
    (t.content dir ++ [(name, .directory (max t.fresh (dir + 1)))])
  fresh := max t.fresh (dir + 1) + 1
  known d e he := by
    have hknown : ∀ e ∈ t.content d, e.2.ino < max t.fresh (dir + 1) + 1 := fun e he => by
      have := t.known d e he
      omega
    by_cases hd : d = dir
    · rw [hd, Function.update_self, List.mem_append, List.mem_singleton] at he
      rcases he with he | he
      · exact hknown e (hd ▸ he)
      · rw [he]
        exact Nat.lt_succ_self _
    · rw [Function.update_of_ne hd] at he
      exact hknown e he
  vacant d hd := by
    rw [Function.update_of_ne (by omega)]
    exact t.vacant d (by omega)

def removeEntry (t : FileTree Name) (dir : Nat) (name : Name) : FileTree Name where
  content := Function.update t.content dir ((t.content dir).eraseP fun e => fold e.1 = fold name)
  fresh := t.fresh
  known d e he := by
    by_cases hd : d = dir
    · rw [hd, Function.update_self] at he
      exact t.known dir e (List.mem_of_mem_eraseP he)
    · rw [Function.update_of_ne hd] at he
      exact t.known d e he
  vacant d hd := by
    by_cases hdir : d = dir
    · rw [hdir, Function.update_self, t.vacant dir (hdir ▸ hd)]
      rfl
    · rw [Function.update_of_ne hdir]
      exact t.vacant d hd

variable (links : Nat)

def mkdir (t : FileTree Name) (path : TreePath Name) : Except Errno (FileTree Name) :=
  match path.getLast? with
  | none => .error .EEXIST
  | some name =>
    match directoryAt fold t.content links path.dropLast with
    | .error e => .error e
    | .ok dir =>
      if (findEntry fold t.content dir name).isSome then .error .EEXIST
      else .ok (t.addDirectory dir name)

def rmdir (t : FileTree Name) (path : TreePath Name) : Except Errno (FileTree Name) :=
  match path.getLast? with
  | none => .error (.other "EBUSY")
  | some name =>
    match directoryAt fold t.content links path.dropLast with
    | .error e => .error e
    | .ok dir =>
      match findEntry fold t.content dir name with
      | none => .error .ENOENT
      | some (.directory ino) =>
        if (t.content ino).isEmpty then .ok (t.removeEntry fold dir name) else .error .ENOTEMPTY
      | some _ => .error .ENOTDIR

end FileTree

section

variable {Name Key : Type} [DecidableEq Key] {fold : Name → Key} {content : TreeContent Name}
  {links : Nat} {here there : Place Name} {path rest : TreePath Name} {name : Name}
  {location : Location Name}

/-! ## Following names -/

theorem findEntry_congr {dir : Nat} {name' : Name} (h : fold name = fold name') :
    findEntry fold content dir name = findEntry fold content dir name' := by
  rw [findEntry, findEntry, h]

theorem walk_missing (h : findEntry fold content here.ino name = none) :
    walk fold content here (name :: rest) = .ends ⟨here, false, name :: rest⟩ := by
  rw [walk, h]

theorem walk_directory {ino : Nat} (h : findEntry fold content here.ino name = some (.directory ino)) :
    walk fold content here (name :: rest) = walk fold content (here.enter name ino) rest := by
  rw [walk, h]

theorem walk_file {ino : Nat} (h : findEntry fold content here.ino name = some (.file ino)) :
    walk fold content here (name :: rest) =
      if rest.isEmpty then .ends ⟨here.enter name ino, true, []⟩ else .notDirectory := by
  rw [walk, h]

theorem walk_link {ino : Nat} {target : LinkTarget Name}
    (h : findEntry fold content here.ino name = some (.link ino target)) :
    walk fold content here (name :: rest) = .link here ino target rest := by
  rw [walk, h]

theorem walk_append (h : walk fold content here path = .ends ⟨there, false, []⟩) :
    walk fold content here (path ++ rest) = walk fold content there rest := by
  induction path generalizing here with
  | nil =>
    cases h
    rfl
  | cons name path ih =>
    rw [List.cons_append]
    cases hfind : findEntry fold content here.ino name with
    | none =>
      rw [walk_missing hfind] at h
      cases h
    | some e =>
      cases e with
      | directory ino =>
        rw [walk_directory hfind] at h ⊢
        exact ih h
      | file ino =>
        rw [walk_file hfind] at h
        split at h <;> cases h
      | link ino target =>
        rw [walk_link hfind] at h
        cases h

theorem walk_append_link {ino : Nat} {target : LinkTarget Name} {after : TreePath Name}
    (h : walk fold content here path = .link there ino target after) :
    walk fold content here (path ++ rest) = .link there ino target (after ++ rest) := by
  induction path generalizing here with
  | nil => cases h
  | cons name path ih =>
    rw [List.cons_append]
    cases hfind : findEntry fold content here.ino name with
    | none =>
      rw [walk_missing hfind] at h
      cases h
    | some e =>
      cases e with
      | directory ino =>
        rw [walk_directory hfind] at h ⊢
        exact ih h
      | file ino =>
        rw [walk_file hfind] at h
        split at h <;> cases h
      | link ino target =>
        rw [walk_link hfind] at h ⊢
        cases h
        rfl

theorem walk_append_file (h : walk fold content here path = .ends ⟨there, true, []⟩) :
    walk fold content here (path ++ name :: rest) = .notDirectory := by
  induction path generalizing here with
  | nil => cases h
  | cons first path ih =>
    rw [List.cons_append]
    cases hfind : findEntry fold content here.ino first with
    | none =>
      rw [walk_missing hfind] at h
      cases h
    | some e =>
      cases e with
      | directory ino =>
        rw [walk_directory hfind] at h ⊢
        exact ih h
      | file ino =>
        rw [walk_file hfind, if_neg (by simp)]
      | link ino target =>
        rw [walk_link hfind] at h
        cases h

/-! ## Paths that lead somewhere -/

/-- The names of a path that reaches an existing directory may be followed from there. -/
theorem locate_append (h : locate fold content links path = .ok ⟨here, false, []⟩)
    (hwalk : walk fold content here rest = .ends location) :
    locate fold content links (path ++ rest) = .ok location := by
  induction links generalizing path with
  | zero => cases h
  | succ links ih =>
    rw [locate] at h ⊢
    cases hstop : walk fold content .root path with
    | ends found =>
      rw [hstop] at h
      cases h
      rw [walk_append hstop, hwalk]
    | notDirectory =>
      rw [hstop] at h
      cases h
    | link there ino target after =>
      rw [hstop] at h
      rw [walk_append_link hstop]
      dsimp only at h ⊢
      rw [← List.append_assoc]
      exact ih h

theorem locate_append_file (h : locate fold content links path = .ok ⟨here, true, []⟩) :
    locate fold content links (path ++ name :: rest) = .error .ENOTDIR := by
  induction links generalizing path with
  | zero => cases h
  | succ links ih =>
    rw [locate] at h ⊢
    cases hstop : walk fold content .root path with
    | ends found =>
      rw [hstop] at h
      cases h
      rw [walk_append_file hstop]
    | notDirectory =>
      rw [hstop] at h
      cases h
    | link there ino target after =>
      rw [hstop] at h
      rw [walk_append_link hstop]
      dsimp only at h ⊢
      rw [← List.append_assoc]
      exact ih h

theorem locate_ne_ENOENT : locate fold content links path ≠ .error .ENOENT := by
  induction links generalizing path with
  | zero => exact fun h => by cases h
  | succ links ih =>
    rw [locate]
    cases walk fold content .root path with
    | ends found => exact fun h => by cases h
    | notDirectory => exact fun h => by cases h
    | link there ino target after => exact ih

theorem lstat_append (h : locate fold content links path = .ok ⟨here, false, []⟩)
    (hwalk : walk fold content here rest = .ends location) (hrest : rest ≠ [])
    (hmissing : location.missing = []) :
    lstat fold content links (path ++ rest) = .ok location.place.ino := by
  induction links generalizing path with
  | zero => cases h
  | succ links ih =>
    rw [locate] at h
    rw [lstat]
    cases hstop : walk fold content .root path with
    | ends found =>
      rw [hstop] at h
      cases h
      rw [walk_append hstop, hwalk]
      dsimp only
      rw [hmissing, if_pos List.isEmpty_nil]
    | notDirectory =>
      rw [hstop] at h
      cases h
    | link there ino target after =>
      rw [hstop] at h
      rw [walk_append_link hstop]
      dsimp only at h ⊢
      rw [if_neg (by simp [hrest]), ← List.append_assoc]
      exact ih h

/-- A directory that was reached from the root through existing directories. -/
inductive Reached (fold : Name → Key) (content : TreeContent Name) : Place Name → Prop
  | root : Reached fold content .root
  | enter {here : Place Name} {name : Name} {ino : Nat} : Reached fold content here →
      findEntry fold content here.ino name = some (.directory ino) →
      Reached fold content (here.enter name ino)

/-- What `walk` answers: a directory, a name that is missing there, or a file there. -/
inductive Located (fold : Name → Key) (content : TreeContent Name) : Location Name → Prop
  | directory {here : Place Name} : Reached fold content here →
      Located fold content ⟨here, false, []⟩
  | missing {here : Place Name} {name : Name} {rest : TreePath Name} : Reached fold content here →
      findEntry fold content here.ino name = none →
      Located fold content ⟨here, false, name :: rest⟩
  | file {here : Place Name} {name : Name} {ino : Nat} : Reached fold content here →
      findEntry fold content here.ino name = some (.file ino) →
      Located fold content ⟨here.enter name ino, true, []⟩

theorem Reached.walk (h : Reached fold content here) (rest : TreePath Name) :
    walk fold content .root (here.real ++ rest) = CliProxy.Lib.walk fold content here rest := by
  induction h generalizing rest with
  | root => rfl
  | @enter here name ino _ hfind ih =>
    rw [Place.enter, List.append_assoc, ih, List.singleton_append, walk_directory hfind]
    rfl

theorem Located.of_walk (hreached : Reached fold content here)
    (h : walk fold content here path = .ends location) : Located fold content location := by
  induction path generalizing here with
  | nil =>
    cases h
    exact .directory hreached
  | cons name path ih =>
    cases hfind : findEntry fold content here.ino name with
    | none =>
      rw [walk_missing hfind] at h
      cases h
      exact .missing hreached hfind
    | some e =>
      cases e with
      | directory ino =>
        rw [walk_directory hfind] at h
        exact ih (hreached.enter hfind) h
      | file ino =>
        rw [walk_file hfind] at h
        split at h
        · cases h
          exact .file hreached hfind
        · cases h
      | link ino target =>
        rw [walk_link hfind] at h
        cases h

theorem Located.of_locate (h : locate fold content links path = .ok location) :
    Located fold content location := by
  induction links generalizing path with
  | zero => cases h
  | succ links ih =>
    rw [locate] at h
    cases hstop : CliProxy.Lib.walk fold content .root path with
    | ends found =>
      rw [hstop] at h
      cases h
      exact .of_walk .root hstop
    | notDirectory =>
      rw [hstop] at h
      cases h
    | link there ino target after =>
      rw [hstop] at h
      exact ih h

/-- What exists of a location is a location. -/
theorem Located.place (h : Located fold content location) :
    Located fold content ⟨location.place, location.isFile, []⟩ := by
  cases h with
  | directory hreached => exact .directory hreached
  | missing hreached hfind => exact .directory hreached
  | file hreached hfind => exact .file hreached hfind

/-- The path of a location has no link in it. -/
theorem Located.walk (h : Located fold content location) :
    CliProxy.Lib.walk fold content .root location.path = .ends location := by
  cases h with
  | directory hreached => exact (hreached.walk []).trans rfl
  | missing hreached hfind => exact (hreached.walk _).trans (walk_missing hfind)
  | file hreached hfind =>
    rw [Location.path, List.append_nil, Place.enter, hreached.walk, walk_file hfind]
    rfl

theorem Located.locate (h : Located fold content location) (links : Nat) :
    CliProxy.Lib.locate fold content (links + 1) location.path = .ok location := by
  rw [CliProxy.Lib.locate, h.walk]

/-! ## Inode numbers along a path -/

theorem Reached.lstat (h : Reached fold content here) (links : Nat) :
    CliProxy.Lib.lstat fold content (links + 1) here.real = .ok here.ino := by
  have hwalk := (h.walk []).trans rfl
  rw [List.append_nil] at hwalk
  rw [CliProxy.Lib.lstat, hwalk]
  rfl

theorem Located.lstat (h : Located fold content location) (links : Nat) :
    CliProxy.Lib.lstat fold content (links + 1) location.path =
      if location.missing.isEmpty then .ok location.place.ino else .error .ENOENT := by
  rw [CliProxy.Lib.lstat, h.walk]

/-- Two stops that differ in the spelling of the names only. -/
inductive Stop.Alike (fold : Name → Key) : Stop Name → Stop Name → Prop
  | ends {l l' : Location Name} : l.place.ino = l'.place.ino →
      l.missing.map fold = l'.missing.map fold → Alike fold (.ends l) (.ends l')
  | notDirectory : Alike fold .notDirectory .notDirectory
  | link {here here' : Place Name} {ino : Nat} {target : LinkTarget Name}
      {rest rest' : TreePath Name} : here.real.map fold = here'.real.map fold →
      rest.map fold = rest'.map fold → Alike fold (.link here ino target rest)
        (.link here' ino target rest')

omit [DecidableEq Key] in
theorem map_fromDir {dir dir' : TreePath Name} (target : LinkTarget Name)
    (h : dir.map fold = dir'.map fold) :
    (target.fromDir dir).map fold = (target.fromDir dir').map fold := by
  cases target with
  | absolute path => rfl
  | relative up path =>
    have hlength : dir.length = dir'.length := by simpa using congrArg List.length h
    rw [LinkTarget.fromDir, LinkTarget.fromDir, List.map_append, List.map_append, List.map_take,
      List.map_take, h, hlength]

theorem walk_alike {here' : Place Name} {path' : TreePath Name} (hino : here.ino = here'.ino)
    (hreal : here.real.map fold = here'.real.map fold) (h : path.map fold = path'.map fold) :
    (walk fold content here path).Alike fold (walk fold content here' path') := by
  induction path generalizing here here' path' with
  | nil =>
    cases path' with
    | nil => exact .ends hino rfl
    | cons name path' => cases h
  | cons name path ih =>
    cases path' with
    | nil => cases h
    | cons name' path' =>
      obtain ⟨hname, hpath⟩ := List.cons.inj h
      have hlookup : findEntry fold content here'.ino name' = findEntry fold content here.ino name := by
        rw [hino, findEntry_congr hname]
      cases hfind : findEntry fold content here.ino name with
      | none =>
        rw [walk_missing hfind, walk_missing (hlookup.trans hfind)]
        exact .ends hino h
      | some e =>
        cases e with
        | directory ino =>
          rw [walk_directory hfind, walk_directory (hlookup.trans hfind)]
          refine ih rfl ?_ hpath
          rw [Place.enter, Place.enter, List.map_append, List.map_append, hreal, List.map_singleton,
            List.map_singleton, hname]
        | file ino =>
          have hempty : path.isEmpty = path'.isEmpty := by
            rw [← List.isEmpty_map (f := fold), hpath, List.isEmpty_map]
          rw [walk_file hfind, walk_file (hlookup.trans hfind), hempty]
          split
          · exact .ends rfl rfl
          · exact .notDirectory
        | link ino target =>
          rw [walk_link hfind, walk_link (hlookup.trans hfind)]
          exact .link hreal hpath

/-- Paths whose names are looked up alike name the same thing. -/
theorem lstat_congr {path' : TreePath Name} (h : path.map fold = path'.map fold) :
    lstat fold content links path = lstat fold content links path' := by
  induction links generalizing path path' with
  | zero => rfl
  | succ links ih =>
    have halike : (walk fold content .root path).Alike fold (walk fold content .root path') :=
      walk_alike rfl rfl h
    rw [lstat, lstat]
    generalize walk fold content .root path = stop at halike
    generalize walk fold content .root path' = stop' at halike
    cases halike with
    | ends hino hmissing =>
      dsimp only
      rw [← List.isEmpty_map (f := fold), hmissing, List.isEmpty_map, hino]
    | notDirectory => rfl
    | @link here here' ino target rest rest' hreal hrest =>
      have hempty : rest.isEmpty = rest'.isEmpty := by
        rw [← List.isEmpty_map (f := fold), hrest, List.isEmpty_map]
      dsimp only
      rw [hempty, ih]
      rw [List.map_append, List.map_append, map_fromDir target hreal, hrest]

/-! ## A directory that is made and removed again -/

/-- What is found in `content` is found in `content'`. -/
def Extends (fold : Name → Key) (content content' : TreeContent Name) : Prop :=
  ∀ {dir name e}, findEntry fold content dir name = some e →
    findEntry fold content' dir name = some e

variable {content' : TreeContent Name}

theorem Extends.walk (hext : Extends fold content content') :
    walk fold content here path = walk fold content' here path ∨
      ∃ found, walk fold content here path = .ends found ∧ found.missing ≠ [] := by
  induction path generalizing here with
  | nil => exact .inl rfl
  | cons name path ih =>
    cases hfind : findEntry fold content here.ino name with
    | none => exact .inr ⟨_, walk_missing hfind, List.cons_ne_nil _ _⟩
    | some e =>
      cases e with
      | directory ino =>
        rw [walk_directory hfind, walk_directory (hext hfind)]
        exact ih
      | file ino => exact .inl ((walk_file hfind).trans (walk_file (hext hfind)).symm)
      | link ino target => exact .inl ((walk_link hfind).trans (walk_link (hext hfind)).symm)

theorem Extends.locate (hext : Extends fold content content')
    (h : locate fold content links path = .ok location) (hmissing : location.missing = []) :
    locate fold content' links path = .ok location := by
  induction links generalizing path with
  | zero => cases h
  | succ links ih =>
    rw [CliProxy.Lib.locate] at h ⊢
    have hext : CliProxy.Lib.walk fold content .root path = CliProxy.Lib.walk fold content' .root path ∨
        ∃ found, CliProxy.Lib.walk fold content .root path = .ends found ∧ found.missing ≠ [] :=
      hext.walk
    rcases hext with hwalk | ⟨found, hwalk, hfound⟩
    · rw [← hwalk]
      cases hstop : CliProxy.Lib.walk fold content .root path with
      | ends found =>
        rw [hstop] at h
        exact h
      | notDirectory =>
        rw [hstop] at h
        exact h
      | link there ino target rest =>
        rw [hstop] at h
        exact ih h
    · rw [hwalk] at h
      cases h
      exact absurd hmissing hfound

theorem directoryAt_eq_ok {dir : Nat} : directoryAt fold content links path = .ok dir ↔
    ∃ location, locate fold content links path = .ok location ∧ location.missing = [] ∧
      location.isFile = false ∧ location.place.ino = dir := by
  rw [directoryAt]
  cases locate fold content links path with
  | error e => simp
  | ok location =>
    dsimp only
    cases hmissing : location.missing with
    | cons name rest => simp [hmissing]
    | nil => cases hfile : location.isFile <;> simp [hmissing, hfile]

theorem Extends.directoryAt (hext : Extends fold content content') {dir : Nat}
    (h : directoryAt fold content links path = .ok dir) :
    directoryAt fold content' links path = .ok dir := by
  obtain ⟨location, hlocate, hmissing, hrest⟩ := directoryAt_eq_ok.mp h
  exact directoryAt_eq_ok.mpr ⟨location, hext.locate hlocate hmissing, hmissing, hrest⟩

namespace FileTree

variable {t t' : FileTree Name}

theorem find?_eq_none_of_findEntry {dir : Nat} (h : findEntry fold content dir name = none) :
    ∀ e ∈ content dir, ¬decide (fold e.1 = fold name) = true := by
  intro e he
  have := List.find?_eq_none.mp (Option.map_eq_none_iff.mp h) e he
  exact this

theorem content_addDirectory {dir : Nat} : (t.addDirectory dir name).content =
    Function.update t.content dir
      (t.content dir ++ [(name, .directory (max t.fresh (dir + 1)))]) := rfl

theorem content_removeEntry {dir : Nat} : (t.removeEntry fold dir name).content =
    Function.update t.content dir ((t.content dir).eraseP fun e => fold e.1 = fold name) := rfl

theorem extends_addDirectory {dir : Nat} :
    Extends fold t.content (t.addDirectory dir name).content := by
  intro d n e h
  by_cases hd : d = dir
  · cases hd
    rw [findEntry] at h ⊢
    rw [content_addDirectory, Function.update_self, List.find?_append]
    obtain ⟨found, hfound, he⟩ := Option.map_eq_some_iff.mp h
    rw [hfound, Option.some_or, Option.map_some, he]
  · rw [findEntry, content_addDirectory, Function.update_of_ne hd]
    exact h

theorem mkdir_eq_ok (h : t.mkdir fold links path = .ok t') : ∃ name dir,
    path.getLast? = some name ∧ directoryAt fold t.content links path.dropLast = .ok dir ∧
      findEntry fold t.content dir name = none ∧ t' = t.addDirectory dir name := by
  rw [mkdir] at h
  cases hname : path.getLast? with
  | none =>
    rw [hname] at h
    cases h
  | some name =>
    rw [hname] at h
    dsimp only at h
    cases hdir : CliProxy.Lib.directoryAt fold t.content links path.dropLast with
    | error e =>
      rw [hdir] at h
      cases h
    | ok dir =>
      rw [hdir] at h
      dsimp only at h
      split at h
      · cases h
      next hfind =>
        cases h
        exact ⟨name, dir, rfl, rfl, Option.not_isSome_iff_eq_none.mp hfind, rfl⟩

theorem rmdir_eq_ok {dir ino : Nat} (hname : path.getLast? = some name)
    (hdir : directoryAt fold t.content links path.dropLast = .ok dir)
    (hfind : findEntry fold t.content dir name = some (.directory ino))
    (hempty : t.content ino = []) :
    t.rmdir fold links path = .ok (t.removeEntry fold dir name) := by
  rw [rmdir, hname]
  dsimp only
  rw [hdir]
  dsimp only
  rw [hfind]
  dsimp only
  rw [hempty, if_pos List.isEmpty_nil]

theorem findEntry_addDirectory {dir : Nat} (h : findEntry fold t.content dir name = none) :
    findEntry fold (t.addDirectory dir name).content dir name =
      some (.directory (max t.fresh (dir + 1))) := by
  rw [findEntry, content_addDirectory, Function.update_self, List.find?_append,
    List.find?_eq_none.mpr (find?_eq_none_of_findEntry h), Option.none_or, List.find?_cons,
    decide_eq_true rfl]
  rfl

theorem content_addDirectory_new {dir : Nat} :
    (t.addDirectory dir name).content (max t.fresh (dir + 1)) = [] := by
  rw [content_addDirectory, Function.update_of_ne (by omega)]
  exact t.vacant _ (Nat.le_max_left _ _)

/-- A directory that was made is removed, and every directory is as it was. -/
theorem rmdir_mkdir {t₂ : FileTree Name} (h : t.mkdir fold links path = .ok t')
    (hcontent : t₂.content = t'.content) :
    ∃ t₃, t₂.rmdir fold links path = .ok t₃ ∧ t₃.content = t.content := by
  obtain ⟨name, dir, hname, hdir, hfind, rfl⟩ := mkdir_eq_ok h
  have hself (e : TreeEntry Name) :
      [(name, e)].eraseP (fun e => decide (fold e.1 = fold name)) = [] :=
    List.eraseP_cons_of_pos (decide_eq_true rfl)
  have herase : ((t.addDirectory dir name).content dir).eraseP
      (fun e => fold e.1 = fold name) = t.content dir := by
    rw [content_addDirectory, Function.update_self,
      List.eraseP_append_right _ (find?_eq_none_of_findEntry hfind), hself, List.append_nil]
  refine ⟨_, rmdir_eq_ok hname (hcontent ▸ Extends.directoryAt extends_addDirectory hdir)
    (hcontent ▸ findEntry_addDirectory hfind) (hcontent ▸ content_addDirectory_new), ?_⟩
  rw [content_removeEntry, hcontent, herase, content_addDirectory, Function.update_idem,
    Function.update_eq_self]

theorem rmdir_congr {t₂ : FileTree Name} (hcontent : t₂.content = t.content)
    (h : t.rmdir fold links path = .ok t') :
    ∃ t₃, t₂.rmdir fold links path = .ok t₃ ∧ t₃.content = t'.content := by
  rw [rmdir] at h ⊢
  rw [hcontent]
  revert h
  cases path.getLast? with
  | none => exact fun h => by cases h
  | some name =>
    dsimp only
    cases CliProxy.Lib.directoryAt fold t.content links path.dropLast with
    | error e => exact fun h => by cases h
    | ok dir =>
      dsimp only
      cases findEntry fold t.content dir name with
      | none => exact fun h => by cases h
      | some e =>
        cases e with
        | directory ino =>
          dsimp only
          intro h
          split at h
          next hempty =>
            rw [if_pos hempty]
            cases h
            exact ⟨_, rfl, by rw [content_removeEntry, content_removeEntry, hcontent]⟩
          · cases h
        | file ino => exact fun h => by cases h
        | link ino target => exact fun h => by cases h

/-- A directory that was made is there. -/
theorem lstat_mkdir (h : t.mkdir fold links path = .ok t') :
    ∃ ino, lstat fold t'.content links path = .ok ino := by
  obtain ⟨name, dir, hname, hdir, hfind, rfl⟩ := mkdir_eq_ok h
  have hdir' : directoryAt fold (t.addDirectory dir name).content links path.dropLast = .ok dir :=
    Extends.directoryAt extends_addDirectory hdir
  obtain ⟨⟨here, isFile, missing⟩, hlocate, hmissing, hfile, hino⟩ := directoryAt_eq_ok.mp hdir'
  cases hmissing
  cases hfile
  cases hino
  have hwalk : walk fold (t.addDirectory here.ino name).content here [name] = _ :=
    walk_directory (findEntry_addDirectory hfind)
  have hlstat := lstat_append hlocate hwalk (List.cons_ne_nil _ _) rfl
  rw [List.dropLast_append_getLast? name hname] at hlstat
  exact ⟨_, hlstat⟩

/-- The directories can be removed one after the other, and then every directory has the entries
of `content`. -/
def RemovesTo (fold : Name → Key) (links : Nat) (content : TreeContent Name) :
    List (TreePath Name) → FileTree Name → Prop
  | [], t => t.content = content
  | path :: paths, t => ∃ t', t.rmdir fold links path = .ok t' ∧ RemovesTo fold links content paths t'

theorem RemovesTo.congr {paths : List (TreePath Name)} (h : RemovesTo fold links content paths t)
    (hcontent : t'.content = t.content) : RemovesTo fold links content paths t' := by
  induction paths generalizing t t' with
  | nil => exact hcontent.trans h
  | cons path paths ih =>
    obtain ⟨t₂, hrmdir, hrest⟩ := h
    obtain ⟨t₃, hrmdir', hcontent'⟩ := rmdir_congr hcontent hrmdir
    exact ⟨t₃, hrmdir', ih hrest hcontent'⟩

theorem RemovesTo.mkdir {paths : List (TreePath Name)} (h : RemovesTo fold links content paths t)
    (hmkdir : t.mkdir fold links path = .ok t') :
    RemovesTo fold links content (path :: paths) t' := by
  obtain ⟨t₃, hrmdir, hcontent⟩ := rmdir_mkdir hmkdir rfl
  exact ⟨t₃, hrmdir, h.congr hcontent⟩

end FileTree

end

end CliProxy.Lib
