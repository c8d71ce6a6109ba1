import CliProxy.Lib.Lines
import CliProxy.Provision.Records
import Mathlib.Data.List.DropRight

/-! # The wrapper directory of an archive

`assertArchiveSafe` of `src/provision/installer.ts` and `assertExpectedWrapper` of
`src/provision/config-installer.ts` read the listings of `tar`; `--strip-components=1` reads the
stored names. -/

namespace CliProxy.Provision.Archive

abbrev Text := List Char

/-! ## The source -/

def MAX_MANAGED_PATH_LENGTH : Nat := 1024

/-- `text.split("\n").filter(Boolean)` -/
def lines (text : Text) : List Text := (text.splitOn '\n').filter (!·.isEmpty)

/-- `name.replace(/\/+$/, "")` -/
def relative (name : Text) : Text := name.rdropWhile (· == '/')

def parts (name : Text) : List Text := ((relative name).splitOn '/').filter (· != ['.'])

structure Entry where
  name : Text
  isDirectory : Bool
  parts : List Text

def isLink (line : Text) : Bool := line.head? == some 'l' || line.head? == some 'h'

def checkName (name : Text) : Except Error Unit :=
  if (relative name).length > MAX_MANAGED_PATH_LENGTH then
    .error (.provision ("Archive entry path exceeds " ++ toString MAX_MANAGED_PATH_LENGTH ++
      " characters") "archive_rejected")
  else if name.head? == some '/' || (name.splitOn '/').contains ['.', '.'] then
    .error (.provision ("Archive entry escapes its root: " ++ String.ofList name)
      "archive_rejected")
  else .ok ()

/-- The entries whose names have a part other than `.`. -/
def entries (verboseEntries archiveNames : List Text) : List Entry :=
  (archiveNames.zipIdx.map fun (name, index) =>
    { name, isDirectory := (verboseEntries[index]?.getD []).head? == some 'd',
      parts := parts name }).filter (0 < ·.parts.length)

def stripsWrapper (members : List Entry) : Bool :=
  match members.head?.bind (·.parts.head?) with
  | none => false
  | some wrapper =>
    members.all (·.parts.head? == some wrapper) && members.any (1 < ·.parts.length) &&
      !members.any fun entry => entry.parts.length == 1 && !entry.isDirectory

/-- The two listings of `tar`, or none if it cannot read the archive. -/
def assertArchiveSafe (listing : Option (Text × Text)) (compressed : Bool) :
    Except Error Bool :=
  match listing with
  | none => .error (.provision (if compressed then "Artifact is not a readable tar.gz"
      else "Git source is not a readable tar archive") "archive_rejected")
  | some (verbose, names) =>
    if (lines verbose).any isLink then
      .error (.provision "Archive contains a link entry" "archive_rejected")
    else ((lines names).forM checkName).map fun _ =>
      stripsWrapper (entries (lines verbose) (lines names))

/-- `names` is the plain listing. -/
def assertExpectedWrapper (names : Option Text) (expected : Text) : Except Error Unit :=
  match names with
  | none => .error (.provision "Config artifact is not a readable tar.gz" "archive_rejected")
  | some names =>
    let topLevel := ((lines names).filterMap fun name => (parts name).head?).find? (!·.isEmpty)
    if topLevel != some expected then
      .error (.provision ("Config archive wrapper must match item name \"" ++
        String.ofList expected ++ "\"") "archive_rejected")
    else .ok ()

/-! ## `tar` -/

/-- A member and what the listings say of it. -/
structure Member where
  kind : Char
  details : Text
  name : Text
  kind_ne : kind ≠ '\n'
  details_line : '\n' ∉ details
  name_line : '\n' ∉ name
  name_ne : name ≠ []

def Member.isDirectory (m : Member) : Bool := m.kind == 'd'

def Member.parts (m : Member) : List Text := Archive.parts m.name

/-- `tar -tv` and `tar -t` -/
def listing (members : List Member) : Text × Text :=
  (members.flatMap fun m => m.kind :: m.details ++ ['\n'], members.flatMap fun m => m.name ++ ['\n'])

/-- A path as the file system reads it: neither `.` nor an empty component means anything. -/
def resolve (components : List Text) : List Text :=
  components.filter fun c => c != [] && c != ['.']

/-- The path below the directory that `tar` extracts to, none if it is that directory. -/
def below (components : List Text) : Option (List Text) :=
  if resolve components = [] then none else some (resolve components)

/-- Where a member lands; with `--strip-components=1` the first component of the stored name is
removed, whatever it is, and a member left empty is dropped. -/
def lands (strip : Bool) (name : Text) : Option (List Text) :=
  below (if strip then (name.splitOn '/').tail else name.splitOn '/')

/-- Where a member is expected: under its normalized path, without the wrapper if it is stripped. -/
def expected (strip : Bool) (name : Text) : Option (List Text) :=
  below (if strip then (parts name).tail else parts name)

/-- No file is lost, and every file lands where it is expected. -/
def Extracts (strip : Bool) (members : List Member) : Prop :=
  ∀ m ∈ members, m.isDirectory = false → lands strip m.name = expected strip m.name

/-! ## The listings -/

theorem lines_flatMap {α : Type} {f : α → Text} {xs : List α} (hline : ∀ x ∈ xs, '\n' ∉ f x)
    (hne : ∀ x ∈ xs, f x ≠ []) : lines (xs.flatMap fun x => f x ++ ['\n']) = xs.map f := by
  induction xs with
  | nil => rfl
  | cons x xs ih =>
    have hx : (f x).splitOn '\n' = [f x] := List.splitOn_eq_singleton (hline x (.head _))
    have hempty : (!(f x).isEmpty) = true := by simp [hne x (.head _)]
    rw [List.flatMap_cons, List.append_assoc, lines, List.cons_append, List.nil_append,
      List.splitOn_append_cons_self, hx, List.cons_append, List.nil_append, List.filter_cons,
      if_pos hempty, List.map_cons]
    exact congrArg (f x :: ·) (ih (fun y hy => hline y (.tail _ hy)) fun y hy => hne y (.tail _ hy))

def Member.entry (m : Member) : Entry := ⟨m.name, m.isDirectory, m.parts⟩

theorem lines_verbose (members : List Member) :
    lines (listing members).1 = members.map fun m => m.kind :: m.details := by
  refine lines_flatMap (f := fun m : Member => m.kind :: m.details) (fun m _ => ?_)
    fun m _ => List.cons_ne_nil _ _
  exact fun h => (List.mem_cons.mp h).elim (fun h => m.kind_ne h.symm) m.details_line

theorem lines_names (members : List Member) :
    lines (listing members).2 = members.map Member.name :=
  lines_flatMap (f := Member.name) (fun m _ => m.name_line) fun m _ => m.name_ne

theorem entries_listing (members : List Member) :
    entries (lines (listing members).1) (lines (listing members).2) =
      (members.map Member.entry).filter (0 < ·.parts.length) := by
  rw [lines_verbose, lines_names, entries]
  congr 1
  apply List.ext_getElem
  · simp
  · intro i h₁ h₂
    simp at h₁ h₂
    simp [h₂, Member.entry, Member.isDirectory, Member.parts]

/-- All members are in one directory, and it is one. -/
structure HasWrapper (members : List Member) (wrapper : Text) : Prop where
  common : ∀ m ∈ members, m.parts ≠ [] → m.parts.head? = some wrapper
  nested : ∃ m ∈ members, 1 < m.parts.length
  isDirectory : ∀ m ∈ members, m.parts.length = 1 → m.isDirectory = true

theorem mem_entries {members : List Member} {entry : Entry} :
    entry ∈ (members.map Member.entry).filter (0 < ·.parts.length) ↔
      ∃ m ∈ members, m.parts ≠ [] ∧ m.entry = entry := by
  simp only [List.mem_filter, List.mem_map, decide_eq_true_eq]
  constructor
  · rintro ⟨⟨m, hm, rfl⟩, hlength⟩
    exact ⟨m, hm, List.ne_nil_of_length_pos hlength, rfl⟩
  · rintro ⟨m, hm, hparts, rfl⟩
    exact ⟨⟨m, hm, rfl⟩, List.length_pos_iff.mpr hparts⟩

theorem stripsWrapper_iff (members : List Member) :
    stripsWrapper ((members.map Member.entry).filter (0 < ·.parts.length)) = true ↔
      ∃ wrapper, HasWrapper members wrapper := by
  have hmem := @mem_entries members
  generalize (members.map Member.entry).filter (0 < ·.parts.length) = es at hmem
  rw [stripsWrapper]
  constructor
  · intro h
    split at h
    next => cases h
    next wrapper _ =>
      simp only [Bool.and_eq_true, List.all_eq_true, List.any_eq_true, Bool.not_eq_true',
        List.any_eq_false, decide_eq_true_eq, beq_iff_eq, not_and, Bool.not_eq_false] at h
      obtain ⟨⟨hall, entry, hentry, hnested⟩, hdirectory⟩ := h
      refine ⟨wrapper, fun m hm hparts => hall _ (hmem.mpr ⟨m, hm, hparts, rfl⟩), ?_, ?_⟩
      · obtain ⟨m, hm, -, rfl⟩ := hmem.mp hentry
        exact ⟨m, hm, hnested⟩
      · intro m hm hlength
        have hparts : m.parts ≠ [] := List.ne_nil_of_length_pos (by omega)
        exact hdirectory _ (hmem.mpr ⟨m, hm, hparts, rfl⟩) hlength
  · rintro ⟨wrapper, hwrapper⟩
    obtain ⟨m, hm, hnested⟩ := hwrapper.nested
    have hentry : m.entry ∈ es :=
      hmem.mpr ⟨m, hm, List.ne_nil_of_length_pos (by omega), rfl⟩
    have hcommon : ∀ entry ∈ es, entry.parts.head? = some wrapper := by
      intro entry hentry
      obtain ⟨m', hm', hparts, rfl⟩ := hmem.mp hentry
      exact hwrapper.common m' hm' hparts
    cases es with
    | nil => exact absurd hentry List.not_mem_nil
    | cons entry es =>
      rw [List.head?_cons, Option.bind_some, hcommon entry (.head _)]
      simp only [Bool.and_eq_true, List.all_eq_true, List.any_eq_true, Bool.not_eq_true',
        List.any_eq_false, decide_eq_true_eq, beq_iff_eq, not_and, Bool.not_eq_false]
      refine ⟨⟨hcommon, _, hentry, hnested⟩, fun entry' hentry' hlength => ?_⟩
      obtain ⟨m', hm', -, rfl⟩ := hmem.mp hentry'
      exact hwrapper.isDirectory m' hm' hlength

/-- The wrapper is stripped exactly if there is one. -/
theorem assertArchiveSafe_strip {members : List Member} {compressed strip : Bool}
    (h : assertArchiveSafe (some (listing members)) compressed = .ok strip) :
    strip = true ↔ ∃ wrapper, HasWrapper members wrapper := by
  unfold assertArchiveSafe at h
  dsimp only at h
  split at h
  next => cases h
  next =>
    cases hcheck : (lines (listing members).2).forM checkName with
    | error e =>
      rw [hcheck] at h
      cases h
    | ok u =>
      rw [hcheck, entries_listing] at h
      cases h
      exact stripsWrapper_iff members

/-- The config installer compares the same wrapper with the name of the item. -/
theorem assertExpectedWrapper_iff {members : List Member} {wrapper : Text}
    (h : HasWrapper members wrapper) (hne : wrapper ≠ []) (name : Text) :
    assertExpectedWrapper (some (listing members).2) name = .ok () ↔ wrapper = name := by
  have hall : ∀ first ∈ (members.map Member.name).filterMap fun name => (parts name).head?,
      first = wrapper := by
    intro first hfirst
    obtain ⟨_, hname, hhead⟩ := List.mem_filterMap.mp hfirst
    obtain ⟨m, hm, rfl⟩ := List.mem_map.mp hname
    have hparts : m.parts ≠ [] := by
      intro hparts
      rw [Member.parts] at hparts
      rw [hparts] at hhead
      cases hhead
    exact Option.some.inj (hhead.symm.trans (h.common m hm hparts))
  have hmem : wrapper ∈ (members.map Member.name).filterMap fun name => (parts name).head? := by
    obtain ⟨m, hm, hnested⟩ := h.nested
    have hparts : m.parts ≠ [] := List.ne_nil_of_length_pos (by omega)
    exact List.mem_filterMap.mpr ⟨m.name, List.mem_map_of_mem hm, h.common m hm hparts⟩
  rw [assertExpectedWrapper, lines_names]
  cases hfirsts : (members.map Member.name).filterMap fun name => (parts name).head? with
  | nil =>
    rw [hfirsts] at hmem
    exact absurd hmem List.not_mem_nil
  | cons first firsts =>
    rw [hfirsts] at hall
    cases hall first (.head _)
    rw [List.find?_cons_of_pos (by simpa using hne)]
    by_cases heq : wrapper = name
    · simp [heq]
    · simp [heq]

/-! ## Components -/

theorem splitOn_replicate (k : Nat) :
    (List.replicate k '/').splitOn '/' = List.replicate (k + 1) [] := by
  induction k with
  | zero => rfl
  | succ k ih => rw [List.replicate_succ, Lib.splitOn_cons, if_pos rfl, ih, ← List.replicate_succ]

/-- Trailing slashes add empty components only. -/
theorem splitOn_relative (name : Text) :
    ∃ k, name.splitOn '/' = (relative name).splitOn '/' ++ List.replicate k [] := by
  have hslashes : name.rtakeWhile (· == '/') =
      List.replicate (name.rtakeWhile (· == '/')).length '/' := by
    apply List.eq_replicate_of_mem
    intro c hc
    have hslash := List.mem_rtakeWhile_imp hc
    exact beq_iff_eq.mp hslash
  refine ⟨(name.rtakeWhile (· == '/')).length, ?_⟩
  have hname : name = relative name ++ name.rtakeWhile (· == '/') :=
    List.rdropWhile_append_rtakeWhile.symm
  rw [hslashes] at hname
  generalize (name.rtakeWhile (· == '/')).length = k at hname
  cases k with
  | zero =>
    rw [List.replicate_zero, List.append_nil] at hname
    rw [← hname, List.replicate_zero, List.append_nil]
  | succ k =>
    conv_lhs => rw [hname]
    rw [List.replicate_succ, List.splitOn_append_cons_self, splitOn_replicate]

theorem resolve_append (a b : List Text) : resolve (a ++ b) = resolve a ++ resolve b :=
  List.filter_append ..

theorem resolve_replicate (k : Nat) : resolve (List.replicate k []) = [] := by
  simp [resolve]

theorem resolve_filter (components : List Text) :
    resolve (components.filter (· != ['.'])) = resolve components := by
  rw [resolve, resolve, List.filter_filter]
  congr 1
  funext c
  cases c != ['.'] <;> simp

theorem resolve_cons (c : Text) (components : List Text) :
    resolve (c :: components) =
      if c = [] ∨ c = ['.'] then resolve components else c :: resolve components := by
  by_cases hc : c = [] ∨ c = ['.']
  · rcases hc with rfl | rfl <;> simp [resolve]
  · rw [if_neg hc]
    simp only [not_or] at hc
    simp [resolve, hc]

theorem below_eq {a b : List Text} : below a = below b ↔ resolve a = resolve b := by
  rw [below, below]
  split <;> split <;> simp_all

/-- The stored name begins with `./`, and the name of a directory or a file comes next. -/
def dotted (name : Text) : Bool :=
  ((relative name).splitOn '/').head? == some ['.'] && (parts name).head?.any (· != [])

theorem lands_false (name : Text) : lands false name = expected false name := by
  obtain ⟨k, hk⟩ := splitOn_relative name
  simp only [lands, expected, Bool.false_eq_true, if_false, below_eq, parts, resolve_filter]
  rw [hk, resolve_append, resolve_replicate, List.append_nil]

/-- Without its first component a name leads where it is expected unless it is dotted. -/
theorem lands_true (name : Text) :
    lands true name = expected true name ↔ dotted name = false := by
  obtain ⟨k, hk⟩ := splitOn_relative name
  simp only [lands, expected, if_true, below_eq, dotted, parts]
  rw [hk]
  cases hcomponents : (relative name).splitOn '/' with
  | nil => exact absurd hcomponents (List.splitOn_ne_nil _ _)
  | cons c cs =>
    rw [List.cons_append, List.tail_cons, resolve_append, resolve_replicate, List.append_nil]
    by_cases hc : c = ['.']
    · subst hc
      rw [List.filter_cons, if_neg (by simp), ← resolve_filter cs]
      cases hparts : cs.filter (· != ['.']) with
      | nil => simp
      | cons p ps =>
        have hdot : p ≠ ['.'] := by
          have hmem : p ∈ cs.filter (· != ['.']) := hparts ▸ .head _
          simpa using (List.mem_filter.mp hmem).2
        rw [resolve_cons, List.tail_cons]
        by_cases hp : p = []
        · simp [hp]
        · rw [if_neg (by simp [hp, hdot])]
          simp [hp]
    · rw [List.filter_cons, if_pos (by simpa using hc), List.tail_cons, resolve_filter]
      simp [hc]

/-! ## Extraction -/

/-- All members are in one directory, and a file of them is dotted. -/
def DottedWrapper (members : List Member) : Prop :=
  (∃ wrapper, HasWrapper members wrapper) ∧
    ∃ m ∈ members, m.isDirectory = false ∧ dotted m.name = true

/-- Extraction agrees with the decision about the wrapper exactly if no wrapper has a dotted file. -/
theorem extracts_iff {members : List Member} {compressed strip : Bool}
    (h : assertArchiveSafe (some (listing members)) compressed = .ok strip) :
    Extracts strip members ↔ ¬DottedWrapper members := by
  rw [DottedWrapper, ← assertArchiveSafe_strip h]
  cases strip with
  | false =>
    exact iff_of_true (fun m _ _ => lands_false m.name) fun h => Bool.false_ne_true h.1
  | true =>
    simp only [Extracts, lands_true, true_and, not_exists, not_and, Bool.not_eq_true]

def directory (name : Text) (h : '\n' ∉ name) (hne : name ≠ []) : Member :=
  ⟨'d', [], name, by decide, by simp, h, hne⟩

def file (name : Text) (h : '\n' ∉ name) (hne : name ≠ []) : Member :=
  ⟨'-', [], name, by decide, by simp, h, hne⟩

/-- A wrapped archive. -/
def wrapped : List Member :=
  [directory "pkg/".toList (by decide) (by decide),
    file "pkg/./SKILL.md".toList (by decide) (by decide)]

theorem extracts_wrapped :
    assertArchiveSafe (some (listing wrapped)) true = .ok true ∧
      (Extracts true wrapped ↔ ¬DottedWrapper wrapped) := by
  have hsafe : assertArchiveSafe (some (listing wrapped)) true = .ok true := by decide +kernel
  exact ⟨hsafe, extracts_iff hsafe⟩

/-- An archive packed with `tar -cz ./pkg`: its file lands in `pkg` although the wrapper is stripped. -/
def packed : List Member :=
  [directory "./pkg/".toList (by decide) (by decide),
    file "./pkg/SKILL.md".toList (by decide) (by decide)]

theorem packed_not_extracts :
    assertArchiveSafe (some (listing packed)) true = .ok true ∧
      lands true "./pkg/SKILL.md".toList = some ["pkg".toList, "SKILL.md".toList] ∧
      expected true "./pkg/SKILL.md".toList = some ["SKILL.md".toList] ∧
      ¬Extracts true packed := by
  refine ⟨by decide +kernel, by decide +kernel, by decide +kernel, fun h => ?_⟩
  have hfile := h _ (.tail _ (.head _)) rfl
  exact absurd hfile (by decide +kernel)

end CliProxy.Provision.Archive
