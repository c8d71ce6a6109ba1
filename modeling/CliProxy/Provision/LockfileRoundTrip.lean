import CliProxy.Provision.Lockfile
import CliProxy.Provision.ManifestGrammar

/-! # Reading the lockfile back

Whatever the lockfile holds, the state that is loaded from it is well formed, and a well formed state
is loaded again as it was saved. -/

namespace CliProxy.Provision.Lockfile

open Adapter (Json parseJson print Layout Canonical)
open Adapter.Json (text matching readAll optional object Reader Holds)

/-! ## Texts -/

theorem isFilesystemId_toDigits (n : Nat) : isFilesystemId (Nat.toDigits 10 n) = true := by
  induction n using Nat.strongRecOn with
  | _ n ih =>
    by_cases hn : n < 10
    · rw [Nat.toDigits_of_lt_base hn]
      interval_cases n <;> rfl
    · have hpos : 0 < n / 10 := by omega
      have hlast : (Nat.digitChar (n % 10)).isDigit = true :=
        Nat.isDigit_of_mem_toDigits (by decide) (Nat.le_refl 10) (n := n % 10)
          (by rw [Nat.toDigits_of_lt_base (Nat.mod_lt _ (by decide))]; exact .head _)
      have hih := ih (n / 10) (by omega)
      rw [Nat.toDigits_of_base_le (by decide) (by omega)]
      cases hdigits : Nat.toDigits 10 (n / 10) with
      | nil => exact absurd hdigits Nat.toDigits_ne_nil
      | cons c rest =>
        rw [hdigits, isFilesystemId] at hih
        rw [List.cons_append, isFilesystemId]
        split at hih
        next hc =>
          -- a single zero stands for zero only
          have hvalue : Nat.ofDigitChars 10 (Nat.toDigits 10 (n / 10)) 0 = n / 10 :=
            Nat.ofDigitChars_ten_toDigits
          rw [hdigits, hc, List.isEmpty_iff.mp hih] at hvalue
          have hzero : n / 10 = 0 := hvalue.symm
          omega
        next hc =>
          rw [if_neg hc, List.all_append, ← Bool.and_assoc, hih]
          exact (Bool.and_true _).trans hlast

theorem filesystemId_writeId (id : Nat) : filesystemId (writeId id) = some id := by
  have hdigits : (toString id).toList = Nat.toDigits 10 id := Nat.toList_repr
  have hmatching : matching (fun id => isFilesystemId id.toList) (writeId id) =
      some (toString id) := by
    refine Option.filter_some_pos ?_
    rw [hdigits]
    exact isFilesystemId_toDigits id
  rw [filesystemId, hmatching, Option.map_some, hdigits, Nat.ofDigitChars_ten_toDigits]

/-! ### Paths in a tree -/

/-- A path that is taken apart as itself. -/
@[mk_iff] structure Managed (path : RelPath) : Prop where
  parts : managedPathParts path = some path
  slash : ∀ part ∈ path, '/' ∉ part.toList

instance (path : RelPath) : Decidable (Managed path) :=
  decidable_of_iff _ (managed_iff ..).symm

theorem managed_of_pathParts {path : String} {parts : RelPath} (h : pathParts path = some parts) :
    Managed parts := by
  have hparts : parts = (path.toList.splitOn '/').map String.ofList := by
    rw [pathParts, managedPathParts] at h
    split at h
    · cases h
    · exact (Option.some.inj h).symm
  refine ⟨by rwa [pathParts, ← hparts] at h, fun part hpart => ?_⟩
  rw [hparts] at hpart
  obtain ⟨chars, hchars, rfl⟩ := List.mem_map.mp hpart
  rw [String.toList_ofList]
  exact Lib.PosixPath.mem_splitOn_slash hchars

theorem Managed.ne_nil {path : RelPath} (h : Managed path) : path ≠ [] := by
  rintro rfl
  cases h.parts

theorem pathParts_joinPath {path : RelPath} (h : Managed path) :
    pathParts (joinPath path) = some path := by
  have hsplit : (['/'].intercalate (path.map String.toList)).splitOn '/' =
      path.map String.toList := by
    apply List.splitOn_intercalate
    · intro part hpart
      obtain ⟨part, hmem, rfl⟩ := List.mem_map.mp hpart
      exact h.slash part hmem
    · exact fun hnil => h.ne_nil (List.map_eq_nil_iff.mp hnil)
  have hparts : (path.map String.toList).map String.ofList = path := by
    rw [List.map_map]
    exact (List.map_congr_left fun part _ => String.ofList_toList).trans (List.map_id path)
  rw [pathParts, joinPath, String.toList_ofList, hsplit, hparts, h.parts]

theorem joinPath_inj {path path' : RelPath} (h : Managed path) (h' : Managed path')
    (heq : joinPath path = joinPath path') : path = path' := by
  have hparts := pathParts_joinPath h
  rw [heq, pathParts_joinPath h'] at hparts
  exact (Option.some.inj hparts).symm

theorem joinPath_of_pathParts {path : String} {parts : RelPath} (h : pathParts path = some parts) :
    joinPath parts = path := by
  have hparts : parts = (path.toList.splitOn '/').map String.ofList := by
    rw [pathParts, managedPathParts] at h
    split at h
    · cases h
    · exact (Option.some.inj h).symm
  have hchars : parts.map String.toList = path.toList.splitOn '/' := by
    rw [hparts, List.map_map]
    exact (List.map_congr_left fun part _ => String.toList_ofList).trans (List.map_id _)
  rw [joinPath, hchars, List.intercalate_splitOn, String.ofList_toList]

theorem reads_file : Reader safeRelativeFile (fun file => .str (joinPath file)) Managed where
  ok _ h := by
    obtain ⟨_, -, h⟩ := Option.bind_eq_some_iff.mp h
    exact managed_of_pathParts h
  back h := pathParts_joinPath h
  canonical _ _ _ := trivial

/-! ### Absolute paths -/

/-- An absolute path that is its own normal form. -/
@[mk_iff] structure Normal (path : String) : Prop where
  absolute : isAbsolute path = true
  normal : normalize path = path

instance (path : String) : Decidable (Normal path) :=
  decidable_of_iff _ (normal_iff ..).symm

theorem normal_normalize {path : String} (h : isAbsolute path = true) : Normal (normalize path) where
  absolute := by
    rw [isAbsolute, normalize, String.toList_ofList]
    exact Lib.PosixPath.isAbsolute_normalize h
  normal := by
    rw [normalize, normalize, String.toList_ofList, Lib.PosixPath.normalize_normalize h]

theorem normal_of_absolutePath {v : Json} {path : String} (h : absolutePath v = some path) :
    Normal path := by
  obtain ⟨path, hpath, rfl⟩ := Option.map_eq_some_iff.mp h
  exact normal_normalize (Option.filter_eq_some_iff.mp hpath).2

theorem reads_absolutePath : Reader absolutePath Json.str Normal where
  ok _ h := normal_of_absolutePath h
  back h := by
    have hmatching : matching isAbsolute (.str _) = some _ := Option.filter_some_pos h.absolute
    rw [absolutePath, hmatching, Option.map_some, h.normal]
  canonical _ _ _ := trivial

/-- The path of a skill with this name. -/
@[mk_iff] structure NormalSkillPath (name path : String) : Prop extends Normal path where
  basename : basename path = name

instance (name path : String) : Decidable (NormalSkillPath name path) :=
  decidable_of_iff _ (normalSkillPath_iff ..).symm

theorem basename_normalize {name path : String} (hname : Lib.PosixPath.Names name.toList)
    (h : isAbsolute path = true) (hbase : basename path = name) : basename (normalize path) = name := by
  have hbase : Lib.PosixPath.basename path.toList = name.toList := by
    rw [← hbase, basename, String.toList_ofList]
  rw [basename, normalize, String.toList_ofList,
    Lib.PosixPath.basename_normalize h hname hbase, String.ofList_toList]

theorem reads_skillPath {name : String} (hname : Lib.PosixPath.Names name.toList) :
    Reader (skillPath name) Json.str (NormalSkillPath name) where
  ok _ h := by
    obtain ⟨path, hpath, rfl⟩ := Option.map_eq_some_iff.mp h
    have htest := (Option.filter_eq_some_iff.mp hpath).2
    rw [Bool.and_eq_true, beq_iff_eq] at htest
    exact ⟨normal_normalize htest.1, basename_normalize hname htest.1 htest.2⟩
  back {path} h := by
    have htest : (isAbsolute path && Lockfile.basename path == name) = true := by
      rw [h.absolute, h.basename, beq_self_eq_true]
      rfl
    have hmatching : matching (fun path => isAbsolute path && Lockfile.basename path == name)
        (.str path) = some path := Option.filter_some_pos htest
    rw [skillPath, hmatching, Option.map_some, h.normal]
  canonical _ _ _ := trivial

/-! ### Names of items -/

theorem lowerCase_lowerCase (s : String) : lowerCase (lowerCase s) = lowerCase s := by
  rw [lowerCase, lowerCase, String.toList_ofList, List.map_map]
  congr 1
  exact List.map_congr_left fun c _ => Char.toLower_toLower_eq_toLower c

theorem isValidItemName_chars {name : String} (h : isValidItemName name = true) :
    name.toList ≠ [] ∧ ∀ c ∈ name.toList, (isLowerAlnum c || c == '_' || c == '-') = true := by
  rw [isValidItemName] at h
  split at h
  next => cases h
  next c rest hlist =>
    simp only [Bool.and_eq_true, List.all_eq_true] at h
    refine ⟨hlist ▸ List.cons_ne_nil _ _, ?_⟩
    rw [hlist]
    refine List.forall_mem_cons.mpr ⟨?_, h.2⟩
    rw [h.1.1]
    rfl

theorem toLower_of_lowerName {c : Char} (h : (isLowerAlnum c || c == '_' || c == '-') = true) :
    c.toLower = c := by
  refine Char.toLower_eq_of_not_isUpper fun hupper => ?_
  simp only [Char.isUpper, decide_eq_true_eq, UInt32.le_iff_toNat_le, ge_iff_le]
    at hupper
  simp only [isLowerAlnum, Bool.or_eq_true, Bool.and_eq_true, decide_eq_true_eq, Char.le_def,
    UInt32.le_iff_toNat_le, beq_iff_eq] at h
  rcases h with ((h | h) | rfl) | rfl
  · have ha : 'a'.val.toNat = 97 := rfl
    have hz : 'Z'.val.toNat = 90 := rfl
    omega
  · have h9 : '9'.val.toNat = 57 := rfl
    have hA : 'A'.val.toNat = 65 := rfl
    omega
  · exact absurd hupper.2 (by decide)
  · exact absurd hupper.1 (by decide)

theorem lowerCase_of_valid {name : String} (h : isValidItemName name = true) :
    lowerCase name = name := by
  have hmap : name.toList.map Char.toLower = name.toList :=
    (List.map_congr_left fun c hc => toLower_of_lowerName ((isValidItemName_chars h).2 c hc)).trans
      (List.map_id _)
  rw [lowerCase, hmap, String.ofList_toList]

theorem names_of_isLegacyName {name : String} (h : isLegacyName name = true) :
    Lib.PosixPath.Names name.toList := by
  obtain ⟨hne, hall⟩ := isValidItemName_chars h
  rw [lowerCase, String.toList_ofList] at hne hall
  have hnot : ∀ c ∈ name.toList, c.toLower ≠ '.' ∧ c.toLower ≠ '/' := by
    intro c hc
    have hlower := hall _ (List.mem_map_of_mem hc)
    constructor
    · intro heq
      rw [heq] at hlower
      cases hlower
    · intro heq
      rw [heq] at hlower
      cases hlower
  refine ⟨fun hnil => hne (by rw [hnil]; rfl), fun hdot => ?_, fun hdots => ?_, fun hslash => ?_⟩
  · exact (hnot '.' (hdot ▸ .head _)).1 rfl
  · exact (hnot '.' (hdots ▸ .head _)).1 rfl
  · exact (hnot '/' hslash).2 rfl

/-- A key in either case. -/
@[mk_iff] structure LegacyKey (key : Key) : Prop where
  type : isLegacyName key.type = true
  name : isLegacyName key.name = true

instance (key : Key) : Decidable (LegacyKey key) :=
  decidable_of_iff _ (legacyKey_iff ..).symm

theorem itemKey_keyText {key : Key} (h : LegacyKey key) : itemKey (keyText key) = some key := by
  have hsplit : (keyText key).toList.splitOn '/' = [key.type.toList, key.name.toList] := by
    have htext : (keyText key).toList =
        ['/'].intercalate [key.type.toList, key.name.toList] := by
      simp [keyText, List.intercalate_cons_cons, List.intercalate_singleton]
    rw [htext]
    apply List.splitOn_intercalate
    · rw [List.forall_mem_cons, List.forall_mem_singleton]
      exact ⟨(names_of_isLegacyName h.type).slash, (names_of_isLegacyName h.name).slash⟩
    · exact List.cons_ne_nil _ _
  rw [itemKey, hsplit]
  simp only [List.map_cons, List.map_nil, String.ofList_toList]
  rw [h.type, h.name]
  rfl

theorem keyText_inj {key key' : Key} (h : LegacyKey key) (h' : LegacyKey key')
    (heq : keyText key = keyText key') : key = key' := by
  have hkey := itemKey_keyText h
  rw [heq, itemKey_keyText h'] at hkey
  exact (Option.some.inj hkey).symm

theorem legacyKey_of_itemKey {s : String} {key : Key} (h : itemKey s = some key) : LegacyKey key := by
  rw [itemKey] at h
  split at h
  next =>
    split at h
    next hnames =>
      cases h
      rw [Bool.and_eq_true] at hnames
      exact ⟨hnames.1, hnames.2⟩
    next => cases h
  next => cases h

theorem keyText_of_itemKey {s : String} {key : Key} (h : itemKey s = some key) : keyText key = s := by
  rw [itemKey] at h
  split at h
  next type name hparts =>
    split at h
    next =>
      cases h
      have hsplit : s.toList.splitOn '/' = [type.toList, name.toList] := by
        have hmap := congrArg (List.map String.toList) hparts
        rw [List.map_map] at hmap
        exact (List.map_id _).symm.trans
          ((List.map_congr_left fun _ _ => String.toList_ofList.symm).trans hmap)
      have htext : ['/'].intercalate (s.toList.splitOn '/') = s.toList :=
        List.intercalate_splitOn '/'
      apply String.toList_injective
      rw [← htext, hsplit]
      simp [keyText, List.intercalate_cons_cons, List.intercalate_singleton]
    next => cases h
  next => cases h

theorem reads_key : Reader readKey (fun key => .str (keyText key)) LegacyKey where
  ok _ h := by
    obtain ⟨_, -, h⟩ := Option.bind_eq_some_iff.mp h
    exact legacyKey_of_itemKey h
  back h := itemKey_keyText h
  canonical _ _ _ := trivial

/-! ## Sets -/

theorem nodup_eraseDups {α : Type*} [DecidableEq α] (l : List α) : l.eraseDups.Nodup := by
  induction hn : l.length using Nat.strongRecOn generalizing l with
  | _ n ih =>
    cases l with
    | nil => exact List.nodup_nil
    | cons a l =>
      rw [List.eraseDups_cons, List.nodup_cons]
      refine ⟨fun hmem => ?_, ih _ ?_ _ rfl⟩
      · have hfalse := (List.mem_filter.mp (List.mem_eraseDups.mp hmem)).2
        rw [beq_self_eq_true] at hfalse
        cases hfalse
      · rw [← hn, List.length_cons]
        exact Nat.lt_succ_of_le (List.length_filter_le _ _)

theorem eraseDups_of_nodup {α : Type*} [DecidableEq α] {l : List α} (h : l.Nodup) :
    l.eraseDups = l := by
  induction l with
  | nil => rfl
  | cons a l ih =>
    rw [List.nodup_cons] at h
    have hfilter : l.filter (fun b => !b == a) = l := by
      refine List.filter_eq_self.mpr fun b hb => ?_
      rw [Bool.not_eq_true', beq_eq_false_iff_ne]
      rintro rfl
      exact h.1 hb
    rw [List.eraseDups_cons, hfilter, ih h.2]

/-- Keys as they are kept for consent and for tombstones. -/
@[mk_iff] structure KeysOk (keys : List Key) : Prop where
  nodup : keys.Nodup
  valid : ∀ key ∈ keys, isValidItemName key.type = true ∧ isValidItemName key.name = true

instance (keys : List Key) : Decidable (KeysOk keys) :=
  decidable_of_iff _ (keysOk_iff ..).symm

theorem lowerKey_of_valid {key : Key}
    (h : isValidItemName key.type = true ∧ isValidItemName key.name = true) : lowerKey key = key := by
  rw [lowerKey, lowerCase_of_valid h.1, lowerCase_of_valid h.2]

theorem legacyKey_of_valid {key : Key}
    (h : isValidItemName key.type = true ∧ isValidItemName key.name = true) : LegacyKey key where
  type := by rw [isLegacyName, lowerCase_of_valid h.1, h.1]
  name := by rw [isLegacyName, lowerCase_of_valid h.2, h.2]

theorem keysOk_canonicalKeys (v : Option Json) : KeysOk (canonicalKeys v) := by
  rw [canonicalKeys.eq_def]
  split
  next items =>
    refine ⟨nodup_eraseDups _, fun key hkey => ?_⟩
    obtain ⟨spelled, hspelled, rfl⟩ := List.mem_map.mp (List.mem_eraseDups.mp hkey)
    obtain ⟨w, -, hread⟩ := List.mem_filterMap.mp hspelled
    obtain ⟨_, -, hread⟩ := Option.bind_eq_some_iff.mp hread
    have hlegacy := legacyKey_of_itemKey hread
    exact ⟨hlegacy.type, hlegacy.name⟩
  next => exact ⟨List.nodup_nil, List.forall_mem_nil _⟩

theorem canonicalKeys_writeKeys {keys : List Key} (h : KeysOk keys) :
    canonicalKeys (some (writeKeys keys)) = keys := by
  have hread : (keys.map fun key => Json.str (keyText key)).filterMap readKey = keys := by
    rw [List.filterMap_map]
    exact (List.filterMap_congr fun key hkey =>
      itemKey_keyText (legacyKey_of_valid (h.valid key hkey))).trans List.filterMap_some
  have hlower : keys.map lowerKey = keys :=
    (List.map_congr_left fun key hkey => lowerKey_of_valid (h.valid key hkey)).trans (List.map_id _)
  show (((keys.map fun key => Json.str (keyText key)).filterMap readKey).map lowerKey).eraseDups = keys
  rw [hread, hlower, eraseDups_of_nodup h.nodup]

/-- Identities of recoveries. -/
@[mk_iff] structure IdsOk (ids : List String) : Prop where
  nodup : ids.Nodup
  valid : ∀ id ∈ ids, isRecoveryId id = true

instance (ids : List String) : Decidable (IdsOk ids) :=
  decidable_of_iff _ (idsOk_iff ..).symm

theorem idsOk_recoveryIds {v : Option Json} {ids : List String} (h : recoveryIds v = some ids) :
    IdsOk ids := by
  rw [recoveryIds.eq_def] at h
  split at h
  next items =>
    cases h
    refine ⟨nodup_eraseDups _, fun id hid => ?_⟩
    obtain ⟨w, -, hread⟩ := List.mem_filterMap.mp (List.mem_eraseDups.mp hid)
    exact (Option.filter_eq_some_iff.mp hread).2
  next => cases h

theorem recoveryIds_writeRecoveryIds {ids : List String} (h : IdsOk ids) :
    recoveryIds (some (writeRecoveryIds ids)) = some ids := by
  have hread : (ids.map Json.str).filterMap (matching isRecoveryId) = ids := by
    rw [List.filterMap_map]
    exact (List.filterMap_congr fun id hid => Option.filter_some_pos (h.valid id hid)).trans
      List.filterMap_some
  show some ((ids.map Json.str).filterMap (matching isRecoveryId)).eraseDups = some ids
  rw [hread, eraseDups_of_nodup h.nodup]

/-! ## Identities -/

theorem directoryIdentity_holds {v : Json} {identity : DirectoryIdentity}
    (h : v.Holds [("dev", some (writeId identity.dev)), ("ino", some (writeId identity.ino))]) :
    directoryIdentity v = some identity := by
  simp only [Holds, List.forall_mem_cons] at h
  rw [directoryIdentity, h.1, h.2.1, Option.bind_some, Option.bind_some, filesystemId_writeId,
    filesystemId_writeId]
  rfl

theorem reads_identity : Reader directoryIdentity writeIdentity fun _ => True where
  ok _ _ := trivial
  back _ := directoryIdentity_holds (Adapter.Json.holds_object (by simp))
  canonical _ _ _ := by
    refine Adapter.Json.canonical_object (by simp) ?_
    simp only [List.forall_mem_cons, Option.mem_some_iff, forall_eq']
    exact ⟨trivial, trivial, List.forall_mem_nil _⟩

theorem reads_fileIdentity : Reader fileIdentity writeFileIdentity (isConfigCandidate ·.name = true) where
  ok hv h := by
    obtain ⟨name, hname, h⟩ := Option.bind_eq_some_iff.mp h
    obtain ⟨identity, -, h⟩ := Option.bind_eq_some_iff.mp h
    cases h
    exact (Reader.matching isConfigCandidate).bind_ok hv hname
  back {identity} h := by
    have hholds : (writeFileIdentity identity).Holds _ := Adapter.Json.holds_object (by simp)
    simp only [Holds, List.forall_mem_cons] at hholds
    have hidentity : directoryIdentity (writeFileIdentity identity) =
        some identity.toDirectoryIdentity :=
      directoryIdentity_holds (List.forall_mem_cons.mpr ⟨hholds.2.1, List.forall_mem_cons.mpr
        ⟨hholds.2.2.1, List.forall_mem_nil _⟩⟩)
    have hname : matching isConfigCandidate (.str identity.name) = some identity.name :=
      Option.filter_some_pos h
    rw [fileIdentity, hholds.1, Option.bind_some, hname, hidentity]
    rfl
  canonical _ _ _ := by
    refine Adapter.Json.canonical_object (by simp) ?_
    simp only [List.forall_mem_cons, Option.mem_some_iff, forall_eq']
    exact ⟨trivial, trivial, trivial, List.forall_mem_nil _⟩

/-! ## Snapshots -/

@[mk_iff] structure SourceOk (source : GitSource) : Prop where
  ref : isRevisionText source.ref.toList = true
  rev : isObjectIdText source.rev.toList = true
  lower : source.rev.toList.map Char.toLower = source.rev.toList
  path : ∀ path ∈ source.path, isPathText path.toList = true

instance (source : GitSource) : Decidable (SourceOk source) :=
  decidable_of_iff _ (sourceOk_iff ..).symm

theorem isObjectIdText_textOf {v : Option Json} (h : isGitObjectId v = true) :
    isObjectIdText (textOf v) = true := by
  rw [isGitObjectId.eq_def] at h
  split at h
  next => exact h
  next => cases h

theorem isRevisionText_textOf {v : Option Json} (h : isValidGitRevision v = true) :
    isRevisionText (textOf v) = true := by
  rw [isValidGitRevision, Bool.or_eq_true] at h
  rw [isRevisionText, Bool.or_eq_true]
  rcases h with h | h
  · exact .inl (isObjectIdText_textOf h)
  · rw [isValidGitBranch.eq_def] at h
    split at h
    next => exact .inr h
    next => cases h

theorem isPathText_textOf {v : Option Json} (h : isCanonicalGitPath v = true) :
    isPathText (textOf v) = true := by
  rw [isCanonicalGitPath.eq_def] at h
  split at h
  next => exact h
  next => cases h

theorem sourceOk_of_snapshotSource {v : Option Json} {source : InstalledSource}
    (h : snapshotSource v = some source) :
    SourceOk ⟨String.ofList source.ref, String.ofList source.rev, source.path.map String.ofList⟩ := by
  rw [snapshotSource.eq_def] at h
  split at h
  next fields =>
    dsimp only at h
    generalize (if Json.nullish ((Json.obj fields).get "ref") = true then
      (Json.obj fields).get "rev" else (Json.obj fields).get "ref") = gitRef at h
    split at h
    next htest =>
      cases h
      simp only [Bool.and_eq_true] at htest
      obtain ⟨⟨⟨-, href⟩, hrev⟩, hpath⟩ := htest
      have hrev := isObjectIdText_textOf hrev
      refine ⟨?_, ?_, ?_, ?_⟩
      · rw [String.toList_ofList]
        exact isRevisionText_textOf href
      · rw [String.toList_ofList]
        exact isObjectIdText_toLower hrev
      · rw [String.toList_ofList]
        exact toLower_toLower hrev
      · intro path hmem
        rw [Option.map_map] at hmem
        obtain ⟨w, hw, rfl⟩ := Option.map_eq_some_iff.mp hmem
        rw [hw, Option.isNone_some, Bool.false_or] at hpath
        show isPathText (String.ofList (textOf ((Json.obj fields).get "path"))).toList = true
        rw [String.toList_ofList, hw]
        exact isPathText_textOf hpath
    next => cases h
  next => cases h

theorem snapshotSource_toJson {ref rev : UrlPolicy.Text} {path : Option UrlPolicy.Text}
    (href : isRevisionText ref = true) (hrev : isObjectIdText rev = true)
    (hpath : ∀ p ∈ path, isPathText p = true) :
    snapshotSource (some (InstalledSource.toJson ⟨ref, rev, path⟩)) =
      some ⟨ref, rev.map Char.toLower, path⟩ := by
  rw [isRevisionText] at href
  cases path with
  | none =>
    simp [snapshotSource, InstalledSource.toJson, Json.get, List.lookup, Json.nullish, Json.isStr,
      isValidGitRevision, isGitObjectId, isValidGitBranch, textOf, href, hrev]
  | some path =>
    simp [snapshotSource, InstalledSource.toJson, Json.get, List.lookup, Json.nullish, Json.isStr,
      isValidGitRevision, isGitObjectId, isValidGitBranch, isCanonicalGitPath, textOf, href, hrev,
      hpath path rfl]

theorem reads_source : Reader sourceOf writeSource SourceOk where
  ok _ h := by
    obtain ⟨source, hsource, rfl⟩ := Option.map_eq_some_iff.mp h
    exact sourceOk_of_snapshotSource hsource
  back {source} h := by
    have hpath : ∀ path ∈ source.path.map String.toList, isPathText path = true := by
      intro path hmem
      obtain ⟨path, hpath, rfl⟩ := Option.map_eq_some_iff.mp hmem
      exact h.path path hpath
    have hmap : (source.path.map String.toList).map String.ofList = source.path := by
      rw [Option.map_map]
      exact (Option.map_congr fun path _ => String.ofList_toList).trans Option.map_id_apply
    rw [sourceOf, writeSource, snapshotSource_toJson h.ref h.rev hpath, Option.map_some, h.lower,
      hmap, String.ofList_toList, String.ofList_toList]
  canonical number {source} h := by
    rw [writeSource, InstalledSource.toJson]
    cases source.path with
    | none => exact ⟨by simp, trivial, trivial, trivial, trivial⟩
    | some path => exact ⟨by simp, trivial, trivial, trivial, trivial, trivial⟩

theorem isHash_lowerCase {hash : String} (h : isHash hash = true) : isHash (lowerCase hash) = true := by
  rw [isHash, lowerCase, String.toList_ofList]
  exact isHex_toLower h

theorem reads_distinctFiles :
    Reader distinctFiles writeFiles fun files => (∀ file ∈ files, Managed file) ∧ files.Nodup where
  ok hv h := by
    obtain ⟨h, hnodup⟩ := Option.filter_eq_some_iff.mp h
    exact ⟨reads_file.all.ok hv h, of_decide_eq_true hnodup⟩
  back h := by
    rw [distinctFiles, writeFiles, reads_file.all.back h.1]
    exact Option.filter_some_pos (decide_eq_true h.2)
  canonical number _ h := reads_file.all.canonical number h.1

/-- The hashes of these files. -/
@[mk_iff] structure FileHashesOk (files : List RelPath) (hashes : List (RelPath × Hash)) : Prop where
  length : hashes.length = files.length
  nodup : (hashes.map Prod.fst).Nodup
  file : ∀ hash ∈ hashes, Managed hash.1 ∧ hash.1 ∈ files
  hash : ∀ hash ∈ hashes, isHash hash.2 = true

instance (files : List RelPath) (hashes : List (RelPath × Hash)) :
    Decidable (FileHashesOk files hashes) :=
  decidable_of_iff (hashes.length = files.length ∧ (hashes.map Prod.fst).Nodup ∧
      (∀ hash ∈ hashes, Managed hash.1 ∧ files.elem hash.1 = true) ∧
      ∀ hash ∈ hashes, isHash hash.2 = true) <| by
    simp only [fileHashesOk_iff, List.elem_iff]

theorem readFileHash_some {files : List RelPath} {entry : String × Json} {hash : RelPath × Hash}
    (h : readFileHash files entry = some hash) :
    pathParts entry.1 = some hash.1 ∧ hash.1 ∈ files ∧ isHash hash.2 = true := by
  obtain ⟨file, hfile, h⟩ := Option.bind_eq_some_iff.mp h
  obtain ⟨digest, hdigest, h⟩ := Option.bind_eq_some_iff.mp h
  cases h
  obtain ⟨hfile, hmem⟩ := Option.filter_eq_some_iff.mp hfile
  exact ⟨hfile, of_decide_eq_true hmem, (Option.filter_eq_some_iff.mp hdigest).2⟩

theorem reads_fileHashes (files : List RelPath) :
    Reader (readFileHashes files) writeFileHashes (FileHashesOk files) where
  ok {v hashes} hv h := by
    cases v with
    | obj fields =>
      rw [readFileHashes] at h
      split at h
      next hlength =>
        have hkeys : hashes.map (fun hash => joinPath hash.1) = fields.map Prod.fst :=
          Adapter.Json.map_of_mapM h fun field hash hfield =>
            joinPath_of_pathParts (readFileHash_some hfield).1
        have hnodup := hv.1
        rw [← hkeys] at hnodup
        refine ⟨?_, ?_, fun hash hmem => ?_, fun hash hmem => ?_⟩
        · have := congrArg List.length hkeys
          rwa [List.length_map, List.length_map, hlength] at this
        · refine List.Nodup.of_map joinPath ?_
          rwa [List.map_map]
        · obtain ⟨field, -, hfield⟩ := Adapter.Json.exists_of_mapM h hmem
          obtain ⟨hfile, hkept, -⟩ := readFileHash_some hfield
          exact ⟨managed_of_pathParts hfile, hkept⟩
        · obtain ⟨field, -, hfield⟩ := Adapter.Json.exists_of_mapM h hmem
          exact (readFileHash_some hfield).2.2
      next => cases h
    | _ => cases h
  back {hashes} h := by
    rw [writeFileHashes, readFileHashes, List.length_map, if_pos h.length]
    apply Adapter.Json.mapM_map
    intro hash hmem
    have hfile := h.file hash hmem
    have hhash : matching isHash (.str hash.2) = some hash.2 :=
      Option.filter_some_pos (h.hash hash hmem)
    have hkept : (some hash.1).filter (fun file => decide (file ∈ files)) = some hash.1 :=
      Option.filter_some_pos (decide_eq_true hfile.2)
    rw [readFileHash, pathParts_joinPath hfile.1, hkept, hhash]
    rfl
  canonical number {hashes} h := by
    refine Adapter.Json.canonical_entries joinPath h.nodup ?_ fun _ _ => trivial
    intro hash hmem hash' hmem' heq
    exact joinPath_inj (h.file hash hmem).1 (h.file hash' hmem').1 heq

/-! ### Whole snapshots -/

section

variable {dateParses : String → Bool}

/-- A snapshot that the lockfile may record. -/
@[mk_iff] structure SnapshotOk (dateParses : String → Bool) (snapshot : InstalledSnapshot) : Prop where
  sha256 : isHash snapshot.sha256 = true
  lower : lowerCase snapshot.sha256 = snapshot.sha256
  source : ∀ source ∈ snapshot.source, SourceOk source
  ne_nil : snapshot.files ≠ []
  files : (∀ file ∈ snapshot.files, Managed file) ∧ snapshot.files.Nodup
  directories : ∀ directories ∈ snapshot.directories,
    (∀ directory ∈ directories, Managed directory) ∧ directories.Nodup
  fileHashes : ∀ hashes ∈ snapshot.fileHashes, FileHashesOk snapshot.files hashes
  installedAt : dateParses snapshot.installedAt = true

instance (snapshot : InstalledSnapshot) : Decidable (SnapshotOk dateParses snapshot) :=
  decidable_of_iff _ (snapshotOk_iff ..).symm

theorem installedSnapshot_ok {v : Json} {snapshot : InstalledSnapshot} (hv : v.Distinct)
    (h : installedSnapshot dateParses v = some snapshot) : SnapshotOk dateParses snapshot := by
  obtain ⟨sha256, hsha256, h⟩ := Option.bind_eq_some_iff.mp h
  obtain ⟨files, hfiles, h⟩ := Option.bind_eq_some_iff.mp h
  obtain ⟨directories, hdirectories, h⟩ := Option.bind_eq_some_iff.mp h
  obtain ⟨installedAt, hinstalledAt, h⟩ := Option.bind_eq_some_iff.mp h
  obtain ⟨fileHashes, hfileHashes, h⟩ := Option.bind_eq_some_iff.mp h
  cases h
  have hfiles := (reads_distinctFiles.filter fun files => decide (files ≠ [])).bind_ok hv hfiles
  have hsha256 := (Reader.matching isHash).bind_ok hv hsha256
  exact {
    sha256 := isHash_lowerCase hsha256
    lower := lowerCase_lowerCase _
    source := fun source hsource => reads_source.bind_ok hv hsource
    ne_nil := of_decide_eq_true hfiles.2
    files := hfiles.1
    directories := reads_distinctFiles.optional_ok hv hdirectories
    fileHashes := (reads_fileHashes files).optional_ok hv hfileHashes
    installedAt := (Reader.matching dateParses).bind_ok hv hinstalledAt }

theorem installedSnapshot_holds {v : Json} {snapshot : InstalledSnapshot}
    (hv : v.Holds (snapshotFields snapshot)) (h : SnapshotOk dateParses snapshot) :
    installedSnapshot dateParses v = some snapshot := by
  simp only [snapshotFields, Holds, List.forall_mem_cons] at hv
  obtain ⟨hsha256, hsource, hfiles, hdirectories, hfileHashes, hinstalledAt, -⟩ := hv
  have hhash : matching isHash (.str snapshot.sha256) = some snapshot.sha256 :=
    Option.filter_some_pos h.sha256
  have hdate : matching dateParses (.str snapshot.installedAt) = some snapshot.installedAt :=
    Option.filter_some_pos h.installedAt
  rw [installedSnapshot, hsha256, hsource, hfiles, hdirectories, hfileHashes, hinstalledAt]
  have hkept : (some snapshot.files).filter (fun files => decide (files ≠ [])) =
      some snapshot.files := Option.filter_some_pos (decide_eq_true h.ne_nil)
  simp only [Option.bind_eq_bind, Option.bind_some, hhash, hdate, hkept, h.lower,
    reads_distinctFiles.back h.files, reads_distinctFiles.optional_back h.directories,
    (reads_fileHashes snapshot.files).optional_back h.fileHashes, reads_source.bind_back h.source]
  rfl

theorem canonical_snapshotFields {number : List Char → String} {snapshot : InstalledSnapshot}
    (h : SnapshotOk dateParses snapshot) :
    ∀ field ∈ snapshotFields snapshot, ∀ v ∈ field.2, Canonical number v := by
  simp only [snapshotFields, List.forall_mem_cons]
  refine ⟨?_, reads_source.canonical_map number h.source, ?_,
    reads_distinctFiles.canonical_map number h.directories,
    (reads_fileHashes snapshot.files).canonical_map number h.fileHashes, ?_,
    List.forall_mem_nil _⟩
  · rintro _ ⟨⟩
    trivial
  · rintro _ ⟨⟩
    exact reads_distinctFiles.canonical number h.files
  · rintro _ ⟨⟩
    trivial

theorem reads_snapshot :
    Reader (installedSnapshot dateParses) writeSnapshot (SnapshotOk dateParses) where
  ok := installedSnapshot_ok
  back h := installedSnapshot_holds (Adapter.Json.holds_object (by simp [snapshotFields])) h
  canonical _ _ h :=
    Adapter.Json.canonical_object (by simp [snapshotFields]) (canonical_snapshotFields h)

end

/-! ## Links of skills -/

@[mk_iff] structure LinkOk (name : String) (link : InstalledSkillLink) : Prop where
  path : NormalSkillPath name link.path
  target : NormalSkillPath name link.target

instance (name : String) (link : InstalledSkillLink) : Decidable (LinkOk name link) :=
  decidable_of_iff _ (linkOk_iff ..).symm

theorem reads_skillLink {name : String} (hname : Lib.PosixPath.Names name.toList) :
    Reader (skillLink name) writeSkillLink (LinkOk name) where
  ok hv h := by
    obtain ⟨path, hpath, h⟩ := Option.bind_eq_some_iff.mp h
    obtain ⟨target, htarget, h⟩ := Option.bind_eq_some_iff.mp h
    obtain ⟨identity, -, h⟩ := Option.bind_eq_some_iff.mp h
    cases h
    exact ⟨(reads_skillPath hname).bind_ok hv hpath, (reads_skillPath hname).bind_ok hv htarget⟩
  back {link} h := by
    have hholds : (writeSkillLink link).Holds _ := Adapter.Json.holds_object (by simp)
    simp only [Holds, List.forall_mem_cons] at hholds
    obtain ⟨hpath, htarget, hdev, hino, -⟩ := hholds
    have hidentity : directoryIdentity (writeSkillLink link) = some link.toDirectoryIdentity :=
      directoryIdentity_holds (List.forall_mem_cons.mpr ⟨hdev, List.forall_mem_cons.mpr
        ⟨hino, List.forall_mem_nil _⟩⟩)
    rw [skillLink, hpath, htarget, hidentity]
    simp only [Option.bind_eq_bind, Option.bind_some, (reads_skillPath hname).back h.path,
      (reads_skillPath hname).back h.target]
    rfl
  canonical _ _ _ := by
    refine Adapter.Json.canonical_object (by simp) ?_
    simp only [List.forall_mem_cons, Option.mem_some_iff, forall_eq']
    exact ⟨trivial, trivial, trivial, trivial, List.forall_mem_nil _⟩

@[mk_iff] structure LinksOk (name : String) (links : List InstalledSkillLink) : Prop where
  all : ∀ link ∈ links, LinkOk name link
  nodup : (links.map InstalledSkillLink.path).Nodup

instance (name : String) (links : List InstalledSkillLink) : Decidable (LinksOk name links) :=
  decidable_of_iff _ (linksOk_iff ..).symm

theorem reads_skillLinks {key : Key} (hname : Lib.PosixPath.Names key.name.toList) :
    Reader (installedSkillLinks key) (fun links => .arr (links.map writeSkillLink))
      (LinksOk key.name) where
  ok hv h := by
    obtain ⟨h, hnodup⟩ := Option.filter_eq_some_iff.mp h
    exact ⟨(reads_skillLink hname).all.ok hv h, of_decide_eq_true hnodup⟩
  back h := by
    rw [installedSkillLinks, (reads_skillLink hname).all.back h.all]
    exact Option.filter_some_pos (decide_eq_true h.nodup)
  canonical number _ h := (reads_skillLink hname).all.canonical number h.all

@[mk_iff] structure PublicationOk (name : String) (publication : InstalledSkillLinkPublication) : Prop where
  path : NormalSkillPath name publication.path
  target : NormalSkillPath name publication.target

instance (name : String) (publication : InstalledSkillLinkPublication) : Decidable (PublicationOk name publication) :=
  decidable_of_iff _ (publicationOk_iff ..).symm

theorem reads_publication {key : Key} (hname : Lib.PosixPath.Names key.name.toList) :
    Reader (installedSkillLinkPublication key) writePublication (PublicationOk key.name) where
  ok hv h := by
    obtain ⟨path, hpath, h⟩ := Option.bind_eq_some_iff.mp h
    obtain ⟨target, htarget, h⟩ := Option.bind_eq_some_iff.mp h
    cases h
    exact ⟨(reads_skillPath hname).bind_ok hv hpath, (reads_skillPath hname).bind_ok hv htarget⟩
  back {publication} h := by
    have hholds : (writePublication publication).Holds _ := Adapter.Json.holds_object (by simp)
    simp only [Holds, List.forall_mem_cons] at hholds
    obtain ⟨hpath, htarget, -⟩ := hholds
    rw [installedSkillLinkPublication, hpath, htarget]
    simp only [Option.bind_eq_bind, Option.bind_some, (reads_skillPath hname).back h.path,
      (reads_skillPath hname).back h.target]
    rfl
  canonical _ _ _ := by
    refine Adapter.Json.canonical_object (by simp) ?_
    simp only [List.forall_mem_cons, Option.mem_some_iff, forall_eq']
    exact ⟨trivial, trivial, List.forall_mem_nil _⟩

/-- The migration of a skill under either spelling of its key. -/
@[mk_iff] structure MigrationOk (key : Key) (migration : InstalledLegacySkillMigration) : Prop where
  legacy : LegacyKey migration.installedKey
  skill : isSkillKey migration.installedKey = true
  same : lowerKey migration.installedKey = lowerKey key
  root : Normal migration.installRoot

instance (key : Key) (migration : InstalledLegacySkillMigration) : Decidable (MigrationOk key migration) :=
  decidable_of_iff _ (migrationOk_iff ..).symm

theorem reads_migration (key : Key) :
    Reader (installedLegacySkillMigration key) writeMigration (MigrationOk key) where
  ok hv h := by
    obtain ⟨spelled, hspelled, h⟩ := Option.bind_eq_some_iff.mp h
    obtain ⟨root, hroot, h⟩ := Option.bind_eq_some_iff.mp h
    obtain ⟨identity, -, h⟩ := Option.bind_eq_some_iff.mp h
    cases h
    obtain ⟨w, hget, hspelled⟩ := Option.bind_eq_some_iff.mp hspelled
    obtain ⟨hspelled, htest⟩ := Option.filter_eq_some_iff.mp hspelled
    rw [Bool.and_eq_true, beq_iff_eq] at htest
    exact ⟨reads_key.ok (hv.get hget) hspelled, htest.1, htest.2, reads_absolutePath.bind_ok hv hroot⟩
  back {migration} h := by
    have hholds : (writeMigration migration).Holds _ := Adapter.Json.holds_object (by simp)
    simp only [Holds, List.forall_mem_cons] at hholds
    obtain ⟨hkey, hroot, hidentity, -⟩ := hholds
    have htest : (isSkillKey migration.installedKey &&
        lowerKey migration.installedKey == lowerKey key) = true := by
      rw [h.skill, h.same, beq_self_eq_true]
      rfl
    have hkept : (some migration.installedKey).filter (fun spelled =>
        isSkillKey spelled && lowerKey spelled == lowerKey key) = some migration.installedKey :=
      Option.filter_some_pos htest
    rw [installedLegacySkillMigration, hkey, hroot, hidentity]
    simp only [Option.bind_eq_bind, Option.bind_some, reads_key.back h.legacy, hkept,
      reads_absolutePath.back h.root,
      reads_identity.back trivial]
    rfl
  canonical number {migration} h := by
    refine Adapter.Json.canonical_object (by simp) ?_
    simp only [List.forall_mem_cons, Option.mem_some_iff, forall_eq']
    exact ⟨trivial, trivial, reads_identity.canonical number trivial, List.forall_mem_nil _⟩

/-! ## Records -/

section

variable {dateParses : String → Bool}

/-- A record that the lockfile may hold under a key. -/
@[mk_iff] structure RecordOk (dateParses : String → Bool) (key : Key) (record : InstalledRecord) : Prop where
  stable : SnapshotOk dateParses record.toInstalledSnapshot
  installRoot : ∀ root ∈ record.installRoot, isSkillKey key = true ∧ Normal root
  skillLinks : ∀ links ∈ record.skillLinks,
    links ≠ [] ∧ isSkillKey key = true ∧ LinksOk key.name links
  skillLinkPublication : ∀ publication ∈ record.skillLinkPublication,
    isSkillKey key = true ∧ PublicationOk key.name publication
  configCandidate : ∀ identity ∈ record.configCandidate, isConfigCandidate identity.name = true
  installMarker : ∀ id ∈ record.installMarker, isRecoveryId id = true
  rejectionRecoveryId : ∀ id ∈ record.rejectionRecoveryId, isRecoveryId id = true
  removalRecoveryId : ∀ id ∈ record.removalRecoveryId, isRecoveryId id = true
  pending : ∀ snapshot ∈ record.pending, SnapshotOk dateParses snapshot
  legacySkillMigration : ∀ migration ∈ record.legacySkillMigration, MigrationOk key migration ∧
    record.uncommitted = true ∧ record.pending.isSome = true ∧ record.removalRecoveryId.isSome = true

instance (key : Key) (record : InstalledRecord) : Decidable (RecordOk dateParses key record) :=
  decidable_of_iff _ (recordOk_iff ..).symm

/-- Only a skill has links. -/
theorem skillOnly_iff {key : Key} {links publication : Bool} :
    ¬(!isSkillKey key && (links || publication)) = true ↔
      (links = true ∨ publication = true → isSkillKey key = true) := by
  cases isSkillKey key <;> cases links <;> cases publication <;> decide

/-- A migration is journaled. -/
theorem journaled_iff {α β : Type*} {migration uncommitted : Bool} {pending : Option α}
    {id : Option β} :
    ¬(migration && (!uncommitted || pending.isNone || id.isNone)) = true ↔
      (migration = true → uncommitted = true ∧ pending.isSome = true ∧ id.isSome = true) := by
  cases migration <;> cases uncommitted <;> cases pending <;> cases id <;> simp

theorem installedRecord_ok {v : Json} {key : Key} {record : InstalledRecord} (hkey : LegacyKey key)
    (hv : v.Distinct) (h : installedRecord dateParses v key = some record) :
    RecordOk dateParses key record := by
  have hname := names_of_isLegacyName hkey.name
  obtain ⟨stable, hstable, h⟩ := Option.bind_eq_some_iff.mp h
  obtain ⟨links, hlinks, h⟩ := Option.bind_eq_some_iff.mp h
  obtain ⟨publication, hpublication, h⟩ := Option.bind_eq_some_iff.mp h
  split at h
  next => cases h
  next hskill =>
    obtain ⟨migration, hmigration, h⟩ := Option.bind_eq_some_iff.mp h
    dsimp only at h
    split at h
    next => cases h
    next hjournal =>
      cases h
      have hisSkill := skillOnly_iff.mp hskill
      exact {
        stable := installedSnapshot_ok hv hstable
        installRoot := fun root hroot => by
          obtain ⟨hroot, hskill⟩ := Option.filter_eq_some_iff.mp hroot
          exact ⟨hskill, reads_absolutePath.bind_ok hv hroot⟩
        skillLinks := fun kept hkept => by
          obtain ⟨heq, hne⟩ := Option.filter_eq_some_iff.mp hkept
          exact ⟨of_decide_eq_true hne, hisSkill (.inl (Option.isSome_of_mem hkept)),
            (reads_skillLinks hname).optional_ok hv hlinks kept heq⟩
        skillLinkPublication := fun p hp =>
          ⟨hisSkill (.inr (Option.isSome_of_mem hp)),
            (reads_publication hname).optional_ok hv hpublication p hp⟩
        configCandidate := fun identity => reads_fileIdentity.bind_ok hv
        installMarker := fun id => (Reader.matching isRecoveryId).bind_ok hv
        rejectionRecoveryId := fun id => (Reader.matching isRecoveryId).bind_ok hv
        removalRecoveryId := fun id => (Reader.matching isRecoveryId).bind_ok hv
        pending := fun snapshot => reads_snapshot.bind_ok hv
        legacySkillMigration := fun m hm =>
          ⟨(reads_migration key).optional_ok hv hmigration m hm,
            journaled_iff.mp hjournal (Option.isSome_of_mem hm)⟩ }

/-! ### Written records -/

theorem filter_of_forall {α : Type*} {o : Option α} {test : α → Bool} (h : ∀ a ∈ o, test a = true) :
    o.filter test = o := by
  cases o with
  | none => rfl
  | some a => exact Option.filter_some_pos (h a rfl)

theorem nodup_recordFields (record : InstalledRecord) :
    ((recordFields record).map Prod.fst).Nodup := by
  simp [recordFields, snapshotFields]

theorem installedRecord_writeRecord {key : Key} {record : InstalledRecord} (hkey : LegacyKey key)
    (h : RecordOk dateParses key record) :
    installedRecord dateParses (writeRecord record) key = some record := by
  have hname := names_of_isLegacyName hkey.name
  have hholds : (writeRecord record).Holds (recordFields record) :=
    Adapter.Json.holds_object (nodup_recordFields record)
  rw [recordFields, Holds, List.forall_mem_append] at hholds
  obtain ⟨hstable, hfields⟩ := hholds
  simp only [List.forall_mem_cons] at hfields
  obtain ⟨hroot, hlinks, hpublication, huncommitted, hcandidate, hconfig, hmarker, hrejection,
    hremoval, hpending, hmigration, -⟩ := hfields
  have hskillLinks : ∀ links ∈ record.skillLinks, LinksOk key.name links :=
    fun links hmem => (h.skillLinks links hmem).2.2
  have hkept : record.skillLinks.filter (fun links => decide (links ≠ [])) = record.skillLinks :=
    filter_of_forall fun links hmem => decide_eq_true (h.skillLinks links hmem).1
  have hrootKept : record.installRoot.filter (fun _ => isSkillKey key) = record.installRoot :=
    filter_of_forall fun root hmem => (h.installRoot root hmem).1
  have hmatching : ∀ {test : String → Bool} {o : Option String}, (∀ s ∈ o, test s = true) →
      (o.map Json.str).bind (matching test) = o := fun ho => (Reader.matching _).bind_back ho
  have htrue : isTrue (if record.uncommitted = true then some (.bool true) else none) =
      record.uncommitted := by
    cases record.uncommitted <;> rfl
  have hskill : ¬(!isSkillKey key &&
      (record.skillLinks.isSome || record.skillLinkPublication.isSome)) = true := by
    rw [skillOnly_iff]
    rintro (hsome | hsome)
    · obtain ⟨links, hmem⟩ := Option.isSome_iff_exists.mp hsome
      exact (h.skillLinks links hmem).2.1
    · obtain ⟨publication, hmem⟩ := Option.isSome_iff_exists.mp hsome
      exact (h.skillLinkPublication publication hmem).1
  have hjournal : ¬(record.legacySkillMigration.isSome &&
      (!record.uncommitted || record.pending.isNone || record.removalRecoveryId.isNone)) = true := by
    rw [journaled_iff]
    intro hsome
    obtain ⟨migration, hmem⟩ := Option.isSome_iff_exists.mp hsome
    exact (h.legacySkillMigration migration hmem).2
  rw [installedRecord, installedSnapshot_holds hstable h.stable, hroot, hlinks, hpublication,
    huncommitted, hcandidate, hconfig, hmarker, hrejection, hremoval, hpending, hmigration]
  simp only [Option.bind_eq_bind, Option.bind_some, (reads_skillLinks hname).optional_back hskillLinks,
    (reads_publication hname).optional_back fun p hmem => (h.skillLinkPublication p hmem).2,
    (reads_migration key).optional_back fun m hmem => (h.legacySkillMigration m hmem).1,
    reads_absolutePath.bind_back fun root hmem => (h.installRoot root hmem).2,
    reads_snapshot.bind_back h.pending, reads_identity.bind_back fun _ _ => trivial,
    reads_fileIdentity.bind_back h.configCandidate, hmatching h.installMarker,
    hmatching h.rejectionRecoveryId, hmatching h.removalRecoveryId, htrue, hkept, hrootKept,
    if_neg hskill, if_neg hjournal]
  rfl

theorem canonical_writeRecord {number : List Char → String} {key : Key} {record : InstalledRecord}
    (hkey : LegacyKey key) (h : RecordOk dateParses key record) :
    Canonical number (writeRecord record) := by
  have hname := names_of_isLegacyName hkey.name
  have hid : ∀ (o : Option String), ∀ v ∈ o.map Json.str, Canonical number v := by
    intro o v hv
    obtain ⟨_, -, rfl⟩ := Option.map_eq_some_iff.mp hv
    trivial
  refine Adapter.Json.canonical_object (nodup_recordFields record) ?_
  rw [recordFields, List.forall_mem_append]
  refine ⟨canonical_snapshotFields h.stable, ?_⟩
  simp only [List.forall_mem_cons]
  refine ⟨hid _,
    (reads_skillLinks hname).canonical_map number fun links hmem => (h.skillLinks links hmem).2.2,
    (reads_publication hname).canonical_map number fun p hmem => (h.skillLinkPublication p hmem).2,
    ?_, reads_identity.canonical_map number fun _ _ => trivial,
    reads_fileIdentity.canonical_map number h.configCandidate, hid _, hid _, hid _,
    reads_snapshot.canonical_map number h.pending,
    (reads_migration key).canonical_map number fun m hmem => (h.legacySkillMigration m hmem).1,
    List.forall_mem_nil _⟩
  cases record.uncommitted with
  | false => exact fun _ hv => nomatch hv
  | true =>
    rintro _ ⟨⟩
    trivial

/-! ## States -/

/-- A state that the lockfile may hold. -/
@[mk_iff] structure StateOk (dateParses : String → Bool) (state : ProvisionStateFile) : Prop where
  approved : KeysOk state.approved
  revoked : KeysOk state.revoked
  adopted : ∀ keys ∈ state.adopted, KeysOk keys
  removalRecoveries : ∀ ids ∈ state.removalRecoveries, IdsOk ids
  /-- Only retained recoveries have a root, and the roots stand in their order. -/
  removalRecoveryRoots : ∀ roots ∈ state.removalRecoveryRoots, roots ≠ [] ∧
    (∃ ids ∈ state.removalRecoveries, (roots.map Prod.fst).Sublist ids) ∧
    ∀ root ∈ roots, Normal root.2
  upgradeRecoveries : ∀ ids ∈ state.upgradeRecoveries, IdsOk ids
  nodup : (state.installed.map Prod.fst).Nodup
  installed : ∀ entry ∈ state.installed, LegacyKey entry.1 ∧ RecordOk dateParses entry.1 entry.2

instance (state : ProvisionStateFile) : Decidable (StateOk dateParses state) :=
  decidable_of_iff _ (stateOk_iff ..).symm

theorem stateOk_emptyState : StateOk dateParses emptyState where
  approved := ⟨List.nodup_nil, List.forall_mem_nil _⟩
  revoked := ⟨List.nodup_nil, List.forall_mem_nil _⟩
  adopted _ h := nomatch h
  removalRecoveries _ h := nomatch h
  removalRecoveryRoots _ h := nomatch h
  upgradeRecoveries _ h := nomatch h
  nodup := List.nodup_nil
  installed := List.forall_mem_nil _

/-- The roots that are read stand in the order of the identities. -/
theorem recoveryRoots_ok {ids : List String} {v : Json} {roots : List (String × String)}
    (h : recoveryRoots ids v = some roots) :
    (roots.map Prod.fst).Sublist ids ∧ ∀ root ∈ roots, Normal root.2 := by
  cases v with
  | obj fields =>
    cases h
    constructor
    · induction ids with
      | nil => exact .slnil
      | cons id ids ih =>
        rw [List.filterMap_cons]
        split
        next => exact ih.cons _
        next root hroot =>
          obtain ⟨path, -, rfl⟩ := Option.map_eq_some_iff.mp hroot
          exact ih.cons_cons _
    · intro root hroot
      obtain ⟨id, -, hroot⟩ := List.mem_filterMap.mp hroot
      obtain ⟨path, hpath, rfl⟩ := Option.map_eq_some_iff.mp hroot
      obtain ⟨w, -, hpath⟩ := Option.bind_eq_some_iff.mp hpath
      exact normal_of_absolutePath hpath
  | _ => cases h

theorem filterMap_lookup {ids : List String} {roots : List (String × String)} (hids : ids.Nodup)
    (h : (roots.map Prod.fst).Sublist ids) :
    (ids.filterMap fun id => (roots.lookup id).map (id, ·)) = roots := by
  induction ids generalizing roots with
  | nil => exact (List.map_eq_nil_iff.mp (List.sublist_nil.mp h)).symm
  | cons id ids ih =>
    rw [List.nodup_cons] at hids
    rcases List.sublist_cons_iff.mp h with hsub | ⟨keys, hkeys, hsub⟩
    · have hnone : roots.lookup id = none := by
        refine List.lookup_eq_none_iff.mpr fun root hroot => bne_iff_ne.mpr ?_
        rintro rfl
        exact hids.1 (hsub.subset (List.mem_map_of_mem hroot))
      rw [List.filterMap_cons, hnone]
      exact ih hids.2 hsub
    · cases roots with
      | nil => cases hkeys
      | cons root roots =>
        obtain ⟨rfl, rfl⟩ := List.cons.inj hkeys
        have hrest : ∀ id ∈ ids, ((root :: roots).lookup id).map (id, ·) =
            (roots.lookup id).map (id, ·) := by
          intro id hid
          have hne : (id == root.1) = false := by
            rw [beq_eq_false_iff_ne]
            rintro rfl
            exact hids.1 hid
          rw [List.lookup_cons, hne]
        rw [List.filterMap_cons, List.lookup_cons_self, List.filterMap_congr hrest,
          ih hids.2 hsub]
        rfl

theorem installedEntry_some {entry : String × Json} {read : Key × InstalledRecord}
    (h : installedEntry dateParses entry = some read) :
    itemKey entry.1 = some read.1 ∧ installedRecord dateParses entry.2 read.1 = some read.2 := by
  obtain ⟨key, hkey, h⟩ := Option.bind_eq_some_iff.mp h
  obtain ⟨record, hrecord, h⟩ := Option.bind_eq_some_iff.mp h
  cases h
  exact ⟨hkey, hrecord⟩

/-- An index of an array is not the key of an item. -/
theorem itemKey_toString (n : Nat) : itemKey (toString n) = none := by
  have hdigits : (toString n).toList = Nat.toDigits 10 n := Nat.toList_repr
  have hslash : '/' ∉ Nat.toDigits 10 n := fun hmem =>
    absurd (Nat.isDigit_of_mem_toDigits (by decide) (Nat.le_refl 10) hmem) (by decide)
  rw [itemKey, hdigits, List.splitOn_eq_singleton hslash]
  rfl

theorem nodup_installed {v : Option Json} (hv : ∀ w ∈ v, w.Distinct) :
    (((entries v).filterMap (installedEntry dateParses)).map Prod.fst).Nodup := by
  rw [entries.eq_def]
  split
  next fields =>
    have hkeys := (hv _ rfl).1
    have hsub : ∀ fields : List (String × Json),
        (((fields.filterMap (installedEntry dateParses)).map Prod.fst).map keyText).Sublist
          (fields.map Prod.fst) := by
      intro fields
      induction fields with
      | nil => exact .slnil
      | cons field fields ih =>
        rw [List.filterMap_cons]
        split
        next => exact ih.cons _
        next read hread =>
          rw [List.map_cons, List.map_cons, List.map_cons,
            keyText_of_itemKey (installedEntry_some hread).1]
          exact ih.cons_cons _
    exact List.Nodup.of_map keyText (hkeys.sublist (hsub fields))
  next items =>
    have hnil : (items.zipIdx.map fun item => (toString item.2, item.1)).filterMap
        (installedEntry dateParses) = [] := by
      refine List.filterMap_eq_nil_iff.mpr fun entry hentry => ?_
      obtain ⟨item, -, rfl⟩ := List.mem_map.mp hentry
      rw [installedEntry, itemKey_toString]
      rfl
    rw [hnil]
    exact List.nodup_nil
  next => exact List.nodup_nil

theorem installed_ok {v : Option Json} (hv : ∀ w ∈ v, w.Distinct) :
    ∀ read ∈ (entries v).filterMap (installedEntry dateParses),
      LegacyKey read.1 ∧ RecordOk dateParses read.1 read.2 := by
  intro read hread
  obtain ⟨entry, hentry, hread⟩ := List.mem_filterMap.mp hread
  obtain ⟨hkey, hrecord⟩ := installedEntry_some hread
  have hlegacy := legacyKey_of_itemKey hkey
  refine ⟨hlegacy, installedRecord_ok hlegacy ?_ hrecord⟩
  rw [entries.eq_def] at hentry
  split at hentry
  next fields => exact Adapter.Json.distinctFields_iff.mp (hv _ rfl).2 entry hentry
  next items =>
    obtain ⟨item, hitem, rfl⟩ := List.mem_map.mp hentry
    exact Adapter.Json.distinctItems_iff.mp (hv _ rfl) item.1 (List.fst_mem_of_mem_zipIdx hitem)
  next => cases hentry

theorem parsedState_ok {parsed : Json} (hv : parsed.Distinct) :
    StateOk dateParses (parsedState dateParses parsed) where
  approved := keysOk_canonicalKeys _
  revoked := keysOk_canonicalKeys _
  adopted keys h := by
    obtain ⟨w, -, rfl⟩ := Option.map_eq_some_iff.mp h
    exact keysOk_canonicalKeys _
  removalRecoveries ids h := idsOk_recoveryIds h
  removalRecoveryRoots roots h := by
    obtain ⟨ids, hids, h⟩ := Option.bind_eq_some_iff.mp h
    obtain ⟨kept, hkept, h⟩ := Option.bind_eq_some_iff.mp h
    split at h
    next => cases h
    next hne =>
      cases h
      obtain ⟨w, -, hkept⟩ := Option.bind_eq_some_iff.mp hkept
      have hroots := recoveryRoots_ok hkept
      exact ⟨hne, ⟨ids, hids, hroots.1⟩, hroots.2⟩
  upgradeRecoveries ids h := idsOk_recoveryIds h
  nodup := nodup_installed fun _ => hv.get
  installed := installed_ok fun _ => hv.get

/-- Whatever the lockfile holds, the loaded state is well formed. -/
theorem loadState_ok (number : List Char → String) (raw : Option (List Char)) :
    StateOk dateParses (loadState number dateParses raw) := by
  rw [loadState]
  split
  next fields hparsed =>
    obtain ⟨text, -, hparsed⟩ := Option.bind_eq_some_iff.mp hparsed
    exact parsedState_ok (Adapter.Json.distinct_parseJson hparsed)
  next items hparsed =>
    obtain ⟨text, -, hparsed⟩ := Option.bind_eq_some_iff.mp hparsed
    exact parsedState_ok (Adapter.Json.distinct_parseJson hparsed)
  next => exact stateOk_emptyState

/-! ### Saved states -/

theorem recoveryIds_map {o : Option (List String)} (h : ∀ ids ∈ o, IdsOk ids) :
    recoveryIds (o.map writeRecoveryIds) = o := by
  cases o with
  | none => rfl
  | some ids => exact recoveryIds_writeRecoveryIds (h ids rfl)

theorem recoveryRoots_write {ids : List String} {roots : List (String × String)} (hids : ids.Nodup)
    (hsub : (roots.map Prod.fst).Sublist ids) (hroots : ∀ root ∈ roots, Normal root.2) :
    recoveryRoots ids (.obj (roots.map fun root => (root.1, .str root.2))) = some roots := by
  have hlookup : ∀ id, ((roots.map fun root => (root.1, Json.str root.2)).lookup id).bind absolutePath =
      roots.lookup id := by
    intro id
    induction roots with
    | nil => rfl
    | cons root roots ih =>
      rw [List.forall_mem_cons] at hroots
      rw [List.map_cons, List.lookup_cons, List.lookup_cons]
      cases id == root.1 with
      | true => exact reads_absolutePath.back hroots.1
      | false => exact ih ((List.sublist_cons_self _ _).trans hsub) hroots.2
  rw [recoveryRoots]
  simp only [hlookup]
  rw [filterMap_lookup hids hsub]

theorem installed_written {installed : List (Key × InstalledRecord)}
    (h : ∀ entry ∈ installed, LegacyKey entry.1 ∧ RecordOk dateParses entry.1 entry.2) :
    (entries (some (.obj (installed.map fun entry =>
      (keyText entry.1, writeRecord entry.2))))).filterMap (installedEntry dateParses) =
        installed := by
  show (installed.map fun entry => (keyText entry.1, writeRecord entry.2)).filterMap
    (installedEntry dateParses) = installed
  rw [List.filterMap_map]
  refine (List.filterMap_congr fun entry hentry => ?_).trans List.filterMap_some
  obtain ⟨hkey, hrecord⟩ := h entry hentry
  show installedEntry dateParses (keyText entry.1, writeRecord entry.2) = some entry
  rw [installedEntry, itemKey_keyText hkey]
  simp only [Option.bind_eq_bind, Option.bind_some, installedRecord_writeRecord hkey hrecord]
  rfl

theorem parsedState_holds {v : Json} {state : ProvisionStateFile} (hv : v.Holds (stateFields state))
    (h : StateOk dateParses state) : parsedState dateParses v = state := by
  simp only [stateFields, Holds, List.forall_mem_cons] at hv
  obtain ⟨-, happroved, hrevoked, hadopted, hremovals, hroots, hupgrades, hinstalled, -⟩ := hv
  have hadoptedKeys : (state.adopted.map writeKeys).map (fun v => canonicalKeys (some v)) =
      state.adopted := by
    rw [Option.map_map]
    exact (Option.map_congr fun keys hmem => canonicalKeys_writeKeys (h.adopted keys hmem)).trans
      Option.map_id_apply
  have hrecoveryRoots : (do
      let ids ← state.removalRecoveries
      let roots ← (state.removalRecoveryRoots.map fun roots =>
        Json.obj (roots.map fun root => (root.1, .str root.2))).bind (recoveryRoots ids)
      if roots = [] then none else some roots) = state.removalRecoveryRoots := by
    cases hstored : state.removalRecoveryRoots with
    | none => cases state.removalRecoveries <;> rfl
    | some roots =>
      obtain ⟨hne, ⟨ids, hids, hsub⟩, hnormal⟩ := h.removalRecoveryRoots roots hstored
      have hread := recoveryRoots_write (h.removalRecoveries ids hids).nodup hsub hnormal
      rw [Option.mem_def.mp hids]
      simp only [Option.map_some, Option.bind_eq_bind, Option.bind_some, hread, if_neg hne]
  rw [parsedState, happroved, hrevoked, hadopted, hremovals, hroots, hupgrades, hinstalled]
  simp only [canonicalKeys_writeKeys h.approved, canonicalKeys_writeKeys h.revoked, hadoptedKeys,
    recoveryIds_map h.removalRecoveries, recoveryIds_map h.upgradeRecoveries, hrecoveryRoots,
    installed_written h.installed]

theorem canonical_stateFields {number : List Char → String} (hnumber : number ['1'] = "1")
    {state : ProvisionStateFile} (h : StateOk dateParses state) :
    Canonical number (object (stateFields state)) := by
  have hkeys (keys) : Canonical number (writeKeys keys) :=
    Adapter.Json.canonical_items fun _ _ => trivial
  have hids (ids) : Canonical number (writeRecoveryIds ids) :=
    Adapter.Json.canonical_items fun _ _ => trivial
  refine Adapter.Json.canonical_object (by simp [stateFields]) ?_
  simp only [stateFields, List.forall_mem_cons, Option.mem_some_iff, forall_eq',
    Option.mem_map, forall_exists_index, and_imp, forall_apply_eq_imp_iff₂]
  refine ⟨⟨rfl, hnumber⟩, hkeys _, hkeys _, fun keys _ => hkeys keys, fun ids _ => hids ids, ?_,
    fun ids _ => hids ids, ?_, List.forall_mem_nil _⟩
  · intro roots hroots
    obtain ⟨-, ⟨ids, hids, hsub⟩, -⟩ := h.removalRecoveryRoots roots hroots
    have hnodup := (h.removalRecoveries ids hids).nodup.sublist hsub
    exact Adapter.Json.canonical_entries id hnodup (fun _ _ _ _ heq => heq) fun _ _ => trivial
  · refine Adapter.Json.canonical_entries keyText h.nodup ?_ fun entry hentry =>
      canonical_writeRecord (h.installed entry hentry).1 (h.installed entry hentry).2
    intro entry hentry entry' hentry' heq
    exact keyText_inj (h.installed entry hentry).1 (h.installed entry' hentry').1 heq

/-- A well formed state is loaded again as it was saved. -/
theorem loadState_stateText {number : List Char → String} (hnumber : number ['1'] = "1")
    {state : ProvisionStateFile} (h : StateOk dateParses state) :
    loadState number dateParses (some (stateText state)) = state := by
  have hparsed : parseJson number (stateText state) = some (object (stateFields state)) := by
    rw [stateText]
    exact Adapter.parseJson_print .indented (canonical_stateFields hnumber h)
      (List.forall_mem_singleton.mpr rfl)
  have hstate : parsedState dateParses (object (stateFields state)) = state :=
    parsedState_holds (Adapter.Json.holds_object (by simp [stateFields])) h
  rw [loadState, Option.bind_some, hparsed]
  exact hstate

/-- Loading brings every lockfile to a normal form, which saving keeps. -/
theorem loadState_normal {number : List Char → String} (hnumber : number ['1'] = "1")
    (dateParses : String → Bool) (raw : Option (List Char)) :
    StateOk dateParses (loadState number dateParses raw) ∧
      loadState number dateParses (some (stateText (loadState number dateParses raw))) =
        loadState number dateParses raw := by
  have hok : StateOk dateParses (loadState number dateParses raw) := loadState_ok number raw
  exact ⟨hok, loadState_stateText hnumber hok⟩

/-- The records that survive a restart are the well formed ones. -/
theorem reloads_iff {number : List Char → String} (hnumber : number ['1'] = "1")
    (dateParses : String → Bool) (state : ProvisionStateFile) :
    loadState number dateParses (some (stateText state)) = state ↔ StateOk dateParses state := by
  constructor
  · intro h
    rw [← h]
    exact loadState_ok number _
  · exact loadState_stateText hnumber

end

/-! ### A state with a skill -/

def reviewSnapshot : InstalledSnapshot where
  sha256 := String.ofList (List.replicate 64 'a')
  source := some ⟨"main", String.ofList (List.replicate 40 'b'), some "skills/review"⟩
  files := [["SKILL.md"], ["a", "0.txt"]]
  directories := some [["a"]]
  fileHashes := some [(["SKILL.md"], String.ofList (List.replicate 64 'C')),
    (["a", "0.txt"], String.ofList (List.replicate 64 '0'))]
  installedAt := "2026-01-01T00:00:00.000Z"

def reviewRecord : InstalledRecord :=
  { reviewSnapshot with
    installRoot := some "/home/dev/.claude/skills"
    skillLinks := some [⟨⟨2049, 17⟩, "/home/dev/.codex/skills/Review",
      "/home/dev/.claude/skills/Review"⟩]
    skillLinkPublication := none
    uncommitted := true
    candidateIdentity := some ⟨2049, 0⟩
    configCandidate := none
    installMarker := none
    rejectionRecoveryId := none
    pending := some reviewSnapshot
    legacySkillMigration := some ⟨⟨"Skill", "review"⟩, "/home/dev/.claude/skills/", ⟨2049, 5⟩⟩
    removalRecoveryId := some (String.ofList (List.replicate 32 'd')) }

def reviewState : ProvisionStateFile where
  approved := [⟨"skill", "review"⟩]
  revoked := []
  adopted := some []
  removalRecoveries := some [String.ofList (List.replicate 32 'd')]
  removalRecoveryRoots := some [(String.ofList (List.replicate 32 'd'), "/home/dev/.claude/skills")]
  upgradeRecoveries := none
  installed := [(⟨"skill", "Review"⟩, reviewRecord)]

theorem reviewState_ok : StateOk (fun _ => true) reviewState := by decide +kernel

theorem reloads_iff_review :
    loadState String.ofList (fun _ => true) (some (stateText reviewState)) = reviewState :=
  (reloads_iff (by decide) (fun _ => true) reviewState).mpr reviewState_ok

theorem loadState_normal_damaged :
    let raw := "\x7b\"approved\": [\"Skill/Review\", 7, \"skill/review\"], \"installed\": []".toList
    StateOk (fun _ => true) (loadState String.ofList (fun _ => true) (some (raw ++ ['\x7d']))) ∧
      (loadState String.ofList (fun _ => true) (some (raw ++ ['\x7d']))).approved =
        [⟨"skill", "review"⟩] ∧
      loadState String.ofList (fun _ => true) (some raw) = emptyState :=
  ⟨(loadState_normal (by decide) _ _).1, by decide +kernel, by decide +kernel⟩

end CliProxy.Provision.Lockfile
