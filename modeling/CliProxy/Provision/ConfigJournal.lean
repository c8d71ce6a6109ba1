import CliProxy.Provision.ConfigInstaller

/-! # Where an interrupted config installation can stop

The journal of a candidate is saved before its bytes are written. From then on the directory is
either as it was, with the candidate under its own name, or has the candidate as its
`config.json`; the journal resolves or stays accordingly. -/

namespace CliProxy.ConfigInstaller

open Lib Lib.Prog Sys Provision

/-! ## The rules of the calls -/

abbrev Facts :=
  Option ItemNode → Option InstalledRecord → Option ConfigCandidateJournal → Stage → Prop

def On (R : Facts) (w : World) : Prop := R w.disk.item w.record w.owned w.stage

section Rules

variable {R S : Facts} {I : World → Prop}

theorem turn_keeps {c : Call} : Keeps (On R) (turn c) := by
  intro w hw
  unfold turn
  cases w.turns with
  | nil => exact hw
  | cons t ts => exact hw

theorem faulty_keeps {fault : Option Fault} : Keeps I (faulty fault) := by
  match fault with
  | none => exact Keeps.pure
  | some (.fails _) => exact Keeps.throw
  | some .killed => exact Sat.die fun _ h => h

/-- The world after a call was made. -/
def World.after (w : World) (c : Call) (fault : Option Fault) (turns : List Turn) : World :=
  { w with turns, trace := w.trace ++ [⟨c, fault, w.disk.staging.isSome⟩] }

theorem turn_sat {c : Call} {P : World → Prop} {Q : Turn → World → Prop} {E : Error → World → Prop}
    {C : World → Prop} (h : ∀ w t turns, P w → Q t (w.after c t.fault turns)) :
    Sat P (turn c) Q E C := by
  rintro ⟨disk, turns, record, owned, stage, trace⟩ hw
  cases turns with
  | nil => exact h _ calm [] hw
  | cons t ts => exact h _ t ts hw

theorem call_sat {c : Call} {P Q C : World → Prop} {E : Error → World → Prop}
    (hok : ∀ w turns, P w → Q (w.after c none turns))
    (herr : ∀ w code turns, P w → E (.errno code) (w.after c (some (.fails code)) turns))
    (hkill : ∀ w turns, P w → C (w.after c (some .killed) turns)) :
    Sat P (call c) (fun _ => Q) E C := by
  refine Sat.bind (Q := fun t w' => ∃ w turns, P w ∧ w' = w.after c t.fault turns)
    (turn_sat fun w t turns hw => ⟨w, turns, hw, rfl⟩) fun t => ?_
  rcases t with ⟨_ | code | _, done⟩
  · exact Sat.pure fun _ ⟨w, turns, hw, h⟩ => h ▸ hok w turns hw
  · exact Sat.throw fun _ ⟨w, turns, hw, h⟩ => h ▸ herr w code turns hw
  · exact Sat.die fun _ ⟨w, turns, hw, h⟩ => h ▸ hkill w turns hw

theorem call_keeps {c : Call} : Keeps (On R) (call c) :=
  call_sat (fun _ _ h => h) (fun _ _ _ h => h) fun _ _ h => h

theorem setStaging_keeps {f : Staging → Staging} : Keeps (On R) (setStaging f) :=
  Sat.modify fun _ h => h

theorem setDir_sat {f : ItemDir → ItemDir}
    (h : ∀ item record owned stage, R item record owned stage →
      S (ItemNode.mapDir f item) record owned stage) :
    Sat (On R) (setDir f) (fun _ => On S) (fun _ => On S) (On S) :=
  Sat.modify fun _ H => h _ _ _ _ H

theorem setStage_sat {stage' : Stage}
    (h : ∀ item record owned stage, R item record owned stage → S item record owned stage') :
    Sat (On R) (setStage stage') (fun _ => On S) (fun _ => On S) (On S) :=
  Sat.modify fun _ H => h _ _ _ _ H

theorem setOwned_sat {owned' : Option ConfigCandidateJournal}
    (h : ∀ item record owned stage, R item record owned stage → S item record owned' stage) :
    Sat (On R) (setOwned owned') (fun _ => On S) (fun _ => On S) (On S) :=
  Sat.modify fun _ H => h _ _ _ _ H

end Rules

/-! ## Phases -/

/-- What one run starts from. -/
structure Setting where
  host : Host
  opts : ConfigOpts
  supply : Supply
  /-- The item directory as the run opens it. -/
  dir0 : ItemDir

namespace Setting

variable (c : Setting)

def previous : Option InstalledRecord := c.opts.previous.map .ofSnapshot

/-- The snapshot of an item whose `config.json` holds `contents`. -/
def new (contents : Bytes) : InstalledSnapshot :=
  candidateSnapshot c.opts.fingerprint c.opts.installedAt
    ⟨[configJson], [(configJson, c.host.sha256 contents)]⟩

/-- The path is a random candidate name. -/
def Drawn (path : RelPath) : Prop := ∃ id ∈ c.supply.draws, path = [candidateName id]

/-- No recorded path is a random candidate name. -/
def Fresh : Prop := ∀ stable, c.opts.previous = some stable →
  ∀ path, path ∈ stable.files ∨ path ∈ stable.directories.getD [] → ¬c.Drawn path

/-- Every file that the run made is empty, apart from the one at `path?`. -/
def Blank (path? : Option RelPath) (d : ItemDir) : Prop :=
  ∀ path file, d.file? path = some file → c.dir0.nextIno ≤ file.ino → some path ≠ path? →
    file.bytes = []

/-- The directory is the one that was opened, apart from candidates. -/
structure Near (held : Option RelPath) (d : ItemDir) : Prop where
  identity : d.identity = c.dir0.identity
  same : ∀ path, ¬c.Drawn path → d.entries path = c.dir0.entries path
  next : c.dir0.nextIno ≤ d.nextIno
  blank : c.Blank held d

/-- The candidate is under its own name. -/
structure Holds (j : ConfigCandidateJournal) (bytes : Bytes) (d : ItemDir) : Prop extends
    c.Near (some [j.candidate.name]) d where
  drawn : c.Drawn [j.candidate.name]
  target : j.targetIdentity = c.dir0.identity
  dev : j.candidate.dev = c.dir0.identity.dev
  new : c.dir0.nextIno ≤ j.candidate.ino
  file : d.file? [j.candidate.name] = some ⟨j.candidate.ino, FILE_MODE, bytes⟩

/-- The candidate is `config.json`, and the files of `removed` are gone. -/
structure Shows (j : ConfigCandidateJournal) (contents : Bytes) (removed : List RelPath)
    (d : ItemDir) : Prop where
  identity : d.identity = c.dir0.identity
  mode : d.mode = DIRECTORY_MODE
  target : j.targetIdentity = c.dir0.identity
  dev : j.candidate.dev = c.dir0.identity.dev
  drawn : c.Drawn [j.candidate.name]
  gone : d.entries [j.candidate.name] = none
  file : d.file? configJson = some ⟨j.candidate.ino, FILE_MODE, contents⟩
  same : ∀ path, ¬c.Drawn path → path ≠ configJson →
    d.entries path = if path ∈ removed then none else c.dir0.entries path
  blank : c.Blank (some configJson) d

def Start (item : Option ItemNode) : Facts := fun item' record owned stage =>
  item' = item ∧ record = c.previous ∧ owned = none ∧ stage = .unsaved

def Opened : Facts := fun item record owned stage =>
  (∃ d, item = some (.dir d) ∧ c.Near none d ∧ d.mode = c.dir0.mode) ∧
    record = c.previous ∧ owned = none ∧ stage = .unsaved

/-- The candidate is created and not journaled yet. -/
def Claimed (j : ConfigCandidateJournal) (owner : Option ConfigCandidateJournal) : Facts :=
  fun item record owned stage =>
    (∃ d, item = some (.dir d) ∧ c.Holds j [] d ∧ d.mode = c.dir0.mode) ∧
      record = c.previous ∧ owned = owner ∧ stage = .unsaved

def modeWhen (secured : Bool) : Nat := if secured then DIRECTORY_MODE else c.dir0.mode

def journaled (j : ConfigCandidateJournal) (contents : Bytes) : Option InstalledRecord :=
  some (journaledRecord c.opts.previous (c.new contents) j)

/-- The journal is saved and the candidate hidden; `P` holds of its bytes. -/
def Saved (j : ConfigCandidateJournal) (contents : Bytes) (secured : Bool) (P : Bytes → Prop) :
    Facts := fun item record owned stage =>
  (∃ d bytes, item = some (.dir d) ∧ c.Holds j bytes d ∧ d.mode = c.modeWhen secured ∧ P bytes) ∧
    record = c.journaled j contents ∧ owned = some j ∧ stage = .reserved secured

def Published (j : ConfigCandidateJournal) (contents : Bytes) (removed : List RelPath) :
    Facts := fun item record owned stage =>
  (∃ d, item = some (.dir d) ∧ c.Shows j contents removed d) ∧
    record = c.journaled j contents ∧ owned = none ∧ stage = .published removed

/-- No file that the run made holds anything, unless it is `config.json`. -/
def Tidy (item : Option ItemNode) : Prop :=
  ∀ d, ItemNode.dir? item = some d → c.Blank (some configJson) d

/-- What holds of every place where a run can stop. -/
def Stopped : Facts := fun item record owned stage =>
  (record = c.previous ∧ stage = .unsaved ∧ c.Tidy item) ∨
    (∃ j contents secured, c.Saved j contents secured (fun _ => True) item record owned stage) ∨
      ∃ j contents removed, c.Published j contents removed item record owned stage

end Setting

/-! ## Names -/

theorem isCandidateName_candidateName (id : RandomId) : isCandidateName (candidateName id) = true := by
  have h : (candidateName id).toList = CANDIDATE_PREFIX.toList ++ id.val.toList :=
    String.toList_append
  unfold isCandidateName
  rw [h, List.drop_left, String.ofList_toList]
  simp [id.property]

theorem candidateName_ne (id : RandomId) : [candidateName id] ≠ configJson := by
  intro h
  have h' : candidateName id = "config.json" := List.head_eq_of_cons_eq h
  have := congrArg String.toList h'
  simp [candidateName, CANDIDATE_PREFIX] at this

section Steps

variable {c : Setting} {j : ConfigCandidateJournal} {contents bytes : Bytes} {d : ItemDir}
  {held : Option RelPath}

theorem configJson_not_drawn : ¬c.Drawn configJson := by
  rintro ⟨id, -, h⟩
  exact candidateName_ne id h.symm

/-! ## The effects -/

theorem Setting.Blank.mono {held held' : Option RelPath} (H : c.Blank held d)
    (h : ∀ path, some path ≠ held' → some path ≠ held) : c.Blank held' d :=
  fun path file hfile hino hne => H path file hfile hino (h path hne)

/-- The opened directory has no file that the run made. -/
theorem Setting.blank_dir0 {held : Option RelPath} : c.Blank held c.dir0 :=
  fun _ _ hfile hino => absurd (c.dir0.ino_lt hfile) (Nat.not_lt.mpr hino)

theorem Setting.Blank.create (H : c.Blank none d) {path : RelPath} :
    c.Blank none (d.create path) := by
  intro p file hfile hino hne
  by_cases hp : p = path
  · subst hp
    rw [ItemDir.file?_create_self] at hfile
    rw [← Option.some.inj hfile]
  · refine H p file ?_ hino hne
    rw [← hfile]
    unfold ItemDir.file?
    rw [ItemDir.entries_create, if_neg hp]

theorem Setting.Blank.change (H : c.Blank held d) {path : RelPath} (hheld : some path = held)
    {mode : Nat → Nat} {f : Bytes → Bytes} : c.Blank held (d.change path mode f) := by
  intro p file hfile hino hne
  have hp : p ≠ path := fun e => hne (e ▸ hheld)
  refine H p file ?_ hino hne
  rw [← hfile]
  unfold ItemDir.file?
  rw [ItemDir.entries_change_of_ne d hp]

/-- Erasing a file leaves it empty as well. -/
theorem Setting.Blank.erase (H : c.Blank held d) {path : RelPath} {mode : Nat → Nat} :
    c.Blank held (d.change path mode fun _ => []) := by
  intro p file hfile hino hne
  by_cases hp : p = path
  · subst hp
    have hentry := ItemDir.entries_of_file? _ hfile
    simp only [ItemDir.change, if_true] at hentry
    split at hentry
    · cases hentry
      rfl
    · next h => exact absurd hentry (h file)
  · refine H p file ?_ hino hne
    rw [← hfile]
    unfold ItemDir.file?
    rw [ItemDir.entries_change_of_ne d hp]

theorem Setting.Near.create (H : c.Near none d) {id : RandomId} (hid : id ∈ c.supply.draws) :
    c.Near none (d.create [candidateName id]) where
  identity := H.identity
  same := by
    intro path hpath
    rw [ItemDir.entries_create, if_neg fun h => hpath ⟨id, hid, h⟩]
    exact H.same path hpath
  next := Nat.le_succ_of_le H.next
  blank := H.blank.create

theorem Setting.Near.holds (H : c.Near none d) {id : RandomId} (hid : id ∈ c.supply.draws) :
    c.Holds ⟨c.dir0.identity, ⟨⟨c.dir0.identity.dev, d.nextIno⟩, candidateName id⟩⟩ []
      (d.create [candidateName id]) where
  identity := H.identity
  same := (H.create hid).same
  next := (H.create hid).next
  blank := (H.create hid).blank.mono fun _ _ => nofun
  drawn := ⟨id, hid, rfl⟩
  target := rfl
  dev := rfl
  new := H.next
  file := ItemDir.file?_create_self d

/-- A change of the bytes of the hidden candidate, or of its mode to the one it has. -/
theorem Setting.Holds.change (H : c.Holds j bytes d) (mode : Nat → Nat) (f : Bytes → Bytes)
    (hmode : mode FILE_MODE = FILE_MODE) :
    c.Holds j (f bytes) (d.change [j.candidate.name] mode f) where
  identity := H.identity
  same := by
    intro path hpath
    have hne : path ≠ [j.candidate.name] := fun h => hpath (h ▸ H.drawn)
    rw [ItemDir.entries_change_of_ne d hne]
    exact H.same path hpath
  next := H.next
  blank := H.blank.change rfl
  drawn := H.drawn
  target := H.target
  dev := H.dev
  new := H.new
  file := by rw [ItemDir.file?_change_self d H.file, hmode]

theorem Setting.Holds.setMode (H : c.Holds j bytes d) {mode : Nat} :
    c.Holds j bytes (d.setMode mode) :=
  ⟨⟨H.identity, H.same, H.next, H.blank⟩, H.drawn, H.target, H.dev, H.new, H.file⟩

theorem Setting.Holds.rename (H : c.Holds j contents d) (hmode : d.mode = DIRECTORY_MODE) :
    c.Shows j contents [] (d.rename [j.candidate.name] configJson) where
  identity := H.identity
  mode := hmode
  target := H.target
  dev := H.dev
  drawn := H.drawn
  gone := by
    rw [ItemDir.entries_rename, if_neg, if_pos rfl]
    exact fun h => configJson_not_drawn (h ▸ H.drawn)
  file := by simp [ItemDir.file?, ItemDir.entries_rename, ItemDir.entries_of_file? d H.file]
  same := by
    intro path hpath hjson
    have hne : path ≠ [j.candidate.name] := fun h => hpath (h ▸ H.drawn)
    rw [ItemDir.entries_rename, if_neg hjson, if_neg hne]
    simpa using H.same path hpath
  blank := by
    intro path file hfile hino hne
    have hjson : path ≠ configJson := fun e => hne (congrArg some e)
    unfold ItemDir.file? at hfile
    rw [ItemDir.entries_rename, if_neg hjson] at hfile
    by_cases hname : path = [j.candidate.name]
    · rw [if_pos hname] at hfile
      exact absurd hfile.symm (Option.some_ne_none _)
    · rw [if_neg hname] at hfile
      exact H.blank path file hfile hino fun e => hname (Option.some.inj e)

theorem Setting.Shows.remove {removed : List RelPath} (H : c.Shows j contents removed d)
    {stale : RelPath} (h : stale ≠ configJson) :
    c.Shows j contents (removed ++ [stale]) (d.remove stale) where
  identity := H.identity
  mode := H.mode
  target := H.target
  dev := H.dev
  drawn := H.drawn
  gone := by
    rw [ItemDir.entries_remove]
    split
    · rfl
    · exact H.gone
  file := by
    have hfile := H.file
    unfold ItemDir.file? at hfile ⊢
    rwa [ItemDir.entries_remove, if_neg h.symm]
  same := by
    intro path hpath hjson
    rw [ItemDir.entries_remove]
    by_cases hstale : path = stale
    · simp [hstale]
    · simp [hstale, H.same path hpath hjson]
  blank := by
    intro path file hfile hino hne
    unfold ItemDir.file? at hfile
    rw [ItemDir.entries_remove] at hfile
    by_cases hstale : path = stale
    · rw [if_pos hstale] at hfile
      exact nomatch hfile
    · rw [if_neg hstale] at hfile
      exact H.blank path file hfile hino hne

/-! ## The run -/

/-- A call was not gentle. -/
def Harsh (w : World) : Prop := ∃ taken ∈ w.trace, ¬taken.Gentle

/-- Where a run has stopped after its `finally` block for the candidate. -/
def Left (c : Setting) (w : World) : Prop := On c.Stopped w ∧ (c.Tidy w.disk.item ∨ Harsh w)

theorem Left.stopped {w : World} (H : Left c w) : On c.Stopped w := H.1

theorem Setting.Blank.tidy (H : c.Blank (some configJson) d) : c.Tidy (some (.dir d)) := by
  rintro d' h
  exact Option.some.inj h ▸ H

/-- A run starts from a directory with none of its files. -/
theorem Setting.tidy_node {node : Option ItemNode}
    (hdir : c.dir0 = (ItemNode.dir? node).getD (.empty c.supply.directory)) : c.Tidy node := by
  intro d hd
  have heq : c.dir0 = d := by rw [hdir, hd]; rfl
  exact heq ▸ c.blank_dir0

theorem Setting.Start.left {item : Option ItemNode} {w : World}
    (hdir : c.dir0 = (ItemNode.dir? item).getD (.empty c.supply.directory))
    (H : On (c.Start item) w) : Left c w := by
  have htidy : c.Tidy w.disk.item := H.1 ▸ Setting.tidy_node hdir
  exact ⟨.inl ⟨H.2.1, H.2.2.2, htidy⟩, .inl htidy⟩

theorem Setting.Opened.left {w : World} (H : On c.Opened w) : Left c w := by
  obtain ⟨⟨d, hitem, hd, -⟩, hrecord, -, hstage⟩ := H
  have htidy : c.Tidy w.disk.item := hitem ▸ (hd.blank.mono fun _ _ => nofun).tidy
  exact ⟨.inl ⟨hrecord, hstage, htidy⟩, .inl htidy⟩

/-- A hidden candidate that holds nothing is as good as none. -/
theorem Setting.Holds.tidy (H : c.Holds j [] d) : c.Tidy (some (.dir d)) := by
  refine Setting.Blank.tidy fun path file hfile hino hne => ?_
  by_cases hname : path = [j.candidate.name]
  · subst hname
    rw [H.file] at hfile
    rw [← Option.some.inj hfile]
  · exact H.blank path file hfile hino fun e => hname (Option.some.inj e)

theorem Setting.Claimed.stopped {owner : Option ConfigCandidateJournal} {w : World}
    (H : On (c.Claimed j owner) w) : On c.Stopped w := by
  obtain ⟨⟨d, hitem, hd, -⟩, hrecord, -, hstage⟩ := H
  exact .inl ⟨hrecord, hstage, hitem ▸ hd.tidy⟩

theorem Setting.Saved.any {secured : Bool} {P : Bytes → Prop} {w : World}
    (H : On (c.Saved j contents secured P) w) :
    On (c.Saved j contents secured fun _ => True) w := by
  obtain ⟨⟨d, bytes, hitem, hd, hmode, -⟩, hrest⟩ := H
  exact ⟨⟨d, bytes, hitem, hd, hmode, trivial⟩, hrest⟩

theorem Setting.Saved.stopped {secured : Bool} {P : Bytes → Prop} {w : World}
    (H : On (c.Saved j contents secured P) w) : On c.Stopped w :=
  .inr (.inl ⟨j, contents, secured, Setting.Saved.any H⟩)

theorem Setting.Published.stopped {removed : List RelPath} {w : World}
    (H : On (c.Published j contents removed) w) : On c.Stopped w :=
  .inr (.inr ⟨j, contents, removed, H⟩)

/-- A program that keeps a phase which leaves nothing behind. -/
theorem Leaves {R : Facts} (hR : ∀ w, On R w → Left c w) {α : Type} {p : Sys α}
    (H : Keeps (On R) p) : Sat (On R) p (fun _ => On R) (fun _ => Left c) (On c.Stopped) :=
  H.conseq (fun _ h => h) (fun _ _ h => h) (fun _ => hR) fun w hw => (hR w hw).1

/-- A program that keeps a phase may stop at any point of it. -/
theorem Stops {R : Facts} (hR : ∀ w, On R w → On c.Stopped w) {α : Type} {p : Sys α}
    (H : Keeps (On R) p) :
    Sat (On R) p (fun _ => On R) (fun _ => On c.Stopped) (On c.Stopped) :=
  H.conseq (fun _ h => h) (fun _ _ h => h) (fun _ => hR) hR

theorem stage_sat {R : Facts} {host : Host} {item : ConfigItem} {supply : Supply}
    {archive : Bytes} : Sat (On R) (stage host item supply archive)
      (fun audited w => (∃ entries, auditConfigTree host entries = .ok audited) ∧ On R w)
      (fun _ => On R) (On R) := by
  refine Sat.bind call_keeps fun _ => Sat.bind (Q := fun _ => On R) ?_ fun _ => ?_
  · refine turn_keeps.bind fun t => ?_
    split
    · exact setStaging_keeps
    · exact setStaging_keeps.bind fun _ => faulty_keeps
  refine Sat.bind call_keeps fun _ => Sat.bind Keeps.ofExcept fun _ => ?_
  refine Sat.bind Keeps.throwIf fun _ => Sat.bind call_keeps fun _ => ?_
  refine Sat.bind setStaging_keeps fun _ => Sat.bind (Q := fun _ => On R) ?_ fun _ => ?_
  · refine Keeps.tryCatch (turn_keeps.bind fun t => ?_) fun _ => Keeps.throw
    split
    · exact setStaging_keeps
    · exact setStaging_keeps.bind fun _ => faulty_keeps.bind fun _ => Keeps.throw
  refine Sat.bind call_keeps fun _ => Sat.bind setStaging_keeps fun _ => ?_
  refine Sat.bind call_keeps fun _ => Sat.bind (Q := fun audited w =>
    (∃ entries, auditConfigTree host entries = .ok audited) ∧ On R w)
    (Sat.ofExcept (fun _ h _ hw => ⟨⟨_, h⟩, hw⟩) fun _ _ _ h => h) fun _ => Sat.assume fun h => ?_
  exact Sat.bind call_keeps fun _ => Sat.pure fun _ hw => ⟨h, hw⟩

/-- What passes the audit is one `config.json`. -/
theorem auditConfigTree_eq {host : Host} {entries : List (String × ConfigEntry)}
    {result : ConfigInstallResult} {contents : Bytes}
    (h : auditConfigTree host entries = .ok (result, contents)) :
    result = ⟨[configJson], [(configJson, host.sha256 contents)]⟩ := by
  unfold auditConfigTree at h
  split at h
  · split at h
    · exact nomatch h
    · exact nomatch h
    · next file =>
      split at h
      · exact nomatch h
      · split at h
        · exact nomatch h
        · split at h
          · exact nomatch h
          · cases h
            rfl
  · exact nomatch h

theorem prepareTargetDirectory_sat {item : Option ItemNode} {name : String}
    (hdir : c.dir0 = (ItemNode.dir? item).getD (.empty c.supply.directory)) :
    Sat (On (c.Start item)) (prepareTargetDirectory name c.supply.directory) (fun _ => On c.Opened)
      (fun _ => Left c) (On c.Stopped) := by
  have start : ∀ w, On (c.Start item) w → Left c w := fun _ => Setting.Start.left hdir
  have near : c.Near none c.dir0 := ⟨rfl, fun _ _ => rfl, Nat.le_refl _, c.blank_dir0⟩
  refine Sat.bind (Leaves start call_keeps) fun _ => Sat.get_bind fun w hw => ?_
  have ⟨hitem, hrest⟩ := hw
  split
  · next d heq =>
    refine Sat.pure ?_
    rintro _ rfl
    have hd : c.dir0 = d := by rw [hdir, ← hitem, heq]; rfl
    exact ⟨⟨d, heq, hd ▸ near, by rw [hd]⟩, hrest⟩
  · exact Sat.throw fun _ h => h ▸ start w hw
  · next heq =>
    refine Sat.bind (Q := fun _ => On (c.Start item)) ((Leaves start call_keeps).strengthen
      fun _ h => h ▸ hw) fun _ => Sat.modify fun v hv => ?_
    have hd : c.dir0 = .empty c.supply.directory := by rw [hdir, ← hitem, heq]; rfl
    exact ⟨⟨.empty c.supply.directory, rfl, hd ▸ near, by rw [hd]⟩, hv.2⟩

theorem openTargetDirectory_sat {name : String} :
    Sat (On c.Opened) (openTargetDirectory name)
      (fun targetFd w => targetFd = c.dir0.identity ∧ On c.Opened w) (fun _ => Left c)
      (On c.Stopped) := by
  refine Sat.bind (Leaves (fun _ => Setting.Opened.left) (call_keeps.tryCatch fun _ => Keeps.throw))
    fun _ => Sat.get_bind fun w hw => ?_
  have ⟨⟨d, hitem, hnear, _⟩, _⟩ := hw
  have hdir : w.disk.dir? = some d := by rw [Disk.dir?, hitem]; rfl
  rw [hdir]
  refine Sat.pure ?_
  rintro _ rfl
  exact ⟨hnear.identity, hw⟩

theorem assertTargetIdentity_keeps {R : Facts} {targetFd : DirectoryIdentity} {name : String} :
    Keeps (On R) (assertTargetIdentity targetFd name) := by
  refine (call_keeps.tryCatch fun _ => Keeps.throw).bind fun _ => Sat.get_bind fun w hw => ?_
  exact Sat.throwIf (fun _ _ h => h ▸ hw) fun _ _ h => h ▸ hw

theorem createCandidate_sat {name : String} {id : RandomId} (hid : id ∈ c.supply.draws) :
    Sat (On c.Opened) (createCandidate c.dir0.identity name id) (fun j => On (c.Claimed j none))
      (fun _ => On c.Opened) (On c.Stopped) := by
  have opened : ∀ w, On c.Opened w → On c.Stopped w := fun _ h => (Setting.Opened.left h).1
  refine Sat.bind (call_keeps.conseq (fun _ h => h) (fun _ _ h => h) (fun _ _ h => h) opened)
    fun _ => Sat.get_bind fun w hw => ?_
  have ⟨⟨d, hitem, hnear, hmode⟩, hrecord, howned, hstage⟩ := hw
  have hdir : w.disk.dir? = some d := by rw [Disk.dir?, hitem]; rfl
  rw [hdir]
  let Made : Facts := fun item record owned stage =>
    item = some (.dir (d.create [candidateName id])) ∧
      record = c.previous ∧ owned = none ∧ stage = .unsaved
  have made : ∀ v, On Made v → On c.Opened v := fun v hv =>
    ⟨⟨_, hv.1, hnear.create hid, hmode⟩, hv.2⟩
  have making : ∀ {α : Type} {p : Sys α}, Keeps (On Made) p →
      Sat (On Made) p (fun _ => On Made) (fun _ => On c.Opened) (On c.Stopped) := fun h =>
    h.conseq (fun _ h => h) (fun _ _ h => h) (fun _ => made) fun v hv => opened v (made v hv)
  refine Sat.bind (Q := fun _ v => v = w) (Sat.throwIf (fun _ _ h => h ▸ hw) fun _ _ h => h)
    fun _ => Sat.bind (Q := fun _ => On Made) (Sat.modify ?_) fun _ => ?_
  · intro v hv
    subst hv
    refine ⟨?_, hrecord, howned, hstage⟩
    show ItemNode.mapDir _ v.disk.item = _
    rw [hitem]
    rfl
  refine Sat.bind (making assertTargetIdentity_keeps) fun _ => ?_
  refine Sat.bind (making call_keeps) fun _ => Sat.pure fun v hv => ?_
  exact ⟨⟨_, hv.1, hnear.holds hid, hmode⟩, hv.2⟩

theorem reserveAttempts_sat {name : String} {draws : List RandomId}
    (hdraws : ∀ id ∈ draws, id ∈ c.supply.draws) :
    Sat (On c.Opened) (reserveAttempts c.dir0.identity name draws)
      (fun j => On (c.Claimed j none)) (fun _ => On c.Stopped) (On c.Stopped) := by
  have opened : ∀ w, On c.Opened w → On c.Stopped w := fun _ h => (Setting.Opened.left h).1
  induction draws with
  | nil => exact Sat.throw opened
  | cons id draws ih =>
    refine (createCandidate_sat (hdraws id List.mem_cons_self)).tryCatch fun err => ?_
    exact Sat.ite (fun _ => ih fun id' h => hdraws id' (List.mem_cons_of_mem _ h))
      fun _ => Sat.throw opened

theorem reserveCandidate_sat {name : String} :
    Sat (On c.Opened) (reserveCandidate c.dir0.identity name c.supply.draws)
      (fun j => On (c.Claimed j (some j))) (fun _ => On c.Stopped) (On c.Stopped) := by
  refine Sat.bind (Stops (fun _ h => (Setting.Opened.left h).1) call_keeps) fun _ => ?_
  refine Sat.bind (reserveAttempts_sat fun _ h => List.mem_of_mem_take h) fun j => ?_
  refine Sat.bind (Q := fun _ => On (c.Claimed j (some j))) (Sat.modify fun w hw => ?_)
    fun _ => Sat.pure fun _ h => h
  exact ⟨hw.1, hw.2.1, rfl, hw.2.2.2⟩

theorem beforeCommit_sat {result : ConfigInstallResult}
    (hresult : result = ⟨[configJson], [(configJson, c.host.sha256 contents)]⟩) :
    Sat (On (c.Claimed j (some j))) (beforeCommit c.opts result j)
      (fun _ => On (c.Saved j contents false fun _ => True)) (fun _ => On c.Stopped)
      (On c.Stopped) := by
  refine Sat.bind (Stops (fun _ => Setting.Claimed.stopped) call_keeps) fun _ => ?_
  refine Sat.modify fun w hw => ?_
  obtain ⟨⟨d, hitem, hd, hmode⟩, -, howned, -⟩ := hw
  subst hresult
  exact ⟨⟨d, [], hitem, hd, hmode, trivial⟩, rfl, howned, rfl⟩

/-- A change of the candidate's bytes while it is hidden. -/
theorem changeCandidate_sat {secured : Bool} {P Q : Bytes → Prop} {mode : Nat → Nat}
    {f : Bytes → Bytes} (hmode : mode FILE_MODE = FILE_MODE) (hf : ∀ bytes, P bytes → Q (f bytes)) :
    Sat (On (c.Saved j contents secured P))
      (setDir fun dir => dir.change [j.candidate.name] mode f)
      (fun _ => On (c.Saved j contents secured Q)) (fun _ => On (c.Saved j contents secured Q))
      (On (c.Saved j contents secured Q)) := by
  refine setDir_sat ?_
  rintro item record owned stage ⟨⟨d, bytes, rfl, hd, hdir, hP⟩, hrest⟩
  exact ⟨⟨_, _, rfl, hd.change mode f hmode, hdir, hf bytes hP⟩, hrest⟩

theorem writeCandidate_sat : Sat (On (c.Saved j contents false fun _ => True))
    (writeCandidate j contents) (fun _ => On (c.Saved j contents false (· = contents)))
    (fun _ => On c.Stopped) (On c.Stopped) := by
  have saved : ∀ w, On (c.Saved j contents false fun _ => True) w → On c.Stopped w :=
    fun _ => Setting.Saved.stopped
  refine Sat.bind (Stops saved turn_keeps) fun t => ?_
  split
  · exact (changeCandidate_sat (Q := (· = contents)) rfl fun _ _ => rfl).conseq (fun _ h => h)
      (fun _ _ h => h) (fun _ _ => Setting.Saved.stopped) fun _ => Setting.Saved.stopped
  · refine Sat.bind (Stops saved (changeCandidate_sat rfl fun _ _ => trivial)) fun _ => ?_
    next fault _ _ =>
      cases fault with
      | fails code => exact Sat.throw saved
      | killed => exact Sat.die saved

theorem secureCandidate_sat : Sat (On (c.Saved j contents false (· = contents)))
    (secureCandidate j) (fun _ => On (c.Saved j contents false (· = contents)))
    (fun _ => On c.Stopped) (On c.Stopped) := by
  refine Stops (fun _ => Setting.Saved.stopped) (call_keeps.bind fun _ => ?_)
  exact Keeps.bind (changeCandidate_sat rfl fun _ h => h) fun _ => call_keeps

theorem prepareCandidate_sat {item : ConfigItem} {result : ConfigInstallResult}
    (hresult : result = ⟨[configJson], [(configJson, c.host.sha256 contents)]⟩) :
    Sat (On c.Opened)
      (prepareCandidate item c.opts c.supply c.dir0.identity result contents)
      (fun j => On (c.Saved j contents false (· = contents))) (fun _ => On c.Stopped)
      (On c.Stopped) := by
  refine Sat.bind reserveCandidate_sat fun j => Sat.bind (beforeCommit_sat hresult) fun _ => ?_
  refine Sat.bind (Stops (fun _ => Setting.Saved.stopped) assertTargetIdentity_keeps) fun _ => ?_
  refine Sat.bind writeCandidate_sat fun _ => Sat.bind secureCandidate_sat fun _ => ?_
  exact Sat.bind (Stops (fun _ => Setting.Saved.stopped) assertTargetIdentity_keeps)
    fun _ => Sat.pure fun _ h => h

/-- The directory and the stage change together. -/
theorem chmodTarget_sat {secured secured' : Bool} {mode : Nat}
    (hmode : mode = c.modeWhen secured') {P : Bytes → Prop} :
    Sat (On (c.Saved j contents secured P))
      (do setDir fun dir => dir.setMode mode
          setStage (.reserved secured')
          call .syncTarget)
      (fun _ => On (c.Saved j contents secured' P)) (fun _ => On c.Stopped) (On c.Stopped) := by
  let Changed : Facts := fun item record owned _ =>
    (∃ d bytes, item = some (.dir d) ∧ c.Holds j bytes d ∧ d.mode = c.modeWhen secured' ∧ P bytes) ∧
      record = c.journaled j contents ∧ owned = some j
  refine Sat.bind (Q := fun _ => On Changed) (Sat.modify fun w hw => ?_) fun _ => ?_
  · obtain ⟨⟨d, bytes, hitem, hd, -, hP⟩, hrecord, howned, -⟩ := hw
    refine ⟨⟨d.setMode mode, bytes, ?_, hd.setMode, hmode, hP⟩, hrecord, howned⟩
    show ItemNode.mapDir _ w.disk.item = _
    rw [hitem]
    rfl
  · refine Sat.bind (Q := fun _ => On (c.Saved j contents secured' P))
      (Sat.modify fun w hw => ⟨hw.1, hw.2.1, hw.2.2, rfl⟩) fun _ => ?_
    exact Stops (fun _ => Setting.Saved.stopped) call_keeps

theorem secureTarget_sat {P : Bytes → Prop} : Sat (On (c.Saved j contents false P)) secureTarget
    (fun _ => On (c.Saved j contents true P)) (fun _ => On c.Stopped) (On c.Stopped) :=
  Sat.bind (Stops (fun _ => Setting.Saved.stopped) call_keeps) fun _ => chmodTarget_sat rfl

theorem publish_sat : Sat (On (c.Saved j contents true (· = contents))) (publish j)
    (fun _ => On (c.Published j contents [])) (fun _ => On c.Stopped) (On c.Stopped) := by
  let Renamed : Facts := fun item record owned _ =>
    (∃ d, item = some (.dir d) ∧ c.Shows j contents [] d) ∧
      record = c.journaled j contents ∧ owned = some j
  refine Sat.bind (Q := fun _ => On Renamed) (Sat.modify fun w hw => ?_) fun _ => ?_
  · obtain ⟨⟨d, bytes, hitem, hd, hmode, rfl⟩, hrecord, howned, -⟩ := hw
    refine ⟨⟨_, ?_, hd.rename hmode⟩, hrecord, howned⟩
    show ItemNode.mapDir _ w.disk.item = _
    rw [hitem]
    rfl
  · refine Sat.bind (Q := fun _ w => On Renamed w ∧ w.stage = .published [])
      (Sat.modify fun w hw => ⟨hw, rfl⟩) fun _ => Sat.modify fun w hw => ?_
    exact ⟨hw.1.1, hw.1.2.1, rfl, hw.2⟩

theorem renameNoReplace_sat : Sat (On (c.Saved j contents true (· = contents)))
    (renameNoReplace j)
    (fun renamed => On (if renamed then c.Published j contents []
      else c.Saved j contents true (· = contents)))
    (fun _ => On c.Stopped) (On c.Stopped) := by
  refine Sat.bind (Stops (fun _ => Setting.Saved.stopped) call_keeps)
    fun _ => Sat.get_bind fun w hw => ?_
  split
  · exact Sat.throw fun _ h => h ▸ Setting.Saved.stopped hw
  · refine Sat.ite (fun _ => Sat.pure fun _ h => ?_) fun _ => ?_
    · exact h ▸ hw
    · exact Sat.bind (publish_sat.strengthen fun _ h => h ▸ hw) fun _ => Sat.pure fun _ h => h

theorem renameReplace_sat : Sat (On (c.Saved j contents true (· = contents)))
    (renameReplace j) (fun _ => On (c.Published j contents [])) (fun _ => On c.Stopped)
    (On c.Stopped) := by
  refine Sat.bind (Stops (fun _ => Setting.Saved.stopped) call_keeps)
    fun _ => Sat.get_bind fun w hw => ?_
  split
  · exact Sat.throw fun _ h => h ▸ Setting.Saved.stopped hw
  · refine Sat.bind (Q := fun _ v => v = w)
      (Sat.throwIf (fun _ _ h => h ▸ Setting.Saved.stopped hw) fun _ _ h => h) fun _ => ?_
    exact publish_sat.strengthen fun _ h => h ▸ hw

theorem publishNew_sat {item : ConfigItem} {result : ConfigInstallResult}
    (hresult : result = ⟨[configJson], [(configJson, c.host.sha256 contents)]⟩) :
    Sat (On c.Opened) (publishNew item c.opts c.supply c.dir0.identity result contents)
      (fun _ => On c.Stopped) (fun _ => On c.Stopped) (On c.Stopped) := by
  have opened : ∀ w, On c.Opened w → On c.Stopped w := fun _ h => (Setting.Opened.left h).1
  refine Sat.bind (Stops opened call_keeps) fun _ => Sat.get_bind fun w hw => ?_
  have ⟨⟨d, hitem, _, hmode⟩, _⟩ := hw
  have hdir : w.disk.dir? = some d := by rw [Disk.dir?, hitem]; rfl
  rw [hdir]
  refine Sat.bind (Q := fun _ => On c.Opened)
    (Sat.throwIf (fun _ _ h => h ▸ opened w hw) fun _ _ h => h ▸ hw) fun _ => ?_
  refine Sat.bind (prepareCandidate_sat hresult) fun j => ?_
  refine Sat.bind (Stops (fun _ => Setting.Saved.stopped) call_keeps) fun _ => ?_
  refine Sat.bind secureTarget_sat fun _ => Sat.bind renameNoReplace_sat fun renamed => ?_
  refine Sat.ite (fun h => ?_) fun h => ?_
  · subst h
    exact (Stops (fun _ => Setting.Published.stopped) call_keeps).weaken
      fun _ _ => Setting.Published.stopped
  · have hfalse : renamed = false := by simpa using h
    subst hfalse
    refine Sat.bind (Q := fun _ => On (c.Saved j contents false (· = contents))) ?_
      fun _ => Sat.throw fun _ => Setting.Saved.stopped
    exact Sat.bind (Stops (fun _ => Setting.Saved.stopped) call_keeps)
      fun _ => chmodTarget_sat hmode

theorem removeStaleFile_sat {removed : List RelPath} {name : String} {stale : RelPath}
    (hstale : stale ≠ configJson) :
    Sat (On (c.Published j contents removed)) (removeStaleFile name stale)
      (fun _ => On (c.Published j contents (removed ++ [stale])))
      (fun _ => On (c.Published j contents removed)) (On (c.Published j contents removed)) := by
  refine Sat.bind (Q := fun _ => On (c.Published j contents removed)) Keeps.throwIf fun _ => ?_
  refine Sat.bind call_keeps fun _ => Sat.get_bind fun w hw => ?_
  refine Sat.bind (Q := fun _ => On (c.Published j contents removed))
    (Sat.throwIf (fun _ _ h => h ▸ hw) fun _ _ h => h ▸ hw) fun _ => ?_
  let Removed : Facts := fun item record owned stage =>
    (∃ d, item = some (.dir d) ∧ c.Shows j contents (removed ++ [stale]) d) ∧
      record = c.journaled j contents ∧ owned = none ∧ stage = .published removed
  refine Sat.bind (Q := fun _ => On Removed) (Sat.modify fun v hv => ?_) fun _ => ?_
  · obtain ⟨⟨d, hitem, hd⟩, hrest⟩ := hv
    refine ⟨⟨_, ?_, hd.remove hstale⟩, hrest⟩
    show ItemNode.mapDir _ v.disk.item = _
    rw [hitem]
    rfl
  · refine Sat.modify fun v hv => ?_
    obtain ⟨hitem, hrecord, howned, hstage⟩ := hv
    rw [hstage]
    exact ⟨hitem, hrecord, howned, rfl⟩

theorem removeStales_sat {name : String} {managed removed : List RelPath} :
    Sat (On (c.Published j contents removed)) (removeStales name managed)
      (fun _ => On c.Stopped) (fun _ => On c.Stopped) (On c.Stopped) := by
  have published : ∀ removed w, On (c.Published j contents removed) w → On c.Stopped w :=
    fun _ _ => Setting.Published.stopped
  induction managed generalizing removed with
  | nil => exact Sat.pure (published removed)
  | cons stale managed ih =>
    let Later : Unit → World → Prop := fun _ w =>
      ∃ removed', On (c.Published j contents removed') w
    refine Sat.bind (Q := Later) (Sat.ite (fun _ => Sat.pure fun w h => ⟨removed, h⟩)
      fun hstale => Sat.tryCatch ((removeStaleFile_sat hstale).conseq (fun _ h => h)
        (fun _ w h => ⟨_, h⟩) (fun _ _ h => h) (published removed))
        fun err => Sat.ite (fun _ => Sat.pure fun w h => ⟨removed, h⟩)
          fun _ => Sat.throw (published removed)) ?_
    rintro _ w ⟨removed', hw⟩
    exact ih w hw

theorem publishOwned_sat {item : ConfigItem} {result : ConfigInstallResult}
    (hresult : result = ⟨[configJson], [(configJson, c.host.sha256 contents)]⟩) :
    Sat (On c.Opened) (publishOwned item c.opts c.supply c.dir0.identity result contents)
      (fun _ => On c.Stopped) (fun _ => On c.Stopped) (On c.Stopped) := by
  refine Sat.bind (prepareCandidate_sat hresult) fun j => ?_
  refine Sat.bind secureTarget_sat fun _ => Sat.bind renameReplace_sat fun _ => ?_
  exact Sat.bind (Stops (fun _ => Setting.Published.stopped) call_keeps) fun _ => removeStales_sat

/-- Later calls do not take back what a run left. -/
theorem call_harsh (c' : Call) : Keeps (Left c) (call c') := by
  have grow : ∀ w fault turns, Left c w → Left c (w.after c' fault turns) :=
    fun w fault turns hw => ⟨hw.1, hw.2.imp_right fun ⟨taken, h, harsh⟩ =>
      ⟨taken, List.mem_append_left _ h, harsh⟩⟩
  exact call_sat (fun w turns => grow w none turns) (fun w code turns => grow w _ turns)
    fun w turns => grow w _ turns

/-- A call that erases fails only when the run is not gentle. -/
theorem erasing_sat {R : Facts} {c' : Call} (hc : c' = .rmStaging ∨ c' = .truncateCandidate) :
    Sat (On R) (call c') (fun _ => On R) (fun _ w => On R w ∧ Harsh w) (On R) := by
  refine call_sat (fun _ _ h => h) (fun w code turns hw => ⟨hw, ?_⟩) fun _ _ h => h
  exact ⟨_, List.mem_append_right _ List.mem_cons_self, fun h => hc.elim h.1 h.2⟩

theorem Setting.Tidy.erase {item : Option ItemNode} (H : c.Tidy item) {path : RelPath} :
    c.Tidy (ItemNode.mapDir (fun dir => dir.change path id fun _ => []) item) := by
  intro d' hd'
  match item, hd' with
  | some (.dir d), rfl => exact (H d rfl).erase

/-- Erasing an owned candidate leaves nothing of the item outside `config.json`. -/
theorem discardOwned_sat :
    Sat (On c.Stopped) discardOwned (fun _ => Left c) (fun _ => Left c) (On c.Stopped) := by
  refine Sat.get_bind fun w hw => ?_
  split
  · next j' howned =>
    refine Sat.strengthen (P := On fun item record owned stage =>
      c.Stopped item record owned stage ∧ owned = some j') ?_ fun v h => h ▸ ⟨hw, howned⟩
    have erase : ∀ v, On (fun item record owned stage =>
        c.Stopped item record owned stage ∧ owned = some j') v →
        On (fun item record owned stage => c.Stopped item record owned stage ∧ c.Tidy item)
          { v with disk := v.disk.mapDir fun dir => dir.change [j'.candidate.name] id fun _ => [] } := by
      rintro v ⟨⟨hrecord, hstage, htidy⟩ | ⟨j, contents, secured, ⟨d, bytes, hitem, hd, hmode, -⟩,
        hrecord, hj, hstage⟩ | ⟨j, contents, removed, hpub⟩, howned'⟩
      · exact ⟨.inl ⟨hrecord, hstage, htidy.erase⟩, htidy.erase⟩
      · obtain rfl : j = j' := Option.some.inj (hj.symm.trans howned')
        have hd' := hd.change id (fun _ => []) rfl
        have hitem' : ItemNode.mapDir (fun dir => dir.change [j.candidate.name] id fun _ => [])
            v.disk.item = some (.dir (d.change [j.candidate.name] id fun _ => [])) := by
          rw [hitem]
          rfl
        have htidy : c.Tidy (ItemNode.mapDir (fun dir => dir.change [j.candidate.name] id fun _ => [])
            v.disk.item) := by
          rw [hitem']
          exact hd'.tidy
        exact ⟨.inr (.inl ⟨j, contents, secured, ⟨_, [], hitem', hd', hmode, trivial⟩, hrecord, hj,
          hstage⟩), htidy⟩
      · exact (Option.some_ne_none j' (howned'.symm.trans hpub.2.2.1)).elim
    have body : Sat (On fun item record owned stage =>
        c.Stopped item record owned stage ∧ owned = some j')
        (do call .truncateCandidate
            setDir fun dir => dir.change [j'.candidate.name] id fun _ => []
            call .syncCandidate) (fun _ => Left c) (fun _ => Left c) (On c.Stopped) := by
      refine Sat.bind ((erasing_sat (.inr rfl)).conseq (fun _ h => h) (fun _ _ h => h)
        (fun _ v h => ⟨h.1.1, .inr h.2⟩) fun _ h => h.1) fun _ => ?_
      refine Sat.bind (Q := fun _ => On fun item record owned stage =>
        c.Stopped item record owned stage ∧ c.Tidy item) (Sat.modify erase) fun _ => ?_
      exact call_keeps.conseq (fun _ h => h) (fun _ _ h => ⟨h.1, .inl h.2⟩)
        (fun _ _ h => ⟨h.1, .inl h.2⟩) fun _ h => h.1
    exact body.tryCatch fun _ => Sat.pure fun _ h => h
  · next howned =>
    refine Sat.pure ?_
    rintro _ rfl
    refine ⟨hw, .inl ?_⟩
    obtain ⟨-, -, htidy⟩ | ⟨j, contents, secured, hsaved⟩ | ⟨j, contents, removed, hpub⟩ := hw
    · exact htidy
    · exact (Option.some_ne_none j (hsaved.2.2.1.symm.trans howned)).elim
    · obtain ⟨⟨d, hitem, hd⟩, -⟩ := hpub
      exact hitem ▸ hd.blank.tidy

theorem publishCandidate_sat {item : ConfigItem} {result : ConfigInstallResult}
    (hresult : result = ⟨[configJson], [(configJson, c.host.sha256 contents)]⟩) :
    Sat (On c.Opened) (publishCandidate item c.opts c.supply c.dir0.identity result contents)
      (fun _ => Left c) (fun _ => Left c) (On c.Stopped) :=
  Sat.tryFinally (Sat.ite (fun _ => publishNew_sat hresult) fun _ => publishOwned_sat hresult)
    (fun _ => discardOwned_sat) fun _ => discardOwned_sat

/-- Wherever a run stops, the item directory and the journal are in one of the phases; a run that
is not killed leaves no bytes outside `config.json` unless a call that erases failed. -/
theorem installConfig_stops {item : ConfigItem} {node : Option ItemNode}
    (hdir : c.dir0 = (ItemNode.dir? node).getD (.empty c.supply.directory)) :
    Sat (On (c.Start node)) (installConfig c.host item c.opts c.supply)
      (fun _ => Left c) (fun _ => Left c) (On c.Stopped) := by
  have start : ∀ w, On (c.Start node) w → Left c w := fun _ => Setting.Start.left hdir
  refine Sat.bind (Leaves start Keeps.throwIf) fun _ => Sat.bind (Leaves start call_keeps) fun _ => ?_
  refine Sat.bind (Leaves start Keeps.ofExcept) fun _ => ?_
  refine Sat.bind (Leaves start Keeps.throwIf) fun _ => ?_
  refine Sat.bind (Leaves start Keeps.ofExcept) fun _ => ?_
  refine Sat.bind (Leaves start Keeps.ofExcept) fun _ => ?_
  refine Sat.bind (Leaves start call_keeps) fun _ => ?_
  refine Sat.bind (Leaves start (call_keeps.bind fun _ => Sat.modify fun _ h => h)) fun _ => ?_
  have clean : Sat (Left c) rmStaging (fun _ => Left c) (fun _ => Left c) (On c.Stopped) := by
    refine Sat.bind (Q := fun _ => Left c) ?_ fun _ => Sat.modify fun _ h => h
    exact (call_harsh _).conseq (fun _ h => h) (fun _ _ h => h) (fun _ _ h => h) fun _ h => h.1
  refine Sat.tryFinally ?_ (fun _ => clean) fun _ => clean
  refine Sat.bind (stage_sat.conseq (fun _ h => h) (fun _ _ h => h) (fun _ => start)
    fun w hw => (start w hw).1) fun (result, contents) => Sat.assume ?_
  rintro ⟨entries, haudit⟩
  have hresult := auditConfigTree_eq haudit
  refine Sat.bind (prepareTargetDirectory_sat hdir) fun _ => ?_
  refine Sat.bind openTargetDirectory_sat fun targetFd => Sat.assume ?_
  rintro rfl
  exact Sat.bind (publishCandidate_sat hresult) fun _ => Sat.pure fun _ h => h

end Steps

end CliProxy.ConfigInstaller
