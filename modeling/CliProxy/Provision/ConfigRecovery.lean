import CliProxy.Provision.ConfigJournal

/-! # When the journal of a config item resolves

The next reconciliation turns the journal of a stopped run into one of its two snapshots, or
drops the record of a first install. An upgrade's journal stays where the directory at the stop
is neither snapshot: the old files had drifted and the candidate was not published yet, or it was
and older files of the record are still there. -/

namespace CliProxy.ConfigInstaller

open Lib Lib.Prog Sys Provision

/-- The record is absent, the stable record from before, or a new stable record. -/
def Settled (host : Host) (opts : ConfigOpts) (record : Option InstalledRecord) : Prop :=
  record = none ∨ record = opts.previous.map .ofSnapshot ∨
    ∃ contents, record = some (.ofSnapshot (candidateSnapshot opts.fingerprint opts.installedAt
      ⟨[configJson], [(configJson, host.sha256 contents)]⟩))

/-- The condition on the item directory that the run opened and on where the run stopped. A first
install always resolves; an upgrade needs the old snapshot intact until the candidate is
published, and every older file of the record gone after that. -/
def Resolves (host : Host) (opts : ConfigOpts) (dir0 : ItemDir) (stage : Stage) : Bool :=
  match opts.previous, stage with
  | some stable, .reserved secured =>
    snapshotComplete host (if secured then dir0.setMode DIRECTORY_MODE else dir0) stable
      [configJson]
  | some stable, .published removed => stable.files.all fun file =>
    file == configJson || removed.contains file || (dir0.entries file).isNone
  | _, _ => true

/-- The item directory that a run opens. -/
def opened (node : Option ItemNode) (supply : Supply) : ItemDir :=
  (ItemNode.dir? node).getD (.empty supply.directory)

section Reconcile

variable {c : Setting} {j : ConfigCandidateJournal} {contents bytes : Bytes} {d : ItemDir}
  {removed : List RelPath}

theorem file?_of_entries {dir dir' : ItemDir} {path : RelPath}
    (h : dir.entries path = dir'.entries path) : dir.file? path = dir'.file? path := by
  unfold ItemDir.file?
  rw [h]

theorem all_congr_mem {xs : List RelPath} {f g : RelPath → Bool} (h : ∀ x ∈ xs, f x = g x) :
    xs.all f = xs.all g := by
  induction xs with
  | nil => rfl
  | cons x xs ih =>
    simp only [List.all_cons]
    rw [h x List.mem_cons_self, ih fun y hy => h y (List.mem_cons_of_mem _ hy)]

/-- A snapshot is as complete in one directory as in another with the same entries at its paths. -/
theorem snapshotComplete_congr {host : Host} {dir dir' : ItemDir} {snapshot : InstalledSnapshot}
    {others : List RelPath} (hmode : dir.mode = dir'.mode)
    (hfiles : ∀ path ∈ snapshot.files, dir.entries path = dir'.entries path)
    (hdirs : ∀ path ∈ snapshot.directories.getD [], dir.entries path = dir'.entries path)
    (hothers : ∀ path ∈ others, dir.entries path = dir'.entries path) :
    snapshotComplete host dir snapshot others = snapshotComplete host dir' snapshot others := by
  have hintact : snapshotIntact host.sha256 dir.isDirectory dir.read snapshot =
      snapshotIntact host.sha256 dir'.isDirectory dir'.read snapshot := by
    unfold snapshotIntact
    split
    · rfl
    · have hdir : ∀ path ∈ snapshot.directories.getD [],
          dir.isDirectory path = dir'.isDirectory path := by
        intro path h
        unfold ItemDir.isDirectory
        rw [hdirs path h]
      rw [all_congr_mem hdir]
      congr 1
      refine all_congr_mem fun path h => ?_
      unfold ItemDir.read
      rw [file?_of_entries (hfiles path h)]
  have hmodes : (snapshot.files.all fun relative =>
        (dir.file? relative).map ConfigFile.mode == some FILE_MODE) =
      snapshot.files.all fun relative =>
        (dir'.file? relative).map ConfigFile.mode == some FILE_MODE :=
    all_congr_mem fun path h => by rw [file?_of_entries (hfiles path h)]
  unfold snapshotComplete configSnapshotIntact
  rw [hintact, hmode, hmodes]
  congr 1
  exact all_congr_mem fun path h => by rw [hothers path (List.mem_of_mem_filter h)]

theorem snapshotComplete_mode {host : Host} {dir : ItemDir} {snapshot : InstalledSnapshot}
    {others : List RelPath} : snapshotComplete host dir snapshot others = true →
      dir.mode = DIRECTORY_MODE := by
  simp only [snapshotComplete, configSnapshotIntact, Bool.and_eq_true, beq_iff_eq]
  exact fun h => h.1.1.2

/-- The hidden candidate can be erased. -/
theorem Setting.Holds.discard (H : c.Holds j bytes d) {disk : Disk} (hitem : disk.item = some (.dir d)) :
    discardConfigCandidate disk (some j.targetIdentity) (some j.candidate) =
      some (disk.mapDir fun dir => dir.change [j.candidate.name] id fun _ => []) := by
  have hdir : disk.dir? = some d := by rw [Disk.dir?, hitem]; rfl
  obtain ⟨id, -, hname⟩ := H.drawn
  have hid : j.candidate.name = candidateName id := List.head_eq_of_cons_eq hname
  have hpattern : isCandidateName j.candidate.name = true := by
    rw [hid]
    exact isCandidateName_candidateName id
  simp [discardConfigCandidate, hdir, hpattern, H.identity, H.target, H.dev, H.file]

/-- A hidden candidate is not the published one. -/
theorem Setting.Holds.not_published (H : c.Holds j bytes d) {disk : Disk}
    (hitem : disk.item = some (.dir d)) {host : Host} {snapshot : InstalledSnapshot}
    {record : InstalledRecord} (hrecord : record.configCandidate = some j.candidate) :
    publishedConfigCandidateIntact host disk snapshot record = false := by
  have hdir : disk.dir? = some d := by rw [Disk.dir?, hitem]; rfl
  unfold publishedConfigCandidateIntact
  rw [hrecord, hdir]
  split
  · next target candidate hash htarget hcandidate hfiles hhash =>
    obtain rfl := Option.some.inj hcandidate
    cases hfile : d.file? configJson with
    | none => simp [hfile]
    | some file =>
      have hold : c.dir0.file? configJson = some file := by
        rw [← hfile]
        exact (file?_of_entries (H.same configJson configJson_not_drawn)).symm
      have hlt : file.ino < j.candidate.ino := Nat.lt_of_lt_of_le (c.dir0.ino_lt hold) H.new
      have hne : (file.ino == j.candidate.ino) = false := by simpa using Nat.ne_of_lt hlt
      simp [hfile, hne]
  · rfl

theorem Setting.Shows.published (H : c.Shows j contents removed d) {disk : Disk}
    (hitem : disk.item = some (.dir d)) {record : InstalledRecord}
    (htarget : record.candidateIdentity = some j.targetIdentity)
    (hrecord : record.configCandidate = some j.candidate) :
    publishedConfigCandidateIntact c.host disk (c.new contents) record = true := by
  have hdir : disk.dir? = some d := by rw [Disk.dir?, hitem]; rfl
  have hfile := H.file
  unfold configJson at hfile
  simp [publishedConfigCandidateIntact, htarget, hrecord, hdir, Setting.new, candidateSnapshot,
    H.identity, H.target, H.mode, hfile, H.dev, configJson]

/-- The published snapshot is complete once no other file of the old one is left. -/
theorem Setting.Shows.complete (H : c.Shows j contents removed d) {files : List RelPath}
    (hfiles : ∀ path ∈ files, ¬c.Drawn path) :
    snapshotComplete c.host d (c.new contents) files = files.all fun file =>
      file == configJson || removed.contains file || (c.dir0.entries file).isNone := by
  have hintact : configSnapshotIntact c.host d (c.new contents) = true := by
    simp [configSnapshotIntact, snapshotIntact, Setting.new, candidateSnapshot, H.mode,
      ItemDir.read, H.file]
  unfold snapshotComplete
  rw [hintact, Bool.true_and, List.all_filter]
  refine all_congr_mem fun path hpath => ?_
  by_cases hjson : path = configJson
  · subst hjson
    simp [Setting.new, candidateSnapshot]
  · rw [H.same path (hfiles path hpath) hjson]
    by_cases hgone : path ∈ removed
    · simp [hgone]
    · simp [Setting.new, candidateSnapshot, hjson, hgone]

/-! ## Resolving -/

theorem reconcile_previous {disk : Disk} : (reconcile c.host disk c.previous).1 = c.previous := by
  unfold Setting.previous
  cases c.opts.previous with
  | none => rfl
  | some stable => rfl

theorem pending_not_settled {record : InstalledRecord} {pending : InstalledSnapshot}
    (h : record.pending = some pending) : ¬Settled c.host c.opts (some record) := by
  have hne : ∀ snapshot, record ≠ .ofSnapshot snapshot := by
    rintro snapshot rfl
    exact nomatch h
  rintro (h' | h' | ⟨contents, h'⟩)
  · exact nomatch h'
  · cases hprevious : c.opts.previous with
    | none => exact nomatch hprevious ▸ h'
    | some stable =>
      rw [hprevious] at h'
      exact hne _ (Option.some.inj h')
  · exact hne _ (Option.some.inj h')

/-- While the candidate is hidden, the journal resolves to the old state if that is intact. -/
theorem hidden_resolves (hfresh : c.Fresh) {secured : Bool} {disk : Disk}
    (hitem : disk.item = some (.dir d)) (H : c.Holds j bytes d) (hmode : d.mode = c.modeWhen secured) :
    Settled c.host c.opts (reconcile c.host disk (c.journaled j contents)).1 ↔
      Resolves c.host c.opts c.dir0 (.reserved secured) = true := by
  have hdir : disk.dir? = some d := by rw [Disk.dir?, hitem]; rfl
  have hdiscard := H.discard hitem
  unfold Setting.journaled Resolves
  cases hprevious : c.opts.previous with
  | none =>
    simp [reconcile, reconcileFirstInstallJournal, journaledRecord, H.not_published hitem,
      discardRecordedConfigCandidate, hdiscard, Settled]
  | some stable =>
    have hcomplete : snapshotComplete c.host d stable [configJson] = snapshotComplete c.host
        (if secured then c.dir0.setMode DIRECTORY_MODE else c.dir0) stable [configJson] := by
      have hentries : ∀ path, ¬c.Drawn path → d.entries path =
          (if secured then c.dir0.setMode DIRECTORY_MODE else c.dir0).entries path := by
        intro path hpath
        rw [H.same path hpath]
        cases secured <;> rfl
      refine snapshotComplete_congr ?_ ?_ ?_ ?_
      · rw [hmode]
        cases secured <;> rfl
      · exact fun path h => hentries path (hfresh stable hprevious path (.inl h))
      · exact fun path h => hentries path (hfresh stable hprevious path (.inr h))
      · exact fun path h => List.mem_singleton.mp h ▸ hentries configJson configJson_not_drawn
    have hmatches : d.identity = j.targetIdentity := H.identity.trans H.target.symm
    dsimp only
    rw [← hcomplete]
    cases hstable : snapshotComplete c.host d stable [configJson] with
    | true =>
      have hrecord : (reconcile c.host disk (some (journaledRecord (some stable)
          (c.new contents) j))).1 = some (.ofSnapshot stable) := by
        simp [reconcile, reconcileFirstInstallJournal, reconcileConfigUpgradeJournal,
          journaledRecord, InstalledRecord.ofSnapshot, H.not_published hitem,
          configSnapshotComplete, hdir, Setting.new, candidateSnapshot, hstable,
          configTargetIdentityMatches, hmatches, discardRecordedConfigCandidate, hdiscard,
          stableSnapshot]
      rw [hrecord]
      exact iff_of_true (.inr (.inl (by rw [hprevious]; rfl))) rfl
    | false =>
      have hrecord : (reconcile c.host disk (some (journaledRecord (some stable)
          (c.new contents) j))).1 = some (journaledRecord (some stable) (c.new contents) j) := by
        simp [reconcile, reconcileFirstInstallJournal, reconcileConfigUpgradeJournal,
          journaledRecord, InstalledRecord.ofSnapshot, H.not_published hitem,
          configSnapshotComplete, hdir, Setting.new, candidateSnapshot, hstable]
      rw [hrecord]
      exact iff_of_false (pending_not_settled rfl) Bool.false_ne_true

theorem Setting.Shows.not_discarded (H : c.Shows j contents removed d) {disk : Disk}
    (hitem : disk.item = some (.dir d)) {target : Option DirectoryIdentity} :
    discardConfigCandidate disk target (some j.candidate) = none := by
  have hdir : disk.dir? = some d := by rw [Disk.dir?, hitem]; rfl
  have hfile : d.file? [j.candidate.name] = none := by
    unfold ItemDir.file?
    rw [H.gone]
  cases target with
  | none => rfl
  | some target => simp [discardConfigCandidate, hdir, hfile]

/-- Once the candidate is published, the journal resolves to the new state if no older file of
the record is left. -/
theorem published_resolves (hfresh : c.Fresh) {disk : Disk} (hitem : disk.item = some (.dir d))
    (H : c.Shows j contents removed d) :
    Settled c.host c.opts (reconcile c.host disk (c.journaled j contents)).1 ↔
      Resolves c.host c.opts c.dir0 (.published removed) = true := by
  have hdir : disk.dir? = some d := by rw [Disk.dir?, hitem]; rfl
  unfold Setting.journaled Resolves
  have hpublished : publishedConfigCandidateIntact c.host disk (c.new contents)
      (journaledRecord c.opts.previous (c.new contents) j) = true := by
    refine H.published hitem ?_ ?_ <;> (unfold journaledRecord; split <;> rfl)
  cases hprevious : c.opts.previous with
  | none =>
    rw [hprevious] at hpublished
    have hrecord : (reconcile c.host disk (some (journaledRecord none (c.new contents) j))).1 =
        some (.ofSnapshot (c.new contents)) := by
      simp only [journaledRecord, InstalledRecord.ofSnapshot] at hpublished
      simp [reconcile, reconcileFirstInstallJournal, reconcileConfigUpgradeJournal,
        journaledRecord, InstalledRecord.ofSnapshot, hpublished]
    rw [hrecord]
    exact iff_of_true (.inr (.inr ⟨contents, rfl⟩)) rfl
  | some stable =>
    rw [hprevious] at hpublished
    have hcomplete := H.complete fun path h => hfresh stable hprevious path (.inl h)
    dsimp only
    rw [← hcomplete]
    simp only [journaledRecord, InstalledRecord.ofSnapshot] at hpublished
    cases hnew : snapshotComplete c.host d (c.new contents) stable.files with
    | true =>
      have hrecord : (reconcile c.host disk (some (journaledRecord (some stable)
          (c.new contents) j))).1 = some (.ofSnapshot (c.new contents)) := by
        simp [reconcile, reconcileFirstInstallJournal, reconcileConfigUpgradeJournal,
          journaledRecord, InstalledRecord.ofSnapshot, configSnapshotComplete, hdir, hnew,
          hpublished]
      rw [hrecord]
      exact iff_of_true (.inr (.inr ⟨contents, rfl⟩)) rfl
    | false =>
      have hrecord : (reconcile c.host disk (some (journaledRecord (some stable)
          (c.new contents) j))).1 = some (journaledRecord (some stable) (c.new contents) j) := by
        simp [reconcile, reconcileFirstInstallJournal, reconcileConfigUpgradeJournal,
          journaledRecord, InstalledRecord.ofSnapshot, configSnapshotComplete, hdir, hnew,
          discardRecordedConfigCandidate, H.not_discarded hitem]
      rw [hrecord]
      exact iff_of_false (pending_not_settled rfl) Bool.false_ne_true

theorem stopped_resolves (hfresh : c.Fresh) {w : World} (H : On c.Stopped w) :
    Settled c.host c.opts (reconcile c.host w.disk w.record).1 ↔
      Resolves c.host c.opts c.dir0 w.stage = true := by
  obtain ⟨hrecord, hstage, -⟩ | ⟨j, contents, secured, ⟨d, bytes, hitem, hd, hmode, -⟩, hrecord, -,
    hstage⟩ | ⟨j, contents, removed, ⟨d, hitem, hd⟩, hrecord, -, hstage⟩ := H
  · rw [hrecord, hstage, reconcile_previous]
    refine iff_of_true (.inr (.inl rfl)) ?_
    unfold Resolves
    cases c.opts.previous <;> rfl
  · rw [hrecord, hstage]
    exact hidden_resolves hfresh hitem hd hmode
  · rw [hrecord, hstage]
    exact published_resolves hfresh hitem hd

end Reconcile

/-- No recorded path is a random candidate name that the run may draw. -/
def UnrecordedDraws (opts : ConfigOpts) (supply : Supply) : Prop :=
  ∀ stable, opts.previous = some stable → ∀ path, path ∈ stable.files ∨
    path ∈ stable.directories.getD [] → ∀ id ∈ supply.draws, path ≠ [candidateName id]

/-- The world that a run of `installConfig` stops in. -/
def stopOf (host : Host) (item : ConfigItem) (opts : ConfigOpts) (supply : Supply)
    (node : Option ItemNode) (turns : List Turn) : World :=
  (installConfig host item opts supply (.start node turns opts.previous)).2

theorem stopOf_stopped {host : Host} {item : ConfigItem} {opts : ConfigOpts} {supply : Supply}
    {node : Option ItemNode} {turns : List Turn} :
    On (Setting.Stopped ⟨host, opts, supply, opened node supply⟩)
      (stopOf host item opts supply node turns) := by
  let c : Setting := ⟨host, opts, supply, opened node supply⟩
  have H : Sat (On (c.Start node)) (installConfig host item opts supply) (fun _ => On c.Stopped)
      (fun _ => On c.Stopped) (On c.Stopped) :=
    (installConfig_stops rfl).conseq (fun _ h => h) (fun _ _ => Left.stopped)
      (fun _ _ => Left.stopped) fun _ h => h
  exact H.final ⟨rfl, rfl, rfl, rfl⟩

theorem UnrecordedDraws.fresh {host : Host} {opts : ConfigOpts} {supply : Supply} {dir0 : ItemDir}
    (H : UnrecordedDraws opts supply) : Setting.Fresh ⟨host, opts, supply, dir0⟩ :=
  fun stable hprevious path hpath ⟨id, hid, hname⟩ => H stable hprevious path hpath id hid hname

/-- Wherever `installConfig` stops, the next reconciliation settles the record of the item if and
only if the directory and the stopping point are such that it can. -/
theorem journalResolves (host : Host) (item : ConfigItem) (opts : ConfigOpts) (supply : Supply)
    (node : Option ItemNode) (turns : List Turn) (hdraws : UnrecordedDraws opts supply) :
    Settled host opts (reconcile host (stopOf host item opts supply node turns).disk
        (stopOf host item opts supply node turns).record).1 ↔
      Resolves host opts (opened node supply) (stopOf host item opts supply node turns).stage =
        true :=
  stopped_resolves hdraws.fresh stopOf_stopped

/-- A settled record can be removed. -/
theorem Settled.removable {host : Host} {opts : ConfigOpts} {record : InstalledRecord}
    (H : Settled host opts (some record)) (name : String) (disk : Disk) :
    configRecordForRemoval host name disk record = .ok record := by
  have hstable : ∃ snapshot, record = .ofSnapshot snapshot := by
    rcases H with h | h | ⟨contents, h⟩
    · exact nomatch h
    · cases hprevious : opts.previous with
      | none =>
        rw [hprevious] at h
        exact nomatch h
      | some stable =>
        rw [hprevious] at h
        exact ⟨stable, Option.some.inj h⟩
    · exact ⟨_, Option.some.inj h⟩
  obtain ⟨snapshot, rfl⟩ := hstable
  rfl

/-! ## An upgrade of a drifted file

Hashes are the contents themselves here, and the process is killed right after `saveState`. -/

def plainHost : Host := ⟨fun bytes => String.ofList (bytes.map fun b => Char.ofNat b.toNat),
  fun _ => none⟩

def plainItem : ConfigItem := ⟨"collavre", "a"⟩

def plainOpts : ConfigOpts where
  adopt := false
  fingerprint := "a"
  installedAt := "2026-01-02"
  previous := some ⟨"b", none, [configJson], some [], some [(configJson, "b")], "2026-01-01"⟩
  beforeMutation := .ok ()

def plainSupply : Supply where
  download := .ok [97]
  bounded := .ok ()
  archiveSafe := .ok none
  extracted := some [("config.json", .file ⟨3, FILE_MODE, [100]⟩)]
  draws := [⟨"00000000000000000000000000000000", by decide⟩]
  directory := ⟨1, 9⟩

/-- An item directory with one `config.json`. -/
def plainDir (bytes : Bytes) : ItemDir where
  identity := ⟨1, 2⟩
  mode := DIRECTORY_MODE
  entries := fun p => if p = configJson then some (.file ⟨5, FILE_MODE, bytes⟩) else none
  nextIno := 6
  below := by
    intro p file h
    split at h
    · cases h
      exact Nat.lt_succ_self 5
    · exact nomatch h

def killedAfter (calls : Nat) : List Turn := List.replicate calls calm ++ [⟨some .killed, 0⟩]

abbrev plainRun (bytes : Bytes) : World :=
  stopOf plainHost plainItem plainOpts plainSupply (some (.dir (plainDir bytes))) (killedAfter 18)

/-- The one recorded path is no candidate name. -/
theorem plain_draws : UnrecordedDraws plainOpts plainSupply := by
  intro stable hprevious path hpath id _
  cases hprevious
  have hjson : path = configJson := by simpa [configJson] using hpath
  exact hjson ▸ (candidateName_ne id).symm

/-- What `Resolves` says of the run over a `config.json` with these contents. -/
abbrev plainResolves (bytes : Bytes) : Bool :=
  Resolves plainHost plainOpts (opened (some (.dir (plainDir bytes))) plainSupply)
    (plainRun bytes).stage

theorem plain_intact : plainResolves [98] = true := by decide +kernel

theorem plain_drifted : plainResolves [99] = false := by decide +kernel

theorem journalResolves_intact :
    Settled plainHost plainOpts (reconcile plainHost (plainRun [98]).disk (plainRun [98]).record).1 :=
  (journalResolves plainHost plainItem plainOpts plainSupply (some (.dir (plainDir [98])))
    (killedAfter 18) plain_draws).mpr plain_intact

/-- The upgrade that would repair a drifted `config.json` leaves a journal that never resolves. -/
theorem drifted_journal_stays :
    ¬Settled plainHost plainOpts
      (reconcile plainHost (plainRun [99]).disk (plainRun [99]).record).1 := by
  let c : Setting := ⟨plainHost, plainOpts, plainSupply,
    opened (some (.dir (plainDir [99]))) plainSupply⟩
  have hstopped : On c.Stopped (plainRun [99]) := stopOf_stopped
  have hresolves := (stopped_resolves plain_draws.fresh hstopped).not
  exact hresolves.mpr (ne_true_of_eq_false plain_drifted)

end CliProxy.ConfigInstaller
