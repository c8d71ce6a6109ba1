import CliProxy.Provision.ConfigRecovery

/-! # Erasing the credential bytes of an installation

The bytes of an artifact pass through the staging directory and the candidate. A run that is not
killed while the staging directory is there, and whose erasing calls do not fail, leaves them
nowhere but in `config.json`. -/

namespace CliProxy.ConfigInstaller

open Lib Lib.Prog Sys Provision

def Staged (w : World) : Prop := w.disk.staging.isSome = true

/-- The program runs over a staging directory and leaves it there; a kill is harsh. -/
def Staging.Held {α : Type} (p : Sys α) : Prop :=
  Sat Staged p (fun _ => Staged) (fun _ => Staged) Harsh

namespace Staging.Held

variable {α β : Type} {p q : Sys α} {f : α → Sys β}

theorem bind (Hp : Held p) (Hf : ∀ a, Held (f a)) : Held (p >>= f) := Sat.bind Hp Hf

theorem pure {a : α} : Held (pure a : Sys α) := Sat.pure fun _ h => h

theorem throw {e : Error} : Held (throw e : Sys α) := Sat.throw fun _ h => h

theorem throwIf {b : Bool} {e : Error} : Held (throwIf b e) :=
  Sat.throwIf (fun _ _ h => h) fun _ _ h => h

theorem ofExcept {x : Except Error α} : Held (ofExcept x) :=
  Sat.ofExcept (fun _ _ _ h => h) fun _ _ _ h => h

theorem ite {c : Prop} [Decidable c] (Hp : Held p) (Hq : Held q) : Held (if c then p else q) :=
  Sat.ite (fun _ => Hp) fun _ => Hq

theorem tryCatch {handler : Error → Sys α} (Hp : Held p) (Hh : ∀ e, Held (handler e)) :
    Held (p.tryCatch handler) := Sat.tryCatch Hp Hh

theorem tryFinally {last : Sys Unit} (Hp : Held p) (Hl : Held last) : Held (p.tryFinally last) :=
  Sat.tryFinally Hp (fun _ => Hl) fun _ => Hl

theorem get_bind {k : World → Sys β} (H : ∀ w, Held (k w)) : Held (Prog.get >>= k) :=
  Sat.get_bind fun w hw => (H w).strengthen fun _ h => h ▸ hw

theorem modify {g : World → World} (h : ∀ w, Staged w → Staged (g w)) : Held (modify g) :=
  Sat.modify h

/-- A process killed over a staging directory is killed harshly. -/
theorem killed {w : World} (hw : Staged w) (c : Call) (turns : List Turn) :
    Harsh (w.after c (some .killed) turns) :=
  ⟨_, List.mem_append_right _ List.mem_cons_self,
    fun h => Bool.false_ne_true ((show w.disk.staging.isSome = false from h).symm.trans hw)⟩

theorem call {c : Call} : Held (Sys.call c) :=
  call_sat (fun _ _ h => h) (fun _ _ _ h => h) fun _ turns hw => killed hw c turns

end Staging.Held

open Staging (Held)

/-- The world after a turn that may have been a kill. -/
def Turned (fault : Option Fault) (w : World) : Prop :=
  Staged w ∧ (fault = some .killed → Harsh w)

theorem turned_sat {c : Call} {E : Error → World → Prop} {C : World → Prop} :
    Sat Staged (turn c) (fun t => Turned t.fault) E C :=
  turn_sat fun _ _ turns hw => ⟨hw, fun h => h ▸ Held.killed hw _ turns⟩

theorem Turned.faulty {fault : Option Fault} :
    Sat (Turned fault) (faulty fault) (fun _ => Staged) (fun _ => Staged) Harsh := by
  match fault with
  | none => exact Sat.pure fun _ h => h.1
  | some (.fails _) => exact Sat.throw fun _ h => h.1
  | some .killed => exact Sat.die fun _ h => h.2 rfl

theorem staged_map {w : World} {f : Staging → Staging} (hw : Staged w) :
    (w.disk.staging.map f).isSome = true := by rw [Option.isSome_map]; exact hw

theorem setStaging_held {f : Staging → Staging} : Held (setStaging f) :=
  Held.modify fun _ h => staged_map h

theorem setDir_held {f : ItemDir → ItemDir} : Held (setDir f) := Held.modify fun _ h => h

theorem setStage_held {stage : Stage} : Held (setStage stage) := Held.modify fun _ h => h

theorem setOwned_held {owned : Option ConfigCandidateJournal} : Held (setOwned owned) :=
  Held.modify fun _ h => h

/-! ## The steps -/

theorem writeArchive_held {archive : Bytes} : Held (writeArchive archive) := by
  refine Sat.bind turned_sat fun t => ?_
  split
  · exact Sat.modify fun _ h => staged_map h.1
  · next fault h =>
    refine Sat.bind (Q := fun _ => Turned (some fault)) (Sat.modify fun w hw => ?_)
      fun _ => Turned.faulty
    exact ⟨staged_map hw.1, fun hk => hw.2 (h.trans hk)⟩

theorem extract_held {extracted : Option (List (String × ConfigEntry))} :
    Held (extract extracted) := by
  refine Held.tryCatch (Sat.bind turned_sat fun t => ?_) fun _ => Held.throw
  split
  · exact Sat.modify fun _ h => staged_map h.1
  · refine Sat.bind (Q := fun _ => Turned t.fault) (Sat.modify fun w hw => ?_) fun _ =>
      Sat.bind Turned.faulty fun _ => Held.throw
    exact ⟨staged_map hw.1, hw.2⟩

theorem writeCandidate_held {j : ConfigCandidateJournal} {contents : Bytes} :
    Held (writeCandidate j contents) := by
  refine Sat.bind turned_sat fun t => ?_
  split
  · exact Sat.modify fun _ h => h.1
  · next fault h =>
    refine Sat.bind (Q := fun _ => Turned (some fault)) (Sat.modify fun w hw => ?_)
      fun _ => Turned.faulty
    exact ⟨hw.1, fun hk => hw.2 (h.trans hk)⟩

theorem stage_held {host : Host} {item : ConfigItem} {supply : Supply} {archive : Bytes} :
    Held (stage host item supply archive) := by
  refine Held.call.bind fun _ => writeArchive_held.bind fun _ => Held.call.bind fun _ => ?_
  refine Held.ofExcept.bind fun _ => Held.throwIf.bind fun _ => Held.call.bind fun _ => ?_
  refine setStaging_held.bind fun _ => extract_held.bind fun _ => Held.call.bind fun _ => ?_
  refine setStaging_held.bind fun _ => Held.call.bind fun _ => Held.ofExcept.bind fun _ => ?_
  exact Held.call.bind fun _ => Held.pure

theorem prepareTargetDirectory_held {name : String} {directory : DirectoryIdentity} :
    Held (prepareTargetDirectory name directory) := by
  refine Held.call.bind fun _ => Held.get_bind fun w => ?_
  split
  · exact Held.pure
  · exact Held.throw
  · exact Held.call.bind fun _ => Held.modify fun _ h => h

theorem openTargetDirectory_held {name : String} : Held (openTargetDirectory name) := by
  refine (Held.call.tryCatch fun _ => Held.throw).bind fun _ => Held.get_bind fun w => ?_
  split
  · exact Held.pure
  · exact Held.throw

theorem assertTargetIdentity_held {targetFd : DirectoryIdentity} {name : String} :
    Held (assertTargetIdentity targetFd name) :=
  (Held.call.tryCatch fun _ => Held.throw).bind fun _ => Held.get_bind fun _ => Held.throwIf

theorem createCandidate_held {targetFd : DirectoryIdentity} {name : String} {id : RandomId} :
    Held (createCandidate targetFd name id) := by
  refine Held.call.bind fun _ => Held.get_bind fun w => ?_
  split
  · exact Held.throw
  · refine Held.throwIf.bind fun _ => setDir_held.bind fun _ => ?_
    exact assertTargetIdentity_held.bind fun _ => Held.call.bind fun _ => Held.pure

theorem reserveAttempts_held {targetFd : DirectoryIdentity} {name : String}
    {draws : List RandomId} : Held (reserveAttempts targetFd name draws) := by
  induction draws with
  | nil => exact Held.throw
  | cons id draws ih => exact createCandidate_held.tryCatch fun _ => Held.ite ih Held.throw

theorem reserveCandidate_held {targetFd : DirectoryIdentity} {name : String}
    {draws : List RandomId} : Held (reserveCandidate targetFd name draws) :=
  Held.call.bind fun _ => reserveAttempts_held.bind fun _ => setOwned_held.bind fun _ => Held.pure

theorem secureCandidate_held {j : ConfigCandidateJournal} : Held (secureCandidate j) :=
  Held.call.bind fun _ => setDir_held.bind fun _ => Held.call

theorem prepareCandidate_held {item : ConfigItem} {opts : ConfigOpts} {supply : Supply}
    {targetFd : DirectoryIdentity} {result : ConfigInstallResult} {contents : Bytes} :
    Held (prepareCandidate item opts supply targetFd result contents) := by
  refine reserveCandidate_held.bind fun j => ?_
  refine Held.bind (Held.call.bind fun _ => Held.modify fun _ h => h) fun _ => ?_
  refine assertTargetIdentity_held.bind fun _ => writeCandidate_held.bind fun _ => ?_
  refine secureCandidate_held.bind fun _ => assertTargetIdentity_held.bind fun _ => Held.pure

theorem secureTarget_held : Held secureTarget :=
  Held.call.bind fun _ => setDir_held.bind fun _ => setStage_held.bind fun _ => Held.call

theorem publish_held {j : ConfigCandidateJournal} : Held (publish j) :=
  setDir_held.bind fun _ => setStage_held.bind fun _ => setOwned_held

theorem renameNoReplace_held {j : ConfigCandidateJournal} : Held (renameNoReplace j) := by
  refine Held.call.bind fun _ => Held.get_bind fun w => ?_
  split
  · exact Held.throw
  · exact Held.ite Held.pure (publish_held.bind fun _ => Held.pure)

theorem renameReplace_held {j : ConfigCandidateJournal} : Held (renameReplace j) := by
  refine Held.call.bind fun _ => Held.get_bind fun w => ?_
  split
  · exact Held.throw
  · exact Held.throwIf.bind fun _ => publish_held

theorem restoreMode_held {mode : Nat} : Held (restoreMode mode) :=
  Held.call.bind fun _ => setDir_held.bind fun _ => setStage_held.bind fun _ => Held.call

theorem publishNew_held {item : ConfigItem} {opts : ConfigOpts} {supply : Supply}
    {targetFd : DirectoryIdentity} {result : ConfigInstallResult} {contents : Bytes} :
    Held (publishNew item opts supply targetFd result contents) := by
  refine Held.call.bind fun _ => Held.get_bind fun w => ?_
  split
  · exact Held.throw
  · refine Held.throwIf.bind fun _ => prepareCandidate_held.bind fun _ => ?_
    refine Held.call.bind fun _ => secureTarget_held.bind fun _ => ?_
    refine renameNoReplace_held.bind fun _ => Held.ite Held.call ?_
    exact restoreMode_held.bind fun _ => Held.throw

theorem removeStaleFile_held {name : String} {stale : RelPath} :
    Held (removeStaleFile name stale) := by
  refine Held.throwIf.bind fun _ => Held.call.bind fun _ => Held.get_bind fun _ => ?_
  refine Held.throwIf.bind fun _ => setDir_held.bind fun _ => Held.modify fun w hw => ?_
  split <;> exact hw

theorem removeStales_held {name : String} {managed : List RelPath} :
    Held (removeStales name managed) := by
  induction managed with
  | nil => exact Held.pure
  | cons stale managed ih =>
    refine Held.bind (Held.ite Held.pure ?_) fun _ => ih
    exact removeStaleFile_held.tryCatch fun _ => Held.ite Held.pure Held.throw

theorem publishOwned_held {item : ConfigItem} {opts : ConfigOpts} {supply : Supply}
    {targetFd : DirectoryIdentity} {result : ConfigInstallResult} {contents : Bytes} :
    Held (publishOwned item opts supply targetFd result contents) := by
  refine prepareCandidate_held.bind fun _ => secureTarget_held.bind fun _ => ?_
  refine renameReplace_held.bind fun _ => Held.call.bind fun _ => removeStales_held

theorem discardOwned_held : Held discardOwned := by
  refine Held.get_bind fun w => ?_
  split
  · refine Held.tryCatch ?_ fun _ => Held.pure
    exact Held.call.bind fun _ => setDir_held.bind fun _ => Held.call
  · exact Held.pure

theorem installStaged_held {host : Host} {item : ConfigItem} {opts : ConfigOpts} {supply : Supply}
    {archive : Bytes} : Held (installStaged host item opts supply archive) := by
  refine stage_held.bind fun _ => prepareTargetDirectory_held.bind fun _ => ?_
  refine openTargetDirectory_held.bind fun _ => Held.bind (Held.tryFinally ?_ discardOwned_held)
    fun _ => Held.pure
  exact Held.ite publishNew_held publishOwned_held

/-! ## The run -/

/-- The staging directory is gone, unless the run was harsh. -/
def Unstaged (w : World) : Prop := w.disk.staging = none ∨ Harsh w

theorem rmStaging_unstages :
    Sat Staged rmStaging (fun _ => Unstaged) (fun _ => Unstaged) Harsh := by
  refine Sat.bind (Q := fun _ => Staged) (call_sat (fun _ _ h => h) (fun w code turns _ => ?_)
    fun _ turns hw => Held.killed hw _ turns) fun _ => Sat.modify fun _ _ => .inl rfl
  exact .inr ⟨_, List.mem_append_right _ List.mem_cons_self, fun h => h.1 rfl⟩

/-- Before the staging directory is made, nothing of the disk has changed. -/
theorem installConfig_unstages (host : Host) (item : ConfigItem) (opts : ConfigOpts)
    (supply : Supply) (node : Option ItemNode) :
    Sat (fun w => w.disk = ⟨none, node⟩ ∧ w.record = opts.previous.map .ofSnapshot)
      (installConfig host item opts supply) (fun _ => Unstaged) (fun _ => Unstaged)
      fun w => (w.disk = ⟨none, node⟩ ∧ w.record = opts.previous.map .ofSnapshot) ∨ Harsh w := by
  let Fresh : World → Prop :=
    fun w => w.disk = ⟨none, node⟩ ∧ w.record = opts.previous.map .ofSnapshot
  have none_of : ∀ w, Fresh w → Unstaged w := fun w h => .inl (by rw [h.1])
  have early : ∀ {α : Type} {p : Sys α}, Keeps Fresh p →
      Sat Fresh p (fun _ => Fresh) (fun _ => Unstaged) fun w => Fresh w ∨ Harsh w := fun h =>
    h.conseq (fun _ h => h) (fun _ _ h => h) (fun _ => none_of) fun _ => .inl
  have calls : ∀ c, Keeps Fresh (call c) := fun c =>
    call_sat (fun _ _ h => h) (fun _ _ _ h => h) fun _ _ h => h
  refine Sat.bind (early Keeps.throwIf) fun _ => Sat.bind (early (calls _)) fun _ => ?_
  refine Sat.bind (early Keeps.ofExcept) fun archive => Sat.bind (early Keeps.throwIf) fun _ => ?_
  refine Sat.bind (early Keeps.ofExcept) fun _ => Sat.bind (early Keeps.ofExcept) fun _ => ?_
  refine Sat.bind (early (calls _)) fun _ => Sat.bind (Q := fun _ => Staged) ?_ fun _ => ?_
  · exact Sat.bind (early (calls _)) fun _ => Sat.modify fun _ _ => rfl
  · have held : Sat Staged (tryFinally (installStaged host item opts supply archive) rmStaging)
        (fun _ => Unstaged) (fun _ => Unstaged) Harsh :=
      Sat.tryFinally installStaged_held (fun _ => rmStaging_unstages) fun _ => rmStaging_unstages
    exact held.conseq (fun _ h => h) (fun _ _ h => h) (fun _ _ h => h) fun _ => .inr

/-- The disk once a run has ended, or was killed and the next reconciliation has run. -/
def afterRun (host : Host) (item : ConfigItem) (opts : ConfigOpts) (supply : Supply)
    (node : Option ItemNode) (turns : List Turn) : Disk :=
  match installConfig host item opts supply (.start node turns opts.previous) with
  | (.crash, w) => (reconcile host w.disk w.record).2
  | (_, w) => w.disk

/-- No staging directory is left, and every file that was made since `dir0` is `config.json` or
empty. -/
def Erased (dir0 : ItemDir) (disk : Disk) : Prop :=
  disk.staging = none ∧ ∀ d, disk.dir? = some d → ∀ path file, d.file? path = some file →
    dir0.nextIno ≤ file.ino → path ≠ configJson → file.bytes = []

theorem Setting.Tidy.erased {c : Setting} {disk : Disk} (hstaging : disk.staging = none)
    (H : c.Tidy disk.item) : Erased c.dir0 disk :=
  ⟨hstaging, fun d hd path file hfile hino hne =>
    H d hd path file hfile hino fun e => hne (Option.some.inj e)⟩

theorem reconcile_previous_disk {host : Host} {disk : Disk} {previous : Option InstalledSnapshot} :
    (reconcile host disk (previous.map .ofSnapshot)).2 = disk := by
  cases previous <;> rfl

/-- A run all of whose calls are gentle leaves none of the artifact's bytes outside
`config.json`. -/
theorem credentialsErased (host : Host) (item : ConfigItem) (opts : ConfigOpts) (supply : Supply)
    (node : Option ItemNode) (turns : List Turn)
    (hgentle : ∀ taken ∈ (stopOf host item opts supply node turns).trace, taken.Gentle) :
    Erased (opened node supply) (afterRun host item opts supply node turns) := by
  let c : Setting := ⟨host, opts, supply, opened node supply⟩
  have hleft : Sat (On (c.Start node)) (installConfig host item opts supply) (fun _ => Left c)
      (fun _ => Left c) (On c.Stopped) := installConfig_stops rfl
  have h₁ := hleft (.start node turns opts.previous) ⟨rfl, rfl, rfl, rfl⟩
  have h₂ := installConfig_unstages host item opts supply node (.start node turns opts.previous) ⟨rfl, rfl⟩
  have ended : ∀ w, (∀ taken ∈ w.trace, taken.Gentle) → Left c w → Unstaged w →
      Erased c.dir0 w.disk := by
    intro w hw hl hu
    have calm : ¬Harsh w := fun ⟨taken, hmem, harsh⟩ => harsh (hw taken hmem)
    exact (hl.2.resolve_right calm).erased (hu.resolve_right calm)
  unfold stopOf at hgentle
  unfold afterRun
  revert h₁ h₂ hgentle
  generalize installConfig host item opts supply (.start node turns opts.previous) = result
  rcases result with ⟨_ | _ | _, w⟩ <;> intro hgentle h₁ h₂
  · exact ended w hgentle h₁ h₂
  · exact ended w hgentle h₁ h₂
  · obtain ⟨hdisk, hrecord⟩ | ⟨taken, hmem, harsh⟩ := h₂
    · show Erased c.dir0 (reconcile host w.disk w.record).2
      rw [hdisk, hrecord, reconcile_previous_disk]
      exact Setting.Tidy.erased rfl (Setting.tidy_node rfl)
    · exact absurd (hgentle taken hmem) harsh

/-! ## What no reconciliation removes -/

theorem discardConfigCandidate_staging {disk disk' : Disk} {target : Option DirectoryIdentity}
    {candidate : Option InstalledFileIdentity}
    (h : discardConfigCandidate disk target candidate = some disk') :
    disk'.staging = disk.staging := by
  unfold discardConfigCandidate at h
  split at h
  · split at h
    · rw [← Option.some.inj h]
      rfl
    · exact nomatch h
  · exact nomatch h

theorem discardRecordedConfigCandidate_staging {disk disk' : Disk} {record : InstalledRecord}
    (h : discardRecordedConfigCandidate disk record = some disk') :
    disk'.staging = disk.staging := by
  unfold discardRecordedConfigCandidate at h
  split at h
  · rw [← Option.some.inj h]
  · exact discardConfigCandidate_staging h

theorem reconcileConfigUpgradeJournal_staging {host : Host} {disk : Disk}
    {record : InstalledRecord} :
    (reconcileConfigUpgradeJournal host disk record).2.staging = disk.staging := by
  unfold reconcileConfigUpgradeJournal
  split
  · rfl
  · split
    · rfl
    · split
      · split
        · next h => exact discardRecordedConfigCandidate_staging h
        · rfl
      · rfl

theorem reconcileFirstInstallJournal_staging {host : Host} {disk : Disk}
    {record : InstalledRecord} :
    (reconcileFirstInstallJournal host disk record).2.staging = disk.staging := by
  unfold reconcileFirstInstallJournal
  split
  · rfl
  · split
    · rfl
    · split
      · next h => exact discardRecordedConfigCandidate_staging h
      · rfl

/-- No reconciliation looks for a staging directory. -/
theorem reconcile_staging {host : Host} {disk : Disk} {record : Option InstalledRecord} :
    (reconcile host disk record).2.staging = disk.staging := by
  cases record with
  | none => rfl
  | some record =>
    have hfirst : (reconcileFirstInstallJournal host disk record).2.staging = disk.staging :=
      reconcileFirstInstallJournal_staging
    dsimp only [reconcile]
    split
    · next h => rwa [h] at hfirst
    · next h =>
      rw [h] at hfirst
      exact reconcileConfigUpgradeJournal_staging.trans hfirst

theorem afterRun_staging {host : Host} {item : ConfigItem} {opts : ConfigOpts} {supply : Supply}
    {node : Option ItemNode} {turns : List Turn} :
    (afterRun host item opts supply node turns).staging =
      (stopOf host item opts supply node turns).disk.staging := by
  unfold afterRun stopOf
  generalize installConfig host item opts supply (.start node turns opts.previous) = result
  rcases result with ⟨_ | _ | _, w⟩
  · rfl
  · rfl
  · exact reconcile_staging

/-- The run that upgrades an intact `config.json`, and is killed as `turns` says. -/
abbrev plainStop (turns : List Turn) : World :=
  stopOf plainHost plainItem plainOpts plainSupply (some (.dir (plainDir [98]))) turns

theorem plain_gentle : ∀ taken ∈ (plainStop []).trace, taken.Gentle := by decide +kernel

theorem credentialsErased_upgrade :
    Erased (opened (some (.dir (plainDir [98]))) plainSupply)
      (afterRun plainHost plainItem plainOpts plainSupply (some (.dir (plainDir [98]))) []) :=
  credentialsErased plainHost plainItem plainOpts plainSupply (some (.dir (plainDir [98]))) []
    plain_gentle

theorem plain_archive : (plainStop (killedAfter 5)).disk.staging = some ⟨some [97], none⟩ := by
  decide +kernel

/-- The artifact of a run that is killed after its download stays in the staging directory. -/
theorem killed_download_stays :
    ¬Erased (opened (some (.dir (plainDir [98]))) plainSupply)
      (afterRun plainHost plainItem plainOpts plainSupply (some (.dir (plainDir [98])))
        (killedAfter 5)) :=
  fun h => Option.some_ne_none _ ((plain_archive.symm.trans afterRun_staging.symm).trans h.1)

end CliProxy.ConfigInstaller
