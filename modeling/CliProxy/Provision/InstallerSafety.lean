import CliProxy.Provision.SkillsDirSafety
import CliProxy.Provision.Installer

/-! # No content is lost by installing or removing a skill

Every run keeps `Safe`, whatever the other process does between its calls. The run removes
nothing but its own unexposed candidate, so the proof follows the local variables that the
`finally` block reads: until the candidate is exposed, its name is still this run's. -/

namespace CliProxy.Installer

open Lib Lib.Prog Sys Provision

variable {σ : Type} {host : Host}

/-! ## Names -/

theorem item_ne_candidate {name id : String} (H : isValidItemName name = true) :
    name ≠ CANDIDATE_PREFIX ++ id := by
  rintro rfl
  simp [isValidItemName, CANDIDATE_PREFIX, isLowerAlnum] at H

theorem staging_ne_candidate {id id' : String} :
    UPGRADE_RECOVERY_PREFIX ++ id ≠ CANDIDATE_PREFIX ++ id' := by
  intro h
  have := congrArg String.toList h
  simp [UPGRADE_RECOVERY_PREFIX, CANDIDATE_PREFIX] at this

theorem rejected_ne_candidate {id id' : String} :
    REJECTED_RECOVERY_PREFIX ++ id ≠ CANDIDATE_PREFIX ++ id' := by
  intro h
  have := congrArg String.toList h
  simp [REJECTED_RECOVERY_PREFIX, CANDIDATE_PREFIX] at this

/-! ## Phases of a run -/

def Quiet (log : List Act) : Prop := ∀ act ∈ log, ∀ previous, act ≠ .refuse previous

theorem Quiet.concat {log : List Act} {act : Act} (H : Quiet log)
    (h : ∀ previous, act ≠ .refuse previous) : Quiet (log ++ [act]) := by
  intro a ha
  rcases List.mem_append.mp ha with ha | ha
  · exact H a ha
  · exact List.mem_singleton.mp ha ▸ h

/-- After the previous tree was refused, the run moves it back to the target or leaves it, and
touches nothing else but its own candidate. -/
def Refused (names : Names) (log : List Act) : Prop :=
  ∃ before moves discards, log = before ++ .refuse names.previous :: (moves ++ discards) ∧
    (moves = [] ∨ ∃ node, moves = [.move names.previous names.target node none]) ∧
    ∀ act ∈ discards, ∃ own, act = .discard names.candidate own

/-- The candidate is still hidden. -/
def Hidden (candidate : Place) (L : List Act → Prop) : Phase := fun own frame log =>
  own = some candidate ∧ frame.candidateExposed = false ∧ L log

def Running (candidate : Place) (L : List Act → Prop) : Phase := fun own frame log =>
  (frame.candidateExposed = false → own = some candidate) ∧ L log

def Logged (L : List Act → Prop) : Phase := fun _ _ log => L log

theorem Hidden.running {candidate : Place} {L : List Act → Prop} {w : World σ}
    (H : At (Hidden candidate L) w) : At (Running candidate L) w :=
  ⟨H.1, fun _ => H.2.1, H.2.2.2⟩

/-- The phase admits moves away from `source`. -/
def Movable (R : Phase) (source : Place) : Prop := ∀ own frame log target node, R own frame log →
  R (if own = some source then none else own) frame (log ++ [.move source target node none])

theorem Hidden.movable {candidate source : Place} (h : source ≠ candidate) :
    Movable (Hidden candidate Quiet) source := by
  rintro own frame log target node ⟨rfl, hframe, hlog⟩
  exact ⟨by simp [Ne.symm h], hframe, hlog.concat fun _ => nofun⟩

theorem Running.movable {candidate source : Place} (h : source ≠ candidate) :
    Movable (Running candidate Quiet) source := by
  rintro own frame log target node ⟨hown, hlog⟩
  refine ⟨fun hframe => ?_, hlog.concat fun _ => nofun⟩
  simp [hown hframe, Ne.symm h]

theorem Logged.movable {source : Place} : Movable (Logged Quiet) source :=
  fun _ _ _ _ _ hlog => Quiet.concat hlog fun _ => nofun

/-! ## Reading -/

section Reading

variable {R : Phase} {place : Place}

theorem targetExists_keeps : Keeps (At R) (targetExists place : Sys σ Bool) :=
  lstat_keeps.bind fun _ => Keeps.pure

theorem directoryIdentity_keeps :
    Keeps (At R) (directoryIdentity place : Sys σ (Option DirectoryIdentity)) := by
  refine lstat_keeps.bind fun node => ?_
  split <;> exact Keeps.pure

theorem existsAsDirectory_keeps : Keeps (At R) (existsAsDirectory place : Sys σ Bool) :=
  directoryIdentity_keeps.bind fun _ => Keeps.pure

theorem hasUntrackedContent_keeps {files : List RelPath} {directories : Option (List RelPath)} :
    Keeps (At R) (hasUntrackedContent place files directories : Sys σ Bool) := by
  refine lstat_keeps.bind fun node => ?_
  split
  · exact Keeps.pure
  · exact walk_keeps.bind fun _ => Keeps.pure
  · exact Keeps.pure

theorem auditTree_keeps : Keeps (At R) (auditTree host place : Sys σ InstallResult) :=
  walk_keeps.bind fun _ => Keeps.ofExcept

theorem managedTreeHasExactPaths_keeps {files : List RelPath}
    {directories : Option (List RelPath)} :
    Keeps (At R) (managedTreeHasExactPaths place files directories : Sys σ Bool) :=
  (walk_keeps.bind fun _ => Keeps.pure).tryCatch fun _ => Keeps.pure

theorem managedTreeHasVerifiedOwnedFile_keeps {files : List RelPath}
    {fileHashes : List (RelPath × List Hash)} :
    Keeps (At R) (managedTreeHasVerifiedOwnedFile host place files fileHashes : Sys σ Bool) :=
  (walk_keeps.bind fun _ => Keeps.pure).tryCatch fun _ => Keeps.pure

theorem anySnapshotExact_keeps {snapshots : List (List RelPath × Option (List RelPath))} :
    Keeps (At R) (anySnapshotExact place snapshots : Sys σ Bool) := by
  induction snapshots with
  | nil => exact Keeps.pure
  | cons snapshot rest ih =>
    exact managedTreeHasExactPaths_keeps.bind fun _ => Keeps.ite Keeps.pure ih

end Reading

/-! ## Moving -/

section Moving

variable {R : Phase}

theorem move_keeps {source target : Place} (h : Movable R source) :
    Keeps (At R) (moveDirectoryNoReplace source target : Sys σ Bool) :=
  rename_keeps fun own frame log node H => h own frame log target node H

theorem isolateAudited_keeps {root recovery : Place} {audited : DirectoryIdentity}
    (hroot : Movable R root) (hrecovery : Movable R recovery) :
    Keeps (At R) (isolateAudited root recovery audited : Sys σ Removal) := by
  refine (move_keeps hroot).bind fun _ => Keeps.throwIf.bind fun _ => ?_
  refine directoryIdentity_keeps.bind fun _ => Keeps.ite Keeps.pure ?_
  exact (move_keeps hrecovery).bind fun _ => Keeps.throwIf.bind fun _ => Keeps.pure

theorem removeManagedTree_keeps {root : Place} {opts : RemoveOpts}
    (h : ∀ parent id, opts.quarantineParent = some parent → opts.recoveryId = some id →
      Movable R root ∧ Movable R ⟨parent, REMOVAL_RECOVERY_PREFIX ++ id⟩) :
    Keeps (At R) (removeManagedTree host root opts : Sys σ Removal) := by
  refine existsAsDirectory_keeps.bind fun _ => Keeps.ite
    (targetExists_keeps.bind fun _ => Keeps.pure) ?_
  refine directoryIdentity_keeps.bind fun audited => anySnapshotExact_keeps.bind fun _ => ?_
  refine managedTreeHasVerifiedOwnedFile_keeps.bind fun _ => ?_
  split
  · next parent id hparent hid =>
    have ⟨hroot, hrecovery⟩ := h parent id hparent hid
    refine Keeps.ite Keeps.pure ?_
    cases audited with
    | none => exact Keeps.pure
    | some audited => exact isolateAudited_keeps hroot hrecovery
  · exact Keeps.pure

theorem removeSkill_keeps {name : String} {opts : RemoveSkillOpts} {randomId : String}
    (h : ∀ place, Movable R place) :
    Keeps (At R) (removeSkill host name opts randomId : Sys σ (Option Place)) :=
  Keeps.throwIf.bind fun _ => Keeps.throwIf.bind fun _ =>
    (removeManagedTree_keeps fun _ _ _ _ => ⟨h _, h _⟩).bind fun _ => Keeps.pure

theorem isolateRejectedCandidate_keeps {target : Place} {itemName skillsDir : String}
    {recoveryId : Option String} {expected : DirectoryIdentity} (htarget : Movable R target)
    (hrecovery : ∀ id, Movable R ⟨skillsDir, REJECTED_RECOVERY_PREFIX ++ id⟩) :
    Keeps (At R)
      (isolateRejectedCandidate target itemName skillsDir recoveryId expected : Sys σ Error) := by
  cases recoveryId with
  | none => exact Keeps.throw
  | some id =>
    refine directoryIdentity_keeps.bind fun _ => Keeps.throwIf.bind fun _ => ?_
    refine (move_keeps htarget).bind fun _ => Keeps.throwIf.bind fun _ => ?_
    refine directoryIdentity_keeps.bind fun _ => Keeps.ite Keeps.pure ?_
    exact (move_keeps (hrecovery id)).bind fun _ => Keeps.throw

theorem setFrame_sat {S : Phase} {f : Frame → Frame}
    (h : ∀ own frame log, R own frame log → S own (f frame) log) :
    Sat (At R) (setFrame f : Sys σ Unit) (fun _ => At S) (fun _ => At S) (At S) :=
  Sat.modify fun _ H => ⟨H.1.congr rfl rfl rfl rfl, h _ _ _ H.2⟩

theorem assertPublishedCandidate_keeps {target : Place} {expected : DirectoryIdentity}
    {itemName : String} {contents : InstallResult} {marker : Option String} :
    Keeps (At R)
      (assertPublishedCandidate host target expected itemName contents marker : Sys σ Unit) := by
  refine directoryIdentity_keeps.bind fun _ => Keeps.throwIf.bind fun _ => ?_
  refine (auditTree_keeps.tryCatch fun _ => Keeps.throw).bind fun _ => ?_
  exact Keeps.ofExcept.bind fun _ => Keeps.throwIf

end Moving

/-- The callbacks of the caller leave the directory to the other process. -/
def HandsOff {α : Type} (p : Sys σ α) : Prop := ∀ R, Keeps (At R) p

def RollbackHandsOff (p : Sys σ (Option (Sys σ Unit))) : Prop :=
  ∀ R, Sat (At R) p (fun undo w => At R w ∧ HandsOff (rollback undo)) (fun _ => At R) (At R)

/-! ## Installing -/

section Installing

variable {names : Names} {opts : InstallOpts σ} {identity : DirectoryIdentity}
  {result : InstallResult}

/-- None of the other names of a run is that of its candidate. -/
structure Names.Apart (names : Names) (skillsDir : String) : Prop where
  target : names.target ≠ names.candidate
  previous : names.previous ≠ names.candidate
  rejected : ∀ id, (⟨skillsDir, REJECTED_RECOVERY_PREFIX ++ id⟩ : Place) ≠ names.candidate

theorem exposeCandidate_sat {refused : Error} :
    Sat (At (Hidden names.candidate Quiet)) (exposeCandidate names refused : Sys σ Unit)
      (fun _ => At (Running names.candidate Quiet)) (fun _ => At (Running names.candidate Quiet))
      (At (Running names.candidate Quiet)) := by
  refine Sat.bind ((rename_sat (S := Logged Quiet) ?_).conseq (fun _ h => h) (fun _ _ h => h)
    (fun _ _ => Hidden.running) fun _ => Hidden.running) fun moved => ?_
  · rintro own frame log node ⟨-, -, hlog⟩
    exact hlog.concat fun _ => nofun
  · refine Sat.ite (fun hmoved => ?_) fun hmoved => ?_
    · refine Sat.strengthen (P := At (Logged Quiet)) (setFrame_sat ?_) fun _ h => by
        simpa [hmoved] using h
      exact fun _ _ _ hlog => ⟨nofun, hlog⟩
    · refine Sat.bind (Q := fun _ => At (Running names.candidate Quiet)) ?_ fun _ => Keeps.throw
      refine Sat.strengthen (P := At (Hidden names.candidate Quiet)) (setFrame_sat ?_) fun _ h => by
        simpa [hmoved] using h
      exact fun _ _ _ h => ⟨fun _ => h.1, h.2.2⟩

theorem preserveExisting_keeps {candidate : Place} :
    Keeps (At (Running candidate Quiet)) (preserveExisting candidate : Sys σ Unit) :=
  targetExists_keeps.bind fun _ => setFrame_sat fun _ _ _ h => h

section Run

variable (H : names.Apart opts.skillsDir)
include H

theorem isolateRejected_keeps : Keeps (At (Running names.candidate Quiet))
    (isolateRejectedCandidate names.target names.item opts.skillsDir opts.rejectionRecoveryId
      identity : Sys σ Error) :=
  isolateRejectedCandidate_keeps (Running.movable H.target) fun id =>
    Running.movable (H.rejected id)

theorem publishFirst_sat : Sat (At (Hidden names.candidate Quiet))
    (publishFirst host opts names identity result) (fun _ => At (Running names.candidate Quiet))
    (fun _ => At (Running names.candidate Quiet)) (At (Running names.candidate Quiet)) := by
  refine Sat.bind exposeCandidate_sat fun _ => ?_
  refine assertPublishedCandidate_keeps.tryCatch fun _ => ?_
  refine (isolateRejected_keeps H).bind fun _ => ?_
  exact Keeps.bind (setFrame_sat fun _ _ _ h => h) fun _ => Keeps.throw

theorem exposeFirstInstall_sat {undo : Option (Sys σ Unit)} (hundo : HandsOff (rollback undo)) :
    Sat (At (Hidden names.candidate Quiet))
      (exposeFirstInstall host opts names identity result undo)
      (fun _ => At (Running names.candidate Quiet)) (fun _ => At (Running names.candidate Quiet))
      (At (Running names.candidate Quiet)) := by
  have hrunning : ∀ w : World σ, At (Hidden names.candidate Quiet) w →
      At (Running names.candidate Quiet) w := fun _ => Hidden.running
  refine Sat.bind (targetExists_keeps.conseq (fun _ h => h) (fun _ _ h => h)
    (fun _ => hrunning) hrunning) fun present => Sat.ite (fun _ => ?_) fun _ => ?_
  · exact Sat.strengthen (Keeps.bind (hundo _) fun _ => Keeps.throw) hrunning
  · refine (publishFirst_sat H).tryCatch fun err => ?_
    refine preserveExisting_keeps.bind fun _ => ?_
    refine Keeps.bind (get_keeps.bind fun w => ?_) fun _ => Keeps.throw
    exact Keeps.ite (hundo _) Keeps.pure

theorem moveAside_keeps : Keeps (At (Hidden names.candidate Quiet))
    (moveAside names : Sys σ Bool) :=
  ((move_keeps (Hidden.movable H.target)).bind fun _ =>
    Keeps.throwIf.bind fun _ => Keeps.pure).tryCatch fun _ => Keeps.ite Keeps.pure Keeps.throw

/-- A refused tree goes back to the target or stays, and the run ends with an exception. -/
theorem refusePrevious_sat {reason : String} :
    Sat (At (Hidden names.candidate Quiet)) (refusePrevious names reason : Sys σ Unit)
      (fun _ _ => False) (fun _ => At (Running names.candidate (Refused names)))
      (At (Running names.candidate (Refused names))) := by
  let Asked : List Act → Prop := fun log => ∃ before, log = before ++ [.refuse names.previous]
  let Restored : List Act → Prop := fun log => ∃ before node,
    log = before ++ [.refuse names.previous, .move names.previous names.target node none]
  have hasked : ∀ w : World σ, At (Hidden names.candidate Asked) w →
      At (Running names.candidate (Refused names)) w := by
    rintro w ⟨hsafe, hown, -, before, hlog⟩
    exact ⟨hsafe, fun _ => hown, before, [], [], by simpa using hlog, .inl rfl, List.forall_mem_nil _⟩
  have hrestored : ∀ w : World σ, At (Hidden names.candidate Restored) w →
      At (Running names.candidate (Refused names)) w := by
    rintro w ⟨hsafe, hown, -, before, node, hlog⟩
    exact ⟨hsafe, fun _ => hown, before, _, [], by simpa using hlog, .inr ⟨node, rfl⟩, List.forall_mem_nil _⟩
  refine Sat.bind (Q := fun _ => At (Hidden names.candidate Asked)) (Sat.modify ?_) fun _ => ?_
  · intro w h
    refine ⟨?_, h.2.1, h.2.2.1, w.log, rfl⟩
    exact ⟨h.1.kept, h.1.held, harmless_concat h.1.harmless trivial⟩
  refine Sat.bind ((rename_sat (S := Hidden names.candidate Restored) ?_).conseq
    (fun _ h => h) (fun _ _ h => h) (fun _ => hasked) hasked) fun restored => ?_
  · rintro own frame log node ⟨rfl, hframe, before, rfl⟩
    exact ⟨by simp [H.previous.symm], hframe, before, node, by simp⟩
  cases restored with
  | true =>
    refine Sat.bind (Q := fun _ => At (Hidden names.candidate Restored)) ?_
      fun _ => Sat.throw hrestored
    exact Sat.throwIf (fun h => nomatch h) fun _ w h => by simpa using h
  | false =>
    refine Sat.bind (Q := fun _ _ => False) ?_ fun _ => fun _ h => h.elim
    exact Sat.throwIf (fun _ w h => hasked w (by simpa using h)) fun h => nomatch h

theorem publishUpgrade_sat {hadPrevious : Bool} : Sat (At (Hidden names.candidate Quiet))
    (publishUpgrade host opts names identity result hadPrevious)
    (fun _ => At (Running names.candidate Quiet)) (fun _ => At (Running names.candidate Quiet))
    (At (Running names.candidate Quiet)) := by
  refine Sat.bind exposeCandidate_sat fun _ => ?_
  refine assertPublishedCandidate_keeps.tryCatch fun _ => ?_
  exact (isolateRejected_keeps H).bind fun _ => Keeps.throw

omit H in
theorem retainPrevious_keeps {managedFiles : List RelPath} :
    Keeps (At (Running names.candidate Quiet)) (retainPrevious host opts names managedFiles) :=
  (removeManagedTree_keeps fun _ _ h => by simp at h).bind fun _ => Keeps.throwIf

theorem replacePrevious_sat {managedFiles : List RelPath} {hadPrevious : Bool} :
    Sat (At (Hidden names.candidate Quiet))
      (replacePrevious host opts names identity result managedFiles hadPrevious)
      (fun _ => At (Running names.candidate Quiet)) (fun _ => At (Running names.candidate Quiet))
      (At (Running names.candidate Quiet)) := by
  refine Sat.bind ((publishUpgrade_sat H).tryCatch fun err => ?_) fun _ =>
    Keeps.ite retainPrevious_keeps Keeps.pure
  exact Keeps.ite Keeps.throw (preserveExisting_keeps.bind fun _ => Keeps.throw)

/-- What the log of a run that did not return says. -/
def Told (names : Names) (log : List Act) : Prop := Quiet log ∨ Refused names log

omit H in
theorem running_told {w : World σ} (h : At (Running names.candidate Quiet) w) :
    At (Running names.candidate (Told names)) w :=
  ⟨h.1, h.2.1, .inl h.2.2⟩

theorem exposeUpgrade_sat {managedFiles : List RelPath} :
    Sat (At (Hidden names.candidate Quiet))
      (exposeUpgrade host opts names identity result managedFiles)
      (fun _ => At (Running names.candidate Quiet))
      (fun _ => At (Running names.candidate (Told names)))
      (At (Running names.candidate (Told names))) := by
  have hidden : ∀ {α : Type} {p : Sys σ α}, Keeps (At (Hidden names.candidate Quiet)) p →
      Sat (At (Hidden names.candidate Quiet)) p (fun _ => At (Hidden names.candidate Quiet))
        (fun _ => At (Running names.candidate (Told names)))
        (At (Running names.candidate (Told names))) := fun h =>
    h.conseq (fun _ h => h) (fun _ _ h => h) (fun _ _ h => running_told (Hidden.running h))
      fun _ h => running_told (Hidden.running h)
  refine Sat.bind (hidden (moveAside_keeps H)) fun hadPrevious => ?_
  refine Sat.bind (hidden (Keeps.ite hasUntrackedContent_keeps Keeps.pure)) fun untracked => ?_
  refine Sat.bind (hidden (Keeps.ite
    (managedTreeHasVerifiedOwnedFile_keeps.bind fun _ => Keeps.pure) Keeps.pure))
    fun unverified => Sat.ite (fun _ => ?_) fun _ => ?_
  · refine (refusePrevious_sat H).conseq (fun _ h => h) (fun _ _ h => h.elim) ?_ ?_
    · exact fun _ w h => ⟨h.1, h.2.1, .inr h.2.2⟩
    · exact fun w h => ⟨h.1, h.2.1, .inr h.2.2⟩
  · exact (replacePrevious_sat H).conseq (fun _ h => h) (fun _ _ h => h)
      (fun _ _ => running_told) fun _ => running_told

end Run

theorem fill_keeps {candidate : Place} {change : Entries → Except Error Entries} :
    Keeps (At (Hidden candidate Quiet)) (fillCandidate candidate change : Sys σ Unit) :=
  fillCandidate_keeps (fun _ _ _ h => h.1) fun _ _ _ h => ⟨h.1, h.2.1, h.2.2.concat fun _ => nofun⟩

theorem prepareCandidate_keeps {extracted : Option Entries} :
    Keeps (At (Hidden names.candidate Quiet))
      (prepareCandidate host names identity extracted : Sys σ InstallResult) := by
  refine (fill_keeps.tryCatch fun _ => Keeps.throw).bind fun _ => call_keeps.bind fun _ => ?_
  refine auditTree_keeps.bind fun _ => directoryIdentity_keeps.bind fun _ => ?_
  exact Keeps.throwIf.bind fun _ => Keeps.throwIf.bind fun _ => Keeps.pure

theorem refuseTarget_keeps {R : Phase} : Keeps (At R) (refuseTarget opts names) := by
  unfold refuseTarget
  split
  · exact targetExists_keeps.bind fun _ => Keeps.throwIf
  · exact hasUntrackedContent_keeps.bind fun _ => Keeps.throwIf

theorem writeMarker_keeps {supply : Supply} {candidate : Place} {marker : String} :
    Keeps (At (Hidden candidate Quiet)) (writeMarker supply candidate marker : Sys σ Unit) :=
  Keeps.throwIf.bind fun _ => fill_keeps

theorem markCandidate_keeps {supply : Supply} :
    Keeps (At (Hidden names.candidate Quiet)) (markCandidate opts supply names) := by
  unfold markCandidate
  split
  · exact writeMarker_keeps
  · exact Keeps.pure

theorem installCandidate_sat {supply : Supply} {extracted : Option Entries}
    (H : names.Apart opts.skillsDir)
    (hcommit : ∀ result identity, RollbackHandsOff (opts.beforeCommit result identity)) :
    Sat (At (Hidden names.candidate Quiet))
      (installCandidate host opts supply names identity extracted)
      (fun _ => At (Running names.candidate Quiet))
      (fun _ => At (Running names.candidate (Told names)))
      (At (Running names.candidate (Told names))) := by
  have hidden : ∀ {α : Type} {p : Sys σ α}, Keeps (At (Hidden names.candidate Quiet)) p →
      Sat (At (Hidden names.candidate Quiet)) p (fun _ => At (Hidden names.candidate Quiet))
        (fun _ => At (Running names.candidate (Told names)))
        (At (Running names.candidate (Told names))) := fun h =>
    h.conseq (fun _ h => h) (fun _ _ h => h) (fun _ _ h => running_told (Hidden.running h))
      fun _ h => running_told (Hidden.running h)
  refine Sat.bind (hidden prepareCandidate_keeps) fun result => ?_
  refine Sat.bind (hidden refuseTarget_keeps) fun _ => ?_
  refine Sat.bind (hidden markCandidate_keeps) fun _ => ?_
  refine Sat.bind ((hcommit result identity _).conseq (fun _ h => h) (fun _ _ h => h)
    (fun _ _ h => running_told (Hidden.running h)) fun _ h => running_told (Hidden.running h))
    fun undo => ?_
  refine Sat.bind (Q := fun _ => At (Running names.candidate Quiet)) ?_
    fun _ => Sat.pure fun _ h => h
  rintro w ⟨hw, hundo⟩
  refine Sat.strengthen (P := At (Hidden names.candidate Quiet)) ?_ (fun _ h => h) w hw
  unfold commitCandidate
  split
  · exact (exposeFirstInstall_sat H hundo).conseq (fun _ h => h) (fun _ _ h => h)
      (fun _ _ => running_told) fun _ => running_told
  · exact exposeUpgrade_sat H

theorem Refused.discard {log : List Act} {own : Option Place} (H : Refused names log) :
    Refused names (log ++ [.discard names.candidate own]) := by
  obtain ⟨before, moves, discards, rfl, hmoves, hdiscards⟩ := H
  refine ⟨before, moves, discards ++ [.discard names.candidate own], by simp, hmoves, ?_⟩
  intro act h
  rcases List.mem_append.mp h with h | h
  · exact hdiscards act h
  · exact ⟨own, List.mem_singleton.mp h⟩

/-- The `finally` block removes the candidate only while its name is this run's. -/
theorem discardCandidate_sat {L : List Act → Prop}
    (hdiscard : ∀ own log, L log → L (log ++ [.discard names.candidate own])) :
    Sat (At (Running names.candidate L)) (discardCandidate names.candidate identity : Sys σ Unit)
      (fun _ => At (Logged L)) (fun _ => At (Logged L)) (At (Logged L)) := by
  have logged : ∀ w : World σ, At (Running names.candidate L) w → At (Logged L) w :=
    fun _ h => ⟨h.1, h.2.2⟩
  have hlogged : ∀ w : World σ, At (Hidden names.candidate L) w → At (Logged L) w :=
    fun _ h => ⟨h.1, h.2.2.2⟩
  refine Sat.bind (Q := fun v w => v = w ∧ At (Running names.candidate L) w)
    (Sat.get fun _ h => ⟨rfl, h⟩) fun v => Sat.ite (fun _ => ?_) fun hframe => ?_
  · exact Sat.pure fun w h => logged w h.2
  · have hidden : ∀ w, v = w ∧ At (Running names.candidate L) w →
        At (Hidden names.candidate L) w := by
      rintro w ⟨rfl, hsafe, hown, hlog⟩
      have hexposed : v.frame.candidateExposed = false := by
        cases h : v.frame.candidateExposed with
        | false => rfl
        | true => simp [h] at hframe
      exact ⟨hsafe, hown hexposed, hexposed, hlog⟩
    refine Sat.bind (directoryIdentity_keeps.conseq hidden (fun _ _ h => h) (fun _ => hlogged)
      hlogged) fun now => Sat.ite (fun _ => ?_) fun _ => Sat.pure hlogged
    exact rmCandidate_sat (fun _ _ _ h => h.1) fun own frame log h =>
      ⟨hdiscard own log h.2.2, hdiscard own log h.2.2, h.2.2⟩

/-- The names of the run that `installSkill` starts. -/
def Names.ofRun (name : String) (opts : InstallOpts σ) (supply : Supply) : Names :=
  ⟨name, ⟨opts.skillsDir, name⟩, ⟨opts.skillsDir, CANDIDATE_PREFIX ++ supply.candidateId⟩,
    ⟨opts.skillsDir,
      UPGRADE_RECOVERY_PREFIX ++ opts.upgradeRecoveryId.getD supply.stagingId⟩⟩

theorem stagingName_eq {supply : Supply} {staging : String}
    (h : stagingName opts supply = .ok staging) :
    staging = UPGRADE_RECOVERY_PREFIX ++ opts.upgradeRecoveryId.getD supply.stagingId := by
  unfold stagingName at h
  cases hid : opts.upgradeRecoveryId with
  | none =>
    rw [hid] at h
    exact (Except.ok.inj h).symm
  | some id =>
    rw [hid] at h
    dsimp only at h
    split at h
    · exact nomatch h
    · exact (Except.ok.inj h).symm

theorem Names.ofRun_apart {name : String} {supply : Supply} (h : isValidItemName name = true) :
    (Names.ofRun name opts supply).Apart opts.skillsDir where
  target e := item_ne_candidate h (congrArg Place.name e)
  previous e := staging_ne_candidate (congrArg Place.name e)
  rejected _ e := rejected_ne_candidate (congrArg Place.name e)

theorem installStaged_sat {supply : Supply} {extracted : Option Entries}
    (H : names.Apart opts.skillsDir)
    (hcommit : ∀ result identity, RollbackHandsOff (opts.beforeCommit result identity)) :
    Sat (At (Hidden names.candidate Quiet))
      (installStaged host opts supply names identity extracted) (fun _ => At (Logged Quiet))
      (fun _ => At (Logged (Told names))) (At (Logged (Told names))) := by
  have hidden : ∀ w : World σ, At (Hidden names.candidate Quiet) w →
      At (Logged (Told names)) w := fun _ h => ⟨h.1, .inl h.2.2.2⟩
  refine Sat.bind (Q := fun _ => At (Hidden names.candidate Quiet))
    (Sat.throwIf (fun _ => hidden) fun _ _ h => h) fun _ => ?_
  refine Sat.tryFinally ((installCandidate_sat H hcommit).conseq (fun _ h => h)
    (fun _ _ h => h) (fun _ _ h => h) fun _ h => ⟨h.1, h.2.2⟩) (fun _ => ?_) fun _ => ?_
  · refine (discardCandidate_sat (L := Quiet) fun own log h =>
      h.concat fun _ => nofun).conseq (fun _ h => h) (fun _ _ h => h) ?_ ?_
    · exact fun _ _ h => ⟨h.1, .inl h.2⟩
    · exact fun _ h => ⟨h.1, .inl h.2⟩
  · refine discardCandidate_sat fun own log h => ?_
    exact h.imp (fun h => h.concat fun _ => nofun) Refused.discard

theorem installSkill_sat {name : String} {supply : Supply}
    (hmutation : HandsOff opts.beforeMutation)
    (hcommit : ∀ result identity, RollbackHandsOff (opts.beforeCommit result identity)) :
    Sat (At (Logged Quiet)) (installSkill host name opts supply) (fun _ => At (Logged Quiet))
      (fun _ => At (Logged (Told (Names.ofRun name opts supply))))
      (At (Logged (Told (Names.ofRun name opts supply)))) := by
  have told : ∀ w : World σ, At (Logged Quiet) w →
      At (Logged (Told (Names.ofRun name opts supply))) w := fun _ h => ⟨h.1, .inl h.2⟩
  have logged : ∀ {α : Type} {p : Sys σ α}, Keeps (At (Logged Quiet)) p →
      Sat (At (Logged Quiet)) p (fun _ => At (Logged Quiet))
        (fun _ => At (Logged (Told (Names.ofRun name opts supply))))
        (At (Logged (Told (Names.ofRun name opts supply)))) := fun h =>
    h.conseq (fun _ h => h) (fun _ _ h => h) (fun _ => told) told
  refine Sat.bind (Q := fun _ w => isValidItemName name = true ∧ At (Logged Quiet) w)
    (Sat.throwIf (fun _ => told) fun hname _ h => ⟨by simpa using hname, h⟩)
    fun _ => Sat.assume fun hname => ?_
  refine Sat.bind (logged call_keeps) fun _ => Sat.bind (logged Keeps.ofExcept) fun extracted => ?_
  refine Sat.bind (logged (hmutation _)) fun _ => Sat.bind (logged call_keeps) fun _ => ?_
  let Fresh : Phase := fun _ frame log => frame.candidateExposed = false ∧ Quiet log
  have fresh : ∀ w : World σ, At Fresh w →
      At (Logged (Told (Names.ofRun name opts supply))) w := fun _ h => ⟨h.1, .inl h.2.2⟩
  refine Sat.bind (Q := fun _ => At Fresh) (Sat.modify fun w h => ?_) fun _ => ?_
  · exact ⟨h.1.congr rfl rfl rfl rfl, rfl, h.2⟩
  let candidate := (Names.ofRun name opts supply).candidate
  refine Sat.bind (Q := fun _ => At (Hidden candidate Quiet)) ((mkdirCandidate_sat
    fun own frame log h => ⟨rfl, h.1, h.2.concat fun _ => nofun⟩).conseq (fun _ h => h)
    (fun _ _ h => h) (fun _ => fresh) fresh) fun _ => ?_
  have hidden : ∀ w : World σ, At (Hidden candidate Quiet) w →
      At (Logged (Told (Names.ofRun name opts supply))) w :=
    fun _ h => told _ ⟨h.1, h.2.2.2⟩
  refine Sat.bind (directoryIdentity_keeps.conseq (fun _ h => h) (fun _ _ h => h)
    (fun _ => hidden) hidden) fun identity => ?_
  cases identity with
  | none => exact Sat.throw hidden
  | some identity =>
    refine Sat.bind (Q := fun staging w => stagingName opts supply = .ok staging ∧
      At (Hidden candidate Quiet) w) (Sat.ofExcept (fun _ h _ hw => ⟨h, hw⟩) fun _ _ => hidden)
      fun staging => Sat.assume fun hstaging => ?_
    obtain rfl := stagingName_eq hstaging
    exact installStaged_sat (Names.ofRun_apart hname) hcommit

theorem onCaller_handsOff {α : Type} {f : σ → Except Error α × σ} : HandsOff (onCaller f) := by
  refine fun R => call_keeps.bind fun _ => get_keeps.bind fun w => ?_
  exact Keeps.bind (Sat.modify fun w h => ⟨h.1.congr rfl rfl rfl rfl, h.2⟩) fun _ =>
    Keeps.ofExcept

theorem withCallbacks_handsOff {callbacks : Callbacks σ} :
    RollbackHandsOff ((opts.withCallbacks callbacks).beforeCommit result identity) := by
  refine fun R => Sat.bind (onCaller_handsOff R) fun undo => Sat.pure fun w h => ⟨h, ?_⟩
  cases undo with
  | none => exact fun _ => Keeps.pure
  | some undo => exact onCaller_handsOff

end Installing

/-- What happened to the content of the skills directories in a run that ended so. -/
structure Preserved {α : Type} (names : Names) (ended : Exit Error α × World σ) : Prop where
  /-- Every file that was there, or that the other process added, and that this process did not
  remove itself is still below its skills directory. -/
  kept : ∀ root inode, ended.2.owed root inode → Stored ended.2.dir ended.2.own root inode
  /-- No entry was replaced, and nothing changed or removed but the unexposed candidate. -/
  harmless : ∀ act ∈ ended.2.log, act.Harmless
  /-- A previous tree with content of somebody else ends the run with an exception, and is moved
  back to the target or stays in its recovery. -/
  refused : Quiet ended.2.log ∨ Refused names ended.2.log ∧ ∀ a, ended.1 ≠ .ok a

theorem installSkill_preserved (name : String) (opts : InstallOpts σ) (callbacks : Callbacks σ)
    (supply : Supply) (dir : Dir) (turns : List Turn) (caller : σ) :
    Preserved (Names.ofRun name opts supply)
      (installSkill host name (opts.withCallbacks callbacks) supply
        (.start dir turns caller)) := by
  have H := (installSkill_sat onCaller_handsOff fun _ _ => withCallbacks_handsOff :
    Sat _ (installSkill host name (opts.withCallbacks callbacks) supply) _ _ _)
    (.start dir turns caller) ⟨World.start_safe, fun _ h => nomatch h⟩
  have hnames : Names.ofRun name (opts.withCallbacks callbacks) supply =
    Names.ofRun name opts supply := rfl
  rw [hnames] at H
  revert H
  rcases installSkill host name (opts.withCallbacks callbacks) supply (.start dir turns caller)
    with ⟨_ | _ | _, w⟩
  · exact fun H => ⟨H.1.kept, H.1.harmless, .inl H.2⟩
  · exact fun H => ⟨H.1.kept, H.1.harmless, H.2.imp_right fun h => ⟨h, fun _ => nofun⟩⟩
  · exact fun H => ⟨H.1.kept, H.1.harmless, H.2.imp_right fun h => ⟨h, fun _ => nofun⟩⟩

theorem removeSkill_preserved (names : Names) (name : String) (opts : RemoveSkillOpts)
    (randomId : String) (dir : Dir) (turns : List Turn) (caller : σ) :
    Preserved names (removeSkill host name opts randomId (.start dir turns caller)) := by
  have H := (removeSkill_keeps fun _ => Logged.movable :
    Keeps (At (Logged Quiet)) (removeSkill host name opts randomId))
    (.start dir turns caller) ⟨World.start_safe, fun _ h => nomatch h⟩
  revert H
  rcases removeSkill host name opts randomId (.start dir turns caller) with ⟨_ | _ | _, w⟩ <;>
    exact fun H => ⟨H.1.kept, H.1.harmless, .inl H.2⟩

/-- No run of `installSkill` or `removeSkill` destroys content, under any other process and any
failures, wherever the run ends. -/
theorem contentPreserved (host : Host) (dir : Dir) (turns : List Turn) (caller : σ) :
    (∀ name opts callbacks supply,
      Preserved (Names.ofRun name opts supply) (installSkill host name
        (opts.withCallbacks callbacks) supply (.start dir turns caller))) ∧
      ∀ names name opts randomId,
        Preserved names (removeSkill host name opts randomId (.start dir turns caller)) :=
  ⟨fun name opts callbacks supply =>
      installSkill_preserved name opts callbacks supply dir turns caller,
    fun names name opts randomId => removeSkill_preserved names name opts randomId dir turns caller⟩

end CliProxy.Installer
