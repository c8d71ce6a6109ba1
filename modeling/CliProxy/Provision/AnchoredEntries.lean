import CliProxy.Lib.Machine

/-! # Entries of an anchored directory

`removeAtIdentity`, `renameAtNoReplace` on Windows and `renameAtReplace` of
`src/provision/rename-no-replace.ts`, call by call. Other programs work in the same directory between
any two calls; they leave the names alone that were drawn at random. A helper process may be
terminated at any point. -/

namespace CliProxy.Provision.Anchored

open Lib (Machine)

/-- The number stands for the device and the inode number. -/
structure Node where
  ino : Nat
  isDirectory : Bool
  deriving DecidableEq, Repr

abbrev Directory := String → Option Node

/-- What `rename` leaves, `none` if it cannot be done without a replacement. -/
def renameNoReplace (dir : Directory) (source destination : String) : Option Directory :=
  match dir source, dir destination with
  | some node, none =>
    some (Function.update (Function.update dir source none) destination (some node))
  | _, _ => none

/-! ## Removal by identity -/

/-- The result of a native call. -/
inductive Report where
  | done
  /-- `EEXIST` or `ENOTEMPTY` of a rename, `ENOENT` of a removal. -/
  | refused
  /-- The call throws; it may have had its effect. -/
  | failed (effect : Bool)
  deriving DecidableEq

inductive Outcome where
  | returned (value : Bool)
  | threw
  deriving DecidableEq

inductive RemovalPhase where
  | renaming
  /-- The rename threw; what the quarantine holds decides. -/
  | recovering
  | inspecting
  /-- The quarantine holds another entry. -/
  | restoring
  | removing
  /-- The removal threw. -/
  | failed
  | ended (outcome : Outcome)
  deriving DecidableEq

/-- The arguments of a call, and the quarantine name it has drawn. -/
structure Removal where
  basename : String
  quarantine : String
  expected : Node

structure RemovalState where
  dir : Directory
  phase : RemovalPhase
  /-- History variable: what the first rename moved. -/
  took : Option Node
  /-- History variable: the quarantine was renamed back. -/
  putBack : Bool
  /-- History variable: the entries that the call has unlinked. -/
  unlinked : List Node

inductive RemovalEvent where
  /-- The pending `renameOperation` returns. -/
  | renamed (report : Report)
  /-- The pending `entryAtMatchesIdentity` returns or throws. -/
  | inspected (ok : Bool)
  /-- The pending `removeAt` returns. -/
  | removed (report : Report)
  /-- Another program changes an entry. -/
  | other (name : String) (node : Option Node)

namespace RemovalState

variable (R : Removal) (s : RemovalState)

def goto (phase : RemovalPhase) : RemovalState := { s with phase }

def matchesIdentity : Bool := s.dir R.quarantine = some R.expected

/-- The first rename moves the entry into the quarantine. -/
def take (dir : Directory) (phase : RemovalPhase) : RemovalState :=
  { s with dir, phase, took := s.dir R.basename }

def restore (dir : Directory) (phase : RemovalPhase) : RemovalState :=
  { s with dir, phase, putBack := true }

def unlink (phase : RemovalPhase) : RemovalState :=
  { s with
    dir := Function.update s.dir R.quarantine none
    phase := phase
    unlinked := s.unlinked ++ (s.dir R.quarantine).toList }

def onRename (report : Report) : RemovalState :=
  match s.phase with
  | .renaming =>
    match report, renameNoReplace s.dir R.basename R.quarantine with
    | .done, some dir => s.take R dir .inspecting
    | .done, none => s
    | .refused, _ => s.goto (.ended (.returned false))
    | .failed true, some dir => s.take R dir .recovering
    | .failed _, _ => s.goto .recovering
  | .restoring =>
    match report, renameNoReplace s.dir R.quarantine R.basename with
    | .done, some dir => s.restore dir (.ended (.returned false))
    | .done, none => s
    | .refused, _ => s.goto (.ended (.returned false))
    | .failed true, some dir => s.restore dir (.ended .threw)
    | .failed _, _ => s.goto (.ended .threw)
  | .failed =>
    match report, renameNoReplace s.dir R.quarantine R.basename with
    | .done, some dir | .failed true, some dir => s.restore dir (.ended .threw)
    | .done, none => s
    | _, _ => s.goto (.ended .threw)
  | _ => s

def onInspect (ok : Bool) : RemovalState :=
  match s.phase with
  | .recovering =>
    if ok && s.matchesIdentity R then s.goto .inspecting else s.goto (.ended .threw)
  | .inspecting =>
    if !ok then s.goto (.ended .threw)
    else if s.matchesIdentity R then s.goto .removing else s.goto .restoring
  | _ => s

def onRemove (report : Report) : RemovalState :=
  match s.phase with
  | .removing =>
    match report with
    | .done => s.unlink R (.ended (.returned true))
    | .refused => s.goto (.ended (.returned false))
    | .failed true => s.unlink R .failed
    | .failed false => s.goto .failed
  | _ => s

def step : RemovalEvent → RemovalState
  | .renamed report => s.onRename R report
  | .inspected ok => s.onInspect R ok
  | .removed report => s.onRemove R report
  | .other name node =>
    if name = R.quarantine then s else { s with dir := Function.update s.dir name node }

end RemovalState

def removalMachine (R : Removal) (dir : Directory) : Machine RemovalState RemovalEvent where
  init := ⟨dir, .renaming, none, false, []⟩
  step := RemovalState.step R

/-- What the quarantine holds and what was unlinked, as the call goes on. -/
def PhaseOk (R : Removal) (s : RemovalState) : Prop :=
  match s.phase with
  | .renaming => s.took = none ∧ s.unlinked = []
  | .recovering | .inspecting | .restoring => s.unlinked = []
  | .removing => s.dir R.quarantine = some R.expected ∧ s.unlinked = []
  | .failed | .ended .threw => s.unlinked = [] ∨ s.unlinked = [R.expected]
  | .ended (.returned true) => s.unlinked = [R.expected]
  | .ended (.returned false) => s.unlinked = []

/-- An entry that was moved is unlinked, put back or still in the quarantine. -/
def Kept (R : Removal) (s : RemovalState) : Prop :=
  ∀ node, s.took = some node →
    node ∈ s.unlinked ∨ s.putBack = true ∨ s.dir R.quarantine = some node

theorem renameNoReplace_eq_some {dir dir' : Directory} {source destination : String}
    (h : renameNoReplace dir source destination = some dir') :
    dir' destination = dir source ∧ dir destination = none ∧ (dir source).isSome = true := by
  rw [renameNoReplace] at h
  split at h
  next node hsource hdestination =>
    cases h
    rw [Function.update_self, hsource]
    exact ⟨rfl, hdestination, rfl⟩
  next => cases h

section

variable {R : Removal} {s : RemovalState} {phase : RemovalPhase} {dir : Directory}

theorem Kept.goto (H : Kept R s) : Kept R (s.goto phase) := H

theorem Kept.take (h : renameNoReplace s.dir R.basename R.quarantine = some dir) :
    Kept R (s.take R dir phase) := by
  intro node hnode
  exact .inr (.inr ((renameNoReplace_eq_some h).1.trans hnode))

theorem Kept.restore : Kept R (s.restore dir phase) := fun _ _ => .inr (.inl rfl)

theorem Kept.unlink (H : Kept R s) : Kept R (s.unlink R phase) := by
  intro node hnode
  rcases H node hnode with hmem | hback | hquarantine
  · exact .inl (List.mem_append_left _ hmem)
  · exact .inr (.inl hback)
  · refine .inl (List.mem_append_right _ ?_)
    rw [hquarantine]
    exact .head _

theorem Kept.other (H : Kept R s) {name : String} (node : Option Node) (hname : name ≠ R.quarantine) :
    Kept R { s with dir := Function.update s.dir name node } := by
  intro taken htaken
  rcases H taken htaken with hmem | hback | hquarantine
  · exact .inl hmem
  · exact .inr (.inl hback)
  · refine .inr (.inr ?_)
    dsimp only
    rw [Function.update_of_ne hname.symm, hquarantine]

/-- What a call may end with, as long as it has unlinked nothing. -/
theorem phaseOk_ended {outcome : Outcome} (h : s.unlinked = []) (hne : outcome ≠ .returned true)
    (hphase : s.phase = .ended outcome) : PhaseOk R s := by
  rw [PhaseOk, hphase]
  cases outcome with
  | returned value =>
    cases value with
    | true => exact absurd rfl hne
    | false => exact h
  | threw => exact .inl h

theorem PhaseOk.unlinked (h : PhaseOk R s) : s.unlinked = [] ∨ s.unlinked = [R.expected] := by
  rw [PhaseOk] at h
  split at h
  case h_1 => exact .inl h.2
  case h_5 => exact .inl h.2
  case h_6 | h_7 => exact h
  case h_8 => exact .inr h
  all_goals exact .inl h

theorem onRename_ok (hphase : PhaseOk R s) (H : Kept R s) (report : Report) :
    PhaseOk R (s.onRename R report) ∧ Kept R (s.onRename R report) := by
  rw [PhaseOk] at hphase
  rw [RemovalState.onRename.eq_def]
  split
  next hrenaming =>
    rw [hrenaming] at hphase
    have hunlinked := hphase.2
    split
    next hdir => exact ⟨hunlinked, .take hdir⟩
    next => exact ⟨by rw [PhaseOk, hrenaming]; exact hphase, H⟩
    next => exact ⟨hunlinked, H.goto⟩
    next hdir => exact ⟨hunlinked, .take hdir⟩
    next => exact ⟨hunlinked, H.goto⟩
  next hrestoring =>
    rw [hrestoring] at hphase
    split
    next => exact ⟨hphase, .restore⟩
    next => exact ⟨by rw [PhaseOk, hrestoring]; exact hphase, H⟩
    next => exact ⟨hphase, H.goto⟩
    next => exact ⟨phaseOk_ended hphase (fun h => by cases h) rfl, .restore⟩
    next => exact ⟨phaseOk_ended hphase (fun h => by cases h) rfl, H.goto⟩
  next hfailed =>
    rw [hfailed] at hphase
    split
    next => exact ⟨hphase, .restore⟩
    next => exact ⟨hphase, .restore⟩
    next => exact ⟨by rw [PhaseOk, hfailed]; exact hphase, H⟩
    next => exact ⟨hphase, H.goto⟩
  next => exact ⟨by rw [PhaseOk]; exact hphase, H⟩

theorem onInspect_ok (hphase : PhaseOk R s) (H : Kept R s) (ok : Bool) :
    PhaseOk R (s.onInspect R ok) ∧ Kept R (s.onInspect R ok) := by
  rw [PhaseOk] at hphase
  rw [RemovalState.onInspect]
  split
  next hrecovering =>
    rw [hrecovering] at hphase
    split
    · exact ⟨hphase, H.goto⟩
    · exact ⟨phaseOk_ended hphase (fun h => by cases h) rfl, H.goto⟩
  next hinspecting =>
    rw [hinspecting] at hphase
    split
    · exact ⟨phaseOk_ended hphase (fun h => by cases h) rfl, H.goto⟩
    · split
      · next hmatches => exact ⟨⟨of_decide_eq_true hmatches, hphase⟩, H.goto⟩
      · exact ⟨hphase, H.goto⟩
  next => exact ⟨by rw [PhaseOk]; exact hphase, H⟩

/-- The quarantine holds the expected entry when it is unlinked. -/
theorem onRemove_ok (hphase : PhaseOk R s) (H : Kept R s) (report : Report) :
    PhaseOk R (s.onRemove R report) ∧ Kept R (s.onRemove R report) := by
  rw [PhaseOk] at hphase
  rw [RemovalState.onRemove.eq_def]
  split
  next hremoving =>
    rw [hremoving] at hphase
    obtain ⟨hquarantine, hunlinked⟩ := hphase
    have hnew : s.unlinked ++ (s.dir R.quarantine).toList = [R.expected] := by
      rw [hunlinked, hquarantine]
      rfl
    cases report with
    | done => exact ⟨hnew, H.unlink⟩
    | refused => exact ⟨hunlinked, H.goto⟩
    | failed effect =>
      cases effect with
      | true => exact ⟨.inr hnew, H.unlink⟩
      | false => exact ⟨.inl hunlinked, H.goto⟩
  next => exact ⟨by rw [PhaseOk]; exact hphase, H⟩

/-- No program but the call knows the name of its quarantine. -/
theorem other_ok (hphase : PhaseOk R s) (H : Kept R s) (name : String) (node : Option Node) :
    PhaseOk R (s.step R (.other name node)) ∧ Kept R (s.step R (.other name node)) := by
  rw [RemovalState.step]
  split
  · exact ⟨hphase, H⟩
  · next hname =>
    refine ⟨?_, H.other node hname⟩
    rw [PhaseOk] at hphase ⊢
    dsimp only
    rw [Function.update_of_ne (Ne.symm hname)]
    exact hphase

theorem removal_reachable {dir : Directory} (h : (removalMachine R dir).Reachable s) :
    PhaseOk R s ∧ Kept R s := by
  refine Machine.Reachable.keeps (M := removalMachine R dir) (I := fun s => PhaseOk R s ∧ Kept R s)
    ?_ ?_ h
  · exact ⟨⟨rfl, rfl⟩, fun node hnode => by cases hnode⟩
  · intro s event ⟨hphase, hkept⟩
    cases event with
    | renamed report => exact onRename_ok hphase hkept report
    | inspected ok => exact onInspect_ok hphase hkept ok
    | removed report => exact onRemove_ok hphase hkept report
    | other name node => exact other_ok hphase hkept name node

end

/-- `source` is the candidate's random name and `candidate` the file that `sourceFd` is open on.
`renameAtReplace` is the case `replace`, `renameAtNoReplace` on Windows the other one. -/
structure Publication where
  source : String
  destination : String
  candidate : Node
  replace : Bool

inductive PublicationPhase where
  -- The helper.
  | verifying
  | renaming
  | linking
  | unlinking
  -- The parent, with the status of the helper; `none` if a signal has ended it.
  | siblingSource (status : Option Nat)
  | siblingDestination (sourceIsCandidate : Bool) (status : Option Nat)
  | cleaning
  | descriptor
  | ended (outcome : Outcome)
  deriving DecidableEq

structure PublicationState where
  dir : Directory
  phase : PublicationPhase
  /-- History variable: the helper has put the candidate at the destination. -/
  published : Bool
  /-- History variable: the last `lstat` has failed. -/
  blind : Bool

inductive PublicationEvent where
  /-- The `cwd` is the open directory, or it is not. -/
  | verified (same : Bool)
  /-- The helper's pending call returns. -/
  | called (report : Report)
  | killed
  /-- The parent's pending `lstat` returns, or it fails although there is an entry. -/
  | looked (ok : Bool)
  /-- `removeWindowsPublishedCandidate` has ended. -/
  | cleaned (removed : Bool)
  /-- Another program changes an entry. -/
  | other (name : String) (node : Option Node)

namespace PublicationState

variable (P : Publication) (s : PublicationState)

def goto (phase : PublicationPhase) : PublicationState := { s with phase }

/-- What the parent does with the status of the helper. -/
def exit (status : Option Nat) : PublicationState :=
  if status = some 0 then s.goto (.ended (.returned true))
  else if P.replace then s.goto .descriptor
  else if status = some 65 then s.goto (.ended .threw)
  else s.goto (.siblingSource status)

/-- `link` and `rename` as far as the destination is concerned. -/
def publish (phase : PublicationPhase) : PublicationState :=
  { s with
    dir := Function.update s.dir P.destination (s.dir P.source)
    phase := phase
    published := true }

def unlink (phase : PublicationPhase) : PublicationState :=
  { s with dir := Function.update s.dir P.source none, phase }

def onVerify (same : Bool) : PublicationState :=
  match s.phase with
  | .verifying =>
    if !same then s.exit P (some 65)
    else if P.replace then s.goto .renaming
    else s.goto .linking
  | _ => s

def onCall (report : Report) : PublicationState :=
  match s.phase with
  | .renaming =>
    match report with
    | .done => ((s.publish P .renaming).unlink P .renaming).exit P (some 0)
    | .failed true => ((s.publish P .renaming).unlink P .renaming).exit P (some 1)
    | _ => s.exit P (some 1)
  | .linking =>
    if (s.dir P.destination).isSome then s.exit P (some 17)
    else
      match report with
      | .done => s.publish P .unlinking
      | .failed true => (s.publish P .linking).exit P (some 1)
      | _ => s.exit P (some 1)
  | .unlinking =>
    match report with
    | .done => (s.unlink P .unlinking).exit P (some 0)
    | .failed true => (s.unlink P .unlinking).exit P (some 1)
    | _ => s.exit P (some 1)
  | _ => s

def onKill : PublicationState :=
  match s.phase with
  | .verifying | .renaming | .linking | .unlinking => s.exit P none
  | _ => s

def onLook (ok : Bool) : PublicationState :=
  match s.phase with
  | .siblingSource status =>
    s.goto (.siblingDestination (ok && s.dir P.source = some P.candidate) status)
  | .siblingDestination sourceIsCandidate status =>
    if sourceIsCandidate && ok && s.dir P.destination = some P.candidate then s.goto .cleaning
    else if status = some 17 then s.goto (.ended (.returned false))
    else s.goto .descriptor
  | .descriptor =>
    if ok && s.dir P.destination = some P.candidate then s.goto (.ended (.returned true))
    else { s with phase := .ended .threw, blind := !ok }
  | _ => s

def onCleaned (removed : Bool) : PublicationState :=
  match s.phase with
  | .cleaning =>
    if removed then s.unlink P (.ended (.returned true)) else s.goto (.ended (.returned true))
  | _ => s

def step : PublicationEvent → PublicationState
  | .verified same => s.onVerify P same
  | .called report => s.onCall P report
  | .killed => s.onKill P
  | .looked ok => s.onLook P ok
  | .cleaned removed => s.onCleaned P removed
  | .other name node =>
    -- The candidate's name is random and its file is linked nowhere else.
    if name = P.source ∨ node = some P.candidate then s
    else { s with dir := Function.update s.dir name node }

end PublicationState

def publicationMachine (P : Publication) (dir : Directory) :
    Machine PublicationState PublicationEvent where
  init := ⟨dir, .verifying, false, false⟩
  step := PublicationState.step P

/-- What a phase knows about the publication. -/
def PhaseKnows (P : Publication) (s : PublicationState) : Prop :=
  match s.phase with
  | .verifying | .renaming | .linking => s.published = false
  | .unlinking | .cleaning => s.published = true
  | .siblingSource status | .siblingDestination _ status =>
    status = some 17 → s.published = false
  | .descriptor => True
  | .ended (.returned value) => s.published = value
  | .ended .threw => s.blind = true ∨ s.dir P.destination ≠ some P.candidate

structure Published (P : Publication) (s : PublicationState) : Prop where
  unpublished : s.published = false →
    s.dir P.source = some P.candidate ∧ s.dir P.destination ≠ some P.candidate
  phase : PhaseKnows P s

section

variable {P : Publication} {s : PublicationState}

/-- Only the helper can have put the candidate at the destination. -/
theorem Published.of_destination (H : Published P s) (h : s.dir P.destination = some P.candidate) :
    s.published = true := by
  cases hpublished : s.published with
  | true => rfl
  | false => exact absurd h (H.unpublished hpublished).2

theorem Published.exit_unpublished (H : Published P s) (hpublished : s.published = false)
    {status : Option Nat} (hstatus : status ≠ some 0) : Published P (s.exit P status) := by
  rw [PublicationState.exit, if_neg hstatus]
  split
  · exact ⟨H.unpublished, trivial⟩
  split
  · exact ⟨H.unpublished, .inr (H.unpublished hpublished).2⟩
  · exact ⟨H.unpublished, fun _ => hpublished⟩

theorem exit_published (hpublished : s.published = true) {status : Option Nat}
    (h17 : status ≠ some 17) (h65 : status ≠ some 65) : Published P (s.exit P status) := by
  have hun {X : Prop} (h : s.published = false) : X := by
    rw [hpublished] at h
    cases h
  rw [PublicationState.exit]
  split
  · exact ⟨fun h => hun h, hpublished⟩
  split
  · exact ⟨fun h => hun h, trivial⟩
  exact ⟨fun h => hun h, fun h => absurd h h17⟩

theorem onCall_published (H : Published P s) (report : Report) :
    Published P (s.onCall P report) := by
  have hphase := H.phase
  rw [PhaseKnows] at hphase
  rw [PublicationState.onCall.eq_def]
  split
  next hrenaming =>
    rw [hrenaming] at hphase
    split
    · exact exit_published rfl (by decide) (by decide)
    · exact exit_published rfl (by decide) (by decide)
    · exact H.exit_unpublished hphase (by decide)
  next hlinking =>
    rw [hlinking] at hphase
    split
    · exact H.exit_unpublished hphase (by decide)
    split
    · exact ⟨fun h => (by cases h), rfl⟩
    · exact exit_published rfl (by decide) (by decide)
    · exact H.exit_unpublished hphase (by decide)
  next hunlinking =>
    rw [hunlinking] at hphase
    split
    · exact exit_published (s := s.unlink P .unlinking) hphase (by decide) (by decide)
    · exact exit_published (s := s.unlink P .unlinking) hphase (by decide) (by decide)
    · exact exit_published hphase (by decide) (by decide)
  next => exact H

theorem onKill_published (H : Published P s) : Published P (s.onKill P) := by
  have hphase := H.phase
  rw [PhaseKnows] at hphase
  rw [PublicationState.onKill]
  split
  case h_1 h | h_2 h | h_3 h =>
    rw [h] at hphase
    exact H.exit_unpublished hphase (by decide)
  case h_4 h =>
    rw [h] at hphase
    exact exit_published hphase (by decide) (by decide)
  case h_5 => exact H

theorem onLook_published (H : Published P s) (ok : Bool) : Published P (s.onLook P ok) := by
  have hphase := H.phase
  rw [PhaseKnows] at hphase
  rw [PublicationState.onLook]
  split
  next h =>
    rw [h] at hphase
    exact ⟨H.unpublished, hphase⟩
  next h =>
    rw [h] at hphase
    split
    next hlook =>
      exact ⟨H.unpublished, H.of_destination (of_decide_eq_true (Bool.and_eq_true_iff.mp hlook).2)⟩
    split
    next h17 => exact ⟨H.unpublished, hphase h17⟩
    next => exact ⟨H.unpublished, trivial⟩
  next h =>
    split
    next hlook =>
      exact ⟨H.unpublished, H.of_destination (of_decide_eq_true (Bool.and_eq_true_iff.mp hlook).2)⟩
    next hlook =>
      refine ⟨H.unpublished, ?_⟩
      cases ok with
      | false => exact .inl rfl
      | true => exact .inr fun hdestination => hlook (by rw [hdestination]; simp)
  next => exact H

theorem onVerify_published (H : Published P s) (same : Bool) :
    Published P (s.onVerify P same) := by
  have hphase := H.phase
  rw [PhaseKnows] at hphase
  rw [PublicationState.onVerify]
  split
  next h =>
    rw [h] at hphase
    split
    · exact H.exit_unpublished hphase (by decide)
    split
    · exact ⟨H.unpublished, hphase⟩
    · exact ⟨H.unpublished, hphase⟩
  next => exact H

theorem onCleaned_published (H : Published P s) (removed : Bool) :
    Published P (s.onCleaned P removed) := by
  have hphase := H.phase
  rw [PhaseKnows] at hphase
  rw [PublicationState.onCleaned]
  split
  next h =>
    rw [h] at hphase
    split
    · refine ⟨fun hunpublished => ?_, hphase⟩
      exact absurd (hphase.symm.trans hunpublished) (by decide)
    · exact ⟨H.unpublished, hphase⟩
  next => exact H

theorem other_published (H : Published P s) (name : String) (node : Option Node) :
    Published P (s.step P (.other name node)) := by
  rw [PublicationState.step]
  split
  · exact H
  next hother =>
    obtain ⟨hname, hnode⟩ := not_or.mp hother
    have hdestination (h : s.dir P.destination ≠ some P.candidate) :
        Function.update s.dir name node P.destination ≠ some P.candidate := by
      by_cases heq : P.destination = name
      · rw [heq, Function.update_self]
        exact hnode
      · rw [Function.update_of_ne heq]
        exact h
    refine ⟨fun h => ⟨?_, hdestination (H.unpublished h).2⟩, ?_⟩
    · dsimp only
      rw [Function.update_of_ne (Ne.symm hname)]
      exact (H.unpublished h).1
    · have hphase := H.phase
      rw [PhaseKnows] at hphase ⊢
      split
      case h_10 h =>
        rw [h] at hphase
        exact hphase.imp_right hdestination
      all_goals
        next h =>
          rw [h] at hphase
          exact hphase

theorem publication_reachable {dir : Directory} (hsource : dir P.source = some P.candidate)
    (hdestination : dir P.destination ≠ some P.candidate)
    (h : (publicationMachine P dir).Reachable s) : Published P s := by
  refine h.keeps ⟨fun _ => ⟨hsource, hdestination⟩, rfl⟩ ?_
  intro s event H
  cases event with
  | verified same => exact onVerify_published H same
  | called report => exact onCall_published H report
  | killed => exact onKill_published H
  | looked ok => exact onLook_published H ok
  | cleaned removed => exact onCleaned_published H removed
  | other name node => exact other_published H name node

end

/-- The publication at any point of any run. A caller erases its candidate unless the result is `true`;
the file that it erases is never the one at the destination, as long as `lstat` answers. -/
theorem publication_safe {P : Publication} {dir : Directory} {s : PublicationState}
    (hsource : dir P.source = some P.candidate)
    (hdestination : dir P.destination ≠ some P.candidate)
    (h : (publicationMachine P dir).Reachable s) :
    (s.phase = .ended (.returned true) → s.published = true) ∧
      (s.phase = .ended (.returned false) →
        s.dir P.source = some P.candidate ∧ s.dir P.destination ≠ some P.candidate) ∧
      (s.phase = .ended .threw → s.blind = false → s.dir P.destination ≠ some P.candidate) := by
  have H := publication_reachable hsource hdestination h
  have hphase := H.phase
  rw [PhaseKnows] at hphase
  refine ⟨fun hended => ?_, fun hended => ?_, fun hended hblind => ?_⟩
  · rw [hended] at hphase
    exact hphase
  · rw [hended] at hphase
    exact H.unpublished hphase
  · rw [hended] at hphase
    rcases hphase with hlost | hother
    · rw [hblind] at hlost
      cases hlost
    · exact hother

/-- The helper is terminated between its two calls, and the candidate's name stays. -/
theorem publication_safe_killed :
    let P : Publication := ⟨".provision-config-candidate-0f", "config.json", ⟨1, false⟩, false⟩
    let s := (publicationMachine P fun name => if name = P.source then some P.candidate else none).run
      [.verified true, .called .done, .killed, .looked true, .looked true, .cleaned false]
    s.phase = .ended (.returned true) ∧ s.published = true := by
  refine ⟨by decide, ?_⟩
  exact (publication_safe rfl (by decide) ⟨_, rfl⟩).1 (by decide)

end CliProxy.Provision.Anchored
