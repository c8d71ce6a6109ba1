import CliProxy.Lib.Machine
import CliProxy.Provision.LockfileRoundTrip

/-! # Saving the lockfile

`saveState` of `src/provision/state.ts` writes a temporary file of its process and renames it. Any
number of processes take these steps in any order, and each of them may stop before any step, with
any part of the temporary file written. -/

namespace CliProxy.Provision.Lockfile

structure Disk where
  file : Option (List Char)
  /-- `` `${file}.tmp-${process.pid}` `` of each process. -/
  temporary : Nat → Option (List Char)

/-- Where a process stands in `saveState`. -/
inductive Save where
  | idle
  | writing (state : ProvisionStateFile)
  | written (state : ProvisionStateFile)

structure SaveRun where
  disk : Disk
  process : Nat → Save
  /-- The states whose temporary file was renamed. -/
  renamed : List ProvisionStateFile

inductive SaveEvent where
  /-- `writeFileSync` truncates the temporary file. -/
  | start (pid : Nat) (state : ProvisionStateFile)
  | write (pid length : Nat)
  | finish (pid : Nat)
  | rename (pid : Nat)
  /-- A system call fails, or the process is killed. -/
  | stop (pid : Nat)

namespace SaveRun

def setTemporary (s : SaveRun) (pid : Nat) (text : Option (List Char)) : SaveRun :=
  { s with disk := { s.disk with temporary := Function.update s.disk.temporary pid text } }

def setProcess (s : SaveRun) (pid : Nat) (save : Save) : SaveRun :=
  { s with process := Function.update s.process pid save }

theorem temporary_setTemporary (s : SaveRun) (pid pid' : Nat) (text : Option (List Char)) :
    (s.setTemporary pid text).disk.temporary pid' =
      if pid' = pid then text else s.disk.temporary pid' := Function.update_apply ..

theorem process_setProcess (s : SaveRun) (pid pid' : Nat) (save : Save) :
    (s.setProcess pid save).process pid' = if pid' = pid then save else s.process pid' :=
  Function.update_apply ..

def step (s : SaveRun) : SaveEvent → SaveRun
  | .start pid state =>
    match s.process pid with
    | .idle => (s.setTemporary pid (some [])).setProcess pid (.writing state)
    | _ => s
  | .write pid length =>
    match s.process pid with
    | .writing state => s.setTemporary pid (some ((stateText state).take length))
    | _ => s
  | .finish pid =>
    match s.process pid with
    | .writing state =>
      (s.setTemporary pid (some (stateText state))).setProcess pid (.written state)
    | _ => s
  | .rename pid =>
    match s.process pid with
    | .written state =>
      { disk :=
          { file := s.disk.temporary pid
            temporary := Function.update s.disk.temporary pid none }
        process := Function.update s.process pid .idle
        renamed := s.renamed ++ [state] }
    | _ => s
  | .stop pid => s.setProcess pid .idle

end SaveRun

/-- No process is saving. -/
def started (disk : Disk) : SaveRun := ⟨disk, fun _ => .idle, []⟩

def saves (disk : Disk) : Lib.Machine SaveRun SaveEvent := ⟨started disk, SaveRun.step⟩

/-- Every state that a process starts to save is in order. -/
def Saves (Ok : ProvisionStateFile → Prop) (_ : SaveRun) : SaveEvent → Prop
  | .start _ state => Ok state
  | _ => True

/-- The lockfile is the last one that was renamed, and a complete temporary file is the text of its
state. -/
structure Intact (Ok : ProvisionStateFile → Prop) (disk : Disk) (s : SaveRun) : Prop where
  file : s.disk.file = (s.renamed.getLast?.map stateText).or disk.file
  writing : ∀ pid state, s.process pid = .writing state → Ok state
  written : ∀ pid state, s.process pid = .written state →
    Ok state ∧ s.disk.temporary pid = some (stateText state)
  renamed : ∀ state ∈ s.renamed, Ok state

namespace Intact

variable {Ok : ProvisionStateFile → Prop} {disk : Disk} {s : SaveRun}

theorem start (disk : Disk) : Intact Ok disk (started disk) where
  file := rfl
  writing _ _ h := nomatch h
  written _ _ h := nomatch h
  renamed := List.forall_mem_nil _

theorem setTemporary (H : Intact Ok disk s) {pid : Nat} (text : Option (List Char))
    (h : ∀ state, s.process pid ≠ .written state) : Intact Ok disk (s.setTemporary pid text) where
  file := H.file
  writing := H.writing
  written pid' state hwritten := by
    have hne : pid' ≠ pid := by
      rintro rfl
      exact h state hwritten
    refine ⟨(H.written pid' state hwritten).1, ?_⟩
    rw [SaveRun.temporary_setTemporary, if_neg hne]
    exact (H.written pid' state hwritten).2
  renamed := H.renamed

theorem setProcess (H : Intact Ok disk s) {pid : Nat} {save : Save}
    (hwriting : ∀ state, save = .writing state → Ok state)
    (hwritten : ∀ state, save = .written state →
      Ok state ∧ s.disk.temporary pid = some (stateText state)) :
    Intact Ok disk (s.setProcess pid save) where
  file := H.file
  writing pid' state h := by
    rw [SaveRun.process_setProcess] at h
    split at h
    next => exact hwriting state h
    next => exact H.writing pid' state h
  written pid' state h := by
    rw [SaveRun.process_setProcess] at h
    split at h
    next hpid =>
      subst hpid
      exact hwritten state h
    next => exact H.written pid' state h
  renamed := H.renamed

theorem rename (H : Intact Ok disk s) {pid : Nat} {state : ProvisionStateFile}
    (h : s.process pid = .written state) : Intact Ok disk (s.step (.rename pid)) := by
  obtain ⟨hok, htext⟩ := H.written pid state h
  rw [SaveRun.step, h]
  refine ⟨?_, fun pid' state' h' => ?_, fun pid' state' h' => ?_, ?_⟩
  · rw [List.getLast?_concat, htext]
    rfl
  · dsimp only at h'
    rw [Function.update_apply] at h'
    split at h'
    next => cases h'
    next => exact H.writing pid' state' h'
  · dsimp only at h' ⊢
    rw [Function.update_apply] at h' ⊢
    split at h'
    next => cases h'
    next hpid =>
      rw [if_neg hpid]
      exact H.written pid' state' h'
  · rw [List.forall_mem_append, List.forall_mem_singleton]
    exact ⟨H.renamed, hok⟩

theorem step (H : Intact Ok disk s) {event : SaveEvent} (h : Saves Ok s event) :
    Intact Ok disk (s.step event) := by
  cases event with
  | start pid state =>
    cases hp : s.process pid with
    | idle =>
      rw [SaveRun.step, hp]
      have hnot : ∀ state, s.process pid ≠ .written state := by
        intro state hwritten
        rw [hp] at hwritten
        cases hwritten
      apply (H.setTemporary _ hnot).setProcess
      · rintro _ ⟨⟩
        exact h
      · exact fun _ hsave => nomatch hsave
    | _ => rwa [SaveRun.step, hp]
  | write pid length =>
    cases hp : s.process pid with
    | writing state =>
      rw [SaveRun.step, hp]
      apply H.setTemporary
      intro state hwritten
      rw [hp] at hwritten
      cases hwritten
    | _ => rwa [SaveRun.step, hp]
  | finish pid =>
    cases hp : s.process pid with
    | writing state =>
      rw [SaveRun.step, hp]
      have hnot : ∀ state, s.process pid ≠ .written state := by
        intro state hwritten
        rw [hp] at hwritten
        cases hwritten
      apply (H.setTemporary _ hnot).setProcess
      · exact fun _ hsave => nomatch hsave
      · rintro _ ⟨⟩
        exact ⟨H.writing pid state hp, Function.update_self ..⟩
    | _ => rwa [SaveRun.step, hp]
  | rename pid =>
    cases hp : s.process pid with
    | written state => exact H.rename hp
    | _ => rwa [SaveRun.step, hp]
  | stop pid =>
    apply H.setProcess
    · exact fun _ hsave => nomatch hsave
    · exact fun _ hsave => nomatch hsave

end Intact

end CliProxy.Provision.Lockfile
