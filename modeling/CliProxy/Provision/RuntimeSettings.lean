import CliProxy.Provision.Manifest
import CliProxy.Provision.SyncQueue

/-! # The settings a manifest applies

`codexFastMode`, `itemViews` and `lastSyncAt` of a workspace runtime, beside its operations: where
`registerManifestUrl`, `runSync` and `deleteItem` of `src/provision/sync.ts` assign them, and
`initializeRuntime`. What `runSync` does to the items themselves is left to the events. -/

namespace CliProxy.Provision

open Function (update)

/-! ## The source -/

inductive ProvisionItemStatus where
  | installed | pending_approval | unsupported | removed | failed
  deriving DecidableEq, Repr

structure ProvisionItemView where
  type : String
  name : String
  status : ProvisionItemStatus
  sha256 : Option String
  error : Option String
  deriving DecidableEq, Repr

def ProvisionItemView.names (view : ProvisionItemView) (key : Key) : Bool :=
  view.type = key.type && view.name = key.name

def ProvisionManifest.keys (manifest : ProvisionManifest) : List Key :=
  manifest.items.map ProvisionItem.key

/-- How a run goes on after it has loaded the lockfile: something threw, or the removals are done
and `saveState` ends like this. -/
inductive Ending where
  | threw (message : String)
  | reached (views : List ProvisionItemView) (saved : Outcome) (now : String)

structure Settings where
  cfg : QueueConfig
  queue : Workspace
  codexFastMode : Bool
  itemViews : List ProvisionItemView
  lastSyncAt : Option String
  /-- The manifest that a run has fetched. -/
  manifests : Nat → Option ProvisionManifest
  /-- The manifests that were fetched, each with the generation it was fetched at. -/
  fetches : List (Nat × ProvisionManifest)
  /-- The runs that completed, each with its generation. -/
  completions : List (Nat × ProvisionManifest)

/-- Before `initProvisioning`. -/
def Settings.fresh : Settings where
  cfg := ⟨false, none, fun _ => .ok ()⟩
  queue := .fresh
  codexFastMode := false
  itemViews := []
  lastSyncAt := none
  manifests _ := none
  fetches := []
  completions := []

/-- The generation of a run that still waits for its manifest. -/
def Workspace.waiting (s : Workspace) (op : Nat) : Option Nat :=
  match s.runs op, s.bodies[op]? with
  | some run, some (.runSync _ generation) =>
    if run.fetched || run.outcome.isSome then none else some generation
  | _, _ => none

namespace Settings

variable (s : Settings)

/-- The operations move on; a new URL clears the setting where it counts the generation. -/
def withQueue (queue : Workspace) : Settings :=
  { s with
    queue
    codexFastMode := s.codexFastMode && queue.manifestGeneration = s.queue.manifestGeneration }

/-- `fetchManifest` settled for the run `op`. -/
def fetched (op : Nat) (answer : Except String ProvisionManifest) : Settings :=
  let next := s.withQueue (s.queue.fetched op (answer.map ProvisionManifest.keys))
  match answer with
  | .ok manifest =>
    if s.queue.waiting op = some s.queue.manifestGeneration then
      { next with
        manifests := update s.manifests op (some manifest)
        fetches := s.fetches ++ [(s.queue.manifestGeneration, manifest)] }
    else next
  | .error _ => next

/-- The generation and the manifest of a run that has fetched it and goes on. -/
def running (op : Nat) : Option (Nat × ProvisionManifest) :=
  match s.queue.runs op, s.queue.bodies[op]?, s.manifests op with
  | some run, some (.runSync _ generation), some manifest =>
    if run.fetched && run.outcome.isNone then some (generation, manifest) else none
  | _, _, _ => none

/-- The last lines of `runSync`. -/
def complete (op generation : Nat) (manifest : ProvisionManifest)
    (views : List ProvisionItemView) (now : String) : Settings :=
  { s with
    queue := { s.queue with lastError := none }.finished op (.ok ())
    codexFastMode := manifest.fastMode.getD false
    itemViews := views
    lastSyncAt := some now
    completions := s.completions ++ [(generation, manifest)] }

/-- The run `op` goes on to its end. -/
def finish (op : Nat) (ending : Ending) : Settings :=
  match s.running op, ending with
  | none, _ => s
  | some _, .threw message => s.withQueue (s.queue.finished op (.error message))
  | some (generation, manifest), .reached views saved now =>
    if generation ≠ s.queue.manifestGeneration then
      s.withQueue (s.queue.finished op
        (.error "Provisioning sync was superseded by a newer manifest URL."))
    else
      match saved with
      | .error message => s.withQueue (s.queue.finished op (.error message))
      | .ok () => s.complete op generation manifest views now

/-- The item that the next microtask deletes. -/
def deleting (disk : Outcome) : Option Key :=
  match s.queue.jobs with
  | .operation op :: _ =>
    match s.queue.bodies[op]?, disk with
    | some (.delete key), .ok () => some key
    | _, _ => none
  | _ => none

/-- The first microtask runs; a deletion filters the views. -/
def tick (disk : Outcome) : Settings :=
  let next := s.withQueue (s.queue.tick s.cfg disk)
  match s.deleting disk with
  | some key => { next with itemViews := s.itemViews.filter fun view => !view.names key }
  | none => next

/-- `initializeRuntime` of a runtime that was created anew: what it read of the lockfile and of
the URL that was registered before. -/
def restart (cfg : QueueConfig) (perUserWorkers : Bool) (views : List ProvisionItemView)
    (registered : Option String) : Settings :=
  let created := { fresh with cfg }
  if !cfg.enabled || perUserWorkers then created
  else
    let created := { created with itemViews := views }
    match (cfg.pinned.filter (· ≠ "")).or (registered.filter (· ≠ "")) with
    | none => created
    | some url =>
      match created.queue.registerManifestUrl cfg 0 url none with
      | (.error message, queue) =>
        if cfg.pinned.isSome then created
        else created.withQueue { queue with lastError := some message }
      | (.ok (), queue) => created.withQueue (queue.callSync 0 false)

end Settings

inductive SettingsEvent where
  | tick (disk : Outcome)
  | fetched (op : Nat) (answer : Except String ProvisionManifest)
  | finish (op : Nat) (ending : Ending)
  | registerManifestUrl (caller : Nat) (url : String) (persisted : Option Outcome)
  | syncNow (caller : Nat)
  | approveItem (key : Key) (adopt : Bool)
  | deleteItem (key : Key)
  | handleAuthorizedSession (caller : Nat) (url : Option String) (persisted : Outcome)
  | shutdown
  | restart (cfg : QueueConfig) (perUserWorkers : Bool) (views : List ProvisionItemView)
      (registered : Option String)

namespace Settings

def step (s : Settings) : SettingsEvent → Settings
  | .tick disk => s.tick disk
  | .fetched op answer => s.fetched op answer
  | .finish op ending => s.finish op ending
  | .registerManifestUrl caller url persisted =>
    s.withQueue (s.queue.registerManifestUrl s.cfg caller url persisted).2
  | .syncNow caller => s.withQueue (s.queue.callSync caller false)
  | .approveItem key adopt => s.withQueue (s.queue.approveItem key adopt)
  | .deleteItem key => s.withQueue (s.queue.deleteItem key)
  | .handleAuthorizedSession caller url persisted =>
    s.withQueue (s.queue.handleAuthorizedSession s.cfg caller url persisted)
  | .shutdown => s.withQueue { s.queue with shuttingDown := true }
  | .restart cfg perUserWorkers views registered => restart cfg perUserWorkers views registered

def machine : Lib.Machine Settings SettingsEvent := ⟨.fresh, step⟩

end Settings

/-! ## What the operations leave alone -/

namespace Workspace

variable {s s' s'' : Workspace}

/-- The manifest and the bodies handed over before stay. -/
structure Frame (s s' : Workspace) : Prop where
  generation : s'.manifestGeneration = s.manifestGeneration
  manifest : s'.lastManifest = s.lastManifest
  manifestGeneration : s'.lastManifestGeneration = s.lastManifestGeneration
  bodies : s.bodies <+: s'.bodies

/-- So do the grants. -/
structure Keeps (s s' : Workspace) : Prop extends s.Frame s' where
  grants : ∀ op, .granted op ∈ s'.log → .granted op ∈ s.log

namespace Keeps

theorem refl (s : Workspace) : s.Keeps s := ⟨⟨rfl, rfl, rfl, List.prefix_refl _⟩, fun _ h => h⟩

theorem trans (K : s.Keeps s') (K' : s'.Keeps s'') : s.Keeps s'' where
  generation := K'.generation.trans K.generation
  manifest := K'.manifest.trans K.manifest
  manifestGeneration := K'.manifestGeneration.trans K.manifestGeneration
  bodies := K.bodies.trans K'.bodies
  grants op h := K.grants op (K'.grants op h)

theorem record (K : s.Keeps s') {entry : Entry} (h : ∀ op, entry ≠ .granted op) :
    s.Keeps (s'.record entry) := by
  refine K.trans ⟨⟨rfl, rfl, rfl, List.prefix_refl _⟩, fun op hop => ?_⟩
  rcases List.mem_append.mp hop with hop | hop
  · exact hop
  · exact absurd (List.mem_singleton.mp hop).symm (h op)

theorem enqueue (K : s.Keeps s') (jobs : List Job) : s.Keeps (s'.enqueue jobs) := { K with }

theorem setRun (K : s.Keeps s') (op : Nat) (run : Run) : s.Keeps (s'.setRun op run) := { K with }

theorem setCall (K : s.Keeps s') (call : Nat) (value : Call) : s.Keeps (s'.setCall call value) :=
  { K with }

theorem newCall (K : s.Keeps s') (value : Call) : s.Keeps (s'.newCall value) := { K with }

theorem serialize (K : s.Keeps s') (body : Body) : s.Keeps (s'.serialize body) := by
  refine K.trans ?_
  unfold Workspace.serialize
  dsimp only
  split <;> exact ⟨⟨rfl, rfl, rfl, List.prefix_append _ _⟩, fun _ h => h⟩

theorem settleOperation (K : s.Keeps s') (op : Nat) (outcome : Outcome) :
    s.Keeps (s'.settleOperation op outcome) := by
  unfold Workspace.settleOperation
  split <;> exact K.enqueue _

theorem settleRun (K : s.Keeps s') (op : Nat) (run : Run) (outcome : Outcome) :
    s.Keeps (s'.settleRun op run outcome) := by
  have hended : ∀ op', Entry.ended op ≠ .granted op' := by simp
  have H := (K.setRun op { run with outcome := some outcome }).record hended
  unfold Workspace.settleRun
  dsimp only
  split
  · exact H.enqueue _
  · exact H

theorem startRun (K : s.Keeps s') (cfg : QueueConfig) (op : Nat) :
    s.Keeps (s'.startRun cfg op) := by
  unfold Workspace.startRun
  apply enqueue
  split
  · exact K.settleRun ..
  · split
    · exact K.settleRun ..
    · exact K.setRun ..

theorem finished (K : s.Keeps s') (op : Nat) (outcome : Outcome) :
    s.Keeps (s'.finished op outcome) := by
  unfold Workspace.finished
  split
  · split
    · exact K.settleRun ..
    · exact K
  · exact K

theorem adopt (K : s.Keeps s') (op : Nat) : s.Keeps (s'.adopt op) := by
  unfold Workspace.adopt
  split
  · dsimp only
    split
    · exact (K.setRun ..).enqueue _
    · exact K.setRun ..
  · exact K

theorem advance (K : s.Keeps s') : s.Keeps s'.advance := by
  unfold Workspace.advance
  dsimp only
  split
  · apply enqueue
    exact { K with }
  · exact { K with }

theorem iterate (K : s.Keeps s') (loop : Nat) (result : Option Nat) :
    s.Keeps (s'.iterate loop result) := by
  apply serialize
  exact { K with }

theorem returnLoop (K : s.Keeps s') (loop : Nat) (outcome : Except String (Option Nat)) :
    s.Keeps (s'.returnLoop loop outcome) := by
  apply enqueue
  unfold setPhase
  split
  · exact { K with }
  · exact K

theorem resumeLoop (K : s.Keeps s') (loop op : Nat) (outcome : Outcome) :
    s.Keeps (s'.resumeLoop loop op outcome) := by
  unfold Workspace.resumeLoop
  split
  · exact K
  · dsimp only
    split
    · split
      · exact K.iterate ..
      · exact K.returnLoop ..
    · split
      · exact K.returnLoop ..
      · split
        · exact K.iterate ..
        · exact K.returnLoop ..

theorem syncNow (K : s.Keeps s') : s.Keeps s'.syncNow.2 := by
  unfold Workspace.syncNow
  split
  · exact K
  · have H : s.Keeps ({ s' with nextLoop := s'.nextLoop + 1 }.iterate s'.nextLoop none) := by
      apply iterate
      exact { K with }
    exact { H with }

theorem resumeApprove (K : s.Keeps s') (call op : Nat) (outcome : Outcome) :
    s.Keeps (s'.resumeApprove call op outcome) := by
  unfold Workspace.resumeApprove
  split
  · exact K.setCall ..
  · split
    · exact K.setCall ..
    · exact K.syncNow.setCall ..

theorem settleLoop (K : s.Keeps s') (loop : Nat) (outcome : Except String (Option Nat)) :
    s.Keeps (s'.settleLoop loop outcome) := by
  have H : s.Keeps (s'.setPhase loop (.settled outcome)) := by
    unfold setPhase
    split
    · exact { K with }
    · exact K
  unfold Workspace.settleLoop
  dsimp only
  split
  · split
    · exact { H with }
    · exact H
  · exact H

theorem callSync (K : s.Keeps s') (caller : Nat) (authorized : Bool) :
    s.Keeps (s'.callSync caller authorized) := by
  unfold Workspace.callSync
  split
  · exact K.newCall _
  · exact K.syncNow.newCall _

theorem request (K : s.Keeps s') (body : Body) :
    s.Keeps ((if s'.inFlight.isSome then { s' with syncRequested := true } else s').serialize
      body) := by
  apply serialize
  split
  · exact { K with }
  · exact K

theorem approveItem (K : s.Keeps s') (key : Key) (adopt : Bool) :
    s.Keeps (s'.approveItem key adopt) := by
  unfold Workspace.approveItem
  dsimp only
  split
  · exact K.newCall _
  · split
    · exact K.newCall _
    · split
      · exact K.newCall _
      · exact (K.request _).newCall _

theorem deleteItem (K : s.Keeps s') (key : Key) : s.Keeps (s'.deleteItem key) := by
  unfold Workspace.deleteItem
  split
  · exact K
  · split
    · exact K
    · exact K.request _

end Keeps

/-- An approval of a name that the manifest of this generation carries. -/
def Grantable (s : Workspace) (op : Nat) : Prop :=
  ∃ call key, s.bodies[op]? = some (.approve call key s.manifestGeneration) ∧
    s.knows s.manifestGeneration key = true

theorem runOperation_keeps (s : Workspace) (cfg : QueueConfig) (op : Nat) (disk : Outcome) :
    s.Keeps (s.runOperation cfg op disk) ∨
      s.Grantable op ∧ (s.record (.granted op)).Keeps (s.runOperation cfg op disk) := by
  have K : s.Keeps (s.record (.started op)) := (Keeps.refl s).record (by simp)
  unfold runOperation
  dsimp only
  split
  next => exact .inl (K.startRun cfg op)
  next call key generation hbody =>
    by_cases hok : (generation = s.manifestGeneration && s.knows generation key) = true ∧
      disk = .ok ()
    · obtain ⟨hknown, rfl⟩ := hok
      rw [Bool.and_eq_true, decide_eq_true_eq] at hknown
      obtain ⟨rfl, hknows⟩ := hknown
      refine .inr ⟨⟨call, key, hbody, hknows⟩, ?_⟩
      apply Keeps.settleOperation
      refine Keeps.record ?_ (by simp)
      have hcurrent : (decide (s.manifestGeneration = s.manifestGeneration) &&
          (s.record (.started op)).knows s.manifestGeneration key) = true := by
        rw [Bool.and_eq_true]
        exact ⟨decide_eq_true rfl, hknows⟩
      have hgrant : (s.record (.started op)).grant op key s.manifestGeneration (.ok ()) =
          (.ok (), (s.record (.started op)).record (.granted op)) := if_pos hcurrent
      rw [hgrant]
      refine ⟨⟨rfl, rfl, rfl, List.prefix_refl _⟩, fun op' h => ?_⟩
      simp only [record, List.mem_append, List.mem_singleton, reduceCtorEq, or_false] at h ⊢
      exact h
    · refine .inl (Keeps.settleOperation (Keeps.record ?_ (by simp)) ..)
      have hgrant : ((s.record (.started op)).grant op key generation disk).2 =
          s.record (.started op) := by
        unfold grant
        split
        next hknown =>
          split
          · exact absurd ⟨hknown, rfl⟩ hok
          · rfl
        next => rfl
      rw [hgrant]
      exact K
  next => exact .inl ((K.record (by simp)).settleOperation ..)
  next => exact .inl K

/-- A microtask keeps the manifest and grants at most what the manifest of this generation
carries. -/
theorem tick_frame (s : Workspace) (cfg : QueueConfig) (disk : Outcome) :
    s.Frame (s.tick cfg disk) ∧ ∀ op, .granted op ∈ (s.tick cfg disk).log →
      .granted op ∈ s.log ∨ s.Grantable op := by
  suffices h : s.Keeps (s.tick cfg disk) ∨ ∃ op, s.Grantable op ∧
      (s.record (.granted op)).Keeps (s.tick cfg disk) by
    rcases h with K | ⟨op, hop, K⟩
    · exact ⟨K.toFrame, fun op h => .inl (K.grants op h)⟩
    · refine ⟨{ K with }, fun op' h => ?_⟩
      rcases List.mem_append.mp (K.grants op' h) with h | h
      · exact .inl h
      · cases List.mem_singleton.mp h
        exact .inr hop
  unfold tick
  split
  next => exact .inl (Keeps.refl s)
  next job jobs _ =>
    have K : s.Keeps (s.dequeue jobs) := { Keeps.refl s with }
    cases job with
    | operation op =>
      rcases runOperation_keeps (s.dequeue jobs) cfg op disk with K' | ⟨hop, K'⟩
      · exact .inl (K.trans K')
      · exact .inr ⟨op, hop, { K' with }⟩
    | adopt op => exact .inl (K.adopt op)
    | resolve op outcome => exact .inl (K.settleOperation ..)
    | advance op => exact .inl K.advance
    | loop loop op outcome => exact .inl (K.resumeLoop ..)
    | approved call op outcome => exact .inl (K.resumeApprove ..)
    | caught loop outcome =>
      refine .inl (Keeps.enqueue ?_ _)
      cases outcome with
      | error message => exact { K with }
      | ok result => exact K
    | cleared loop outcome =>
      have H : s.Keeps { s.dequeue jobs with inFlight := none } := { K with }
      exact .inl (H.enqueue _)
    | settle loop outcome => exact .inl (K.settleLoop ..)

/-- A new URL counts the generation and forgets the manifest. -/
structure Renews (s s' : Workspace) : Prop where
  generation : s'.manifestGeneration = s.manifestGeneration + 1
  manifestGeneration : s'.lastManifestGeneration = none
  bodies : s.bodies <+: s'.bodies
  grants : ∀ op, .granted op ∈ s'.log → .granted op ∈ s.log

theorem Renews.trans (R : s.Renews s') (K : s'.Keeps s'') : s.Renews s'' where
  generation := K.generation.trans R.generation
  manifestGeneration := K.manifestGeneration.trans R.manifestGeneration
  bodies := R.bodies.trans K.bodies
  grants op h := R.grants op (K.grants op h)

theorem registerManifestUrl_renews (s : Workspace) (cfg : QueueConfig) (caller : Nat)
    (url : String) (persisted : Option Outcome) :
    s.Keeps (s.registerManifestUrl cfg caller url persisted).2 ∨
      s.Renews (s.registerManifestUrl cfg caller url persisted).2 := by
  unfold registerManifestUrl
  split
  next => exact .inl (Keeps.refl s)
  next =>
    split
    next => exact .inl (Keeps.refl s)
    next =>
      split
      next => exact .inl (Keeps.refl s)
      next =>
        split
        next => exact .inl (Keeps.refl s)
        next => exact .inl (Keeps.refl s)
        next =>
          split
          next => exact .inr ⟨rfl, rfl, List.prefix_refl _, fun _ h => h⟩
          next => exact .inl (Keeps.refl s)

theorem handleAuthorizedSession_renews (s : Workspace) (cfg : QueueConfig) (caller : Nat)
    (url : Option String) (persisted : Outcome) :
    s.Keeps (s.handleAuthorizedSession cfg caller url persisted) ∨
      s.Renews (s.handleAuthorizedSession cfg caller url persisted) := by
  unfold handleAuthorizedSession
  split
  next => exact .inl (Keeps.refl s)
  next url =>
    split
    next => exact .inl (Keeps.refl s)
    next =>
      have h := registerManifestUrl_renews s cfg caller url (some persisted)
      revert h
      rcases s.registerManifestUrl cfg caller url (some persisted) with ⟨message | _, s'⟩
      · exact Or.imp (fun K => { K with }) fun R => { R with }
      · exact Or.imp (fun K => K.callSync ..) fun R => R.trans ((Keeps.refl s').callSync ..)

/-- A run that waited at this generation puts its manifest in place. -/
theorem fetched_loads {op : Nat} (h : s.waiting op = some s.manifestGeneration)
    (keys : List Key) :
    { s with lastManifest := some keys, lastManifestGeneration := some s.manifestGeneration }.Keeps
      (s.fetched op (.ok keys)) := by
  unfold waiting at h
  split at h
  next run loop generation hrun hbody =>
    split at h
    next => cases h
    next hwaits =>
      cases h
      simp only [fetched, hrun, hbody, if_neg hwaits, ne_eq, not_true_eq_false, if_false]
      exact ((Keeps.refl _).setRun ..).record (by simp)
  next => cases h

theorem fetched_keeps {op : Nat} {answer : Except String (List Key)}
    (h : ∀ keys, answer = .ok keys → s.waiting op ≠ some s.manifestGeneration) :
    s.Keeps (s.fetched op answer) := by
  unfold fetched
  split
  next run loop generation hrun hbody =>
    split
    next => exact Keeps.refl s
    next hwaits =>
      cases answer with
      | error message => exact (Keeps.refl s).settleRun ..
      | ok keys =>
        have hwaiting : s.waiting op = some generation := by
          simp only [waiting, hrun, hbody, if_neg hwaits]
        have hne : generation ≠ s.manifestGeneration := by
          rintro rfl
          exact h keys rfl hwaiting
        simp only [if_pos hne]
        exact (Keeps.refl s).settleRun ..
  next => exact Keeps.refl s

theorem body_of_waiting {op generation : Nat} (h : s.waiting op = some generation) :
    ∃ loop, s.bodies[op]? = some (.runSync loop generation) := by
  unfold waiting at h
  split at h
  next run loop generation' _ hbody =>
    split at h
    · cases h
    · cases h
      exact ⟨loop, hbody⟩
  next => cases h

end Workspace

end CliProxy.Provision
