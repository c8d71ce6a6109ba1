import CliProxy.Provision.RuntimeSettings
import CliProxy.Provision.SyncQueueChain

/-! # The settings follow the current manifest

`Inv` ties the setting to the runs that completed, and the manifest in memory to those that were
fetched. A step changes the views where it completes a run or deletes an item (`Changes`), and it
approves names of manifests fetched at the generation it reads (`Approves`). -/

namespace CliProxy.Provision

/-- The runtime is not made anew. -/
def SettingsEvent.stays : SettingsEvent → Bool
  | .restart .. => false
  | _ => true

namespace Settings

variable {s : Settings} {queue : Workspace}

/-! ## Statements -/

/-- The manifest of the last run that completed at the current generation. -/
def lastCompleted (s : Settings) : Option ProvisionManifest :=
  ((s.completions.filter (·.1 = s.queue.manifestGeneration)).getLast?).map Prod.snd

/-- `fast_mode` of that manifest; false if it has none or no run completed. -/
def appliedFastMode (s : Settings) : Bool :=
  (s.lastCompleted.bind ProvisionManifest.fastMode).getD false

/-- A manifest that was fetched at the current generation carries the key. -/
def Carried (s : Settings) (key : Key) : Prop :=
  ∃ manifest, (s.queue.manifestGeneration, manifest) ∈ s.fetches ∧ key ∈ manifest.keys

/-- What a step may do to `itemViews` and `lastSyncAt`. -/
inductive Changes (s s' : Settings) : Prop
  | nothing (views : s'.itemViews = s.itemViews) (syncedAt : s'.lastSyncAt = s.lastSyncAt)
      (completions : s'.completions = s.completions)
  /-- A run completes, at the generation it was fetched at, and applies its setting. -/
  | completes (manifest : ProvisionManifest)
      (fetched : (s.queue.manifestGeneration, manifest) ∈ s.fetches)
      (generation : s'.queue.manifestGeneration = s.queue.manifestGeneration)
      (completions : s'.completions = s.completions ++ [(s.queue.manifestGeneration, manifest)])
      (fastMode : s'.codexFastMode = manifest.fastMode.getD false)
  | deletes (op : Nat) (key : Key) (body : s.queue.bodies[op]? = some (.delete key))
      (views : s'.itemViews = s.itemViews.filter fun view => !view.names key)
      (syncedAt : s'.lastSyncAt = s.lastSyncAt) (completions : s'.completions = s.completions)

/-- What a step approves: the grants it saves to the lockfile. -/
def Approves (s s' : Settings) : Prop :=
  ∀ op, .granted op ∈ s'.queue.log → .granted op ∈ s.queue.log ∨
    ∃ call key, s.queue.bodies[op]? = some (.approve call key s.queue.manifestGeneration) ∧
      s.Carried key

/-! ## The invariant -/

structure Inv (s : Settings) : Prop where
  completions : ∀ c ∈ s.completions, c.1 ≤ s.queue.manifestGeneration
  fastMode : s.codexFastMode = s.appliedFastMode
  loaded : ∀ generation, s.queue.lastManifestGeneration = some generation →
    ∃ manifest, (generation, manifest) ∈ s.fetches ∧ s.queue.lastManifest = some manifest.keys
  manifests : ∀ op manifest, s.manifests op = some manifest → ∃ loop generation,
    s.queue.bodies[op]? = some (.runSync loop generation) ∧ (generation, manifest) ∈ s.fetches

theorem lastCompleted_withQueue (h : queue.manifestGeneration = s.queue.manifestGeneration) :
    (s.withQueue queue).lastCompleted = s.lastCompleted := by
  simp only [lastCompleted, withQueue, h]

namespace Inv

theorem fresh : fresh.Inv where
  completions := by simp [Settings.fresh]
  fastMode := rfl
  loaded _ h := by cases h
  manifests _ _ h := by cases h

/-- As long as no new URL comes the setting stays. -/
theorem fastMode_withQueue (I : s.Inv)
    (h : queue.manifestGeneration = s.queue.manifestGeneration) :
    (s.withQueue queue).codexFastMode = (s.withQueue queue).appliedFastMode := by
  rw [appliedFastMode, lastCompleted_withQueue h]
  simp only [withQueue, h, decide_true, Bool.and_true]
  exact I.fastMode

theorem frame (I : s.Inv) (F : s.queue.Frame queue) : (s.withQueue queue).Inv where
  completions c hc := by
    rw [show (s.withQueue queue).queue.manifestGeneration = _ from F.generation]
    exact I.completions c hc
  fastMode := I.fastMode_withQueue F.generation
  loaded generation h := by
    obtain ⟨manifest, hfetched, hmanifest⟩ :=
      I.loaded generation (F.manifestGeneration.symm.trans h)
    exact ⟨manifest, hfetched, F.manifest.trans hmanifest⟩
  manifests op manifest h := by
    obtain ⟨loop, generation, hbody, hfetched⟩ := I.manifests op manifest h
    exact ⟨loop, generation, Workspace.getElem?_of_prefix F.bodies hbody, hfetched⟩

/-- No run has completed at the new generation. -/
theorem renews (I : s.Inv) (R : s.queue.Renews queue) : (s.withQueue queue).Inv where
  completions c hc := by
    have hle := I.completions c hc
    have hgeneration : (s.withQueue queue).queue.manifestGeneration = _ := R.generation
    omega
  fastMode := by
    have hnone : s.completions.filter (·.1 = queue.manifestGeneration) = [] := by
      apply List.filter_eq_nil_iff.mpr
      intro c hc
      have hle := I.completions c hc
      have hgeneration := R.generation
      rw [decide_eq_true_eq]
      omega
    have hlast : (s.withQueue queue).lastCompleted = none := by
      show ((s.completions.filter (·.1 = queue.manifestGeneration)).getLast?).map Prod.snd = none
      rw [hnone]
      rfl
    have hne : queue.manifestGeneration ≠ s.queue.manifestGeneration := by
      have hgeneration := R.generation
      omega
    rw [appliedFastMode, hlast]
    simp [withQueue, hne]
  loaded generation h := by
    have hnone : queue.lastManifestGeneration = some generation := h
    cases R.manifestGeneration.symm.trans hnone
  manifests op manifest h := by
    obtain ⟨loop, generation, hbody, hfetched⟩ := I.manifests op manifest h
    exact ⟨loop, generation, Workspace.getElem?_of_prefix R.bodies hbody, hfetched⟩

theorem keeps_or_renews (I : s.Inv) (h : s.queue.Keeps queue ∨ s.queue.Renews queue) :
    (s.withQueue queue).Inv := by
  rcases h with K | R
  · exact I.frame K.toFrame
  · exact I.renews R

/-- The manifest that is read by `approveItem` was fetched. -/
theorem carried (I : s.Inv) {key : Key}
    (h : s.queue.knows s.queue.manifestGeneration key = true) : s.Carried key := by
  rw [Workspace.knows, Bool.and_eq_true, decide_eq_true_eq] at h
  obtain ⟨manifest, hfetched, hmanifest⟩ := I.loaded _ h.1
  refine ⟨manifest, hfetched, ?_⟩
  have hcontains := h.2
  rw [hmanifest] at hcontains
  simpa using hcontains

theorem approves (I : s.Inv) {s' : Settings} (h : ∀ op, .granted op ∈ s'.queue.log →
    .granted op ∈ s.queue.log ∨ s.queue.Grantable op) : s.Approves s' := by
  intro op hop
  rcases h op hop with hop | ⟨call, key, hbody, hknows⟩
  · exact .inl hop
  · exact .inr ⟨call, key, hbody, I.carried hknows⟩

end Inv

/-! ## Steps -/

theorem body_of_deleting {disk : Outcome} {key : Key} (h : s.deleting disk = some key) :
    ∃ op : Nat, s.queue.bodies[op]? = some (.delete key) := by
  unfold deleting at h
  split at h
  next op _ _ =>
    split at h
    next key' hbody =>
      cases h
      exact ⟨op, hbody⟩
    next => cases h
  next => cases h

theorem Inv.tick (I : s.Inv) (disk : Outcome) :
    (s.tick disk).Inv ∧ s.Changes (s.tick disk) ∧ s.Approves (s.tick disk) := by
  obtain ⟨F, hgrants⟩ := s.queue.tick_frame s.cfg disk
  have H := I.frame F
  unfold Settings.tick
  dsimp only
  split
  next key hkey =>
    obtain ⟨op, hbody⟩ := body_of_deleting hkey
    exact ⟨{ H with }, .deletes op key hbody rfl rfl rfl, I.approves hgrants⟩
  next => exact ⟨H, .nothing rfl rfl rfl, I.approves hgrants⟩

theorem Inv.fetched (I : s.Inv) (op : Nat) (answer : Except String ProvisionManifest) :
    (s.fetched op answer).Inv ∧ s.Changes (s.fetched op answer) ∧
      s.Approves (s.fetched op answer) := by
  have hkeeps : ∀ {answer' : Except String (List Key)},
      s.queue.Keeps (s.queue.fetched op answer') →
      (s.withQueue (s.queue.fetched op answer')).Inv ∧
        s.Changes (s.withQueue (s.queue.fetched op answer')) ∧
        s.Approves (s.withQueue (s.queue.fetched op answer')) :=
    fun K => ⟨I.frame K.toFrame, .nothing rfl rfl rfl, I.approves fun op h => .inl (K.grants op h)⟩
  unfold Settings.fetched
  dsimp only
  split
  next manifest =>
    split
    next hwaiting =>
      have K := Workspace.fetched_loads hwaiting manifest.keys
      obtain ⟨loop, hbody⟩ := Workspace.body_of_waiting hwaiting
      refine ⟨?_, .nothing rfl rfl rfl, I.approves fun op h => .inl (K.grants op h)⟩
      refine ⟨?_, I.fastMode_withQueue K.generation, ?_, ?_⟩
      · intro c hc
        exact (I.completions c hc).trans K.generation.symm.le
      · intro generation h
        cases K.manifestGeneration.symm.trans h
        exact ⟨manifest, List.mem_append_right _ (.head _), K.manifest⟩
      · intro op' manifest' h
        by_cases hop : op' = op
        · cases hop
          have hself : Function.update s.manifests op (some manifest) op = some manifest' := h
          rw [Function.update_self] at hself
          cases hself
          exact ⟨loop, _, Workspace.getElem?_of_prefix K.bodies hbody,
            List.mem_append_right _ (.head _)⟩
        · obtain ⟨loop', generation, hbody', hfetched⟩ :=
            I.manifests op' manifest' ((Function.update_of_ne hop ..).symm.trans h)
          exact ⟨loop', generation, Workspace.getElem?_of_prefix K.bodies hbody',
            List.mem_append_left _ hfetched⟩
    next hwaiting => exact hkeeps (Workspace.fetched_keeps fun _ _ => hwaiting)
  next => exact hkeeps (Workspace.fetched_keeps fun _ h => by cases h)

/-- A run goes on with the manifest it fetched at its own generation. -/
theorem Inv.fetched_of_running (I : s.Inv) {op generation : Nat} {manifest : ProvisionManifest}
    (h : s.running op = some (generation, manifest)) : (generation, manifest) ∈ s.fetches := by
  unfold running at h
  split at h
  next run loop generation' manifest' _ hbody hmanifest =>
    split at h
    · cases h
      obtain ⟨_, _, hbody', hfetched⟩ := I.manifests op manifest hmanifest
      cases hbody.symm.trans hbody'
      exact hfetched
    · cases h
  next => cases h

theorem Inv.complete (I : s.Inv) {op : Nat} {manifest : ProvisionManifest}
    (h : (s.queue.manifestGeneration, manifest) ∈ s.fetches) (views : List ProvisionItemView)
    (now : String) :
    (s.complete op s.queue.manifestGeneration manifest views now).Inv ∧
      s.Changes (s.complete op s.queue.manifestGeneration manifest views now) ∧
      s.Approves (s.complete op s.queue.manifestGeneration manifest views now) := by
  have K : s.queue.Keeps ({ s.queue with lastError := none }.finished op (.ok ())) := by
    apply Workspace.Keeps.finished
    exact { Workspace.Keeps.refl s.queue with }
  have H := I.frame K.toFrame
  refine ⟨⟨?_, ?_, H.loaded, H.manifests⟩, .completes manifest h K.generation rfl rfl,
    I.approves fun op h => .inl (K.grants op h)⟩
  · intro c hc
    refine le_trans ?_ K.generation.symm.le
    rcases List.mem_append.mp hc with hc | hc
    · exact I.completions c hc
    · exact (congrArg Prod.fst (List.mem_singleton.mp hc)).le
  · have hlast : (s.complete op s.queue.manifestGeneration manifest views now).lastCompleted =
        some manifest := by
      have hgeneration : (s.complete op s.queue.manifestGeneration manifest views
          now).queue.manifestGeneration = s.queue.manifestGeneration := K.generation
      rw [lastCompleted, hgeneration]
      simp [Settings.complete]
    rw [appliedFastMode, hlast]
    rfl

theorem Inv.finish (I : s.Inv) (op : Nat) (ending : Ending) :
    (s.finish op ending).Inv ∧ s.Changes (s.finish op ending) ∧
      s.Approves (s.finish op ending) := by
  have hends : ∀ outcome, (s.withQueue (s.queue.finished op outcome)).Inv ∧
      s.Changes (s.withQueue (s.queue.finished op outcome)) ∧
      s.Approves (s.withQueue (s.queue.finished op outcome)) := by
    intro outcome
    have K := (Workspace.Keeps.refl s.queue).finished op outcome
    exact ⟨I.frame K.toFrame, .nothing rfl rfl rfl, I.approves fun op h => .inl (K.grants op h)⟩
  unfold Settings.finish
  split
  next => exact ⟨I, .nothing rfl rfl rfl, I.approves fun _ h => .inl h⟩
  next => exact hends _
  next generation manifest views saved now hrunning =>
    split
    next => exact hends _
    next hgeneration =>
      cases not_not.mp hgeneration
      split
      next => exact hends _
      next => exact I.complete (I.fetched_of_running hrunning) views now

/-- The other calls move the operations only. -/
theorem Inv.call (I : s.Inv) (h : s.queue.Keeps queue ∨ s.queue.Renews queue) :
    (s.withQueue queue).Inv ∧ s.Changes (s.withQueue queue) ∧ s.Approves (s.withQueue queue) := by
  refine ⟨I.keeps_or_renews h, .nothing rfl rfl rfl, I.approves fun op hop => .inl ?_⟩
  rcases h with K | R
  · exact K.grants op hop
  · exact R.grants op hop

/-- A runtime that was made anew has fetched nothing. -/
theorem Inv.restart (cfg : QueueConfig) (perUserWorkers : Bool) (views : List ProvisionItemView)
    (registered : Option String) :
    (restart cfg perUserWorkers views registered).Inv := by
  have I : ({ Settings.fresh with cfg, itemViews := views } : Settings).Inv := { Inv.fresh with }
  unfold Settings.restart
  dsimp only
  split
  · exact { Inv.fresh with }
  · split
    · exact I
    next url _ =>
      have h := Workspace.registerManifestUrl_renews .fresh cfg 0 url none
      revert h
      simp only [Settings.fresh]
      rcases Workspace.registerManifestUrl .fresh cfg 0 url none with ⟨message | _, queue⟩
      · intro h
        dsimp only
        split
        · exact I
        · exact I.keeps_or_renews (h.imp (fun K => { K with }) fun R => { R with })
      · intro h
        exact I.keeps_or_renews (h.imp (fun K => K.callSync ..)
          fun R => R.trans ((Workspace.Keeps.refl queue).callSync ..))

theorem Inv.step (I : s.Inv) (event : SettingsEvent) :
    (s.step event).Inv ∧
      (event.stays = true → s.Changes (s.step event) ∧ s.Approves (s.step event)) := by
  have hcall : ∀ {s' : Settings}, s'.Inv ∧ s.Changes s' ∧ s.Approves s' →
      s'.Inv ∧ (event.stays = true → s.Changes s' ∧ s.Approves s') :=
    fun h => ⟨h.1, fun _ => h.2⟩
  have K := Workspace.Keeps.refl s.queue
  cases event with
  | tick disk => exact hcall (I.tick disk)
  | fetched op answer => exact hcall (I.fetched op answer)
  | finish op ending => exact hcall (I.finish op ending)
  | registerManifestUrl caller url persisted =>
    exact hcall (I.call (s.queue.registerManifestUrl_renews s.cfg caller url persisted))
  | syncNow caller => exact hcall (I.call (.inl (K.callSync caller false)))
  | approveItem key adopt => exact hcall (I.call (.inl (K.approveItem key adopt)))
  | deleteItem key => exact hcall (I.call (.inl (K.deleteItem key)))
  | handleAuthorizedSession caller url persisted =>
    exact hcall (I.call (s.queue.handleAuthorizedSession_renews s.cfg caller url persisted))
  | shutdown => exact hcall (I.call (.inl { K with }))
  | restart cfg perUserWorkers views registered =>
    exact ⟨Inv.restart cfg perUserWorkers views registered, fun h => by cases h⟩

theorem Inv.reachable {s : Settings} (h : machine.Reachable s) : s.Inv :=
  h.keeps Inv.fresh fun _ event I => (I.step event).1

/-! ## The setting, the views and the approvals -/

/-- `approveItem` waits for a grant in this state. -/
def Accepts (s : Settings) (key : Key) (adopt : Bool) : Prop :=
  ∃ op, (s.queue.approveItem key adopt).calls s.queue.nextCall = some (.approving op)

theorem Inv.accepts (I : s.Inv) {key : Key} {adopt : Bool} (h : s.Accepts key adopt) :
    s.Carried key := by
  obtain ⟨op, h⟩ := h
  unfold Workspace.approveItem at h
  dsimp only at h
  split at h
  · simp [Workspace.newCall, Workspace.setCall] at h
  · split at h
    · simp [Workspace.newCall, Workspace.setCall] at h
    · split at h
      · simp [Workspace.newCall, Workspace.setCall] at h
      next hknows =>
        apply I.carried
        simpa using hknows

/-- Whatever the order of calls, fetches and completions, the setting is that of the last run which
completed at the current generation, the views change in a completing run or a deletion, and names
are approved against manifests fetched at the current generation. -/
theorem settingsFollow (events : List SettingsEvent) :
    (machine.run events).codexFastMode = (machine.run events).appliedFastMode ∧
      (∀ event, event.stays = true →
        (machine.run events).Changes ((machine.run events).step event) ∧
        (machine.run events).Approves ((machine.run events).step event)) ∧
      ∀ key adopt, (machine.run events).Accepts key adopt → (machine.run events).Carried key := by
  have I := Inv.reachable ⟨events, rfl⟩
  exact ⟨I.fastMode, fun event => (I.step event).2, fun _ _ => I.accepts⟩

def fastManifest : ProvisionManifest where
  items := [⟨"skill", "a", none, none, none⟩]
  fastMode := some true

/-- A sync of the URL `A` completes. -/
def syncedOnce : List SettingsEvent :=
  [.restart ⟨true, none, fun _ => .ok ()⟩ false [] none, .registerManifestUrl 0 "A" none,
    .syncNow 0, .tick (.ok ()), .tick (.ok ()), .fetched 0 (.ok fastManifest),
    .finish 0 (.reached [] (.ok ()) "2026-01-01T00:00:00.000Z")]

/-- `B` and again `A` are registered. -/
def reregistered : List SettingsEvent :=
  syncedOnce ++ [.registerManifestUrl 0 "B" none, .registerManifestUrl 0 "A" none]

/-- The setting of `A` does not come back with its URL. -/
theorem settingsFollow_reregistered :
    (machine.run syncedOnce).codexFastMode = true ∧
      (machine.run reregistered).codexFastMode = (machine.run reregistered).appliedFastMode ∧
      (machine.run reregistered).codexFastMode = false := by
  refine ⟨by decide, (settingsFollow reregistered).1, by decide⟩

end Settings

end CliProxy.Provision
