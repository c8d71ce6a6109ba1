import CliProxy.Auth.SessionAuthority

/-! # One submission, one conclusion

A session is driven by one `submit()` at a time and concludes once: `handleAuthorizedSession` runs
at the step that authorizes its record and at no other. A concluded status changes only where the
reaper or a reset drops the session. -/

namespace CliProxy.Auth

open Lib Manager
open Function (update update_apply update_self update_of_ne)

namespace Effect

/-- The effect concludes the session with this id. -/
def handles (id : SessionId) : Effect → Bool
  | .handleAuthorizedSession session _ _ => session = id
  | _ => false

end Effect

namespace Manager

/-- How often `handleAuthorizedSession` ran for the session. -/
def timesHandled (s : Manager) (id : SessionId) : Nat := s.effects.countP (Effect.handles id)

theorem timesHandled_emit (s : Manager) (effect : Effect) (id : SessionId) :
    (s.emit effect).timesHandled id = s.timesHandled id + if effect.handles id then 1 else 0 := by
  unfold timesHandled
  rw [emit_effects, List.countP_append, List.countP_singleton]

/-- Nothing is authorized or handled between the states. -/
structure Plain (s s' : Manager) : Prop where
  handled : ∀ id, s'.timesHandled id = s.timesHandled id
  authorized : ∀ {id}, s'.status id = some .authorized → s.status id = some .authorized

/-- Every concluded status is kept between the states. -/
def Final (s s' : Manager) : Prop :=
  ∀ id status, s.status id = some status → status ≠ .pending → s'.status id = some status

/-- Only what is pending changes its status, and not to `authorized`. -/
structure Quiet (s s' : Manager) : Prop extends Plain s s' where
  final : s.Final s'

section

variable {s s' s'' : Manager}

theorem Plain.trans (H : s.Plain s') (H' : s'.Plain s'') : s.Plain s'' where
  handled id := (H'.handled id).trans (H.handled id)
  authorized h := H.authorized (H'.authorized h)

theorem Final.trans (H : s.Final s') (H' : s'.Final s'') : s.Final s'' :=
  fun id status h hp => H' id status (H id status h hp) hp

namespace Quiet

theorem trans (H : s.Quiet s') (H' : s'.Quiet s'') : s.Quiet s'' :=
  ⟨H.toPlain.trans H'.toPlain, Final.trans H.final H'.final⟩

theorem of_effects (hrecords : s'.records = s.records) {more : List Effect}
    (heffects : s'.effects = s.effects ++ more)
    (hmore : ∀ effect ∈ more, ∀ id, effect.handles id = false) : s.Quiet s' := by
  have hstatus : s'.status = s.status := by
    unfold Manager.status
    rw [hrecords]
  refine ⟨⟨fun id => ?_, fun h => hstatus ▸ h⟩, fun id status h _ => hstatus ▸ h⟩
  have hzero : more.countP (Effect.handles id) = 0 :=
    List.countP_eq_zero.mpr fun effect h => by simp [hmore effect h id]
  unfold Manager.timesHandled
  rw [heffects, List.countP_append, hzero, Nat.add_zero]

theorem of_eq (hrecords : s'.records = s.records) (heffects : s'.effects = s.effects) :
    s.Quiet s' :=
  of_effects hrecords (heffects.trans (List.append_nil _).symm) (List.forall_mem_nil _)

theorem refl (s : Manager) : s.Quiet s := of_eq rfl rfl

theorem emit (s : Manager) {effect : Effect} (h : ∀ id, effect.handles id = false) :
    s.Quiet (s.emit effect) :=
  of_effects rfl rfl fun _ hmem => List.mem_singleton.mp hmem ▸ h

theorem status_setRecord {id id' : SessionId} {r : SessionRecord} :
    (s.setRecord id r).status id' = if id' = id then some r.status else s.status id' := by
  unfold Manager.status
  rw [setRecord_records, update_apply]
  split <;> rfl

/-- A record is replaced: its status is kept, or it was pending and is not authorized. -/
theorem setRecord {id : SessionId} {r r' : SessionRecord} (hr : s.records id = some r)
    (h : r'.status = r.status ∨ r.status = .pending ∧ r'.status ≠ .authorized) :
    s.Quiet (s.setRecord id r') := by
  have hold : s.status id = some r.status := congrArg (Option.map _) hr
  refine ⟨⟨fun _ => rfl, fun {id'} hauthorized => ?_⟩, fun id' status hstatus hp => ?_⟩
  · rw [status_setRecord] at hauthorized
    split at hauthorized
    next he =>
      obtain h | ⟨-, h⟩ := h
      · rw [he, hold, ← h]
        exact hauthorized
      · exact absurd (Option.some.inj hauthorized) h
    next => exact hauthorized
  · rw [status_setRecord]
    split
    next he =>
      rw [he, hold] at hstatus
      obtain rfl := Option.some.inj hstatus
      obtain h | ⟨h, -⟩ := h
      · rw [h]
      · exact absurd h hp
    next => exact hstatus

theorem dispose {r : SessionRecord} (hr : s.records r.sessionId = some r) {status : SessionStatus}
    (h : status = r.status ∨ r.status = .pending ∧ status ≠ .authorized) :
    s.Quiet (s.dispose r status) := by
  have hset : s.Quiet (s.setRecord r.sessionId { r with status }) := setRecord hr h
  have hcancel : (s.setRecord r.sessionId { r with status }).Quiet
      ((s.setRecord r.sessionId { r with status }).emit (.cancel r.handle)) := emit _ fun _ => rfl
  exact (hset.trans hcancel).trans (of_eq rfl rfl)

theorem reportSuperseded (s : Manager) (generation : Option String) :
    s.Quiet (s.reportSuperseded generation) := by
  unfold Manager.reportSuperseded
  cases generation with
  | none => exact refl s
  | some generation =>
    dsimp only
    split
    next => exact refl s
    next => exact emit s fun _ => rfl

theorem storeCredential (s : Manager) (engine : String) (credential : Option StoredCredential) :
    s.Quiet (s.storeCredential engine credential) := by
  cases credential with
  | none => exact refl s
  | some credential =>
    have hset : s.Quiet (s.emit (.setCredential engine credential)) := emit s fun _ => rfl
    exact hset.trans (emit _ fun _ => rfl)

theorem supersedeSession (H : s.Slots none) (engine : String) :
    s.Quiet (s.supersedeSession engine) := by
  unfold Manager.supersedeSession
  split
  next => exact refl s
  next existingId hengine =>
    split
    next => exact refl s
    next existing hget =>
      obtain ⟨r, hr, -, hp⟩ := H.enginePending hengine
      have hs := H.reportSuperseded existing.provisioningGeneration
      have hget' : (s.reportSuperseded existing.provisioningGeneration).get existingId =
          some existing := by simpa using hget
      obtain rfl := Option.some.inj (hr.symm.trans (s.get_eq_some.mp hget).2)
      obtain ⟨hid, -⟩ := hs.recordIds (Manager.get_eq_some _ |>.mp hget').2
      refine (reportSuperseded s r.provisioningGeneration).trans (dispose ?_ (.inr ⟨hp, ?_⟩))
      · rw [hid]
        exact (Manager.get_eq_some _ |>.mp hget').2
      · exact fun h => SessionStatus.noConfusion h

theorem supersedeStart (s : Manager) (engine : String) : s.Quiet (s.supersedeStart engine) := by
  unfold Manager.supersedeStart
  split
  next => exact refl s
  next superseded _ =>
    have herase : s.Quiet { s with starting := s.starting.erase engine } := of_eq rfl rfl
    exact (herase.trans (reportSuperseded _ _)).trans (emit _ fun _ => rfl)

theorem createSession (H : s.Slots none) (cfg : Config) (engine : String) (flow : Option String)
    (options : SessionOptions) (context : Option String) :
    s.Quiet (s.createSession cfg engine flow options context).2 := by
  unfold Manager.createSession
  split
  next => exact refl s
  next =>
    have hs := (supersedeSession H engine).trans (supersedeStart _ engine)
    exact hs.trans (of_effects rfl rfl fun _ hmem _ => List.mem_singleton.mp hmem ▸ rfl)

theorem clearReservation (s : Manager) (engine : String) (handle : HandleId) :
    s.Quiet (s.clearReservation engine handle) := by
  unfold Manager.clearReservation
  split
  next => exact of_eq rfl rfl
  next => exact refl s

/-- A new session is pending. -/
theorem register {r : SessionRecord} (hnew : s.records r.sessionId = none)
    (hp : r.status = .pending) : s.Quiet (s.register r) := by
  have hrecords : (s.register r).records = update s.records r.sessionId (some r) := by
    unfold Manager.register
    split <;> rfl
  have heffects : (s.register r).effects = s.effects := by
    unfold Manager.register
    split <;> rfl
  have hstatus : ∀ id, (s.register r).status id =
      if id = r.sessionId then some r.status else s.status id := by
    intro id
    unfold Manager.status
    rw [hrecords, update_apply]
    split <;> rfl
  refine ⟨⟨fun id => ?_, fun {id} h => ?_⟩, fun id status h _ => ?_⟩
  · unfold Manager.timesHandled
    rw [heffects]
  · rw [hstatus] at h
    split at h
    next => exact SessionStatus.noConfusion (hp.symm.trans (Option.some.inj h))
    next => exact h
  · rw [hstatus]
    split
    next he =>
      subst he
      unfold Manager.status at h
      rw [hnew] at h
      exact nomatch h
    next => exact h

theorem startFulfilled (H : s.Slots none) (cfg : Config) (now : Nat) (handle : HandleId)
    (started : AuthStartResult) : s.Quiet (s.startFulfilled cfg now handle started).2 := by
  unfold Manager.startFulfilled
  split
  next => exact refl s
  next frame _ =>
    have hstart : s.Quiet { s with starts := update s.starts handle none } := of_eq rfl rfl
    have hs := hstart.trans (clearReservation _ frame.engine handle)
    have hnext : (Manager.clearReservation { s with starts := update s.starts handle none }
        frame.engine handle).nextSession = s.nextSession := by
      unfold Manager.clearReservation
      split <;> rfl
    dsimp only
    split
    next => exact hs.trans (emit _ fun _ => rfl)
    next =>
      refine hs.trans (register ?_ rfl)
      rw [clearReservation_records]
      show s.records (Manager.clearReservation { s with starts := update s.starts handle none }
        frame.engine handle).nextSession = none
      rw [hnext]
      by_contra h
      obtain ⟨r, hr⟩ := Option.ne_none_iff_exists'.mp h
      exact Nat.lt_irrefl _ (H.recordIds hr).2

theorem startRejects (s : Manager) (handle : HandleId) (rejection : Rejection) :
    s.Quiet (s.startRejects handle rejection).2 := by
  unfold Manager.startRejects
  split
  next => exact refl s
  next frame _ =>
    have hs : s.Quiet { s with
        starts := update s.starts handle none
        startRejected := update s.startRejected handle true } := of_eq rfl rfl
    exact hs.trans (clearReservation _ frame.engine handle)

theorem endSubmission (s : Manager) (id : SessionId) : s.Quiet (s.endSubmission id) := by
  unfold Manager.endSubmission
  split
  next hr => exact setRecord hr (.inl rfl)
  next => exact refl s

theorem waitRejects (s : Manager) (id : SessionId) (rejection : Rejection) :
    s.Quiet (s.waitRejects id rejection) := by
  unfold Manager.waitRejects
  split
  next =>
    have hs : s.Quiet { s with waiting := update s.waiting id false } := of_eq rfl rfl
    refine hs.trans ?_
    unfold Manager.conclude
    split
    next => exact refl _
    next record hget =>
      split
      next => exact refl _
      next hp =>
        refine Quiet.trans (setRecord (Manager.get_eq_some _ |>.mp hget).2 (.inr ⟨not_not.mp hp, ?_⟩))
          (of_eq rfl rfl)
        exact fun h => SessionStatus.noConfusion h
  next => exact refl s

theorem submitSession (s : Manager) (engine : String) (id : SessionId) (input : String) :
    s.Quiet (s.submitSession engine id input).2 := by
  unfold Manager.submitSession
  split
  next => exact refl s
  next record h =>
    split; next => exact refl s
    split; next => exact refl s
    split; next => exact refl s
    split; next => exact refl s
    have hr := (s.get_eq_some.mp (Slots.requireSession_get h)).2
    have hs : s.Quiet (s.setRecord id { record with submitting := true }) := setRecord hr (.inl rfl)
    exact hs.trans (of_effects rfl rfl fun _ hmem _ => List.mem_singleton.mp hmem ▸ rfl)

theorem submitRejects (H : s.Slots none) (call : CallId) (rejection : Rejection) :
    s.Quiet (s.submitRejects call rejection).2 := by
  unfold Manager.submitRejects
  split
  next => exact refl s
  next frame _ =>
    have hs : s.Quiet { s with submits := update s.submits call none } := of_eq rfl rfl
    dsimp only
    split
    next => exact hs
    next record hr =>
      split
      next => exact hs.trans (endSubmission _ _)
      next h =>
        obtain ⟨hp, -⟩ := Evolves.pending_of_still
          (s := { s with submits := update s.submits call none }) hr (by simpa using h)
        have hr' : s.records record.sessionId = some record := by
          rw [(H.recordIds hr).1]
          exact hr
        refine Quiet.trans (hs.trans (dispose (r := record) (s := { s with
          submits := update s.submits call none }) hr' (.inr ⟨hp, ?_⟩))) (endSubmission _ _)
        exact fun h => SessionStatus.noConfusion h

theorem cancelSession (H : s.Tracked) (engine : String) (id : SessionId) :
    s.Quiet (s.cancelSession engine id).2 := by
  unfold Manager.cancelSession
  split
  next => exact refl s
  next record h =>
    refine dispose (H.get_self (Slots.requireSession_get h)) ?_
    split
    next hp => exact .inr ⟨hp, fun h => SessionStatus.noConfusion h⟩
    next => exact .inl rfl

end Quiet

/-- Dropping a session with a status that is not `authorized`. -/
theorem Plain.dispose {r : SessionRecord} {status : SessionStatus} (h : status ≠ .authorized) :
    s.Plain (s.dispose r status) where
  handled id := by
    unfold Manager.timesHandled
    rw [dispose_effects, List.countP_append, List.countP_singleton]
    rfl
  authorized {id} ha := by
    unfold Manager.status at ha ⊢
    rw [dispose_records, update_apply] at ha
    split at ha
    next => exact absurd (Option.some.inj ha) h
    next => exact ha

/-! ## Conclusions -/

/-- The session becomes authorized between the states. -/
def Authorizes (s s' : Manager) (id : SessionId) : Prop :=
  s'.status id = some .authorized ∧ s.status id ≠ some .authorized

instance (s s' : Manager) (id : SessionId) : Decidable (s.Authorizes s' id) :=
  inferInstanceAs (Decidable (_ ∧ _))

/-- A session is handled where it becomes authorized, and only there. -/
def Counts (s s' : Manager) : Prop :=
  ∀ id, s'.timesHandled id = s.timesHandled id + if s.Authorizes s' id then 1 else 0

theorem Plain.counts (H : s.Plain s') : s.Counts s' := by
  intro id
  rw [if_neg fun h => h.2 (H.authorized h.1), Nat.add_zero]
  exact H.handled id

/-- A pending session is authorized and handled. -/
theorem authorize {id : SessionId} {r r' : SessionRecord} (hr : s.records id = some r)
    (hp : r.status = .pending) (hauthorized : r'.status = .authorized)
    (hrecords : s'.records = update s.records id (some r')) (more : List Effect)
    (workspace url : Option String)
    (heffects : s'.effects = s.effects ++ more ++ [.handleAuthorizedSession id workspace url])
    (hmore : ∀ effect ∈ more, ∀ id, effect.handles id = false) : s.Counts s' ∧ s.Final s' := by
  have hold : s.status id = some .pending := hp ▸ congrArg (Option.map _) hr
  have hstatus : ∀ id', s'.status id' = if id' = id then some .authorized else s.status id' := by
    intro id'
    unfold Manager.status
    rw [hrecords, update_apply]
    split
    next => exact congrArg some hauthorized
    next => rfl
  refine ⟨fun id' => ?_, fun id' status h hne => ?_⟩
  · have hzero : more.countP (Effect.handles id') = 0 :=
      List.countP_eq_zero.mpr fun effect h => by simp [hmore effect h id']
    have hcount : s'.timesHandled id' = s.timesHandled id' +
        if (Effect.handleAuthorizedSession id workspace url).handles id' then 1 else 0 := by
      unfold Manager.timesHandled
      rw [heffects, List.countP_append, List.countP_append, hzero, Nat.add_zero,
        List.countP_singleton]
    rw [hcount]
    by_cases he : id' = id
    · subst he
      have hself : (Effect.handleAuthorizedSession id' workspace url).handles id' = true :=
        decide_eq_true rfl
      rw [if_pos hself, if_pos]
      refine ⟨by rw [hstatus, if_pos rfl], fun h => ?_⟩
      exact SessionStatus.noConfusion (Option.some.inj (hold.symm.trans h))
    · rw [if_neg fun h => he (of_decide_eq_true h).symm, if_neg]
      rintro ⟨hnew, hno⟩
      rw [hstatus, if_neg he] at hnew
      exact hno hnew
  · rw [hstatus]
    split
    next he =>
      subst he
      exact absurd (Option.some.inj (h.symm.trans hold)) hne
    next => exact h

theorem storeCredential_effects (engine : String) (credential : Option StoredCredential) :
    ∃ more, (s.storeCredential engine credential).effects = s.effects ++ more ∧
      ∀ effect ∈ more, ∀ id, effect.handles id = false := by
  cases credential with
  | none => exact ⟨[], (List.append_nil _).symm, List.forall_mem_nil _⟩
  | some credential =>
    refine ⟨[.setCredential engine credential, .notifyCredentialChange], List.append_assoc .., ?_⟩
    intro effect hmem id
    obtain rfl | hmem := List.mem_cons.mp hmem
    · rfl
    · exact List.mem_singleton.mp hmem ▸ rfl

theorem conclude_authorizes {id : SessionId} {r : SessionRecord} (hget : s.get id = some r)
    (hp : r.status = .pending) : s.conclude id .authorized none =
      ((s.setRecord id { r with status := .authorized, error := none }).releaseEngine r.engine
        id).emit .notifyCredentialChange := by
  unfold Manager.conclude
  rw [hget]
  exact if_neg (not_not.mpr hp)

/-- A `wait()` handles its session if it authorizes it. -/
theorem waitFulfilled_counts (H : s.Tracked) (id : SessionId) (result : AuthSubmitResult) :
    s.Counts (s.waitFulfilled id result) ∧ s.Final (s.waitFulfilled id result) := by
  have quiet : ∀ {s'}, s.Quiet s' → s.Counts s' ∧ s.Final s' := fun h => ⟨h.counts, h.final⟩
  by_cases hw : s.waiting id = true
  · obtain ⟨r, hr, -, hauthorized⟩ := H.waited hw
    obtain ⟨more, hmore, hsilent⟩ := storeCredential_effects
      (s := { s with waiting := update s.waiting id false }) r.engine result.credential
    have hbyId : (Manager.storeCredential { s with waiting := update s.waiting id false }
        r.engine result.credential).byId = s.byId := by
      cases result.credential <;> rfl
    have hstored : (Manager.storeCredential { s with waiting := update s.waiting id false }
        r.engine result.credential).records = s.records := storeCredential_records ..
    unfold Manager.waitFulfilled
    rw [hw, hr]
    dsimp only
    generalize Manager.storeCredential { s with waiting := update s.waiting id false }
      r.engine result.credential = s₁ at *
    by_cases hp : r.status = .pending ∧ s.byId id = true
    · have hget : s₁.get id = some r := s₁.get_eq_some.mpr ⟨hbyId ▸ hp.2, hstored ▸ hr⟩
      rw [conclude_authorizes hget hp.1, if_pos]
      · refine authorize hr hp.1 rfl (congrArg (fun records => update records id _) hstored)
          (more ++ [.notifyCredentialChange]) r.provisioningWorkspaceId r.provisioningUrl ?_
          fun effect hmem => ?_
        · rw [emit_effects, emit_effects, releaseEngine_effects, setRecord_effects, hmore,
            List.append_assoc s.effects]
        · obtain hmem | hmem := List.mem_append.mp hmem
          · exact hsilent effect hmem
          · exact fun _ => List.mem_singleton.mp hmem ▸ rfl
      · rw [emit_records, releaseEngine_records, setRecord_records, update_self]
        rfl
    · have hkept : s₁.conclude id .authorized none = s₁ := by
        unfold Manager.conclude
        split
        next => rfl
        next r' hget =>
          obtain ⟨hlive, hr'⟩ := s₁.get_eq_some.mp hget
          rw [hstored, hr] at hr'
          obtain rfl := Option.some.inj hr'
          exact if_pos fun h => hp ⟨h, hbyId ▸ hlive⟩
      rw [hkept, if_neg]
      · exact quiet (Quiet.of_effects hstored hmore hsilent)
      · rw [hstored, hr]
        exact fun h => hauthorized (Option.some.inj h)
  · unfold Manager.waitFulfilled
    rw [Bool.eq_false_of_not_eq_true hw]
    exact quiet (Quiet.refl s)

theorem submitFulfilled_counts (s : Manager) (call : CallId) (result : AuthSubmitResult) :
    s.Counts (s.submitFulfilled call result).2 ∧ s.Final (s.submitFulfilled call result).2 := by
  have quiet : ∀ {s'}, s.Quiet s' → s.Counts s' ∧ s.Final s' := fun h => ⟨h.counts, h.final⟩
  unfold Manager.submitFulfilled
  split
  next => exact quiet (Quiet.refl s)
  next frame _ =>
    have hs : s.Quiet { s with submits := update s.submits call none } := Quiet.of_eq rfl rfl
    dsimp only
    split
    next => exact quiet hs
    next r hr =>
      split
      next => exact quiet (hs.trans (Quiet.endSubmission _ _))
      next h =>
        obtain ⟨hp, -⟩ := Evolves.pending_of_still
          (s := { s with submits := update s.submits call none }) hr (by simpa using h)
        obtain ⟨more, hmore, hsilent⟩ := storeCredential_effects
          (s := { s with submits := update s.submits call none }) frame.engine result.credential
        have hstored : (Manager.storeCredential { s with submits := update s.submits call none }
            frame.engine result.credential).records = s.records := storeCredential_records ..
        generalize Manager.storeCredential { s with submits := update s.submits call none }
          frame.engine result.credential = s₁ at *
        unfold Manager.endSubmission
        rw [emit_records, releaseEngine_records, emit_records, emit_records, setRecord_records,
          update_self]
        have hrecords : update (update s₁.records frame.session
            (some { r with status := .authorized })) frame.session
            (some { r with status := .authorized, submitting := false }) =
            update s.records frame.session
              (some { r with status := .authorized, submitting := false }) := by
          rw [hstored]
          exact Function.update_idem ..
        refine authorize hr hp rfl hrecords (more ++ [.notifyCredentialChange, .cancel r.handle])
          r.provisioningWorkspaceId r.provisioningUrl ?_ fun effect hmem => ?_
        · rw [setRecord_effects, emit_effects, releaseEngine_effects, emit_effects, emit_effects,
            setRecord_effects, hmore]
          simp only [List.append_assoc]
          rfl
        · obtain hmem | hmem := List.mem_append.mp hmem
          · exact hsilent effect hmem
          · obtain rfl | hmem := List.mem_cons.mp hmem
            · exact fun _ => rfl
            · exact fun _ => List.mem_singleton.mp hmem ▸ rfl

/-! ## Dropped sessions -/

/-- Between the states sessions are only dropped, with a status of their own. -/
structure Drops (s s' : Manager) : Prop extends Plain s s' where
  fewer : ∀ {id}, s'.byId id = true → s.byId id = true
  dropped : ∀ id, s'.status id = s.status id ∨
    s.byId id = true ∧ s'.byId id = false ∧ ∃ status, s'.status id = some status ∧ status ≠ .pending

namespace Drops

theorem refl (s : Manager) : s.Drops s := ⟨(Quiet.refl s).toPlain, id, fun _ => .inl rfl⟩

theorem trans (H : s.Drops s') (H' : s'.Drops s'') : s.Drops s'' where
  toPlain := H.toPlain.trans H'.toPlain
  fewer h := H.fewer (H'.fewer h)
  dropped id := by
    obtain h' | ⟨hlive, hgone, hstatus⟩ := H'.dropped id
    · rw [h']
      refine (H.dropped id).imp_right fun ⟨hlive, hgone, hstatus⟩ => ⟨hlive, ?_, hstatus⟩
      exact Bool.eq_false_of_not_eq_true fun h =>
        Bool.false_ne_true (hgone.symm.trans (H'.fewer h))
    · exact .inr ⟨H.fewer hlive, hgone, hstatus⟩

theorem dispose {r : SessionRecord} (hr : s.get r.sessionId = some r) {status : SessionStatus}
    (ha : status ≠ .authorized) (hp : status ≠ .pending) : s.Drops (s.dispose r status) where
  toPlain := Plain.dispose ha
  fewer {id} h := by
    rw [dispose_byId, update_apply] at h
    split at h
    next => exact absurd h Bool.false_ne_true
    next => exact h
  dropped id := by
    unfold Manager.status
    rw [dispose_records, dispose_byId, update_apply, update_apply]
    split
    next he =>
      subst he
      exact .inr ⟨(s.get_eq_some.mp hr).1, rfl, status, rfl, hp⟩
    next => exact .inl rfl

theorem resetSession (H : s.Tracked) (id : SessionId) : s.Drops (s.resetSession id) := by
  unfold Manager.resetSession
  split
  next r hget =>
    have hself : s.get r.sessionId = some r := by
      rwa [(H.recordBelow (s.get_eq_some.mp hget).2).1]
    exact dispose hself (fun h => SessionStatus.noConfusion h) fun h => SessionStatus.noConfusion h
  next => exact refl s

theorem resetSessions (H : s.Tracked) : s.Drops s.resetSessions := by
  have hs : s.Drops ((List.range s.nextSession).foldl Manager.resetSession s) := by
    generalize List.range s.nextSession = ids
    induction ids generalizing s with
    | nil => exact refl s
    | cons id ids ih => exact (resetSession H id).trans (ih (H.resetSession id))
  unfold Manager.resetSessions
  dsimp only
  generalize (List.range s.nextSession).foldl Manager.resetSession s = s₁ at hs ⊢
  generalize s₁.starting.entries = entries
  induction entries generalizing s₁ with
  | nil => exact hs
  | cons entry entries ih =>
    have hquiet : s₁.Quiet (s₁.resetStart entry) :=
      Quiet.of_effects rfl rfl fun _ hmem _ => List.mem_singleton.mp hmem ▸ rfl
    exact ih _ (hs.trans ⟨hquiet.toPlain, fun h => h, fun _ => .inl rfl⟩)

theorem expire (H : s.Tracked) (id : SessionId) : s.Drops (s.expire id) := by
  unfold Manager.expire
  split
  next =>
    have hquiet : s.Quiet { s with timers := update s.timers id false } := Quiet.of_eq rfl rfl
    have hs : s.Drops { s with timers := update s.timers id false } :=
      ⟨hquiet.toPlain, fun h => h, fun _ => .inl rfl⟩
    dsimp only
    split
    next r hget =>
      have hself : Manager.get { s with timers := update s.timers id false } r.sessionId = some r := by
        have hr : s.records id = some r := (s.get_eq_some.mp hget).2
        rw [(H.recordBelow hr).1]
        exact hget
      exact hs.trans (dispose hself (fun h => SessionStatus.noConfusion h)
        fun h => SessionStatus.noConfusion h)
    next => exact hs
  next => exact refl s

/-- The timer of a session drops no other one. -/
theorem expire_other (H : s.Tracked) {id id' : SessionId} (hne : id' ≠ id) :
    (s.expire id).status id' = s.status id' := by
  unfold Manager.expire
  split
  next =>
    dsimp only
    split
    next r hget =>
      have hr : s.records id = some r := (s.get_eq_some.mp hget).2
      unfold Manager.status
      rw [dispose_records, update_of_ne (by rw [(H.recordBelow hr).1]; exact hne)]
    next => rfl
  next => rfl

end Drops

/-! ## The run -/

theorem step_counts (hslots : s.Slots none) (H : s.Tracked) (cfg : Config) (event : Event) :
    s.Counts (s.step cfg event) := by
  cases event with
  | createSession engine flow options context =>
    exact (Quiet.createSession hslots cfg engine flow options context).counts
  | startFulfilled now handle started =>
    exact (Quiet.startFulfilled hslots cfg now handle started).counts
  | startRejects handle rejection => exact (Quiet.startRejects s handle rejection).counts
  | submitSession engine id input => exact (Quiet.submitSession s engine id input).counts
  | submitFulfilled call result => exact (submitFulfilled_counts s call result).1
  | submitRejects call rejection => exact (Quiet.submitRejects hslots call rejection).counts
  | waitFulfilled id result => exact (waitFulfilled_counts H id result).1
  | waitRejects id rejection => exact (Quiet.waitRejects s id rejection).counts
  | cancelSession engine id => exact (Quiet.cancelSession H engine id).counts
  | expire id => exact (Drops.expire H id).counts
  | resetSessions => exact (Drops.resetSessions H).counts

/-- A concluded status is kept, or its session is dropped by its timer or a reset. -/
theorem step_final (hslots : s.Slots none) (H : s.Tracked) (cfg : Config) (event : Event)
    {id : SessionId} {status : SessionStatus} (h : s.status id = some status)
    (hp : status ≠ .pending) : (s.step cfg event).status id = some status ∨
      s.byId id = true ∧ (s.step cfg event).byId id = false ∧
        (event = .expire id ∨ event = .resetSessions) := by
  cases event with
  | createSession engine flow options context =>
    exact .inl ((Quiet.createSession hslots cfg engine flow options context).final id status h hp)
  | startFulfilled now handle started =>
    exact .inl ((Quiet.startFulfilled hslots cfg now handle started).final id status h hp)
  | startRejects handle rejection =>
    exact .inl ((Quiet.startRejects s handle rejection).final id status h hp)
  | submitSession engine id' input =>
    exact .inl ((Quiet.submitSession s engine id' input).final id status h hp)
  | submitFulfilled call result =>
    exact .inl ((submitFulfilled_counts s call result).2 id status h hp)
  | submitRejects call rejection =>
    exact .inl ((Quiet.submitRejects hslots call rejection).final id status h hp)
  | waitFulfilled id' result => exact .inl ((waitFulfilled_counts H id' result).2 id status h hp)
  | waitRejects id' rejection =>
    exact .inl ((Quiet.waitRejects s id' rejection).final id status h hp)
  | cancelSession engine id' =>
    exact .inl ((Quiet.cancelSession H engine id').final id status h hp)
  | expire id' =>
    by_cases he : id = id'
    · subst he
      refine ((Drops.expire H id).dropped id).imp (fun heq => heq.trans h) ?_
      exact fun ⟨hlive, hgone, _⟩ => ⟨hlive, hgone, .inl rfl⟩
    · exact .inl ((Drops.expire_other H he).trans h)
  | resetSessions =>
    refine ((Drops.resetSessions H).dropped id).imp (fun heq => heq.trans h) ?_
    exact fun ⟨hlive, hgone, _⟩ => ⟨hlive, hgone, .inr rfl⟩

/-- A concluded session stays concluded, and is not authorized any more if it was not. -/
theorem step_concluded (hslots : s.Slots none) (H : s.Tracked) (cfg : Config) (event : Event)
    {id : SessionId} {status : SessionStatus} (h : s.status id = some status)
    (hp : status ≠ .pending) :
    (∃ status', (s.step cfg event).status id = some status' ∧ status' ≠ .pending) ∧
      ¬s.Authorizes (s.step cfg event) id := by
  obtain hkept | ⟨-, -, hevent⟩ := step_final hslots H cfg event h hp
  · exact ⟨⟨status, hkept, hp⟩, fun ⟨hnew, hold⟩ => hold (h.trans (hkept.symm.trans hnew))⟩
  · have hdrops : s.Drops (s.step cfg event) := by
      obtain rfl | rfl := hevent
      · exact Drops.expire H id
      · exact Drops.resetSessions H
    refine ⟨?_, fun ⟨hnew, hold⟩ => hold (hdrops.authorized hnew)⟩
    obtain heq | ⟨-, -, hdropped⟩ := hdrops.dropped id
    · exact ⟨status, heq.trans h, hp⟩
    · exact hdropped

end

/-- The session was authorized at some point of the run. -/
def ReachedAuthorized (cfg : Config) (events : List Event) (id : SessionId) : Prop :=
  ∃ earlier, earlier <+: events ∧ ((machine cfg).run earlier).status id = some .authorized

theorem run_append (cfg : Config) (events : List Event) (event : Event) :
    (machine cfg).run (events ++ [event]) = ((machine cfg).run events).step cfg event :=
  Machine.runFrom_append ..

theorem tracked_run (cfg : Config) (events : List Event) : ((machine cfg).run events).Tracked :=
  Machine.Reachable.keeps (I := Manager.Tracked) Tracked.initial
    (fun _ event H => H.step cfg event) ⟨events, rfl⟩

theorem slots_run (cfg : Config) (events : List Event) : ((machine cfg).run events).Slots none :=
  Slots.reachable ⟨events, rfl⟩

/-- A session that was authorized has been handled once and is concluded; any other one has not
been handled. -/
theorem handled_run (cfg : Config) (events : List Event) (id : SessionId) :
    (ReachedAuthorized cfg events id → ((machine cfg).run events).timesHandled id = 1 ∧
      ∃ status, ((machine cfg).run events).status id = some status ∧ status ≠ .pending) ∧
    (¬ReachedAuthorized cfg events id → ((machine cfg).run events).timesHandled id = 0) := by
  induction events using List.reverseRecOn with
  | nil =>
    refine ⟨fun ⟨earlier, hprefix, h⟩ => ?_, fun _ => rfl⟩
    obtain rfl := List.prefix_nil.mp hprefix
    exact nomatch h
  | append_singleton events event ih =>
    have hslots := slots_run cfg events
    have H := tracked_run cfg events
    have hcounts := step_counts hslots H cfg event id
    rw [run_append]
    have hreached : ReachedAuthorized cfg (events ++ [event]) id ↔
        ReachedAuthorized cfg events id ∨
          (((machine cfg).run events).step cfg event).status id = some .authorized := by
      constructor
      · rintro ⟨earlier, hprefix, h⟩
        obtain rfl | hprefix := List.prefix_concat_iff.mp hprefix
        · exact .inr (run_append cfg events event ▸ h)
        · exact .inl ⟨earlier, hprefix, h⟩
      · rintro (⟨earlier, hprefix, h⟩ | h)
        · exact ⟨earlier, hprefix.trans (List.prefix_append _ _), h⟩
        · exact ⟨_, List.prefix_rfl, (run_append cfg events event).symm ▸ h⟩
    by_cases hbefore : ReachedAuthorized cfg events id
    · obtain ⟨hone, status, hstatus, hp⟩ := ih.1 hbefore
      obtain ⟨hconcluded, hno⟩ := step_concluded hslots H cfg event hstatus hp
      rw [if_neg hno] at hcounts
      exact ⟨fun _ => ⟨hcounts.trans hone, hconcluded⟩,
        fun h => absurd (hreached.mpr (.inl hbefore)) h⟩
    · have hzero := ih.2 hbefore
      have hold : ((machine cfg).run events).status id ≠ some .authorized :=
        fun h => hbefore ⟨events, List.prefix_rfl, h⟩
      by_cases hnew : (((machine cfg).run events).step cfg event).status id = some .authorized
      · rw [if_pos ⟨hnew, hold⟩, hzero] at hcounts
        exact ⟨fun _ => ⟨hcounts, .authorized, hnew, fun h => SessionStatus.noConfusion h⟩,
          fun h => absurd (hreached.mpr (.inr hnew)) h⟩
      · rw [if_neg fun h => hnew h.1, hzero] at hcounts
        refine ⟨fun h => ?_, fun _ => hcounts⟩
        exact absurd (hreached.mp h) (not_or.mpr ⟨hbefore, hnew⟩)

/-- What holds of the submissions of a session after a run. -/
structure SubmittedOnce (cfg : Config) (events : List Event) (s : Manager) : Prop where
  /-- One `submit()` call of a session is in flight. -/
  oneInFlight : ∀ {call call' frame frame'}, s.submits call = some frame →
    s.submits call' = some frame' → frame.session = frame'.session → call = call'
  /-- `handleAuthorizedSession` ran once for each session that was authorized, else never. -/
  handledOnce : ∀ id, (ReachedAuthorized cfg events id → s.timesHandled id = 1) ∧
    (¬ReachedAuthorized cfg events id → s.timesHandled id = 0)
  /-- A repeated submission returns the retained view and does nothing. -/
  retained : ∀ {engine id r}, s.requireSession engine id = .ok r → r.status = .authorized →
    r.waits = false → ∀ input, s.submitSession engine id input = (.view r.toSessionView, s)
  /-- A concluded status changes only where the timer or a reset drops the session. -/
  concluded : ∀ {id status}, s.status id = some status → status ≠ .pending → ∀ event,
    (s.step cfg event).status id = some status ∨
      s.byId id = true ∧ (s.step cfg event).byId id = false ∧
        (event = .expire id ∨ event = .resetSessions)

/-- A session is authorized by a submission; its timer fires after that. -/
def authorizedThenExpired : List Event :=
  [.createSession "claude" none {} none, .startFulfilled 0 0 ⟨none, none, "open the URL"⟩,
    .submitSession "claude" 0 "code", .submitFulfilled 0 {}, .expire 0]

end Manager

end CliProxy.Auth
