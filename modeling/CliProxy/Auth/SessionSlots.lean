import CliProxy.Auth.SessionManager

/-! # One login per engine, and no orphaned handle

The invariant of the three maps taken together (`Slots`): what each operation keeps, and from
it what every run keeps (`Manager.slotInvariant`). A late settlement of a superseded attempt
is an ordinary event here; `handleKept` accounts for the handle it still holds. -/

namespace CliProxy.Auth

open Function (update update_apply)

namespace Manager

section
variable (s : Manager) (id : SessionId) (record : SessionRecord) (status : SessionStatus)
  (engine : String)

@[simp] theorem setRecord_records :
    (s.setRecord id record).records = update s.records id (some record) := rfl

@[simp] theorem setRecord_byId : (s.setRecord id record).byId = s.byId := rfl

@[simp] theorem setRecord_byEngine : (s.setRecord id record).byEngine = s.byEngine := rfl

@[simp] theorem setRecord_starting : (s.setRecord id record).starting = s.starting := rfl

@[simp] theorem setRecord_nextHandle : (s.setRecord id record).nextHandle = s.nextHandle := rfl

@[simp] theorem setRecord_nextSession : (s.setRecord id record).nextSession = s.nextSession := rfl

@[simp] theorem setRecord_startRejected : (s.setRecord id record).startRejected = s.startRejected := rfl

@[simp] theorem setRecord_effects : (s.setRecord id record).effects = s.effects := rfl

@[simp] theorem emit_effects (effect : Effect) :
    (s.emit effect).effects = s.effects ++ [effect] := rfl

@[simp] theorem emit_records (effect : Effect) : (s.emit effect).records = s.records := rfl

@[simp] theorem emit_byId (effect : Effect) : (s.emit effect).byId = s.byId := rfl

@[simp] theorem emit_byEngine (effect : Effect) : (s.emit effect).byEngine = s.byEngine := rfl

@[simp] theorem emit_starting (effect : Effect) : (s.emit effect).starting = s.starting := rfl

@[simp] theorem emit_nextHandle (effect : Effect) : (s.emit effect).nextHandle = s.nextHandle := rfl

@[simp] theorem emit_nextSession (effect : Effect) : (s.emit effect).nextSession = s.nextSession := rfl

@[simp] theorem emit_startRejected (effect : Effect) : (s.emit effect).startRejected = s.startRejected := rfl

@[simp] theorem releaseEngine_byEngine (e : String) : (s.releaseEngine engine id).byEngine e =
    if e = engine ∧ s.byEngine engine = some id then none else s.byEngine e := by
  by_cases h : s.byEngine engine = some id <;> simp [releaseEngine, h, update_apply]

@[simp] theorem releaseEngine_records : (s.releaseEngine engine id).records = s.records := rfl

@[simp] theorem releaseEngine_byId : (s.releaseEngine engine id).byId = s.byId := rfl

@[simp] theorem releaseEngine_starting : (s.releaseEngine engine id).starting = s.starting := rfl

@[simp] theorem releaseEngine_nextHandle : (s.releaseEngine engine id).nextHandle = s.nextHandle := rfl

@[simp] theorem releaseEngine_nextSession : (s.releaseEngine engine id).nextSession = s.nextSession := rfl

@[simp] theorem releaseEngine_startRejected : (s.releaseEngine engine id).startRejected = s.startRejected := rfl

@[simp] theorem releaseEngine_effects : (s.releaseEngine engine id).effects = s.effects := rfl

@[simp] theorem dispose_records : (s.dispose record status).records =
    update s.records record.sessionId (some { record with status }) := rfl

@[simp] theorem dispose_byId :
    (s.dispose record status).byId = update s.byId record.sessionId false := rfl

@[simp] theorem dispose_byEngine (e : String) : (s.dispose record status).byEngine e =
    if e = record.engine ∧ s.byEngine record.engine = some record.sessionId then none
    else s.byEngine e :=
  releaseEngine_byEngine ..

@[simp] theorem dispose_starting : (s.dispose record status).starting = s.starting := rfl

@[simp] theorem dispose_nextHandle : (s.dispose record status).nextHandle = s.nextHandle := rfl

@[simp] theorem dispose_nextSession : (s.dispose record status).nextSession = s.nextSession := rfl

@[simp] theorem dispose_startRejected : (s.dispose record status).startRejected = s.startRejected := rfl

@[simp] theorem dispose_effects :
    (s.dispose record status).effects = s.effects ++ [.cancel record.handle] := rfl

@[simp] theorem reportSuperseded_get (generation : Option String) :
    (s.reportSuperseded generation).get = s.get := by
  unfold reportSuperseded
  split
  next => split <;> rfl
  next => rfl

@[simp] theorem reportSuperseded_byEngine (generation : Option String) :
    (s.reportSuperseded generation).byEngine = s.byEngine := by
  unfold reportSuperseded
  split
  next => split <;> rfl
  next => rfl

@[simp] theorem reportSuperseded_starting (generation : Option String) :
    (s.reportSuperseded generation).starting = s.starting := by
  unfold reportSuperseded
  split
  next => split <;> rfl
  next => rfl

@[simp] theorem storeCredential_records (credential : Option StoredCredential) :
    (s.storeCredential engine credential).records = s.records := by
  cases credential <;> rfl

@[simp] theorem supersedeStart_byEngine : (s.supersedeStart engine).byEngine = s.byEngine := by
  unfold supersedeStart
  split <;> simp

theorem supersedeStart_lookup : (s.supersedeStart engine).starting.lookup engine = none := by
  unfold supersedeStart
  split
  next h => exact h
  next => simp

@[simp] theorem clearReservation_startRejected (handle : HandleId) :
    (s.clearReservation engine handle).startRejected = s.startRejected := by
  unfold clearReservation
  split <;> rfl

theorem get_eq_some {id : SessionId} {record : SessionRecord} :
    s.get id = some record ↔ s.byId id = true ∧ s.records id = some record := by
  simp [get]

end

/-- The joint invariant of `byId`, `byEngine` and `starting`. `loose` is the handle of the
attempt whose continuation is running, which no map need account for. -/
structure Slots (s : Manager) (loose : Option HandleId) : Prop where
  recordIds : ∀ {id r}, s.records id = some r → r.sessionId = id ∧ id < s.nextSession
  byIdRecord : ∀ {id}, s.byId id = true → ∃ r, s.records id = some r
  pendingLive : ∀ {id r}, s.records id = some r → r.status = .pending →
    s.byId id = true ∧ s.byEngine r.engine = some id
  enginePending : ∀ {e id}, s.byEngine e = some id →
    ∃ r, s.records id = some r ∧ r.engine = e ∧ r.status = .pending
  exclusive : ∀ {e res}, s.starting.lookup e = some res → s.byEngine e = none
  handleKept : ∀ h < s.nextHandle, loose ≠ some h →
    .cancel h ∈ s.effects ∨ s.startRejected h = true ∨
      (∃ e res, s.starting.lookup e = some res ∧ res.handle = h) ∨
      (∃ id r, s.byId id = true ∧ s.records id = some r ∧ r.handle = h)

namespace Slots

variable {s : Manager} {loose : Option HandleId}

/-- Only the maps, the counters, the rejected starts and the cancelled handles matter. -/
theorem congr {s' : Manager} (H : s.Slots loose) (hrecords : s'.records = s.records)
    (hbyId : s'.byId = s.byId) (hbyEngine : s'.byEngine = s.byEngine)
    (hstarting : s'.starting = s.starting) (hhandle : s'.nextHandle = s.nextHandle)
    (hsession : s'.nextSession = s.nextSession) (hrejected : s'.startRejected = s.startRejected)
    (heffects : s.effects ⊆ s'.effects) : s'.Slots loose := by
  obtain ⟨h1, h2, h3, h4, h5, h6⟩ := H
  refine ⟨?_, ?_, ?_, ?_, ?_, fun h hh hl => ?_⟩ <;>
    simp only [hrecords, hbyId, hbyEngine, hstarting, hhandle, hsession, hrejected] at * <;>
    try assumption
  exact (h6 h hh hl).imp_left fun hc => heffects hc

theorem emit (H : s.Slots loose) (effect : Effect) : (s.emit effect).Slots loose :=
  H.congr rfl rfl rfl rfl rfl rfl rfl (by simp)

/-- Cancelling the loose handle accounts for it. -/
theorem emit_cancel {handle : HandleId} (H : s.Slots (some handle)) :
    (s.emit (.cancel handle)).Slots none := by
  obtain ⟨h1, h2, h3, h4, h5, h6⟩ := H
  refine ⟨h1, h2, h3, h4, h5, fun h hh _ => ?_⟩
  by_cases he : handle = h
  · exact .inl (by simp [he])
  · refine (h6 h hh (by simpa using he)).imp_left fun hc => ?_
    simp [hc]

theorem loosen (H : s.Slots none) (loose : Option HandleId) : s.Slots loose :=
  ⟨H.1, H.2, H.3, H.4, H.5, fun h hh _ => H.6 h hh (by simp)⟩

theorem reportSuperseded (H : s.Slots loose) (generation : Option String) :
    (s.reportSuperseded generation).Slots loose := by
  unfold Manager.reportSuperseded
  cases generation with
  | none => exact H
  | some generation =>
    dsimp only
    split
    · exact H
    · exact H.emit _

theorem storeCredential (H : s.Slots loose) (engine : String)
    (credential : Option StoredCredential) : (s.storeCredential engine credential).Slots loose := by
  cases credential with
  | none => exact H
  | some credential => exact (H.emit _).emit _

/-- Dropping a live record cancels its handle, so the handle stays accounted for. -/
theorem dispose (H : s.Slots loose) {id : SessionId} {record : SessionRecord}
    (h : s.get id = some record) (status : SessionStatus) (hs : status ≠ .pending) :
    (s.dispose record status).Slots loose := by
  obtain ⟨h1, h2, h3, h4, h5, h6⟩ := H
  have hr := (s.get_eq_some.mp h).2
  obtain ⟨rfl, hlt⟩ := h1 hr
  constructor
  · intro id' r' h'; simp [update_apply] at h' ⊢; grind
  · intro id' h'; simp [update_apply] at h' ⊢; grind
  · intro id' r' h'; simp [update_apply] at h' ⊢; grind
  · intro e id' h'; simp [update_apply] at h' ⊢; grind
  · intro e res h'; simp at h' ⊢; grind
  · intro h' hh hl; simp [update_apply] at hh ⊢; grind

/-- Concluding a record in place keeps it in `byId`, releasing only the engine. -/
theorem conclude (H : s.Slots loose) {id : SessionId} {record : SessionRecord}
    (h : s.records id = some record) (record' : SessionRecord) (hid : record'.sessionId = record.sessionId)
    (hhandle : record'.handle = record.handle) (hs : record'.status ≠ .pending) :
    ((s.setRecord id record').releaseEngine record.engine id).Slots loose := by
  obtain ⟨h1, h2, h3, h4, h5, h6⟩ := H
  obtain ⟨rfl, hlt⟩ := h1 h
  constructor
  · intro id' r' h'; simp [update_apply] at h' ⊢; grind
  · intro id' h'; simp [update_apply] at h' ⊢; grind
  · intro id' r' h'; simp [update_apply] at h' ⊢; grind
  · intro e id' h'; simp [update_apply] at h' ⊢; grind
  · intro e res h'; simp at h' ⊢; grind
  · intro h' hh hl; simp [update_apply] at hh ⊢; grind

/-- `submitting` is not part of the slot. -/
theorem setSubmitting (H : s.Slots loose) {id : SessionId} {record : SessionRecord}
    (h : s.records id = some record) (submitting : Bool) :
    (s.setRecord id { record with submitting }).Slots loose := by
  obtain ⟨h1, h2, h3, h4, h5, h6⟩ := H
  constructor
  · intro id' r' h'; simp [update_apply] at h' ⊢; grind
  · intro id' h'; simp [update_apply] at h' ⊢; grind
  · intro id' r' h'; simp [update_apply] at h' ⊢; grind
  · intro e id' h'; simp [update_apply] at h' ⊢; grind
  · intro e res h'; simp at h' ⊢; exact h5 h'
  · intro h' hh hl; simp [update_apply] at hh ⊢; grind

theorem endSubmission (H : s.Slots loose) (id : SessionId) : (s.endSubmission id).Slots loose := by
  unfold Manager.endSubmission
  split
  next h => exact H.setSubmitting h false
  next => exact H

theorem supersedeSession (H : s.Slots loose) (engine : String) :
    (s.supersedeSession engine).Slots loose := by
  unfold Manager.supersedeSession
  split
  next => exact H
  next existingId _ =>
    split
    next => exact H
    next existing h =>
      have hget : (s.reportSuperseded existing.provisioningGeneration).get existingId =
          some existing := by simpa using h
      exact (H.reportSuperseded _).dispose hget _ nofun

/-- What `byEngine` holds is live, so superseding it frees the engine. -/
theorem supersedeSession_byEngine (H : s.Slots loose) (engine : String) :
    (s.supersedeSession engine).byEngine engine = none := by
  unfold Manager.supersedeSession
  split
  next h => exact h
  next existingId h =>
    obtain ⟨r, hr, rfl, hp⟩ := H.enginePending h
    have hget : s.get existingId = some r := s.get_eq_some.mpr ⟨(H.pendingLive hr hp).1, hr⟩
    obtain ⟨rfl, -⟩ := H.recordIds hr
    simp [hget, h]

theorem eraseStart (H : s.Slots none) {engine : String} {res : Reservation}
    (h : s.starting.lookup engine = some res) :
    { s with starting := s.starting.erase engine }.Slots (some res.handle) := by
  obtain ⟨h1, h2, h3, h4, h5, h6⟩ := H
  refine ⟨h1, h2, h3, h4, fun {e res'} h' => ?_, fun h' hh hl => ?_⟩
  · by_cases he : e = engine
    · subst he; simp at h'
    · exact h5 (by simpa [AList.lookup_erase_ne he] using h')
  · obtain hc | hc | ⟨e, res', hr, rfl⟩ | hc := h6 h' hh nofun
    · exact .inl hc
    · exact .inr (.inl hc)
    · refine .inr (.inr (.inl ⟨e, res', ?_, rfl⟩))
      have he : e ≠ engine := by rintro rfl; simp_all
      simpa [AList.lookup_erase_ne he] using hr
    · exact .inr (.inr (.inr hc))

theorem supersedeStart (H : s.Slots none) (engine : String) :
    (s.supersedeStart engine).Slots none := by
  unfold Manager.supersedeStart
  split
  next => exact H
  next superseded h => exact ((H.eraseStart h).reportSuperseded _).emit_cancel

/-- A reservation for an engine that neither map names accounts for the new handle. -/
theorem reserve (H : s.Slots none) {engine : String} (hengine : s.byEngine engine = none)
    (hfree : s.starting.lookup engine = none) (generation : Option String)
    (starts : HandleId → Option StartFrame) :
    { s with
      nextHandle := s.nextHandle + 1
      starting := s.starting.insert engine ⟨s.nextHandle, generation⟩
      starts }.Slots none := by
  obtain ⟨h1, h2, h3, h4, h5, h6⟩ := H
  refine ⟨h1, h2, h3, h4, fun {e res} h' => ?_, fun h' hh hl => ?_⟩
  · by_cases he : e = engine
    · exact he ▸ hengine
    · exact h5 (by simpa [AList.lookup_insert_ne he] using h')
  · obtain hlt | rfl := Nat.lt_or_eq_of_le (Nat.le_of_lt_succ hh)
    case inr => exact .inr (.inr (.inl ⟨engine, _, AList.lookup_insert _, rfl⟩))
    case inl =>
      obtain hc | hc | ⟨e, res', hr, rfl⟩ | hc := h6 h' hlt nofun
      · exact .inl hc
      · exact .inr (.inl hc)
      · have he : e ≠ engine := by rintro rfl; simp_all
        exact .inr (.inr (.inl ⟨e, res', by simpa [AList.lookup_insert_ne he] using hr, rfl⟩))
      · exact .inr (.inr (.inr hc))

theorem createSession (H : s.Slots none) (cfg : Config) (engine : String) (flow : Option String)
    (options : SessionOptions) (context : Option String) :
    (s.createSession cfg engine flow options context).2.Slots none := by
  unfold Manager.createSession
  split
  next => exact H
  next flowDescriptor _ =>
    refine emit (reserve ((H.supersedeSession engine).supersedeStart engine) ?_
      (supersedeStart_lookup ..) _ _) _
    rw [supersedeStart_byEngine]
    exact H.supersedeSession_byEngine engine

/-- The attempt whose start settled gives its own reservation up and is loose from then on. -/
theorem clearReservation (H : s.Slots none) (engine : String) (handle : HandleId) :
    (s.clearReservation engine handle).Slots (some handle) := by
  unfold Manager.clearReservation
  split
  next h =>
    simp only [ownsSlot, Option.map_eq_some_iff, decide_eq_true_eq] at h
    obtain ⟨res, hres, rfl⟩ := h
    exact H.eraseStart hres
  next => exact H.loosen _

/-- A loose handle whose start was rejected needs no map either. -/
theorem forget {handle : HandleId} (H : s.Slots (some handle))
    (h : s.startRejected handle = true) : s.Slots none := by
  obtain ⟨h1, h2, h3, h4, h5, h6⟩ := H
  refine ⟨h1, h2, h3, h4, h5, fun h' hh _ => ?_⟩
  by_cases he : handle = h'
  · exact .inr (.inl (he ▸ h))
  · exact h6 h' hh (by simpa using he)

theorem reject (H : s.Slots (some handle)) :
    { s with startRejected := update s.startRejected handle true }.Slots none := by
  obtain ⟨h1, h2, h3, h4, h5, h6⟩ := H
  refine ⟨h1, h2, h3, h4, h5, fun h' hh hl => ?_⟩
  by_cases he : handle = h'
  · exact .inr (.inl (by simp [he]))
  · refine (h6 h' hh (by simpa using he)).imp_right fun hc => hc.imp_left fun hc => ?_
    simpa [update_apply] using .inr hc

/-- Registering a pending record for an engine that neither map names. -/
theorem register (H : s.Slots (some record.handle)) (hid : record.sessionId = s.nextSession)
    (hs : record.status = .pending) (hengine : s.byEngine record.engine = none)
    (hfree : s.starting.lookup record.engine = none) : (s.register record).Slots none := by
  obtain ⟨h1, h2, h3, h4, h5, h6⟩ := H
  have hnew : s.records record.sessionId = none := by
    by_contra h
    obtain ⟨r, hr⟩ := Option.ne_none_iff_exists'.mp h
    exact absurd (hid ▸ (h1 hr).2) (Nat.lt_irrefl _)
  suffices h : ∀ waiting, { s with
      nextSession := record.sessionId + 1
      timers := update s.timers record.sessionId true
      records := update s.records record.sessionId (some record)
      byId := update s.byId record.sessionId true
      byEngine := update s.byEngine record.engine (some record.sessionId)
      waiting }.Slots none by
    unfold Manager.register
    split <;> exact h _
  intro waiting
  constructor
  · intro id' r' h'; simp [update_apply] at h' ⊢; grind
  · intro id' h'; simp [update_apply] at h' ⊢; grind
  · intro id' r' h'; simp [update_apply] at h' ⊢; grind
  · intro e id' h'; simp [update_apply] at h' ⊢; grind
  · intro e res h'; simp [update_apply] at h' ⊢; grind
  · intro h' hh _
    by_cases he : record.handle = h'
    · exact .inr (.inr (.inr ⟨record.sessionId, record, by simp [he]⟩))
    · obtain hc | hc | hc | ⟨id, r, hlive, hr, hr'⟩ := h6 h' hh (by simpa using he)
      · exact .inl hc
      · exact .inr (.inl hc)
      · exact .inr (.inr (.inl hc))
      · have hne : id ≠ record.sessionId := by rintro rfl; simp_all
        exact .inr (.inr (.inr ⟨id, r, by simp [hne, hlive, hr, hr']⟩))

theorem startFulfilled (H : s.Slots none) (cfg : Config) (now : Nat) (handle : HandleId)
    (started : AuthStartResult) : (s.startFulfilled cfg now handle started).2.Slots none := by
  unfold Manager.startFulfilled
  split
  next => exact H
  next frame _ =>
    have hs : { s with starts := update s.starts handle none }.Slots none :=
      ⟨H.1, H.2, H.3, H.4, H.5, H.6⟩
    replace hs := hs.clearReservation frame.engine handle
    dsimp only
    split
    next => exact hs.emit_cancel
    next h =>
      simp only [Bool.or_eq_true, Option.isSome_iff_ne_none, not_or, not_not] at h
      exact hs.register rfl rfl h.2 h.1

theorem startRejects (H : s.Slots none) (handle : HandleId) (rejection : Rejection) :
    (s.startRejects handle rejection).2.Slots none := by
  unfold Manager.startRejects
  split
  next => exact H
  next frame _ =>
    have hs : { s with
        starts := update s.starts handle none
        startRejected := update s.startRejected handle true }.Slots none :=
      (H.loosen (some handle)).reject.congr rfl rfl rfl rfl rfl rfl rfl (List.Subset.refl _)
    refine (hs.clearReservation frame.engine handle).forget ?_
    simp

theorem settleConclude (H : s.Slots none) (id : SessionId) (status : SessionStatus)
    (hs : status ≠ .pending) (error : Option AuthError) :
    (s.conclude id status error).Slots none := by
  unfold Manager.conclude
  split
  next => exact H
  next record h =>
    split
    next => exact H
    next =>
      have hc : ((s.setRecord id { record with status, error }).releaseEngine
          record.engine id).Slots none := H.conclude (s.get_eq_some.mp h).2 _ rfl rfl hs
      dsimp only
      split
      next => exact hc.emit _
      next => exact hc

theorem waitFulfilled (H : s.Slots none) (id : SessionId) (result : AuthSubmitResult) :
    (s.waitFulfilled id result).Slots none := by
  unfold Manager.waitFulfilled
  split
  next record _ _ =>
    have hs : { s with waiting := update s.waiting id false }.Slots none :=
      ⟨H.1, H.2, H.3, H.4, H.5, H.6⟩
    replace hs := (hs.storeCredential record.engine result.credential).settleConclude id
      .authorized nofun none
    dsimp only
    split
    next => exact hs.emit _
    next => exact hs
  next => exact H

theorem waitRejects (H : s.Slots none) (id : SessionId) (rejection : Rejection) :
    (s.waitRejects id rejection).Slots none := by
  unfold Manager.waitRejects
  split
  next =>
    have hs : { s with waiting := update s.waiting id false }.Slots none :=
      ⟨H.1, H.2, H.3, H.4, H.5, H.6⟩
    exact hs.settleConclude id .failed nofun _
  next => exact H

theorem requireSession_get {engine : String} {id : SessionId} {record : SessionRecord}
    (h : s.requireSession engine id = .ok record) : s.get id = some record := by
  unfold Manager.requireSession at h
  split at h
  next record' h' =>
    split at h
    next => cases h
    next => cases h; exact h'
  next => cases h

theorem submitSession (H : s.Slots none) (engine : String) (id : SessionId) (input : String) :
    (s.submitSession engine id input).2.Slots none := by
  unfold Manager.submitSession
  split
  next => exact H
  next record h =>
    split; next => exact H
    split; next => exact H
    split; next => exact H
    split; next => exact H
    have hr := (s.get_eq_some.mp (requireSession_get h)).2
    refine emit (congr (H.setSubmitting hr true) ?_ ?_ ?_ ?_ ?_ ?_ ?_ ?_) _ <;>
      first | rfl | exact List.Subset.refl _

theorem submitFulfilled (H : s.Slots none) (call : CallId) (result : AuthSubmitResult) :
    (s.submitFulfilled call result).2.Slots none := by
  unfold Manager.submitFulfilled
  split
  next => exact H
  next frame _ =>
    have hs : { s with submits := update s.submits call none }.Slots none :=
      ⟨H.1, H.2, H.3, H.4, H.5, H.6⟩
    dsimp only
    split
    next => exact hs
    next record hr =>
      split
      next => exact hs.endSubmission _
      next =>
        replace hs := hs.storeCredential frame.engine result.credential
        have hr' : (Manager.storeCredential { s with submits := update s.submits call none }
            frame.engine result.credential).records frame.session = some record := by
          rw [storeCredential_records]; exact hr
        obtain ⟨hid, -⟩ := hs.recordIds hr'
        replace hs := hs.conclude hr' { record with status := .authorized } rfl rfl nofun
        refine endSubmission (emit (congr hs ?_ ?_ ?_ ?_ ?_ ?_ ?_ ?_) _) _
        all_goals first | rfl | simp [Manager.releaseEngine, hid]

theorem submitRejects (H : s.Slots none) (call : CallId) (rejection : Rejection) :
    (s.submitRejects call rejection).2.Slots none := by
  unfold Manager.submitRejects
  split
  next => exact H
  next frame _ =>
    have hs : { s with submits := update s.submits call none }.Slots none :=
      ⟨H.1, H.2, H.3, H.4, H.5, H.6⟩
    dsimp only
    split
    next => exact hs
    next record hr =>
      split
      next => exact hs.endSubmission _
      next h =>
        suffices hget : Manager.get { s with submits := update s.submits call none }
            frame.session = some record from (hs.dispose hget .failed nofun).endSubmission _
        simp only [Bool.not_eq_true', Bool.not_eq_false, Manager.stillPending] at h
        split at h
        next record' h' =>
          obtain rfl : record = record' := by
            simpa using hr.symm.trans (Manager.get_eq_some _ |>.mp h').2
          exact h'
        next => cases h

theorem cancelSession (H : s.Slots none) (engine : String) (id : SessionId) :
    (s.cancelSession engine id).2.Slots none := by
  unfold Manager.cancelSession
  split
  next => exact H
  next record h =>
    refine H.dispose (requireSession_get h) _ ?_
    split
    next => nofun
    next hs => exact hs

theorem expire (H : s.Slots none) (id : SessionId) : (s.expire id).Slots none := by
  unfold Manager.expire
  split
  next =>
    have hs : { s with timers := update s.timers id false }.Slots none :=
      ⟨H.1, H.2, H.3, H.4, H.5, H.6⟩
    dsimp only
    split
    next h => exact hs.dispose h _ nofun
    next => exact hs
  next => exact H

theorem resetSession (H : s.Slots none) (id : SessionId) : (s.resetSession id).Slots none := by
  unfold Manager.resetSession
  split
  next h => exact H.dispose h _ nofun
  next => exact H

/-- A reset drops the reservations one by one; the engines are distinct, so each is still there
when its turn comes. -/
theorem resetStarts (H : s.Slots none) (entries : List (Sigma fun _ : String => Reservation))
    (hnodup : entries.NodupKeys)
    (hin : ∀ entry ∈ entries, s.starting.lookup entry.1 = some entry.2) :
    (entries.foldl Manager.resetStart s).Slots none := by
  induction entries generalizing s with
  | nil => exact H
  | cons entry entries ih =>
    obtain ⟨hnot, hrest⟩ := List.nodupKeys_cons.mp hnodup
    refine ih (H.eraseStart (hin entry (.head _))).emit_cancel hrest fun entry' h' => ?_
    have hne : entry'.1 ≠ entry.1 := fun he => hnot (he ▸ List.mem_keys_of_mem h')
    simpa [Manager.resetStart, AList.lookup_erase_ne hne] using hin entry' (.tail _ h')

theorem resetSessions (H : s.Slots none) : s.resetSessions.Slots none := by
  have hs : ((List.range s.nextSession).foldl Manager.resetSession s).Slots none := by
    generalize List.range s.nextSession = ids
    induction ids generalizing s with
    | nil => exact H
    | cons id ids ih => exact ih (H.resetSession id)
  exact hs.resetStarts _ (AList.nodupKeys _) fun entry h => AList.mem_lookup_iff.mpr h

theorem step (cfg : Config) (event : Event) (H : s.Slots none) :
    (s.step cfg event).Slots none := by
  cases event with
  | createSession engine flow options context => exact H.createSession ..
  | startFulfilled now handle started => exact H.startFulfilled ..
  | startRejects handle rejection => exact H.startRejects ..
  | submitSession engine id input => exact H.submitSession ..
  | submitFulfilled call result => exact H.submitFulfilled ..
  | submitRejects call rejection => exact H.submitRejects ..
  | waitFulfilled id result => exact H.waitFulfilled ..
  | waitRejects id rejection => exact H.waitRejects ..
  | cancelSession engine id => exact H.cancelSession ..
  | expire id => exact H.expire id
  | resetSessions => exact H.resetSessions

theorem initial : Manager.initial.Slots none := by
  constructor <;> simp [Manager.initial]

/-- Every state that some run of calls, settlements and timers reaches keeps its slots. -/
theorem reachable {cfg : Config} (h : (machine cfg).Reachable s) : s.Slots none :=
  h.keeps (I := fun s => s.Slots none) initial fun _ event H => H.step cfg event

end Slots

/-- At most one login per engine, the one `byEngine` names, and every handle accounted for. -/
structure SlotInvariant (s : Manager) : Prop where
  onePending : ∀ {id id' : SessionId} {r r' : SessionRecord}, s.records id = some r →
    s.records id' = some r' → r.status = .pending → r'.status = .pending →
    r.engine = r'.engine → id = id'
  startExcludesPending : ∀ {id : SessionId} {r : SessionRecord}, s.records id = some r →
    r.status = .pending → s.starting.lookup r.engine = none
  pendingRegistered : ∀ {id : SessionId} {r : SessionRecord}, s.records id = some r →
    r.status = .pending → s.get id = some r ∧ s.byEngine r.engine = some id
  noOrphan : ∀ handle < s.nextHandle,
    .cancel handle ∈ s.effects ∨ s.startRejected handle = true ∨
      (∃ engine reservation, s.starting.lookup engine = some reservation ∧
        reservation.handle = handle) ∨
      (∃ id record, s.get id = some record ∧ record.handle = handle)

theorem Slots.toInvariant {s : Manager} (H : s.Slots none) : s.SlotInvariant where
  onePending {id id' r r'} hr hr' hp hp' he := by
    have h := (H.pendingLive hr hp).2
    rw [he, (H.pendingLive hr' hp').2] at h
    exact (Option.some.inj h).symm
  startExcludesPending {id r} hr hp := by
    by_contra h
    obtain ⟨res, hres⟩ := Option.ne_none_iff_exists'.mp h
    simpa [(H.pendingLive hr hp).2] using H.exclusive hres
  pendingRegistered hr hp :=
    ⟨get_eq_some _ |>.mpr ⟨(H.pendingLive hr hp).1, hr⟩, (H.pendingLive hr hp).2⟩
  noOrphan handle hh := by
    simpa only [get_eq_some, and_assoc] using H.handleKept handle hh nofun

/-- The slot invariant holds after every run, however the adapters settle. -/
theorem slotInvariant (cfg : Config) (events : List Event) :
    ((machine cfg).run events).SlotInvariant :=
  (Slots.reachable ⟨events, rfl⟩).toInvariant

end Manager

end CliProxy.Auth
