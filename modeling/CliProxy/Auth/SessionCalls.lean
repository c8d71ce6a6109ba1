import CliProxy.Auth.SessionSlots

/-! # What the promises in flight belong to

Every promise of an adapter that has not settled belongs to one attempt (`Tracked`): a `start()`
to a handle without a record, a `submit()` to a record whose flag is set, a `wait()` to a record
that only it can authorize. -/

namespace CliProxy.Auth

open Function (update update_apply update_self update_of_ne)

namespace Manager

/-- The status of the record of an id, registered or not. -/
def status (s : Manager) (id : SessionId) : Option SessionStatus :=
  (s.records id).map (·.status)

section
variable (s : Manager) (engine : String) (handle : HandleId)

@[simp] theorem clearReservation_starts :
    (s.clearReservation engine handle).starts = s.starts := by
  unfold clearReservation
  split <;> rfl

@[simp] theorem clearReservation_records :
    (s.clearReservation engine handle).records = s.records := by
  unfold clearReservation
  split <;> rfl

@[simp] theorem clearReservation_nextHandle :
    (s.clearReservation engine handle).nextHandle = s.nextHandle := by
  unfold clearReservation
  split <;> rfl

end

/-- What holds of a record that replaces another one of its session. -/
structure Succeeds (s : Manager) (id : SessionId) (r r' : SessionRecord) : Prop where
  sessionId : r'.sessionId = r.sessionId
  handle : r'.handle = r.handle
  engine : r'.engine = r.engine
  waits : r'.waits = r.waits
  authorized : r'.status = .authorized → r.status = .authorized ∨ s.waiting id = false
  submitting : r'.submitting = r.submitting ∨ r'.submitting = true ∨
    ∀ call frame, s.submits call = some frame → frame.session ≠ id

/-- The joint invariant of the promises in flight and the records. -/
structure Tracked (s : Manager) : Prop where
  started : ∀ {h f}, s.starts h = some f → h < s.nextHandle
  reserved : ∀ {e res}, s.starting.lookup e = some res →
    ∃ f, s.starts res.handle = some f ∧ f.engine = e
  recorded : ∀ {id r}, s.records id = some r → s.starts r.handle = none ∧ r.handle < s.nextHandle
  oneRecord : ∀ {id id' r r'}, s.records id = some r → s.records id' = some r' →
    r.handle = r'.handle → id = id'
  waited : ∀ {id}, s.waiting id = true →
    ∃ r, s.records id = some r ∧ r.waits = true ∧ r.status ≠ .authorized
  submitted : ∀ {call f}, s.submits call = some f → ∃ r, s.records f.session = some r ∧
    r.waits = false ∧ r.engine = f.engine ∧ r.submitting = true
  oneCall : ∀ {call call' f f'}, s.submits call = some f → s.submits call' = some f' →
    f.session = f'.session → call = call'
  callBelow : ∀ {call f}, s.submits call = some f → call < s.nextCall
  recordBelow : ∀ {id r}, s.records id = some r → r.sessionId = id ∧ id < s.nextSession

namespace Tracked

variable {s : Manager}

theorem congr {s' : Manager} (H : s.Tracked) (hrecords : s'.records = s.records)
    (hstarts : s'.starts = s.starts) (hstarting : s'.starting = s.starting)
    (hhandle : s'.nextHandle = s.nextHandle) (hwaiting : s'.waiting = s.waiting)
    (hsubmits : s'.submits = s.submits) (hcall : s'.nextCall = s.nextCall)
    (hsession : s'.nextSession = s.nextSession) : s'.Tracked := by
  obtain ⟨h1, h2, h3, h4, h5, h6, h7, h8, h9⟩ := H
  refine ⟨?_, ?_, ?_, ?_, ?_, ?_, ?_, ?_, ?_⟩ <;>
    simp only [hrecords, hstarts, hstarting, hhandle, hwaiting, hsubmits, hcall, hsession] <;>
    assumption

theorem emit (H : s.Tracked) (effect : Effect) : (s.emit effect).Tracked :=
  H.congr rfl rfl rfl rfl rfl rfl rfl rfl

theorem releaseEngine (H : s.Tracked) (engine : String) (id : SessionId) :
    (s.releaseEngine engine id).Tracked :=
  H.congr rfl rfl rfl rfl rfl rfl rfl rfl

theorem setRecord (H : s.Tracked) {id : SessionId} {r r' : SessionRecord}
    (hr : s.records id = some r) (hr' : s.Succeeds id r r') : (s.setRecord id r').Tracked := by
  obtain ⟨h1, h2, h3, h4, h5, h6, h7, h8, h9⟩ := H
  obtain ⟨g1, g2, g3, g4, g5, g6⟩ := hr'
  have other : ∀ {id' r''}, (s.setRecord id r').records id' = some r'' →
      (id' = id ∧ r'' = r') ∨ (id' ≠ id ∧ s.records id' = some r'') := by
    intro id' r'' h
    rw [setRecord_records, update_apply] at h
    split at h
    next he => exact .inl ⟨he, (Option.some.inj h).symm⟩
    next he => exact .inr ⟨he, h⟩
  refine ⟨h1, h2, ?_, ?_, ?_, ?_, h7, h8, ?_⟩
  · intro id' r'' h
    obtain ⟨rfl, rfl⟩ | ⟨-, h⟩ := other h
    · rw [g2]
      exact h3 hr
    · exact h3 h
  · intro id₁ id₂ r₁ r₂ e₁ e₂ he
    obtain ⟨rfl, rfl⟩ | ⟨-, e₁'⟩ := other e₁ <;> obtain ⟨rfl, rfl⟩ | ⟨-, e₂'⟩ := other e₂
    · rfl
    · exact h4 hr e₂' (g2.symm.trans he)
    · exact h4 e₁' hr (he.trans g2)
    · exact h4 e₁' e₂' he
  · intro id' hw
    obtain ⟨r'', hr'', hwaits, hstatus⟩ := h5 hw
    by_cases he : id' = id
    · subst he
      obtain rfl := Option.some.inj (hr.symm.trans hr'')
      refine ⟨r', by simp, g4.trans hwaits, fun ha => ?_⟩
      obtain ha | ha := g5 ha
      · exact hstatus ha
      · exact Bool.false_ne_true (ha.symm.trans hw)
    · exact ⟨r'', by simp [he, hr''], hwaits, hstatus⟩
  · intro call f hf
    obtain ⟨r'', hr'', hwaits, hengine, hsubmitting⟩ := h6 hf
    by_cases he : f.session = id
    · rw [he] at hr'' ⊢
      obtain rfl := Option.some.inj (hr.symm.trans hr'')
      refine ⟨r', by simp, g4.trans hwaits, g3.trans hengine, ?_⟩
      obtain g6 | g6 | g6 := g6
      · exact g6.trans hsubmitting
      · exact g6
      · exact absurd he (g6 call f hf)
    · exact ⟨r'', by simp [he, hr''], hwaits, hengine, hsubmitting⟩
  · intro id' r'' h
    obtain ⟨rfl, rfl⟩ | ⟨-, h⟩ := other h
    · exact ⟨g1.trans (h9 hr).1, (h9 hr).2⟩
    · exact h9 h

/-- A new status that only its own `wait()` may make `authorized`. -/
theorem setStatus (H : s.Tracked) {id : SessionId} {r : SessionRecord}
    (hr : s.records id = some r) {status : SessionStatus} {error : Option AuthError}
    (h : status = .authorized → r.status = .authorized ∨ s.waiting id = false) :
    (s.setRecord id { r with status, error }).Tracked :=
  H.setRecord hr ⟨rfl, rfl, rfl, rfl, h, .inl rfl⟩

theorem dispose (H : s.Tracked) {r : SessionRecord} (hr : s.records r.sessionId = some r)
    {status : SessionStatus} (h : status = .authorized → r.status = .authorized) :
    (s.dispose r status).Tracked := by
  have hs : (s.setRecord r.sessionId { r with status }).Tracked :=
    H.setStatus hr fun ha => .inl (h ha)
  exact hs.congr rfl rfl rfl rfl rfl rfl rfl rfl

/-- What `get` finds is the record under its own id. -/
theorem get_self (H : s.Tracked) {id : SessionId} {r : SessionRecord} (h : s.get id = some r) :
    s.records r.sessionId = some r := by
  have hr := (s.get_eq_some.mp h).2
  rwa [(H.recordBelow hr).1]

theorem reportSuperseded (H : s.Tracked) (generation : Option String) :
    (s.reportSuperseded generation).Tracked := by
  unfold Manager.reportSuperseded
  cases generation with
  | none => exact H
  | some generation =>
    dsimp only
    split
    next => exact H
    next => exact H.emit _

theorem storeCredential (H : s.Tracked) (engine : String) (credential : Option StoredCredential) :
    (s.storeCredential engine credential).Tracked := by
  cases credential with
  | none => exact H
  | some credential => exact (H.emit _).emit _

theorem supersedeSession (H : s.Tracked) (engine : String) :
    (s.supersedeSession engine).Tracked := by
  unfold Manager.supersedeSession
  split
  next => exact H
  next existingId _ =>
    split
    next => exact H
    next existing h =>
      have hs := H.reportSuperseded existing.provisioningGeneration
      have hget : (s.reportSuperseded existing.provisioningGeneration).get existingId =
          some existing := by simpa using h
      exact hs.dispose (hs.get_self hget) fun ha => SessionStatus.noConfusion ha

theorem eraseStart (H : s.Tracked) (engine : String) :
    { s with starting := s.starting.erase engine }.Tracked := by
  refine ⟨H.1, fun {e res} h => ?_, H.3, H.4, H.5, H.6, H.7, H.8, H.9⟩
  by_cases he : e = engine
  · subst he
    simp at h
  · exact H.reserved (by simpa [AList.lookup_erase_ne he] using h)

theorem supersedeStart (H : s.Tracked) (engine : String) : (s.supersedeStart engine).Tracked := by
  unfold Manager.supersedeStart
  split
  next => exact H
  next superseded _ => exact ((H.eraseStart engine).reportSuperseded _).emit _

/-- A new attempt reserves the engine under a handle that nothing has. -/
theorem reserve (H : s.Tracked) (frame : StartFrame) (generation : Option String) :
    { s with
      nextHandle := s.nextHandle + 1
      starting := s.starting.insert frame.engine ⟨s.nextHandle, generation⟩
      starts := update s.starts s.nextHandle (some frame) }.Tracked := by
  obtain ⟨h1, h2, h3, h4, h5, h6, h7, h8, h9⟩ := H
  refine ⟨fun {h f} hf => ?_, fun {e res} hres => ?_, fun {id r} hr => ?_, h4, h5, h6, h7, h8, h9⟩
  · dsimp only at hf ⊢
    rw [update_apply] at hf
    split at hf
    next he => exact he ▸ Nat.lt_succ_self _
    next => exact Nat.lt_succ_of_lt (h1 hf)
  · dsimp only at hres ⊢
    by_cases he : e = frame.engine
    · subst he
      rw [AList.lookup_insert] at hres
      obtain rfl := Option.some.inj hres
      exact ⟨frame, update_self .., rfl⟩
    · rw [AList.lookup_insert_ne he] at hres
      obtain ⟨f, hf, hfe⟩ := h2 hres
      exact ⟨f, (update_of_ne (Nat.ne_of_lt (h1 hf)) ..).trans hf, hfe⟩
  · obtain ⟨hstarts, hlt⟩ := h3 hr
    exact ⟨(update_of_ne (Nat.ne_of_lt hlt) ..).trans hstarts, Nat.lt_succ_of_lt hlt⟩

theorem createSession (H : s.Tracked) (cfg : Config) (engine : String) (flow : Option String)
    (options : SessionOptions) (context : Option String) :
    (s.createSession cfg engine flow options context).2.Tracked := by
  unfold Manager.createSession
  split
  next => exact H
  next flowDescriptor _ =>
    exact (((H.supersedeSession engine).supersedeStart engine).reserve
      ⟨engine, flowDescriptor, options, context⟩ options.provisioningGeneration).emit _

/-- A settled start gives its reservation up, if it still has it. -/
theorem endStart (H : s.Tracked) {handle : HandleId} {frame : StartFrame}
    (hframe : s.starts handle = some frame) :
    (Manager.clearReservation { s with starts := update s.starts handle none }
      frame.engine handle).Tracked := by
  obtain ⟨h1, h2, h3, h4, h5, h6, h7, h8, h9⟩ := H
  have started : ∀ {h f}, update s.starts handle none h = some f → h ≠ handle ∧ s.starts h = some f := by
    intro h f hf
    rw [update_apply] at hf
    split at hf
    next => exact nomatch hf
    next he => exact ⟨he, hf⟩
  have reserved : ∀ {e res}, s.starting.lookup e = some res → res.handle ≠ handle →
      ∃ f, update s.starts handle none res.handle = some f ∧ f.engine = e := by
    intro e res hres hne
    obtain ⟨f, hf, hfe⟩ := h2 hres
    exact ⟨f, (update_of_ne hne ..).trans hf, hfe⟩
  have recorded : ∀ {id r}, s.records id = some r →
      update s.starts handle none r.handle = none ∧ r.handle < s.nextHandle := by
    intro id r hr
    refine ⟨?_, (h3 hr).2⟩
    rw [update_apply]
    split
    next => rfl
    next => exact (h3 hr).1
  unfold Manager.clearReservation
  split
  next howns =>
    refine ⟨fun hf => h1 (started hf).2, fun {e res} hres => ?_, recorded, h4, h5, h6, h7, h8, h9⟩
    dsimp only at hres
    by_cases he : e = frame.engine
    · subst he
      simp at hres
    · rw [AList.lookup_erase_ne he] at hres
      refine reserved hres fun hh => he ?_
      obtain ⟨f, hf, hfe⟩ := h2 hres
      rw [hh, hframe] at hf
      exact hfe.symm.trans (congrArg StartFrame.engine (Option.some.inj hf).symm)
  next howns =>
    refine ⟨fun hf => h1 (started hf).2, fun {e res} hres => ?_, recorded, h4, h5, h6, h7, h8, h9⟩
    refine reserved hres fun hh => howns ?_
    obtain ⟨f, hf, hfe⟩ := h2 hres
    rw [hh, hframe] at hf
    obtain rfl := Option.some.inj hf
    simp only [ownsSlot, decide_eq_true_eq]
    rw [hfe, hres, ← hh]
    rfl

theorem register (H : s.Tracked) {r : SessionRecord} (hid : r.sessionId = s.nextSession)
    (hstatus : r.status = .pending) (hstarts : s.starts r.handle = none)
    (hhandle : r.handle < s.nextHandle)
    (hnew : ∀ id r', s.records id = some r' → r'.handle ≠ r.handle) : (s.register r).Tracked := by
  obtain ⟨h1, h2, h3, h4, h5, h6, h7, h8, h9⟩ := H
  have absent : s.records r.sessionId = none := by
    by_contra h
    obtain ⟨r', hr'⟩ := Option.ne_none_iff_exists'.mp h
    exact absurd (hid ▸ (h9 hr').2) (Nat.lt_irrefl _)
  have keep : ∀ {id r'}, s.records id = some r' →
      update s.records r.sessionId (some r) id = some r' := by
    intro id r' h
    rw [update_of_ne]
    · exact h
    · rintro rfl
      exact nomatch absent.symm.trans h
  have other : ∀ {id r'}, update s.records r.sessionId (some r) id = some r' →
      (id = r.sessionId ∧ r' = r) ∨ s.records id = some r' := by
    intro id r' h
    rw [update_apply] at h
    split at h
    next he => exact .inl ⟨he, (Option.some.inj h).symm⟩
    next => exact .inr h
  suffices h : ∀ waiting : SessionId → Bool,
      (∀ id, waiting id = true → s.waiting id = true ∨ (id = r.sessionId ∧ r.waits = true)) →
      { s with
        nextSession := r.sessionId + 1
        timers := update s.timers r.sessionId true
        records := update s.records r.sessionId (some r)
        byId := update s.byId r.sessionId true
        byEngine := update s.byEngine r.engine (some r.sessionId)
        waiting }.Tracked by
    unfold Manager.register
    split
    next hwaits =>
      refine h _ fun id hid' => ?_
      rw [update_apply] at hid'
      split at hid'
      next he => exact .inr ⟨he, hwaits⟩
      next => exact .inl hid'
    next => exact h _ fun _ => .inl
  intro waiting hwaiting
  refine ⟨h1, h2, fun {id r'} h => ?_, fun {id id' r₁ r₂} e₁ e₂ he => ?_, fun {id} hw => ?_,
    fun {call f} hf => ?_, h7, h8, fun {id r'} h => ?_⟩
  · obtain ⟨-, rfl⟩ | h := other h
    · exact ⟨hstarts, hhandle⟩
    · exact h3 h
  · obtain ⟨rfl, rfl⟩ | e₁' := other e₁ <;> obtain ⟨rfl, rfl⟩ | e₂' := other e₂
    · rfl
    · exact absurd he.symm (hnew _ _ e₂')
    · exact absurd he (hnew _ _ e₁')
    · exact h4 e₁' e₂' he
  · obtain hw | ⟨rfl, hwaits⟩ := hwaiting id hw
    · obtain ⟨r', hr', h⟩ := h5 hw
      exact ⟨r', keep hr', h⟩
    · exact ⟨r, update_self .., hwaits, fun ha => SessionStatus.noConfusion (hstatus.symm.trans ha)⟩
  · obtain ⟨r', hr', h⟩ := h6 hf
    exact ⟨r', keep hr', h⟩
  · obtain ⟨rfl, rfl⟩ | h := other h
    · exact ⟨rfl, Nat.lt_succ_self _⟩
    · exact ⟨(h9 h).1, hid ▸ Nat.lt_succ_of_lt (h9 h).2⟩

theorem startFulfilled (H : s.Tracked) (cfg : Config) (now : Nat) (handle : HandleId)
    (started : AuthStartResult) : (s.startFulfilled cfg now handle started).2.Tracked := by
  unfold Manager.startFulfilled
  split
  next => exact H
  next frame hframe =>
    have hs := H.endStart hframe
    dsimp only
    split
    next => exact hs.emit _
    next =>
      refine hs.register rfl rfl ?_ ?_ fun id r' hr' he => ?_
      · rw [clearReservation_starts]
        exact update_self ..
      · rw [clearReservation_nextHandle]
        exact H.started hframe
      · rw [clearReservation_records] at hr'
        have hnone := (H.recorded hr').1
        rw [he] at hnone
        exact nomatch hnone.symm.trans hframe

theorem startRejects (H : s.Tracked) (handle : HandleId) (rejection : Rejection) :
    (s.startRejects handle rejection).2.Tracked := by
  unfold Manager.startRejects
  split
  next => exact H
  next frame hframe =>
    refine (H.endStart hframe).congr ?_ ?_ ?_ ?_ ?_ ?_ ?_ ?_ <;>
      (unfold Manager.clearReservation Manager.ownsSlot; dsimp only; split <;> rfl)

/-- `conclude` authorizes a session only while nothing waits for it any more. -/
theorem conclude (H : s.Tracked) (id : SessionId) {status : SessionStatus}
    (h : status = .authorized → s.waiting id = false) (error : Option AuthError) :
    (s.conclude id status error).Tracked := by
  unfold Manager.conclude
  split
  next => exact H
  next record hget =>
    split
    next => exact H
    next =>
      have hset : (s.setRecord id { record with status, error }).Tracked :=
        H.setStatus (s.get_eq_some.mp hget).2 fun ha => .inr (h ha)
      have hs := hset.releaseEngine record.engine id
      dsimp only
      split
      next => exact hs.emit _
      next => exact hs

theorem endWait (H : s.Tracked) (id : SessionId) :
    { s with waiting := update s.waiting id false }.Tracked := by
  refine ⟨H.1, H.2, H.3, H.4, fun {id'} hw => ?_, H.6, H.7, H.8, H.9⟩
  dsimp only at hw
  rw [update_apply] at hw
  split at hw
  next => exact absurd hw Bool.false_ne_true
  next => exact H.waited hw

theorem waitFulfilled (H : s.Tracked) (id : SessionId) (result : AuthSubmitResult) :
    (s.waitFulfilled id result).Tracked := by
  unfold Manager.waitFulfilled
  split
  next record _ _ =>
    have hwaiting : ((Manager.storeCredential { s with waiting := update s.waiting id false }
        record.engine result.credential).waiting id) = false := by
      cases result.credential <;> exact update_self ..
    have hs := ((H.endWait id).storeCredential record.engine result.credential).conclude id
      (fun _ : SessionStatus.authorized = .authorized => hwaiting) none
    dsimp only
    split
    next => exact hs.emit _
    next => exact hs
  next => exact H

theorem waitRejects (H : s.Tracked) (id : SessionId) (rejection : Rejection) :
    (s.waitRejects id rejection).Tracked := by
  unfold Manager.waitRejects
  split
  next => exact (H.endWait id).conclude id (fun h => SessionStatus.noConfusion h) _
  next => exact H

theorem requireSession_engine {engine : String} {id : SessionId} {record : SessionRecord}
    (h : s.requireSession engine id = .ok record) : record.engine = engine := by
  unfold Manager.requireSession at h
  split at h
  next record' _ =>
    split at h
    next => cases h
    next he =>
      cases h
      exact not_not.mp he
  next => cases h

/-- A submission begins where none is in flight. -/
theorem beginCall (H : s.Tracked) {id : SessionId} {r : SessionRecord}
    (hr : s.records id = some r) (hwaits : r.waits = false) (hsubmitting : ¬r.submitting = true) :
    { s.setRecord id { r with submitting := true } with
      nextCall := s.nextCall + 1
      submits := update s.submits s.nextCall (some ⟨r.engine, id⟩) }.Tracked := by
  have free : ∀ {call f}, s.submits call = some f → f.session ≠ id := by
    rintro call f hf rfl
    obtain ⟨r', hr', -, -, h⟩ := H.submitted hf
    obtain rfl := Option.some.inj (hr.symm.trans hr')
    exact hsubmitting h
  have other : ∀ {call f}, update s.submits s.nextCall (some ⟨r.engine, id⟩) call = some f →
      (call = s.nextCall ∧ f = ⟨r.engine, id⟩) ∨ s.submits call = some f := by
    intro call f h
    rw [update_apply] at h
    split at h
    next he => exact .inl ⟨he, (Option.some.inj h).symm⟩
    next => exact .inr h
  have hset : (s.setRecord id { r with submitting := true }).Tracked :=
    H.setRecord hr ⟨rfl, rfl, rfl, rfl, .inl, .inr (.inl rfl)⟩
  obtain ⟨h1, h2, h3, h4, h5, h6, h7, h8, h9⟩ := hset
  refine ⟨h1, h2, h3, h4, h5, fun {call f} h => ?_, fun {call call' f f'} h h' he => ?_,
    fun {call f} h => ?_, h9⟩
  · obtain ⟨-, rfl⟩ | h := other h
    · exact ⟨_, update_self .., hwaits, rfl, rfl⟩
    · exact h6 h
  · obtain ⟨rfl, rfl⟩ | h := other h <;> obtain ⟨rfl, rfl⟩ | h' := other h'
    · rfl
    · exact absurd he.symm (free h')
    · exact absurd he (free h)
    · exact H.oneCall h h' he
  · obtain ⟨rfl, -⟩ | h := other h
    · exact Nat.lt_succ_self _
    · exact Nat.lt_succ_of_lt (H.callBelow h)

theorem submitSession (H : s.Tracked) (engine : String) (id : SessionId) (input : String) :
    (s.submitSession engine id input).2.Tracked := by
  unfold Manager.submitSession
  split
  next => exact H
  next record h =>
    have hr := (s.get_eq_some.mp (Slots.requireSession_get h)).2
    obtain rfl := requireSession_engine h
    split; next => exact H
    split; next => exact H
    split; next => exact H
    next hwaits =>
    split; next => exact H
    next hsubmitting =>
    exact (H.beginCall hr (Bool.eq_false_of_not_eq_true hwaits) hsubmitting).emit _

/-- A submission that settled is in flight no more. -/
theorem endCall (H : s.Tracked) (call : CallId) :
    { s with submits := update s.submits call none }.Tracked := by
  have other : ∀ {call' f}, update s.submits call none call' = some f → s.submits call' = some f := by
    intro call' f h
    rw [update_apply] at h
    split at h
    next => exact nomatch h
    next => exact h
  exact ⟨H.1, H.2, H.3, H.4, H.5, fun h => H.6 (other h), fun h h' => H.7 (other h) (other h'),
    fun h => H.8 (other h), H.9⟩

theorem endSubmission (H : s.Tracked) {id : SessionId}
    (h : ∀ call frame, s.submits call = some frame → frame.session ≠ id) :
    (s.endSubmission id).Tracked := by
  unfold Manager.endSubmission
  split
  next hr => exact H.setRecord hr ⟨rfl, rfl, rfl, rfl, .inl, .inr (.inr h)⟩
  next => exact H

/-- No other submission of the session is in flight beside the one that settles. -/
theorem lastCall (H : s.Tracked) {call : CallId} {frame : SubmitFrame}
    (hframe : s.submits call = some frame) (call' : CallId) (frame' : SubmitFrame)
    (h : update s.submits call none call' = some frame') : frame'.session ≠ frame.session := by
  intro he
  rw [update_apply] at h
  split at h
  next => exact nomatch h
  next hne => exact hne (H.oneCall h hframe he)

theorem submitFulfilled (H : s.Tracked) (call : CallId) (result : AuthSubmitResult) :
    (s.submitFulfilled call result).2.Tracked := by
  unfold Manager.submitFulfilled
  split
  next => exact H
  next frame hframe =>
    have hs := H.endCall call
    have hlast := H.lastCall hframe
    dsimp only
    split
    next => exact hs
    next record hr =>
      obtain ⟨r, hr', hwaits, -, -⟩ := H.submitted hframe
      obtain rfl := Option.some.inj (hr.symm.trans hr')
      -- A session that takes submissions has no `wait()`.
      have hwaiting : s.waiting frame.session = false := by
        refine Bool.eq_false_of_not_eq_true fun hw => ?_
        obtain ⟨r', hr', hwaits', -⟩ := H.waited hw
        obtain rfl := Option.some.inj (hr.symm.trans hr')
        exact Bool.false_ne_true (hwaits.symm.trans hwaits')
      split
      next => exact hs.endSubmission hlast
      next =>
        have hstored := hs.storeCredential frame.engine result.credential
        have hrecord : (Manager.storeCredential { s with submits := update s.submits call none }
            frame.engine result.credential).records frame.session = some record := by
          rw [storeCredential_records]
          exact hr
        have hset : (Manager.setRecord (Manager.storeCredential
            { s with submits := update s.submits call none } frame.engine result.credential)
            frame.session { record with status := .authorized }).Tracked :=
          hstored.setStatus hrecord fun _ => .inr (by cases result.credential <;> exact hwaiting)
        refine Tracked.endSubmission ?_ ?_
        · exact (((hset.emit .notifyCredentialChange).emit _).releaseEngine _ _).emit _
        · cases result.credential <;> exact hlast

theorem submitRejects (H : s.Tracked) (call : CallId) (rejection : Rejection) :
    (s.submitRejects call rejection).2.Tracked := by
  unfold Manager.submitRejects
  split
  next => exact H
  next frame hframe =>
    have hs := H.endCall call
    have hlast := H.lastCall hframe
    dsimp only
    split
    next => exact hs
    next record hr =>
      split
      next => exact hs.endSubmission hlast
      next =>
        have hr' : s.records record.sessionId = some record := by
          rw [(H.recordBelow hr).1]
          exact hr
        exact (hs.dispose hr' fun h => SessionStatus.noConfusion h).endSubmission hlast

theorem cancelSession (H : s.Tracked) (engine : String) (id : SessionId) :
    (s.cancelSession engine id).2.Tracked := by
  unfold Manager.cancelSession
  split
  next => exact H
  next record h =>
    refine H.dispose (H.get_self (Slots.requireSession_get h)) fun ha => ?_
    split at ha
    next => exact SessionStatus.noConfusion ha
    next => exact ha

theorem expire (H : s.Tracked) (id : SessionId) : (s.expire id).Tracked := by
  unfold Manager.expire
  split
  next =>
    have hs : { s with timers := update s.timers id false }.Tracked :=
      H.congr rfl rfl rfl rfl rfl rfl rfl rfl
    dsimp only
    split
    next record h => exact hs.dispose (hs.get_self h) fun h => SessionStatus.noConfusion h
    next => exact hs
  next => exact H

theorem resetSession (H : s.Tracked) (id : SessionId) : (s.resetSession id).Tracked := by
  unfold Manager.resetSession
  split
  next record h => exact H.dispose (H.get_self h) fun h => SessionStatus.noConfusion h
  next => exact H

theorem resetSessions (H : s.Tracked) : s.resetSessions.Tracked := by
  have hs : ((List.range s.nextSession).foldl Manager.resetSession s).Tracked := by
    generalize List.range s.nextSession = ids
    induction ids generalizing s with
    | nil => exact H
    | cons id ids ih => exact ih (H.resetSession id)
  unfold Manager.resetSessions
  dsimp only
  generalize (List.range s.nextSession).foldl Manager.resetSession s = s₁ at hs ⊢
  generalize s₁.starting.entries = entries
  induction entries generalizing s₁ with
  | nil => exact hs
  | cons entry entries ih => exact ih _ ((hs.eraseStart entry.1).emit _)

theorem step (cfg : Config) (event : Event) (H : s.Tracked) : (s.step cfg event).Tracked := by
  cases event with
  | createSession engine flow options context => exact H.createSession ..
  | startFulfilled now handle started => exact H.startFulfilled ..
  | startRejects handle rejection => exact H.startRejects ..
  | submitSession engine id input => exact H.submitSession ..
  | submitFulfilled call result => exact H.submitFulfilled ..
  | submitRejects call rejection => exact H.submitRejects ..
  | waitFulfilled id result => exact H.waitFulfilled ..
  | waitRejects id rejection => exact H.waitRejects ..
  | cancelSession engine id => exact H.cancelSession ..
  | expire id => exact H.expire id
  | resetSessions => exact H.resetSessions

theorem initial : Manager.initial.Tracked := by
  constructor <;> simp [Manager.initial]

end Tracked

end Manager

end CliProxy.Auth
