import CliProxy.Auth.SessionCalls

/-! # What a stale attempt can still do

An attempt is stale once a newer `createSession` superseded it, or it was cancelled, expired or
reset. `createSession` and `settleWhenDone` judge a late settlement by the maps at that moment, so
two settlements of a stale attempt keep their authority: a `start()` that fulfills while its
engine is free, and a `wait()` that fulfills with a credential. -/

namespace CliProxy.Auth

open Lib Manager
open Function (update update_apply update_self update_of_ne)

/-- What only an attempt with authority may do. -/
def Effect.grants : Effect → Bool
  | .setCredential _ _ | .notifyCredentialChange | .handleAuthorizedSession _ _ _ => true
  | _ => false

namespace Manager

/-- A status is kept, concludes a pending session, or is that of a dropped one. -/
def StatusMoves (old new : SessionStatus) : Prop :=
  new = old ∨ old = .pending ∨ new = .failed ∨ new = .cancelled

theorem StatusMoves.pending {old new : SessionStatus} (H : StatusMoves old new)
    (h : new = .pending) : old = .pending := by
  subst h
  rcases H with rfl | h | h | h
  · rfl
  · exact h
  · exact SessionStatus.noConfusion h
  · exact SessionStatus.noConfusion h

theorem StatusMoves.trans {a b c : SessionStatus} (H : StatusMoves a b) (H' : StatusMoves b c) :
    StatusMoves a c := by
  obtain rfl | rfl | h := H'
  · exact H
  · exact .inr (.inl (H.pending rfl))
  · exact .inr (.inr h)

/-- Between the states, nothing registers and no attempt reserves its engine. -/
structure Evolves (s s' : Manager) : Prop where
  records : ∀ {id r'}, s'.records id = some r' → ∃ r, s.records id = some r ∧
    r'.handle = r.handle ∧ r'.engine = r.engine ∧ StatusMoves r.status r'.status
  starting : ∀ {e res}, s'.starting.lookup e = some res → s.starting.lookup e = some res
  nextHandle : s'.nextHandle = s.nextHandle

namespace Evolves

variable {s s' s'' : Manager}

theorem of_eq (hrecords : s'.records = s.records) (hstarting : s'.starting = s.starting)
    (hhandle : s'.nextHandle = s.nextHandle) : s.Evolves s' where
  records {_ r'} h := ⟨r', hrecords ▸ h, rfl, rfl, .inl rfl⟩
  starting h := hstarting ▸ h
  nextHandle := hhandle

theorem refl (s : Manager) : s.Evolves s := of_eq rfl rfl rfl

theorem trans (H : s.Evolves s') (H' : s'.Evolves s'') : s.Evolves s'' where
  records h := by
    obtain ⟨r', hr', hhandle', hengine', hstatus'⟩ := H'.records h
    obtain ⟨r, hr, hhandle, hengine, hstatus⟩ := H.records hr'
    exact ⟨r, hr, hhandle'.trans hhandle, hengine'.trans hengine, hstatus.trans hstatus'⟩
  starting h := H.starting (H'.starting h)
  nextHandle := H'.nextHandle.trans H.nextHandle

theorem emit (s : Manager) (effect : Effect) : s.Evolves (s.emit effect) := of_eq rfl rfl rfl

theorem setRecord {id : SessionId} {r r' : SessionRecord} (hr : s.records id = some r)
    (hhandle : r'.handle = r.handle) (hengine : r'.engine = r.engine)
    (hstatus : StatusMoves r.status r'.status) : s.Evolves (s.setRecord id r') where
  records {id' r''} h := by
    rw [setRecord_records, update_apply] at h
    split at h
    next he =>
      obtain rfl := Option.some.inj h
      exact ⟨r, he ▸ hr, hhandle, hengine, hstatus⟩
    next => exact ⟨r'', h, rfl, rfl, .inl rfl⟩
  starting h := h
  nextHandle := rfl

theorem dispose {r : SessionRecord} (hr : s.records r.sessionId = some r) {status : SessionStatus}
    (h : StatusMoves r.status status) : s.Evolves (s.dispose r status) := by
  have hset : s.Evolves (s.setRecord r.sessionId { r with status }) := setRecord hr rfl rfl h
  exact hset.trans (of_eq rfl rfl rfl)

theorem reportSuperseded (s : Manager) (generation : Option String) :
    s.Evolves (s.reportSuperseded generation) := by
  unfold Manager.reportSuperseded
  cases generation with
  | none => exact refl s
  | some generation =>
    dsimp only
    split
    next => exact refl s
    next => exact emit s _

theorem storeCredential (s : Manager) (engine : String) (credential : Option StoredCredential) :
    s.Evolves (s.storeCredential engine credential) := by
  cases credential with
  | none => exact refl s
  | some credential => exact (emit s _).trans (emit _ _)

theorem supersedeSession (H : s.Tracked) (engine : String) :
    s.Evolves (s.supersedeSession engine) := by
  unfold Manager.supersedeSession
  split
  next => exact refl s
  next existingId _ =>
    split
    next => exact refl s
    next existing h =>
      have hs := H.reportSuperseded existing.provisioningGeneration
      have hget : (s.reportSuperseded existing.provisioningGeneration).get existingId =
          some existing := by simpa using h
      exact (reportSuperseded s existing.provisioningGeneration).trans
        (dispose (hs.get_self hget) (.inr (.inr (.inr rfl))))

theorem eraseStart (s : Manager) (engine : String) :
    s.Evolves { s with starting := s.starting.erase engine } where
  records {id r'} h := ⟨r', h, rfl, rfl, .inl rfl⟩
  starting {e res} h := by
    dsimp only at h
    by_cases he : e = engine
    · subst he
      simp at h
    · rwa [AList.lookup_erase_ne he] at h
  nextHandle := rfl

theorem supersedeStart (s : Manager) (engine : String) : s.Evolves (s.supersedeStart engine) := by
  unfold Manager.supersedeStart
  split
  next => exact refl s
  next => exact ((eraseStart s engine).trans (reportSuperseded _ _)).trans (emit _ _)

theorem clearReservation (s : Manager) (engine : String) (handle : HandleId) :
    s.Evolves (s.clearReservation engine handle) := by
  unfold Manager.clearReservation
  split
  next => exact eraseStart s engine
  next => exact refl s

theorem conclude (s : Manager) (id : SessionId) (status : SessionStatus)
    (error : Option AuthError) : s.Evolves (s.conclude id status error) := by
  unfold Manager.conclude
  split
  next => exact refl s
  next record hget =>
    split
    next => exact refl s
    next h =>
      have hs : s.Evolves (s.setRecord id { record with status, error }) :=
        setRecord (s.get_eq_some.mp hget).2 rfl rfl (.inr (.inl (not_not.mp h)))
      have hr : (s.setRecord id { record with status, error }).Evolves
          ((s.setRecord id { record with status, error }).releaseEngine record.engine id) :=
        of_eq rfl rfl rfl
      dsimp only
      split
      next => exact (hs.trans hr).trans (emit _ _)
      next => exact hs.trans hr

theorem endSubmission (s : Manager) (id : SessionId) : s.Evolves (s.endSubmission id) := by
  unfold Manager.endSubmission
  split
  next hr => exact setRecord hr rfl rfl (.inl rfl)
  next => exact refl s

theorem startRejects (s : Manager) (handle : HandleId) (rejection : Rejection) :
    s.Evolves (s.startRejects handle rejection).2 := by
  unfold Manager.startRejects
  split
  next => exact refl s
  next =>
    exact (of_eq rfl rfl rfl : s.Evolves { s with
      starts := update s.starts handle none
      startRejected := update s.startRejected handle true }).trans (clearReservation _ _ _)

theorem waitFulfilled (s : Manager) (id : SessionId) (result : AuthSubmitResult) :
    s.Evolves (s.waitFulfilled id result) := by
  unfold Manager.waitFulfilled
  split
  next record _ _ =>
    have hs : s.Evolves { s with waiting := update s.waiting id false } := of_eq rfl rfl rfl
    have hc := (hs.trans (storeCredential _ record.engine result.credential)).trans
      (conclude _ id .authorized none)
    dsimp only
    split
    next => exact hc.trans (emit _ _)
    next => exact hc
  next => exact refl s

theorem waitRejects (s : Manager) (id : SessionId) (rejection : Rejection) :
    s.Evolves (s.waitRejects id rejection) := by
  unfold Manager.waitRejects
  split
  next =>
    exact (of_eq rfl rfl rfl : s.Evolves { s with waiting := update s.waiting id false }).trans
      (conclude _ _ _ _)
  next => exact refl s

theorem submitSession (s : Manager) (engine : String) (id : SessionId) (input : String) :
    s.Evolves (s.submitSession engine id input).2 := by
  unfold Manager.submitSession
  split
  next => exact refl s
  next record h =>
    split; next => exact refl s
    split; next => exact refl s
    split; next => exact refl s
    split; next => exact refl s
    have hr := (s.get_eq_some.mp (Slots.requireSession_get h)).2
    have hs : s.Evolves (s.setRecord id { record with submitting := true }) :=
      setRecord hr rfl rfl (.inl rfl)
    exact hs.trans (of_eq rfl rfl rfl)

/-- A record that still decides is pending. -/
theorem pending_of_still {id : SessionId} {r : SessionRecord} (hr : s.records id = some r)
    (h : s.stillPending id = true) : r.status = .pending ∧ s.get id = some r := by
  unfold Manager.stillPending at h
  split at h
  next r' hget =>
    obtain rfl := Option.some.inj (hr.symm.trans (s.get_eq_some.mp hget).2)
    exact ⟨of_decide_eq_true h, hget⟩
  next => exact absurd h Bool.false_ne_true

theorem submitFulfilled (s : Manager) (call : CallId) (result : AuthSubmitResult) :
    s.Evolves (s.submitFulfilled call result).2 := by
  unfold Manager.submitFulfilled
  split
  next => exact refl s
  next frame _ =>
    have hs : s.Evolves { s with submits := update s.submits call none } := of_eq rfl rfl rfl
    dsimp only
    split
    next => exact hs
    next record hr =>
      split
      next => exact hs.trans (endSubmission _ _)
      next h =>
        obtain ⟨hp, -⟩ := pending_of_still (s := { s with submits := update s.submits call none })
          hr (by simpa using h)
        have hstored := hs.trans (storeCredential _ frame.engine result.credential)
        have hrecord : (Manager.storeCredential { s with submits := update s.submits call none }
            frame.engine result.credential).records frame.session = some record := by
          rw [storeCredential_records]
          exact hr
        have hset : s.Evolves (Manager.setRecord (Manager.storeCredential
            { s with submits := update s.submits call none } frame.engine result.credential)
            frame.session { record with status := .authorized }) :=
          hstored.trans (setRecord hrecord rfl rfl (.inr (.inl hp)))
        refine Evolves.trans ?_ (endSubmission _ _)
        exact hset.trans (of_eq rfl rfl rfl)

theorem submitRejects (H : s.Tracked) (call : CallId) (rejection : Rejection) :
    s.Evolves (s.submitRejects call rejection).2 := by
  unfold Manager.submitRejects
  split
  next => exact refl s
  next frame _ =>
    have hs : s.Evolves { s with submits := update s.submits call none } := of_eq rfl rfl rfl
    dsimp only
    split
    next => exact hs
    next record hr =>
      split
      next => exact hs.trans (endSubmission _ _)
      next =>
        have hr' : s.records record.sessionId = some record := by
          rw [(H.recordBelow hr).1]
          exact hr
        have hd : Evolves { s with submits := update s.submits call none }
            (Manager.dispose { s with submits := update s.submits call none } record .failed) :=
          dispose (s := { s with submits := update s.submits call none }) hr'
            (.inr (.inr (.inl rfl)))
        exact (hs.trans hd).trans (endSubmission _ _)

theorem cancelSession (H : s.Tracked) (engine : String) (id : SessionId) :
    s.Evolves (s.cancelSession engine id).2 := by
  unfold Manager.cancelSession
  split
  next => exact refl s
  next record h =>
    refine dispose (H.get_self (Slots.requireSession_get h)) ?_
    split
    next => exact .inr (.inr (.inr rfl))
    next => exact .inl rfl

theorem expire (H : s.Tracked) (id : SessionId) : s.Evolves (s.expire id) := by
  unfold Manager.expire
  split
  next =>
    have hs : s.Evolves { s with timers := update s.timers id false } := of_eq rfl rfl rfl
    have ht : Tracked { s with timers := update s.timers id false } :=
      H.congr rfl rfl rfl rfl rfl rfl rfl rfl
    dsimp only
    split
    next record h => exact hs.trans (dispose (ht.get_self h) (.inr (.inr (.inl rfl))))
    next => exact hs
  next => exact refl s

theorem resetSession (H : s.Tracked) (id : SessionId) : s.Evolves (s.resetSession id) := by
  unfold Manager.resetSession
  split
  next record h => exact dispose (H.get_self h) (.inr (.inr (.inr rfl)))
  next => exact refl s

theorem resetSessions (H : s.Tracked) : s.Evolves s.resetSessions := by
  have hs : s.Evolves ((List.range s.nextSession).foldl Manager.resetSession s) := by
    generalize List.range s.nextSession = ids
    induction ids generalizing s with
    | nil => exact refl s
    | cons id ids ih => exact (resetSession H id).trans (ih (H.resetSession id))
  unfold Manager.resetSessions
  dsimp only
  generalize (List.range s.nextSession).foldl Manager.resetSession s = s₁ at hs ⊢
  generalize s₁.starting.entries = entries
  induction entries generalizing s₁ with
  | nil => exact hs
  | cons entry entries ih => exact ih _ ((hs.trans (eraseStart s₁ entry.1)).trans (emit _ _))

end Evolves

/-! ## Attempts and their authority -/

variable (s : Manager)

/-- The attempt with this handle logs this engine in. -/
def attempts (engine : String) (handle : HandleId) : Bool :=
  (s.starts handle).any (fun frame => frame.engine = engine)
    || (List.range s.nextSession).any fun id => (s.records id).any fun record =>
      record.handle = handle && record.engine = engine

/-- The event takes the authority of the attempt with this handle. -/
def revokes (cfg : Config) (event : Event) (handle : HandleId) : Bool :=
  match event with
  | .createSession engine flow _ _ =>
    (selectFlow cfg engine flow).toBool && s.attempts engine handle
  | .cancelSession engine id =>
    match s.requireSession engine id with
    | .ok record => record.handle = handle
    | .error _ => false
  | .expire id => s.timers id && (s.get id).any fun record => record.handle = handle
  | .resetSessions => handle < s.nextHandle
  | _ => false

/-- The attempt whose `start()`, `submit()` or `wait()` settles in the event. -/
def delivered : Event → Option HandleId
  | .startFulfilled _ handle _ | .startRejects handle _ => (s.starts handle).map fun _ => handle
  | .submitFulfilled call _ | .submitRejects call _ =>
    (s.submits call).bind fun frame => (s.records frame.session).map (·.handle)
  | .waitFulfilled id _ | .waitRejects id _ =>
    if s.waiting id then (s.records id).map (·.handle) else none
  | _ => none

/-- No record is registered on the way to the later state, and nothing is done that takes
authority. -/
structure Powerless (s s' : Manager) : Prop where
  registers : ∀ {id}, s'.byId id = true → s.byId id = true
  grants : ∀ effect ∈ s'.effects.drop s.effects.length, effect.grants = false

section

variable {s s' : Manager}

theorem Powerless.of_eq (hbyId : s'.byId = s.byId) {more : List Effect}
    (heffects : s'.effects = s.effects ++ more) (hmore : ∀ effect ∈ more, effect.grants = false) :
    s.Powerless s' where
  registers h := hbyId ▸ h
  grants := by
    rw [heffects, List.drop_left]
    exact hmore

theorem Powerless.quiet (hbyId : s'.byId = s.byId) (heffects : s'.effects = s.effects) :
    s.Powerless s' :=
  Powerless.of_eq hbyId (heffects.trans (List.append_nil _).symm) (List.forall_mem_nil _)

end

end Manager

/-- The manager, and which attempts are stale. -/
structure Watch where
  manager : Manager
  stale : HandleId → Bool

namespace Watch

def initial : Watch := ⟨.initial, fun _ => false⟩

def step (cfg : Config) (w : Watch) (event : Event) : Watch :=
  ⟨w.manager.step cfg event, fun handle => w.stale handle || w.manager.revokes cfg event handle⟩

def machine (cfg : Config) : Machine Watch Event := ⟨initial, step cfg⟩

/-- A stale attempt that settles in this event does nothing of its own. -/
def StalePowerless (cfg : Config) (w : Watch) (event : Event) : Prop :=
  ∀ handle, w.manager.delivered event = some handle → w.stale handle = true →
    w.manager.Powerless (w.manager.step cfg event)

/-- A stale `start()` fulfills only while its engine is taken, a stale `wait()` only without a
credential. -/
def Careful (w : Watch) : Event → Prop
  | .startFulfilled _ handle _ => w.stale handle = true → ∀ frame,
      w.manager.starts handle = some frame →
        (w.manager.starting.lookup frame.engine).isSome = true ∨
          (w.manager.byEngine frame.engine).isSome = true
  | .waitFulfilled id result => w.manager.waiting id = true → ∀ record,
      w.manager.records id = some record → w.stale record.handle = true →
        result.credential = none
  | _ => True

/-- The start of `handle` fulfills where its engine is free. -/
def Registers (w : Watch) (handle : HandleId) (frame : StartFrame) : Prop :=
  let s := Manager.clearReservation
    { w.manager with starts := update w.manager.starts handle none } frame.engine handle
  ((s.starting.lookup frame.engine).isSome || (s.byEngine frame.engine).isSome) = false

/-- A stale attempt has no pending record and no reservation. -/
structure Sound (w : Watch) : Prop where
  slots : w.manager.Slots none
  tracked : w.manager.Tracked
  staleRecord : ∀ {id r}, w.manager.records id = some r → w.stale r.handle = true →
    r.status ≠ .pending
  staleStart : ∀ {e res}, w.manager.starting.lookup e = some res → w.stale res.handle = false
  staleBelow : ∀ {handle}, w.stale handle = true → handle < w.manager.nextHandle

namespace Sound

variable {w : Watch} {s' : Manager}

/-- A step that only settles things takes nobody's authority. -/
theorem settle (H : w.Sound) (hslots : s'.Slots none) (htracked : s'.Tracked)
    (hev : w.manager.Evolves s') : Sound ⟨s', w.stale⟩ where
  slots := hslots
  tracked := htracked
  staleRecord {id r'} hr' hstale := by
    obtain ⟨r, hr, hhandle, -, hstatus⟩ := hev.records hr'
    exact fun hp => H.staleRecord hr (hhandle ▸ hstale) (hstatus.pending hp)
  staleStart hres := H.staleStart (hev.starting hres)
  staleBelow h := hev.nextHandle ▸ H.staleBelow h

theorem revoke (H : w.Sound) {more : HandleId → Bool}
    (hrecord : ∀ {id r}, w.manager.records id = some r → more r.handle = true →
      r.status ≠ .pending)
    (hstart : ∀ {e res}, w.manager.starting.lookup e = some res → more res.handle = false)
    (hbelow : ∀ {handle}, more handle = true → handle < w.manager.nextHandle) :
    Sound ⟨w.manager, fun handle => w.stale handle || more handle⟩ where
  slots := H.slots
  tracked := H.tracked
  staleRecord hr h := (Bool.or_eq_true_iff.mp h).elim (H.staleRecord hr) (hrecord hr)
  staleStart hres := Bool.or_eq_false_iff.mpr ⟨H.staleStart hres, hstart hres⟩
  staleBelow h := (Bool.or_eq_true_iff.mp h).elim H.staleBelow hbelow

/-- The attempt whose record is dropped. -/
theorem revokeRecord (H : w.Sound) {r : SessionRecord}
    (hr : w.manager.records r.sessionId = some r) (hp : r.status ≠ .pending)
    {more : HandleId → Bool} (hmore : ∀ {handle}, more handle = true → r.handle = handle) :
    Sound ⟨w.manager, fun handle => w.stale handle || more handle⟩ := by
  refine H.revoke (fun {id r'} hr' h => ?_) (fun {e res} hres => ?_) fun {handle} h => ?_
  · obtain rfl := H.tracked.oneRecord hr hr' (hmore h)
    obtain rfl := Option.some.inj (hr.symm.trans hr')
    exact hp
  · refine Bool.eq_false_of_not_eq_true fun h => ?_
    obtain ⟨f, hf, -⟩ := H.tracked.reserved hres
    rw [← hmore h, (H.tracked.recorded hr).1] at hf
    exact nomatch hf
  · exact hmore h ▸ (H.tracked.recorded hr).2

theorem attempts_record {engine : String} {handle : HandleId}
    (h : w.manager.attempts engine handle = true) :
    (∃ f, w.manager.starts handle = some f ∧ f.engine = engine) ∨
      ∃ id r, w.manager.records id = some r ∧ r.handle = handle ∧ r.engine = engine := by
  unfold Manager.attempts at h
  obtain h | h := Bool.or_eq_true_iff.mp h
  · obtain ⟨f, hf, he⟩ := (Option.any_eq_true _ _).mp h
    exact .inl ⟨f, hf, of_decide_eq_true he⟩
  · obtain ⟨id, -, hid⟩ := List.any_eq_true.mp h
    obtain ⟨r, hr, he⟩ := (Option.any_eq_true _ _).mp hid
    obtain ⟨h₁, h₂⟩ := Bool.and_eq_true_iff.mp he
    exact .inr ⟨id, r, hr, of_decide_eq_true h₁, of_decide_eq_true h₂⟩

/-- The attempts of an engine are below the handle of a new one. -/
theorem attempts_lt (H : w.Sound) {engine : String} {handle : HandleId}
    (h : w.manager.attempts engine handle = true) : handle < w.manager.nextHandle := by
  obtain ⟨f, hf, -⟩ | ⟨id, r, hr, rfl, -⟩ := attempts_record h
  · exact H.tracked.started hf
  · exact (H.tracked.recorded hr).2

/-- A new attempt at an engine makes the earlier ones stale: none of them is pending any more, and
the reservation is its own. -/
theorem supersede (H : w.Sound) {s₁ : Manager} (hev : w.manager.Evolves s₁) {engine : String}
    {generation : Option String} (hslots : s'.Slots none) (htracked : s'.Tracked)
    (hrecords : s'.records = s₁.records) (hnext : s'.nextHandle = s₁.nextHandle + 1)
    (hstarting : s'.starting = s₁.starting.insert engine ⟨s₁.nextHandle, generation⟩) :
    Sound ⟨s', fun handle => w.stale handle || w.manager.attempts engine handle⟩ := by
  have below : ∀ {handle}, w.stale handle || w.manager.attempts engine handle → handle < s₁.nextHandle := by
    intro handle h
    rw [hev.nextHandle]
    exact (Bool.or_eq_true_iff.mp h).elim H.staleBelow H.attempts_lt
  refine ⟨hslots, htracked, fun {id r'} hr' hstale hp => ?_, fun {e res} hres => ?_,
    fun {handle} h => hnext ▸ Nat.lt_succ_of_lt (below h)⟩
  · obtain ⟨r, hr, hhandle, hengine, hstatus⟩ := hev.records (hrecords ▸ hr')
    obtain h | h := Bool.or_eq_true_iff.mp hstale
    · exact H.staleRecord hr (hhandle ▸ h) (hstatus.pending hp)
    -- A pending record of the engine would be the one `byEngine` names, but that is free now.
    · have hre : r'.engine = engine := by
        obtain ⟨f, hf, -⟩ | ⟨id', r₁, hr₁, hh, he⟩ := attempts_record h
        · rw [hhandle, (H.tracked.recorded hr).1] at hf
          exact nomatch hf
        · obtain rfl := H.tracked.oneRecord hr hr₁ (hhandle.symm.trans hh.symm)
          obtain rfl := Option.some.inj (hr.symm.trans hr₁)
          exact hengine.trans he
      have hfree : s'.byEngine engine = none :=
        hslots.exclusive (by rw [hstarting]; exact AList.lookup_insert _)
      exact Option.some_ne_none _ ((hslots.pendingLive hr' hp).2.symm.trans (hre ▸ hfree))
  · refine Bool.eq_false_of_not_eq_true fun h => ?_
    rw [hstarting] at hres
    by_cases he : e = engine
    · subst he
      rw [AList.lookup_insert] at hres
      obtain rfl := Option.some.inj hres
      exact Nat.lt_irrefl _ (below h)
    · rw [AList.lookup_insert_ne he] at hres
      have hold := hev.starting hres
      obtain ⟨f, hf, hfe⟩ := H.tracked.reserved hold
      obtain h | h := Bool.or_eq_true_iff.mp h
      · exact Bool.false_ne_true ((H.staleStart hold).symm.trans h)
      · obtain ⟨f', hf', he'⟩ | ⟨id, r, hr, hh, -⟩ := attempts_record h
        · obtain rfl := Option.some.inj (hf.symm.trans hf')
          exact he (hfe.symm.trans he')
        · rw [← hh, (H.tracked.recorded hr).1] at hf
          exact nomatch hf

theorem createSession (H : w.Sound) (cfg : Config) (engine : String) (flow : Option String)
    (options : SessionOptions) (context : Option String) :
    (w.step cfg (.createSession engine flow options context)).Sound := by
  have hslots := H.slots.createSession cfg engine flow options context
  have htracked := H.tracked.createSession cfg engine flow options context
  show Sound ⟨(w.manager.createSession cfg engine flow options context).2, fun handle =>
    w.stale handle || ((selectFlow cfg engine flow).toBool && w.manager.attempts engine handle)⟩
  unfold Manager.createSession at hslots htracked ⊢
  revert hslots htracked
  rcases selectFlow cfg engine flow with error | flowDescriptor <;> intro hslots htracked
  · simp only [Except.toBool, Bool.false_and, Bool.or_false]
    exact H
  · have hev := (Evolves.supersedeSession H.tracked engine).trans
      (Evolves.supersedeStart (w.manager.supersedeSession engine) engine)
    exact H.supersede hev hslots htracked rfl rfl rfl

/-- A stale attempt has lost its reservation, so it has none to give up. -/
theorem clearReservation_of_stale (H : w.Sound) {handle : HandleId} (h : w.stale handle = true)
    (engine : String) : w.manager.ownsSlot engine handle = false := by
  refine Bool.eq_false_of_not_eq_true fun howns => ?_
  obtain ⟨res, hres, rfl⟩ := Option.map_eq_some_iff.mp (of_decide_eq_true howns)
  exact Bool.false_ne_true ((H.staleStart hres).symm.trans h)

/-- Registering a record of an attempt that still has its authority. -/
theorem register (H : w.Sound) {s₁ : Manager} (hev : w.manager.Evolves s₁) {r : SessionRecord}
    (hslots : (s₁.register r).Slots none) (htracked : (s₁.register r).Tracked)
    (h : w.stale r.handle = false) : Sound ⟨s₁.register r, w.stale⟩ := by
  have hrecords : (s₁.register r).records = update s₁.records r.sessionId (some r) := by
    unfold Manager.register
    split <;> rfl
  have hstarting : (s₁.register r).starting = s₁.starting := by
    unfold Manager.register
    split <;> rfl
  have hhandle : (s₁.register r).nextHandle = s₁.nextHandle := by
    unfold Manager.register
    split <;> rfl
  refine ⟨hslots, htracked, fun {id r'} hr' hstale => ?_, fun {e res} hres => ?_,
    fun {handle} h => ?_⟩
  · rw [hrecords, update_apply] at hr'
    split at hr'
    next =>
      obtain rfl := Option.some.inj hr'
      exact absurd (h.symm.trans hstale) Bool.false_ne_true
    next =>
      obtain ⟨r₀, hr₀, hh, -, hstatus⟩ := hev.records hr'
      exact fun hp => H.staleRecord hr₀ (hh ▸ hstale) (hstatus.pending hp)
  · rw [hstarting] at hres
    exact H.staleStart (hev.starting hres)
  · rw [hhandle, hev.nextHandle]
    exact H.staleBelow h

/-- For a stale attempt it does so exactly where the engine is free already. -/
theorem registers_iff (H : w.Sound) {handle : HandleId} (h : w.stale handle = true)
    (frame : StartFrame) : w.Registers handle frame ↔
      ¬((w.manager.starting.lookup frame.engine).isSome = true ∨
        (w.manager.byEngine frame.engine).isSome = true) := by
  unfold Registers Manager.clearReservation
  have howns : Manager.ownsSlot { w.manager with starts := update w.manager.starts handle none }
      frame.engine handle = false := H.clearReservation_of_stale h frame.engine
  rw [howns]
  simp [not_or]

/-- A start that fulfills carefully registers only an attempt that still has its authority. -/
theorem startFulfilled (H : w.Sound) (cfg : Config) (now : Nat) (handle : HandleId)
    (started : AuthStartResult) (hcareful : w.Careful (.startFulfilled now handle started)) :
    Sound ⟨(w.manager.startFulfilled cfg now handle started).2, w.stale⟩ := by
  have hslots := H.slots.startFulfilled cfg now handle started
  have htracked := H.tracked.startFulfilled cfg now handle started
  unfold Manager.startFulfilled at hslots htracked ⊢
  revert hslots htracked
  split
  next => exact fun _ _ => H
  next frame hframe =>
    have hev : w.manager.Evolves (Manager.clearReservation
        { w.manager with starts := update w.manager.starts handle none } frame.engine handle) :=
      (Evolves.of_eq rfl rfl rfl : w.manager.Evolves
        { w.manager with starts := update w.manager.starts handle none }).trans
        (Evolves.clearReservation _ _ _)
    dsimp only
    split
    next => exact fun hslots htracked => H.settle hslots htracked (hev.trans (Evolves.emit _ _))
    next hfree =>
      refine fun hslots htracked => H.register hev hslots htracked ?_
      refine Bool.eq_false_of_not_eq_true fun hstale => ?_
      exact (H.registers_iff hstale frame).mp (Bool.eq_false_of_not_eq_true hfree)
        (hcareful hstale frame hframe)

theorem cancelSession (H : w.Sound) (cfg : Config) (engine : String) (id : SessionId) :
    (w.step cfg (.cancelSession engine id)).Sound := by
  have hs := H.settle (H.slots.cancelSession engine id) (H.tracked.cancelSession engine id)
    (Evolves.cancelSession H.tracked engine id)
  show Sound ⟨(w.manager.cancelSession engine id).2, fun handle =>
    w.stale handle || w.manager.revokes cfg (.cancelSession engine id) handle⟩
  unfold Manager.revokes
  unfold Manager.cancelSession at hs ⊢
  revert hs
  split
  next error herror =>
    intro hs
    simp only [herror, Bool.or_false]
    exact hs
  next record hrecord =>
    intro hs
    refine hs.revokeRecord (r := { record with
      status := if record.status = .pending then .cancelled else record.status })
      (update_self ..) ?_ fun {handle} h => ?_
    · dsimp only
      split
      next => exact fun h => SessionStatus.noConfusion h
      next h => exact h
    · dsimp only at h
      rw [hrecord] at h
      exact of_decide_eq_true h

theorem expire (H : w.Sound) (cfg : Config) (id : SessionId) :
    (w.step cfg (.expire id)).Sound := by
  have hs := H.settle (H.slots.expire id) (H.tracked.expire id) (Evolves.expire H.tracked id)
  show Sound ⟨w.manager.expire id, fun handle =>
    w.stale handle || (w.manager.timers id && (w.manager.get id).any fun r => r.handle = handle)⟩
  unfold Manager.expire at hs ⊢
  revert hs
  split
  next htimer =>
    dsimp only
    split
    next record hget =>
      intro hs
      have hget' : w.manager.get id = some record := hget
      refine hs.revokeRecord (r := { record with status := .failed }) (update_self ..)
        (fun h => SessionStatus.noConfusion h) fun {handle} h => ?_
      rw [hget'] at h
      exact of_decide_eq_true (Bool.and_eq_true_iff.mp h).2
    next hget =>
      intro hs
      have hget' : w.manager.get id = none := hget
      rw [hget']
      simpa using hs
  next htimer => simp [htimer]

/-- A reset drops every session of `byId`. -/
theorem resetSession_byId {s : Manager} (H : s.Slots none) (id id' : SessionId) :
    (s.resetSession id).byId id' = (s.byId id' && decide (id' ≠ id)) := by
  unfold Manager.resetSession
  split
  next record hget =>
    obtain ⟨rfl, -⟩ := H.recordIds (s.get_eq_some.mp hget).2
    rw [dispose_byId, update_apply]
    split
    next he => simp [he]
    next he => simp [he]
  next hget =>
    by_cases he : id' = id
    · subst he
      rw [decide_eq_false (by simp), Bool.and_false]
      refine Bool.eq_false_of_not_eq_true fun h => ?_
      obtain ⟨r, hr⟩ := H.byIdRecord h
      exact Option.some_ne_none r ((s.get_eq_some.mpr ⟨h, hr⟩).symm.trans hget)
    · simp [he]

theorem resetRecords_byId {s : Manager} (H : s.Slots none) {ids : List SessionId} {id : SessionId}
    (h : s.byId id = true → id ∈ ids) : (ids.foldl Manager.resetSession s).byId id = false := by
  induction ids generalizing s with
  | nil => exact Bool.eq_false_of_not_eq_true fun hb => List.not_mem_nil (h hb)
  | cons id' ids ih =>
    refine ih (H.resetSession id') fun hb => ?_
    rw [resetSession_byId H] at hb
    obtain ⟨hb, hne⟩ := Bool.and_eq_true_iff.mp hb
    exact (List.mem_cons.mp (h hb)).resolve_left (of_decide_eq_true hne)

theorem resetStarts_lookup {s : Manager} {entries : List (Sigma fun _ : String => Reservation)}
    {e : String} (h : s.starting.lookup e = none ∨ e ∈ entries.keys) :
    (entries.foldl Manager.resetStart s).starting.lookup e = none := by
  induction entries generalizing s with
  | nil => exact h.resolve_right List.not_mem_nil
  | cons entry entries ih =>
    refine ih ?_
    by_cases he : e = entry.1
    · subst he
      exact .inl (AList.lookup_erase _ _)
    · refine h.imp (fun h => ?_) fun h => (List.mem_cons.mp h).resolve_left he
      exact (AList.lookup_erase_ne he).trans h

theorem resetSessions (H : w.Sound) (cfg : Config) : (w.step cfg .resetSessions).Sound := by
  have hslots := H.slots.resetSessions
  have hs := H.settle hslots H.tracked.resetSessions (Evolves.resetSessions H.tracked)
  have hbyId : ∀ id, w.manager.resetSessions.byId id = false := by
    intro id
    unfold Manager.resetSessions
    dsimp only
    have hrecords : ((List.range w.manager.nextSession).foldl Manager.resetSession w.manager).byId
        id = false := by
      refine resetRecords_byId H.slots fun hb => List.mem_range.mpr ?_
      obtain ⟨r, hr⟩ := H.slots.byIdRecord hb
      exact (H.slots.recordIds hr).2
    generalize (List.range w.manager.nextSession).foldl Manager.resetSession w.manager = s₁
      at hrecords
    generalize s₁.starting.entries = entries
    induction entries generalizing s₁ with
    | nil => exact hrecords
    | cons entry entries ih => exact ih _ hrecords
  have hstarting : ∀ e, w.manager.resetSessions.starting.lookup e = none := by
    intro e
    unfold Manager.resetSessions
    dsimp only
    generalize (List.range w.manager.nextSession).foldl Manager.resetSession w.manager = s₁
    refine resetStarts_lookup (or_iff_not_imp_left.mpr fun h => ?_)
    exact AList.lookup_isSome.mp (Option.isSome_iff_ne_none.mpr h)
  show Sound ⟨w.manager.resetSessions, fun handle =>
    w.stale handle || decide (handle < w.manager.nextHandle)⟩
  refine hs.revoke (fun {id r} hr _ hp => ?_) (fun {e res} hres => ?_) fun {handle} h => ?_
  · exact Bool.false_ne_true ((hbyId id).symm.trans (hslots.pendingLive hr hp).1)
  · exact absurd (hres.symm.trans (hstarting e)) (Option.some_ne_none res)
  · exact (Evolves.resetSessions H.tracked).nextHandle ▸ of_decide_eq_true h

theorem step (H : w.Sound) (cfg : Config) {event : Event} (hcareful : w.Careful event) :
    (w.step cfg event).Sound := by
  have same : ∀ {s' : Manager}, Sound ⟨s', w.stale⟩ →
      Sound ⟨s', fun handle => w.stale handle || false⟩ := by
    intro s' h
    simpa only [Bool.or_false] using h
  cases event with
  | createSession engine flow options context => exact H.createSession ..
  | startFulfilled now handle started => exact same (H.startFulfilled cfg now handle started hcareful)
  | startRejects handle rejection =>
    exact same (H.settle (H.slots.startRejects ..) (H.tracked.startRejects ..)
      (Evolves.startRejects ..))
  | submitSession engine id input =>
    exact same (H.settle (H.slots.submitSession ..) (H.tracked.submitSession ..)
      (Evolves.submitSession ..))
  | submitFulfilled call result =>
    exact same (H.settle (H.slots.submitFulfilled ..) (H.tracked.submitFulfilled ..)
      (Evolves.submitFulfilled ..))
  | submitRejects call rejection =>
    exact same (H.settle (H.slots.submitRejects ..) (H.tracked.submitRejects ..)
      (Evolves.submitRejects H.tracked ..))
  | waitFulfilled id result =>
    exact same (H.settle (H.slots.waitFulfilled ..) (H.tracked.waitFulfilled ..)
      (Evolves.waitFulfilled ..))
  | waitRejects id rejection =>
    exact same (H.settle (H.slots.waitRejects ..) (H.tracked.waitRejects ..)
      (Evolves.waitRejects ..))
  | cancelSession engine id => exact H.cancelSession ..
  | expire id => exact H.expire cfg id
  | resetSessions => exact H.resetSessions cfg

theorem initial : Watch.initial.Sound where
  slots := Slots.initial
  tracked := Tracked.initial
  staleRecord _ h := absurd h Bool.false_ne_true
  staleStart _ := rfl
  staleBelow h := absurd h Bool.false_ne_true

end Sound

/-! ## Late settlements -/

section Settlements

variable {w : Watch} {s s' : Manager} {cfg : Config}

theorem clearReservation_quiet (engine : String) (handle : HandleId) :
    (s.clearReservation engine handle).byId = s.byId ∧
      (s.clearReservation engine handle).effects = s.effects := by
  unfold Manager.clearReservation
  split <;> exact ⟨rfl, rfl⟩

/-- A start that fulfills registers its session if its engine is free, and else gives up. -/
theorem startFulfilled_powerless (H : w.manager.Slots none) {now : Nat} {handle : HandleId}
    {started : AuthStartResult} {frame : StartFrame} (hframe : w.manager.starts handle = some frame) :
    w.manager.Powerless (w.manager.startFulfilled cfg now handle started).2 ↔
      ¬w.Registers handle frame := by
  unfold Manager.startFulfilled Registers
  rw [hframe]
  dsimp only
  have hq := clearReservation_quiet
    (s := { w.manager with starts := update w.manager.starts handle none }) frame.engine handle
  have hn : (Manager.clearReservation { w.manager with starts := update w.manager.starts handle none }
      frame.engine handle).nextSession = w.manager.nextSession := by
    unfold Manager.clearReservation
    split <;> rfl
  generalize Manager.clearReservation { w.manager with starts := update w.manager.starts handle none }
    frame.engine handle = s₁ at *
  split
  next hbusy =>
    have hcancel : (s₁.emit (.cancel handle)).effects = w.manager.effects ++ [.cancel handle] :=
      congrArg (· ++ [Effect.cancel handle]) hq.2
    refine iff_of_true (Powerless.of_eq hq.1 hcancel ?_) ?_
    · simp [Effect.grants]
    · rw [hbusy]
      exact fun h => Bool.false_ne_true h.symm
  next hfree =>
    refine iff_of_false (fun h => ?_) (not_not.mpr (Bool.eq_false_of_not_eq_true hfree))
    have hnew : (s₁.register (s₁.newRecord cfg now handle frame started)).byId s₁.nextSession =
        true := by
      unfold Manager.register
      split <;> exact update_self ..
    obtain ⟨r, hr⟩ := H.byIdRecord (h.registers hnew)
    exact absurd (hn ▸ (H.recordIds hr).2) (Nat.lt_irrefl _)

/-- A record that is not pending is not concluded again. -/
theorem conclude_of_not_pending {id : SessionId} {r : SessionRecord} (hr : s.records id = some r)
    (hp : r.status ≠ .pending) (status : SessionStatus) (error : Option AuthError) :
    s.conclude id status error = s := by
  unfold Manager.conclude
  split
  next => rfl
  next r' hget =>
    obtain rfl := Option.some.inj (hr.symm.trans (s.get_eq_some.mp hget).2)
    exact if_pos hp

/-- A late `wait()` stores the credential it brings, whatever the record says, and no more. -/
theorem waitFulfilled_late (H : w.manager.Tracked) {id : SessionId} {result : AuthSubmitResult}
    {r : SessionRecord} (hw : w.manager.waiting id = true) (hr : w.manager.records id = some r)
    (hp : r.status ≠ .pending) : w.manager.waitFulfilled id result =
      Manager.storeCredential { w.manager with waiting := update w.manager.waiting id false }
        r.engine result.credential := by
  obtain ⟨r', hr', -, hauthorized⟩ := H.waited hw
  obtain rfl := Option.some.inj (hr.symm.trans hr')
  have hstored : (Manager.storeCredential { w.manager with waiting := update w.manager.waiting id false }
      r.engine result.credential).records id = some r := by
    rw [storeCredential_records]
    exact hr
  unfold Manager.waitFulfilled
  rw [hw, hr]
  dsimp only
  rw [conclude_of_not_pending hstored hp, if_neg]
  rw [hstored]
  exact fun h => hauthorized (Option.some.inj h)

theorem waitFulfilled_powerless (H : w.manager.Tracked) {id : SessionId}
    {result : AuthSubmitResult} {r : SessionRecord} (hw : w.manager.waiting id = true)
    (hr : w.manager.records id = some r) (hp : r.status ≠ .pending) :
    w.manager.Powerless (w.manager.waitFulfilled id result) ↔ result.credential = none := by
  rw [waitFulfilled_late H hw hr hp]
  rcases result with ⟨_ | credential⟩
  · exact iff_of_true (Powerless.quiet rfl rfl) rfl
  · refine iff_of_false (fun h => ?_) (Option.some_ne_none credential)
    have heffects : (Manager.storeCredential
        { w.manager with waiting := update w.manager.waiting id false } r.engine
        (some credential)).effects =
        w.manager.effects ++ ([.setCredential r.engine credential] ++ [.notifyCredentialChange]) :=
      List.append_assoc ..
    have hgrants := h.grants (.setCredential r.engine credential)
    rw [heffects, List.drop_left] at hgrants
    exact Bool.false_ne_true (hgrants List.mem_cons_self).symm

theorem waitRejects_powerless {id : SessionId} {rejection : Rejection} {r : SessionRecord}
    (hr : w.manager.records id = some r) (hp : r.status ≠ .pending) :
    w.manager.Powerless (w.manager.waitRejects id rejection) := by
  unfold Manager.waitRejects
  split
  next =>
    rw [conclude_of_not_pending (s := { w.manager with waiting := update w.manager.waiting id false })
      hr hp]
    exact Powerless.quiet rfl rfl
  next => exact Powerless.quiet rfl rfl

theorem endSubmission_quiet (id : SessionId) :
    (s.endSubmission id).byId = s.byId ∧ (s.endSubmission id).effects = s.effects := by
  unfold Manager.endSubmission
  split <;> exact ⟨rfl, rfl⟩

theorem stillPending_of_not_pending {id : SessionId} {r : SessionRecord}
    (hr : s.records id = some r) (hp : r.status ≠ .pending) : s.stillPending id = false :=
  Bool.eq_false_of_not_eq_true fun h => hp (Evolves.pending_of_still hr h).1

/-- A late `submit()` only clears the flag of its record. -/
theorem submit_powerless {call : CallId} {frame : SubmitFrame} {r : SessionRecord}
    (hframe : w.manager.submits call = some frame)
    (hr : w.manager.records frame.session = some r) (hp : r.status ≠ .pending) :
    (∀ result, w.manager.Powerless (w.manager.submitFulfilled call result).2) ∧
      ∀ rejection, w.manager.Powerless (w.manager.submitRejects call rejection).2 := by
  have hstill : Manager.stillPending { w.manager with submits := update w.manager.submits call none }
      frame.session = false := stillPending_of_not_pending hr hp
  have hq := endSubmission_quiet (s := { w.manager with submits := update w.manager.submits call none })
    frame.session
  refine ⟨fun result => ?_, fun rejection => ?_⟩
  · unfold Manager.submitFulfilled
    rw [hframe]
    dsimp only
    rw [hr]
    dsimp only
    rw [hstill]
    exact Powerless.quiet hq.1 hq.2
  · unfold Manager.submitRejects
    rw [hframe]
    dsimp only
    rw [hr]
    dsimp only
    rw [hstill]
    exact Powerless.quiet hq.1 hq.2

end Settlements

/-- In a sound state, what a stale attempt delivers is powerless if and only if it is careful. -/
theorem Sound.stalePowerless_iff {w : Watch} (H : w.Sound) (cfg : Config) (event : Event) :
    w.StalePowerless cfg event ↔ w.Careful event := by
  unfold StalePowerless Careful
  cases event with
  | createSession | submitSession | cancelSession | expire | resetSessions =>
    exact iff_of_true (fun _ h => absurd h.symm (Option.some_ne_none _)) trivial
  | startFulfilled now handle started =>
    show (∀ h, (w.manager.starts handle).map (fun _ => handle) = some h → _ → _) ↔ _
    refine ⟨fun h hstale frame hframe => ?_, fun h handle' hdelivered hstale => ?_⟩
    · have hp := h handle (by rw [hframe]; rfl) hstale
      exact not_not.mp (mt (H.registers_iff hstale frame).mpr
        ((startFulfilled_powerless H.slots hframe).mp hp))
    · obtain ⟨frame, hframe, rfl⟩ := Option.map_eq_some_iff.mp hdelivered
      refine (startFulfilled_powerless H.slots hframe).mpr fun hreg => ?_
      exact (H.registers_iff hstale frame).mp hreg (h hstale frame hframe)
  | startRejects handle rejection =>
    refine iff_of_true (fun _ _ _ => ?_) trivial
    show w.manager.Powerless (w.manager.startRejects handle rejection).2
    unfold Manager.startRejects
    split
    next => exact Powerless.quiet rfl rfl
    next frame _ =>
      have hq := clearReservation_quiet (s := { w.manager with
        starts := update w.manager.starts handle none
        startRejected := update w.manager.startRejected handle true }) frame.engine handle
      exact Powerless.quiet hq.1 hq.2
  | submitFulfilled call result =>
    refine iff_of_true (fun handle hdelivered hstale => ?_) trivial
    obtain ⟨frame, hframe, hsession⟩ := Option.bind_eq_some_iff.mp hdelivered
    obtain ⟨r, hr, rfl⟩ := Option.map_eq_some_iff.mp hsession
    exact (submit_powerless hframe hr (H.staleRecord hr hstale)).1 result
  | submitRejects call rejection =>
    refine iff_of_true (fun handle hdelivered hstale => ?_) trivial
    obtain ⟨frame, hframe, hsession⟩ := Option.bind_eq_some_iff.mp hdelivered
    obtain ⟨r, hr, rfl⟩ := Option.map_eq_some_iff.mp hsession
    exact (submit_powerless hframe hr (H.staleRecord hr hstale)).2 rejection
  | waitFulfilled id result =>
    show (∀ h, (if w.manager.waiting id then _ else none) = some h → _ → _) ↔ _
    refine ⟨fun h hw r hr hstale => ?_, fun h handle hdelivered hstale => ?_⟩
    · have hp := h r.handle (by rw [if_pos hw, hr]; rfl) hstale
      exact (waitFulfilled_powerless H.tracked hw hr (H.staleRecord hr hstale)).mp hp
    · split at hdelivered
      next hw =>
        obtain ⟨r, hr, rfl⟩ := Option.map_eq_some_iff.mp hdelivered
        exact (waitFulfilled_powerless H.tracked hw hr (H.staleRecord hr hstale)).mpr
          (h hw r hr hstale)
      next => exact absurd hdelivered.symm (Option.some_ne_none _)
  | waitRejects id rejection =>
    refine iff_of_true (fun handle hdelivered hstale => ?_) trivial
    replace hdelivered : (if w.manager.waiting id then _ else none) = some handle := hdelivered
    split at hdelivered
    next =>
      obtain ⟨r, hr, rfl⟩ := Option.map_eq_some_iff.mp hdelivered
      exact waitRejects_powerless hr (H.staleRecord hr hstale)
    next => exact absurd hdelivered.symm (Option.some_ne_none _)

/-- In every run, every settlement of a stale attempt is powerless if and only if every step is
careful. -/
theorem staleHasNoAuthority (cfg : Config) (events : List Event) :
    (machine cfg).Along (StalePowerless cfg) initial events ↔
      (machine cfg).Along Careful initial events :=
  Machine.along_congr (I := Sound) (fun _ event H => H.stalePowerless_iff cfg event)
    (fun _ _ hcareful H => H.step cfg hcareful) Sound.initial

/-! ## An attempt that comes back -/

def pasteOnly : Config where
  resolveEngine engine := some ⟨engine, [{ flow := .pasteCode }]⟩
  trustsCompletionCallers := false
  authSessionTtlMs := 600000

/-- A second attempt supersedes the first one, registers and is cancelled; then the `start()` of
the first one fulfills. -/
def comeback : List Event :=
  [.createSession "claude" none {} none, .createSession "claude" none {} none,
    .startFulfilled 0 1 ⟨none, none, "open the URL"⟩, .cancelSession "claude" 0,
    .startFulfilled 0 0 ⟨none, none, "open the URL"⟩]

/-- The first attempt registers its session although it was superseded. -/
theorem superseded_start_registers :
    ¬(machine pasteOnly).Along (StalePowerless pasteOnly) initial comeback := by
  intro h
  have hlast := h.2.2.2.2.1 0 rfl rfl
  have hbefore := @Powerless.registers _ _ hlast 1 rfl
  exact Bool.false_ne_true hbefore

end Watch

end CliProxy.Auth
