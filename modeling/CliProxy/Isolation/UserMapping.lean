import CliProxy.Isolation.LinuxUserProvisioner

/-! # What the mapping of users keeps

One invariant (`Mapped`) ties the calls in flight to the state file: the state lock has one holder,
what the holder will write is the file with the record of its own fingerprint changed, and what any
other call remembers of its record is still in the file. -/

namespace CliProxy.Isolation

open Function (update update_apply update_self update_of_ne)

/-- The same OS account, made at the same time. -/
structure SameUser (r r' : UserRecord) : Prop where
  accountName : r'.accountName = r.accountName
  home : r'.home = r.home
  createdAt : r'.createdAt = r.createdAt

theorem SameUser.refl (r : UserRecord) : SameUser r r := ⟨rfl, rfl, rfl⟩

theorem SameUser.trans {a b c : UserRecord} (H : SameUser a b) (H' : SameUser b c) : SameUser a c :=
  ⟨H'.accountName.trans H.accountName, H'.home.trans H.home, H'.createdAt.trans H.createdAt⟩

/-- No record is lost, none changes its user, and a ready one does not change at all. -/
def Extends (users users' : Users) : Prop :=
  ∀ fp r, users.lookup fp = some r →
    ∃ r', users'.lookup fp = some r' ∧ SameUser r r' ∧ (r.isPending = false → r' = r)

theorem Extends.refl (users : Users) : Extends users users :=
  fun _ r h => ⟨r, h, .refl r, fun _ => rfl⟩

theorem Extends.trans {a b c : Users} (H : Extends a b) (H' : Extends b c) : Extends a c := by
  intro fp r hr
  obtain ⟨r', hr', hsame, hready⟩ := H fp r hr
  obtain ⟨r'', hr'', hsame', hready'⟩ := H' fp r' hr'
  refine ⟨r'', hr'', hsame.trans hsame', fun h => ?_⟩
  obtain rfl := hready h
  exact hready' h

/-- The target is that of a ready record. -/
structure TargetOf (users : Users) (fp : Fingerprint) (target : WorkerTarget) (r : UserRecord) :
    Prop where
  record : users.lookup fp = some r
  ready : r.isPending = false
  accountName : target.accountName = r.accountName
  uid : target.uid = r.uid
  gid : target.gid = r.gid
  home : target.home = r.home

/-- The file has the record that a call creates the account of. -/
def HasPending (users : Users) (fp : Fingerprint) (record : UserRecord) : Prop :=
  ∃ r, users.lookup fp = some r ∧ r.isPending = true ∧ SameUser r record

def HasReady (users : Users) (fp : Fingerprint) (record : UserRecord) : Prop :=
  users.lookup fp = some record ∧ record.isPending = false

/-- The phase waits for the state lock or has it. -/
def Phase.locked : Phase → Bool
  | .reserving | .persisting _ => true
  | _ => false

/-- What a call in this phase knows of the file. -/
def Phase.Knows (users : Users) (fp : Fingerprint) : Phase → Prop
  | .reserving => True
  | .lookingUp record | .useradd record | .readingUid record => HasPending users fp record
  | .readingGid record => HasPending users fp record ∧ record.uid.isSome = true
  | .securingNew record =>
    HasPending users fp record ∧ record.uid.isSome = true ∧ record.gid.isSome = true
  | .persisting record => HasPending users fp record ∧ record.isPending = false
  | .checkingUid record | .checkingGid record _ | .securing record | .systemctl record =>
    HasReady users fp record
  | .settled (.ok target) => ∃ r, TargetOf users fp target r
  | .settled (.error _) => True

/-- What the holder of the state lock will write. -/
def StoreStep.Writes (maxUsers : Nat) (users : Users) (fp : Fingerprint) (phase : Phase) :
    StoreStep → Prop
  | .begin | .read => True
  | .mkdirUsers users' =>
    phase = .reserving ∧ users' = users ∧ users.lookup fp = none ∧ users.keys.length < maxUsers
  | .write _ users' record => users' = users.insert fp record ∧
    (phase = .reserving ∧ users.lookup fp = none ∧ users.keys.length < maxUsers ∧
        record.isPending = true ∧
        record.accountName = LinuxProvisionerConfig.accountName fp ∨
      phase = .persisting record ∧ (users.lookup fp).isSome = true)

/-- The joint invariant of the calls in flight and the state file. -/
structure Mapped (cfg : LinuxProvisionerConfig) (s : Provisioner) : Prop where
  queued : ∀ {fp}, fp ∈ s.stateQueue ↔ ∃ op, s.locks fp = some op ∧ op.phase.locked = true
  once : s.stateQueue.Nodup
  knows : ∀ {fp op}, s.locks fp = some op → op.phase.Knows s.file.all fp
  writes : ∀ {fp op}, s.stateQueue.head? = some fp → s.locks fp = some op →
    s.store.Writes cfg.maxUsers s.file.all fp op.phase
  called : ∀ {fp op identity}, s.locks fp = some op → identity ∈ op.callers →
    cfg.fingerprint identity = fp
  returned : ∀ {identity target}, (identity, target) ∈ s.returned →
    ∃ r, TargetOf s.file.all (cfg.fingerprint identity) target r

namespace Mapped

variable {cfg : LinuxProvisionerConfig} {s : Provisioner} {fp : Fingerprint} {op : Operation}

/-- Only the record of `fp` is written, and not when it is ready. -/
structure Frame (users users' : Users) (fp : Fingerprint) : Prop where
  other : ∀ fp' ≠ fp, users'.lookup fp' = users.lookup fp'
  ready : ∀ r, users.lookup fp = some r → r.isPending = false → users'.lookup fp = some r

theorem Frame.refl (users : Users) (fp : Fingerprint) : Frame users users fp :=
  ⟨fun _ _ => rfl, fun _ h _ => h⟩

theorem Frame.target {users users' : Users} (H : Frame users users' fp) {fp' : Fingerprint}
    {target : WorkerTarget} {r : UserRecord} (h : TargetOf users fp' target r) :
    TargetOf users' fp' target r := by
  refine ⟨?_, h.ready, h.accountName, h.uid, h.gid, h.home⟩
  by_cases he : fp' = fp
  · subst he
    exact H.ready r h.record h.ready
  · exact (H.other fp' he).trans h.record

theorem Frame.knows {users users' : Users} (H : Frame users users' fp) {fp' : Fingerprint}
    (hne : fp' ≠ fp) {phase : Phase} (h : phase.Knows users fp') : phase.Knows users' fp' := by
  have hlookup := H.other fp' hne
  have hpending : ∀ {record}, HasPending users fp' record → HasPending users' fp' record := by
    rintro record ⟨r, hr, h⟩
    exact ⟨r, hlookup.trans hr, h⟩
  match phase with
  | .reserving => trivial
  | .lookingUp _ | .useradd _ | .readingUid _ => exact hpending h
  | .readingGid _ | .securingNew _ | .persisting _ => exact ⟨hpending h.1, h.2⟩
  | .checkingUid _ | .checkingGid _ _ | .securing _ | .systemctl _ =>
    exact ⟨hlookup.trans h.1, h.2⟩
  | .settled (.ok _) =>
    obtain ⟨r, hr⟩ := h
    exact ⟨r, H.target hr⟩
  | .settled (.error _) => trivial

theorem callers (H : Mapped cfg s) (hop : s.locks fp = some op) :
    ∀ identity ∈ op.callers, cfg.fingerprint identity = fp :=
  fun _ => H.called hop

/-- A call goes on outside the state lock, or one more caller joins it. -/
theorem relock (H : Mapped cfg s) (hop : s.locks fp = some op) (op' : Operation)
    (hlocked : op'.phase.locked = op.phase.locked)
    (hsame : op.phase.locked = true → op'.phase = op.phase)
    (hknows : op'.phase.Knows s.file.all fp)
    (hcalled : ∀ identity ∈ op'.callers, cfg.fingerprint identity = fp)
    (more : List (UserIdentity × WorkerTarget))
    (hmore : ∀ entry ∈ more, ∃ r, TargetOf s.file.all (cfg.fingerprint entry.1) entry.2 r) :
    Mapped cfg { s with locks := update s.locks fp (some op'), returned := s.returned ++ more } where
  queued {fp'} := by
    rw [H.queued]
    by_cases he : fp' = fp
    · subst he
      simp [hop, hlocked]
    · simp [update_of_ne he]
  once := H.once
  knows {fp' op''} h := by
    dsimp only at h
    rw [update_apply] at h
    split at h
    next he =>
      obtain rfl := Option.some.inj h
      exact he ▸ hknows
    next => exact H.knows h
  writes {fp' op''} hhead h := by
    dsimp only at h
    rw [update_apply] at h
    split at h
    next he =>
      subst he
      obtain rfl := Option.some.inj h
      obtain ⟨op₀, hop₀, hl⟩ := H.queued.mp (List.mem_of_mem_head? hhead)
      obtain rfl := Option.some.inj (hop.symm.trans hop₀)
      exact hsame hl ▸ H.writes hhead hop
    next => exact H.writes hhead h
  called {fp' op'' identity} h hmem := by
    dsimp only at h
    rw [update_apply] at h
    split at h
    next he =>
      obtain rfl := Option.some.inj h
      exact (hcalled identity hmem).trans he.symm
    next => exact H.called h hmem
  returned {identity target} hmem :=
    (List.mem_append.mp hmem).elim H.returned (hmore (identity, target))

/-- A call waits for the state lock. -/
theorem enqueue (H : Mapped cfg s) (op' : Operation) (hfree : ∀ op, s.locks fp = some op → op.phase.locked = false)
    (hlocked : op'.phase.locked = true) (hknows : op'.phase.Knows s.file.all fp)
    (hcalled : ∀ identity ∈ op'.callers, cfg.fingerprint identity = fp) :
    Mapped cfg (Provisioner.enqueue { s with locks := update s.locks fp (some op') } fp) := by
  have habsent : fp ∉ s.stateQueue := by
    intro hmem
    obtain ⟨op, hop, hl⟩ := H.queued.mp hmem
    exact Bool.false_ne_true ((hfree op hop).symm.trans hl)
  refine ⟨fun {fp'} => ?_, ?_, fun {fp' op''} h => ?_, fun {fp' op''} hhead h => ?_,
    fun {fp' op'' identity} h hmem => ?_, H.returned⟩
  · show fp' ∈ s.stateQueue ++ [fp] ↔ ∃ op, update s.locks fp (some op') fp' = some op ∧ _
    rw [List.mem_append, List.mem_singleton, H.queued]
    by_cases he : fp' = fp
    · subst he
      simp [hlocked]
    · simp [he]
  · refine List.nodup_append.mpr ⟨H.once, List.nodup_singleton _, fun a ha b hb he => ?_⟩
    rw [List.mem_singleton.mp hb] at he
    exact habsent (he ▸ ha)
  · replace h : update s.locks fp (some op') fp' = some op'' := h
    rw [update_apply] at h
    split at h
    next he =>
      obtain rfl := Option.some.inj h
      exact he ▸ hknows
    next => exact H.knows h
  · replace h : update s.locks fp (some op') fp' = some op'' := h
    replace hhead : (s.stateQueue ++ [fp]).head? = some fp' := hhead
    show StoreStep.Writes _ _ _ _ (if s.stateQueue = [] then .begin else s.store)
    split
    next => trivial
    next hne =>
      obtain ⟨first, rest, hqueue⟩ := List.exists_cons_of_ne_nil hne
      rw [hqueue] at hhead
      obtain rfl : first = fp' := Option.some.inj hhead
      have hin : first ∈ s.stateQueue := hqueue ▸ List.mem_cons_self
      have hother : first ≠ fp := fun he => habsent (he ▸ hin)
      rw [update_of_ne hother] at h
      exact H.writes (by rw [hqueue]; rfl) h
  · replace h : update s.locks fp (some op') fp' = some op'' := h
    rw [update_apply] at h
    split at h
    next he =>
      obtain rfl := Option.some.inj h
      exact (hcalled identity hmem).trans he.symm
    next => exact H.called h hmem

/-- The holder of the state lock gives it up, having written its record or nothing. -/
theorem release (H : Mapped cfg s) (hhead : s.stateQueue.head? = some fp) (op' : Operation)
    {file : StateFile} (hframe : Frame s.file.all file.all fp)
    (hlocked : op'.phase.locked = false) (hknows : op'.phase.Knows file.all fp)
    (hcalled : ∀ identity ∈ op'.callers, cfg.fingerprint identity = fp) :
    Mapped cfg { s with
      file
      stateQueue := s.stateQueue.tail
      store := .begin
      locks := update s.locks fp (some op') } := by
  obtain ⟨rest, hqueue⟩ : ∃ rest, s.stateQueue = fp :: rest :=
    ⟨_, List.eq_cons_of_mem_head? hhead⟩
  obtain ⟨habsent, hrest⟩ := List.nodup_cons.mp (hqueue ▸ H.once)
  refine ⟨fun {fp'} => ?_, ?_, fun {fp' op''} h => ?_, fun {fp' op''} _ _ => trivial,
    fun {fp' op'' identity} h hmem => ?_, fun {identity target} hmem => ?_⟩
  · show fp' ∈ s.stateQueue.tail ↔ ∃ op, update s.locks fp (some op') fp' = some op ∧ _
    rw [hqueue, List.tail_cons]
    by_cases he : fp' = fp
    · subst he
      simp [habsent, hlocked]
    · rw [update_of_ne he, ← H.queued, hqueue, List.mem_cons]
      simp [he]
  · show s.stateQueue.tail.Nodup
    rw [hqueue]
    exact hrest
  · dsimp only at h
    rw [update_apply] at h
    split at h
    next he =>
      obtain rfl := Option.some.inj h
      exact he ▸ hknows
    next he => exact hframe.knows he (H.knows h)
  · dsimp only at h
    rw [update_apply] at h
    split at h
    next he =>
      obtain rfl := Option.some.inj h
      exact (hcalled identity hmem).trans he.symm
    next => exact H.called h hmem
  · obtain ⟨r, hr⟩ := H.returned hmem
    exact ⟨r, hframe.target hr⟩

/-- The holder of the state lock goes on to its next await. -/
theorem store (H : Mapped cfg s) (hhead : s.stateQueue.head? = some fp)
    (hop : s.locks fp = some op) {store' : StoreStep}
    (h : store'.Writes cfg.maxUsers s.file.all fp op.phase) :
    Mapped cfg { s with store := store' } where
  queued := H.queued
  once := H.once
  knows := H.knows
  writes {fp' op'} hhead' hop' := by
    obtain rfl := Option.some.inj (hhead.symm.trans hhead')
    obtain rfl := Option.some.inj (hop.symm.trans hop')
    exact h
  called := H.called
  returned := H.returned

theorem unlock (H : Mapped cfg s) (hop : s.locks fp = some op) (hlocked : op.phase.locked = false) :
    Mapped cfg (s.unlock fp) where
  queued {fp'} := by
    show fp' ∈ s.stateQueue ↔ ∃ op, update s.locks fp none fp' = some op ∧ _
    rw [H.queued]
    by_cases he : fp' = fp
    · subst he
      simp [hop, hlocked]
    · rw [update_of_ne he]
  once := H.once
  knows {fp' op'} h := by
    replace h : update s.locks fp none fp' = some op' := h
    rw [update_apply] at h
    split at h
    next => exact nomatch h
    next => exact H.knows h
  writes {fp' op'} hhead h := by
    replace h : update s.locks fp none fp' = some op' := h
    rw [update_apply] at h
    split at h
    next => exact nomatch h
    next => exact H.writes hhead h
  called {fp' op' identity} h := by
    replace h : update s.locks fp none fp' = some op' := h
    rw [update_apply] at h
    split at h
    next => exact nomatch h
    next => exact H.called h
  returned := H.returned

theorem restart (H : Mapped cfg s) : Mapped cfg s.restart where
  queued := ⟨fun h => absurd h List.not_mem_nil, fun ⟨_, h, _⟩ => nomatch h⟩
  once := List.nodup_nil
  knows h := nomatch h
  writes h := nomatch h
  called h := nomatch h
  returned := H.returned

theorem start (file : StateFile) : Mapped cfg (.start file) where
  queued := ⟨fun h => absurd h List.not_mem_nil, fun ⟨_, h, _⟩ => nomatch h⟩
  once := List.nodup_nil
  knows h := nomatch h
  writes h := nomatch h
  called h := nomatch h
  returned h := absurd h List.not_mem_nil

/-! ## The functions -/

theorem setPhase_eq {phase : Phase} (hop : s.locks fp = some op) : s.setPhase fp phase =
    { s with locks := update s.locks fp (some ⟨phase, op.callers⟩) } := by
  unfold Provisioner.setPhase
  rw [hop]
  rfl

theorem settle_error {message : String} (hop : s.locks fp = some op) :
    s.settle fp (.error message) =
      { s with locks := update s.locks fp (some ⟨.settled (.error message), op.callers⟩) } :=
  setPhase_eq hop

theorem setPhase (H : Mapped cfg s) (hop : s.locks fp = some op) (hfree : op.phase.locked = false)
    {phase : Phase} (hphase : phase.locked = false) (hknows : phase.Knows s.file.all fp) :
    Mapped cfg (s.setPhase fp phase) := by
  have hcallers := H.callers hop
  have h := H.relock hop ⟨phase, op.callers⟩ (hphase.trans hfree.symm)
    (fun h => absurd (hfree.symm.trans h) Bool.false_ne_true) hknows hcallers []
    (List.forall_mem_nil _)
  rw [List.append_nil] at h
  exact setPhase_eq hop ▸ h

theorem settleError (H : Mapped cfg s) (hop : s.locks fp = some op)
    (hfree : op.phase.locked = false) (message : String) :
    Mapped cfg (s.settle fp (.error message)) :=
  H.setPhase hop hfree rfl trivial

/-- The call returns its target to every caller. -/
theorem settleOk (H : Mapped cfg s) (hop : s.locks fp = some op) (hfree : op.phase.locked = false)
    {target : WorkerTarget} {r : UserRecord} (htarget : TargetOf s.file.all fp target r) :
    Mapped cfg (s.settle fp (.ok target)) := by
  have hcallers := H.callers hop
  have h := H.relock hop ⟨.settled (.ok target), op.callers⟩ hfree.symm
    (fun h => absurd (hfree.symm.trans h) Bool.false_ne_true) ⟨r, htarget⟩ hcallers
    (op.callers.map fun identity => (identity, target)) fun entry hentry => ?_
  · unfold Provisioner.settle
    rw [hop]
    dsimp only
    rw [setPhase_eq (s := { s with
      returned := s.returned ++ op.callers.map fun identity => (identity, target) }) hop]
    exact h
  · obtain ⟨identity, hmem, rfl⟩ := List.mem_map.mp hentry
    exact ⟨r, (hcallers identity hmem).symm ▸ htarget⟩

section Release

variable {file : StateFile}

theorem releasePhase (H : Mapped cfg s) (hhead : s.stateQueue.head? = some fp)
    (hop : s.locks fp = some op) (hframe : Frame s.file.all file.all fp) {phase : Phase}
    (hphase : phase.locked = false) (hknows : phase.Knows file.all fp) :
    Mapped cfg ((Provisioner.dequeue { s with file }).setPhase fp phase) := by
  have hcallers := H.callers hop
  rw [setPhase_eq (s := Provisioner.dequeue { s with file }) hop]
  exact H.release hhead ⟨phase, op.callers⟩ hframe hphase hknows hcallers

theorem releaseError (H : Mapped cfg s) (hhead : s.stateQueue.head? = some fp)
    (hop : s.locks fp = some op) (hframe : Frame s.file.all file.all fp) (message : String) :
    Mapped cfg ((Provisioner.dequeue { s with file }).settle fp (.error message)) :=
  H.releasePhase hhead hop hframe rfl trivial

/-- The record of a call is in the file. -/
theorem reserved (H : Mapped cfg s) (hhead : s.stateQueue.head? = some fp)
    (hop : s.locks fp = some op) (hframe : Frame s.file.all file.all fp) {record : UserRecord}
    (hrecord : file.all.lookup fp = some record) :
    Mapped cfg ((Provisioner.dequeue { s with file }).reserved cfg fp record) := by
  unfold Provisioner.reserved
  split
  next hpending =>
    split
    next => exact H.releaseError hhead hop hframe _
    next => exact H.releasePhase hhead hop hframe rfl ⟨record, hrecord, hpending, .refl record⟩
  next hready =>
    split
    next => exact H.releaseError hhead hop hframe _
    next =>
      exact H.releasePhase hhead hop hframe rfl ⟨hrecord, Bool.eq_false_of_not_eq_true hready⟩

theorem saved (H : Mapped cfg s) (hhead : s.stateQueue.head? = some fp)
    (hop : s.locks fp = some op) {users : Users} {record : UserRecord} {w : WriteStep}
    (hwrites : (StoreStep.write w users record).Writes cfg.maxUsers s.file.all fp op.phase) :
    Mapped cfg (Provisioner.saved cfg { s with file := .users users } fp op.phase record) := by
  obtain ⟨rfl, hcase⟩ := hwrites
  have hlookup : (s.file.all.insert fp record).lookup fp = some record := AList.lookup_insert _
  have hother : ∀ fp' ≠ fp, (s.file.all.insert fp record).lookup fp' = s.file.all.lookup fp' :=
    fun _ hne => AList.lookup_insert_ne hne
  obtain ⟨hphase, hnone, -⟩ | ⟨hphase, hsome⟩ := hcase
  · rw [hphase]
    have hframe : Frame s.file.all (StateFile.users (s.file.all.insert fp record)).all fp := by
      refine ⟨hother, fun r hr _ => ?_⟩
      exact absurd (hr.symm.trans hnone) (Option.some_ne_none r)
    exact H.reserved hhead hop hframe hlookup
  · have hknows := H.knows hop
    rw [hphase] at hknows ⊢
    obtain ⟨⟨r₀, hr₀, hpending, -⟩, hready⟩ := hknows
    have hframe : Frame s.file.all (StateFile.users (s.file.all.insert fp record)).all fp := by
      refine ⟨hother, fun r hr hfinished => ?_⟩
      obtain rfl := Option.some.inj (hr₀.symm.trans hr)
      exact absurd (hfinished.symm.trans hpending) Bool.false_ne_true
    show Mapped cfg ((Provisioner.dequeue
      { s with file := .users (s.file.all.insert fp record) }).starting cfg fp record)
    unfold Provisioner.starting
    split
    next => exact H.releaseError hhead hop hframe _
    next => exact H.releasePhase hhead hop hframe rfl ⟨hlookup, hready⟩

end Release

theorem ensureWorker (H : Mapped cfg s) (identity : UserIdentity) :
    Mapped cfg (s.ensureWorker cfg identity) := by
  have called : ∀ {op : Operation}, s.locks (cfg.fingerprint identity) = some op →
      ∀ i ∈ op.callers ++ [identity], cfg.fingerprint i = cfg.fingerprint identity := by
    intro op hop i hmem
    obtain hmem | hmem := List.mem_append.mp hmem
    · exact H.callers hop i hmem
    · exact List.mem_singleton.mp hmem ▸ rfl
  unfold Provisioner.ensureWorker
  split
  next => exact H
  next =>
    dsimp only
    split
    next target callers hop =>
      obtain ⟨r, hr⟩ := H.knows hop
      refine H.relock hop ⟨.settled (.ok target), callers ++ [identity]⟩ rfl (fun _ => rfl)
        ⟨r, hr⟩ (called hop) [(identity, target)] fun entry hentry => ?_
      obtain rfl := List.mem_singleton.mp hentry
      exact ⟨r, hr⟩
    next phase callers _ hop =>
      have hknows := H.knows hop
      have h := H.relock hop ⟨phase, callers ++ [identity]⟩ rfl (fun _ => rfl) hknows (called hop)
        [] (List.forall_mem_nil _)
      rw [List.append_nil] at h
      exact h
    next hop =>
      refine H.enqueue ⟨.reserving, [identity]⟩ (fun op h => nomatch hop.symm.trans h) rfl trivial
        fun i hmem => ?_
      exact List.mem_singleton.mp hmem ▸ rfl

theorem withState (H : Mapped cfg s) (hhead : s.stateQueue.head? = some fp)
    (hop : s.locks fp = some op) :
    Mapped cfg (s.withState cfg fp op.phase s.file.all) := by
  have hframe := Frame.refl s.file.all fp
  unfold Provisioner.withState
  split
  next hphase =>
    unfold Provisioner.reserveRecord
    split
    next record hrecord => exact H.reserved hhead hop hframe hrecord
    next hnone =>
      split
      next => exact H.releaseError hhead hop hframe _
      next hroom =>
        split
        next => exact H.releaseError hhead hop hframe _
        next => exact H.store hhead hop ⟨hphase, rfl, hnone, Nat.lt_of_not_le hroom⟩
  next record hphase =>
    unfold Provisioner.persistReadyRecord
    split
    next => exact H.releaseError hhead hop hframe _
    next reserved hreserved =>
      split
      next => exact H.releaseError hhead hop hframe _
      next =>
        split
        next => exact H.releaseError hhead hop hframe _
        next =>
          exact H.store hhead hop ⟨rfl, .inr ⟨hphase, Option.isSome_of_eq_some hreserved⟩⟩
  next => exact H

theorem settleStore (H : Mapped cfg s) (hhead : s.stateQueue.head? = some fp)
    (hop : s.locks fp = some op) (outcome : Outcome) (now : String) :
    Mapped cfg (s.settleStore cfg fp op.phase outcome now) := by
  have hframe := Frame.refl s.file.all fp
  have hwrites := H.writes hhead hop
  have hstate := H.withState hhead hop
  unfold Provisioner.settleStore
  split
  next =>
    unfold Provisioner.beginStore
    split
    next =>
      split
      next => exact H.releaseError hhead hop hframe _
      next => exact H.store hhead hop trivial
    next => exact H.store hhead hop trivial
  next => exact H.releaseError hhead hop hframe _
  next =>
    split
    next hfile => exact (show s.file.all = ∅ by rw [hfile]; rfl) ▸ hstate
    next => exact H.releaseError hhead hop hframe _
    next users hfile => exact (show s.file.all = users by rw [hfile]; rfl) ▸ hstate
  next hstore =>
    rw [hstore] at hwrites
    obtain ⟨hphase, rfl, hnone, hroom⟩ := hwrites
    exact H.store hhead hop ⟨rfl, .inl ⟨hphase, hnone, hroom, rfl, rfl⟩⟩
  next hstore =>
    rw [hstore] at hwrites
    exact H.store hhead hop hwrites
  next hstore =>
    rw [hstore] at hwrites
    exact H.store hhead hop hwrites
  next hstore =>
    rw [hstore] at hwrites
    exact H.store hhead hop hwrites
  next hstore =>
    rw [hstore] at hwrites
    exact H.saved hhead hop hwrites

/-- What `numericId` reads is filled into the record. -/
theorem settlePhase (H : Mapped cfg s) (hop : s.locks fp = some op) (outcome : Outcome)
    (now : String) : Mapped cfg (s.settlePhase cfg fp op.phase outcome now) := by
  have hknows := H.knows hop
  have hstore := fun hhead => H.settleStore hhead hop outcome now
  rcases op with ⟨phase, callers⟩
  cases phase with
  | reserving =>
    show Mapped cfg (if _ then _ else _)
    split
    next hhead => exact hstore hhead
    next => exact H
  | persisting record =>
    show Mapped cfg (if _ then _ else _)
    split
    next hhead => exact hstore hhead
    next => exact H
  | lookingUp record =>
    unfold Provisioner.settlePhase
    dsimp only
    split
    next => exact H.setPhase hop rfl rfl hknows
    next => exact H.setPhase hop rfl rfl hknows
  | useradd record =>
    cases outcome with
    | done stdout => exact H.setPhase hop rfl rfl hknows
    | fails message => exact H.settleError hop rfl message
  | readingUid record =>
    unfold Provisioner.settlePhase
    dsimp only
    split
    next uid _ =>
      obtain ⟨r, hr, hpending, hsame⟩ := hknows
      exact H.setPhase hop rfl rfl
        ⟨⟨r, hr, hpending, hsame.accountName, hsame.home, hsame.createdAt⟩, rfl⟩
    next => exact H.settleError hop rfl _
  | readingGid record =>
    unfold Provisioner.settlePhase
    dsimp only
    split
    next gid _ =>
      obtain ⟨⟨r, hr, hpending, hsame⟩, huid⟩ := hknows
      exact H.setPhase hop rfl rfl
        ⟨⟨r, hr, hpending, hsame.accountName, hsame.home, hsame.createdAt⟩, huid, rfl⟩
    next => exact H.settleError hop rfl _
  | securingNew record =>
    cases outcome with
    | done stdout =>
      obtain ⟨⟨r, hr, hpending, hsame⟩, huid, hgid⟩ := hknows
      have hready : UserRecord.isPending { record with status := some .ready } = false := by
        simp [UserRecord.isPending, huid, hgid]
      have hcallers := H.callers hop
      show Mapped cfg ((s.setPhase fp (.persisting { record with status := some .ready })).enqueue fp)
      rw [setPhase_eq hop]
      refine H.enqueue ⟨.persisting { record with status := some .ready }, callers⟩
        (fun op' h => ?_) rfl
        ⟨⟨r, hr, hpending, hsame.accountName, hsame.home, hsame.createdAt⟩, hready⟩ hcallers
      obtain rfl := Option.some.inj (hop.symm.trans h)
      rfl
    | fails message => exact H.settleError hop rfl message
  | checkingUid record =>
    unfold Provisioner.settlePhase
    dsimp only
    split
    next => exact H.setPhase hop rfl rfl hknows
    next => exact H.settleError hop rfl _
  | checkingGid record actualUid =>
    unfold Provisioner.settlePhase
    dsimp only
    split
    next =>
      split
      next => exact H.settleError hop rfl _
      next => exact H.setPhase hop rfl rfl hknows
    next => exact H.settleError hop rfl _
  | securing record =>
    cases outcome with
    | done stdout =>
      show Mapped cfg (s.starting cfg fp record)
      unfold Provisioner.starting
      split
      next => exact H.settleError hop rfl _
      next => exact H.setPhase hop rfl rfl hknows
    | fails message => exact H.settleError hop rfl message
  | systemctl record =>
    cases outcome with
    | done stdout => exact H.settleOk hop rfl ⟨hknows.1, hknows.2, rfl, rfl, rfl, rfl⟩
    | fails message => exact H.settleError hop rfl message
  | settled result => exact H.unlock hop rfl

theorem step (H : Mapped cfg s) (event : Event) : Mapped cfg (s.step cfg event) := by
  cases event with
  | ensureWorker identity => exact H.ensureWorker identity
  | settle fp outcome now =>
    unfold Provisioner.step
    dsimp only
    split
    next hop => exact H.settlePhase hop outcome now
    next => exact H
  | crash => exact H.restart

end Mapped

end CliProxy.Isolation
