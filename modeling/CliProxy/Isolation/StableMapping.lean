import CliProxy.Isolation.UserMapping

/-! # The mapping of users is stable

Only the `rename` of `writeState` changes the state file, and what it writes was read under the
state lock. Hence one step lets the mapping grow as `Grows` says, and so does every run. -/

namespace CliProxy.Isolation

namespace Provisioner

variable (cfg : LinuxProvisionerConfig) (s : Provisioner) (fp : Fingerprint)

@[simp] theorem setPhase_file (phase : Phase) : (s.setPhase fp phase).file = s.file := rfl

@[simp] theorem enqueue_file : (s.enqueue fp).file = s.file := rfl

@[simp] theorem dequeue_file : s.dequeue.file = s.file := rfl

@[simp] theorem settle_file (result : Except String WorkerTarget) :
    (s.settle fp result).file = s.file := by
  unfold settle
  cases result with
  | ok target => cases s.locks fp <;> rfl
  | error message => rfl

@[simp] theorem ensureWorker_file (identity : UserIdentity) :
    (s.ensureWorker cfg identity).file = s.file := by
  unfold ensureWorker
  split
  next => rfl
  next =>
    dsimp only
    split <;> rfl

@[simp] theorem reserved_file (record : UserRecord) :
    (s.reserved cfg fp record).file = s.file := by
  unfold reserved
  split <;> split <;> simp

@[simp] theorem starting_file (record : UserRecord) :
    (s.starting cfg fp record).file = s.file := by
  unfold starting
  split <;> simp

@[simp] theorem beginStore_file (phase : Phase) :
    (s.beginStore cfg fp phase).file = s.file := by
  unfold beginStore
  split
  next => split <;> simp
  next => rfl

@[simp] theorem withState_file (phase : Phase) (users : Users) :
    (s.withState cfg fp phase users).file = s.file := by
  unfold withState
  split
  next =>
    unfold reserveRecord
    split
    next => simp
    next => split <;> [simp; split] <;> simp
  next =>
    unfold persistReadyRecord
    split
    next => simp
    next => split <;> [simp; split] <;> simp
  next => rfl

@[simp] theorem saved_file (phase : Phase) (record : UserRecord) :
    (s.saved cfg fp phase record).file = s.file := by
  unfold saved
  split <;> simp

theorem settleStore_file (phase : Phase) (outcome : Outcome) (now : String) :
    (s.settleStore cfg fp phase outcome now).file = s.file ∨
      ∃ users record, s.store = .write .rename users record ∧
        (s.settleStore cfg fp phase outcome now).file = .users users := by
  unfold settleStore
  split
  next => exact .inl (beginStore_file ..)
  next => exact .inl (settle_file ..)
  next =>
    left
    split <;> simp
  next => exact .inl rfl
  next => exact .inl rfl
  next => exact .inl rfl
  next => exact .inl rfl
  next hstore => exact .inr ⟨_, _, hstore, saved_file ..⟩

/-- The state file changes with the `rename` only. -/
theorem settlePhase_file (phase : Phase) (outcome : Outcome) (now : String) :
    (s.settlePhase cfg fp phase outcome now).file = s.file ∨
      s.stateQueue.head? = some fp ∧ ∃ users record, s.store = .write .rename users record ∧
        (s.settlePhase cfg fp phase outcome now).file = .users users := by
  have hstore := s.settleStore_file cfg fp phase outcome now
  have hheld : ∀ t : Provisioner, (if s.stateQueue.head? = some fp then t else s).file = s.file ∨
      s.stateQueue.head? = some fp ∧
        (if s.stateQueue.head? = some fp then t else s).file = t.file := by
    intro t
    split
    next hhead => exact .inr ⟨hhead, rfl⟩
    next => exact .inl rfl
  cases phase with
  | reserving | persisting record =>
    obtain hsame | ⟨hhead, heq⟩ := hheld (s.settleStore cfg fp _ outcome now)
    · exact .inl hsame
    · obtain h | ⟨users, record, hrename, hfile⟩ := hstore
      · exact .inl (heq.trans h)
      · exact .inr ⟨hhead, users, record, hrename, heq.trans hfile⟩
  | lookingUp record | readingUid record | readingGid record | checkingUid record =>
    left
    unfold settlePhase
    dsimp only
    split <;> simp
  | useradd record | securingNew record | securing record | systemctl record =>
    left
    cases outcome <;> simp [settlePhase]
  | checkingGid record actualUid =>
    left
    unfold settlePhase
    dsimp only
    split
    next => split <;> simp
    next => simp
  | settled result => exact .inl rfl

end Provisioner

/-! ## One step -/

/-- What happens to the mapping from one state to a later one. -/
structure Grows (maxUsers : Nat) (users users' : Users) : Prop where
  extend : Extends users users'
  bounded : users.keys.length ≤ maxUsers → users'.keys.length ≤ maxUsers
  /-- A record that is made is named after its key. -/
  named : ∀ fp r', users'.lookup fp = some r' →
    r'.accountName = LinuxProvisionerConfig.accountName fp ∨
      ∃ r, users.lookup fp = some r ∧ r'.accountName = r.accountName

namespace Grows

variable {maxUsers : Nat} {users users' users'' : Users} {fp : Fingerprint} {record : UserRecord}

theorem refl (users : Users) : Grows maxUsers users users :=
  ⟨.refl users, id, fun _ r hr => .inr ⟨r, hr, rfl⟩⟩

theorem trans (H : Grows maxUsers users users') (H' : Grows maxUsers users' users'') :
    Grows maxUsers users users'' := by
  refine ⟨H.extend.trans H'.extend, H'.bounded ∘ H.bounded, fun fp r'' hr'' => ?_⟩
  obtain h | ⟨r', hr', hname'⟩ := H'.named fp r'' hr''
  · exact .inl h
  · obtain h | ⟨r, hr, hname⟩ := H.named fp r' hr'
    · exact .inl (hname'.trans h)
    · exact .inr ⟨r, hr, hname'.trans hname⟩

theorem named_insert (h : record.accountName = LinuxProvisionerConfig.accountName fp ∨
      ∃ r, users.lookup fp = some r ∧ record.accountName = r.accountName)
    (fp' : Fingerprint) (r' : UserRecord) (hr' : (users.insert fp record).lookup fp' = some r') :
    r'.accountName = LinuxProvisionerConfig.accountName fp' ∨
      ∃ r, users.lookup fp' = some r ∧ r'.accountName = r.accountName := by
  by_cases he : fp' = fp
  · subst he
    rw [AList.lookup_insert] at hr'
    obtain rfl := Option.some.inj hr'
    exact h
  · rw [AList.lookup_insert_ne he] at hr'
    exact .inr ⟨r', hr', rfl⟩

/-- `reserveRecord` adds a record while there is room. -/
theorem reserve (hnone : users.lookup fp = none) (hroom : users.keys.length < maxUsers)
    (hname : record.accountName = LinuxProvisionerConfig.accountName fp) :
    Grows maxUsers users (users.insert fp record) where
  extend fp' r hr := by
    have hne : fp' ≠ fp := by
      rintro rfl
      exact Option.some_ne_none r (hr.symm.trans hnone)
    exact ⟨r, (AList.lookup_insert_ne hne).trans hr, .refl r, fun _ => rfl⟩
  bounded _ := by
    have hlength := List.length_erase_le (a := fp) (l := users.keys)
    rw [AList.keys_insert, List.length_cons]
    omega
  named := named_insert (.inl hname)

/-- `persistReadyRecord` completes a pending record. -/
theorem complete {r : UserRecord} (hr : users.lookup fp = some r) (hpending : r.isPending = true)
    (hsame : SameUser r record) : Grows maxUsers users (users.insert fp record) where
  extend fp' r' hr' := by
    by_cases he : fp' = fp
    · subst he
      obtain rfl := Option.some.inj (hr.symm.trans hr')
      refine ⟨record, AList.lookup_insert _, hsame, fun hready => ?_⟩
      exact absurd (hready.symm.trans hpending) Bool.false_ne_true
    · exact ⟨r', (AList.lookup_insert_ne he).trans hr', .refl r', fun _ => rfl⟩
  bounded h := by
    have hmem : fp ∈ users.keys :=
      AList.mem_keys.mp (AList.lookup_isSome.mp (Option.isSome_of_eq_some hr))
    have hpositive := List.length_pos_of_mem hmem
    rw [AList.keys_insert, List.length_cons, List.length_erase_of_mem hmem]
    omega
  named := named_insert (.inr ⟨r, hr, hsame.accountName⟩)

end Grows

namespace Mapped

variable {cfg : LinuxProvisionerConfig} {s : Provisioner}

theorem grows (H : Mapped cfg s) (event : Event) :
    Grows cfg.maxUsers s.file.all (s.step cfg event).file.all := by
  have hsame : ∀ {t : Provisioner}, t.file = s.file →
      Grows cfg.maxUsers s.file.all t.file.all := by
    intro t h
    rw [h]
    exact .refl s.file.all
  cases event with
  | ensureWorker identity => exact hsame (s.ensureWorker_file cfg identity)
  | crash => exact hsame rfl
  | settle fp outcome now =>
    unfold Provisioner.step
    dsimp only
    split
    next op hop =>
      obtain h | ⟨hhead, users, record, hrename, hfile⟩ :=
        s.settlePhase_file cfg fp op.phase outcome now
      · exact hsame h
      · have hwrites := H.writes hhead hop
        have hknows := H.knows hop
        rw [hrename] at hwrites
        rw [hfile]
        obtain ⟨rfl, ⟨-, hnone, hroom, -, hname⟩ | ⟨hphase, -⟩⟩ := hwrites
        · exact .reserve hnone hroom hname
        · rw [hphase] at hknows
          obtain ⟨⟨r, hr, hpending, hsameUser⟩, -⟩ := hknows
          exact .complete hr hpending hsameUser
    next => exact hsame rfl

end Mapped

/-! ## A run -/

theorem grows_runFrom {cfg : LinuxProvisionerConfig} (file : StateFile) {s : Provisioner}
    (H : Mapped cfg s) (events : List Event) :
    Mapped cfg ((Provisioner.machine cfg file).runFrom s events) ∧
      Grows cfg.maxUsers s.file.all
        ((Provisioner.machine cfg file).runFrom s events).file.all := by
  induction events generalizing s with
  | nil => exact ⟨H, .refl s.file.all⟩
  | cons event events ih =>
    obtain ⟨hmapped, hgrows⟩ := ih (H.step event)
    exact ⟨hmapped, (H.grows event).trans hgrows⟩

/-- The identities that a run calls `ensureWorker` for. -/
def identities (events : List Event) : List UserIdentity :=
  events.filterMap fun
    | .ensureWorker identity => some identity
    | _ => none

/-- What is signed for the identities is told apart by the digits that name their accounts. -/
def CollisionFree (cfg : LinuxProvisionerConfig) (called : List UserIdentity) : Prop :=
  ∀ i ∈ called, ∀ i' ∈ called,
    LinuxProvisionerConfig.accountName (cfg.fingerprint i) =
        LinuxProvisionerConfig.accountName (cfg.fingerprint i') →
      LinuxProvisionerConfig.message i = LinuxProvisionerConfig.message i'

theorem isStableId_no_nul {id : String} (h : isStableId id = true) :
    Char.ofNat 0 ∉ id.toList := by
  unfold isStableId at h
  split at h
  next => exact absurd h Bool.false_ne_true
  next c cs hlist =>
    simp only [Bool.and_eq_true, List.all_eq_true] at h
    obtain ⟨⟨hfirst, -⟩, hrest⟩ := h
    rw [hlist, List.mem_cons]
    rintro (heq | hmem)
    · rw [← heq] at hfirst
      revert hfirst
      decide
    · have hnul := hrest _ hmem
      revert hnul
      decide

/-- Stable ids contain no separator. -/
theorem message_injective {i i' : UserIdentity} (h : validIdentity i = true)
    (heq : LinuxProvisionerConfig.message i = LinuxProvisionerConfig.message i') : i = i' := by
  obtain ⟨htenant, huser⟩ := Bool.and_eq_true_iff.mp h
  have hlist := congrArg String.toList heq
  have hnul : "\x00".toList = [Char.ofNat 0] := rfl
  simp only [LinuxProvisionerConfig.message, String.toList_append, List.append_assoc, hnul,
    List.singleton_append] at hlist
  have hsplit := List.append_cancel_left hlist
  obtain ⟨ht, -, hu⟩ := (List.append_cons_inj_of_notMem
    (isStableId_no_nul htenant) (isStableId_no_nul huser)).mp hsplit
  cases i
  cases i'
  rw [UserIdentity.mk.injEq]
  exact ⟨String.toList_injective ht, String.toList_injective hu⟩

/-- What the state file keeps in a run, and what the returned targets have of it. -/
structure StableMapping (cfg : LinuxProvisionerConfig) (file : StateFile) (events : List Event) :
    Prop where
  bounded : file.all.keys.length ≤ cfg.maxUsers →
    ((Provisioner.machine cfg file).run events).file.all.keys.length ≤ cfg.maxUsers
  /-- From any time of the run on. -/
  kept : ∀ before after, before ++ after = events →
    Extends ((Provisioner.machine cfg file).run before).file.all
      ((Provisioner.machine cfg file).run events).file.all
  unshared : ∀ i ∈ identities events, ∀ i' ∈ identities events,
    validIdentity i = true → validIdentity i' = true → i ≠ i' →
      cfg.fingerprint i ≠ cfg.fingerprint i'
  /-- Not even an account, if the records were named after their keys. -/
  accounts : (∀ fp r, file.all.lookup fp = some r →
      r.accountName = LinuxProvisionerConfig.accountName fp) →
    ∀ i ∈ identities events, ∀ i' ∈ identities events,
      validIdentity i = true → validIdentity i' = true → i ≠ i' →
        ∀ r r',
          ((Provisioner.machine cfg file).run events).file.all.lookup (cfg.fingerprint i) =
              some r →
          ((Provisioner.machine cfg file).run events).file.all.lookup (cfg.fingerprint i') =
              some r' →
            r.accountName ≠ r'.accountName
  returned : ∀ identity target,
    (identity, target) ∈ ((Provisioner.machine cfg file).run events).returned →
      ∃ r, TargetOf ((Provisioner.machine cfg file).run events).file.all
        (cfg.fingerprint identity) target r

/-- However the calls interleave and fail, and whenever the process crashes. -/
theorem stableMapping (cfg : LinuxProvisionerConfig) (file : StateFile) (events : List Event)
    (hfree : CollisionFree cfg (identities events)) : StableMapping cfg file events := by
  have hstart : Mapped cfg (.start file) := Mapped.start file
  obtain ⟨hmapped, hgrows⟩ := grows_runFrom file hstart events
  have apart : ∀ i ∈ identities events, ∀ i' ∈ identities events,
      validIdentity i = true → validIdentity i' = true → i ≠ i' →
        LinuxProvisionerConfig.accountName (cfg.fingerprint i) ≠
          LinuxProvisionerConfig.accountName (cfg.fingerprint i') := by
    intro i hi i' hi' hvalid hvalid' hne heq
    exact hne (message_injective hvalid (hfree i hi i' hi' heq))
  refine ⟨hgrows.bounded, ?_, ?_, ?_, fun _ _ => hmapped.returned⟩
  · rintro before after rfl
    have hbefore := (grows_runFrom file hstart before).1
    have hafter := (grows_runFrom file hbefore after).2.extend
    rw [← Lib.Machine.runFrom_append] at hafter
    exact hafter
  · intro i hi i' hi' hvalid hvalid' hne heq
    exact apart i hi i' hi' hvalid hvalid' hne (congrArg _ heq)
  · intro hnamed i hi i' hi' hvalid hvalid' hne r r' hr hr' heq
    have named : ∀ {fp r}, ((Provisioner.machine cfg file).run events).file.all.lookup fp = some r →
        r.accountName = LinuxProvisionerConfig.accountName fp := by
      intro fp r hr
      obtain h | ⟨r₀, hr₀, h⟩ := hgrows.named fp r hr
      · exact h
      · exact h.trans (hnamed fp r₀ hr₀)
    exact apart i hi i' hi' hvalid hvalid' hne ((named hr).symm.trans (heq.trans (named hr')))

/-- Two users of a tenant; the process dies while the first account is made. -/
def twoUsers : List Event :=
  let alice := UserIdentity.mk "acme" "alice"
  let bob := UserIdentity.mk "acme" "bob"
  let fpAlice := "f30a0529d05eefb9dd4d225fd0f54959c569f8f51a65846741a68884f06af9b9"
  let fpBob := "84c988399656a0d37d7b45e97bd74c2bad899c210c4c87ed65617a67f416c817"
  let settle fp outcome := Event.settle fp outcome "2026-01-01T00:00:00.000Z"
  let done fp n := List.replicate n (settle fp (.done ""))
  let create fp uid := settle fp (.fails "no such user") :: done fp 1
    ++ List.replicate 2 (settle fp (.done uid)) ++ done fp 8
  [.ensureWorker alice, .ensureWorker bob] ++ done fpAlice 7 ++ [.crash, .ensureWorker alice]
    ++ done fpAlice 2 ++ [.ensureWorker bob] ++ done fpBob 7 ++ create fpBob "1001\n"
    ++ create fpAlice "1002\n"

/-- `identitySecret` has the bytes 0 to 31. -/
def exampleConfig : LinuxProvisionerConfig where
  hmac message :=
    if message = "v1\x00acme\x00alice" then
      "f30a0529d05eefb9dd4d225fd0f54959c569f8f51a65846741a68884f06af9b9"
    else if message = "v1\x00acme\x00bob" then
      "84c988399656a0d37d7b45e97bd74c2bad899c210c4c87ed65617a67f416c817"
    else ""
  home accountName := "/var/lib/cli-openai-proxy/users/" ++ accountName
  socket accountName := "/run/cli-openai-proxy/workers/" ++ accountName ++ ".sock"
  maxUsers := 2

theorem stableMapping_twoUsers :
    ((Provisioner.machine exampleConfig .missing).run twoUsers).returned.length = 2 ∧
      StableMapping exampleConfig .missing twoUsers :=
  ⟨by decide +kernel, stableMapping exampleConfig .missing twoUsers
    (show ∀ i ∈ identities twoUsers, _ by decide +kernel)⟩

end CliProxy.Isolation
