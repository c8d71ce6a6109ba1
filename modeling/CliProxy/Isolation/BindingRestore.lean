import CliProxy.Isolation.NotificationOrder

/-! # What another start restores

The invariant `Kept` says how the bindings in memory and the latest generation are to be found in
the files. What another start loads of them is what the checks of the loader accept. -/

namespace CliProxy.WorkerProxy

open Isolation (decodeProvisioningGeneration IsGeneration plainUuidv7)

/-! ## The later one of two generations -/

/-- The latest generation that the constructor takes from the two files. -/
def laterOf (issued notification : Option String) : Option String :=
  match issued with
  | some latestIssued =>
    if IssuedProvisioningState.isNewer latestIssued notification then some latestIssued
    else notification
  | none => notification

theorem ofFiles_latestIssued (files : Files) (now : Int) :
    (UserWorkerProxy.ofFiles files now).latestIssuedProvisioningGeneration =
      laterOf (loadIssuedProvisioningState files.issued now).latestGeneration
        (loadProvisioningGeneration files) := rfl

theorem laterOf_eq {issued notification : Option String}
    (h : ∀ n, notification = some n → Covered n issued) : laterOf issued notification = issued := by
  cases issued with
  | none =>
    cases notification with
    | none => rfl
    | some n =>
      obtain ⟨l, hl, -⟩ := h n rfl
      exact absurd hl.symm (Option.some_ne_none l)
  | some l =>
    unfold laterOf
    dsimp only
    split
    next => rfl
    next hnewer =>
      rw [isNewer_iff] at hnewer
      simp only [not_forall, not_lt] at hnewer
      obtain ⟨n, hn, hln⟩ := hnewer
      obtain ⟨m, hm, hnm⟩ := h n hn
      obtain rfl := Option.some.inj hm
      rw [hn, le_antisymm hnm hln]

theorem laterOf_or (issued notification : Option String) :
    laterOf issued notification = issued ∨ laterOf issued notification = notification := by
  unfold laterOf
  split
  next =>
    split
    next => exact .inl rfl
    next => exact .inr rfl
  next => exact .inr rfl

theorem laterOf_covers {issued notification : Option String} {n : String}
    (h : notification = some n) : Covered n (laterOf issued notification) := by
  subst h
  unfold laterOf
  split
  next l =>
    split
    next hnewer => exact ⟨l, rfl, (isNewer_iff.mp hnewer n rfl).le⟩
    next => exact ⟨n, rfl, le_refl n⟩
  next => exact ⟨n, rfl, le_refl n⟩

theorem laterOf_covers_issued {issued notification : Option String} {l : String}
    (h : issued = some l) : Covered l (laterOf issued notification) := by
  subst h
  unfold laterOf
  dsimp only
  split
  next => exact ⟨l, rfl, le_refl l⟩
  next hnewer =>
    rw [isNewer_iff] at hnewer
    simp only [not_forall, not_lt] at hnewer
    obtain ⟨n, hn, hln⟩ := hnewer
    exact ⟨n, hn, hln⟩

/-! ## Loading -/

/-- What every binding meets that the gateway has made. -/
structure IssuedProvisioningBinding.Valid (b : IssuedProvisioningBinding) : Prop where
  generation : IsGeneration b.generation
  urlHash : isUrlHash b.urlHash = true
  sessionId : b.sessionId.all validSessionId = true
  workspaceId : b.workspaceId.all validWorkspaceId = true

/-- The account and the engine are accepted by the loader. -/
def IssuedProvisioningBinding.Short (b : IssuedProvisioningBinding) : Prop :=
  isShort b.accountName = true ∧ isShort b.engine = true

theorem accepted_iff {b : IssuedProvisioningBinding} (H : b.Valid) (now : Int) :
    b.accepted now = true ↔ now < b.expiresAt ∧ b.Short := by
  unfold IssuedProvisioningBinding.accepted IssuedProvisioningBinding.Short
  rw [H.urlHash, H.sessionId, H.workspaceId]
  simp only [Bool.and_true, Bool.and_eq_true, decide_eq_true_eq, and_assoc]

theorem load_eq {b : IssuedProvisioningBinding} {latest : Option String} {acc : Bindings}
    (hgeneration : IsGeneration b.generation) (hlatest : Covered b.generation latest)
    (hnew : ∀ c ∈ acc, c.generation ≠ b.generation) (now : Int) :
    IssuedProvisioningState.load now ⟨latest, acc⟩ b =
      ⟨latest, acc ++ [b].filter (·.accepted now)⟩ := by
  have hold : IssuedProvisioningState.isNewer b.generation latest = false := by
    obtain ⟨l, rfl, hle⟩ := hlatest
    exact decide_eq_false (not_lt_of_ge hle)
  have hset : Bindings.set acc b = acc ++ [b] := by
    unfold Bindings.set
    rw [Bindings.get_eq_none.mpr hnew]
    exact if_neg Bool.false_ne_true
  unfold IssuedProvisioningState.load
  rw [hgeneration]
  dsimp only
  cases haccepted : b.accepted now with
  | true =>
    have hfilter : [b].filter (·.accepted now) = [b] := by simp [haccepted]
    rw [if_pos rfl, hold, if_neg Bool.false_ne_true, hset, hfilter]
  | false =>
    have hfilter : [b].filter (·.accepted now) = [] := by simp [haccepted]
    rw [if_neg Bool.false_ne_true, hfilter, List.append_nil]

theorem foldl_load (now : Int) {bindings : Bindings} {latest : Option String} {acc : Bindings}
    (hdistinct : Bindings.Distinct (acc ++ bindings))
    (hgeneration : ∀ b ∈ bindings, IsGeneration b.generation)
    (hlatest : ∀ b ∈ bindings, Covered b.generation latest) :
    bindings.foldl (IssuedProvisioningState.load now) ⟨latest, acc⟩ =
      ⟨latest, acc ++ bindings.filter (·.accepted now)⟩ := by
  induction bindings generalizing acc with
  | nil => rw [List.foldl_nil, List.filter_nil, List.append_nil]
  | cons b bindings ih =>
    rw [List.forall_mem_cons] at hgeneration hlatest
    have hnew : ∀ c ∈ acc, c.generation ≠ b.generation := by
      intro c hc
      unfold Bindings.Distinct at hdistinct
      rw [List.map_append, List.nodup_append] at hdistinct
      exact hdistinct.2.2 _ (List.mem_map_of_mem hc) _ (List.mem_map_of_mem List.mem_cons_self)
    have hrest : Bindings.Distinct (acc ++ [b].filter (·.accepted now) ++ bindings) := by
      refine hdistinct.sublist ?_
      rw [List.append_assoc]
      refine (List.Sublist.refl acc).append ?_
      exact List.filter_sublist.append (List.Sublist.refl bindings)
    rw [List.foldl_cons, load_eq hgeneration.1 hlatest.1 hnew, ih hrest hgeneration.2 hlatest.2,
      List.append_assoc, ← List.filter_append]
    rfl

/-! ## The invariant -/

/-- What memory and the files have in common. -/
structure Kept (s : Store) : Prop where
  sublist : s.bindings.Sublist s.files.issued.bindings
  distinct : s.files.issued.bindings.Distinct
  length : s.files.issued.bindings.length ≤ MAX_ISSUED_BINDINGS
  valid : ∀ b ∈ s.files.issued.bindings, b.Valid
  covered : ∀ b ∈ s.files.issued.bindings, Covered b.generation s.files.issued.latest
  notification : s.proxy.latestProvisioningGeneration = loadProvisioningGeneration s.files
  latest : s.proxy.latestIssuedProvisioningGeneration =
      laterOf s.files.issued.latest (loadProvisioningGeneration s.files) ∨
    -- the process has started with a file that is too large
    MAX_ISSUED_STATE_BYTES < s.files.issued.size ∧ s.bindings = [] ∧
      s.proxy.latestIssuedProvisioningGeneration = loadProvisioningGeneration s.files

theorem load_of_size {file : IssuedFile} (hsize : file.size ≤ MAX_ISSUED_STATE_BYTES)
    (hdistinct : file.bindings.Distinct) (hlength : file.bindings.length ≤ MAX_ISSUED_BINDINGS)
    (hvalid : ∀ b ∈ file.bindings, b.Valid)
    (hcovered : ∀ b ∈ file.bindings, Covered b.generation file.latest) (now : Int) :
    loadIssuedProvisioningState file now =
      ⟨file.latest, file.bindings.filter (·.accepted now)⟩ := by
  unfold loadIssuedProvisioningState
  rw [if_neg (Nat.not_lt_of_le hsize)]
  cases file with
  | absent => rfl
  | legacy generation => rfl
  | saved state =>
    have hlatest : state.bindings.latest = state.bindings := Bindings.latest_eq hlength
    show state.bindings.latest.foldl _ _ = _
    rw [hlatest]
    exact foldl_load now hdistinct (fun b hb => (hvalid b hb).generation) hcovered

namespace Kept

variable {cfg : GatewayConfig} {s : Store}

theorem coveredByLatest (H : Kept s) : ∀ b ∈ s.bindings,
    Covered b.generation s.proxy.latestIssuedProvisioningGeneration := by
  intro b hb
  obtain h | ⟨-, h, -⟩ := H.latest
  · obtain ⟨l, hl, hle⟩ := H.covered b (H.sublist.subset hb)
    rw [h]
    exact (laterOf_covers_issued hl).trans hle
  · rw [h] at hb
    exact absurd hb List.not_mem_nil

theorem notificationCovered (H : Kept s) : ∀ n, loadProvisioningGeneration s.files = some n →
    Covered n s.proxy.latestIssuedProvisioningGeneration := by
  intro n hn
  obtain h | ⟨-, -, h⟩ := H.latest
  · rw [h]
    exact laterOf_covers hn
  · rw [h]
    exact ⟨n, hn, le_refl n⟩

theorem latestGeneration (H : Kept s) : ∀ l,
    s.proxy.latestIssuedProvisioningGeneration = some l → IsGeneration l := by
  intro l hl
  obtain h | ⟨-, -, h⟩ := H.latest
  · rw [h] at hl
    obtain h' | h' := laterOf_or s.files.issued.latest (loadProvisioningGeneration s.files)
    · exact IssuedFile.latest_generation (h'.symm.trans hl)
    · exact Isolation.isGeneration_of_decode (h'.symm.trans hl)
  · exact Isolation.isGeneration_of_decode (h.symm.trans hl)

/-- Bindings that are saved with a generation that covers them. -/
theorem saved (H : Kept s) {latest : Option String} {bindings : Bindings}
    (hdistinct : bindings.Distinct) (hlength : bindings.length ≤ MAX_ISSUED_BINDINGS)
    (hvalid : ∀ b ∈ bindings, b.Valid) (hcovered : ∀ b ∈ bindings, Covered b.generation latest)
    (hlatest : ∀ l, latest = some l → IsGeneration l)
    (hnotification : ∀ n, loadProvisioningGeneration s.files = some n → Covered n latest) :
    Kept { s.withSaved latest bindings with proxy.latestIssuedProvisioningGeneration := latest } := by
  have hdecode : decodeProvisioningGeneration latest = latest := by
    cases latest with
    | none => rfl
    | some l => exact hlatest l rfl
  have hbindings : bindings.latest = bindings := Bindings.latest_eq hlength
  have hfile : (s.withSaved latest bindings).files.issued = .saved ⟨latest, bindings⟩ := by
    show IssuedFile.saved ⟨latest, bindings.latest⟩ = _
    rw [hbindings]
  have hsaved : (s.withSaved latest bindings).files.issued.bindings = bindings := by rw [hfile]; rfl
  have hsavedLatest : (s.withSaved latest bindings).files.issued.latest = latest := by
    rw [hfile]
    exact hdecode
  exact {
    sublist := by
      show bindings.Sublist (s.withSaved latest bindings).files.issued.bindings
      rw [hsaved]
    distinct := hsaved.symm ▸ hdistinct
    length := hsaved.symm ▸ hlength
    valid := hsaved.symm ▸ hvalid
    covered := by
      show ∀ b ∈ (s.withSaved latest bindings).files.issued.bindings,
        Covered b.generation (s.withSaved latest bindings).files.issued.latest
      rw [hsaved, hsavedLatest]
      exact hcovered
    notification := H.notification
    latest := .inl (by
      show latest = laterOf (s.withSaved latest bindings).files.issued.latest
        (loadProvisioningGeneration s.files)
      rw [hsavedLatest, laterOf_eq hnotification]) }

theorem validInMemory (H : Kept s) : ∀ b ∈ s.bindings, b.Valid :=
  fun b hb => H.valid b (H.sublist.subset hb)

/-- Bindings that are saved with the latest generation. -/
theorem withSaved (H : Kept s) {bindings : Bindings} (hdistinct : bindings.Distinct)
    (hlength : bindings.length ≤ MAX_ISSUED_BINDINGS) (hvalid : ∀ b ∈ bindings, b.Valid)
    (hcovered : ∀ b ∈ bindings,
      Covered b.generation s.proxy.latestIssuedProvisioningGeneration) :
    Kept (s.withSaved s.proxy.latestIssuedProvisioningGeneration bindings) :=
  H.saved hdistinct hlength hvalid hcovered H.latestGeneration H.notificationCovered

theorem distinctInMemory (H : Kept s) : s.bindings.Distinct := H.distinct.sublist H.sublist

theorem lengthInMemory (H : Kept s) : s.bindings.length ≤ MAX_ISSUED_BINDINGS :=
  H.sublist.length_le.trans H.length

theorem pruned (H : Kept s) (now : Int) : Kept (s.pruned now) where
  sublist := List.filter_sublist.trans H.sublist
  distinct := H.distinct
  length := H.length
  valid := H.valid
  covered := H.covered
  notification := H.notification
  latest := H.latest.imp id fun ⟨hsize, hbindings, hlatest⟩ =>
    ⟨hsize, by show Bindings.unexpired s.bindings now = []; rw [hbindings]; rfl, hlatest⟩

theorem without (H : Kept s) (predicate : IssuedProvisioningBinding → Bool) :
    Kept (s.without predicate) := by
  have hsublist : (s.bindings.filter fun b => !predicate b).Sublist s.bindings := List.filter_sublist
  exact H.withSaved (H.distinctInMemory.sublist hsublist)
    (hsublist.length_le.trans H.lengthInMemory)
    (fun b hb => H.validInMemory b (hsublist.subset hb))
    (fun b hb => H.coveredByLatest b (hsublist.subset hb))

theorem withIssued (H : Kept s) {binding : IssuedProvisioningBinding} {uuid : Isolation.Uuidv7}
    (hnext : nextGeneration s.proxy.latestIssuedProvisioningGeneration uuid =
      some binding.generation) (hvalid : IsGeneration binding.generation → binding.Valid) {now : Int}
    (hroom : (s.bindings.unexpired now).length < MAX_ISSUED_BINDINGS) :
    Kept (s.withIssued binding now) := by
  obtain ⟨hgeneration, hlater⟩ := nextGeneration_spec H.latestGeneration hnext
  have hsublist : (s.bindings.unexpired now).Sublist s.bindings := List.filter_sublist
  have hcovers : ∀ {g}, Covered g s.proxy.latestIssuedProvisioningGeneration →
      Covered g (some binding.generation) := by
    rintro g ⟨l, hl, hle⟩
    exact ⟨_, rfl, hle.trans (hlater l hl).le⟩
  refine H.saved ((H.distinctInMemory.sublist hsublist).set binding) ?_ (fun b hb => ?_)
    (fun b hb => ?_) (fun l hl => Option.some.inj hl ▸ hgeneration)
    (fun n hn => hcovers (H.notificationCovered n hn))
  · rw [Bindings.length_set]
    split <;> omega
  · obtain rfl | ⟨hb, -⟩ := Bindings.mem_set hb
    · exact hvalid hgeneration
    · exact H.validInMemory b (hsublist.subset hb)
  · obtain rfl | ⟨hb, -⟩ := Bindings.mem_set hb
    · exact ⟨_, rfl, le_refl _⟩
    · exact hcovers (H.coveredByLatest b (hsublist.subset hb))

theorem withSession (H : Kept s) {binding final : IssuedProvisioningBinding} {body : List UInt8}
    {now : Int} (hget : s.bindings.get binding.generation = some binding)
    (hfinal : Store.finalized cfg binding body now = some final)
    (supersededGeneration : Option String) : Kept (s.withSession final supersededGeneration) := by
  obtain ⟨hmem, -⟩ := Bindings.mem_of_get hget
  obtain ⟨sessionId, expiresAt, -, hsession, -, -, rfl⟩ := Store.finalized_eq hfinal
  have hsublist := Bindings.dropSuperseded_sublist
    (s.bindings.set { binding with sessionId := some sessionId, expiresAt })
    { binding with sessionId := some sessionId, expiresAt } supersededGeneration
  refine H.withSaved ((H.distinctInMemory.set _).sublist hsublist) ?_ (fun b hb => ?_)
    (fun b hb => ?_)
  · refine hsublist.length_le.trans ?_
    rw [Bindings.length_set, hget]
    exact H.lengthInMemory
  · obtain rfl | ⟨hb, -⟩ := Bindings.mem_set (hsublist.subset hb)
    · exact { H.validInMemory binding hmem with sessionId := hsession }
    · exact H.validInMemory b hb
  · obtain rfl | ⟨hb, -⟩ := Bindings.mem_set (hsublist.subset hb)
    · exact H.coveredByLatest binding hmem
    · exact H.coveredByLatest b hb

theorem withNotification (H : Kept s) {generation : String} (hgeneration : IsGeneration generation)
    (hcovered : Covered generation s.proxy.latestIssuedProvisioningGeneration)
    (hbindings : s.bindings ≠ [])
    (hnewer : IssuedProvisioningState.isNewer generation s.proxy.latestProvisioningGeneration =
      true) : Kept (s.withNotification generation) := by
  refine { H with notification := hgeneration.symm, latest := .inl ?_ }
  have hlatest := H.latest.resolve_right fun h => hbindings h.2.1
  show s.proxy.latestIssuedProvisioningGeneration =
    laterOf s.files.issued.latest (decodeProvisioningGeneration (some generation))
  rw [hgeneration]
  obtain h | h := laterOf_or s.files.issued.latest (loadProvisioningGeneration s.files)
  · rw [hlatest, h] at hcovered
    rw [hlatest, h, laterOf_eq fun n hn => Option.some.inj hn ▸ hcovered]
  · -- the notification would not be newer than the last one
    rw [hlatest, h] at hcovered
    obtain ⟨l, hl, hle⟩ := hcovered
    exact absurd hle (not_le_of_gt (isNewer_iff.mp hnewer l (H.notification.trans hl)))

theorem change {a b : Books} (h : Change cfg a b) (H : Kept a.store) : Kept b.store := by
  cases h with
  | prune now => exact H.pruned now
  | issue options uuid issuedAt now hnext hroom hworkspace =>
    refine H.withIssued hnext (fun hgeneration => ?_) hroom
    refine ⟨hgeneration, cfg.isUrlHash_sha256 _, rfl, ?_⟩
    show (options.workspaceId.filter (· ≠ "")).all validWorkspaceId = true
    cases hid : options.workspaceId with
    | none => rfl
    | some workspaceId =>
      rw [hid] at hworkspace
      rw [Option.filter_some]
      split
      next => exact hworkspace
      next => rfl
  | bind body now supersededGeneration hget hfinal =>
    exact H.withSession hget hfinal supersededGeneration
  | release predicate => exact H.without predicate
  | notify hfor hnewer =>
    obtain ⟨hget, -⟩ := Option.filter_eq_some_iff.mp hfor.relayed
    obtain ⟨hmem, hgeneration⟩ := Bindings.mem_of_get hget
    rw [← hgeneration] at hnewer ⊢
    exact H.withNotification (H.validInMemory _ hmem).generation (H.coveredByLatest _ hmem)
      (List.ne_nil_of_mem hmem) hnewer
  | notifyAgain => exact H

theorem restart (H : Kept s) (now : Int) : Kept ⟨s.files, .ofFiles s.files now⟩ := by
  by_cases hsize : s.files.issued.size ≤ MAX_ISSUED_STATE_BYTES
  · have hload := load_of_size hsize H.distinct H.length H.valid H.covered now
    refine { H with sublist := ?_, notification := rfl, latest := .inl ?_ }
    · show (loadIssuedProvisioningState s.files.issued now).bindings.Sublist _
      rw [hload]
      exact List.filter_sublist
    · rw [ofFiles_latestIssued, hload]
  · have hload : loadIssuedProvisioningState s.files.issued now = .empty :=
      if_pos (Nat.lt_of_not_le hsize)
    have hbindings : (UserWorkerProxy.ofFiles s.files now).issuedProvisioningBindings = [] := by
      show (loadIssuedProvisioningState s.files.issued now).bindings = []
      rw [hload]
      rfl
    refine { H with sublist := ?_, notification := rfl, latest := .inr ⟨?_, hbindings, ?_⟩ }
    · show (UserWorkerProxy.ofFiles s.files now).issuedProvisioningBindings.Sublist _
      rw [hbindings]
      exact List.nil_sublist _
    · exact Nat.lt_of_not_le hsize
    · rw [ofFiles_latestIssued, hload]
      rfl

end Kept

theorem kept_init (earlier : EarlierFiles) (now : Int) :
    Kept ⟨earlier.files, .ofFiles earlier.files now⟩ := by
  have hnone : earlier.files.issued.bindings = [] := by
    unfold EarlierFiles.files
    dsimp only
    split <;> rfl
  have hempty : Kept ⟨earlier.files, ⟨loadProvisioningGeneration earlier.files,
      laterOf earlier.files.issued.latest (loadProvisioningGeneration earlier.files), []⟩⟩ := {
    sublist := List.nil_sublist _
    distinct := hnone.symm ▸ List.nodup_nil
    length := hnone.symm ▸ Nat.zero_le _
    valid := hnone.symm ▸ List.forall_mem_nil _
    covered := hnone.symm ▸ List.forall_mem_nil _
    notification := rfl
    latest := .inl rfl }
  exact hempty.restart now

theorem kept_reachable {cfg : GatewayConfig} {earlier : EarlierFiles} {start : Int} {g : Gateway}
    (h : (gateway cfg earlier start).Reachable g) : Kept g.store := by
  refine h.keeps (I := fun g => Kept g.store) (kept_init earlier start) fun g event H => ?_
  obtain hchanges | ⟨now, rfl⟩ := g.step_cases cfg event
  · exact hchanges.keeps (I := fun books => Kept books.store) (fun a b => Kept.change) H
  · exact H.restart now

/-! ## Another start -/

/-- Another start at `now` has the latest generation and the unexpired bindings. -/
def Restored (s : Store) (now : Int) : Prop :=
  let proxy := UserWorkerProxy.ofFiles s.files now
  proxy.latestIssuedProvisioningGeneration = s.proxy.latestIssuedProvisioningGeneration ∧
    proxy.issuedProvisioningBindings = s.bindings.unexpired now

/-- The file is not too large, the loader accepts every account and engine in memory, and the file
has no binding that memory has not. Of a file that is too large nothing may be needed. -/
def Restorable (s : Store) (now : Int) : Prop :=
  (s.files.issued.size ≤ MAX_ISSUED_STATE_BYTES ∧
    (∀ b ∈ s.bindings, now < b.expiresAt → b.Short) ∧
    ∀ b ∈ s.files.issued.bindings, now < b.expiresAt → b.Short → b ∈ s.bindings) ∨
  (MAX_ISSUED_STATE_BYTES < s.files.issued.size ∧
    s.proxy.latestIssuedProvisioningGeneration = s.proxy.latestProvisioningGeneration ∧
    s.bindings.unexpired now = [])

theorem filter_mem_of_sublist {bindings all : Bindings} (h : bindings.Sublist all)
    (hnodup : all.Nodup) : all.filter (fun b => decide (b ∈ bindings)) = bindings := by
  induction h with
  | slnil => rfl
  | @cons bindings all b hsub ih =>
    obtain ⟨hb, hrest⟩ := List.nodup_cons.mp hnodup
    rw [List.filter_cons_of_neg (by simpa using fun h => hb (hsub.subset h)), ih hrest]
  | @cons_cons bindings all b hsub ih =>
    obtain ⟨hb, hrest⟩ := List.nodup_cons.mp hnodup
    rw [List.filter_cons_of_pos (by simp)]
    refine congrArg (b :: ·) ((List.filter_congr fun c hc => ?_).trans (ih hrest))
    have hne : c ≠ b := by
      rintro rfl
      exact hb hc
    simp [hne]

theorem Kept.restored_iff {s : Store} (H : Kept s) (now : Int) : Restored s now ↔ Restorable s now := by
  unfold Restored Restorable
  dsimp only
  rw [ofFiles_latestIssued]
  show _ ∧ (loadIssuedProvisioningState s.files.issued now).bindings = _ ↔ _
  by_cases hsize : s.files.issued.size ≤ MAX_ISSUED_STATE_BYTES
  · have hload := load_of_size hsize H.distinct H.length H.valid H.covered now
    have hlatest := H.latest.resolve_right fun h => absurd h.1 (Nat.not_lt_of_le hsize)
    rw [hload, hlatest]
    have haccepted : ∀ b ∈ s.files.issued.bindings,
        b.accepted now = true ↔ now < b.expiresAt ∧ b.Short :=
      fun b hb => accepted_iff (H.valid b hb) now
    constructor
    · rintro ⟨-, hbindings⟩
      replace hbindings : s.files.issued.bindings.filter (·.accepted now) =
        s.bindings.unexpired now := hbindings
      refine .inl ⟨hsize, fun b hb hunexpired => ?_, fun b hb hunexpired hshort => ?_⟩
      · have hmem := Bindings.mem_unexpired.mpr ⟨hb, hunexpired⟩
        rw [← hbindings, List.mem_filter] at hmem
        exact ((haccepted b hmem.1).mp hmem.2).2
      · have hmem : b ∈ s.files.issued.bindings.filter (·.accepted now) :=
          List.mem_filter.mpr ⟨hb, (haccepted b hb).mpr ⟨hunexpired, hshort⟩⟩
        rw [hbindings] at hmem
        exact (Bindings.mem_unexpired.mp hmem).1
    · rintro (⟨-, hshort, hmemory⟩ | ⟨hlarge, -⟩)
      · refine ⟨rfl, ?_⟩
        show s.files.issued.bindings.filter (·.accepted now) = s.bindings.unexpired now
        have hnodup : s.files.issued.bindings.Nodup := List.Nodup.of_map _ H.distinct
        rw [← filter_mem_of_sublist H.sublist hnodup]
        unfold Bindings.unexpired
        rw [List.filter_filter]
        refine List.filter_congr fun b hb => ?_
        rw [Bool.eq_iff_iff, haccepted b hb, Bool.and_eq_true, decide_eq_true_eq,
          decide_eq_true_eq]
        constructor
        · rintro ⟨hunexpired, h⟩
          exact ⟨hunexpired, hmemory b hb hunexpired h⟩
        · rintro ⟨hunexpired, h⟩
          exact ⟨hunexpired, hshort b h hunexpired⟩
      · exact absurd hlarge (Nat.not_lt_of_le hsize)
  · have hload : loadIssuedProvisioningState s.files.issued now = .empty :=
      if_pos (Nat.lt_of_not_le hsize)
    rw [hload, H.notification]
    show loadProvisioningGeneration s.files = _ ∧ [] = _ ↔ _
    constructor
    · rintro ⟨hlatest, hbindings⟩
      exact .inr ⟨Nat.lt_of_not_le hsize, hlatest.symm, hbindings.symm⟩
    · rintro (⟨hsmall, -⟩ | ⟨-, hlatest, hbindings⟩)
      · exact absurd hsmall hsize
      · exact ⟨hlatest.symm, hbindings.symm⟩

/-! ## A save that throws -/

/-- The latest generation and the unexpired bindings are what they were. -/
def Unchanged (s s' : Store) (now : Int) : Prop :=
  s'.proxy.latestIssuedProvisioningGeneration = s.proxy.latestIssuedProvisioningGeneration ∧
    s'.bindings.unexpired now = s.bindings.unexpired now

theorem unchanged_pruned (s : Store) (now : Int) : Unchanged s (s.pruned now) now := by
  refine ⟨rfl, ?_⟩
  show Bindings.unexpired (Bindings.unexpired s.bindings now) now = _
  unfold Bindings.unexpired
  rw [List.filter_filter]
  simp only [Bool.and_self]

theorem issue_unsaved (cfg : GatewayConfig) (s : Store) (options : IssueOptions)
    (uuid : Isolation.Uuidv7) (issuedAt now : Int) :
    Unchanged s (s.issueProvisioningGeneration cfg options uuid issuedAt now false).1 now := by
  have heta := (Prod.eta (s.issueProvisioningGeneration cfg options uuid issuedAt now false)).symm
  obtain ⟨-, h | h⟩ | ⟨h, -⟩ := Store.issue_cases heta
  · rw [h]
    exact ⟨rfl, rfl⟩
  · rw [h]
    exact unchanged_pruned s now
  · exact absurd h Bool.false_ne_true

theorem bind_unsaved (cfg : GatewayConfig) (s : Store) (binding : IssuedProvisioningBinding)
    (body : List UInt8) (supersededGeneration : Option String) (now : Int) :
    (s.bindIssuedGenerationToSession cfg binding body supersededGeneration now false).1 = s := by
  have heta := (Prod.eta
    (s.bindIssuedGenerationToSession cfg binding body supersededGeneration now false)).symm
  obtain ⟨-, h⟩ | ⟨-, h, -⟩ := Store.bind_cases heta
  · exact h
  · exact absurd h Bool.false_ne_true

theorem release_unsaved (s : Store) (predicate : IssuedProvisioningBinding → Bool) :
    (s.releaseIssuedBindings predicate false).1 = s := by
  have heta := (Prod.eta (s.releaseIssuedBindings predicate false)).symm
  obtain ⟨-, -, h⟩ | ⟨-, -, h⟩ := Store.release_cases heta
  · exact h
  · exact h

/-- In every reachable state another start restores the bindings iff the state is restorable, and a
save that throws changes nothing. -/
theorem restored_iff_restorable (cfg : GatewayConfig) (earlier : EarlierFiles) (start : Int)
    (g : Gateway) (h : (gateway cfg earlier start).Reachable g) :
    (∀ now, Restored g.store now ↔ Restorable g.store now) ∧
      (∀ options uuid issuedAt now, Unchanged g.store
        (g.store.issueProvisioningGeneration cfg options uuid issuedAt now false).1 now) ∧
      (∀ binding body supersededGeneration now, (g.store.bindIssuedGenerationToSession cfg binding
        body supersededGeneration now false).1 = g.store) ∧
      ∀ predicate, (g.store.releaseIssuedBindings predicate false).1 = g.store :=
  ⟨(kept_reachable h).restored_iff, issue_unsaved cfg g.store, bind_unsaved cfg g.store,
    release_unsaved g.store⟩

theorem restored_iff_restorable_issued :
    let g := (gateway plainGateway ⟨none, none⟩ 0).run (issueEvents 0 "claude" 1)
    (∀ now, Restored g.store now ↔ Restorable g.store now) ∧
      (∀ options uuid issuedAt now, Unchanged g.store (g.store.issueProvisioningGeneration
        plainGateway options uuid issuedAt now false).1 now) ∧
      (∀ binding body supersededGeneration now, (g.store.bindIssuedGenerationToSession plainGateway
        binding body supersededGeneration now false).1 = g.store) ∧
      ∀ predicate, (g.store.releaseIssuedBindings predicate false).1 = g.store :=
  restored_iff_restorable plainGateway ⟨none, none⟩ 0 _ ⟨issueEvents 0 "claude" 1, rfl⟩

/-- The binding of an engine whose name has 257 characters is lost. -/
theorem issued_notRestored : ¬Restored ((gateway plainGateway ⟨none, none⟩ 0).run
    (issueEvents 0 (String.ofList (List.replicate 257 'a')) 1)).store 0 := by
  unfold Restored
  decide +kernel

end CliProxy.WorkerProxy
