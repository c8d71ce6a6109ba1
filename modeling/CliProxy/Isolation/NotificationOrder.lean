import CliProxy.Isolation.BindingChanges

/-! # The order of provisioning notifications

The invariant `Ordered` ties the latest generations in memory and in both files to what was issued
and relayed. Every change of the store keeps it, and so does another start that finds the latest
generation in one of the files. -/

namespace CliProxy.WorkerProxy

open Isolation (decodeProvisioningGeneration provisioningGenerationTimestamp IsGeneration Uuidv7 plainUuidv7
  uuidText MAX_TIMESTAMP)

/-! ## Generations -/

/-- `generation` is not later than the latest one. -/
def Covered (generation : String) (latest : Option String) : Prop :=
  ∃ l, latest = some l ∧ generation ≤ l

theorem Covered.trans {g l : String} {latest : Option String} (h : g ≤ l)
    (H : Covered l latest) : Covered g latest := by
  obtain ⟨m, hm, hlm⟩ := H
  exact ⟨m, hm, h.trans hlm⟩

theorem isNewer_iff {generation : String} {latest : Option String} :
    IssuedProvisioningState.isNewer generation latest = true ↔ ∀ l, latest = some l → l < generation := by
  cases latest with
  | none => exact iff_of_true rfl (fun _ h => absurd h.symm (Option.some_ne_none _))
  | some l =>
    rw [IssuedProvisioningState.isNewer, Option.all_some, decide_eq_true_eq]
    exact ⟨fun h m hm => Option.some.inj hm ▸ h, fun h => h l rfl⟩

/-- The next generation is later than the latest one. -/
theorem nextGeneration_spec {latest : Option String} {uuid : Uuidv7} {generation : String}
    (hlatest : ∀ l, latest = some l → IsGeneration l)
    (h : nextGeneration latest uuid = some generation) :
    IsGeneration generation ∧ ∀ l, latest = some l → l < generation := by
  cases latest with
  | none =>
    obtain rfl := Option.some.inj h
    exact ⟨uuid.isGeneration_fresh, fun _ h => absurd h.symm (Option.some_ne_none _)⟩
  | some l =>
    unfold nextGeneration at h
    dsimp only at h
    split at h
    next =>
      split at h
      next => exact absurd h.symm (Option.some_ne_none _)
      next hspace =>
        obtain rfl := Option.some.inj h
        have hle := Nat.le_of_not_lt hspace
        have hgeneration := uuid.isGeneration_ofMsecs _ hle
        refine ⟨hgeneration, fun m hm => ?_⟩
        obtain rfl := Option.some.inj hm
        refine Isolation.lt_of_timestamp_lt (hlatest l rfl) hgeneration ?_
        rw [uuid.timestamp_ofMsecs _ hle]
        exact Nat.lt_succ_self _
    next hlt =>
      obtain rfl := Option.some.inj h
      exact ⟨uuid.isGeneration_fresh, fun m hm => Option.some.inj hm ▸ lt_of_not_ge hlt⟩

/-! ## Loading -/

namespace IssuedFile

/-- The latest generation in the file. -/
def latest : IssuedFile → Option String
  | absent => none
  | legacy generation => decodeProvisioningGeneration (some generation)
  | saved state => decodeProvisioningGeneration state.latestGeneration

def bindings : IssuedFile → Bindings
  | absent | legacy _ => []
  | saved state => state.bindings

end IssuedFile

theorem decode_covers {latest : Option String} {l : String}
    (h : decodeProvisioningGeneration latest = some l) : IsGeneration l :=
  Isolation.isGeneration_of_decode h

/-- What the loop of the loader has read. -/
structure Loaded (bindings : Bindings) (s t : IssuedProvisioningState) : Prop where
  latest : ∀ {g}, Covered g s.latestGeneration → Covered g t.latestGeneration
  generation : (∀ l, s.latestGeneration = some l → IsGeneration l) →
    ∀ l, t.latestGeneration = some l → IsGeneration l
  mem : ∀ b ∈ t.bindings, b ∈ s.bindings ∨ b ∈ bindings

theorem loaded_foldl (now : Int) (bindings : Bindings) (s : IssuedProvisioningState)
    (hgenerations : ∀ b ∈ bindings, IsGeneration b.generation) :
    Loaded bindings s (bindings.foldl (IssuedProvisioningState.load now) s) := by
  induction bindings generalizing s with
  | nil => exact ⟨id, id, fun _ h => .inl h⟩
  | cons b bindings ih =>
    rw [List.forall_mem_cons] at hgenerations
    have hload : Loaded [b] s (s.load now b) := by
      unfold IssuedProvisioningState.load
      rw [hgenerations.1]
      dsimp only
      split
      next =>
        refine ⟨fun {g} hg => ?_, fun hs l hl => ?_, fun c hc => ?_⟩
        · dsimp only
          split
          next hnewer =>
            obtain ⟨l, hl, hgl⟩ := hg
            exact ⟨_, rfl, hgl.trans (isNewer_iff.mp hnewer l hl).le⟩
          next => exact hg
        · dsimp only at hl
          split at hl
          next => exact Option.some.inj hl ▸ hgenerations.1
          next => exact hs l hl
        · obtain rfl | ⟨hc, -⟩ := Bindings.mem_set hc
          · exact .inr (List.mem_singleton_self _)
          · exact .inl hc
      next => exact ⟨id, id, fun _ h => .inl h⟩
    have hrest := ih (s.load now b) hgenerations.2
    refine ⟨fun hg => hrest.latest (hload.latest hg),
      fun hs => hrest.generation (hload.generation hs), fun c hc => ?_⟩
    obtain hc | hc := hrest.mem c hc
    · obtain hc | hc := hload.mem c hc
      · exact .inl hc
      · exact .inr (List.mem_singleton.mp hc ▸ List.mem_cons_self)
    · exact .inr (List.mem_cons_of_mem b hc)

theorem mem_latest {bindings : Bindings} {b : IssuedProvisioningBinding}
    (h : b ∈ bindings.latest) : b ∈ bindings := by
  unfold Bindings.latest at h
  exact List.mem_of_mem_drop h

/-- What is loaded from a file that is not too large. -/
theorem loaded_of_size {file : IssuedFile} (hsize : file.size ≤ MAX_ISSUED_STATE_BYTES)
    (hgenerations : ∀ b ∈ file.bindings, IsGeneration b.generation) (now : Int) :
    Loaded file.bindings ⟨file.latest, []⟩ (loadIssuedProvisioningState file now) := by
  unfold loadIssuedProvisioningState
  rw [if_neg (Nat.not_lt_of_le hsize)]
  cases file with
  | absent => exact ⟨id, id, fun _ h => .inl h⟩
  | legacy generation => exact ⟨id, id, fun _ h => .inl h⟩
  | saved state =>
    have hloaded := loaded_foldl now state.bindings.latest
      ⟨decodeProvisioningGeneration state.latestGeneration, []⟩
      (fun b hb => hgenerations b (mem_latest hb))
    exact ⟨hloaded.latest, hloaded.generation, fun b hb => (hloaded.mem b hb).imp id mem_latest⟩

theorem loaded_of_large {file : IssuedFile} (hsize : MAX_ISSUED_STATE_BYTES < file.size)
    (now : Int) : loadIssuedProvisioningState file now = .empty := if_pos hsize

theorem IssuedFile.latest_generation {file : IssuedFile} {l : String} (h : file.latest = some l) :
    IsGeneration l := by
  cases file with
  | absent => exact absurd h.symm (Option.some_ne_none l)
  | legacy generation | saved state => exact Isolation.isGeneration_of_decode h

/-- However large the file is, only what it holds is loaded. -/
theorem loaded_spec {file : IssuedFile}
    (hgenerations : ∀ b ∈ file.bindings, IsGeneration b.generation) (now : Int) :
    (∀ l, (loadIssuedProvisioningState file now).latestGeneration = some l → IsGeneration l) ∧
      ∀ b ∈ (loadIssuedProvisioningState file now).bindings, b ∈ file.bindings := by
  by_cases hsize : file.size ≤ MAX_ISSUED_STATE_BYTES
  · have L := loaded_of_size hsize hgenerations now
    exact ⟨L.generation fun _ h => IssuedFile.latest_generation h,
      fun b hb => (L.mem b hb).resolve_left List.not_mem_nil⟩
  · rw [loaded_of_large (Nat.lt_of_not_le hsize)]
    exact ⟨fun l hl => absurd hl.symm (Option.some_ne_none l), fun b hb => absurd hb List.not_mem_nil⟩

namespace UserWorkerProxy

variable {files : Files} {now : Int}

/-- The latest issued generation is the later one of those in the two files. -/
theorem latestIssued_covers {g : String}
    (h : Covered g (loadIssuedProvisioningState files.issued now).latestGeneration ∨
      Covered g (loadProvisioningGeneration files)) :
    Covered g (ofFiles files now).latestIssuedProvisioningGeneration := by
  unfold ofFiles
  dsimp only
  split
  next l hl =>
    split
    next hnewer =>
      obtain ⟨m, hm, hgm⟩ | ⟨m, hm, hgm⟩ := h
      · exact ⟨m, hl.symm.trans hm, hgm⟩
      · exact ⟨l, rfl, hgm.trans (isNewer_iff.mp hnewer m hm).le⟩
    next hold =>
      obtain ⟨m, hm, hgm⟩ | h := h
      · obtain rfl := Option.some.inj (hl.symm.trans hm)
        rw [isNewer_iff] at hold
        simp only [not_forall, not_lt] at hold
        obtain ⟨n, hn, hmn⟩ := hold
        exact ⟨n, hn, hgm.trans hmn⟩
      · exact h
  next hnone =>
    obtain ⟨m, hm, -⟩ | h := h
    · exact absurd (hm.symm.trans hnone) (Option.some_ne_none m)
    · exact h

theorem latestIssued_generation (h : ∀ l,
      (loadIssuedProvisioningState files.issued now).latestGeneration = some l → IsGeneration l) :
    ∀ l, (ofFiles files now).latestIssuedProvisioningGeneration = some l → IsGeneration l := by
  intro l hl
  unfold ofFiles at hl
  dsimp only at hl
  split at hl
  next m hm =>
    split at hl
    next => exact Option.some.inj hl ▸ h m hm
    next => exact Isolation.isGeneration_of_decode hl
  next => exact Isolation.isGeneration_of_decode hl

end UserWorkerProxy

/-! ## What was issued, bound and relayed -/

/-- The binding as it was issued, but for its session and the time it has left. -/
def SameBinding (issued b : IssuedProvisioningBinding) : Prop :=
  b = { issued with sessionId := b.sessionId, expiresAt := b.expiresAt }

/-- The binding was issued by this gateway, and also bound if it has a session. -/
structure Genuine (h : History) (b : IssuedProvisioningBinding) : Prop where
  issued : ∃ i ∈ h.issued, SameBinding i b
  bound : b.sessionId.isSome = true → b ∈ h.bound

/-- A notification is relayed for a binding that was issued and bound, and that has not expired. -/
def Authentic (cfg : GatewayConfig) (h : History) (n : Notification) : Prop :=
  ∃ issued ∈ h.issued, ∃ bound ∈ h.bound, SameBinding issued bound ∧
    n.generation = issued.generation ∧ n.accountName = issued.accountName ∧
    authSessionResource n.path = bound.sessionId.map (issued.engine, ·) ∧
    bound.sessionId.isSome = true ∧ cfg.provisioningUrlHash n.url = issued.urlHash ∧
    n.workspaceId = issued.workspaceId ∧ n.expiresAt = bound.expiresAt ∧ n.now < n.expiresAt

structure History.Extends (h h' : History) : Prop where
  issued : h.issued ⊆ h'.issued
  bound : h.bound ⊆ h'.bound

theorem Genuine.extend {h h' : History} {b : IssuedProvisioningBinding} (H : Genuine h b)
    (E : h.Extends h') : Genuine h' b := by
  obtain ⟨i, hi, hsame⟩ := H.issued
  exact ⟨⟨i, E.issued hi, hsame⟩, fun hs => E.bound (H.bound hs)⟩

theorem Authentic.extend {cfg : GatewayConfig} {h h' : History} {n : Notification}
    (H : Authentic cfg h n) (E : h.Extends h') : Authentic cfg h' n := by
  obtain ⟨i, hi, b, hb, hrest⟩ := H
  exact ⟨i, E.issued hi, b, E.bound hb, hrest⟩

/-- The joint invariant of the two files, of what is in memory and of what was done. -/
structure Ordered (cfg : GatewayConfig) (books : Books) : Prop where
  increasing : books.history.issued.Pairwise fun b b' => b.generation < b'.generation
  generations : ∀ b ∈ books.history.issued, IsGeneration b.generation
  latest : ∀ b ∈ books.history.issued,
    Covered b.generation books.store.proxy.latestIssuedProvisioningGeneration
  latestGeneration : ∀ l, books.store.proxy.latestIssuedProvisioningGeneration = some l →
    IsGeneration l
  saved : ∀ b ∈ books.history.issued, Covered b.generation books.store.files.issued.latest ∨
    Covered b.generation (loadProvisioningGeneration books.store.files)
  notification : books.store.proxy.latestProvisioningGeneration =
    loadProvisioningGeneration books.store.files
  nondecreasing : books.history.notified.Pairwise fun n n' => n.generation ≤ n'.generation
  notified : ∀ n ∈ books.history.notified,
    Covered n.generation books.store.proxy.latestProvisioningGeneration
  genuine : ∀ b ∈ books.store.bindings, Genuine books.history b
  genuineSaved : ∀ b ∈ books.store.files.issued.bindings, Genuine books.history b
  authentic : ∀ n ∈ books.history.notified, Authentic cfg books.history n

namespace Ordered

variable {cfg : GatewayConfig} {books : Books}

theorem isGeneration (H : Ordered cfg books) {b : IssuedProvisioningBinding}
    (hb : Genuine books.history b) : IsGeneration b.generation := by
  obtain ⟨i, hi, hsame⟩ := hb.issued
  rw [hsame]
  exact H.generations i hi

/-- The bindings are saved, with the latest generation. -/
theorem withSaved (H : Ordered cfg books) {bindings : Bindings}
    (hgenuine : ∀ b ∈ bindings, Genuine books.history b) :
    Ordered cfg { books with
      store := books.store.withSaved books.store.proxy.latestIssuedProvisioningGeneration
        bindings } where
  increasing := H.increasing
  generations := H.generations
  latest := H.latest
  latestGeneration := H.latestGeneration
  saved b hb := by
    obtain ⟨l, hl, hle⟩ := H.latest b hb
    refine .inl ⟨l, ?_, hle⟩
    show decodeProvisioningGeneration books.store.proxy.latestIssuedProvisioningGeneration = some l
    rw [hl]
    exact H.latestGeneration l hl
  notification := H.notification
  nondecreasing := H.nondecreasing
  notified := H.notified
  genuine := hgenuine
  genuineSaved b hb := hgenuine b (mem_latest hb)
  authentic := H.authentic

theorem issue (H : Ordered cfg books) {binding : IssuedProvisioningBinding} {uuid : Uuidv7}
    (hnext : nextGeneration books.store.proxy.latestIssuedProvisioningGeneration uuid =
      some binding.generation) (hsession : binding.sessionId = none) (now : Int) :
    Ordered cfg {
      store := books.store.withIssued binding now
      history.issued := books.history.issued ++ [binding]
      history.bound := books.history.bound
      history.notified := books.history.notified } := by
  obtain ⟨hgeneration, hlater⟩ := nextGeneration_spec H.latestGeneration hnext
  have hextends : History.Extends books.history
      ⟨books.history.issued ++ [binding], books.history.bound, books.history.notified⟩ :=
    ⟨List.subset_append_left _ _, List.Subset.refl _⟩
  have hbefore : ∀ b ∈ books.history.issued, b.generation < binding.generation := by
    intro b hb
    obtain ⟨l, hl, hle⟩ := H.latest b hb
    exact lt_of_le_of_lt hle (hlater l hl)
  have hcovered : ∀ b ∈ books.history.issued ++ [binding],
      Covered b.generation (some binding.generation) := by
    intro b hb
    obtain hb | hb := List.mem_append.mp hb
    · exact ⟨_, rfl, (hbefore b hb).le⟩
    · obtain rfl := List.mem_singleton.mp hb
      exact ⟨_, rfl, le_refl _⟩
  have hgenuine : ∀ b ∈ (books.store.bindings.unexpired now).set binding, Genuine
      ⟨books.history.issued ++ [binding], books.history.bound, books.history.notified⟩ b := by
    intro b hb
    obtain rfl | ⟨hb, -⟩ := Bindings.mem_set hb
    · refine ⟨⟨b, List.mem_append_right _ (List.mem_singleton_self b), rfl⟩, fun h => ?_⟩
      rw [hsession] at h
      exact absurd h Bool.false_ne_true
    · exact (H.genuine b (Bindings.mem_unexpired.mp hb).1).extend hextends
  refine {
    increasing := ?_
    generations := ?_
    latest := hcovered
    latestGeneration := fun l hl => Option.some.inj hl ▸ hgeneration
    saved := ?_
    notification := H.notification
    nondecreasing := H.nondecreasing
    notified := H.notified
    genuine := hgenuine
    genuineSaved := fun b hb => hgenuine b (mem_latest hb)
    authentic := fun n hn => (H.authentic n hn).extend hextends }
  · exact List.pairwise_append.mpr ⟨H.increasing, List.pairwise_singleton _ _,
      fun b hb b' hb' => List.mem_singleton.mp hb' ▸ hbefore b hb⟩
  · intro b hb
    obtain hb | hb := List.mem_append.mp hb
    · exact H.generations b hb
    · exact List.mem_singleton.mp hb ▸ hgeneration
  · intro b hb
    refine .inl ?_
    show Covered b.generation (decodeProvisioningGeneration (some binding.generation))
    rw [hgeneration]
    exact hcovered b hb

theorem prune (H : Ordered cfg books) (now : Int) :
    Ordered cfg { books with store := books.store.pruned now } :=
  { H with genuine := fun b hb => H.genuine b (Bindings.mem_unexpired.mp hb).1 }

theorem release (H : Ordered cfg books) (predicate : IssuedProvisioningBinding → Bool) :
    Ordered cfg { books with store := books.store.without predicate } :=
  H.withSaved fun b hb => H.genuine b (List.mem_filter.mp hb).1

theorem bound (H : Ordered cfg books) (final : IssuedProvisioningBinding) :
    Ordered cfg {
      store := books.store
      history.issued := books.history.issued
      history.bound := books.history.bound ++ [final]
      history.notified := books.history.notified } := by
  have hextends : History.Extends books.history
      ⟨books.history.issued, books.history.bound ++ [final], books.history.notified⟩ :=
    ⟨List.Subset.refl _, List.subset_append_left _ _⟩
  exact { H with
    genuine := fun b hb => (H.genuine b hb).extend hextends
    genuineSaved := fun b hb => (H.genuineSaved b hb).extend hextends
    authentic := fun n hn => (H.authentic n hn).extend hextends }

theorem bind (H : Ordered cfg books) {binding final : IssuedProvisioningBinding}
    {body : List UInt8} {now : Int}
    (hget : books.store.bindings.get binding.generation = some binding)
    (hfinal : Store.finalized cfg binding body now = some final)
    (supersededGeneration : Option String) :
    Ordered cfg {
      store := books.store.withSession final supersededGeneration
      history.issued := books.history.issued
      history.bound := books.history.bound ++ [final]
      history.notified := books.history.notified } := by
  have H' := H.bound final
  obtain ⟨i, hi, hsame⟩ := (H.genuine binding (Bindings.mem_of_get hget).1).issued
  obtain ⟨sessionId, expiresAt, -, -, -, -, rfl⟩ := Store.finalized_eq hfinal
  refine H'.withSaved fun b hb => ?_
  have hset := (Bindings.dropSuperseded_sublist _ _ _).subset hb
  obtain rfl | ⟨hb, -⟩ := Bindings.mem_set hset
  · refine ⟨⟨i, hi, ?_⟩, fun _ => List.mem_append_right _ (List.mem_singleton_self _)⟩
    unfold SameBinding at hsame ⊢
    rw [hsame]
  · exact H'.genuine b hb

/-- A binding that a notification is relayed for was issued and bound. -/
theorem authentic_for (H : Ordered cfg books) {n : Notification}
    {binding : IssuedProvisioningBinding} (hfor : n.For cfg books.store binding) :
    IsGeneration n.generation ∧ Authentic cfg books.history n := by
  obtain ⟨hget, hchecks⟩ := Option.filter_eq_some_iff.mp hfor.relayed
  simp only [Bool.and_eq_true, beq_iff_eq, decide_eq_true_eq] at hchecks
  obtain ⟨⟨⟨⟨⟨hsession, hexpires⟩, haccount⟩, hpath⟩, hhash⟩, -⟩ := hchecks
  obtain ⟨hmem, hgeneration⟩ := Bindings.mem_of_get hget
  have hgenuine := H.genuine binding hmem
  obtain ⟨i, hi, hsame⟩ := hgenuine.issued
  have hfields : binding.generation = i.generation ∧ binding.accountName = i.accountName ∧
      binding.engine = i.engine ∧ binding.urlHash = i.urlHash ∧
      binding.workspaceId = i.workspaceId := by
    rw [hsame]
    exact ⟨rfl, rfl, rfl, rfl, rfl⟩
  refine ⟨hgeneration ▸ H.isGeneration hgenuine, i, hi, binding, hgenuine.bound hsession, hsame,
    hgeneration.symm.trans hfields.1, haccount.symm.trans hfields.2.1, ?_, hsession,
    hhash.symm.trans hfields.2.2.2.1, hfor.workspaceId.trans hfields.2.2.2.2, hfor.expiresAt, ?_⟩
  · rw [hpath, hfields.2.2.1]
  · rw [hfor.expiresAt]
    exact hexpires

theorem relay (H : Ordered cfg books) {n : Notification} {binding : IssuedProvisioningBinding}
    (hfor : n.For cfg books.store binding)
    (hlatest : ∀ l, books.store.proxy.latestProvisioningGeneration = some l → l ≤ n.generation) :
    Ordered cfg {
      store := books.store.withNotification n.generation
      history.issued := books.history.issued
      history.bound := books.history.bound
      history.notified := books.history.notified ++ [n] } := by
  obtain ⟨hgeneration, hauthentic⟩ := H.authentic_for hfor
  have hextends : History.Extends books.history
      ⟨books.history.issued, books.history.bound, books.history.notified ++ [n]⟩ :=
    ⟨List.Subset.refl _, List.Subset.refl _⟩
  have hbefore : ∀ n' ∈ books.history.notified, n'.generation ≤ n.generation := by
    intro n' hn'
    obtain ⟨l, hl, hle⟩ := H.notified n' hn'
    exact hle.trans (hlatest l hl)
  refine { H with
    saved := ?_
    notification := hgeneration.symm
    nondecreasing := ?_
    notified := ?_
    genuine := fun b hb => (H.genuine b hb).extend hextends
    genuineSaved := fun b hb => (H.genuineSaved b hb).extend hextends
    authentic := ?_ }
  · intro b hb
    obtain h | ⟨l, hl, hle⟩ := H.saved b hb
    · exact .inl h
    · exact .inr ⟨_, hgeneration, hle.trans (hlatest l (H.notification.trans hl))⟩
  · exact List.pairwise_append.mpr ⟨H.nondecreasing, List.pairwise_singleton _ _,
      fun n' hn' m hm => List.mem_singleton.mp hm ▸ hbefore n' hn'⟩
  · intro n' hn'
    obtain hn' | hn' := List.mem_append.mp hn'
    · exact ⟨_, rfl, hbefore n' hn'⟩
    · exact List.mem_singleton.mp hn' ▸ ⟨_, rfl, le_refl _⟩
  · intro n' hn'
    obtain hn' | hn' := List.mem_append.mp hn'
    · exact (H.authentic n' hn').extend hextends
    · exact List.mem_singleton.mp hn' ▸ hauthentic.extend hextends

theorem relayAgain (H : Ordered cfg books) {n : Notification} {binding : IssuedProvisioningBinding}
    (hfor : n.For cfg books.store binding)
    (hlatest : books.store.proxy.latestProvisioningGeneration = some n.generation) :
    Ordered cfg { books with history.notified := books.history.notified ++ [n] } := by
  obtain ⟨-, hauthentic⟩ := H.authentic_for hfor
  have hextends : History.Extends books.history
      { books.history with notified := books.history.notified ++ [n] } :=
    ⟨List.Subset.refl _, List.Subset.refl _⟩
  have hbefore : ∀ n' ∈ books.history.notified, n'.generation ≤ n.generation := by
    intro n' hn'
    obtain ⟨l, hl, hle⟩ := H.notified n' hn'
    exact Option.some.inj (hl.symm.trans hlatest) ▸ hle
  refine { H with
    nondecreasing := ?_
    notified := ?_
    genuine := fun b hb => (H.genuine b hb).extend hextends
    genuineSaved := fun b hb => (H.genuineSaved b hb).extend hextends
    authentic := ?_ }
  · exact List.pairwise_append.mpr ⟨H.nondecreasing, List.pairwise_singleton _ _,
      fun n' hn' m hm => List.mem_singleton.mp hm ▸ hbefore n' hn'⟩
  · intro n' hn'
    obtain hn' | hn' := List.mem_append.mp hn'
    · exact H.notified n' hn'
    · obtain rfl := List.mem_singleton.mp hn'
      exact ⟨_, hlatest, le_refl _⟩
  · intro n' hn'
    obtain hn' | hn' := List.mem_append.mp hn'
    · exact (H.authentic n' hn').extend hextends
    · exact List.mem_singleton.mp hn' ▸ hauthentic.extend hextends

theorem change {books' : Books} (h : Change cfg books books') (H : Ordered cfg books) :
    Ordered cfg books' := by
  cases h with
  | prune now => exact H.prune now
  | issue options uuid issuedAt now hnext hroom hworkspace => exact H.issue hnext rfl now
  | bind body now supersededGeneration hget hfinal => exact H.bind hget hfinal supersededGeneration
  | release predicate => exact H.release predicate
  | notify hfor hnewer =>
    exact H.relay hfor fun l hl => (isNewer_iff.mp hnewer l hl).le
  | notifyAgain hfor hlatest => exact H.relayAgain hfor hlatest

end Ordered

/-! ## Runs -/

/-- The latest issued generation can be found in the files: the `.issued` file is not too large, or
the notification file has a generation that is as late. -/
def Files.FindsLatest (files : Files) : Prop :=
  files.issued.size ≤ MAX_ISSUED_STATE_BYTES ∨
    ∀ l, files.issued.latest = some l → Covered l (loadProvisioningGeneration files)

/-- Every process that is started finds it. -/
def Gateway.FindsLatest (g : Gateway) : Event → Prop
  | .restart _ => g.store.files.FindsLatest
  | _ => True

theorem Ordered.restart {cfg : GatewayConfig} {books : Books} (H : Ordered cfg books)
    (hfinds : books.store.files.FindsLatest) (now : Int) :
    Ordered cfg { books with store.proxy := .ofFiles books.store.files now } := by
  have hgenerations : ∀ b ∈ books.store.files.issued.bindings, IsGeneration b.generation :=
    fun b hb => H.isGeneration (H.genuineSaved b hb)
  obtain ⟨hgeneration, hmem⟩ := loaded_spec hgenerations now
  have hlatest : ∀ b ∈ books.history.issued,
      Covered b.generation (loadIssuedProvisioningState books.store.files.issued
        now).latestGeneration ∨
      Covered b.generation (loadProvisioningGeneration books.store.files) := by
    intro b hb
    by_cases hsize : books.store.files.issued.size ≤ MAX_ISSUED_STATE_BYTES
    · exact (H.saved b hb).imp (loaded_of_size hsize hgenerations now).latest id
    · obtain ⟨l, hl, hle⟩ | h := H.saved b hb
      · exact .inr ((hfinds.resolve_left hsize l hl).trans hle)
      · exact .inr h
  exact { H with
    latest := fun b hb => UserWorkerProxy.latestIssued_covers (hlatest b hb)
    latestGeneration := UserWorkerProxy.latestIssued_generation hgeneration
    notification := rfl
    notified := fun n hn => by
      obtain ⟨l, hl, hle⟩ := H.notified n hn
      exact ⟨l, H.notification.symm.trans hl, hle⟩
    genuine := fun b hb => H.genuineSaved b (hmem b hb) }

theorem ordered_init (cfg : GatewayConfig) (earlier : EarlierFiles) (now : Int) :
    Ordered cfg (Gateway.init earlier now).books := by
  have hbindings : earlier.files.issued.bindings = [] := by
    unfold EarlierFiles.files
    dsimp only
    cases earlier.issued <;> rfl
  have hnone : ∀ {p : IssuedProvisioningBinding → Prop}, ∀ b ∈ earlier.files.issued.bindings, p b :=
    fun b hb => absurd (hbindings ▸ hb) List.not_mem_nil
  obtain ⟨hgeneration, hmem⟩ := loaded_spec hnone now
  exact {
    increasing := List.Pairwise.nil
    generations := fun _ h => absurd h List.not_mem_nil
    latest := fun _ h => absurd h List.not_mem_nil
    latestGeneration := UserWorkerProxy.latestIssued_generation hgeneration
    saved := fun _ h => absurd h List.not_mem_nil
    notification := rfl
    nondecreasing := List.Pairwise.nil
    notified := fun _ h => absurd h List.not_mem_nil
    genuine := fun b hb => hnone b (hmem b hb)
    genuineSaved := hnone
    authentic := fun _ h => absurd h List.not_mem_nil }

theorem ordered_step {cfg : GatewayConfig} (g : Gateway) (event : Event)
    (hfinds : g.FindsLatest event) (H : Ordered cfg g.books) :
    Ordered cfg (g.step cfg event).books := by
  obtain hchanges | ⟨now, rfl⟩ := g.step_cases cfg event
  · exact hchanges.keeps (fun a b => Ordered.change) H
  · exact H.restart hfinds now

def plainGateway : GatewayConfig where
  authSessionTtlMs := 600000
  connectTimeoutMs := 15000
  normalizeUrl := some
  sha256 _ := String.ofList (List.replicate 64 '0')
  isUrlHash_sha256 _ := by decide
  checkUrlAllowed _ := true
  parseSession _ := none

/-- A request for a session of an engine. -/
def sessionCall (engine : String) : Call where
  method := "POST"
  path := "/v1/auth/" ++ engine ++ "/sessions"
  provisioningUrl := some "https://host/manifest"
  workspace := ⟨"user", false, fun h => absurd h Bool.false_ne_true⟩
  notifies := true

def issueEvents (id : Nat) (engine : String) (msecs : Nat) : List Event :=
  [.call id (sessionCall engine), .on id (.ensured "cap_a" (plainUuidv7 msecs) 0 0 true)]

/-- The binding that the events issue. -/
def plainBinding (engine : String) (msecs : Nat) : IssuedProvisioningBinding where
  generation := uuidText msecs
  urlHash := String.ofList (List.replicate 64 '0')
  accountName := "cap_a"
  engine
  expiresAt := 615000
  sessionId := none
  workspaceId := none

theorem sessionCollection_sessionCall {engine : String} (hne : engine ≠ "")
    (hslash : '/' ∉ engine.toList) :
    authSessionCollection (sessionCall engine).path = some engine := by
  have hpath : (sessionCall engine).path.toList =
      "/v1/auth".toList ++ '/' :: (engine.toList ++ '/' :: "sessions".toList) := by
    simp [sessionCall]
  have hsegments : pathSegments (sessionCall engine).path = ["", "v1", "auth", engine, "sessions"] := by
    have hroot : ("/v1/auth".toList.splitOn '/').map String.ofList = ["", "v1", "auth"] := by
      decide +kernel
    have hsessions : ("sessions".toList.splitOn '/').map String.ofList = ["sessions"] := by
      decide +kernel
    unfold pathSegments
    rw [hpath, List.splitOn_append_cons_self, List.splitOn_append_cons_self,
      List.splitOn_eq_singleton hslash, List.map_append, List.map_append, List.map_singleton,
      String.ofList_toList, hroot, hsessions]
    rfl
  unfold authSessionCollection
  rw [hsegments]
  exact if_pos ⟨rfl, hne, .inl rfl⟩

/-- A gateway that was never notified, with what it has in memory and what it has issued. -/
structure HasIssued (bound issued : Bindings) (latest : Option String) (g : Gateway) : Prop where
  bindings : g.store.bindings = bound
  latest : g.store.proxy.latestIssuedProvisioningGeneration = latest
  notification : g.store.files.notification = none
  issued : g.history.issued = issued

theorem requestedBinding_sessionCall {engine : String} (hne : engine ≠ "")
    (hslash : '/' ∉ engine.toList) : Turn.requestedBinding plainGateway (sessionCall engine) "cap_a" =
      some ⟨"https://host/manifest", "cap_a", engine, none⟩ := by
  have hurl : Turn.allowedProvisioningUrl plainGateway (sessionCall engine) =
      some "https://host/manifest" := by
    unfold Turn.allowedProvisioningUrl
    exact if_pos (by decide +kernel)
  have hcalled : ((sessionCall engine).notifies && (sessionCall engine).method == "POST") = true := rfl
  unfold Turn.requestedBinding
  rw [if_pos hcalled, hurl, sessionCollection_sessionCall hne hslash]
  rfl

/-- Two events issue one binding more. -/
theorem hasIssued_issueEvents {bindings issued : Bindings} {latest : Option String} {g : Gateway}
    (H : HasIssued bindings issued latest g) {id : Nat} (hnew : g.forwards id = none) {engine : String}
    (hne : engine ≠ "") (hslash : '/' ∉ engine.toList) {msecs : Nat}
    (hnext : nextGeneration latest (plainUuidv7 msecs) = some (uuidText msecs))
    (hunexpired : ∀ b ∈ bindings, 0 < b.expiresAt)
    (hfresh : ∀ b ∈ bindings, b.generation ≠ uuidText msecs)
    (hroom : bindings.length < MAX_ISSUED_BINDINGS) (earlier : EarlierFiles) (now : Int) :
    let g' := (gateway plainGateway earlier now).runFrom g (issueEvents id engine msecs)
    HasIssued (bindings ++ [plainBinding engine msecs]) (issued ++ [plainBinding engine msecs])
        (some (uuidText msecs)) g' ∧
      (∀ id' ≠ id, g'.forwards id' = g.forwards id') ∧
      g'.store.files.issued =
        .saved ⟨some (uuidText msecs), bindings ++ [plainBinding engine msecs]⟩ := by
  have hset : (g.store.bindings.unexpired 0).set (plainBinding engine msecs) =
      bindings ++ [plainBinding engine msecs] := by
    have hall : Bindings.unexpired bindings 0 = bindings :=
      List.filter_eq_self.mpr fun b hb => decide_eq_true (hunexpired b hb)
    rw [H.bindings, hall]
    have hnone : bindings.get (plainBinding engine msecs).generation = none :=
      Bindings.get_eq_none.mpr hfresh
    exact if_neg (by rw [hnone]; exact Bool.false_ne_true)
  have hissue : g.store.issueProvisioningGeneration plainGateway
      ⟨"https://host/manifest", "cap_a", engine, none⟩ (plainUuidv7 msecs) 0 0 true =
        (g.store.withIssued (plainBinding engine msecs) 0, some (plainBinding engine msecs)) := by
    have hlength : ¬MAX_ISSUED_BINDINGS ≤ (g.store.bindings.unexpired 0).length := by
      have hle := List.length_filter_le (fun b => decide (0 < b.expiresAt)) g.store.bindings
      rw [H.bindings] at hle
      exact Nat.not_le_of_lt (Nat.lt_of_le_of_lt (H.bindings.symm ▸ hle) hroom)
    unfold Store.issueProvisioningGeneration
    rw [H.latest, hnext]
    dsimp only
    rw [if_neg hlength]
    rfl
  have hrun : (gateway plainGateway earlier now).runFrom g (issueEvents id engine msecs) =
      ⟨g.store.withIssued (plainBinding engine msecs) 0,
        Function.update (Function.update g.forwards id
          (some ⟨sessionCall engine, false, [], .ensuring⟩)) id
          (some ⟨sessionCall engine, false, [], .waiting "cap_a" (some (plainBinding engine msecs))⟩),
        { g.history with issued := g.history.issued ++ [plainBinding engine msecs] }⟩ := by
    have hcall : g.call id (sessionCall engine) = { g with
        forwards := Function.update g.forwards id
          (some ⟨sessionCall engine, false, [], .ensuring⟩) } := by
      unfold Gateway.call
      rw [hnew]
    show (g.call id (sessionCall engine)).on plainGateway id _ = _
    rw [hcall]
    unfold Gateway.on
    dsimp only
    rw [Function.update_self]
    dsimp only [Turn.on]
    unfold Turn.ensured
    dsimp only
    rw [requestedBinding_sessionCall hne hslash]
    dsimp only
    rw [hissue]
    rfl
  have hlatest : (bindings ++ [plainBinding engine msecs]).latest =
      bindings ++ [plainBinding engine msecs] := by
    refine Bindings.latest_eq ?_
    rw [List.length_append]
    exact hroom
  dsimp only
  rw [hrun]
  refine ⟨⟨hset, rfl, H.notification, by rw [H.issued]⟩, fun id' hid => ?_, ?_⟩
  · show Function.update (Function.update g.forwards id _) id _ id' = _
    rw [Function.update_of_ne hid, Function.update_of_ne hid]
  · show IssuedFile.saved ⟨some (uuidText msecs), Bindings.latest _⟩ = _
    rw [hset, hlatest]

/-- As many bindings of one engine, issued one after the other. -/
def floodEvents (engine : String) : Nat → List Event
  | 0 => []
  | n + 1 => floodEvents engine n ++ issueEvents n engine (n + 1)

def floodBindings (engine : String) (n : Nat) : Bindings :=
  (List.range n).map fun k => plainBinding engine (k + 1)

theorem uuidText_lt {m n : Nat} (h : m < n) (hn : n ≤ MAX_TIMESTAMP) : uuidText m < uuidText n := by
  refine Isolation.lt_of_timestamp_lt (Isolation.isGeneration_uuidText m)
    (Isolation.isGeneration_uuidText n) ?_
  rw [Isolation.timestamp_uuidText (h.le.trans hn), Isolation.timestamp_uuidText hn]
  exact h

/-- The last time of the flood. -/
def floodLatest : Nat → Option String
  | 0 => none
  | n + 1 => some (uuidText (n + 1))

theorem nextGeneration_flood {n : Nat} (hn : n + 1 ≤ MAX_TIMESTAMP) :
    nextGeneration (floodLatest n) (plainUuidv7 (n + 1)) = some (uuidText (n + 1)) := by
  cases n with
  | zero => rfl
  | succ n =>
    have hlt : ¬uuidText (n + 1 + 1) ≤ uuidText (n + 1) :=
      not_le_of_gt (uuidText_lt (Nat.lt_succ_self _) hn)
    unfold nextGeneration floodLatest plainUuidv7
    dsimp only
    rw [if_neg hlt]

theorem hasIssued_floodEvents {engine : String} (hne : engine ≠ "") (hslash : '/' ∉ engine.toList)
    (earlier : EarlierFiles) (now : Int) {g : Gateway} (H : HasIssued [] [] none g)
    (hnew : ∀ id, g.forwards id = none) {n : Nat} (hn : n ≤ MAX_ISSUED_BINDINGS) :
    let g' := (gateway plainGateway earlier now).runFrom g (floodEvents engine n)
    HasIssued (floodBindings engine n) (floodBindings engine n) (floodLatest n) g' ∧
      (∀ id ≥ n, g'.forwards id = none) ∧
      (0 < n → g'.store.files.issued = .saved ⟨floodLatest n, floodBindings engine n⟩) := by
  induction n with
  | zero => exact ⟨H, fun id _ => hnew id, fun h => absurd h (Nat.lt_irrefl 0)⟩
  | succ n ih =>
    obtain ⟨H', hnew', -⟩ := ih (Nat.le_of_succ_le hn)
    have hmax : n + 1 ≤ MAX_TIMESTAMP := hn.trans (by decide)
    have hmem : ∀ b ∈ floodBindings engine n, ∃ k < n, b = plainBinding engine (k + 1) := by
      intro b hb
      obtain ⟨k, hk, rfl⟩ := List.mem_map.mp hb
      exact ⟨k, List.mem_range.mp hk, rfl⟩
    have hflood : floodBindings engine (n + 1) =
        floodBindings engine n ++ [plainBinding engine (n + 1)] := by
      unfold floodBindings
      rw [List.range_succ, List.map_append]
      rfl
    have hlength : (floodBindings engine n).length < MAX_ISSUED_BINDINGS := by
      unfold floodBindings
      rw [List.length_map, List.length_range]
      exact hn
    have hstep := hasIssued_issueEvents H' (hnew' n (Nat.le_refl n)) hne hslash
      (nextGeneration_flood hmax) (fun b hb => by
        obtain ⟨k, -, rfl⟩ := hmem b hb
        exact Int.sign_eq_one_iff_pos.mp rfl)
      (fun b hb => by
        obtain ⟨k, hk, rfl⟩ := hmem b hb
        exact (uuidText_lt (Nat.succ_lt_succ hk) hmax).ne) hlength earlier now
    dsimp only at hstep ⊢
    rw [floodEvents, Lib.Machine.runFrom_append, hflood]
    refine ⟨hstep.1, fun id hid => ?_, fun _ => hstep.2.2⟩
    rw [hstep.2.1 id (Nat.ne_of_gt hid)]
    exact hnew' id (Nat.le_of_succ_le hid)

/-- Requests for a long engine, another start, and a request after the clock was set back. -/
def losingRun (engine : String) (n : Nat) : List Event :=
  floodEvents engine n ++ .restart 0 :: issueEvents n "claude" 0

/-- A start that cannot read the file has lost the latest generation. -/
theorem hasIssued_restart {bindings issued : Bindings} {latest : Option String} {g : Gateway}
    (H : HasIssued bindings issued latest g)
    (hlarge : MAX_ISSUED_STATE_BYTES < g.store.files.issued.size) (now : Int) :
    HasIssued [] issued none (g.restart now) := by
  have hload := loaded_of_large hlarge now
  refine ⟨?_, ?_, H.notification, H.issued⟩
  · show (loadIssuedProvisioningState g.store.files.issued now).bindings = []
    rw [hload]
    rfl
  · show (UserWorkerProxy.ofFiles g.store.files now).latestIssuedProvisioningGeneration = none
    unfold UserWorkerProxy.ofFiles
    dsimp only
    rw [hload]
    show decodeProvisioningGeneration g.store.files.notification = none
    rw [H.notification]
    rfl

theorem losingRun_decreases {engine : String} {n k : Nat} (hslash : '/' ∉ engine.toList)
    (hk : k ≤ engine.toList.length) (hn : n ≤ MAX_ISSUED_BINDINGS)
    (hlarge : MAX_ISSUED_STATE_BYTES < n * k) :
    ¬((gateway plainGateway ⟨none, none⟩ 0).run
      (losingRun engine n)).history.issued.Pairwise fun b b' => b.generation < b'.generation := by
  have hpos : 0 < n := Nat.pos_of_ne_zero fun h => by simp [h] at hlarge
  have hne : engine ≠ "" := by
    rintro rfl
    obtain rfl := Nat.le_zero.mp hk
    exact absurd hlarge (Nat.not_lt_zero _)
  have hinit : HasIssued [] [] none (.init ⟨none, none⟩ 0) := ⟨rfl, rfl, rfl, rfl⟩
  have hflood := hasIssued_floodEvents hne hslash ⟨none, none⟩ 0 hinit (fun _ => rfl) hn
  dsimp only at hflood
  have hrun : (gateway plainGateway ⟨none, none⟩ 0).run (losingRun engine n) =
      (gateway plainGateway ⟨none, none⟩ 0).runFrom (((gateway plainGateway ⟨none, none⟩ 0).runFrom
        (.init ⟨none, none⟩ 0) (floodEvents engine n)).restart 0) (issueEvents n "claude" 0) := by
    unfold losingRun Lib.Machine.run
    rw [Lib.Machine.runFrom_append]
    rfl
  rw [hrun]
  generalize (gateway plainGateway ⟨none, none⟩ 0).runFrom (.init ⟨none, none⟩ 0)
    (floodEvents engine n) = g at hflood ⊢
  obtain ⟨H, -, hfile⟩ := hflood
  have hsize : MAX_ISSUED_STATE_BYTES < g.store.files.issued.size := by
    have hbound : (floodBindings engine n).length * k ≤
        utf8Length (IssuedProvisioningState.text ⟨floodLatest n, floodBindings engine n⟩) := by
      refine mul_le_text fun b hb => ?_
      obtain ⟨j, -, rfl⟩ := List.mem_map.mp hb
      exact hk
    rw [floodBindings, List.length_map, List.length_range] at hbound
    rw [hfile hpos]
    exact Nat.lt_of_lt_of_le hlarge hbound
  have hnone : (g.restart 0).forwards n = none := rfl
  have hissue := hasIssued_issueEvents (hasIssued_restart H hsize 0) hnone
    (show "claude" ≠ "" by decide) (by decide) (show nextGeneration none (plainUuidv7 0) = _ from rfl)
    (List.forall_mem_nil _) (List.forall_mem_nil _) (Nat.zero_lt_succ 511) ⟨none, none⟩ 0
  dsimp only at hissue
  rw [hissue.1.issued, List.pairwise_append]
  rintro ⟨-, -, h⟩
  have hfirst : plainBinding engine 1 ∈ floodBindings engine n :=
    List.mem_map.mpr ⟨0, List.mem_range.mpr hpos, rfl⟩
  exact lt_asymm (h _ hfirst _ (List.mem_singleton_self _)) (uuidText_lt Nat.zero_lt_one (by decide))

/-- The engine of a path that just fits the headers of a request. -/
def longEngine : String := String.ofList (List.replicate 16000 'a')

end CliProxy.WorkerProxy
