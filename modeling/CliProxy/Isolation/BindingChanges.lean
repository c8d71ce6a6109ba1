import CliProxy.Isolation.WorkerProxy

/-! # What one step can do to the bindings

A step makes a sequence of changes (`Change`) to the store and to the history of what was done with
it, or starts another process. -/

namespace CliProxy.WorkerProxy

open Relation (ReflTransGen)
open Isolation (decodeProvisioningGeneration Uuidv7)

/-! ## Maps of bindings -/

namespace Bindings

variable {bindings : Bindings} {b b' : IssuedProvisioningBinding} {generation : String}

/-- No two entries have one key. -/
def Distinct (bindings : Bindings) : Prop := (bindings.map (·.generation)).Nodup

theorem mem_of_get (h : bindings.get generation = some b) :
    b ∈ bindings ∧ b.generation = generation :=
  ⟨List.mem_of_find?_eq_some h, by simpa using List.find?_some h⟩

theorem Distinct.eq_of_mem (H : bindings.Distinct) (hb : b ∈ bindings) (hb' : b' ∈ bindings)
    (h : b.generation = b'.generation) : b = b' := List.inj_on_of_nodup_map H hb hb' h

theorem Distinct.get_eq_some (H : bindings.Distinct) :
    bindings.get generation = some b ↔ b ∈ bindings ∧ b.generation = generation := by
  constructor
  · exact mem_of_get
  · rintro ⟨hb, rfl⟩
    cases h : bindings.get b.generation with
    | none =>
      have hnone := List.find?_eq_none.mp h b hb
      exact absurd (beq_self_eq_true _) hnone
    | some b' =>
      obtain ⟨hb', hgeneration⟩ := mem_of_get h
      rw [H.eq_of_mem hb' hb hgeneration]

theorem get_eq_none : bindings.get generation = none ↔ ∀ b ∈ bindings, b.generation ≠ generation := by
  simp [get, List.find?_eq_none]

theorem mem_set : b' ∈ bindings.set b →
    b' = b ∨ b' ∈ bindings ∧ b'.generation ≠ b.generation := by
  unfold set
  split
  next =>
    intro h
    obtain ⟨c, hc, rfl⟩ := List.mem_map.mp h
    split
    next => exact .inl rfl
    next hne => exact .inr ⟨hc, hne⟩
  next hnone =>
    intro h
    have hget : bindings.get b.generation = none := Option.not_isSome_iff_eq_none.mp hnone
    obtain h | h := List.mem_append.mp h
    · exact .inr ⟨h, get_eq_none.mp hget b' h⟩
    · exact .inl (List.mem_singleton.mp h)

theorem mem_set_self (bindings : Bindings) (b : IssuedProvisioningBinding) : b ∈ bindings.set b := by
  unfold set
  split
  next h =>
    obtain ⟨c, hc⟩ := Option.isSome_iff_exists.mp h
    obtain ⟨hmem, hgeneration⟩ := mem_of_get hc
    exact List.mem_map.mpr ⟨c, hmem, if_pos hgeneration⟩
  next => exact List.mem_append_right _ (List.mem_singleton_self b)

theorem mem_set_of_ne (h : b' ∈ bindings) (hne : b'.generation ≠ b.generation) :
    b' ∈ bindings.set b := by
  unfold set
  split
  next => exact List.mem_map.mpr ⟨b', h, if_neg hne⟩
  next => exact List.mem_append_left _ h

theorem Distinct.set (H : bindings.Distinct) (b : IssuedProvisioningBinding) :
    (bindings.set b).Distinct := by
  unfold Bindings.set
  split
  next =>
    have hkeys : (bindings.map fun c => if c.generation = b.generation then b else c).map
        (·.generation) = bindings.map (·.generation) := by
      rw [List.map_map]
      refine List.map_congr_left fun c _ => ?_
      show (if c.generation = b.generation then b else c).generation = c.generation
      split
      next h => exact h.symm
      next => rfl
    unfold Distinct
    rw [hkeys]
    exact H
  next hnone =>
    have hget := get_eq_none.mp (Option.not_isSome_iff_eq_none.mp hnone)
    unfold Distinct
    rw [List.map_append, List.nodup_append]
    refine ⟨H, List.nodup_singleton _, fun g hg g' hg' => ?_⟩
    obtain ⟨c, hc, rfl⟩ := List.mem_map.mp hg
    obtain rfl := List.mem_singleton.mp hg'
    exact hget c hc

theorem Distinct.sublist {bindings' : Bindings} (H : bindings.Distinct)
    (h : bindings'.Sublist bindings) : bindings'.Distinct := List.Nodup.sublist (h.map _) H

theorem Distinct.get_set (H : bindings.Distinct) (b : IssuedProvisioningBinding) :
    (bindings.set b).get b.generation = some b :=
  (H.set b).get_eq_some.mpr ⟨mem_set_self bindings b, rfl⟩

theorem length_set (bindings : Bindings) (b : IssuedProvisioningBinding) :
    (bindings.set b).length =
      if (bindings.get b.generation).isSome then bindings.length else bindings.length + 1 := by
  unfold set
  split
  next => rw [List.length_map]
  next => rw [List.length_append, List.length_singleton]

theorem latest_eq (h : bindings.length ≤ MAX_ISSUED_BINDINGS) : bindings.latest = bindings := by
  unfold latest
  rw [Nat.sub_eq_zero_of_le h, List.drop_zero]

theorem mem_unexpired {now : Int} : b ∈ bindings.unexpired now ↔ b ∈ bindings ∧ now < b.expiresAt := by
  simp [unexpired]

theorem dropSuperseded_sublist (bindings : Bindings) (b : IssuedProvisioningBinding)
    (supersededGeneration : Option String) :
    (Store.dropSuperseded bindings b supersededGeneration).Sublist bindings := by
  unfold Store.dropSuperseded
  split
  next => exact List.Sublist.refl _
  next =>
    split
    next => exact List.filter_sublist
    next => exact List.Sublist.refl _

theorem mem_dropSuperseded_self (h : b ∈ bindings) (supersededGeneration : Option String)
    (hgeneration : b.generation = b'.generation) :
    b ∈ Store.dropSuperseded bindings b' supersededGeneration := by
  unfold Store.dropSuperseded
  split
  next => exact h
  next superseded =>
    split
    next hsuperseded =>
      refine List.mem_filter.mpr ⟨h, decide_eq_true fun he => hsuperseded.1 ?_⟩
      exact he.symm.trans hgeneration
    next => exact h

end Bindings

/-! ## Changes -/

/-- A store, and what was done with it. -/
structure Books where
  store : Store
  history : History

def Gateway.books (g : Gateway) : Books := ⟨g.store, g.history⟩

def Turn.books (t : Turn) : Books := ⟨t.store, t.history⟩

namespace Store

variable (s : Store)

/-- The bindings are saved. -/
def withSaved (latestGeneration : Option String) (bindings : Bindings) : Store :=
  (s.saveIssued latestGeneration bindings true).1

def pruned (now : Int) : Store :=
  { s with proxy.issuedProvisioningBindings := s.bindings.unexpired now }

def withIssued (binding : IssuedProvisioningBinding) (now : Int) : Store :=
  let saved := s.withSaved (some binding.generation) ((s.bindings.unexpired now).set binding)
  { saved with proxy.latestIssuedProvisioningGeneration := some binding.generation }

/-- `final` takes the place of the binding with its generation. -/
def withSession (final : IssuedProvisioningBinding) (supersededGeneration : Option String) : Store :=
  s.withSaved s.proxy.latestIssuedProvisioningGeneration
    (dropSuperseded (s.bindings.set final) final supersededGeneration)

def without (predicate : IssuedProvisioningBinding → Bool) : Store :=
  s.withSaved s.proxy.latestIssuedProvisioningGeneration (s.bindings.filter fun b => !predicate b)

def withNotification (generation : String) : Store where
  files := { s.files with notification := some generation }
  proxy := { s.proxy with latestProvisioningGeneration := some generation }

/-- What is issued for the options. -/
def issuedBinding (cfg : GatewayConfig) (options : IssueOptions) (generation : String)
    (issuedAt : Int) : IssuedProvisioningBinding where
  generation
  urlHash := cfg.provisioningUrlHash options.url
  accountName := options.accountName
  engine := options.engine
  expiresAt := issuedAt + cfg.authSessionTtlMs + cfg.connectTimeoutMs
  sessionId := none
  workspaceId := options.workspaceId.filter (· ≠ "")

end Store

/-- The callback is called for this binding. -/
structure Notification.For (cfg : GatewayConfig) (s : Store) (n : Notification)
    (binding : IssuedProvisioningBinding) : Prop where
  relayed : s.relayed cfg n.url n.generation n.accountName n.path n.now = some binding
  workspaceId : n.workspaceId = binding.workspaceId
  expiresAt : n.expiresAt = binding.expiresAt

/-- One operation that changes the store. -/
inductive Change (cfg : GatewayConfig) (books : Books) : Books → Prop
  /-- `issueProvisioningGeneration` throws since there are too many bindings. -/
  | prune (now : Int) : Change cfg books { books with store := books.store.pruned now }
  | issue (options : IssueOptions) (uuid : Uuidv7) {generation : String} (issuedAt now : Int)
      (hnext : nextGeneration books.store.proxy.latestIssuedProvisioningGeneration uuid =
        some generation)
      (hroom : (books.store.bindings.unexpired now).length < MAX_ISSUED_BINDINGS)
      (hworkspace : options.workspaceId.all validWorkspaceId = true) :
      Change cfg books {
        store := books.store.withIssued (Store.issuedBinding cfg options generation issuedAt) now
        history.issued := books.history.issued ++
          [Store.issuedBinding cfg options generation issuedAt]
        history.bound := books.history.bound
        history.notified := books.history.notified }
  | bind {binding final : IssuedProvisioningBinding} (body : List UInt8) (now : Int)
      (supersededGeneration : Option String)
      (hget : books.store.bindings.get binding.generation = some binding)
      (hfinal : Store.finalized cfg binding body now = some final) :
      Change cfg books {
        store := books.store.withSession final supersededGeneration
        history.issued := books.history.issued
        history.bound := books.history.bound ++ [final]
        history.notified := books.history.notified }
  | release (predicate : IssuedProvisioningBinding → Bool) :
      Change cfg books { books with store := books.store.without predicate }
  | notify {n : Notification} {binding : IssuedProvisioningBinding}
      (hfor : n.For cfg books.store binding)
      (hnewer : IssuedProvisioningState.isNewer n.generation
        books.store.proxy.latestProvisioningGeneration = true) :
      Change cfg books {
        store := books.store.withNotification n.generation
        history.issued := books.history.issued
        history.bound := books.history.bound
        history.notified := books.history.notified ++ [n] }
  /-- The generation of the last notification is relayed again. -/
  | notifyAgain {n : Notification} {binding : IssuedProvisioningBinding}
      (hfor : n.For cfg books.store binding)
      (hlatest : books.store.proxy.latestProvisioningGeneration = some n.generation) :
      Change cfg books { books with history.notified := books.history.notified ++ [n] }

abbrev Changes (cfg : GatewayConfig) : Books → Books → Prop := ReflTransGen (Change cfg)

theorem Changes.keeps {cfg : GatewayConfig} {I : Books → Prop}
    (hchange : ∀ a b, Change cfg a b → I a → I b) {a b : Books} (H : Changes cfg a b) (h : I a) :
    I b := by
  induction H with
  | refl => exact h
  | tail _ hbc ih => exact hchange _ _ hbc ih

/-! ## The operations of the store -/

namespace Store

variable {cfg : GatewayConfig} {s s' : Store} {saved : Bool} {now : Int}

theorem issue_cases {options : IssueOptions} {uuid : Uuidv7} {issuedAt : Int}
    {result : Option IssuedProvisioningBinding}
    (h : s.issueProvisioningGeneration cfg options uuid issuedAt now saved = (s', result)) :
    (result = none ∧ (s' = s ∨ s' = s.pruned now)) ∨
    (saved = true ∧ (s.bindings.unexpired now).length < MAX_ISSUED_BINDINGS ∧ ∃ generation,
      nextGeneration s.proxy.latestIssuedProvisioningGeneration uuid = some generation ∧
      result = some (issuedBinding cfg options generation issuedAt) ∧
      s' = s.withIssued (issuedBinding cfg options generation issuedAt) now) := by
  unfold issueProvisioningGeneration at h
  split at h
  next =>
    obtain ⟨rfl, rfl⟩ := Prod.mk.inj h
    exact .inl ⟨rfl, .inl rfl⟩
  next generation hnext =>
    dsimp only at h
    split at h
    next =>
      obtain ⟨rfl, rfl⟩ := Prod.mk.inj h
      exact .inl ⟨rfl, .inr rfl⟩
    next hroom =>
      cases saved with
      | false =>
        obtain ⟨rfl, rfl⟩ := Prod.mk.inj h
        exact .inl ⟨rfl, .inl rfl⟩
      | true =>
        obtain ⟨rfl, rfl⟩ := Prod.mk.inj h
        exact .inr ⟨rfl, Nat.lt_of_not_le hroom, generation, hnext, rfl, rfl⟩

theorem finalized_eq {binding final : IssuedProvisioningBinding} {body : List UInt8}
    (hfinal : finalized cfg binding body now = some final) :
    ∃ sessionId expiresAt, cfg.parseSession body = some (some sessionId, some expiresAt) ∧
      validSessionId sessionId = true ∧ now < expiresAt ∧ expiresAt ≤ binding.expiresAt ∧
      final = { binding with sessionId := some sessionId, expiresAt } := by
  unfold finalized at hfinal
  split at hfinal
  next sessionId expiresAt hparse =>
    split at hfinal
    next hvalid =>
      exact ⟨sessionId, expiresAt, hparse, hvalid.1, hvalid.2.1, hvalid.2.2,
        (Option.some.inj hfinal).symm⟩
    next => exact absurd hfinal.symm (Option.some_ne_none _)
  next => exact absurd hfinal.symm (Option.some_ne_none _)

theorem bind_cases {binding : IssuedProvisioningBinding} {body : List UInt8}
    {supersededGeneration : Option String} {result : Option Bool}
    (h : s.bindIssuedGenerationToSession cfg binding body supersededGeneration now saved =
      (s', result)) :
    (result ≠ some true ∧ s' = s) ∨
    (result = some true ∧ saved = true ∧ s.bindings.get binding.generation = some binding ∧
      ∃ final, finalized cfg binding body now = some final ∧
        s' = s.withSession final supersededGeneration) := by
  unfold bindIssuedGenerationToSession at h
  split at h
  next =>
    obtain ⟨rfl, rfl⟩ := Prod.mk.inj h
    exact .inl ⟨by decide, rfl⟩
  next hget =>
    rw [not_not] at hget
    cases hfinal : finalized cfg binding body now with
    | none =>
      rw [hfinal] at h
      obtain ⟨rfl, rfl⟩ := Prod.mk.inj h
      exact .inl ⟨by decide, rfl⟩
    | some final =>
      rw [hfinal] at h
      cases saved with
      | false =>
        obtain ⟨rfl, rfl⟩ := Prod.mk.inj h
        exact .inl ⟨by decide, rfl⟩
      | true =>
        obtain ⟨rfl, rfl⟩ := Prod.mk.inj h
        obtain ⟨sessionId, expiresAt, -, -, -, -, rfl⟩ := finalized_eq hfinal
        exact .inr ⟨rfl, rfl, hget, _, rfl, rfl⟩

theorem release_cases {predicate : IssuedProvisioningBinding → Bool} {result : Bool}
    (h : s.releaseIssuedBindings predicate saved = (s', result)) :
    (result = true ∧ s.bindings.any predicate = false ∧ s' = s) ∨
    (result = saved ∧ s.bindings.any predicate = true ∧
      s' = if saved then s.without predicate else s) := by
  unfold releaseIssuedBindings at h
  split at h
  next hany =>
    cases saved with
    | false =>
      obtain ⟨rfl, rfl⟩ := Prod.mk.inj h
      exact .inr ⟨rfl, hany, rfl⟩
    | true =>
      obtain ⟨rfl, rfl⟩ := Prod.mk.inj h
      exact .inr ⟨rfl, hany, rfl⟩
  next hnone =>
    obtain ⟨rfl, rfl⟩ := Prod.mk.inj h
    exact .inl ⟨rfl, Bool.eq_false_iff.mpr hnone, rfl⟩

theorem relay_cases {url generation accountName path : String}
    {result : Option IssuedProvisioningBinding}
    (h : s.relayProvisioningNotification cfg url generation accountName path now saved =
      (s', result)) :
    (result = none ∧ s' = s) ∨
    ∃ binding, result = some binding ∧
      s.relayed cfg url generation accountName path now = some binding ∧
      ((saved = true ∧ s' = s.withNotification generation ∧ IssuedProvisioningState.isNewer
          generation s.proxy.latestProvisioningGeneration = true) ∨
        (s' = s ∧ s.proxy.latestProvisioningGeneration = some generation)) := by
  unfold relayProvisioningNotification at h
  split at h
  next =>
    obtain ⟨rfl, rfl⟩ := Prod.mk.inj h
    exact .inl ⟨rfl, rfl⟩
  next binding hrelayed =>
    split at h
    next =>
      obtain ⟨rfl, rfl⟩ := Prod.mk.inj h
      exact .inl ⟨rfl, rfl⟩
    next hold =>
      split at h
      next hnewer =>
        cases saved with
        | false =>
          obtain ⟨rfl, rfl⟩ := Prod.mk.inj h
          exact .inl ⟨rfl, rfl⟩
        | true =>
          obtain ⟨rfl, rfl⟩ := Prod.mk.inj h
          exact .inr ⟨binding, rfl, hrelayed, .inl ⟨rfl, rfl, hnewer⟩⟩
      next hnewer =>
        obtain ⟨rfl, rfl⟩ := Prod.mk.inj h
        refine .inr ⟨binding, rfl, hrelayed, .inr ⟨rfl, ?_⟩⟩
        -- it is neither older nor newer than the last one
        cases hlatest : s.proxy.latestProvisioningGeneration with
        | none =>
          rw [hlatest] at hnewer
          exact absurd rfl hnewer
        | some latest =>
          rw [hlatest] at hold hnewer
          simp only [Option.any_some, decide_eq_true_eq, not_lt] at hold
          simp only [IssuedProvisioningState.isNewer, Option.all_some, decide_eq_true_eq,
            not_lt] at hnewer
          exact congrArg some (le_antisymm hold hnewer)

/-- A release is one change, or none. -/
theorem release_changes (h : History) (predicate : IssuedProvisioningBinding → Bool)
    (saved : Bool) : Changes cfg ⟨s, h⟩ ⟨(s.releaseIssuedBindings predicate saved).1, h⟩ := by
  have heta := (Prod.eta (s.releaseIssuedBindings predicate saved)).symm
  obtain ⟨-, -, hs⟩ | ⟨-, -, hs⟩ := release_cases heta
  · rw [hs]
  · rw [hs]
    cases saved with
    | false => exact .refl
    | true => exact .single (.release predicate)

end Store

/-! ## Callbacks -/

namespace Turn

variable (cfg : GatewayConfig) (t : Turn)

theorem releaseAnswered_changes (accountName : String) (issued : Option IssuedProvisioningBinding)
    (response : WorkerResponse) (saved : Bool) :
    Changes cfg t.books ⟨(t.releaseAnswered accountName issued response saved).1, t.history⟩ := by
  unfold releaseAnswered
  dsimp only
  split
  next => exact Store.release_changes ..
  next => exact .refl

theorem releaseCancelled_changes (accountName : String) (response : WorkerResponse) (saved : Bool) :
    Changes cfg t.books ⟨(t.releaseCancelled accountName response saved).1, t.history⟩ := by
  unfold releaseCancelled
  split
  next => exact Store.release_changes ..
  next => exact .refl

theorem relay_changes (accountName : String) (response : WorkerResponse) (now : Int)
    (saved : Bool) : Changes cfg t.books (t.relay cfg accountName response now saved).books := by
  unfold relay
  split
  next url generation _ _ =>
    split
    next =>
      split
      next store binding heq =>
        obtain ⟨h, -⟩ | ⟨b, h, hrelayed, hs⟩ := Store.relay_cases heq
        · exact absurd h (Option.some_ne_none _)
        · obtain rfl := Option.some.inj h
          have hfor : Notification.For cfg t.store {
              url, generation, accountName, path := t.forward.call.path
              workspaceId := binding.workspaceId, expiresAt := binding.expiresAt, now } binding :=
            ⟨hrelayed, rfl, rfl⟩
          obtain ⟨-, rfl, hnewer⟩ | ⟨rfl, hlatest⟩ := hs
          · exact .single (@Change.notify cfg t.books _ _ hfor hnewer)
          · exact .single (@Change.notifyAgain cfg t.books _ _ hfor hlatest)
      next store heq =>
        obtain ⟨-, rfl⟩ | ⟨b, h, -⟩ := Store.relay_cases heq
        · exact .refl
        · exact absurd h.symm (Option.some_ne_none b)
    next => exact .refl
  next => exact .refl

theorem response_changes (accountName : String) (issued : Option IssuedProvisioningBinding)
    (response : WorkerResponse) (now : Int) (saves : ResponseSaves) :
    Changes cfg t.books (t.response cfg accountName issued response now saves).books := by
  have hanswered := t.releaseAnswered_changes cfg accountName issued response saves.released
  unfold Turn.response
  split
  next store heq =>
    rw [heq] at hanswered
    exact hanswered
  next store heq =>
    rw [heq] at hanswered
    have hcancelled := { t with store }.releaseCancelled_changes cfg accountName response
      saves.cancelled
    split
    next store' heq' =>
      rw [heq'] at hcancelled
      exact hanswered.trans hcancelled
    next store' heq' =>
      rw [heq'] at hcancelled
      have hrelay := { t with store := store' }.relay_changes cfg accountName response now
        saves.notified
      dsimp only
      split
      next => exact (hanswered.trans hcancelled).trans hrelay
      next => exact hanswered.trans hcancelled

theorem allowed_workspace {cfg : GatewayConfig} {call : Call} {accountName : String} {options : IssueOptions}
    (h : requestedBinding cfg call accountName = some options) :
    options.workspaceId.all validWorkspaceId = true := by
  unfold requestedBinding at h
  split at h
  next =>
    split at h
    next =>
      obtain rfl := Option.some.inj h
      dsimp only
      split
      next hscoped => exact call.workspace.valid hscoped
      next => rfl
    next => exact absurd h.symm (Option.some_ne_none _)
  next => exact absurd h.symm (Option.some_ne_none _)

theorem ensured_changes (accountName : String) (uuid : Uuidv7) (issuedAt now : Int) (saved : Bool) :
    Changes cfg t.books (t.ensured cfg accountName uuid issuedAt now saved).books := by
  unfold ensured
  split
  next => exact .refl
  next =>
    split
    next => exact .refl
    next options hoptions =>
      split
      next store issued heq =>
        obtain ⟨h, -⟩ | ⟨-, hroom, generation, hnext, h, rfl⟩ := Store.issue_cases heq
        · exact absurd h (Option.some_ne_none _)
        · obtain rfl := Option.some.inj h
          exact .single (.issue options uuid issuedAt now hnext hroom (allowed_workspace hoptions))
      next store heq =>
        obtain ⟨-, rfl | rfl⟩ | ⟨-, -, generation, -, h, -⟩ := Store.issue_cases heq
        · exact .refl
        · exact .single (.prune now)
        · exact absurd h.symm (Option.some_ne_none _)

theorem bindSession_changes (binding : IssuedProvisioningBinding) (response : WorkerResponse)
    (body : SessionBody) (now : Int) (saved : Bool) :
    Changes cfg t.books (t.bindSession cfg binding response body now saved).1.books := by
  unfold bindSession
  split
  next => exact .refl
  next body =>
    split
    next store heq =>
      obtain ⟨h, -⟩ | ⟨-, -, hget, final, hfinal, rfl⟩ := Store.bind_cases heq
      · exact absurd rfl h
      · rw [hfinal]
        exact .single (.bind body now (superseded response) hget hfinal)
    next store result hne heq =>
      obtain ⟨-, rfl⟩ | ⟨h, -⟩ := Store.bind_cases heq
      · exact .refl
      · exact absurd h hne

theorem ended_changes (accountName : String) (issued : Option IssuedProvisioningBinding)
    (response : WorkerResponse) (body : SessionBody) (now : Int) (saves : EndSaves) :
    Changes cfg t.books (t.ended cfg accountName issued response body now saves).books := by
  unfold ended
  split
  next => exact .refl
  next binding _ =>
    have hbind := t.bindSession_changes cfg binding response body now saves.bound
    split
    next u heq =>
      rw [heq] at hbind
      exact hbind
    next u heq =>
      rw [heq] at hbind
      exact hbind.trans (Store.release_changes ..)

theorem on_changes (event : ForwardEvent) : Changes cfg t.books (t.on cfg event).books := by
  unfold Turn.on
  split
  next => exact .refl
  next =>
    split
    next => exact t.ensured_changes ..
    next => exact .refl
  next =>
    split <;> exact .refl
  next =>
    split
    next => exact t.response_changes ..
    next => exact .refl
  next =>
    split
    next accountName issued _ =>
      cases issued with
      | none => exact .refl
      | some issued =>
        show Changes cfg t.books ⟨(t.store.releaseIssuedGeneration issued _).1, t.history⟩
        unfold Store.releaseIssuedGeneration
        split
        next => exact .refl
        next => exact Store.release_changes ..
    next => exact .refl
  next =>
    split
    next =>
      unfold data
      split <;> exact .refl
    next => exact .refl
  next =>
    split
    next => exact t.ended_changes ..
    next => exact .refl
  next =>
    split
    next =>
      unfold responseError
      dsimp only
      split
      next => exact Store.release_changes ..
      next => exact .refl
    next => exact .refl

end Turn

/-- A step changes the store as its operations do, or starts another process. -/
theorem Gateway.step_cases (cfg : GatewayConfig) (g : Gateway) (event : Event) :
    Changes cfg g.books (g.step cfg event).books ∨
      ∃ now, event = .restart now := by
  cases event with
  | call id call =>
    refine .inl ?_
    show Changes cfg g.books (g.call id call).books
    unfold Gateway.call
    split <;> exact .refl
  | on id event =>
    refine .inl ?_
    show Changes cfg g.books (g.on cfg id event).books
    unfold Gateway.on
    split
    next => exact .refl
    next forward _ => exact (Turn.mk g.store forward g.history).on_changes cfg event
  | restart now => exact .inr ⟨now, rfl⟩

end CliProxy.WorkerProxy
