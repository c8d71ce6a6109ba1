import CliProxy.Isolation.BindingRestore

/-! # What becomes of an issued binding

With saves that succeed, a request that settles has finalized its binding or dropped it. The other
bindings that it drops are named by the response, or expired. -/

namespace CliProxy.WorkerProxy

open Isolation (Uuidv7)

/-! ## Maps that lose entries -/

namespace Bindings

variable {bindings bindings' bindings'' : Bindings} {generation : String}

theorem Distinct.get_filter (H : bindings.Distinct) (p : IssuedProvisioningBinding → Bool) :
    Bindings.get (bindings.filter p) generation = (bindings.get generation).filter p := by
  have hsub : (bindings.filter p).Sublist bindings := List.filter_sublist
  apply Option.ext
  intro b
  rw [(H.sublist hsub).get_eq_some, Option.filter_eq_some_iff, H.get_eq_some, List.mem_filter]
  constructor
  · rintro ⟨⟨hb, hp⟩, hgeneration⟩
    exact ⟨⟨hb, hgeneration⟩, hp⟩
  · rintro ⟨⟨hb, hgeneration⟩, hp⟩
    exact ⟨⟨hb, hp⟩, hgeneration⟩

theorem Distinct.get_set_of_ne (H : bindings.Distinct) {b : IssuedProvisioningBinding}
    (hne : b.generation ≠ generation) : (bindings.set b).get generation = bindings.get generation := by
  apply Option.ext
  intro c
  rw [(H.set b).get_eq_some, H.get_eq_some]
  constructor
  · rintro ⟨hc, rfl⟩
    rcases mem_set hc with rfl | ⟨hc, -⟩
    · exact absurd rfl hne
    · exact ⟨hc, rfl⟩
  · rintro ⟨hc, rfl⟩
    exact ⟨mem_set_of_ne hc hne.symm, rfl⟩

/-- Every entry is kept, or dropped and in `P`. -/
def Loses (P : IssuedProvisioningBinding → Prop) (bindings bindings' : Bindings) : Prop :=
  ∀ generation, bindings'.get generation = bindings.get generation ∨
    bindings'.get generation = none ∧ ∃ b, bindings.get generation = some b ∧ P b

namespace Loses

variable {P Q : IssuedProvisioningBinding → Prop}

theorem refl (P : IssuedProvisioningBinding → Prop) (bindings : Bindings) :
    Loses P bindings bindings := fun _ => .inl rfl

theorem trans (H : Loses P bindings bindings') (H' : Loses P bindings' bindings'') :
    Loses P bindings bindings'' := by
  intro generation
  rcases H' generation with h' | ⟨h', b, hb, hP⟩
  · rw [h']
    exact H generation
  · rcases H generation with h | ⟨h, hlost⟩
    · exact .inr ⟨h', b, h ▸ hb, hP⟩
    · exact .inr ⟨h', hlost⟩

theorem mono (H : Loses P bindings bindings') (h : ∀ b, P b → Q b) : Loses Q bindings bindings' := by
  intro generation
  rcases H generation with hkept | ⟨hnone, b, hb, hP⟩
  · exact .inl hkept
  · exact .inr ⟨hnone, b, hb, h b hP⟩

theorem get_of_get (H : Loses P bindings bindings') {b : IssuedProvisioningBinding}
    (h : bindings'.get generation = some b) : bindings.get generation = some b := by
  rcases H generation with hkept | ⟨hnone, -⟩
  · rw [← hkept, h]
  · rw [hnone] at h
    exact absurd h.symm (Option.some_ne_none b)

end Loses

theorem Distinct.loses_filter (H : bindings.Distinct) (p : IssuedProvisioningBinding → Bool) :
    Loses (fun b => b ∈ bindings ∧ p b = false) bindings (bindings.filter p) := by
  intro generation
  rw [H.get_filter p]
  cases hget : bindings.get generation with
  | none => exact .inl rfl
  | some b =>
    cases hp : p b with
    | false =>
      exact .inr ⟨by rw [Option.filter_some, hp]; rfl, b, rfl, (mem_of_get hget).1, hp⟩
    | true => exact .inl (by rw [Option.filter_some, hp]; rfl)

end Bindings

/-! ## Requests and their bindings -/

/-- The binding that the request has issued. -/
def Forward.issued (f : Forward) : Option IssuedProvisioningBinding :=
  match f.phase with
  | .ensuring => none
  | .waiting _ issued => issued
  | .streaming _ issued _ _ => issued
  | .settled issued _ => issued

/-- The worker's account and the response that a callback acts for. -/
def Forward.answer (f : Forward) (event : ForwardEvent) : Option (String × WorkerResponse) :=
  match f.phase, event with
  | .waiting accountName _, .response response _ _ => some (accountName, response)
  | .streaming accountName _ response _, _ => some (accountName, response)
  | _, _ => none

/-- The binding is the request's own one, the one that the response names as superseded for the
account and the engine of the request, or the one of the session that a successful DELETE names. -/
def Forward.Named (f : Forward) (event : ForwardEvent) (c : IssuedProvisioningBinding) : Prop :=
  (∃ b, f.issued = some b ∧ b.generation = c.generation) ∨
  ∃ response, f.answer event = some (c.accountName, response) ∧
    (Turn.superseded response = some c.generation ∧
        authSessionCollection f.call.path = some c.engine ∨
      f.call.method = "DELETE" ∧ 200 ≤ response.statusCode ∧ response.statusCode < 300 ∧
        ∃ sessionId, authSessionResource f.call.path = some (c.engine, sessionId) ∧
          c.sessionId = some sessionId)

/-- The binding has expired when the request issues its own one. -/
def ForwardEvent.Expires (event : ForwardEvent) (c : IssuedProvisioningBinding) : Prop :=
  match event with
  | .ensured _ _ _ now _ => c.expiresAt ≤ now
  | _ => False

/-- The saves in the callback succeed. -/
def ForwardEvent.Saved : ForwardEvent → Prop
  | .ensured _ _ _ _ saved => saved = true
  | .response _ _ saves => saves.released = true ∧ saves.cancelled = true ∧ saves.notified = true
  | .ended _ saves => saves.bound = true ∧ saves.released = true
  | .responseError saved | .requestError saved => saved = true
  | .ensureFailed _ | .data _ | .clientClosed => True

def Event.Saved : Event → Prop
  | .on _ event => event.Saved
  | .call _ _ | .restart _ => True

/-- The binding has the session that a valid 201 names in its body. -/
def Final (cfg : GatewayConfig) (binding final : IssuedProvisioningBinding)
    (answer : Option (WorkerResponse × SessionBody)) : Prop :=
  ∃ response body now, answer = some (response, some body) ∧ response.statusCode = 201 ∧
    Store.finalized cfg binding body now = some final

/-- What a map may have for the binding that the request has issued. -/
def Forward.Entry (cfg : GatewayConfig) (f : Forward) (binding c : IssuedProvisioningBinding) : Prop :=
  match f.phase with
  | .ensuring => False
  | .waiting accountName _ => c = binding ∧ binding.accountName = accountName
  | .streaming accountName _ response _ =>
    response.statusCode = 201 ∧ c = binding ∧ binding.accountName = accountName
  | .settled _ answer => Final cfg binding c answer

/-- A request has its binding in the map as its phase says, or not at all. -/
structure Forward.Owns (cfg : GatewayConfig) (f : Forward) (s : Store) : Prop where
  entry : ∀ b, f.issued = some b → ∀ c, s.bindings.get b.generation = some c → f.Entry cfg b c
  covered : ∀ b, f.issued = some b →
    Covered b.generation s.proxy.latestIssuedProvisioningGeneration
  engine : ∀ b, f.issued = some b → authSessionCollection f.call.path = some b.engine
  replies : f.replies.length ≤ 1

/-! ## Stores that lose bindings -/

/-- The bindings that were dropped are in `P`. -/
structure Store.Reduced (P : IssuedProvisioningBinding → Prop) (s s' : Store) : Prop where
  latest : s'.proxy.latestIssuedProvisioningGeneration = s.proxy.latestIssuedProvisioningGeneration
  distinct : s.bindings.Distinct → s'.bindings.Distinct
  loses : s.bindings.Loses P s'.bindings

namespace Store

variable {P Q : IssuedProvisioningBinding → Prop} {s s' s'' : Store}

theorem Reduced.refl (P : IssuedProvisioningBinding → Prop) (s : Store) : Reduced P s s :=
  ⟨rfl, id, .refl P s.bindings⟩

theorem Reduced.trans (H : Reduced P s s') (H' : Reduced P s' s'') : Reduced P s s'' :=
  ⟨H'.latest.trans H.latest, H'.distinct ∘ H.distinct, H.loses.trans H'.loses⟩

theorem Reduced.mono (H : Reduced P s s') (h : ∀ b, P b → Q b) : Reduced Q s s' :=
  ⟨H.latest, H.distinct, H.loses.mono h⟩

theorem release_saved (s : Store) (predicate : IssuedProvisioningBinding → Bool) :
    ∃ s', s.releaseIssuedBindings predicate true = (s', true) ∧
      s'.proxy.latestIssuedProvisioningGeneration =
        s.proxy.latestIssuedProvisioningGeneration ∧
      s'.bindings = s.bindings.filter fun b => !predicate b := by
  unfold releaseIssuedBindings
  split
  next => exact ⟨_, rfl, rfl, rfl⟩
  next hnone =>
    refine ⟨s, rfl, rfl, (List.filter_eq_self.mpr fun b hb => ?_).symm⟩
    rw [List.any_eq_true, not_exists] at hnone
    simpa [hb] using hnone b

/-- What the predicate says of the entry for a generation decides whether it is dropped. -/
theorem release_reduced (H : s.bindings.Distinct) (predicate : IssuedProvisioningBinding → Bool) :
    ∃ s', s.releaseIssuedBindings predicate true = (s', true) ∧
      Reduced (fun b => predicate b = true) s s' ∧
      ∀ generation b, s.bindings.get generation = some b → predicate b = true →
        s'.bindings.get generation = none := by
  obtain ⟨s', hs, hlatest, hbindings⟩ := s.release_saved predicate
  refine ⟨s', hs, ⟨hlatest, fun _ => ?_, ?_⟩, fun generation b hb hp => ?_⟩
  · rw [hbindings]
    exact H.sublist List.filter_sublist
  · rw [hbindings]
    refine (H.loses_filter _).mono fun b hb => ?_
    simpa using hb.2
  · rw [hbindings, H.get_filter, hb, Option.filter_some, hp]
    rfl

end Store

/-! ## The callbacks -/

namespace Forward

@[simp] theorem reply_phase (f : Forward) (r : Reply) : (f.reply r).phase = f.phase := by
  unfold reply
  split <;> rfl

@[simp] theorem reply_call (f : Forward) (r : Reply) : (f.reply r).call = f.call := by
  unfold reply
  split <;> rfl

theorem reply_replies {f : Forward} (h : f.replies.length ≤ 1) (r : Reply) :
    (f.reply r).replies.length ≤ 1 := by
  unfold reply
  split
  next => exact h
  next hnot =>
    have hempty : f.replies = [] := by
      simp only [headersSent, Bool.or_eq_true, not_or, Bool.not_eq_true, Bool.not_eq_false',
        List.isEmpty_iff] at hnot
      exact hnot.1
    rw [hempty]
    exact Nat.le_refl 1

end Forward

namespace Turn

variable {cfg : GatewayConfig} {t : Turn}

/-- What a callback does to the bindings. -/
structure Fate (cfg : GatewayConfig) (t : Turn) (event : ForwardEvent) (t' : Turn) : Prop where
  owns : t'.forward.Owns cfg t'.store
  covers : ∀ {g}, Covered g t.store.proxy.latestIssuedProvisioningGeneration →
    Covered g t'.store.proxy.latestIssuedProvisioningGeneration
  issued : ∀ b, t'.forward.issued = some b → t.forward.issued = some b ∨
    ¬Covered b.generation t.store.proxy.latestIssuedProvisioningGeneration
  /-- Only the entry for the own generation may change without being dropped. -/
  others : ∀ generation, (∀ b, t'.forward.issued = some b → b.generation ≠ generation) →
    t'.store.bindings.get generation = t.store.bindings.get generation ∨
      t'.store.bindings.get generation = none ∧ ∃ c, t.store.bindings.get generation = some c ∧
        (t.forward.Named event c ∨ event.Expires c)

/-- A callback that only drops bindings, and keeps the own one as its phase says. -/
theorem Fate.of_reduced (H : t.forward.Owns cfg t.store) {event : ForwardEvent} {t' : Turn}
    (hreduced : t.store.Reduced (fun c => t.forward.Named event c ∨ event.Expires c) t'.store)
    (hissued : t'.forward.issued = t.forward.issued) (hcall : t'.forward.call = t.forward.call)
    (hreplies : t'.forward.replies.length ≤ 1)
    (hentry : ∀ b, t.forward.issued = some b → ∀ c,
      t'.store.bindings.get b.generation = some c → t'.forward.Entry cfg b c) :
    t.Fate cfg event t' where
  owns := {
    entry := by rw [hissued]; exact hentry
    covered := by rw [hissued, hreduced.latest]; exact H.covered
    engine := by rw [hissued, hcall]; exact H.engine
    replies := hreplies }
  covers := by
    intro g h
    rw [hreduced.latest]
    exact h
  issued b hb := .inl (hissued ▸ hb)
  others generation _ := hreduced.loses generation

/-- The phase and the store are what they were. -/
theorem Fate.same (H : t.forward.Owns cfg t.store) (event : ForwardEvent) {f : Forward}
    (hphase : f.phase = t.forward.phase) (hcall : f.call = t.forward.call)
    (hreplies : f.replies.length ≤ 1) : t.Fate cfg event { t with forward := f } := by
  have hissued : f.issued = t.forward.issued := by unfold Forward.issued; rw [hphase]
  refine .of_reduced H (.refl _ t.store) hissued hcall hreplies fun b hb c hc => ?_
  have hentry := H.entry b hb c hc
  unfold Forward.Entry at hentry ⊢
  rw [hphase]
  exact hentry

/-- The own binding is the only entry that its generation can have. -/
def OwnEntry (t : Turn) (issued : Option IssuedProvisioningBinding) : Prop :=
  ∀ b, issued = some b → ∀ c, t.store.bindings.get b.generation = some c → c = b

theorem releaseWorker_fate {event : ForwardEvent} {accountName : String}
    {issued : Option IssuedProvisioningBinding} {response : WorkerResponse}
    (hdistinct : t.store.bindings.Distinct) (hissued : t.forward.issued = issued)
    (hanswer : t.forward.answer event = some (accountName, response)) (hown : t.OwnEntry issued) :
    ∃ s', t.store.releaseWorkerResponseBindings issued accountName
        (authSessionCollection t.forward.call.path) (superseded response) true = (s', true) ∧
      t.store.Reduced (t.forward.Named event) s' ∧
      ∀ b, issued = some b → s'.bindings.get b.generation = none := by
  obtain ⟨s', hs, hreduced, hgone⟩ := Store.release_reduced hdistinct fun b =>
    some b == issued || (some b.generation == superseded response
      && b.accountName == accountName && some b.engine == authSessionCollection t.forward.call.path)
  refine ⟨s', hs, hreduced.mono fun c hc => ?_, fun b hb => ?_⟩
  · simp only [Bool.or_eq_true, Bool.and_eq_true, beq_iff_eq] at hc
    rcases hc with hc | ⟨⟨hsuperseded, rfl⟩, hengine⟩
    · exact .inl ⟨c, hissued.trans hc.symm, rfl⟩
    · exact .inr ⟨response, hanswer, .inl ⟨hsuperseded.symm, hengine.symm⟩⟩
  · cases hget : t.store.bindings.get b.generation with
    | none =>
      rcases hreduced.loses b.generation with h | ⟨h, -⟩
      · exact h.trans hget
      · exact h
    | some c =>
      obtain rfl := hown b hb c hget
      exact hgone c.generation c hget (by simp [hb])

/-- A request that settles without its binding. -/
theorem Fate.settled (H : t.forward.Owns cfg t.store) {event : ForwardEvent}
    {issued : Option IssuedProvisioningBinding} (hissued : t.forward.issued = issued) {s' : Store}
    (hreduced : t.store.Reduced (fun c => t.forward.Named event c ∨ event.Expires c) s')
    (hgone : ∀ b, issued = some b → s'.bindings.get b.generation = none) {f : Forward}
    (hcall : f.call = t.forward.call) (hreplies : f.replies.length ≤ 1)
    (answer : Option (WorkerResponse × SessionBody)) :
    t.Fate cfg event ({ t with store := s', forward := f }.settle issued answer) := by
  refine .of_reduced H hreduced hissued.symm hcall hreplies fun b hb c hc => ?_
  have hnone : some c = none := hc.symm.trans (hgone b (hissued.symm.trans hb))
  exact absurd hnone (Option.some_ne_none c)

theorem requestError_fate (H : t.forward.Owns cfg t.store) (hdistinct : t.store.bindings.Distinct)
    {accountName : String} {issued : Option IssuedProvisioningBinding}
    (hphase : t.forward.phase = .waiting accountName issued) :
    t.Fate cfg (.requestError true) (t.requestError issued true) := by
  have hissued : t.forward.issued = issued := by unfold Forward.issued; rw [hphase]
  have hreplies : (t.forward.sendFailure .worker_unavailable).replies.length ≤ 1 :=
    Forward.reply_replies H.replies _
  cases issued with
  | none =>
    refine .settled H hissued (.refl _ t.store) (fun b hb => ?_) (Forward.reply_call ..) hreplies none
    exact absurd hb.symm (Option.some_ne_none b)
  | some b =>
    have hentry : ∀ c, t.store.bindings.get b.generation = some c → c = b := by
      intro c hc
      have h := H.entry b hissued c hc
      unfold Forward.Entry at h
      rw [hphase] at h
      exact h.1
    unfold requestError
    dsimp only
    unfold Store.releaseIssuedGeneration
    split
    next hother =>
      refine .settled H hissued (.refl _ t.store) (fun b' hb => ?_) (Forward.reply_call ..) hreplies none
      cases hb
      cases hget : t.store.bindings.get b.generation with
      | none => rfl
      | some c =>
        obtain rfl := hentry c hget
        exact absurd hget hother
    next hget =>
      rw [not_not] at hget
      obtain ⟨s', hs, hreduced, hgone⟩ := Store.release_reduced hdistinct (· == b)
      rw [hs]
      refine .settled H hissued (hreduced.mono fun c hc => .inl (.inl ⟨b, hissued, ?_⟩))
        (fun b' hb => ?_) (Forward.reply_call ..) hreplies none
      · rw [beq_iff_eq.mp hc]
      · cases hb
        exact hgone b.generation b hget (beq_self_eq_true b)

theorem responseError_fate (H : t.forward.Owns cfg t.store) (hdistinct : t.store.bindings.Distinct)
    {accountName : String} {issued : Option IssuedProvisioningBinding} {response : WorkerResponse}
    {body : SessionBody} (hphase : t.forward.phase = .streaming accountName issued response body) :
    t.Fate cfg (.responseError true) (t.responseError accountName issued response true) := by
  have hissued : t.forward.issued = issued := by unfold Forward.issued; rw [hphase]
  have hanswer : t.forward.answer (.responseError true) = some (accountName, response) := by
    unfold Forward.answer
    rw [hphase]
  have hreplies : (t.forward.sendFailure .worker_unavailable).replies.length ≤ 1 :=
    Forward.reply_replies H.replies _
  unfold responseError
  dsimp only
  split
  next =>
    have hown : t.OwnEntry issued := by
      intro b hb c hc
      have h := H.entry b (hissued.trans hb) c hc
      unfold Forward.Entry at h
      rw [hphase] at h
      exact h.2.1
    obtain ⟨s', hs, hreduced, hgone⟩ := releaseWorker_fate hdistinct hissued hanswer hown
    rw [hs]
    exact .settled H hissued (hreduced.mono fun _ => .inl) hgone (Forward.reply_call ..) hreplies none
  next hnone =>
    refine .settled H hissued (.refl _ t.store) (fun b hb => ?_) (Forward.reply_call ..) hreplies none
    rw [hb] at hnone
    exact absurd rfl hnone

theorem releaseAnswered_fate {event : ForwardEvent} {accountName : String}
    {issued : Option IssuedProvisioningBinding} {response : WorkerResponse}
    (hdistinct : t.store.bindings.Distinct) (hissued : t.forward.issued = issued)
    (hanswer : t.forward.answer event = some (accountName, response)) (hown : t.OwnEntry issued) :
    ∃ s', t.releaseAnswered accountName issued response true = (s', true) ∧
      t.store.Reduced (t.forward.Named event) s' ∧
      (response.statusCode ≠ 201 → ∀ b, issued = some b → s'.bindings.get b.generation = none) := by
  unfold releaseAnswered
  dsimp only
  split
  next =>
    obtain ⟨s', hs, hreduced, hgone⟩ := releaseWorker_fate hdistinct hissued hanswer hown
    exact ⟨s', hs, hreduced, fun _ => hgone⟩
  next hnone =>
    refine ⟨t.store, rfl, .refl _ t.store, fun hstatus b hb => ?_⟩
    unfold bindingToFinalize at hnone
    rw [if_neg hstatus, hb] at hnone
    exact absurd rfl hnone

theorem releaseCancelled_fate {event : ForwardEvent} {accountName : String}
    {response : WorkerResponse} (hdistinct : t.store.bindings.Distinct)
    (hanswer : t.forward.answer event = some (accountName, response)) :
    ∃ s', t.releaseCancelled accountName response true = (s', true) ∧
      t.store.Reduced (t.forward.Named event) s' := by
  unfold releaseCancelled
  split
  next engine sessionId hcancelled =>
    obtain ⟨s', hs, hreduced, -⟩ := Store.release_reduced hdistinct fun b =>
      b.accountName == accountName && b.engine == engine && b.sessionId == some sessionId
    refine ⟨s', hs, hreduced.mono fun c hc => ?_⟩
    simp only [Bool.and_eq_true, beq_iff_eq] at hc
    obtain ⟨⟨rfl, rfl⟩, hsession⟩ := hc
    unfold cancelledSession at hcancelled
    split at hcancelled
    next hdelete =>
      simp only [Bool.and_eq_true, beq_iff_eq, decide_eq_true_eq] at hdelete
      obtain ⟨⟨hmethod, hlow⟩, hhigh⟩ := hdelete
      exact .inr ⟨response, hanswer, .inr ⟨hmethod, hlow, hhigh, sessionId, hcancelled, hsession⟩⟩
    next => exact absurd hcancelled.symm (Option.some_ne_none _)
  next => exact ⟨t.store, rfl, .refl _ t.store⟩

theorem relay_same (cfg : GatewayConfig) (t : Turn) (accountName : String) (response : WorkerResponse) (now : Int)
    (saved : Bool) : (t.relay cfg accountName response now saved).forward = t.forward ∧
      t.store.Reduced (fun _ => False) (t.relay cfg accountName response now saved).store := by
  unfold relay
  split
  next url generation _ _ =>
    split
    next =>
      split
      next store binding heq =>
        refine ⟨rfl, ?_⟩
        rcases Store.relay_cases heq with ⟨h, -⟩ | ⟨b, -, -, ⟨-, rfl, -⟩ | ⟨rfl, -⟩⟩
        · exact absurd h (Option.some_ne_none _)
        · exact ⟨rfl, id, .refl _ _⟩
        · exact .refl _ _
      next store heq =>
        refine ⟨rfl, ?_⟩
        rcases Store.relay_cases heq with ⟨-, rfl⟩ | ⟨b, h, -⟩
        · exact .refl _ _
        · exact absurd h.symm (Option.some_ne_none b)
    next => exact ⟨rfl, .refl _ _⟩
  next => exact ⟨rfl, .refl _ _⟩

theorem response_fate (H : t.forward.Owns cfg t.store) (hdistinct : t.store.bindings.Distinct)
    {accountName : String} {issued : Option IssuedProvisioningBinding}
    (hphase : t.forward.phase = .waiting accountName issued) (response : WorkerResponse) (now : Int)
    {saves : ResponseSaves} (hreleased : saves.released = true) (hcancelled : saves.cancelled = true) :
    t.Fate cfg (.response response now saves)
      (t.response cfg accountName issued response now saves) := by
  have hissued : t.forward.issued = issued := by unfold Forward.issued; rw [hphase]
  have hanswer : t.forward.answer (.response response now saves) =
      some (accountName, response) := by
    unfold Forward.answer
    rw [hphase]
  have hentry : ∀ b, issued = some b → ∀ c, t.store.bindings.get b.generation = some c →
      c = b ∧ b.accountName = accountName := by
    intro b hb c hc
    have h := H.entry b (hissued.trans hb) c hc
    unfold Forward.Entry at h
    rw [hphase] at h
    exact h
  obtain ⟨s₁, hs₁, hreduced₁, hgone⟩ := releaseAnswered_fate hdistinct hissued hanswer
    fun b hb c hc => (hentry b hb c hc).1
  obtain ⟨s₂, hs₂, hreduced₂⟩ := releaseCancelled_fate (t := { t with store := s₁ })
    (hreduced₁.distinct hdistinct) hanswer
  have hreduced : t.store.Reduced (t.forward.Named (.response response now saves)) s₂ :=
    hreduced₁.trans hreduced₂
  -- the notification does not change the bindings
  have hstreaming : ∀ u : Turn, u.forward = t.forward → s₂.Reduced (fun _ => False) u.store →
      t.Fate cfg (.response response now saves)
        { u with forward.phase := .streaming accountName issued response (some []) } := by
    intro u hforward hsame
    have hall := hreduced.trans (hsame.mono fun _ h => absurd h not_false)
    refine .of_reduced H (hall.mono fun _ => .inl) hissued.symm ?_ ?_ fun b hb c hc => ?_
    · show u.forward.call = t.forward.call
      rw [hforward]
    · show u.forward.replies.length ≤ 1
      rw [hforward]
      exact H.replies
    · have hb' := hissued.symm.trans hb
      have hold := hentry b hb' c (hall.loses.get_of_get hc)
      refine ⟨?_, hold⟩
      by_contra hstatus
      have hnone := hgone hstatus b hb'
      have hsome := (hreduced₂.trans (hsame.mono fun _ h => absurd h not_false)).loses.get_of_get hc
      exact absurd (hsome.symm.trans hnone) (Option.some_ne_none c)
  unfold Turn.response
  rw [hreleased, hs₁]
  dsimp only
  rw [hcancelled, hs₂]
  dsimp only
  split
  next =>
    obtain ⟨hforward, hsame⟩ := { t with store := s₂ }.relay_same cfg accountName response now
      saves.notified
    exact hstreaming _ hforward hsame
  next => exact hstreaming { t with store := s₂ } rfl (.refl _ s₂)

theorem dropSuperseded_loses {bindings : Bindings} (H : bindings.Distinct)
    (binding : IssuedProvisioningBinding) (supersededGeneration : Option String) :
    bindings.Loses (fun c => supersededGeneration = some c.generation ∧
        c.accountName = binding.accountName ∧ c.engine = binding.engine)
      (Store.dropSuperseded bindings binding supersededGeneration) := by
  unfold Store.dropSuperseded
  split
  next => exact .refl _ bindings
  next generation =>
    split
    next hdrop =>
      refine (H.loses_filter _).mono fun c hc => ?_
      have hgeneration : c.generation = generation := by simpa using hc.2
      have hsame := hdrop.2
      rw [H.get_eq_some.mpr ⟨hc.1, hgeneration⟩, Option.any_some, Bool.and_eq_true, beq_iff_eq,
        beq_iff_eq] at hsame
      exact ⟨congrArg some hgeneration.symm, hsame⟩
    next => exact .refl _ bindings

/-- The own binding has got its session. -/
theorem bound_fate (H : t.forward.Owns cfg t.store) (hdistinct : t.store.bindings.Distinct)
    {accountName : String} {binding final : IssuedProvisioningBinding} {response : WorkerResponse}
    {body : List UInt8} (hphase : t.forward.phase =
      .streaming accountName (some binding) response (some body)) (hstatus : response.statusCode = 201)
    (hget : t.store.bindings.get binding.generation = some binding) {now : Int}
    (hfinal : Store.finalized cfg binding body now = some final) (event : ForwardEvent)
    (history : History) {f : Forward} (hcall : f.call = t.forward.call)
    (hreplies : f.replies.length ≤ 1) :
    t.Fate cfg event (Turn.settle ⟨t.store.withSession final (superseded response), f, history⟩
      (some binding) (some (response, some body))) := by
  have hissued : t.forward.issued = some binding := by unfold Forward.issued; rw [hphase]
  have haccount : binding.accountName = accountName := by
    have h := H.entry binding hissued binding hget
    unfold Forward.Entry at h
    rw [hphase] at h
    exact h.2.2
  have hanswer : t.forward.answer event = some (accountName, response) := by
    unfold Forward.answer
    rw [hphase]
  have hsame : final.generation = binding.generation ∧ final.accountName = binding.accountName ∧
      final.engine = binding.engine := by
    obtain ⟨_, _, -, -, -, -, rfl⟩ := Store.finalized_eq hfinal
    exact ⟨rfl, rfl, rfl⟩
  have hset := hdistinct.set final
  have hloses := dropSuperseded_loses hset final (superseded response)
  refine ⟨⟨fun b hb c hc => ?_, fun b hb => ?_, fun b hb => ?_, hreplies⟩, id, fun b hb => ?_,
    fun generation hne => ?_⟩
  · cases hb
    have hc' : (t.store.bindings.set final).get binding.generation = some c := hloses.get_of_get hc
    rw [← hsame.1, hdistinct.get_set] at hc'
    cases hc'
    exact ⟨response, body, now, rfl, hstatus, hfinal⟩
  · cases hb
    exact H.covered binding hissued
  · cases hb
    show authSessionCollection f.call.path = _
    rw [hcall]
    exact H.engine binding hissued
  · cases hb
    exact .inl hissued
  · have hget' : (t.store.bindings.set final).get generation = t.store.bindings.get generation :=
      hdistinct.get_set_of_ne (hsame.1.symm ▸ hne binding rfl)
    rcases hloses generation with h | ⟨h, c, hc, hsuperseded, hcaccount, hcengine⟩
    · exact .inl (h.trans hget')
    · refine .inr ⟨h, c, hget'.symm.trans hc, .inl (.inr ⟨response, ?_, .inl ⟨hsuperseded, ?_⟩⟩)⟩
      · rw [hanswer, hcaccount, hsame.2.1, haccount]
      · rw [H.engine binding hissued, hcengine, hsame.2.2]

theorem ended_fate (H : t.forward.Owns cfg t.store) (hdistinct : t.store.bindings.Distinct)
    {accountName : String} {issued : Option IssuedProvisioningBinding} {response : WorkerResponse}
    {body : SessionBody} (hphase : t.forward.phase = .streaming accountName issued response body)
    (now : Int) {saves : EndSaves} (hbound : saves.bound = true) (hreleased : saves.released = true) :
    t.Fate cfg (.ended now saves) (t.ended cfg accountName issued response body now saves) := by
  have hissued : t.forward.issued = issued := by unfold Forward.issued; rw [hphase]
  have hanswer : t.forward.answer (.ended now saves) = some (accountName, response) := by
    unfold Forward.answer
    rw [hphase]
  have hentry : ∀ b, issued = some b → ∀ c, t.store.bindings.get b.generation = some c →
      response.statusCode = 201 ∧ c = b := by
    intro b hb c hc
    have h := H.entry b (hissued.trans hb) c hc
    unfold Forward.Entry at h
    rw [hphase] at h
    exact ⟨h.1, h.2.1⟩
  have hreplies : ∀ r, (t.forward.reply r).replies.length ≤ 1 := Forward.reply_replies H.replies
  unfold ended
  split
  next hfinalize =>
    refine .settled H hissued (.refl _ t.store) (fun b hb => ?_) (Forward.reply_call ..) (hreplies _)
      (some (response, body))
    cases hget : t.store.bindings.get b.generation with
    | none => rfl
    | some c =>
      unfold bindingToFinalize at hfinalize
      rw [if_pos (hentry b hb c hget).1, hb] at hfinalize
      exact absurd hfinalize (Option.some_ne_none b)
  next binding hfinalize =>
    have hstatus : response.statusCode = 201 ∧ issued = some binding := by
      unfold bindingToFinalize at hfinalize
      split at hfinalize
      next h => exact ⟨h, hfinalize⟩
      next => exact absurd hfinalize.symm (Option.some_ne_none binding)
    obtain ⟨hstatus, rfl⟩ := hstatus
    have hfailed : t.Fate cfg (.ended now saves) (({ t with
        store := (t.store.releaseWorkerResponseBindings (some binding) accountName
          (authSessionCollection t.forward.call.path) (superseded response) true).1 }.fail
        .worker_unavailable).settle (some binding) (some (response, body))) := by
      obtain ⟨s', hs, hreduced, hgone⟩ := releaseWorker_fate hdistinct hissued hanswer
        fun b hb c hc => (hentry b hb c hc).2
      rw [hs]
      exact .settled H hissued (hreduced.mono fun _ => .inl) hgone (Forward.reply_call ..) (hreplies _)
        (some (response, body))
    rw [hbound, hreleased]
    unfold bindSession
    cases body with
    | none => exact hfailed
    | some body =>
      dsimp only
      cases hbind : t.store.bindIssuedGenerationToSession cfg binding body (superseded response) now
        true with
      | mk store result =>
        rcases Store.bind_cases hbind with ⟨hresult, rfl⟩ | ⟨rfl, -, hget, final, hfinal, rfl⟩
        · split
          next u heq =>
            split at heq
            next heq' =>
              obtain ⟨-, rfl⟩ := Prod.mk.inj heq'
              exact absurd rfl hresult
            next => exact absurd (Prod.mk.inj heq).2.symm Bool.false_ne_true.symm
          next u heq =>
            split at heq
            next => exact absurd (Prod.mk.inj heq).2 Bool.false_ne_true.symm
            next heq' =>
              obtain ⟨rfl, -⟩ := Prod.mk.inj heq'
              obtain ⟨rfl, -⟩ := Prod.mk.inj heq
              exact hfailed
        · exact bound_fate H hdistinct hphase hstatus hget hfinal _ _ (Forward.reply_call ..)
            (hreplies _)

theorem requestedBinding_spec {call : Call} {accountName : String} {options : IssueOptions}
    (h : requestedBinding cfg call accountName = some options) :
    options.accountName = accountName ∧ authSessionCollection call.path = some options.engine := by
  unfold requestedBinding at h
  split at h
  next =>
    split at h
    next hengine =>
      cases h
      exact ⟨rfl, hengine⟩
    next => exact absurd h.symm (Option.some_ne_none _)
  next => exact absurd h.symm (Option.some_ne_none _)

theorem ensured_fate (H : t.forward.Owns cfg t.store) (K : Kept t.store)
    (hphase : t.forward.phase = .ensuring) (accountName : String) (uuid : Uuidv7)
    (issuedAt now : Int) : t.Fate cfg (.ensured accountName uuid issuedAt now true)
      (t.ensured cfg accountName uuid issuedAt now true) := by
  have hissued : t.forward.issued = none := by unfold Forward.issued; rw [hphase]
  have hnone : ∀ {P : IssuedProvisioningBinding → Prop} (b), (none : Option _) = some b → P b :=
    fun b hb => absurd hb.symm (Option.some_ne_none b)
  have hfailed : ∀ s', t.store.Reduced (ForwardEvent.ensured accountName uuid issuedAt now true).Expires s' →
      t.Fate cfg (.ensured accountName uuid issuedAt now true)
        (({ t with store := s' }.fail .worker_unavailable).settle none none) := fun s' hreduced =>
    .settled H hissued (hreduced.mono fun _ => .inr) hnone (Forward.reply_call ..)
      (Forward.reply_replies H.replies _) none
  unfold ensured
  split
  next => exact .settled H hissued (.refl _ t.store) hnone rfl H.replies none
  next =>
    split
    next =>
      refine .of_reduced H (.refl _ t.store) hissued.symm rfl H.replies fun b hb => ?_
      exact absurd (hissued.symm.trans hb).symm (Option.some_ne_none b)
    next options hoptions =>
      have hexpired : t.store.bindings.Loses
          (ForwardEvent.ensured accountName uuid issuedAt now true).Expires
          (t.store.bindings.unexpired now) := by
        refine (K.distinctInMemory.loses_filter _).mono fun b hb => ?_
        exact Int.not_lt.mp (of_decide_eq_false hb.2)
      have hsublist : (t.store.bindings.unexpired now).Sublist t.store.bindings := List.filter_sublist
      split
      next store issued heq =>
        rcases Store.issue_cases heq with ⟨h, -⟩ | ⟨-, -, generation, hnext, h, rfl⟩
        · exact absurd h (Option.some_ne_none _)
        · cases h
          obtain ⟨-, hlater⟩ := nextGeneration_spec K.latestGeneration hnext
          have hdistinct : Bindings.Distinct (t.store.bindings.unexpired now) :=
            K.distinctInMemory.sublist hsublist
          obtain ⟨haccount, hengine⟩ := requestedBinding_spec hoptions
          refine ⟨⟨fun b hb c hc => ?_, fun b hb => ?_, fun b hb => ?_, H.replies⟩, ?_, fun b hb => ?_,
            fun g hne => ?_⟩
          · cases hb
            have hc' := (hdistinct.get_set _).symm.trans hc
            cases hc'
            exact ⟨rfl, haccount⟩
          · cases hb
            exact ⟨generation, rfl, le_refl _⟩
          · cases hb
            exact hengine
          · rintro g ⟨l, hl, hle⟩
            exact ⟨generation, rfl, hle.trans (hlater l hl).le⟩
          · cases hb
            refine .inr ?_
            rintro ⟨l, hl, hle⟩
            exact absurd hle (not_le_of_gt (hlater l hl))
          · have hget := hdistinct.get_set_of_ne (hne _ rfl)
            rcases hexpired g with h | ⟨h, c, hc, hlost⟩
            · exact .inl (hget.trans h)
            · exact .inr ⟨hget.trans h, c, hc, .inr hlost⟩
      next store heq =>
        rcases Store.issue_cases heq with ⟨-, rfl | rfl⟩ | ⟨-, -, generation, -, h, -⟩
        · exact hfailed _ (.refl _ t.store)
        · refine hfailed _ ⟨rfl, fun hdistinct => hdistinct.sublist hsublist, hexpired⟩
        · exact absurd h.symm (Option.some_ne_none _)

theorem data_fate (H : t.forward.Owns cfg t.store) {accountName : String}
    {issued : Option IssuedProvisioningBinding} {response : WorkerResponse} {body : SessionBody}
    (hphase : t.forward.phase = .streaming accountName issued response body) (chunk : List UInt8) :
    t.Fate cfg (.data chunk) (t.data accountName issued response body chunk) := by
  have hissued : t.forward.issued = issued := by unfold Forward.issued; rw [hphase]
  unfold data
  split
  next =>
    exact .same H _ (Forward.reply_phase ..) (Forward.reply_call ..) (Forward.reply_replies H.replies _)
  next =>
    refine .of_reduced H (.refl _ t.store) hissued.symm rfl H.replies fun b hb c hc => ?_
    have h := H.entry b hb c hc
    unfold Forward.Entry at h
    rw [hphase] at h
    exact h

theorem on_fate (H : t.forward.Owns cfg t.store) (K : Kept t.store) {event : ForwardEvent}
    (hsaved : event.Saved) : t.Fate cfg event (t.on cfg event) := by
  have hsame : t.Fate cfg event t := .same H event rfl rfl H.replies
  cases event with
  | clientClosed => exact .same H _ rfl rfl H.replies
  | ensured accountName uuid issuedAt now saved =>
    cases hsaved
    unfold Turn.on
    dsimp only
    split
    next hphase => exact ensured_fate H K hphase accountName uuid issuedAt now
    next => exact hsame
  | ensureFailed code =>
    unfold Turn.on
    dsimp only
    split
    next hphase =>
      have hissued : t.forward.issued = none := by unfold Forward.issued; rw [hphase]
      refine .settled H hissued (.refl _ t.store) (fun b hb => ?_) (Forward.reply_call ..)
        (Forward.reply_replies H.replies _) none
      exact absurd hb.symm (Option.some_ne_none b)
    next => exact hsame
  | response response now saves =>
    unfold Turn.on
    dsimp only
    split
    next accountName issued hphase =>
      exact response_fate H K.distinctInMemory hphase response now hsaved.1 hsaved.2.1
    next => exact hsame
  | data chunk =>
    unfold Turn.on
    dsimp only
    split
    next accountName issued response body hphase => exact data_fate H hphase chunk
    next => exact hsame
  | ended now saves =>
    unfold Turn.on
    dsimp only
    split
    next accountName issued response body hphase =>
      exact ended_fate H K.distinctInMemory hphase now hsaved.1 hsaved.2
    next => exact hsame
  | responseError saved =>
    cases hsaved
    unfold Turn.on
    dsimp only
    split
    next accountName issued response body hphase =>
      exact responseError_fate H K.distinctInMemory hphase
    next => exact hsame
  | requestError saved =>
    cases hsaved
    unfold Turn.on
    dsimp only
    split
    next accountName issued hphase => exact requestError_fate H K.distinctInMemory hphase
    next => exact hsame

end Turn

/-! ## All requests -/

/-- Every request has its own binding. -/
structure Tracks (cfg : GatewayConfig) (g : Gateway) : Prop where
  kept : Kept g.store
  owns : ∀ id f, g.forwards id = some f → f.Owns cfg g.store
  unique : ∀ id id' f f' b b', g.forwards id = some f → g.forwards id' = some f' →
    f.issued = some b → f'.issued = some b' → b.generation = b'.generation → id = id'

namespace Tracks

variable {cfg : GatewayConfig} {g : Gateway}

theorem call (H : Tracks cfg g) (id : Nat) (call : Call) : Tracks cfg (g.call id call) := by
  unfold Gateway.call
  split
  next => exact H
  next =>
    have hold : ∀ id' f, Function.update g.forwards id (some ⟨call, false, [], .ensuring⟩) id' =
        some f → g.forwards id' = some f ∨ f = ⟨call, false, [], .ensuring⟩ := by
      intro id' f hf
      by_cases hid : id' = id
      · subst hid
        rw [Function.update_self] at hf
        exact .inr (Option.some.inj hf).symm
      · rw [Function.update_of_ne hid] at hf
        exact .inl hf
    have hnone : ∀ b, (⟨call, false, [], .ensuring⟩ : Forward).issued ≠ some b :=
      fun b h => absurd h.symm (Option.some_ne_none b)
    refine ⟨H.kept, fun id' f hf => ?_, fun id₁ id₂ f₁ f₂ b₁ b₂ h₁ h₂ hb₁ hb₂ hgeneration => ?_⟩
    · rcases hold id' f hf with hf | rfl
      · exact H.owns id' f hf
      · exact ⟨fun b hb => absurd hb (hnone b), fun b hb => absurd hb (hnone b),
          fun b hb => absurd hb (hnone b), Nat.zero_le 1⟩
    · rcases hold id₁ f₁ h₁ with h₁ | rfl
      · rcases hold id₂ f₂ h₂ with h₂ | rfl
        · exact H.unique id₁ id₂ f₁ f₂ b₁ b₂ h₁ h₂ hb₁ hb₂ hgeneration
        · exact absurd hb₂ (hnone b₂)
      · exact absurd hb₁ (hnone b₁)

theorem restart (H : Tracks cfg g) (now : Int) : Tracks cfg (g.restart now) where
  kept := H.kept.restart now
  owns _ f hf := absurd hf.symm (Option.some_ne_none f)
  unique _ _ f _ _ _ hf := absurd hf.symm (Option.some_ne_none f)

/-- A callback of another request leaves the own binding alone, or drops it. -/
theorem owns_other {t t' : Turn} {event : ForwardEvent} (F : t.Fate cfg event t') {f : Forward}
    (H : f.Owns cfg t.store) (hother : ∀ b b', t.forward.issued = some b → f.issued = some b' →
      b.generation ≠ b'.generation) : f.Owns cfg t'.store := by
  have hne : ∀ b', f.issued = some b' → ∀ b, t'.forward.issued = some b →
      b.generation ≠ b'.generation := by
    intro b' hb' b hb
    rcases F.issued b hb with hb | hfresh
    · exact hother b b' hb hb'
    · intro hgeneration
      exact hfresh (hgeneration ▸ H.covered b' hb')
  refine ⟨fun b hb c hc => ?_, fun b hb => F.covers (H.covered b hb), H.engine, H.replies⟩
  rcases F.others b.generation (hne b hb) with h | ⟨h, -⟩
  · exact H.entry b hb c (h ▸ hc)
  · exact absurd (hc.symm.trans h) (Option.some_ne_none c)

theorem on (H : Tracks cfg g) (id : Nat) {event : ForwardEvent} (hsaved : event.Saved) :
    Tracks cfg (g.on cfg id event) := by
  unfold Gateway.on
  split
  next => exact H
  next forward hforward =>
    have K : Kept ((Turn.mk g.store forward g.history).on cfg event).store :=
      ((Turn.mk g.store forward g.history).on_changes cfg event).keeps
        (I := fun books => Kept books.store) (fun a b => Kept.change) H.kept
    have F := Turn.on_fate (t := Turn.mk g.store forward g.history) (H.owns id forward hforward) H.kept
      hsaved
    generalize (Turn.mk g.store forward g.history).on cfg event = t' at F K ⊢
    have hcases : ∀ id' f, Function.update g.forwards id (some t'.forward) id' = some f →
        (id' = id ∧ f = t'.forward) ∨ (id' ≠ id ∧ g.forwards id' = some f) := by
      intro id' f hf
      by_cases hid : id' = id
      · subst hid
        rw [Function.update_self] at hf
        exact .inl ⟨rfl, (Option.some.inj hf).symm⟩
      · rw [Function.update_of_ne hid] at hf
        exact .inr ⟨hid, hf⟩
    -- a request that is not the one of the callback has another generation
    have hother : ∀ id' f, id' ≠ id → g.forwards id' = some f → ∀ b b',
        t'.forward.issued = some b → f.issued = some b' → b.generation ≠ b'.generation := by
      intro id' f hid hf b b' hb hb' hgeneration
      rcases F.issued b hb with hb | hfresh
      · exact hid (H.unique id id' forward f b b' hforward hf hb hb' hgeneration).symm
      · exact hfresh (hgeneration ▸ (H.owns id' f hf).covered b' hb')
    refine ⟨K, fun id' f hf => ?_, fun id₁ id₂ f₁ f₂ b₁ b₂ h₁ h₂ hb₁ hb₂ hgeneration => ?_⟩
    · rcases hcases id' f hf with ⟨-, rfl⟩ | ⟨hid, hf⟩
      · exact F.owns
      · refine owns_other F (H.owns id' f hf) fun b b' hb hb' hgeneration => hid ?_
        exact (H.unique id id' forward f b b' hforward hf hb hb' hgeneration).symm
    · rcases hcases id₁ f₁ h₁ with ⟨rfl, rfl⟩ | ⟨hid₁, hf₁⟩
      · rcases hcases id₂ f₂ h₂ with ⟨rfl, -⟩ | ⟨hid₂, hf₂⟩
        · rfl
        · exact absurd hgeneration (hother id₂ f₂ hid₂ hf₂ b₁ b₂ hb₁ hb₂)
      · rcases hcases id₂ f₂ h₂ with ⟨rfl, rfl⟩ | ⟨hid₂, hf₂⟩
        · exact absurd hgeneration.symm (hother id₁ f₁ hid₁ hf₁ b₂ b₁ hb₂ hb₁)
        · exact H.unique id₁ id₂ f₁ f₂ b₁ b₂ hf₁ hf₂ hb₁ hb₂ hgeneration

end Tracks

theorem tracks_run (cfg : GatewayConfig) (earlier : EarlierFiles) (start : Int) (events : List Event)
    (hsaved : (gateway cfg earlier start).Along (fun _ event => event.Saved) (.init earlier start)
      events) : Tracks cfg ((gateway cfg earlier start).run events) := by
  have hinit : Tracks cfg (.init earlier start) := {
    kept := kept_init earlier start
    owns := fun _ f hf => absurd hf.symm (Option.some_ne_none f)
    unique := fun _ _ f _ _ _ hf => absurd hf.symm (Option.some_ne_none f) }
  refine Lib.Machine.runFrom_keeps_along (I := Tracks cfg) (fun g event hevent H => ?_) hinit hsaved
  cases event with
  | call id call => exact H.call id call
  | on id event => exact H.on id hevent
  | restart now => exact H.restart now

/-- With saves that succeed, a request that has settled has its binding no more, or with the session
that a valid 201 named; it has answered at most once; and every binding that it drops, at any step,
is named by what it does or expired. -/
theorem bindingsSettled (cfg : GatewayConfig) (earlier : EarlierFiles) (start : Int)
    (events : List Event)
    (hsaved : (gateway cfg earlier start).Along (fun _ event => event.Saved) (.init earlier start)
      events) :
    let g := (gateway cfg earlier start).run events
    ∀ id f, g.forwards id = some f →
      f.replies.length ≤ 1 ∧
      (∀ binding answer, f.phase = .settled (some binding) answer →
        ∀ c, g.store.bindings.get binding.generation = some c → Final cfg binding c answer) ∧
      ∀ event, event.Saved → ∀ c ∈ g.store.bindings,
        c ∉ (g.on cfg id event).store.bindings → f.Named event c ∨ event.Expires c := by
  intro g id f hf
  have H : Tracks cfg g := tracks_run cfg earlier start events hsaved
  have hown := H.owns id f hf
  refine ⟨hown.replies, fun binding answer hphase c hc => ?_, fun event hevent c hc hlost => ?_⟩
  · have hentry := hown.entry binding (by unfold Forward.issued; rw [hphase]) c hc
    unfold Forward.Entry at hentry
    rw [hphase] at hentry
    exact hentry
  · have F := Turn.on_fate (t := Turn.mk g.store f g.history) hown H.kept hevent
    have hstore : (g.on cfg id event).store = ((Turn.mk g.store f g.history).on cfg event).store := by
      unfold Gateway.on
      rw [hf]
    rw [hstore] at hlost
    have hget : g.store.bindings.get c.generation = some c :=
      H.kept.distinctInMemory.get_eq_some.mpr ⟨hc, rfl⟩
    by_cases hissued : ∃ b, ((Turn.mk g.store f g.history).on cfg event).forward.issued = some b ∧
        b.generation = c.generation
    · obtain ⟨b, hb, hgeneration⟩ := hissued
      rcases F.issued b hb with hb | hfresh
      · exact .inl (.inl ⟨b, hb, hgeneration⟩)
      · exact absurd (hgeneration ▸ H.kept.coveredByLatest c hc) hfresh
    · rcases F.others c.generation (fun b hb hgeneration => hissued ⟨b, hb, hgeneration⟩) with
        h | ⟨-, c', hc', hnamed⟩
      · exact absurd (Bindings.mem_of_get (h.trans hget)).1 hlost
      · cases hget.symm.trans hc'
        exact hnamed

theorem bindingsSettled_issued :
    let g := (gateway plainGateway ⟨none, none⟩ 0).run
      (issueEvents 0 "claude" 1 ++ [.on 0 (.requestError true)])
    ∀ id f, g.forwards id = some f →
      f.replies.length ≤ 1 ∧
      (∀ binding answer, f.phase = .settled (some binding) answer →
        ∀ c, g.store.bindings.get binding.generation = some c → Final plainGateway binding c answer) ∧
      ∀ event, event.Saved → ∀ c ∈ g.store.bindings,
        c ∉ (g.on plainGateway id event).store.bindings → f.Named event c ∨ event.Expires c :=
  bindingsSettled plainGateway ⟨none, none⟩ 0 _ ⟨trivial, rfl, rfl, trivial⟩

/-- Bob's request drops alice's binding, which has expired. -/
theorem issue_dropsExpired :
    let g := (gateway plainGateway ⟨none, none⟩ 0).run
      (issueEvents 0 "claude" 1 ++ [.call 1 (sessionCall "claude")])
    let event := ForwardEvent.ensured "cap_b" (Isolation.plainUuidv7 700000) 700000 700000 true
    event.Saved ∧ ∃ f, g.forwards 1 = some f ∧ ∃ c ∈ g.store.bindings,
      c ∉ (g.on plainGateway 1 event).store.bindings ∧ ¬f.Named event c := by
  refine ⟨rfl, ⟨sessionCall "claude", false, [], .ensuring⟩, rfl, plainBinding "claude" 1, ?_, ?_, ?_⟩
  · decide +kernel
  · decide +kernel
  · rintro (⟨b, hb, -⟩ | ⟨response, h, -⟩)
    · exact absurd hb.symm (Option.some_ne_none b)
    · exact absurd h.symm (Option.some_ne_none _)

end CliProxy.WorkerProxy
