import CliProxy.Provision.SyncQueueLoops

/-! # What every run of the queue keeps

The jobs of a loop, of an approval and the calls keep `Inv`; with the jobs of the chain this
covers every event (`Inv.step`). -/

namespace CliProxy.Provision

open Function (update)

namespace Workspace

variable {s s' : Workspace} {phase phase' : ChainPhase} {jobs : List Job} {loop op : Nat}
  {l : Loop} {outcome : Outcome} {result : Except String (Option Nat)}

theorem setPhase_eq (h : s.loops loop = some l) (p : LoopPhase) :
    s.setPhase loop p = { s with loops := update s.loops loop (some { l with phase := p }) } := by
  simp only [setPhase, h]

theorem iterate_eq (s : Workspace) (loop : Nat) (previous : Option Nat) :
    s.iterate loop previous =
      { s.serialize (.runSync loop s.manifestGeneration) with
        syncRequested := false
        loops := update s.loops loop
          (some ⟨s.bodies.length, s.manifestGeneration, previous, .awaiting⟩) } := by
  rw [serialize_eq]
  exact serialize_eq ..

theorem syncNow_some (h : s.inFlight = some loop) : s.syncNow = (loop, s) := by
  simp only [syncNow, h]

theorem syncNow_none (h : s.inFlight = none) : ∃ l, s.syncNow.2.loops s.syncNow.1 = some l ∧
    l.op = s.bodies.length ∧ l.phase = .awaiting ∧ s.syncNow.2.log = s.log := by
  simp only [syncNow, h, iterate_eq, serialize_eq]
  exact ⟨_, Function.update_self .., rfl, rfl, trivial⟩

theorem syncNow_registered (s : Workspace) : s.syncNow.2.registered = s.registered ∧
    s.syncNow.2.manifestGeneration = s.manifestGeneration := by
  cases h : s.inFlight with
  | some loop =>
    rw [syncNow_some h]
    exact ⟨rfl, rfl⟩
  | none =>
    simp only [syncNow, h, iterate_eq, serialize_eq]
    exact ⟨trivial, trivial⟩

theorem serialize_fields (s : Workspace) (body : Body) :
    (s.serialize body).loopJobs = s.loopJobs ∧
      (s.serialize body).approvedJobs = s.approvedJobs ∧
      ∀ settled op loop, (s.serialize body).Unsettled settled op loop →
        s.Unsettled settled op loop ∨ op = s.bodies.length ∧
          ∃ generation, body = .runSync loop generation := by
  have hdue : ∀ job ∈ s.dueJobs, job.isChain = true := by
    intro job hj
    obtain ⟨op, rfl⟩ := mem_dueJobs hj
    rfl
  rw [serialize_eq]
  refine ⟨?_, ?_, ?_⟩
  · rw [loopJobs, List.filter_append, (Job.filter_chain hdue).1, List.append_nil, loopJobs]
  · rw [approvedJobs, List.filter_append, (Job.filter_chain hdue).2, List.append_nil,
      approvedJobs]
  · rintro settled op loop ⟨hle, generation, hget⟩
    rcases Nat.lt_trichotomy op s.bodies.length with hlt | rfl | hlt
    · rw [List.getElem?_append_left hlt] at hget
      exact .inl ⟨hle, generation, hget⟩
    · exact .inr ⟨rfl, generation, by simpa using hget⟩
    · rw [List.getElem?_eq_none (by simpa using Nat.succ_le_of_lt hlt)] at hget
      cases hget

/-- An iteration of the loop in flight starts: its run is the last body. -/
theorem Base.iterate (B : s.Base phase) (hflight : s.inFlight = some loop)
    (hnext : loop < s.nextLoop) (hold : ∀ l, s.loops loop = some l → l.op ≤ s.bodies.length)
    (hu : ∀ op loop, ¬ s.Unsettled (phase.settled s.advanced) op loop) (hj : s.loopJobs = [])
    (previous : Option Nat) : (s.iterate loop previous).Inv phase.served := by
  have hserialize := B.serialize (.runSync loop s.manifestGeneration)
  obtain ⟨hloop, -, hunsettled⟩ := s.serialize_fields (.runSync loop s.manifestGeneration)
  rw [iterate_eq]
  rw [serialize_eq] at hserialize hloop hunsettled ⊢
  refine ⟨hserialize.setLoop false ⟨hnext, ?_, Nat.le_refl _, fun _ => hflight, nofun⟩ hold
    fun result hm => absurd hflight (hserialize.settles hm).1, ?_⟩
  · exact List.getElem?_concat_length
  · refine .waiting hflight (Function.update_self ..) rfl ?_ (fun op loop' h => ?_)
      (hloop.trans hj) (.inl ?_)
    · rw [ChainPhase.served_settled]
      exact B.chain.settled_le
    · rw [ChainPhase.served_settled] at h
      rcases hunsettled _ _ _ h with h | ⟨rfl, _, h⟩
      · exact absurd h (hu _ _)
      · cases h
        exact ⟨rfl, rfl⟩
    · simp

namespace Inv

theorem loop_head (H : s.Inv phase) (h : s.jobs = .loop loop op outcome :: jobs) :
    (∃ l, s.inFlight = some loop ∧ s.loops loop = some l ∧ l.phase = .awaiting ∧ l.op = op ∧
      op < phase.settled s.advanced ∧ (outcome = .ok () → .loaded op ∈ s.log) ∧
      (op + 1 = s.bodies.length ∨ s.syncRequested = true)) ∧
    (∀ op loop, ¬ s.Unsettled (phase.settled s.advanced) op loop) ∧
    (s.dequeue jobs).loopJobs = [] ∧ (s.dequeue jobs).approvedJobs = [] := by
  have hhead : s.loopJobs = .loop loop op outcome :: jobs.filter Job.isLoop := by
    rw [loopJobs, h]
    rfl
  have happroved : s.approvedJobs = jobs.filter Job.isApproved := by
    rw [approvedJobs, h]
    rfl
  cases H.flight with
  | resuming hf hl hp hlt hu hj hok ha hr =>
    rw [hhead] at hj
    simp only [List.cons.injEq, Job.loop.injEq] at hj
    obtain ⟨⟨rfl, rfl, rfl⟩, hj⟩ := hj
    exact ⟨⟨_, hf, hl, hp, rfl, hlt, hok, hr⟩, hu, hj, happroved.symm.trans ha⟩
  | landed _ hj => simp [hhead] at hj
  | waiting _ _ _ _ _ hj => simp [hhead] at hj
  | returned _ _ _ _ hj => simp [hhead] at hj
  | clearing _ _ _ _ hj => simp [hhead] at hj

/-- No body is due while every body's promise has settled. -/
theorem not_operation (H : s.Base phase) (h : phase.settled s.advanced = s.bodies.length) :
    .operation op ∉ s.jobs := by
  intro hm
  have hmem : .operation op ∈ s.chainJobs := List.mem_filter.mpr ⟨hm, rfl⟩
  cases H.chain.stage <;> simp_all [ChainPhase.settled]

theorem returnLoop (H : s.Inv phase) (h : s.jobs = .loop loop op outcome :: jobs)
    (hreq : s.syncRequested = false)
    (hresult : ∀ run, result = .ok run → run = some op ∧ .loaded op ∈ s.log) :
    ((s.dequeue jobs).returnLoop loop result).Inv phase := by
  obtain ⟨⟨l, hf, hl, hp, rfl, hlt, -, hlast⟩, hu, hj, ha⟩ := H.loop_head h
  have B := H.base.dequeue h rfl
  have hok := B.loops hl
  have hsettled : phase.settled s.advanced = s.bodies.length := by
    have := H.base.chain.settled_le
    have := hlast.resolve_right (by simp [hreq])
    omega
  have hl' : (s.dequeue jobs).loops loop = some l := hl
  rw [Workspace.returnLoop, setPhase_eq hl']
  have B' := B.setLoop (l := { l with phase := .returned result }) s.syncRequested
    ⟨hok.old, hok.body, hok.generation, nofun, fun r hr => ⟨hlt, by
      rcases hr with hr | hr <;> cases hr
      exact hresult⟩⟩
    (fun l' h' => by rw [hl'] at h'; cases h'; exact Nat.le_refl _)
    (fun r hm => absurd hf (B.settles hm).1)
  refine ⟨B'.enqueue rfl (fun job hm => ?_) rfl nofun, ?_⟩
  · cases job with
    | operation op' => exact absurd hm (not_operation B' hsettled)
    | _ => trivial
  · refine .returned hf (Function.update_self ..) rfl hu ?_ ?_
    · rw [loopJobs, Workspace.enqueue, List.filter_append]
      exact congrArg (· ++ _) hj
    · rw [approvedJobs, Workspace.enqueue, List.filter_append]
      exact congrArg (· ++ _) ha

theorem resumeLoop (H : s.Inv phase) (h : s.jobs = .loop loop op outcome :: jobs) :
    ∃ phase', ((s.dequeue jobs).resumeLoop loop op outcome).Inv phase' := by
  obtain ⟨⟨l, hf, hl, hp, rfl, hlt, hloaded, -⟩, hu, hj, -⟩ := H.loop_head h
  have B := H.base.dequeue h rfl
  have hiterate : ∀ previous, ((s.dequeue jobs).iterate loop previous).Inv phase.served := by
    refine B.iterate hf (B.loops hl).old (fun l' hl' => ?_) hu hj
    obtain rfl := Option.some.inj (hl.symm.trans hl')
    exact Nat.le_of_lt (Nat.lt_of_lt_of_le hlt B.chain.settled_le)
  have hl' : (s.dequeue jobs).loops loop = some l := hl
  simp only [Workspace.resumeLoop, hl']
  split
  next =>
    split
    next => exact ⟨_, hiterate _⟩
    next hreq =>
      simp only [Bool.or_eq_true, not_or, Bool.not_eq_true] at hreq
      refine ⟨_, H.returnLoop h hreq.2 fun run hr => ?_⟩
      cases hr
      exact ⟨rfl, hloaded rfl⟩
  next =>
    split
    next hreq =>
      simp only [Bool.and_eq_true, Bool.not_eq_true'] at hreq
      exact ⟨_, H.returnLoop h hreq.2 nofun⟩
    next hreq =>
      split
      next => exact ⟨_, hiterate _⟩
      next hreq' => exact absurd hreq (by simpa using hreq')

theorem caught_head (H : s.Inv phase) (h : s.jobs = .caught loop result :: jobs) :
    (∃ l, s.inFlight = some loop ∧ s.loops loop = some l ∧ l.phase = .returned result) ∧
    (∀ op loop, ¬ s.Unsettled (phase.settled s.advanced) op loop) ∧
    (s.dequeue jobs).loopJobs = [] ∧ (s.dequeue jobs).approvedJobs = [] := by
  have hhead : s.loopJobs = .caught loop result :: jobs.filter Job.isLoop := by
    rw [loopJobs, h]
    rfl
  have happroved : s.approvedJobs = jobs.filter Job.isApproved := by
    rw [approvedJobs, h]
    rfl
  cases H.flight with
  | returned hf hl hp hu hj ha =>
    rw [hhead] at hj
    simp only [List.cons.injEq, Job.caught.injEq] at hj
    obtain ⟨⟨rfl, rfl⟩, hj⟩ := hj
    exact ⟨⟨_, hf, hl, hp⟩, hu, hj, happroved.symm.trans ha⟩
  | landed _ hj => simp [hhead] at hj
  | waiting _ _ _ _ _ hj => simp [hhead] at hj
  | resuming _ _ _ _ _ hj => simp [hhead] at hj
  | clearing _ _ _ _ hj => simp [hhead] at hj

theorem cleared_head (H : s.Inv phase) (h : s.jobs = .cleared loop result :: jobs) :
    (∃ l, s.inFlight = some loop ∧ s.loops loop = some l ∧ l.phase = .returned result) ∧
    (∀ op loop, ¬ s.Unsettled (phase.settled s.advanced) op loop) ∧
    (s.dequeue jobs).loopJobs = [] := by
  have hhead : s.loopJobs = .cleared loop result :: jobs.filter Job.isLoop := by
    rw [loopJobs, h]
    rfl
  cases H.flight with
  | clearing hf hl hp hu hj =>
    rw [hhead] at hj
    simp only [List.cons.injEq, Job.cleared.injEq] at hj
    obtain ⟨⟨rfl, rfl⟩, hj⟩ := hj
    exact ⟨⟨_, hf, hl, hp⟩, hu, hj⟩
  | landed _ hj => simp [hhead] at hj
  | waiting _ _ _ _ _ hj => simp [hhead] at hj
  | resuming _ _ _ _ _ hj => simp [hhead] at hj
  | returned _ _ _ _ hj => simp [hhead] at hj

theorem catchLoop (H : s.Inv phase) (h : s.jobs = .caught loop result :: jobs) :
    ((s.dequeue jobs).catchLoop loop result).Inv phase := by
  obtain ⟨⟨l, hf, hl, hp⟩, hu, hj, ha⟩ := H.caught_head h
  have B := H.base.dequeue h rfl
  have hbefore : ∀ job ∈ jobs, job.Before (.cleared loop result) := by
    intro job hm
    cases job with
    | approved => exact absurd rfl (List.filter_eq_nil_iff.mp ha _ hm)
    | _ => trivial
  have hend : ∀ lastError, ({ s.dequeue jobs with lastError }.enqueue
      [.cleared loop result]).Inv phase := by
    intro lastError
    have B' : { s.dequeue jobs with lastError }.Base phase := B.setError lastError
    refine ⟨B'.enqueue rfl hbefore rfl nofun, .clearing hf hl hp hu ?_⟩
    rw [loopJobs, Workspace.enqueue, List.filter_append]
    exact congrArg (· ++ _) hj
  cases result with
  | error message => exact hend (some message)
  | ok run => exact hend s.lastError

theorem clearLoop (H : s.Inv phase) (h : s.jobs = .cleared loop result :: jobs) :
    ((s.dequeue jobs).clearLoop loop result).Inv phase := by
  obtain ⟨⟨l, hf, hl, hp⟩, hu, hj⟩ := H.cleared_head h
  have B := H.base.dequeue h rfl
  have B' : { s.dequeue jobs with inFlight := none }.Base phase := by
    refine ⟨B.chain.congr rfl rfl rfl rfl rfl, fun {loop' l'} hl' => ?_, fun hm => ?_, B.approvals,
      B.order, B.grants⟩
    · refine ⟨(B.loops hl').old, (B.loops hl').body, (B.loops hl').generation, fun hp' => ?_,
        (B.loops hl').ran⟩
      -- The only loop that may await is the one in flight, and that one has returned.
      obtain rfl := Option.some.inj (hf.symm.trans ((B.loops hl').inFlight hp'))
      obtain rfl := Option.some.inj (hl.symm.trans hl')
      rw [hp] at hp'
      cases hp'
    · exact ⟨nofun, (B.settles hm).2⟩
  rw [Workspace.clearLoop]
  refine ⟨B'.enqueue rfl (fun job _ => by cases job <;> trivial) rfl fun loop' result' heq => ?_,
    .landed rfl ?_ hu⟩
  · cases heq
    exact ⟨nofun, l, hl, .inl hp⟩
  · rw [loopJobs, Workspace.enqueue, List.filter_append]
    exact congrArg (· ++ _) hj

end Inv

/-- What `Flight` reads: the loop in flight, its jobs and, of the approvals, only their absence. -/
theorem Flight.congr {settled : Nat} (H : s.Flight settled) (hflight : s'.inFlight = s.inFlight)
    (hloops : ∀ loop, s.inFlight = some loop → s'.loops loop = s.loops loop)
    (hreq : s.syncRequested = true → s'.syncRequested = true) (hbodies : s'.bodies = s.bodies)
    (hlog : s'.log = s.log) (hjobs : s'.loopJobs = s.loopJobs)
    (happroved : s.approvedJobs = [] → s'.approvedJobs = []) : s'.Flight settled := by
  have hunsettled : ∀ {op loop}, s'.Unsettled settled op loop → s.Unsettled settled op loop := by
    intro op loop h
    rwa [Unsettled, hbodies] at h
  cases H with
  | landed hf hj hu =>
    exact .landed (hflight.trans hf) (hjobs.trans hj) fun op loop h => hu op loop (hunsettled h)
  | waiting hf hl hp hle hu hj hr =>
    exact .waiting (hflight.trans hf) ((hloops _ hf).trans hl) hp hle
      (fun op loop h => hu op loop (hunsettled h)) (hjobs.trans hj)
      (hr.imp (fun h => hbodies ▸ h) hreq)
  | resuming hf hl hp hlt hu hj hok ha hr =>
    exact .resuming (hflight.trans hf) ((hloops _ hf).trans hl) hp hlt
      (fun op loop h => hu op loop (hunsettled h)) (hjobs.trans hj) (hlog ▸ hok) (happroved ha)
      (hr.imp (fun h => hbodies ▸ h) hreq)
  | returned hf hl hp hu hj ha =>
    exact .returned (hflight.trans hf) ((hloops _ hf).trans hl) hp
      (fun op loop h => hu op loop (hunsettled h)) (hjobs.trans hj) (happroved ha)
  | clearing hf hl hp hu hj =>
    exact .clearing (hflight.trans hf) ((hloops _ hf).trans hl) hp
      (fun op loop h => hu op loop (hunsettled h)) (hjobs.trans hj)

namespace Inv

theorem settleLoop (H : s.Inv phase) (h : s.jobs = .settle loop result :: jobs) :
    ((s.dequeue jobs).settleLoop loop result).Inv phase := by
  obtain ⟨hne, l, hl, hp⟩ := H.base.settles (h ▸ List.mem_cons_self ..)
  have B := H.base.dequeue h rfl
  have hl' : (s.dequeue jobs).loops loop = some l := hl
  have hok := B.loops hl
  have B' := B.setLoop (l := { l with phase := .settled result }) s.syncRequested
    ⟨hok.old, hok.body, hok.generation, nofun, fun r hr => by
      rcases hr with hr | hr <;> cases hr
      exact hok.ran _ hp⟩
    (fun l' h' => by rw [hl'] at h'; cases h'; exact Nat.le_refl _)
    (fun r hm => .inr (by
      obtain ⟨-, l', h', hp'⟩ := B.settles hm
      obtain rfl := Option.some.inj (hl'.symm.trans h')
      rcases hp with hp | hp <;> rcases hp' with hp' | hp' <;> rw [hp] at hp' <;> cases hp' <;> rfl))
  have hend : ∀ lastError, { (s.dequeue jobs).setPhase loop (.settled result) with
      lastError }.Inv phase := by
    intro lastError
    rw [setPhase_eq hl']
    refine ⟨B'.setError lastError, H.flight.congr rfl (fun loop' hf => ?_) (fun h => h) rfl rfl
      ?_ ?_⟩
    · refine Function.update_of_ne ?_ ..
      rintro rfl
      exact hne hf
    · rw [loopJobs, loopJobs, h]
      rfl
    · rw [approvedJobs, approvedJobs, h]
      exact id
  unfold Workspace.settleLoop
  dsimp only
  split
  next message =>
    split
    next => exact hend (some message)
    next => exact hend ((s.dequeue jobs).setPhase loop _).lastError
  next => exact hend ((s.dequeue jobs).setPhase loop _).lastError

/-- A new loop when none is in flight. -/
theorem newLoop (B : s.Base phase) (hf : s.inFlight = none) (hj : s.loopJobs = [])
    (hu : ∀ op loop, ¬ s.Unsettled (phase.settled s.advanced) op loop) :
    s.syncNow.2.Inv phase.served := by
  have B' : { s with nextLoop := s.nextLoop + 1, inFlight := some s.nextLoop }.Base phase := by
    refine ⟨B.chain.congr rfl rfl rfl rfl rfl, fun hl => ?_, fun hm => ?_, B.approvals, B.order,
      B.grants⟩
    · have hok := B.loops hl
      refine ⟨Nat.lt_succ_of_lt hok.old, hok.body, hok.generation, fun hp => ?_, hok.ran⟩
      exact absurd (hf.symm.trans (hok.inFlight hp)) nofun
    · obtain ⟨-, l, hl, hp⟩ := B.settles hm
      refine ⟨fun heq => ?_, l, hl, hp⟩
      exact absurd (Option.some.inj heq ▸ (B.loops hl).old) (Nat.lt_irrefl _)
  have hI := B'.iterate rfl (Nat.lt_succ_self _) (fun l hl => ?_) hu hj none
  · simp only [syncNow, hf]
    rw [iterate_eq, serialize_eq] at hI ⊢
    exact hI
  · exact absurd (B.loops hl).old (Nat.lt_irrefl _)

theorem setCall (H : s.Inv phase) (call nextCall : Nat) (value : Call)
    (h : ∀ join op, value = .joined join → join.grant = some op →
      .granted op ∈ s.log ∧ ∃ l, s.loops join.loop = some l ∧ op < l.op) :
    { s.setCall call value with nextCall }.Inv phase :=
  ⟨H.base.setCall call nextCall value h, H.flight.congr rfl (fun _ _ => rfl) id rfl rfl rfl id⟩

/-- An approval resumes: it starts a loop or joins one whose run comes after the grant. -/
theorem resumeApprove {call : Nat} (H : s.Inv phase)
    (h : s.jobs = .approved call op outcome :: jobs) :
    ∃ phase', ((s.dequeue jobs).resumeApprove call op outcome).Inv phase' := by
  have B := H.base.dequeue h rfl
  have hloop : (s.dequeue jobs).loopJobs = s.loopJobs := by
    rw [loopJobs, loopJobs, h]
    rfl
  have happroved : s.approvedJobs ≠ [] := by
    rw [approvedJobs, h]
    exact List.cons_ne_nil _ _
  have hflight : (s.dequeue jobs).Flight (phase.settled s.advanced) :=
    H.flight.congr rfl (fun _ _ => rfl) id rfl rfl hloop fun hn => absurd hn happroved
  have hI : (s.dequeue jobs).Inv phase := ⟨B, hflight⟩
  have hreject : ∀ message, ((s.dequeue jobs).setCall call (.rejected message)).Inv phase :=
    fun message => hI.setCall call _ _ fun _ _ h => Call.noConfusion h
  obtain ⟨-, -, hop, hgranted⟩ := H.base.approvals (h ▸ List.mem_cons_self ..)
  cases outcome with
  | error message => exact ⟨phase, hreject message⟩
  | ok =>
    unfold Workspace.resumeApprove
    dsimp only
    split
    next => exact ⟨phase, hreject _⟩
    next =>
      have hbefore := (List.pairwise_cons.mp (h ▸ H.base.order)).1
      cases H.flight with
      | landed hf hj hu =>
        have hnew := newLoop B hf (hloop.trans hj) hu
        obtain ⟨l, hl, hlen, -, hlog⟩ := syncNow_none (s := s.dequeue jobs) hf
        refine ⟨_, hnew.setCall call _ _ fun join op' hjoin hg => ?_⟩
        cases hjoin
        cases hg
        refine ⟨hlog ▸ hgranted rfl, l, hl, ?_⟩
        exact hlen ▸ Nat.lt_of_lt_of_le hop B.chain.settled_le
      | waiting hf hl hp hle hu hj hr =>
        have hjoin : (s.dequeue jobs).syncNow = (_, s.dequeue jobs) :=
          syncNow_some (s := s.dequeue jobs) hf
        rw [hjoin]
        refine ⟨phase, hI.setCall call _ _ fun join op' hjoin hg => ?_⟩
        cases hjoin
        cases hg
        exact ⟨hgranted rfl, _, hl, Nat.lt_of_lt_of_le hop hle⟩
      | resuming _ _ _ _ _ _ _ ha => exact absurd ha happroved
      | returned _ _ _ _ _ ha => exact absurd ha happroved
      | @clearing loop _ result _ _ _ _ hj =>
        have hm : .cleared loop result ∈ jobs := by
          rw [← hloop] at hj
          exact (List.mem_filter.mp (hj ▸ List.mem_singleton.mpr rfl)).1
        exact False.elim (hbefore _ hm)

theorem syncNow (H : s.Inv phase) : ∃ phase', s.syncNow.2.Inv phase' := by
  cases hf : s.inFlight with
  | some loop =>
    rw [syncNow_some hf]
    exact ⟨phase, H⟩
  | none =>
    cases H.flight with
    | landed _ hj hu => exact ⟨_, newLoop H.base hf hj hu⟩
    | waiting hf' => exact absurd (hf.symm.trans hf') nofun
    | resuming hf' => exact absurd (hf.symm.trans hf') nofun
    | returned hf' => exact absurd (hf.symm.trans hf') nofun
    | clearing hf' => exact absurd (hf.symm.trans hf') nofun

theorem newCall (H : s.Inv phase) (value : Call)
    (h : ∀ join, value = .joined join → join.grant = none) : (s.newCall value).Inv phase := by
  refine H.setCall s.nextCall _ value fun join op hjoin hg => ?_
  rw [h join hjoin] at hg
  cases hg

theorem callSync (H : s.Inv phase) (caller : Nat) (authorized : Bool) :
    ∃ phase', (s.callSync caller authorized).Inv phase' := by
  unfold Workspace.callSync
  split
  next => exact ⟨phase, H.newCall _ nofun⟩
  next =>
    obtain ⟨phase', H'⟩ := H.syncNow
    exact ⟨phase', H'.newCall _ fun join hj => by cases hj; rfl⟩

/-- A grant or a deletion joins the chain and asks a loop in flight for another iteration. -/
theorem serialize (H : s.Inv phase) (body : Body)
    (hbody : ∀ loop generation, body ≠ .runSync loop generation)
    (hreq : s.inFlight.isSome = true → s.syncRequested = true) :
    (s.serialize body).Inv phase.served := by
  refine ⟨H.base.serialize body, ?_⟩
  obtain ⟨hloop, happroved, hunsettled⟩ := s.serialize_fields body
  have hunsettled' : ∀ {op loop}, (s.serialize body).Unsettled (phase.settled s.advanced) op loop →
      s.Unsettled (phase.settled s.advanced) op loop := by
    intro op loop h
    rcases hunsettled _ _ _ h with h | ⟨_, _, h⟩
    · exact h
    · exact absurd h (hbody _ _)
  have hreq' : ∀ {loop}, s.inFlight = some loop → s.syncRequested = true :=
    fun hf => hreq (by rw [hf]; rfl)
  have hadvanced : phase.served.settled (s.serialize body).advanced =
      phase.settled s.advanced := by
    rw [serialize_eq, ChainPhase.served_settled]
  rw [hadvanced]
  rw [serialize_eq] at hloop happroved hunsettled' ⊢
  cases H.flight with
  | landed hf hj hu =>
    exact .landed hf (hloop.trans hj) fun op loop h => hu op loop (hunsettled' h)
  | waiting hf hl hp hle hu hj hr =>
    exact .waiting hf hl hp hle (fun op loop h => hu op loop (hunsettled' h)) (hloop.trans hj)
      (.inr (hreq' hf))
  | resuming hf hl hp hlt hu hj hok ha hr =>
    exact .resuming hf hl hp hlt (fun op loop h => hu op loop (hunsettled' h)) (hloop.trans hj) hok
      (happroved.trans ha) (.inr (hreq' hf))
  | returned hf hl hp hu hj ha =>
    exact .returned hf hl hp (fun op loop h => hu op loop (hunsettled' h)) (hloop.trans hj)
      (happroved.trans ha)
  | clearing hf hl hp hu hj =>
    exact .clearing hf hl hp (fun op loop h => hu op loop (hunsettled' h)) (hloop.trans hj)

/-- `if (workspace.inFlight) workspace.syncRequested = true`. -/
theorem request (H : s.Inv phase) :
    (if s.inFlight.isSome then { s with syncRequested := true } else s).Inv phase ∧
      ((if s.inFlight.isSome then { s with syncRequested := true } else s).inFlight.isSome = true →
        (if s.inFlight.isSome then { s with syncRequested := true } else s).syncRequested = true) := by
  split
  next =>
    refine ⟨⟨⟨H.base.chain.congr rfl rfl rfl rfl rfl, fun hl => (H.base.loops hl).congr rfl rfl rfl
      rfl rfl, H.base.settles, H.base.approvals, H.base.order, H.base.grants⟩, ?_⟩, fun _ => rfl⟩
    exact H.flight.congr rfl (fun _ _ => rfl) (fun _ => rfl) rfl rfl rfl id
  next h => exact ⟨H, fun h' => absurd h' h⟩

theorem approveItem (H : s.Inv phase) (key : Key) (adopt : Bool) :
    ∃ phase', (s.approveItem key adopt).Inv phase' := by
  unfold Workspace.approveItem
  dsimp only
  split
  next => exact ⟨phase, H.newCall _ nofun⟩
  next =>
    split
    next => exact ⟨phase, H.newCall _ nofun⟩
    next =>
      split
      next => exact ⟨phase, H.newCall _ nofun⟩
      next =>
        obtain ⟨H', hreq⟩ := H.request
        exact ⟨_, (H'.serialize (.approve _ _ _) nofun hreq).newCall (.approving _) nofun⟩

theorem deleteItem (H : s.Inv phase) (key : Key) : ∃ phase', (s.deleteItem key).Inv phase' := by
  unfold Workspace.deleteItem
  split
  next => exact ⟨phase, H⟩
  next =>
    split
    next => exact ⟨phase, H⟩
    next =>
      obtain ⟨H', hreq⟩ := H.request
      exact ⟨_, H'.serialize (.delete key) nofun hreq⟩

/-- A changed URL only raises the generation; a loop in flight is asked for another iteration. -/
theorem registerManifestUrl (H : s.Inv phase) (cfg : QueueConfig) (caller : Nat) (url : String)
    (persisted : Option Outcome) : (s.registerManifestUrl cfg caller url persisted).2.Inv phase := by
  unfold Workspace.registerManifestUrl
  split
  next => exact H
  next =>
    split
    next => exact H
    next =>
      split
      next => exact H
      next =>
        split
        next => exact H
        next => exact H
        next =>
          split
          next =>
            refine ⟨⟨H.base.chain.congr rfl rfl rfl rfl rfl, fun hl => ?_, H.base.settles,
              H.base.approvals, H.base.order, H.base.grants⟩, ?_⟩
            · exact (H.base.loops hl).mono (Nat.le_refl _) (List.prefix_refl _) (Nat.le_succ _) rfl
                (Nat.le_refl _) (List.Subset.refl _)
            · refine H.flight.congr rfl (fun _ _ => rfl) (fun h => ?_) rfl rfl rfl id
              dsimp only
              split
              next => rfl
              next => exact h
          next => exact H

theorem handleAuthorizedSession (H : s.Inv phase) (cfg : QueueConfig) (caller : Nat)
    (url : Option String) (persisted : Outcome) :
    ∃ phase', (s.handleAuthorizedSession cfg caller url persisted).Inv phase' := by
  unfold Workspace.handleAuthorizedSession
  split
  next => exact ⟨phase, H⟩
  next url =>
    split
    next => exact ⟨phase, H⟩
    next =>
      have H' := H.registerManifestUrl cfg caller url (some persisted)
      split
      next message s' heq =>
        rw [heq] at H'
        exact ⟨phase, H'.base.setError _, H'.flight.congr rfl (fun _ _ => rfl) id rfl rfl rfl id⟩
      next s' heq =>
        rw [heq] at H'
        exact H'.callSync caller true

theorem tick (H : s.Inv phase) (cfg : QueueConfig) (disk : Outcome) :
    ∃ phase', (s.tick cfg disk).Inv phase' := by
  unfold Workspace.tick
  split
  next => exact ⟨phase, H⟩
  next job jobs h =>
    cases job with
    | operation op =>
      by_cases hbody : ∃ loop generation, s.bodies[op]? = some (.runSync loop generation)
      · obtain ⟨loop, generation, hbody⟩ := hbody
        exact ⟨_, H.runSync h cfg disk hbody⟩
      · exact ⟨_, H.syncBody h cfg disk fun loop generation h' => hbody ⟨loop, generation, h'⟩⟩
    | adopt op => exact H.adopt h
    | resolve op outcome => exact ⟨_, H.resolve h⟩
    | advance op => exact H.advance h
    | loop loop op outcome => exact H.resumeLoop h
    | approved call op outcome => exact H.resumeApprove h
    | caught loop result => exact ⟨_, H.catchLoop h⟩
    | cleared loop result => exact ⟨_, H.clearLoop h⟩
    | settle loop result => exact ⟨_, H.settleLoop h⟩

theorem step (H : s.Inv phase) (cfg : QueueConfig) (event : QueueEvent) :
    ∃ phase', (s.step cfg event).Inv phase' := by
  cases event with
  | tick disk => exact H.tick cfg disk
  | fetched op answer => exact H.answer (.fetched op answer) (H.base.chain.fetched op answer)
  | finished op outcome => exact H.answer (.finished op outcome) (H.base.chain.finished op outcome)
  | registerManifestUrl caller url persisted => exact ⟨_, H.registerManifestUrl cfg caller url _⟩
  | syncNow caller => exact H.callSync caller false
  | approveItem key adopt => exact H.approveItem key adopt
  | deleteItem key => exact H.deleteItem key
  | handleAuthorizedSession caller url persisted => exact H.handleAuthorizedSession cfg caller url _
  | shutdown =>
    exact ⟨phase, ⟨H.base.chain.congr rfl rfl rfl rfl rfl, fun hl => (H.base.loops hl).congr rfl rfl
      rfl rfl rfl, H.base.settles, H.base.approvals, H.base.order, H.base.grants⟩,
      H.flight.congr rfl (fun _ _ => rfl) id rfl rfl rfl id⟩

theorem fresh : Workspace.fresh.Inv .idle := by
  refine ⟨⟨⟨.idle rfl rfl rfl, ?_⟩, nofun, nofun, nofun, .nil, nofun⟩, .landed rfl rfl ?_⟩
  · exact ⟨nofun, nofun, nofun, nofun, .nil, nofun⟩
  · rintro op loop ⟨-, generation, h⟩
    simp [Workspace.fresh] at h

end Inv

end Workspace

end CliProxy.Provision
