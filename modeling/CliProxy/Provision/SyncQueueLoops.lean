import CliProxy.Provision.SyncQueueChain

/-! # The loop that holds `inFlight`

`Flight` says where the loop in flight stands: waiting for its last iteration, resuming,
returned or about to clear `inFlight`. A grant that is saved while a loop is in flight is
followed by a run of that loop (`Base.grants`); for a registered URL the same needs that the
loop has not returned yet (`Promised`, in the next module). -/

namespace CliProxy.Provision

open Function (update)

/-- The jobs of a loop that ends. -/
def Job.isLoop : Job → Bool
  | .loop .. | .caught .. | .cleared .. => true
  | _ => false

def Job.isApproved : Job → Bool
  | .approved .. => true
  | _ => false

/-- What the queue's order rules out: nothing that ends an iteration comes after the next body,
and nothing that clears `inFlight` after an approval resumes. -/
def Job.Before : Job → Job → Prop
  | .operation _, .loop .. | .operation _, .approved .. | .operation _, .caught .. => False
  | .approved .., .cleared .. => False
  | _, _ => True

theorem Job.before_chain {job job' : Job} (h : job'.isChain = true) : job.Before job' := by
  cases job <;> cases job' <;> simp_all [Before, isChain]

theorem Job.pairwise_chain {jobs : List Job} (h : ∀ job ∈ jobs, job.isChain = true) :
    jobs.Pairwise Job.Before := by
  induction jobs with
  | nil => exact .nil
  | cons job jobs ih =>
    refine .cons (fun job' h' => before_chain (h job' (.tail _ h'))) (ih fun job' h' => ?_)
    exact h job' (.tail _ h')

theorem Job.filter_chain {jobs : List Job} (h : ∀ job ∈ jobs, job.isChain = true) :
    jobs.filter Job.isLoop = [] ∧ jobs.filter Job.isApproved = [] := by
  simp only [List.filter_eq_nil_iff]
  constructor <;> intro job hj <;> have := h job hj <;> cases job <;>
    simp_all [isChain, isLoop, isApproved]

namespace Workspace

def loopJobs (s : Workspace) : List Job := s.jobs.filter Job.isLoop

def approvedJobs (s : Workspace) : List Job := s.jobs.filter Job.isApproved

/-- Bodies of `runSync` whose promises have not settled. -/
def Unsettled (s : Workspace) (settled op loop : Nat) : Prop :=
  settled ≤ op ∧ ∃ generation, s.bodies[op]? = some (.runSync loop generation)

/-- Where the loop in flight stands. -/
inductive Flight (s : Workspace) (settled : Nat) : Prop
  | landed : s.inFlight = none → s.loopJobs = [] → (∀ op loop, ¬ s.Unsettled settled op loop) →
    Flight s settled
  | waiting : s.inFlight = some loop → s.loops loop = some l → l.phase = .awaiting →
    settled ≤ l.op → (∀ op loop', s.Unsettled settled op loop' → op = l.op ∧ loop' = loop) →
    s.loopJobs = [] → (l.op + 1 = s.bodies.length ∨ s.syncRequested = true) → Flight s settled
  | resuming : s.inFlight = some loop → s.loops loop = some l → l.phase = .awaiting →
    l.op < settled → (∀ op loop', ¬ s.Unsettled settled op loop') →
    s.loopJobs = [.loop loop l.op outcome] → (outcome = .ok () → .loaded l.op ∈ s.log) →
    s.approvedJobs = [] → (l.op + 1 = s.bodies.length ∨ s.syncRequested = true) →
    Flight s settled
  | returned : s.inFlight = some loop → s.loops loop = some l → l.phase = .returned result →
    (∀ op loop', ¬ s.Unsettled settled op loop') → s.loopJobs = [.caught loop result] →
    s.approvedJobs = [] → Flight s settled
  | clearing : s.inFlight = some loop → s.loops loop = some l → l.phase = .returned result →
    (∀ op loop', ¬ s.Unsettled settled op loop') → s.loopJobs = [.cleared loop result] →
    Flight s settled

/-- What a loop knows about its last iteration. -/
structure LoopOk (s : Workspace) (settled loop : Nat) (l : Loop) : Prop where
  old : loop < s.nextLoop
  body : s.bodies[l.op]? = some (.runSync loop l.startedGeneration)
  generation : l.startedGeneration ≤ s.manifestGeneration
  inFlight : l.phase = .awaiting → s.inFlight = some loop
  ran : ∀ result, l.phase = .returned result ∨ l.phase = .settled result →
    l.op < settled ∧ ∀ run, result = .ok run → run = some l.op ∧ .loaded l.op ∈ s.log

/-- Everything but the loop in flight. -/
structure Base (s : Workspace) (phase : ChainPhase) : Prop where
  chain : s.Chain phase
  loops : ∀ {loop l}, s.loops loop = some l → s.LoopOk (phase.settled s.advanced) loop l
  settles : ∀ {loop result}, .settle loop result ∈ s.jobs → s.inFlight ≠ some loop ∧
    ∃ l, s.loops loop = some l ∧ (l.phase = .returned result ∨ l.phase = .settled result)
  approvals : ∀ {call op outcome}, .approved call op outcome ∈ s.jobs →
    phase ≠ .running ∧ phase ≠ .resolving ∧ op < phase.settled s.advanced ∧
      (outcome = .ok () → .granted op ∈ s.log)
  order : s.jobs.Pairwise Job.Before
  grants : ∀ {call join op}, s.calls call = some (.joined join) → join.grant = some op →
    .granted op ∈ s.log ∧ ∃ l, s.loops join.loop = some l ∧ op < l.op

structure Inv (s : Workspace) (phase : ChainPhase) : Prop where
  base : s.Base phase
  flight : s.Flight (phase.settled s.advanced)

variable {s s' : Workspace} {phase phase' : ChainPhase} {jobs : List Job} {settled settled' : Nat}

theorem LoopOk.mono {loop : Nat} {l : Loop} (H : s.LoopOk settled loop l)
    (hnext : s.nextLoop ≤ s'.nextLoop) (hbodies : s.bodies <+: s'.bodies)
    (hgeneration : s.manifestGeneration ≤ s'.manifestGeneration)
    (hflight : s'.inFlight = s.inFlight) (hsettled : settled ≤ settled') (hlog : s.log ⊆ s'.log) :
    s'.LoopOk settled' loop l where
  old := Nat.lt_of_lt_of_le H.old hnext
  body := getElem?_of_prefix hbodies H.body
  generation := Nat.le_trans H.generation hgeneration
  inFlight h := hflight ▸ H.inFlight h
  ran result h := by
    obtain ⟨hop, hok⟩ := H.ran result h
    exact ⟨Nat.lt_of_lt_of_le hop hsettled, fun run hr => (hok run hr).imp_right (hlog ·)⟩

theorem LoopOk.congr {loop : Nat} {l : Loop} (H : s.LoopOk settled loop l)
    (hnext : s'.nextLoop = s.nextLoop) (hbodies : s'.bodies = s.bodies)
    (hgeneration : s'.manifestGeneration = s.manifestGeneration)
    (hflight : s'.inFlight = s.inFlight) (hlog : s'.log = s.log) : s'.LoopOk settled loop l :=
  H.mono (Nat.le_of_eq hnext.symm) (hbodies ▸ List.prefix_refl _) (Nat.le_of_eq hgeneration.symm)
    hflight (Nat.le_refl _) (hlog ▸ List.Subset.refl _)

/-- The job a new body adds: none, when it has to wait. -/
def dueJobs (s : Workspace) : List Job :=
  if s.advanced = s.bodies.length then [.operation s.bodies.length] else []

theorem serialize_eq (s : Workspace) (body : Body) : s.serialize body =
    { s with
      bodies := s.bodies ++ [body]
      pendingOperations := s.pendingOperations + 1
      jobs := s.jobs ++ s.dueJobs } := by
  unfold serialize dueJobs
  dsimp only
  split <;> simp [Workspace.enqueue]

theorem mem_dueJobs {job : Job} (h : job ∈ s.dueJobs) : ∃ op, job = .operation op := by
  unfold dueJobs at h
  split at h
  · exact ⟨_, List.mem_singleton.mp h⟩
  · cases h

namespace Base

/-- A job that is not of the chain leaves the queue. -/
theorem dequeue (H : s.Base phase) {job : Job} (h : s.jobs = job :: jobs)
    (hj : job.isChain = false) : (s.dequeue jobs).Base phase where
  chain := H.chain.congr rfl rfl rfl rfl (by simp [chainJobs, Workspace.dequeue, h, hj])
  loops hl := (H.loops hl).congr rfl rfl rfl rfl rfl
  settles hm := H.settles (h ▸ List.mem_cons_of_mem _ hm)
  approvals hm := H.approvals (h ▸ List.mem_cons_of_mem _ hm)
  order := (List.pairwise_cons.mp (h ▸ H.order)).2
  grants hc hg := H.grants hc hg

/-- A job of a loop joins the queue. -/
theorem enqueue (H : s.Base phase) {job : Job} (hchain : job.isChain = false)
    (hbefore : ∀ job' ∈ s.jobs, job'.Before job) (happroved : job.isApproved = false)
    (hsettle : ∀ loop result, job = .settle loop result → s.inFlight ≠ some loop ∧
      ∃ l, s.loops loop = some l ∧ (l.phase = .returned result ∨ l.phase = .settled result)) :
    (s.enqueue [job]).Base phase where
  chain := H.chain.congr rfl rfl rfl rfl (by simp [hchain])
  loops hl := (H.loops hl).congr rfl rfl rfl rfl rfl
  settles hm := by
    rcases List.mem_append.mp hm with hm | hm
    · exact H.settles hm
    · exact hsettle _ _ (List.mem_singleton.mp hm).symm
  approvals hm := by
    rcases List.mem_append.mp hm with hm | hm
    · exact H.approvals hm
    · rw [← List.mem_singleton.mp hm] at happroved
      cases happroved
  order := List.pairwise_append.mpr ⟨H.order, List.pairwise_singleton .., fun a ha b hb =>
    List.mem_singleton.mp hb ▸ hbefore a ha⟩
  grants hc hg := H.grants hc hg

/-- A loop starts an iteration or changes its phase. -/
theorem setLoop (H : s.Base phase) {loop : Nat} {l : Loop} (syncRequested : Bool)
    (hok : s.LoopOk (phase.settled s.advanced) loop l)
    (hop : ∀ l', s.loops loop = some l' → l'.op ≤ l.op)
    (hsettle : ∀ result, .settle loop result ∈ s.jobs →
      l.phase = .returned result ∨ l.phase = .settled result) :
    { s with loops := update s.loops loop (some l), syncRequested }.Base phase where
  chain := H.chain.congr rfl rfl rfl rfl rfl
  loops {loop' l'} h := by
    have h' : update s.loops loop (some l) loop' = some l' := h
    rw [Function.update_apply] at h'
    split at h'
    next heq =>
      subst heq
      cases h'
      exact hok.congr rfl rfl rfl rfl rfl
    next => exact (H.loops h').congr rfl rfl rfl rfl rfl
  settles {loop' result} hm := by
    obtain ⟨hf, l', hl, hp⟩ := H.settles hm
    refine ⟨hf, ?_⟩
    by_cases heq : loop' = loop
    · subst heq
      exact ⟨l, Function.update_self .., hsettle _ hm⟩
    · exact ⟨l', (Function.update_of_ne heq ..).trans hl, hp⟩
  approvals hm := H.approvals hm
  order := H.order
  grants {call join op} hc hg := by
    obtain ⟨hlog, l', hl, hlt⟩ := H.grants hc hg
    refine ⟨hlog, ?_⟩
    by_cases heq : join.loop = loop
    · exact ⟨l, heq ▸ Function.update_self .., Nat.lt_of_lt_of_le hlt (hop l' (heq ▸ hl))⟩
    · exact ⟨l', (Function.update_of_ne heq ..).trans hl, hlt⟩

/-- A body joins `operationTail`. -/
theorem serialize (H : s.Base phase) (body : Body) : (s.serialize body).Base phase.served := by
  have hchain := H.chain.serialize body
  rw [serialize_eq] at hchain ⊢
  have hmem : ∀ {job}, job ∈ s.jobs ++ s.dueJobs → (∀ op, job ≠ .operation op) → job ∈ s.jobs := by
    intro job hm hne
    rcases List.mem_append.mp hm with hm | hm
    · exact hm
    · obtain ⟨op, rfl⟩ := mem_dueJobs hm
      exact absurd rfl (hne op)
  refine ⟨hchain, fun {loop l} hl => ?_, fun hm => H.settles (hmem hm nofun), fun hm => ?_, ?_,
    H.grants⟩
  · rw [ChainPhase.served_settled]
    exact (H.loops hl).mono (Nat.le_refl _) (List.prefix_append ..) (Nat.le_refl _) rfl
      (Nat.le_refl _) (List.Subset.refl _)
  · rw [ChainPhase.served_settled]
    obtain ⟨h1, h2, h3⟩ := H.approvals (hmem hm nofun)
    exact ⟨by simpa using h1, by cases phase <;> simp_all [ChainPhase.served], h3⟩
  · refine List.pairwise_append.mpr ⟨H.order, ?_, fun a _ b hb => ?_⟩
    · unfold dueJobs
      split
      · exact List.pairwise_singleton ..
      · exact .nil
    · obtain ⟨op, rfl⟩ := mem_dueJobs hb
      exact Job.before_chain rfl

theorem setError (H : s.Base phase) (lastError : Option String) :
    { s with lastError }.Base phase where
  chain := H.chain.congr rfl rfl rfl rfl rfl
  loops hl := (H.loops hl).congr rfl rfl rfl rfl rfl
  settles hm := H.settles hm
  approvals hm := H.approvals hm
  order := H.order
  grants hc hg := H.grants hc hg

theorem setCall (H : s.Base phase) (call nextCall : Nat) (value : Call)
    (h : ∀ join op, value = .joined join → join.grant = some op →
      .granted op ∈ s.log ∧ ∃ l, s.loops join.loop = some l ∧ op < l.op) :
    { s.setCall call value with nextCall }.Base phase where
  chain := H.chain.congr rfl rfl rfl rfl rfl
  loops hl := (H.loops hl).congr rfl rfl rfl rfl rfl
  settles hm := H.settles hm
  approvals hm := H.approvals hm
  order := H.order
  grants {call' join op} hc hg := by
    have hc' : update s.calls call (some value) call' = some (.joined join) := hc
    rw [Function.update_apply] at hc'
    split at hc'
    next => exact h join op (Option.some.inj hc') hg
    next => exact H.grants hc' hg

end Base

/-- A step of the chain: the loops and the callers do not see it. -/
structure Moves (s s' : Workspace) : Prop where
  loops : s'.loops = s.loops
  nextLoop : s'.nextLoop = s.nextLoop
  calls : s'.calls = s.calls
  inFlight : s'.inFlight = s.inFlight
  syncRequested : s'.syncRequested = s.syncRequested
  generation : s'.manifestGeneration = s.manifestGeneration
  registered : s'.registered = s.registered
  bodies : s'.bodies = s.bodies
  advanced : s'.advanced = s.advanced
  log : s.log ⊆ s'.log
  jobs : ∃ due, s'.jobs = s.jobs ++ due ∧ ∀ job ∈ due, job.isChain = true

namespace Moves

theorem refl (s : Workspace) : s.Moves s :=
  ⟨rfl, rfl, rfl, rfl, rfl, rfl, rfl, rfl, rfl, List.Subset.refl _, [], by simp, by simp⟩

theorem record (H : s.Moves s') (entry : Entry) : s.Moves (s'.record entry) :=
  { H with log := fun _ he => List.mem_append_left _ (H.log he) }

theorem setRun (H : s.Moves s') (op : Nat) (run : Run) : s.Moves (s'.setRun op run) := { H with }

theorem enqueue (H : s.Moves s') {job : Job} (h : job.isChain = true) :
    s.Moves (s'.enqueue [job]) := by
  obtain ⟨due, hjobs, hdue⟩ := H.jobs
  refine { H with jobs := ⟨due ++ [job], ?_, fun job' h' => ?_⟩ }
  · rw [Workspace.enqueue, hjobs, List.append_assoc]
  · rcases List.mem_append.mp h' with h' | h'
    · exact hdue job' h'
    · exact List.mem_singleton.mp h' ▸ h

theorem settleRun (H : s.Moves s') (op : Nat) (run : Run) (outcome : Outcome) :
    s.Moves (s'.settleRun op run outcome) := by
  unfold Workspace.settleRun
  dsimp only
  split
  · exact ((H.setRun ..).record _).enqueue rfl
  · exact (H.setRun ..).record _

theorem startRun (H : s.Moves s') (cfg : QueueConfig) (op : Nat) :
    s.Moves (s'.startRun cfg op) := by
  unfold Workspace.startRun
  dsimp only
  split
  · exact (H.settleRun ..).enqueue rfl
  · split
    · exact (H.settleRun ..).enqueue rfl
    · exact (H.setRun ..).enqueue rfl

theorem adopt (H : s.Moves s') (op : Nat) : s.Moves (s'.adopt op) := by
  unfold Workspace.adopt
  split
  · dsimp only
    split
    · exact (H.setRun ..).enqueue rfl
    · exact H.setRun ..
  · exact H

theorem fetched (op : Nat) (answer : Except String (List Key)) : s.Moves (s.fetched op answer) := by
  have H := refl s
  unfold Workspace.fetched
  split
  next run _ generation _ _ =>
    split
    next => exact H
    next =>
      split
      next => exact H.settleRun ..
      next manifest =>
        split
        next => exact H.settleRun ..
        next =>
          have H' : s.Moves { s with
              lastManifest := some manifest, lastManifestGeneration := some generation } :=
            { H with }
          exact (H'.setRun ..).record _
  next => exact H

theorem finished (op : Nat) (outcome : Outcome) : s.Moves (s.finished op outcome) := by
  have H := refl s
  unfold Workspace.finished
  split
  next =>
    split
    next => exact H.settleRun ..
    next => exact H
  next => exact H

end Moves

namespace Inv

variable (popped : List Job) {advanced pendingOperations : Nat}

/-- Steps of the chain that settle no promise of `serialize`. -/
theorem move (H : s.Inv phase) (hjobs : s.jobs = popped ++ jobs)
    (hpopped : ∀ job ∈ popped, job.isChain = true)
    (M : { s with jobs, advanced, pendingOperations }.Moves s') (hc : s'.Chain phase')
    (hadvanced : phase'.settled advanced = phase.settled s.advanced)
    (happroved : (∀ job ∈ jobs, job.isApproved = false) ∨
      phase' ≠ .running ∧ phase' ≠ .resolving) : s'.Inv phase' := by
  obtain ⟨due, hdue, hchain⟩ := M.jobs
  have hsettled : phase'.settled s'.advanced = phase.settled s.advanced :=
    M.advanced ▸ hadvanced
  have hmem : ∀ {job}, job ∈ s'.jobs → job.isChain = false → job ∈ jobs := by
    intro job hm hj
    rw [hdue] at hm
    rcases List.mem_append.mp hm with hm | hm
    · exact hm
    · rw [hchain job hm] at hj
      cases hj
  have hsub : ∀ {job}, job ∈ jobs → job ∈ s.jobs := fun hm => hjobs ▸ List.mem_append_right _ hm
  have hloop : s'.loopJobs = s.loopJobs := by
    rw [loopJobs, loopJobs, hdue, hjobs, List.filter_append, List.filter_append,
      (Job.filter_chain hchain).1, (Job.filter_chain hpopped).1, List.append_nil, List.nil_append]
  have happrovedJobs : s'.approvedJobs = s.approvedJobs := by
    rw [approvedJobs, approvedJobs, hdue, hjobs, List.filter_append, List.filter_append,
      (Job.filter_chain hchain).2, (Job.filter_chain hpopped).2, List.append_nil, List.nil_append]
  have hunsettled : ∀ op loop, s'.Unsettled (phase'.settled s'.advanced) op loop ↔
      s.Unsettled (phase.settled s.advanced) op loop := by
    intro op loop
    rw [Unsettled, Unsettled, hsettled, M.bodies]
  refine ⟨⟨hc, fun hl => ?_, fun hm => ?_, fun hm => ?_, ?_, ?_⟩, ?_⟩
  · rw [hsettled]
    refine (H.base.loops (M.loops ▸ hl)).mono (Nat.le_of_eq M.nextLoop.symm) ?_
      (Nat.le_of_eq M.generation.symm) M.inFlight (Nat.le_refl _) M.log
    exact M.bodies ▸ List.prefix_refl _
  · rw [M.inFlight, M.loops]
    exact H.base.settles (hsub (hmem hm rfl))
  · obtain ⟨-, -, hop, hok⟩ := H.base.approvals (hsub (hmem hm rfl))
    refine ⟨?_, ?_, hsettled ▸ hop, fun h => M.log (hok h)⟩ <;>
      rcases happroved with h | h
    · exact absurd (h _ (hmem hm rfl)) nofun
    · exact h.1
    · exact absurd (h _ (hmem hm rfl)) nofun
    · exact h.2
  · rw [hdue]
    refine List.pairwise_append.mpr ⟨?_, Job.pairwise_chain hchain, fun a _ b hb =>
      Job.before_chain (hchain b hb)⟩
    exact (List.pairwise_append.mp (hjobs ▸ H.base.order)).2.1
  · rw [M.calls, M.loops]
    intro call join op hcall hg
    exact (H.base.grants hcall hg).imp_left (M.log ·)
  · have hbodies : s'.bodies = s.bodies := M.bodies
    have hflight : s'.inFlight = s.inFlight := M.inFlight
    have hloops : s'.loops = s.loops := M.loops
    have hreq : s'.syncRequested = s.syncRequested := M.syncRequested
    cases H.flight with
    | landed hf hj hu =>
      exact .landed (hflight ▸ hf) (hloop ▸ hj) fun op loop h => hu op loop ((hunsettled ..).mp h)
    | waiting hf hl hp hle hu hj hr =>
      exact .waiting (hflight ▸ hf) (hloops ▸ hl) hp (hsettled ▸ hle)
        (fun op loop h => hu op loop ((hunsettled ..).mp h)) (hloop ▸ hj) (by rw [hbodies, hreq]; exact hr)
    | resuming hf hl hp hlt hu hj hok ha hr =>
      exact .resuming (hflight ▸ hf) (hloops ▸ hl) hp (hsettled ▸ hlt)
        (fun op loop h => hu op loop ((hunsettled ..).mp h)) (hloop ▸ hj) (fun h => M.log (hok h))
        (happrovedJobs ▸ ha) (by rw [hbodies, hreq]; exact hr)
    | returned hf hl hp hu hj ha =>
      exact .returned (hflight ▸ hf) (hloops ▸ hl) hp
        (fun op loop h => hu op loop ((hunsettled ..).mp h)) (hloop ▸ hj) (happrovedJobs ▸ ha)
    | clearing hf hl hp hu hj =>
      exact .clearing (hflight ▸ hf) (hloops ▸ hl) hp
        (fun op loop h => hu op loop ((hunsettled ..).mp h)) (hloop ▸ hj)

/-- Nothing that ends an iteration or resumes an approval waits behind the next body. -/
theorem operation_head {op : Nat} (H : s.Inv phase) (h : s.jobs = .operation op :: jobs) :
    (∀ job ∈ jobs, job.isApproved = false) ∧ ∀ job ∈ jobs, ∀ loop op outcome result,
      job ≠ .loop loop op outcome ∧ job ≠ .caught loop result := by
  have hbefore := (List.pairwise_cons.mp (h ▸ H.base.order)).1
  constructor
  · intro job hj
    have := hbefore job hj
    cases job <;> simp_all [Job.Before, Job.isApproved]
  · intro job hj loop op' outcome result
    have := hbefore job hj
    constructor <;> rintro rfl <;> simp [Job.Before] at this

theorem runSync (H : s.Inv phase) {op loop generation : Nat} (h : s.jobs = .operation op :: jobs)
    (cfg : QueueConfig) (disk : Outcome) (hbody : s.bodies[op]? = some (.runSync loop generation)) :
    ((s.dequeue jobs).runOperation cfg op disk).Inv .running := by
  obtain ⟨rfl, rfl, hlt, hc, hm⟩ := H.base.chain.operation_head h
  have hl : (s.dequeue jobs).Ledger False :=
    (H.base.chain.ledger.imp nofun).congr rfl (List.prefix_refl _) rfl rfl
  have hmoves : (s.dequeue jobs).Moves ((s.dequeue jobs).runOperation cfg s.advanced disk) := by
    unfold runOperation
    dsimp only
    rw [show ((s.dequeue jobs).record (.started s.advanced)).bodies[s.advanced]? = _ from hbody]
    exact ((Moves.refl _).record _).startRun ..
  refine H.move [_] h (by simp [Job.isChain]) hmoves
    (Chain.runOperation_runSync (s := s.dequeue jobs) hlt hc hm hl cfg disk hbody) rfl
    (.inl (H.operation_head h).1)

theorem adopt (H : s.Inv phase) {op : Nat} (h : s.jobs = .adopt op :: jobs) :
    ∃ phase', ((s.dequeue jobs).adopt op).Inv phase' := by
  obtain ⟨phase', hc, hp⟩ := H.base.chain.adopt h
  obtain ⟨rfl, rfl, -⟩ := H.base.chain.adopt_head h
  refine ⟨phase', H.move [_] h (by simp [Job.isChain])
    ((Moves.refl (s.dequeue jobs)).adopt _) hc ?_ (.inl fun job hj => ?_)⟩
  · rcases hp with rfl | rfl <;> rfl
  · cases job with
    | approved => exact absurd rfl (H.base.approvals (h ▸ List.mem_cons_of_mem _ hj)).1
    | _ => rfl

theorem advance (H : s.Inv phase) {op : Nat} (h : s.jobs = .advance op :: jobs) :
    ∃ phase', (s.dequeue jobs).advance.Inv phase' := by
  obtain ⟨phase', hc, hp⟩ := H.base.chain.advance h
  obtain ⟨rfl, rfl, -⟩ := H.base.chain.advance_head h
  have M : { s with
      jobs
      advanced := s.advanced + 1
      pendingOperations := s.pendingOperations - 1 }.Moves (s.dequeue jobs).advance := by
    unfold Workspace.advance
    dsimp only
    split
    · exact (Moves.refl _).enqueue rfl
    · exact .refl _
  refine ⟨phase', H.move [_] h (by simp [Job.isChain]) M hc ?_ (.inr ?_)⟩ <;>
    rcases hp with rfl | rfl <;> simp [ChainPhase.settled]

/-- The outside world answers a running `runSync`. -/
theorem answer (H : s.Inv phase) (M : s.Moves s') (h : ∃ phase', s'.Chain phase' ∧
    (phase' = phase ∨ phase = .running ∧ phase' = .resolving)) : ∃ phase', s'.Inv phase' := by
  obtain ⟨phase', hc, hp⟩ := h
  refine ⟨phase', H.move [] rfl (by simp) M hc ?_ ?_⟩
  · rcases hp with rfl | ⟨rfl, rfl⟩ <;> rfl
  · by_cases happroved : ∃ call op outcome, .approved call op outcome ∈ s.jobs
    · obtain ⟨_, _, _, hmem⟩ := happroved
      obtain ⟨h1, h2, -⟩ := H.base.approvals hmem
      rcases hp with rfl | ⟨rfl, rfl⟩
      · exact .inr ⟨h1, h2⟩
      · exact absurd rfl h1
    · refine .inl fun job hj => ?_
      cases job with
      | approved => exact absurd ⟨_, _, _, hj⟩ happroved
      | _ => rfl

/-- A body settles: `operationTail` reacts first, then the `due` continuation. -/
theorem settle_base (H : s.Inv phase) (hjobs : s.jobs = popped ++ jobs)
    (hchain : (s.dequeue jobs).chainJobs = []) (hsettled : phase.settled s.advanced = s.advanced)
    {s₂ : Workspace} (M : (s.dequeue jobs).Moves s₂) (hsame : s₂.jobs = jobs) {due : List Job}
    (hc : (s₂.enqueue (.advance s.advanced :: due)).Chain .advancing)
    (hdue : due.Pairwise Job.Before) (hloop : ∀ loop result, .cleared loop result ∉ due)
    (hsettle : ∀ loop result, .settle loop result ∉ due)
    (happroved : ∀ call op outcome, .approved call op outcome ∈ due →
      op = s.advanced ∧ (outcome = .ok () → .granted op ∈ s₂.log)) :
    (s₂.enqueue (.advance s.advanced :: due)).Base .advancing := by
  have hsub : ∀ {job}, job ∈ jobs → job ∈ s.jobs := fun hm => hjobs ▸ List.mem_append_right _ hm
  have hmem : ∀ {job}, job ∈ s₂.jobs ++ .advance s.advanced :: due → job ≠ .advance s.advanced →
      job ∈ s.jobs ∨ job ∈ due := by
    intro job hm hne
    rcases List.mem_append.mp hm with hm | hm
    · exact .inl (hsub (hsame ▸ hm))
    · exact .inr ((List.mem_cons.mp hm).resolve_left hne)
  refine ⟨hc, fun hl => ?_, fun hm => ?_, fun hm => ⟨nofun, nofun, ?_⟩, ?_, fun hcall hg => ?_⟩
  · refine (H.base.loops (M.loops ▸ hl)).mono (Nat.le_of_eq M.nextLoop.symm) ?_
      (Nat.le_of_eq M.generation.symm) M.inFlight ?_ M.log
    · exact M.bodies ▸ List.prefix_refl _
    · rw [hsettled, ← show s₂.advanced = s.advanced from M.advanced]
      exact Nat.le_succ _
  · rcases hmem hm nofun with hm | hm
    · have hold := H.base.settles hm
      rw [← show s₂.inFlight = s.inFlight from M.inFlight,
        ← show s₂.loops = s.loops from M.loops] at hold
      exact hold
    · exact absurd hm (hsettle _ _)
  · rcases hmem hm nofun with hm | hm
    · obtain ⟨-, -, hop, hok⟩ := H.base.approvals hm
      rw [hsettled, ← show s₂.advanced = s.advanced from M.advanced] at hop
      exact ⟨Nat.lt_succ_of_lt hop, fun h => M.log (hok h)⟩
    · obtain ⟨rfl, hok⟩ := happroved _ _ _ hm
      exact ⟨Nat.lt_succ_of_le (Nat.le_of_eq M.advanced.symm), hok⟩
  · have hold : jobs.Pairwise Job.Before := (List.pairwise_append.mp (hjobs ▸ H.base.order)).2.1
    refine List.pairwise_append.mpr ⟨hsame ▸ hold, ?_, fun a ha b hb => ?_⟩
    · exact .cons (fun b hb => by cases b <;> trivial) hdue
    · rcases List.mem_cons.mp hb with rfl | hb
      · exact Job.before_chain rfl
      · cases a with
        | operation op => exact absurd rfl (List.filter_eq_nil_iff.mp hchain _ (hsame ▸ ha))
        | approved =>
          cases b with
          | cleared loop result => exact absurd hb (hloop loop result)
          | _ => trivial
        | _ => trivial
  · have hold := H.base.grants (M.calls ▸ hcall) hg
    rw [← show s₂.loops = s.loops from M.loops] at hold
    exact hold.imp_left (M.log ·)

/-- The settled body was no run, so the loop in flight stands where it stood. -/
theorem settle_flight (H : s.Inv phase) (hjobs : s.jobs = popped ++ jobs)
    (hpopped : ∀ job ∈ popped, job.isChain = true)
    (hsettled : phase.settled s.advanced = s.advanced)
    (hbody : ∀ loop generation, s.bodies[s.advanced]? ≠ some (.runSync loop generation))
    (hnone : ∀ loop op outcome result, .loop loop op outcome ∉ jobs ∧ .caught loop result ∉ jobs)
    {s₂ : Workspace} (M : (s.dequeue jobs).Moves s₂) (hsame : s₂.jobs = jobs) {due : List Job}
    (hdue : due.filter Job.isLoop = []) :
    (s₂.enqueue (.advance s.advanced :: due)).Flight (s.advanced + 1) := by
  have hloop : (s₂.enqueue (.advance s.advanced :: due)).loopJobs = s.loopJobs := by
    rw [loopJobs, loopJobs, Workspace.enqueue, hsame, hjobs, List.filter_append,
      List.filter_append, (Job.filter_chain hpopped).1, List.nil_append]
    exact (congrArg _ hdue).trans (List.append_nil _)
  have hloopJobs : s.loopJobs = jobs.filter Job.isLoop := by
    rw [loopJobs, hjobs, List.filter_append, (Job.filter_chain hpopped).1, List.nil_append]
  have hunsettled : ∀ {op loop}, (s₂.enqueue (.advance s.advanced :: due)).Unsettled
      (s.advanced + 1) op loop → s.Unsettled s.advanced op loop := by
    intro op loop h
    exact ⟨Nat.le_of_succ_le h.1, (M.bodies ▸ h.2 : _)⟩
  have hflight := H.flight
  rw [hsettled] at hflight
  cases hflight with
  | landed hf hj hu =>
    exact .landed (M.inFlight.trans hf) (hloop ▸ hj) fun op loop h => hu op loop (hunsettled h)
  | @waiting loop l hf hl hp hle hu hj hr =>
    have hne : s.advanced ≠ l.op := by
      intro heq
      exact hbody _ _ (heq ▸ (H.base.loops hl).body)
    refine .waiting (M.inFlight.trans hf) (M.loops ▸ hl) hp ?_
      (fun op loop h => hu op loop (hunsettled h)) (hloop ▸ hj) ?_
    · exact Nat.lt_of_le_of_ne hle hne
    · exact M.bodies ▸ M.syncRequested ▸ hr
  | resuming _ _ _ _ _ hj =>
    have hmem := hloopJobs ▸ hj ▸ List.mem_singleton.mpr rfl
    exact absurd (List.mem_filter.mp hmem).1 (hnone _ _ _ (.ok none)).1
  | returned _ _ _ _ hj =>
    have hmem := hloopJobs ▸ hj ▸ List.mem_singleton.mpr rfl
    exact absurd (List.mem_filter.mp hmem).1 (hnone _ 0 (.ok ()) _).2
  | clearing hf hl hp hu hj =>
    exact .clearing (M.inFlight.trans hf) (M.loops ▸ hl) hp
      (fun op loop h => hu op loop (hunsettled h)) (hloop ▸ hj)

theorem syncBody (H : s.Inv phase) {op : Nat} (h : s.jobs = .operation op :: jobs)
    (cfg : QueueConfig) (disk : Outcome)
    (hbody : ∀ loop generation, s.bodies[op]? ≠ some (.runSync loop generation)) :
    ((s.dequeue jobs).runOperation cfg op disk).Inv .advancing := by
  obtain ⟨rfl, rfl, hlt, hc, hm⟩ := H.base.chain.operation_head h
  have hl : (s.dequeue jobs).Ledger False :=
    (H.base.chain.ledger.imp nofun).congr rfl (List.prefix_refl _) rfl rfl
  have hchain : ((s.dequeue jobs).runOperation cfg s.advanced disk).Chain .advancing :=
    Chain.runOperation_sync (s := s.dequeue jobs) hlt hc hm hl cfg disk hbody
  have hnone := (H.operation_head h).2
  have hpopped : ∀ job ∈ [Job.operation s.advanced], job.isChain = true := by simp [Job.isChain]
  -- Whatever the body did, it ends as a settled promise over a state the loops do not see.
  have hend : ∀ s₂ due, (s.dequeue jobs).runOperation cfg s.advanced disk =
      s₂.enqueue (.advance s.advanced :: due) → (s.dequeue jobs).Moves s₂ → s₂.jobs = jobs →
      (due = [] ∨ ∃ call outcome, due = [.approved call s.advanced outcome] ∧
        (outcome = .ok () → .granted s.advanced ∈ s₂.log)) →
      ((s.dequeue jobs).runOperation cfg s.advanced disk).Inv .advancing := by
    intro s₂ due heq M hsame hdue
    rw [heq] at hchain ⊢
    have hloop : due.filter Job.isLoop = [] := by
      rcases hdue with rfl | ⟨_, _, rfl, -⟩ <;> rfl
    refine ⟨H.settle_base [_] h hc rfl M hsame hchain ?_ ?_ ?_ ?_, ?_⟩
    · rcases hdue with rfl | ⟨_, _, rfl, -⟩ <;> simp
    · rcases hdue with rfl | ⟨_, _, rfl, -⟩ <;> simp
    · rcases hdue with rfl | ⟨_, _, rfl, -⟩ <;> simp
    · rintro call op outcome hmem
      rcases hdue with rfl | ⟨_, _, rfl, hok⟩
      · cases hmem
      · cases List.mem_singleton.mp hmem
        exact ⟨rfl, hok⟩
    · have hflight := H.settle_flight [_] h hpopped rfl hbody
        (fun loop op outcome result => ⟨fun hmem => (hnone _ hmem loop op outcome result).1 rfl,
          fun hmem => (hnone _ hmem loop op outcome result).2 rfl⟩) M hsame hloop
      have hadvanced : ChainPhase.settled (s₂.enqueue (.advance s.advanced :: due)).advanced
          .advancing = s.advanced + 1 := congrArg (· + 1) M.advanced
      exact hadvanced ▸ hflight
  have M : (s.dequeue jobs).Moves ((s.dequeue jobs).record (.started s.advanced)) :=
    (Moves.refl _).record _
  obtain ⟨body, hget⟩ : ∃ body, s.bodies[s.advanced]? = some body :=
    ⟨_, List.getElem?_eq_getElem hlt⟩
  cases body with
  | runSync loop generation => exact absurd hget (hbody _ _)
  | delete key => exact hend _ [] (runOperation_delete (s := s.dequeue jobs) hget ..) (M.record _) rfl (.inl rfl)
  | approve call key generation =>
    have hgrant := runOperation_approve (s := s.dequeue jobs) hget cfg disk
    rcases grant_op ((s.dequeue jobs).record (.started s.advanced)) s.advanced key generation
      disk with ⟨h', herr⟩ | h'
    · rw [h'] at hgrant
      refine hend _ _ hgrant (M.record _) rfl (.inr ⟨_, _, rfl, fun h => absurd h herr⟩)
    · rw [h'] at hgrant
      refine hend _ _ hgrant ((M.record _).record _) rfl (.inr ⟨_, _, rfl, fun _ => ?_⟩)
      exact List.mem_append_left _ (List.mem_append_right _ (.head _))

theorem resolve (H : s.Inv phase) {op : Nat} {outcome : Outcome}
    (h : s.jobs = .resolve op outcome :: jobs) :
    ((s.dequeue jobs).settleOperation op outcome).Inv .advancing := by
  have hchain := H.base.chain.resolve h
  obtain ⟨rfl, rfl, hlt, hc, hm, run, hr, ho⟩ := H.base.chain.resolve_head h
  obtain ⟨loop, generation, hbody⟩ := H.base.chain.ledger.runBody hr
  rw [settleOperation_runSync (s := s.dequeue jobs) hbody] at hchain ⊢
  have hnone : ∀ job ∈ jobs, job.isApproved = false := by
    intro job hj
    cases job with
    | approved => exact absurd rfl (H.base.approvals (h ▸ List.mem_cons_of_mem _ hj)).2.1
    | _ => rfl
  refine ⟨H.settle_base [_] h hc rfl (.refl _) rfl hchain ?_ ?_ ?_ ?_, ?_⟩
  all_goals try simp
  have hloopJobs : s.loopJobs = jobs.filter Job.isLoop := by
    rw [loopJobs, h]
    rfl
  have hunsettled : s.Unsettled s.advanced s.advanced loop := ⟨Nat.le_refl _, generation, hbody⟩
  cases H.flight with
  | @waiting _ l hf hl hp hle hu hj hreq =>
    obtain ⟨heq, rfl⟩ := hu _ _ hunsettled
    have hresume : ((s.dequeue jobs).enqueue [.advance s.advanced,
        .loop loop s.advanced outcome]).loopJobs = [.loop loop l.op outcome] := by
      rw [hloopJobs] at hj
      rw [loopJobs, Workspace.enqueue, List.filter_append, ← heq]
      exact congrArg (· ++ _) hj
    refine .resuming hf hl hp (heq ▸ Nat.lt_succ_self _) (fun op loop' h' => ?_) hresume ?_ ?_ hreq
    · have hlt' : s.advanced < op := h'.1
      have := (hu op loop' ⟨Nat.le_of_lt hlt', h'.2⟩).1
      omega
    · rintro rfl
      exact heq ▸ H.base.chain.ledger.runLoaded hr (H.base.chain.ledger.runOk hr ho)
    · rw [approvedJobs, Workspace.enqueue, List.filter_append]
      refine (congrArg (· ++ _) (List.filter_eq_nil_iff.mpr fun job hj' => ?_)).trans rfl
      simp [hnone job hj']
  | landed _ _ hu => exact absurd hunsettled (hu _ _)
  | resuming _ _ _ _ hu => exact absurd hunsettled (hu _ _)
  | returned _ _ _ hu => exact absurd hunsettled (hu _ _)
  | clearing _ _ _ hu => exact absurd hunsettled (hu _ _)

end Inv

end Workspace

end CliProxy.Provision
