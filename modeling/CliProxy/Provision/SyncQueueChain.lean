import CliProxy.Provision.SyncQueue

/-! # The bodies run one at a time

`Stage` says where the oldest body whose promise has not settled stands; every job keeps it
(`Chain`). A body that fails settles its promise like one that succeeds, so the next one is
always due (`Chain.next_starts`). -/

namespace CliProxy.Provision

open Function (update)

/-- The starts and ends among the log entries. -/
def Entry.isMark : Entry → Bool
  | .started _ | .ended _ => true
  | .granted _ | .loaded _ => false

/-- The starts and ends when the first `n` bodies ran one after the other. -/
def ranInOrder : Nat → List Entry
  | 0 => []
  | n + 1 => ranInOrder n ++ [.started n, .ended n]

@[simp] theorem started_mem_ranInOrder : .started op ∈ ranInOrder n ↔ op < n := by
  induction n with
  | zero => simp [ranInOrder]
  | succ n ih =>
    simp [ranInOrder, ih]
    omega

@[simp] theorem ended_mem_ranInOrder : .ended op ∈ ranInOrder n ↔ op < n := by
  induction n with
  | zero => simp [ranInOrder]
  | succ n ih =>
    simp [ranInOrder, ih]
    omega

/-- The jobs that move `operationTail` on. -/
def Job.isChain : Job → Bool
  | .operation _ | .adopt _ | .resolve .. | .advance _ => true
  | _ => false

inductive ChainPhase where
  | idle | queued | running | resolving | advancing
  deriving DecidableEq

/-- How many promises of `serialize` have settled. -/
def ChainPhase.settled (n : Nat) : ChainPhase → Nat
  | .advancing => n + 1
  | _ => n

/-- The phase after a new body joined. -/
def ChainPhase.served : ChainPhase → ChainPhase
  | .idle => .queued
  | phase => phase

@[simp] theorem ChainPhase.served_settled (n : Nat) (phase : ChainPhase) :
    phase.served.settled n = phase.settled n := by
  cases phase <;> rfl

@[simp] theorem ChainPhase.served_running {phase : ChainPhase} :
    phase.served = .running ↔ phase = .running := by
  cases phase <;> simp [served]

namespace Workspace

def chainJobs (s : Workspace) : List Job := s.jobs.filter Job.isChain

@[simp] theorem chainJobs_enqueue (s : Workspace) (jobs : List Job) :
    (s.enqueue jobs).chainJobs = s.chainJobs ++ jobs.filter Job.isChain :=
  List.filter_append ..

theorem chainJobs_enqueue_of_nil {s : Workspace} (h : s.chainJobs = []) (jobs : List Job) :
    (s.enqueue jobs).chainJobs = jobs.filter Job.isChain := by
  rw [chainJobs_enqueue, h, List.nil_append]

def marks (s : Workspace) : List Entry := s.log.filter Entry.isMark

@[simp] theorem marks_record (s : Workspace) (entry : Entry) :
    (s.record entry).marks = s.marks ++ if entry.isMark then [entry] else [] := by
  rw [marks, record, List.filter_append]
  cases h : entry.isMark <;> simp [marks, h]

@[simp] theorem marks_enqueue (s : Workspace) (jobs : List Job) :
    (s.enqueue jobs).marks = s.marks := rfl

@[simp] theorem marks_setRun (s : Workspace) (op : Nat) (run : Run) :
    (s.setRun op run).marks = s.marks := rfl

@[simp] theorem chainJobs_setRun (s : Workspace) (op : Nat) (run : Run) :
    (s.setRun op run).chainJobs = s.chainJobs := rfl

@[simp] theorem chainJobs_record (s : Workspace) (entry : Entry) :
    (s.record entry).chainJobs = s.chainJobs := rfl

section settle
variable {s : Workspace} {op call loop generation : Nat} {key : Key}

theorem settleOperation_runSync (h : s.bodies[op]? = some (.runSync loop generation))
    (outcome : Outcome) : s.settleOperation op outcome =
      s.enqueue [.advance op, .loop loop op outcome] := by
  simp only [settleOperation, h]

theorem settleOperation_approve (h : s.bodies[op]? = some (.approve call key generation))
    (outcome : Outcome) : s.settleOperation op outcome =
      s.enqueue [.advance op, .approved call op outcome] := by
  simp only [settleOperation, h]

theorem settleOperation_delete (h : s.bodies[op]? = some (.delete key)) (outcome : Outcome) :
    s.settleOperation op outcome = s.enqueue [.advance op] := by
  simp only [settleOperation, h]

theorem grant_op (s : Workspace) (op : Nat) (key : Key) (generation : Nat) (disk : Outcome) :
    ((s.grant op key generation disk).2 = s ∧ (s.grant op key generation disk).1 ≠ .ok ()) ∨
      (s.grant op key generation disk).2 = s.record (.granted op) := by
  unfold Workspace.grant
  split
  · cases disk with
    | ok => exact .inr rfl
    | error => exact .inl ⟨rfl, nofun⟩
  · exact .inl ⟨rfl, nofun⟩

theorem runOperation_delete {key : Key} (h : s.bodies[op]? = some (.delete key))
    (cfg : QueueConfig) (disk : Outcome) : s.runOperation cfg op disk =
      ((s.record (.started op)).record (.ended op)).enqueue [.advance op] := by
  have h' : (s.record (.started op)).bodies[op]? = some (.delete key) := h
  simp only [runOperation, h']
  exact settleOperation_delete (s := (s.record (.started op)).record (.ended op)) h _

theorem runOperation_approve {key : Key} {call generation : Nat}
    (h : s.bodies[op]? = some (.approve call key generation)) (cfg : QueueConfig)
    (disk : Outcome) : s.runOperation cfg op disk =
      (((s.record (.started op)).grant op key generation disk).2.record (.ended op)).enqueue
        [.advance op, .approved call op
          ((s.record (.started op)).grant op key generation disk).1] := by
  have h' : (s.record (.started op)).bodies[op]? = some (.approve call key generation) := h
  simp only [runOperation, h']
  have hbodies : ((s.record (.started op)).grant op key generation disk).2.bodies = s.bodies := by
    rcases grant_op (s.record (.started op)) op key generation disk with ⟨hs, -⟩ | hs <;> rw [hs] <;>
      rfl
  have hget : (((s.record (.started op)).grant op key generation disk).2.record
      (.ended op)).bodies[op]? = some (.approve call key generation) :=
    (congrArg (·[op]?) hbodies).trans h
  exact settleOperation_approve hget _

end settle

/-- Where the body `s.advanced` stands: its jobs, its promise and the log agree. -/
inductive Stage (s : Workspace) : ChainPhase → Prop
  | idle : s.advanced = s.bodies.length → s.chainJobs = [] → s.marks = ranInOrder s.advanced →
    Stage s .idle
  | queued : s.advanced < s.bodies.length → s.chainJobs = [.operation s.advanced] →
    s.marks = ranInOrder s.advanced → Stage s .queued
  | called : s.advanced < s.bodies.length → s.chainJobs = [.adopt s.advanced] →
    s.runs s.advanced = some run → run.adopted = false →
    s.marks = ranInOrder s.advanced ++
      .started s.advanced :: (if run.outcome.isSome then [.ended s.advanced] else []) →
    Stage s .running
  | running : s.advanced < s.bodies.length → s.chainJobs = [] →
    s.runs s.advanced = some run → run.adopted = true → run.outcome = none →
    s.marks = ranInOrder s.advanced ++ [.started s.advanced] → Stage s .running
  | resolving : s.advanced < s.bodies.length → s.chainJobs = [.resolve s.advanced outcome] →
    s.runs s.advanced = some run → run.outcome = some outcome →
    s.marks = ranInOrder (s.advanced + 1) → Stage s .resolving
  | advancing : s.advanced < s.bodies.length → s.chainJobs = [.advance s.advanced] →
    s.marks = ranInOrder (s.advanced + 1) → Stage s .advancing

/-- The promises of `runSync` and the log; `busy` when one of the promises may be pending. -/
structure Ledger (s : Workspace) (busy : Prop) : Prop where
  live : ∀ {op run}, s.runs op = some run → run.outcome = none → busy ∧ op = s.advanced
  runBody : ∀ {op run}, s.runs op = some run →
    ∃ loop generation, s.bodies[op]? = some (.runSync loop generation)
  runLoaded : ∀ {op run}, s.runs op = some run → run.fetched = true → .loaded op ∈ s.log
  runOk : ∀ {op run}, s.runs op = some run → run.outcome = some (.ok ()) → run.fetched = true
  ordered : s.log.Pairwise (·.op ≤ ·.op)
  bound : ∀ entry ∈ s.log, entry.op ≤ s.advanced

structure Chain (s : Workspace) (phase : ChainPhase) : Prop where
  stage : s.Stage phase
  ledger : s.Ledger (phase = .running)

variable {s s' : Workspace} {phase : ChainPhase}

theorem Stage.congr (H : s.Stage phase) (hadvanced : s'.advanced = s.advanced)
    (hbodies : s'.bodies.length = s.bodies.length) (hruns : s'.runs = s.runs)
    (hlog : s'.log = s.log) (hchain : s'.chainJobs = s.chainJobs) : s'.Stage phase := by
  have hmarks : s'.marks = s.marks := by rw [marks, hlog, marks]
  cases H with
  | idle h h' hm => exact .idle (by omega) (by rw [hchain, h']) (by rw [hmarks, hm, hadvanced])
  | queued h h' hm =>
    exact .queued (by omega) (by rw [hchain, h', hadvanced]) (by rw [hmarks, hm, hadvanced])
  | called h h' hr ha hm =>
    exact .called (by omega) (by rw [hchain, h', hadvanced]) (by rw [hruns, hadvanced, hr]) ha
      (by rw [hmarks, hm, hadvanced])
  | running h h' hr ha ho hm =>
    exact .running (by omega) (by rw [hchain, h']) (by rw [hruns, hadvanced, hr]) ha ho
      (by rw [hmarks, hm, hadvanced])
  | resolving h h' hr ho hm =>
    exact .resolving (by omega) (by rw [hchain, h', hadvanced]) (by rw [hruns, hadvanced, hr]) ho
      (by rw [hmarks, hm, hadvanced])
  | advancing h h' hm =>
    exact .advancing (by omega) (by rw [hchain, h', hadvanced]) (by rw [hmarks, hm, hadvanced])

theorem getElem?_of_prefix {l l' : List Body} (h : l <+: l') {i : Nat} (ha : l[i]? = some a) :
    l'[i]? = some a := by
  obtain ⟨t, rfl⟩ := h
  rw [List.getElem?_append_left (List.getElem?_eq_some_iff.mp ha).1, ha]

namespace Ledger

variable {busy : Prop}

theorem congr (H : s.Ledger busy) (hadvanced : s'.advanced = s.advanced)
    (hbodies : s.bodies <+: s'.bodies) (hruns : s'.runs = s.runs) (hlog : s'.log = s.log) :
    s'.Ledger busy := by
  refine ⟨?_, fun h => ?_, ?_, ?_, ?_, ?_⟩
  · rw [hruns, hadvanced]; exact H.live
  · rw [hruns] at h
    obtain ⟨loop, generation, hb⟩ := H.runBody h
    exact ⟨loop, generation, getElem?_of_prefix hbodies hb⟩
  · rw [hruns, hlog]; exact H.runLoaded
  · rw [hruns]; exact H.runOk
  · rw [hlog]; exact H.ordered
  · rw [hlog, hadvanced]; exact H.bound

theorem imp (H : s.Ledger busy) (h : busy → busy') : s.Ledger busy' :=
  ⟨fun hr ho => (H.live hr ho).imp_left h, H.runBody, H.runLoaded, H.runOk, H.ordered, H.bound⟩

theorem enqueue (H : s.Ledger busy) (jobs : List Job) : (s.enqueue jobs).Ledger busy :=
  H.congr rfl (List.prefix_refl _) rfl rfl

theorem record (H : s.Ledger busy) (entry : Entry) (h : entry.op = s.advanced) :
    (s.record entry).Ledger busy := by
  refine ⟨H.live, H.runBody, fun hr hf => ?_, H.runOk, ?_, fun e he => ?_⟩
  · exact List.mem_append_left _ (H.runLoaded hr hf)
  · refine List.pairwise_append.mpr ⟨H.ordered, List.pairwise_singleton .., fun e he e' he' => ?_⟩
    rw [List.mem_singleton.mp he', h]
    exact H.bound e he
  · rcases List.mem_append.mp he with he | he
    · exact H.bound e he
    · exact Nat.le_of_eq (List.mem_singleton.mp he ▸ h)

/-- The promise of the current body changes; any other one has settled. -/
theorem setRun (H : s.Ledger busy) (run : Run)
    (hbody : ∃ loop generation, s.bodies[s.advanced]? = some (.runSync loop generation))
    (hloaded : run.fetched = true → .loaded s.advanced ∈ s.log)
    (hok : run.outcome = some (.ok ()) → run.fetched = true) :
    (s.setRun s.advanced run).Ledger (run.outcome = none) := by
  have hcases : ∀ {op run'}, update s.runs s.advanced (some run) op = some run' →
      op = s.advanced ∧ run' = run ∨ op ≠ s.advanced ∧ s.runs op = some run' := by
    intro op run' h
    rw [Function.update_apply] at h
    split at h
    next h' => exact .inl ⟨h', (Option.some.inj h).symm⟩
    next h' => exact .inr ⟨h', h⟩
  refine ⟨fun h ho => ?_, fun h => ?_, fun h hf => ?_, fun h ho => ?_, H.ordered, H.bound⟩
  · rcases hcases h with ⟨rfl, rfl⟩ | ⟨hne, h⟩
    · exact ⟨ho, rfl⟩
    · exact absurd (H.live h ho).2 hne
  · rcases hcases h with ⟨rfl, rfl⟩ | ⟨_, h⟩
    · exact hbody
    · exact H.runBody h
  · rcases hcases h with ⟨rfl, rfl⟩ | ⟨_, h⟩
    · exact hloaded hf
    · exact H.runLoaded h hf
  · rcases hcases h with ⟨rfl, rfl⟩ | ⟨_, h⟩
    · exact hok ho
    · exact H.runOk h ho

end Ledger

namespace Chain

theorem congr (H : s.Chain phase) (hadvanced : s'.advanced = s.advanced)
    (hbodies : s'.bodies = s.bodies) (hruns : s'.runs = s.runs) (hlog : s'.log = s.log)
    (hchain : s'.chainJobs = s.chainJobs) : s'.Chain phase :=
  ⟨H.stage.congr hadvanced (by rw [hbodies]) hruns hlog hchain,
    H.ledger.congr hadvanced (hbodies ▸ List.prefix_refl _) hruns hlog⟩

theorem advanced_le (H : s.Chain phase) : s.advanced ≤ s.bodies.length := by
  cases H.stage <;> omega

/-- A promise of `serialize` settles after its body started. -/
theorem started_of_settled (H : s.Chain phase) (h : op < phase.settled s.advanced) :
    .started op ∈ s.log := by
  have hmem : .started op ∈ s.marks := by
    cases H.stage <;> simp_all [ChainPhase.settled]
    omega
  exact (List.mem_filter.mp hmem).1

theorem settled_le (H : s.Chain phase) : phase.settled s.advanced ≤ s.bodies.length := by
  cases H.stage <;> simp only [ChainPhase.settled] <;> omega

theorem mem_log_of_mem_marks (h : entry ∈ s.marks) : entry ∈ s.log := (List.mem_filter.mp h).1

/-- Entries of one body come before those of a later one. -/
theorem sublist_log (H : s.Chain phase) {a b : Entry} (ha : a ∈ s.log) (hb : b ∈ s.log)
    (h : a.op < b.op) : [a, b].Sublist s.log := by
  have hlog := H.ledger.ordered
  generalize s.log = log at *
  induction log with
  | nil => cases ha
  | cons entry log ih =>
    obtain ⟨hhead, htail⟩ := List.pairwise_cons.mp hlog
    rcases List.mem_cons.mp ha with rfl | ha'
    · rcases List.mem_cons.mp hb with rfl | hb'
      · omega
      · exact (List.singleton_sublist.mpr hb').cons_cons _
    · rcases List.mem_cons.mp hb with rfl | hb'
      · have := hhead a ha'
        omega
      · exact (ih ha' hb' htail).cons _

section
variable {jobs : List Job} {op : Nat} {outcome : Outcome}

theorem operation_head (H : s.Chain phase) (h : s.jobs = .operation op :: jobs) :
    phase = .queued ∧ op = s.advanced ∧ s.advanced < s.bodies.length ∧
      (s.dequeue jobs).chainJobs = [] ∧ s.marks = ranInOrder s.advanced := by
  cases H.stage <;> simp_all [chainJobs, dequeue, List.filter_cons, Job.isChain]

theorem adopt_head (H : s.Chain phase) (h : s.jobs = .adopt op :: jobs) :
    phase = .running ∧ op = s.advanced ∧ s.advanced < s.bodies.length ∧
      (s.dequeue jobs).chainJobs = [] ∧ ∃ run, s.runs op = some run ∧
        s.marks = ranInOrder s.advanced ++
          .started s.advanced :: (if run.outcome.isSome then [.ended s.advanced] else []) := by
  cases H.stage <;> simp_all [chainJobs, dequeue, List.filter_cons, Job.isChain]

theorem resolve_head (H : s.Chain phase) (h : s.jobs = .resolve op outcome :: jobs) :
    phase = .resolving ∧ op = s.advanced ∧ s.advanced < s.bodies.length ∧
      (s.dequeue jobs).chainJobs = [] ∧ s.marks = ranInOrder (s.advanced + 1) ∧
        ∃ run, s.runs op = some run ∧ run.outcome = some outcome := by
  cases H.stage <;> simp_all [chainJobs, dequeue, List.filter_cons, Job.isChain]

theorem advance_head (H : s.Chain phase) (h : s.jobs = .advance op :: jobs) :
    phase = .advancing ∧ op = s.advanced ∧ s.advanced < s.bodies.length ∧
      (s.dequeue jobs).chainJobs = [] ∧ s.marks = ranInOrder (s.advanced + 1) := by
  cases H.stage <;> simp_all [chainJobs, dequeue, List.filter_cons, Job.isChain]

/-- A body joins an idle chain as its next job, a busy one as a body that waits. -/
theorem serialize (H : s.Chain phase) (body : Body) :
    (s.serialize body).Chain phase.served := by
  have hledger : s.Ledger (phase.served = .running) := by
    simpa only [ChainPhase.served_running] using H.ledger
  have hgrow : s.advanced < s.bodies.length → s.advanced < (s.bodies ++ [body]).length :=
    fun h => by rw [List.length_append]; omega
  unfold Workspace.serialize
  dsimp only
  split
  next h =>
    have hs : s.Stage phase := H.stage
    refine ⟨?_, hledger.congr rfl (List.prefix_append ..) rfl rfl⟩
    cases hs with
    | idle _ hc hm =>
      refine .queued (by simp [enqueue, h]) ?_ hm
      rw [chainJobs_enqueue]
      exact congrArg₂ _ hc (by simp [Job.isChain, h, enqueue])
    | _ => omega
  next h =>
    refine ⟨?_, hledger.congr rfl (List.prefix_append ..) rfl rfl⟩
    cases H.stage with
    | idle h' => omega
    | queued h' hc hm => exact .queued (hgrow h') hc hm
    | called h' hc hr ha hm => exact .called (hgrow h') hc hr ha hm
    | running h' hc hr ha ho hm => exact .running (hgrow h') hc hr ha ho hm
    | resolving h' hc hr ho hm => exact .resolving (hgrow h') hc hr ho hm
    | advancing h' hc hm => exact .advancing (hgrow h') hc hm

/-- A body that ended, however it did, has the tail react next. -/
theorem settleOperation (hlt : s.advanced < s.bodies.length) (hc : s.chainJobs = [])
    (hm : s.marks = ranInOrder (s.advanced + 1)) (hl : s.Ledger False) (outcome : Outcome) :
    (s.settleOperation s.advanced outcome).Chain .advancing := by
  unfold Workspace.settleOperation
  split
  all_goals
    refine ⟨.advancing hlt ?_ hm, (hl.imp False.elim).enqueue _⟩
    exact chainJobs_enqueue_of_nil hc _

/-- A body without an `await` settles its promise in the job that calls it. -/
theorem runOperation_sync (hlt : s.advanced < s.bodies.length) (hc : s.chainJobs = [])
    (hm : s.marks = ranInOrder s.advanced) (hl : s.Ledger False) (cfg : QueueConfig)
    (disk : Outcome)
    (hbody : ∀ loop generation, s.bodies[s.advanced]? ≠ some (.runSync loop generation)) :
    (s.runOperation cfg s.advanced disk).Chain .advancing := by
  have hend : ∀ s' : Workspace, s'.Ledger False → s'.advanced = s.advanced →
      s'.bodies = s.bodies → s'.chainJobs = [] →
      s'.marks = ranInOrder s.advanced ++ [.started s.advanced] → ∀ outcome,
      ((s'.record (.ended s.advanced)).settleOperation s.advanced outcome).Chain .advancing := by
    intro s' hl' ha hb hc' hm' outcome
    rw [← ha] at hm' ⊢
    refine settleOperation (s := s'.record (.ended s'.advanced)) ?_ hc' ?_ (hl'.record _ rfl) outcome
    · exact ha ▸ hb ▸ hlt
    · rw [marks_record, hm', List.append_assoc]
      rfl
  replace hl := hl.record (.started s.advanced) rfl
  have hstart : (s.record (.started s.advanced)).marks =
      ranInOrder s.advanced ++ [.started s.advanced] := by
    rw [marks_record, hm]
    rfl
  unfold Workspace.runOperation
  dsimp only
  split
  next h' => exact absurd h' (hbody _ _)
  next key generation h' =>
    rcases grant_op (s.record (.started s.advanced)) s.advanced key generation disk with
      ⟨h, -⟩ | h <;> rw [h]
    · exact hend _ hl rfl rfl hc hstart _
    · refine hend _ (hl.record (.granted s.advanced) rfl) rfl rfl hc ?_ _
      rw [marks_record, hstart]
      exact List.append_nil _
  next => exact hend _ hl rfl rfl hc hstart _
  next h' => exact absurd h' (by simpa [Workspace.record] using hlt)

/-- Whether `runSync` threw before its first `await` only shows in the promise it returned. -/
theorem startRun (hlt : s.advanced < s.bodies.length) (hc : s.chainJobs = [])
    (hm : s.marks = ranInOrder s.advanced ++ [.started s.advanced]) (hl : s.Ledger False)
    (cfg : QueueConfig)
    (hbody : ∃ loop generation, s.bodies[s.advanced]? = some (.runSync loop generation)) :
    (s.startRun cfg s.advanced).Chain .running := by
  have hthrow : ∀ message, ((s.settleRun s.advanced ⟨false, false, none⟩
      (.error message)).enqueue [.adopt s.advanced]).Chain .running := by
    intro message
    refine ⟨.called hlt ?_ (Function.update_self ..) rfl ?_, ?_⟩
    · exact chainJobs_enqueue_of_nil hc _
    · refine (marks_record ..).trans ?_
      rw [show (s.setRun s.advanced _).marks = _ from hm, List.append_assoc]
      rfl
    · exact (((hl.setRun ⟨false, false, some (.error message)⟩ hbody (by simp) (by simp)).record
        (.ended s.advanced) rfl).enqueue _).imp fun _ => rfl
  unfold Workspace.startRun
  dsimp only
  split
  next => exact hthrow _
  next =>
    split
    next => exact hthrow _
    next =>
      refine ⟨.called hlt ?_ (Function.update_self ..) rfl hm, ?_⟩
      · exact chainJobs_enqueue_of_nil hc _
      · exact ((hl.setRun ⟨false, false, none⟩ hbody (by simp) (by simp)).enqueue _).imp
          fun _ => rfl

theorem runOperation_runSync (hlt : s.advanced < s.bodies.length) (hc : s.chainJobs = [])
    (hm : s.marks = ranInOrder s.advanced) (hl : s.Ledger False) (cfg : QueueConfig)
    (disk : Outcome) {loop generation : Nat}
    (hbody : s.bodies[s.advanced]? = some (.runSync loop generation)) :
    (s.runOperation cfg s.advanced disk).Chain .running := by
  unfold Workspace.runOperation
  dsimp only
  rw [show (s.record (.started s.advanced)).bodies[s.advanced]? = _ from hbody]
  refine startRun (s := s.record (.started s.advanced)) hlt hc ?_ (hl.record _ rfl) cfg
    ⟨_, _, hbody⟩
  rw [marks_record, hm]
  rfl

/-- `serialize` follows the promise `runSync` returned. -/
theorem adopt (H : s.Chain phase) (h : s.jobs = .adopt op :: jobs) :
    ∃ phase', ((s.dequeue jobs).adopt op).Chain phase' ∧
      (phase' = .running ∨ phase' = .resolving) := by
  obtain ⟨rfl, rfl, hlt, hc, run, hr, hm⟩ := H.adopt_head h
  have hl : (s.dequeue jobs).Ledger (ChainPhase.running = .running) :=
    H.ledger.congr rfl (List.prefix_refl _) rfl rfl
  have hloaded : run.fetched = true → .loaded s.advanced ∈ s.log := H.ledger.runLoaded hr
  have hok : run.outcome = some (.ok ()) → run.fetched = true := H.ledger.runOk hr
  replace hl := hl.setRun { run with adopted := true } (H.ledger.runBody hr) hloaded hok
  unfold Workspace.adopt
  rw [show (s.dequeue jobs).runs s.advanced = _ from hr]
  dsimp only
  split
  next outcome ho =>
    refine ⟨.resolving, ⟨.resolving hlt ?_ (Function.update_self ..) ho ?_, ?_⟩, .inr rfl⟩
    · exact chainJobs_enqueue_of_nil hc _
    · rw [marks_enqueue]
      exact hm.trans (by rw [ho]; rfl)
    · exact (hl.enqueue _).imp fun h => by simp [ho] at h
  next ho =>
    refine ⟨.running, ⟨.running hlt hc (Function.update_self ..) rfl ho ?_, ?_⟩, .inl rfl⟩
    · exact hm.trans (by rw [ho]; rfl)
    · exact hl.imp fun _ => rfl

theorem resolve (H : s.Chain phase) (h : s.jobs = .resolve op outcome :: jobs) :
    ((s.dequeue jobs).settleOperation op outcome).Chain .advancing := by
  obtain ⟨rfl, rfl, hlt, hc, hm, -⟩ := H.resolve_head h
  exact settleOperation (s := s.dequeue jobs) hlt hc hm ((H.ledger.imp nofun).congr rfl
    (List.prefix_refl _) rfl rfl) outcome

/-- The tail has settled: the next body is due, if there is one. -/
theorem advance (H : s.Chain phase) (h : s.jobs = .advance op :: jobs) :
    ∃ phase', (s.dequeue jobs).advance.Chain phase' ∧ (phase' = .idle ∨ phase' = .queued) := by
  obtain ⟨rfl, rfl, hlt, hc, hm⟩ := H.advance_head h
  have hl : ∀ phase jobs pendingOperations, { s with
      pendingOperations, advanced := s.advanced + 1, jobs }.Ledger phase := fun _ _ _ =>
    ⟨fun hr ho => absurd (H.ledger.live hr ho).1 nofun, H.ledger.runBody, H.ledger.runLoaded,
      H.ledger.runOk, H.ledger.ordered, fun entry he => Nat.le_succ_of_le (H.ledger.bound entry he)⟩
  unfold Workspace.advance
  dsimp only
  split
  next h' =>
    refine ⟨.queued, ⟨.queued h' ?_ hm, hl ..⟩, .inr rfl⟩
    exact (chainJobs_enqueue ..).trans (congrArg (· ++ _) hc)
  next h' => exact ⟨.idle, ⟨.idle (Nat.le_antisymm hlt (Nat.not_lt.mp h')) hc hm, hl ..⟩, .inl rfl⟩

/-- A pending `runSync` settles; `serialize` may not follow its promise yet. -/
theorem settleRun (H : s.Chain phase) {run : Run} (hr : s.runs op = some run)
    (ho : run.outcome = none) (outcome : Outcome)
    (hok : outcome = .ok () → run.fetched = true) :
    ∃ phase', (s.settleRun op run outcome).Chain phase' ∧
      (phase' = .running ∨ phase' = .resolving) := by
  obtain ⟨rfl, rfl⟩ := H.ledger.live hr ho
  have hloaded : run.fetched = true → .loaded s.advanced ∈ s.log := H.ledger.runLoaded hr
  have hl := (H.ledger.setRun { run with outcome := some outcome } (H.ledger.runBody hr) hloaded
    fun h => hok (Option.some.inj h)).record (.ended s.advanced) rfl
  unfold Workspace.settleRun
  dsimp only
  cases H.stage with
  | called hlt hc hr' ha hm =>
    obtain rfl := Option.some.inj (hr.symm.trans hr')
    rw [if_neg (by simp [ha])]
    have hrun : update s.runs s.advanced (some { run with outcome := some outcome }) s.advanced =
        some { run with outcome := some outcome } := Function.update_self ..
    refine ⟨.running, ⟨.called hlt hc hrun ha ?_, hl.imp fun _ => rfl⟩, .inl rfl⟩
    rw [marks_record, marks_setRun, hm, ho, List.append_assoc]
    rfl
  | running hlt hc hr' ha _ hm =>
    obtain rfl := Option.some.inj (hr.symm.trans hr')
    rw [if_pos ha]
    refine ⟨.resolving, ⟨.resolving hlt (chainJobs_enqueue_of_nil hc _)
      (Function.update_self ..) rfl ?_, (hl.enqueue _).imp nofun⟩, .inr rfl⟩
    rw [marks_enqueue, marks_record, marks_setRun, hm, List.append_assoc]
    rfl

theorem finished (H : s.Chain phase) (op : Nat) (outcome : Outcome) :
    ∃ phase', (s.finished op outcome).Chain phase' ∧
      (phase' = phase ∨ phase = .running ∧ phase' = .resolving) := by
  unfold Workspace.finished
  split
  next run hr =>
    split
    next h =>
      simp only [Bool.and_eq_true, Option.isNone_iff_eq_none] at h
      obtain ⟨phase', h', hp⟩ := H.settleRun hr h.2 outcome fun _ => h.1
      obtain ⟨rfl, -⟩ := H.ledger.live hr h.2
      exact ⟨phase', h', hp.imp id fun h => ⟨rfl, h⟩⟩
    next => exact ⟨phase, H, .inl rfl⟩
  next => exact ⟨phase, H, .inl rfl⟩

/-- The run goes on with its manifest and loads the lockfile. -/
theorem load (H : s.Chain .running) {run : Run} (hr : s.runs s.advanced = some run)
    (ho : run.outcome = none) (hadvanced : s'.advanced = s.advanced)
    (hbodies : s'.bodies = s.bodies)
    (hruns : s'.runs = update s.runs s.advanced (some { run with fetched := true }))
    (hlog : s'.log = s.log ++ [.loaded s.advanced]) (hchain : s'.chainJobs = s.chainJobs) :
    s'.Chain .running := by
  have hl : ((s.record (.loaded s.advanced)).setRun s.advanced
      { run with fetched := true }).Ledger (run.outcome = none) :=
    (H.ledger.record (.loaded s.advanced) rfl).setRun { run with fetched := true }
      (H.ledger.runBody hr) (fun _ => List.mem_append_right _ (.head _)) (fun _ => rfl)
  refine ⟨?_, (hl.imp fun _ => rfl).congr hadvanced (hbodies ▸ List.prefix_refl _) hruns hlog⟩
  have hrun : s'.runs s'.advanced = some { run with fetched := true } := by
    rw [hruns, hadvanced, Function.update_self]
  have hmarks : s'.marks = s.marks := by
    rw [marks, hlog, List.filter_append]
    exact List.append_nil _
  have hlen : s'.bodies.length = s.bodies.length := by rw [hbodies]
  cases H.stage with
  | called hlt hc hr' ha hm =>
    obtain rfl := Option.some.inj (hr.symm.trans hr')
    exact .called (by omega) (by rw [hchain, hc, hadvanced]) hrun ha
      (by rw [hmarks, hm, hadvanced])
  | running hlt hc hr' ha _ hm =>
    obtain rfl := Option.some.inj (hr.symm.trans hr')
    exact .running (by omega) (by rw [hchain, hc]) hrun ha ho (by rw [hmarks, hm, hadvanced])

theorem fetched (H : s.Chain phase) (op : Nat) (answer : Except String (List Key)) :
    ∃ phase', (s.fetched op answer).Chain phase' ∧
      (phase' = phase ∨ phase = .running ∧ phase' = .resolving) := by
  unfold Workspace.fetched
  split
  next run loop generation hr hb =>
    split
    next => exact ⟨phase, H, .inl rfl⟩
    next h =>
      have ho : run.outcome = none := by simp_all
      obtain ⟨rfl, rfl⟩ := H.ledger.live hr ho
      have hthrow : ∀ message, ∃ phase',
          (s.settleRun s.advanced run (.error message)).Chain phase' ∧
            (phase' = .running ∨ ChainPhase.running = .running ∧ phase' = .resolving) := by
        intro message
        obtain ⟨phase', h', hp⟩ := H.settleRun hr ho (.error message) nofun
        exact ⟨phase', h', hp.imp id fun h => ⟨rfl, h⟩⟩
      split
      next => exact hthrow _
      next =>
        split
        next => exact hthrow _
        next =>
          refine ⟨.running, H.load hr ho ?_ ?_ ?_ ?_ ?_, .inl rfl⟩ <;> rfl
  next => exact ⟨phase, H, .inl rfl⟩

end

end Chain

end Workspace

end CliProxy.Provision
