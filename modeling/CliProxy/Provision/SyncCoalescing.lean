import CliProxy.Provision.SyncQueueRuns

/-! # Coalescing loses no update, but for one window

A run of the queue is `Coalesced`: the bodies run one at a time in order and none blocks the
next, an approval answers with a run that loaded its grant, and a registered URL gets a run.
The last part needs that no caller joins a loop that has returned before the URL it registered
(`missed`): between the last test of `syncRequested` and the job that clears `inFlight`, a new
URL sets a flag that nobody reads any more. -/

namespace CliProxy.Provision

open Function (update)

namespace Workspace

variable {s s' s'' : Workspace} {phase : ChainPhase} {jobs : List Job} {op : Nat}

/-- Jobs, bodies and log entries are only added. -/
structure Grows (s s' : Workspace) : Prop where
  jobs : ∃ due, s'.jobs = s.jobs ++ due
  bodies : s.bodies.length ≤ s'.bodies.length
  log : s.log ⊆ s'.log

namespace Grows

theorem refl (s : Workspace) : s.Grows s := ⟨⟨[], by simp⟩, Nat.le_refl _, List.Subset.refl _⟩

theorem trans (H : s.Grows s') (H' : s'.Grows s'') : s.Grows s'' := by
  obtain ⟨due, h⟩ := H.jobs
  obtain ⟨due', h'⟩ := H'.jobs
  exact ⟨⟨due ++ due', by rw [h', h, List.append_assoc]⟩, Nat.le_trans H.bodies H'.bodies,
    List.Subset.trans H.log H'.log⟩

theorem enqueue (H : s.Grows s') (jobs : List Job) : s.Grows (s'.enqueue jobs) :=
  H.trans ⟨⟨jobs, rfl⟩, Nat.le_refl _, List.Subset.refl _⟩

theorem ofMoves (M : s.Moves s') : s.Grows s' := by
  obtain ⟨due, h, -⟩ := M.jobs
  exact ⟨⟨due, h⟩, Nat.le_of_eq (congrArg _ M.bodies.symm), M.log⟩

theorem settleOperation (H : s.Grows s') (op : Nat) (outcome : Outcome) :
    s.Grows (s'.settleOperation op outcome) := by
  unfold Workspace.settleOperation
  split <;> exact H.enqueue _

/-- Whatever the body does comes after its start is recorded. -/
theorem runOperation (s : Workspace) (cfg : QueueConfig) (op : Nat) (disk : Outcome) :
    (s.record (.started op)).Grows (s.runOperation cfg op disk) := by
  have M := Moves.refl (s.record (.started op))
  unfold Workspace.runOperation
  dsimp only
  split
  next => exact ofMoves (M.startRun cfg op)
  next key generation _ =>
    refine settleOperation (ofMoves (Moves.record ?_ _)) ..
    rcases grant_op (s.record (.started op)) op key generation disk with ⟨h, -⟩ | h <;> rw [h]
    · exact M
    · exact M.record _
  next => exact (ofMoves (M.record _)).settleOperation ..
  next => exact refl _

theorem advance (s : Workspace) : s.Grows s.advance := by
  unfold Workspace.advance
  dsimp only
  split
  · exact ⟨⟨_, rfl⟩, Nat.le_refl _, List.Subset.refl _⟩
  · exact ⟨⟨[], by simp⟩, Nat.le_refl _, List.Subset.refl _⟩

theorem iterate (s : Workspace) (loop : Nat) (previous : Option Nat) :
    s.Grows (s.iterate loop previous) := by
  rw [iterate_eq, serialize_eq]
  exact ⟨⟨_, rfl⟩, by simp, List.Subset.refl _⟩

theorem setPhase (s : Workspace) (loop : Nat) (p : LoopPhase) : s.Grows (s.setPhase loop p) := by
  unfold Workspace.setPhase
  split
  · exact ⟨⟨[], by simp⟩, Nat.le_refl _, List.Subset.refl _⟩
  · exact refl s

theorem resumeLoop (s : Workspace) (loop op : Nat) (outcome : Outcome) :
    s.Grows (s.resumeLoop loop op outcome) := by
  have hreturn : ∀ result, s.Grows (s.returnLoop loop result) :=
    fun result => (setPhase s loop _).enqueue _
  unfold Workspace.resumeLoop
  split
  · exact refl s
  · dsimp only
    split
    · split
      · exact iterate ..
      · exact hreturn _
    · split
      · exact hreturn _
      · split
        · exact iterate ..
        · exact hreturn _

theorem syncNow (s : Workspace) : s.Grows s.syncNow.2 := by
  cases hf : s.inFlight with
  | some loop =>
    rw [syncNow_some hf]
    exact refl s
  | none =>
    simp only [Workspace.syncNow, hf, iterate_eq, serialize_eq]
    exact ⟨⟨_, rfl⟩, by simp, List.Subset.refl _⟩

theorem resumeApprove (s : Workspace) (call op : Nat) (outcome : Outcome) :
    s.Grows (s.resumeApprove call op outcome) := by
  have hset : ∀ s' : Workspace, s.Grows s' → ∀ value, s.Grows (s'.setCall call value) :=
    fun s' H value => ⟨H.jobs, H.bodies, H.log⟩
  cases outcome with
  | error => exact hset s (refl s) _
  | ok =>
    unfold Workspace.resumeApprove
    dsimp only
    split
    · exact hset s (refl s) _
    · exact hset _ (syncNow s) _

theorem settleLoop (s : Workspace) (loop : Nat) (result : Except String (Option Nat)) :
    s.Grows (s.settleLoop loop result) := by
  have H := setPhase s loop (.settled result)
  unfold Workspace.settleLoop
  dsimp only
  split
  · split
    · exact ⟨H.jobs, H.bodies, H.log⟩
    · exact H
  · exact H

/-- A job runs: it leaves the queue at its head and what it adds comes last. -/
theorem tick {job : Job} (h : s.jobs = job :: jobs) (cfg : QueueConfig) (disk : Outcome) :
    (s.dequeue jobs).Grows (s.tick cfg disk) := by
  have htick : s.tick cfg disk = (s.dequeue jobs).runJob cfg disk job := by
    simp only [Workspace.tick, h]
  rw [htick]
  cases job with
  | operation op => exact (ofMoves ((Moves.refl _).record _)).trans (runOperation ..)
  | adopt op => exact ofMoves ((Moves.refl _).adopt op)
  | resolve op outcome => exact (refl _).settleOperation ..
  | advance op => exact advance _
  | loop loop op outcome => exact resumeLoop ..
  | approved call op outcome => exact resumeApprove ..
  | caught loop result =>
    cases result with
    | ok => exact (refl _).enqueue _
    | error => exact ⟨⟨_, rfl⟩, Nat.le_refl _, List.Subset.refl _⟩
  | cleared loop result => exact ⟨⟨_, rfl⟩, Nat.le_refl _, List.Subset.refl _⟩
  | settle loop result => exact settleLoop ..

end Grows

/-- Microtask by microtask, with any answers of the disk, the queue gets to `P`. -/
abbrev Comes (cfg : QueueConfig) (P : Workspace → Prop) : Workspace → Prop :=
  Lib.Inevitable (fun s disk => s.tick cfg disk) P

namespace Inv

variable {cfg : QueueConfig}

/-- A queued job gets to the head of the queue. -/
theorem head_comes (H : s.Inv phase) {job : Job} (h : job ∈ s.jobs) :
    Comes cfg (fun t => (∃ phase, t.Inv phase) ∧ s.bodies.length ≤ t.bodies.length ∧
      s.log ⊆ t.log ∧ ∃ rest, t.jobs = job :: rest) s := by
  obtain ⟨before, after, hsplit⟩ := List.append_of_mem h
  induction before generalizing s phase after with
  | nil => exact .now ⟨⟨phase, H⟩, Nat.le_refl _, List.Subset.refl _, after, hsplit⟩
  | cons first before ih =>
    refine .later fun disk => ?_
    have hfirst : s.jobs = first :: (before ++ job :: after) := hsplit
    have hgrows := Grows.tick hfirst cfg disk
    obtain ⟨phase', H'⟩ := H.tick cfg disk
    obtain ⟨due, hdue⟩ := hgrows.jobs
    have hsplit' : (s.tick cfg disk).jobs = before ++ job :: (after ++ due) := by
      rw [hdue]
      simp [Workspace.dequeue]
    have hmem : job ∈ (s.tick cfg disk).jobs := by
      rw [hsplit']
      exact List.mem_append_right _ (.head _)
    refine (ih H' hmem _ hsplit').bind fun t ht => .now ?_
    exact ⟨ht.1, Nat.le_trans hgrows.bodies ht.2.1, List.Subset.trans hgrows.log ht.2.2.1,
      ht.2.2.2⟩

theorem operation_comes (H : s.Inv phase) (h : .operation op ∈ s.jobs) :
    Comes cfg (fun t => .started op ∈ t.log) s := by
  refine (H.head_comes h).bind fun t ⟨_, _, _, rest, hrest⟩ => .later fun disk => .now ?_
  have htick : t.tick cfg disk = (t.dequeue rest).runOperation cfg op disk := by
    simp only [Workspace.tick, hrest, runJob]
  rw [htick]
  exact (Grows.runOperation ..).log (List.mem_append_right _ (.head _))

theorem advance_comes (H : s.Inv phase) (h : .advance op ∈ s.jobs)
    (hlt : op + 1 < s.bodies.length) : Comes cfg (fun t => .started (op + 1) ∈ t.log) s := by
  refine (H.head_comes h).bind fun t ⟨⟨phase, H'⟩, hbodies, _, rest, hrest⟩ => .later fun disk => ?_
  obtain ⟨-, rfl, -⟩ := H'.base.chain.advance_head hrest
  obtain ⟨phase', H''⟩ := H'.tick cfg disk
  refine H''.operation_comes ?_
  have htick : t.tick cfg disk = (t.dequeue rest).advance := by
    simp only [Workspace.tick, hrest, runJob]
  rw [htick, Workspace.advance]
  dsimp only
  have hlt' : (t.dequeue rest).advanced + 1 < (t.dequeue rest).bodies.length :=
    Nat.lt_of_lt_of_le hlt hbodies
  rw [if_pos hlt']
  exact List.mem_append_right _ (.head _)

theorem resolve_comes (H : s.Inv phase) {outcome : Outcome} (h : .resolve op outcome ∈ s.jobs)
    (hlt : op + 1 < s.bodies.length) : Comes cfg (fun t => .started (op + 1) ∈ t.log) s := by
  refine (H.head_comes h).bind fun t ⟨⟨phase, H'⟩, hbodies, _, rest, hrest⟩ => .later fun disk => ?_
  obtain ⟨phase', H''⟩ := H'.tick cfg disk
  have hgrows := Grows.tick hrest cfg disk
  refine H''.advance_comes ?_ (Nat.lt_of_lt_of_le hlt (Nat.le_trans hbodies hgrows.bodies))
  have htick : t.tick cfg disk = (t.dequeue rest).settleOperation op outcome := by
    simp only [Workspace.tick, hrest, runJob]
  rw [htick, Workspace.settleOperation]
  split <;> exact List.mem_append_right _ (.head _)

/-- The promise of a run that has ended is passed on once `serialize` follows it. -/
theorem adopt_comes (H : s.Inv phase) (h : .adopt op ∈ s.jobs) (hended : .ended op ∈ s.log)
    (hlt : op + 1 < s.bodies.length) : Comes cfg (fun t => .started (op + 1) ∈ t.log) s := by
  refine (H.head_comes h).bind fun t ⟨⟨phase, H'⟩, hbodies, hlog, rest, hrest⟩ =>
    .later fun disk => ?_
  obtain ⟨phase', H''⟩ := H'.tick cfg disk
  have hgrows := Grows.tick hrest cfg disk
  obtain ⟨-, rfl, -, -, run, hr, hm⟩ := H'.base.chain.adopt_head hrest
  obtain ⟨outcome, ho⟩ : ∃ outcome, run.outcome = some outcome := by
    rw [← Option.isSome_iff_exists]
    have hmark : .ended t.advanced ∈ t.marks := List.mem_filter.mpr ⟨hlog hended, rfl⟩
    rw [hm] at hmark
    by_contra hnone
    simp [hnone] at hmark
  suffices hmem : .resolve t.advanced outcome ∈ (t.tick cfg disk).jobs from
    H''.resolve_comes hmem (Nat.lt_of_lt_of_le hlt (Nat.le_trans hbodies hgrows.bodies))
  have htick : t.tick cfg disk = (t.dequeue rest).adopt t.advanced := by
    simp only [Workspace.tick, hrest, runJob]
  have hr' : (t.dequeue rest).runs t.advanced = some run := hr
  simp only [htick, Workspace.adopt, hr', ho]
  exact List.mem_append_right _ (.head _)

/-- Once every earlier body has ended, however it did, a body starts. -/
theorem next_comes (H : s.Inv phase) (hlt : op < s.bodies.length)
    (hended : ∀ op' < op, .ended op' ∈ s.log) : Comes cfg (fun t => .started op ∈ t.log) s := by
  have hmarks : ∀ op' < op, .ended op' ∈ s.marks :=
    fun op' h => List.mem_filter.mpr ⟨hended op' h, rfl⟩
  have hstarted : .started op ∈ s.marks → Comes cfg (fun t => .started op ∈ t.log) s :=
    fun h => .now (List.mem_filter.mp h).1
  have hmem : ∀ {job}, job ∈ s.chainJobs → job ∈ s.jobs := fun h => (List.mem_filter.mp h).1
  -- The bodies that ended are those before the current one, or these and the current one.
  have hle : ∀ n, s.marks = ranInOrder n → op ≤ n := by
    intro n hm
    by_contra hlt
    have := hmarks n (by omega)
    simp [hm] at this
  cases H.base.chain.stage with
  | idle h _ hm => exact hstarted (by rw [hm]; simp; omega)
  | queued h hc hm =>
    rcases Nat.lt_or_eq_of_le (hle _ hm) with hlt | rfl
    · exact hstarted (by rw [hm]; simpa using hlt)
    · exact H.operation_comes (hmem (hc ▸ List.mem_singleton.mpr rfl))
  | called h hc hr ha hm =>
    rcases Nat.lt_trichotomy op s.advanced with hlt | rfl | hgt
    · exact hstarted (by rw [hm]; simp [hlt])
    · exact hstarted (by rw [hm]; simp)
    · have hend : .ended s.advanced ∈ s.log := hended _ hgt
      have hop : op = s.advanced + 1 := by
        by_contra hne
        have := hmarks (s.advanced + 1) (by omega)
        rw [hm] at this
        split at this <;> simp at this
      subst hop
      exact H.adopt_comes (hmem (hc ▸ List.mem_singleton.mpr rfl)) hend hlt
  | running h hc hr ha ho hm =>
    rcases Nat.lt_trichotomy op s.advanced with hlt | rfl | hgt
    · exact hstarted (by rw [hm]; simp [hlt])
    · exact hstarted (by rw [hm]; simp)
    · have := hmarks _ hgt
      simp [hm] at this
  | resolving h hc hr ho hm =>
    rcases Nat.lt_or_eq_of_le (hle _ hm) with hlt | rfl
    · exact hstarted (by rw [hm]; simpa using hlt)
    · exact H.resolve_comes (hmem (hc ▸ List.mem_singleton.mpr rfl)) hlt
  | advancing h hc hm =>
    rcases Nat.lt_or_eq_of_le (hle _ hm) with hlt | rfl
    · exact hstarted (by rw [hm]; simpa using hlt)
    · exact H.advance_comes (hmem (hc ▸ List.mem_singleton.mpr rfl)) hlt

end Inv

theorem Inv.loop_of_inFlight (H : s.Inv phase) {loop : Nat} (hf : s.inFlight = some loop) :
    ∃ l, s.loops loop = some l := by
  cases H.flight with
  | landed hf' => exact absurd (hf.symm.trans hf') nofun
  | waiting hf' hl => exact ⟨_, Option.some.inj (hf.symm.trans hf') ▸ hl⟩
  | resuming hf' hl => exact ⟨_, Option.some.inj (hf.symm.trans hf') ▸ hl⟩
  | returned hf' hl => exact ⟨_, Option.some.inj (hf.symm.trans hf') ▸ hl⟩
  | clearing hf' hl => exact ⟨_, Option.some.inj (hf.symm.trans hf') ▸ hl⟩

/-- The caller registered a URL that the loop in flight has not seen, and that loop has returned:
nobody tests `syncRequested` any more. -/
def missed (s : Workspace) (caller : Nat) : Bool :=
  match s.inFlight.bind s.loops, s.registered caller with
  | some l, some generation =>
    match l.phase with
    | .awaiting => false
    | _ => decide (l.startedGeneration < generation)
  | _, _ => false

/-- A caller joins a loop that has missed its URL. -/
def joinsLate (cfg : QueueConfig) (s : Workspace) : QueueEvent → Bool
  | .syncNow caller => s.missed caller
  | .handleAuthorizedSession caller (some url) persisted =>
    (s.registerManifestUrl cfg caller url (some persisted)).2.missed caller
  | _ => false

/-- A registered generation is awaited or has been seen by the loop its caller joined. -/
structure Promised (s : Workspace) : Prop where
  registered : ∀ {caller generation}, s.registered caller = some generation →
    generation ≤ s.manifestGeneration
  wanted : ∀ {call join generation}, s.calls call = some (.joined join) →
    join.wanted = some generation → generation ≤ s.manifestGeneration ∧
      ∃ l, s.loops join.loop = some l ∧ (l.phase = .awaiting ∨ generation ≤ l.startedGeneration)

namespace Promised

theorem congr (P : s.Promised) (hloops : s'.loops = s.loops) (hcalls : s'.calls = s.calls)
    (hregistered : s'.registered = s.registered)
    (hgeneration : s'.manifestGeneration = s.manifestGeneration) : s'.Promised := by
  refine ⟨?_, ?_⟩
  · rw [hregistered, hgeneration]
    exact P.registered
  · rw [hcalls, hloops, hgeneration]
    exact P.wanted

theorem ofMoves (P : s.Promised) (M : s.Moves s') : s'.Promised :=
  P.congr M.loops M.calls M.registered M.generation

theorem setLoop (P : s.Promised) (loop : Nat) (l : Loop) (syncRequested : Bool)
    (h : l.phase = .awaiting ∨ ∀ l', s.loops loop = some l' →
      l'.startedGeneration = l.startedGeneration ∧ l'.phase ≠ .awaiting ∨
        l.startedGeneration = s.manifestGeneration) :
    { s with loops := update s.loops loop (some l), syncRequested }.Promised := by
  refine ⟨P.registered, fun {call join generation} hc hw => ?_⟩
  obtain ⟨hle, l', hl, hp⟩ := P.wanted hc hw
  refine ⟨hle, ?_⟩
  by_cases heq : join.loop = loop
  · refine ⟨l, heq ▸ Function.update_self .., ?_⟩
    rcases h with h | h
    · exact .inl h
    · rcases h l' (heq ▸ hl) with ⟨hs, hne⟩ | hs
      · exact .inr (hs ▸ hp.resolve_left hne)
      · exact .inr (hs ▸ hle)
  · exact ⟨l', (Function.update_of_ne heq ..).trans hl, hp⟩

theorem iterate (P : s.Promised) (loop : Nat) (previous : Option Nat) :
    (s.iterate loop previous).Promised := by
  rw [iterate_eq]
  have P' : (s.serialize (.runSync loop s.manifestGeneration)).Promised := by
    rw [serialize_eq]
    exact P.congr rfl rfl rfl rfl
  rw [serialize_eq] at P' ⊢
  exact P'.setLoop loop _ false (.inl rfl)

theorem syncNow (P : s.Promised) : s.syncNow.2.Promised := by
  cases hf : s.inFlight with
  | some loop =>
    rw [syncNow_some hf]
    exact P
  | none =>
    have P' : { s with nextLoop := s.nextLoop + 1, inFlight := none }.Promised :=
      P.congr rfl rfl rfl rfl
    simp only [Workspace.syncNow, hf]
    exact (P'.iterate s.nextLoop none).congr rfl rfl rfl rfl

theorem setCall (P : s.Promised) (call nextCall : Nat) (value : Call)
    (h : ∀ join generation, value = .joined join → join.wanted = some generation →
      generation ≤ s.manifestGeneration ∧ ∃ l, s.loops join.loop = some l ∧
        (l.phase = .awaiting ∨ generation ≤ l.startedGeneration)) :
    { s.setCall call value with nextCall }.Promised := by
  refine ⟨P.registered, fun {call' join generation} hc hw => ?_⟩
  have hc' : update s.calls call (some value) call' = some (.joined join) := hc
  rw [Function.update_apply] at hc'
  split at hc'
  next => exact h join generation (Option.some.inj hc') hw
  next => exact P.wanted hc' hw

theorem settleOperation (P : s.Promised) (op : Nat) (outcome : Outcome) :
    (s.settleOperation op outcome).Promised := by
  unfold Workspace.settleOperation
  split <;> exact P.congr rfl rfl rfl rfl

theorem runOperation (P : s.Promised) (cfg : QueueConfig) (op : Nat) (disk : Outcome) :
    (s.runOperation cfg op disk).Promised := by
  have hrecord : ∀ {s' : Workspace} (entry : Entry), s'.Promised → (s'.record entry).Promised :=
    fun entry P' => P'.congr rfl rfl rfl rfl
  have P' := hrecord (.started op) P
  unfold Workspace.runOperation
  dsimp only
  split
  next => exact P'.ofMoves ((Moves.refl _).startRun cfg op)
  next key generation _ =>
    refine settleOperation (hrecord _ ?_) ..
    rcases grant_op (s.record (.started op)) op key generation disk with ⟨h, -⟩ | h <;> rw [h]
    · exact P'
    · exact hrecord _ P'
  next => exact (hrecord _ P').settleOperation ..
  next => exact P'

theorem resumeLoop (P : s.Promised) (loop op : Nat) (outcome : Outcome) :
    (s.resumeLoop loop op outcome).Promised := by
  unfold Workspace.resumeLoop
  split
  next => exact P
  next l hl =>
    -- A loop returns only after it saw the current generation.
    have hreturn : l.startedGeneration = s.manifestGeneration → ∀ result,
        (s.returnLoop loop result).Promised := by
      intro hcurrent result
      rw [returnLoop, setPhase_eq hl]
      refine congr (P.setLoop loop { l with phase := .returned result } s.syncRequested ?_) rfl rfl
        rfl rfl
      exact .inr fun _ _ => .inr hcurrent
    dsimp only
    split
    next =>
      split
      next => exact P.iterate ..
      next h => exact hreturn (by simp at h; exact h.1) _
    next =>
      split
      next h => exact hreturn (by simp at h; exact h.1) _
      next =>
        split
        next => exact P.iterate ..
        next h => exact hreturn (by simp at h; exact h.1) _

theorem resumeApprove (P : s.Promised) (call op : Nat) (outcome : Outcome) :
    (s.resumeApprove call op outcome).Promised := by
  have hreject : ∀ message, (s.setCall call (.rejected message)).Promised :=
    fun message => P.setCall call s.nextCall _ nofun
  cases outcome with
  | error message => exact hreject message
  | ok =>
    unfold Workspace.resumeApprove
    dsimp only
    split
    · exact hreject _
    · refine P.syncNow.setCall call _ _ fun join generation hj hw => ?_
      cases hj
      cases hw

theorem settleLoop (P : s.Promised) (loop : Nat) (result : Except String (Option Nat))
    (h : ∀ l, s.loops loop = some l → l.phase ≠ .awaiting) :
    (s.settleLoop loop result).Promised := by
  have P' : (s.setPhase loop (.settled result)).Promised := by
    unfold setPhase
    split
    next l hl =>
      refine P.setLoop loop _ s.syncRequested (.inr fun l' hl' => .inl ?_)
      obtain rfl := Option.some.inj (hl.symm.trans hl')
      exact ⟨rfl, h l hl⟩
    next => exact P
  unfold Workspace.settleLoop
  dsimp only
  split
  next =>
    split
    next => exact P'.congr rfl rfl rfl rfl
    next => exact P'
  next => exact P'

theorem tick (P : s.Promised) (H : s.Inv phase) (cfg : QueueConfig) (disk : Outcome) :
    (s.tick cfg disk).Promised := by
  unfold Workspace.tick
  split
  next => exact P
  next job jobs h =>
    have P' : (s.dequeue jobs).Promised := P.congr rfl rfl rfl rfl
    cases job with
    | operation op => exact P'.runOperation cfg op disk
    | adopt op => exact P'.ofMoves ((Moves.refl _).adopt op)
    | resolve op outcome => exact P'.settleOperation op outcome
    | advance op =>
      simp only [runJob, advance]
      split <;> exact P'.congr rfl rfl rfl rfl
    | loop loop op outcome => exact P'.resumeLoop ..
    | approved call op outcome => exact P'.resumeApprove ..
    | caught loop result => cases result <;> exact P'.congr rfl rfl rfl rfl
    | cleared loop result => exact P'.congr rfl rfl rfl rfl
    | settle loop result =>
      refine P'.settleLoop loop result fun l hl => ?_
      obtain ⟨-, l', hl', hp⟩ := H.base.settles (h ▸ List.mem_cons_self ..)
      obtain rfl := Option.some.inj (hl'.symm.trans hl)
      rcases hp with hp | hp <;> rw [hp] <;> nofun

/-- A caller that is not late joins a loop that will see its URL or has seen it. -/
theorem callSync (P : s.Promised) (H : s.Inv phase) (caller : Nat) (authorized : Bool)
    (hlate : s.missed caller = false) : (s.callSync caller authorized).Promised := by
  unfold Workspace.callSync
  split
  next => exact P.setCall s.nextCall _ _ nofun
  next =>
    obtain ⟨hregistered, hgeneration⟩ := s.syncNow_registered
    change (s.syncNow.2.newCall (.joined
      ⟨s.syncNow.1, none, s.syncNow.2.registered caller, authorized⟩)).Promised
    refine P.syncNow.setCall _ _ _ fun join generation hj hw => ?_
    cases hj
    replace hw : s.registered caller = some generation := hregistered ▸ hw
    refine ⟨hgeneration ▸ P.registered hw, ?_⟩
    rcases Option.eq_none_or_eq_some s.inFlight with hf | ⟨loop, hf⟩
    · obtain ⟨l, hl, -, hp, -⟩ := syncNow_none hf
      exact ⟨l, hl, .inl hp⟩
    · rw [syncNow_some hf]
      obtain ⟨l, hl⟩ := H.loop_of_inFlight hf
      refine ⟨l, hl, ?_⟩
      simp only [missed, hf, Option.bind_some, hl, hw] at hlate
      split at hlate
      next h => exact .inl h
      next => exact .inr (by simpa using hlate)

theorem registerManifestUrl (P : s.Promised) (cfg : QueueConfig) (caller : Nat) (url : String)
    (persisted : Option Outcome) :
    (s.registerManifestUrl cfg caller url persisted).2.Promised := by
  unfold Workspace.registerManifestUrl
  split
  next => exact P
  next =>
    split
    next => exact P
    next =>
      split
      next => exact P
      next =>
        split
        next => exact P
        next => exact P
        next =>
          split
          next =>
            refine ⟨fun {caller' generation} h => ?_, fun hc hw => ?_⟩
            · replace h : update s.registered caller (some (s.manifestGeneration + 1)) caller' =
                some generation := h
              rw [Function.update_apply] at h
              split at h
              next => exact Nat.le_of_eq (Option.some.inj h).symm
              next => exact Nat.le_succ_of_le (P.registered h)
            · exact (P.wanted hc hw).imp_left Nat.le_succ_of_le
          next => exact P

theorem step (P : s.Promised) (H : s.Inv phase) (cfg : QueueConfig) (event : QueueEvent)
    (hlate : joinsLate cfg s event = false) : (s.step cfg event).Promised := by
  cases event with
  | tick disk => exact P.tick H cfg disk
  | fetched op answer => exact P.ofMoves (.fetched op answer)
  | finished op outcome => exact P.ofMoves (.finished op outcome)
  | registerManifestUrl caller url persisted => exact P.registerManifestUrl cfg caller url persisted
  | syncNow caller => exact P.callSync H caller false hlate
  | approveItem key adopt =>
    simp only [Workspace.step, approveItem, serialize_eq]
    split
    next => exact P.setCall s.nextCall _ _ nofun
    next =>
      split
      next => exact P.setCall s.nextCall _ _ nofun
      next =>
        split
        next => exact P.setCall s.nextCall _ _ nofun
        next =>
          refine setCall (congr (s := s) P ?_ ?_ ?_ ?_) _ _ _ nofun <;> dsimp only <;> split <;> rfl
  | deleteItem key =>
    simp only [Workspace.step, deleteItem, serialize_eq]
    split
    next => exact P
    next =>
      split
      next => exact P
      next => refine congr (s := s) P ?_ ?_ ?_ ?_ <;> dsimp only <;> split <;> rfl
  | handleAuthorizedSession caller url persisted =>
    simp only [Workspace.step, handleAuthorizedSession]
    split
    next => exact P
    next url =>
      split
      next => exact P
      next =>
        have P' := P.registerManifestUrl cfg caller url (some persisted)
        have H' := H.registerManifestUrl cfg caller url (some persisted)
        replace hlate : (s.registerManifestUrl cfg caller url (some persisted)).2.missed caller =
          false := hlate
        split
        next message s' heq =>
          rw [heq] at P'
          exact P'.congr rfl rfl rfl rfl
        next s' heq =>
          rw [heq] at P' H' hlate
          exact P'.callSync H' caller true hlate
  | shutdown => exact P.congr rfl rfl rfl rfl

theorem fresh : Workspace.fresh.Promised := ⟨nofun, nofun⟩

end Promised

/-- The promise of the loop has settled. -/
def SettledAs (s : Workspace) (loop : Nat) (result : Except String (Option Nat)) : Prop :=
  ∃ l, s.loops loop = some l ∧ l.phase = .settled result

/-- No update is lost in `s`. -/
structure Coalesced (cfg : QueueConfig) (s : Workspace) : Prop where
  /-- The bodies run one at a time, in the order they were handed to `serialize`. -/
  inOrder : ∃ n, s.marks = ranInOrder n ∨ s.marks = ranInOrder n ++ [.started n]
  /-- A body that ended, failing or not, lets the next one start. -/
  unblocked : ∀ op < s.bodies.length, (∀ op' < op, .ended op' ∈ s.log) →
    Comes cfg (fun t => .started op ∈ t.log) s
  /-- The status an approval answers with is that of a run that loaded the saved grant. -/
  approved : ∀ {call join grant run}, s.calls call = some (.joined join) →
    join.grant = some grant → s.SettledAs join.loop (.ok run) →
      ∃ op, run = some op ∧ [Entry.granted grant, .loaded op].Sublist s.log
  /-- A registered URL gets a run before its caller's `syncNow` settles. -/
  synced : ∀ {call join generation result}, s.calls call = some (.joined join) →
    join.wanted = some generation → s.SettledAs join.loop result →
      ∃ op loop started, s.bodies[op]? = some (.runSync loop started) ∧ generation ≤ started ∧
        .started op ∈ s.log

theorem Inv.coalesced (H : s.Inv phase) (P : s.Promised) (cfg : QueueConfig) :
    s.Coalesced cfg where
  inOrder := by
    cases H.base.chain.stage with
    | idle _ _ hm => exact ⟨_, .inl hm⟩
    | queued _ _ hm => exact ⟨_, .inl hm⟩
    | called _ _ _ _ hm =>
      split at hm
      · exact ⟨s.advanced + 1, .inl hm⟩
      · exact ⟨s.advanced, .inr hm⟩
    | running _ _ _ _ _ hm => exact ⟨_, .inr hm⟩
    | resolving _ _ _ _ hm => exact ⟨_, .inl hm⟩
    | advancing _ _ hm => exact ⟨_, .inl hm⟩
  unblocked op hlt hended := H.next_comes hlt hended
  approved {call join grant run} hc hg hs := by
    obtain ⟨hlog, l, hl, hlt⟩ := H.base.grants hc hg
    obtain ⟨l', hl', hp⟩ := hs
    obtain rfl := Option.some.inj (hl.symm.trans hl')
    obtain ⟨-, hrun⟩ := (H.base.loops hl).ran _ (.inr hp)
    obtain ⟨rfl, hloaded⟩ := hrun run rfl
    exact ⟨l.op, rfl, H.base.chain.sublist_log hlog hloaded hlt⟩
  synced {call join generation result} hc hw hs := by
    obtain ⟨-, l, hl, hseen⟩ := P.wanted hc hw
    obtain ⟨l', hl', hp⟩ := hs
    obtain rfl := Option.some.inj (hl.symm.trans hl')
    have hok := H.base.loops hl
    have hle := hseen.resolve_left (by rw [hp]; nofun)
    exact ⟨l.op, join.loop, l.startedGeneration, hok.body, hle,
      H.base.chain.started_of_settled (hok.ran _ (.inr hp)).1⟩

/-- In every run whose callers never join a loop that has missed their URL, no update is lost. -/
theorem coalesces (cfg : QueueConfig) (events : List QueueEvent)
    (h : (queue cfg).Along (fun s event => joinsLate cfg s event = false) .fresh events) :
    ((queue cfg).run events).Coalesced cfg := by
  have hrun : (∃ phase, ((queue cfg).run events).Inv phase) ∧ ((queue cfg).run events).Promised :=
    Lib.Machine.runFrom_keeps_along (I := fun s => (∃ phase, s.Inv phase) ∧ s.Promised)
      (fun s event hlate ⟨⟨phase, H⟩, P⟩ => ⟨H.step cfg event, P.step H cfg event hlate⟩)
      ⟨⟨_, .fresh⟩, .fresh⟩ h
  obtain ⟨⟨phase, H⟩, P⟩ := hrun
  exact H.coalesced P cfg

/-- A URL that changes while a run is under way is synced by a further iteration. -/
theorem coalesces_changed_url :
    let cfg : QueueConfig := ⟨true, none, fun _ => .ok ()⟩
    let events : List QueueEvent :=
      [.registerManifestUrl 0 "https://a/manifest.json" none, .syncNow 0, .tick (.ok ()),
        .handleAuthorizedSession 1 (some "https://b/manifest.json") (.ok ())]
    ((queue cfg).run events).Coalesced cfg :=
  coalesces _ _ (by decide)

/-- The run for the first URL is over and `loop()` has returned when the second URL comes: its
caller gets the promise of that loop, and no run for the second URL ever starts. -/
theorem late_url_lost :
    let cfg : QueueConfig := ⟨true, none, fun _ => .ok ()⟩
    let events : List QueueEvent :=
      [.registerManifestUrl 0 "https://a/manifest.json" none, .syncNow 0, .tick (.ok ()),
        .tick (.ok ()), .fetched 0 (.ok []), .finished 0 (.ok ()), .tick (.ok ()), .tick (.ok ()),
        .tick (.ok ()), .handleAuthorizedSession 1 (some "https://b/manifest.json") (.ok ()),
        .tick (.ok ()), .tick (.ok ()), .tick (.ok ())]
    ¬ ((queue cfg).run events).Coalesced cfg := by
  intro cfg events
  have hlost : ∀ s : Workspace, s.calls 1 = some (.joined ⟨0, none, some 2, true⟩) →
      s.loops 0 = some ⟨0, 1, none, .settled (.ok (some 0))⟩ → s.bodies = [.runSync 0 1] →
      ¬ s.Coalesced cfg := by
    intro s hcall hloop hbodies h
    obtain ⟨op, loop, started, hbody, hle, -⟩ := h.synced hcall rfl ⟨_, hloop, rfl⟩
    rw [hbodies] at hbody
    cases op with
    | zero => cases hbody; omega
    | succ op => cases hbody
  exact hlost _ (by decide +kernel) (by decide +kernel) (by decide +kernel)

end Workspace

end CliProxy.Provision
