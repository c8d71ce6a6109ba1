import CliProxy.Provision.SkillsDir

/-! # What every call keeps

Between the calls of a run three facts hold of the world: no owed file is lost, the unexposed
candidate is where the run made it, and the run's own actions replaced nothing. Each call is
shown once to keep them. -/

namespace CliProxy.Installer

open Lib Lib.Prog Provision

variable {σ : Type}

/-- The run replaced nothing, and changed or removed nothing but its unexposed candidate. -/
def Act.Harmless : Act → Prop
  | .make _ replaced | .move _ _ _ replaced => replaced = none
  | .fill place own | .discard place own => own = some place
  | .refuse _ => True

structure Safe (w : World σ) : Prop where
  kept : ∀ root inode, w.owed root inode → Stored w.dir w.own root inode
  held : ∀ place, w.own = some place → (w.dir place).isSome
  harmless : ∀ act ∈ w.log, act.Harmless

theorem World.start_safe {dir : Dir} {turns : List Turn} {caller : σ} :
    Safe (World.start dir turns caller) where
  kept _ _ h := h
  held _ h := nomatch h
  harmless _ h := nomatch h

theorem Safe.congr {w w' : World σ} (H : Safe w) (hdir : w'.dir = w.dir) (hown : w'.own = w.own)
    (howed : w'.owed = w.owed) (hlog : w'.log = w.log) : Safe w' where
  kept := by rw [hdir, hown, howed]; exact H.kept
  held := by rw [hdir, hown]; exact H.held
  harmless := by rw [hlog]; exact H.harmless

theorem Safe.meet {w : World σ} (H : Safe w) (act : Dir → Dir) : Safe (w.meet act) where
  kept := by
    rintro root inode (h | ⟨h, hlost⟩)
    · exact h
    · exact absurd (H.kept root inode h) hlost
  held := by
    intro place h
    have hown : w.own = some place := h
    simpa [World.meet, hown] using H.held place hown
  harmless := H.harmless

theorem harmless_concat {log : List Act} {act : Act} (H : ∀ a ∈ log, a.Harmless)
    (h : act.Harmless) : ∀ a ∈ log ++ [act], a.Harmless := by
  intro a ha
  rcases List.mem_append.mp ha with ha | ha
  · exact H a ha
  · rwa [List.mem_singleton.mp ha]

/-- A whole entry that moves to a vacant place takes its files along. -/
theorem Safe.move {w : World σ} (H : Safe w) {source target : Place} {node : Node}
    (hroot : source.root = target.root) (hs : w.dir source = some node) (ht : w.dir target = none) :
    Safe (w.move source target node) where
  kept := by
    intro root inode h
    obtain ⟨name, held, hown, hdir, hmem⟩ := H.kept root inode h
    have hown' : ∀ p, w.own ≠ some p → (w.move source target node).own ≠ some p := by
      intro p hp
      simp only [World.move, World.record]
      split
      · exact nofun
      · exact hp
    by_cases hplace : (⟨root, name⟩ : Place) = source
    · subst hplace
      obtain rfl : held = node := Option.some.inj (hdir.symm.trans hs)
      obtain ⟨_, newName⟩ := target
      obtain rfl : root = _ := hroot
      have htarget : w.own ≠ some ⟨root, newName⟩ := by
        intro ho
        simpa [ht] using H.held _ ho
      exact ⟨newName, held, hown' _ htarget, by simp [World.move, World.record, World.put], hmem⟩
    · have htarget : (⟨root, name⟩ : Place) ≠ target := by
        rintro rfl
        simp [ht] at hdir
      exact ⟨name, held, hown' _ hown,
        by simp [World.move, World.record, World.put, hplace, htarget, hdir], hmem⟩
  held := by
    intro place h
    simp only [World.move, World.record] at h
    split at h
    · exact nomatch h
    · next hsource =>
      have hplace : place ≠ source := by
        rintro rfl
        exact hsource h
      have htarget : place ≠ target := by
        rintro rfl
        simpa [ht] using H.held place h
      simpa [World.move, World.record, World.put, hplace, htarget] using H.held place h
  harmless := harmless_concat H.harmless ht

theorem Safe.make {w : World σ} (H : Safe w) {place : Place} {t : Tree}
    (h : w.dir place = none) :
    Safe { (w.put place (some (.tree t))).record (.make place (w.dir place)) with
      own := some place } where
  kept := by
    intro root inode ho
    obtain ⟨name, node, -, hdir, hmem⟩ := H.kept root inode ho
    have hp : (⟨root, name⟩ : Place) ≠ place := by
      rintro rfl
      simp [h] at hdir
    exact ⟨name, node, fun e => hp (Option.some.inj e).symm,
      by simp [World.record, World.put, hp, hdir], hmem⟩
  held := by
    rintro p hp
    cases hp
    simp [World.record, World.put]
  harmless := harmless_concat H.harmless h

/-- Whatever happens to the unexposed candidate, no owed file is in it. -/
theorem Safe.putOwn {w : World σ} (H : Safe w) {place : Place} (hown : w.own = some place)
    {node : Node} {act : Act} (ha : act.Harmless) :
    Safe ((w.put place (some node)).record act) where
  kept := by
    intro root inode ho
    obtain ⟨name, held, hp, hdir, hmem⟩ := H.kept root inode ho
    have hne : (⟨root, name⟩ : Place) ≠ place := by
      rintro rfl
      exact hp hown
    exact ⟨name, held, hp, by simp [World.record, World.put, hne, hdir], hmem⟩
  held := by
    intro p hp
    have hplace : p = place := Option.some.inj ((show w.own = some p from hp).symm.trans hown)
    subst hplace
    simp [World.record, World.put]
  harmless := harmless_concat H.harmless ha

theorem Safe.removeOwn {w : World σ} (H : Safe w) {place : Place} (hown : w.own = some place) :
    Safe { (w.put place none).record (.discard place w.own) with
      own := if w.own = some place then none else w.own } where
  kept := by
    intro root inode ho
    obtain ⟨name, held, hp, hdir, hmem⟩ := H.kept root inode ho
    have hne : (⟨root, name⟩ : Place) ≠ place := by
      rintro rfl
      exact hp hown
    exact ⟨name, held, by simp [hown], by simp [World.record, World.put, hne, hdir], hmem⟩
  held := by
    intro p hp
    simp [hown] at hp
  harmless := harmless_concat H.harmless hown

/-! ## The rules of the calls -/

/-- What a run knows of its candidate, its local variables and its log. -/
abbrev Phase := Option Place → Frame → List Act → Prop

def At (R : Phase) (w : World σ) : Prop := Safe w ∧ R w.own w.frame w.log

section Rules

variable {R S : Phase} {I : World σ → Prop}

theorem turn_keeps : Keeps (At R) (Sys.turn : Sys σ Turn) := by
  intro w hw
  unfold Sys.turn
  cases w.turns with
  | nil => exact ⟨hw.1.meet _, hw.2⟩
  | cons t ts =>
    have h : Safe { w with turns := ts } := hw.1.congr rfl rfl rfl rfl
    exact ⟨h.meet _, hw.2⟩

theorem faulty_keeps {fault : Option Fault} : Keeps I (Sys.faulty fault) := by
  match fault with
  | none => exact Keeps.pure
  | some (.fails _) => exact Keeps.throw
  | some .killed => exact Sat.die fun _ h => h

theorem call_keeps : Keeps (At R) (Sys.call : Sys σ Turn) :=
  turn_keeps.bind fun _ => faulty_keeps.bind fun _ => Keeps.pure

theorem get_keeps : Keeps I (get : Sys σ (World σ)) := Sat.get fun _ h => h

theorem lstat_keeps {place : Place} : Keeps (At R) (Sys.lstat place : Sys σ (Option Node)) :=
  call_keeps.bind fun _ => get_keeps.bind fun _ => Keeps.pure

theorem walk_keeps {place : Place} : Keeps (At R) (Sys.walk place : Sys σ Entries) := by
  refine call_keeps.bind fun t => get_keeps.bind fun w => ?_
  split
  · exact Keeps.pure
  · exact Keeps.pure
  · exact Keeps.throw
  · exact Keeps.throw

/-- A rename either moves the whole entry to a vacant place or changes nothing. -/
theorem rename_sat {source target : Place}
    (hmove : ∀ own frame log node, R own frame log →
      S (if own = some source then none else own) frame (log ++ [.move source target node none])) :
    Sat (At R) (Sys.renameDirectoryNoReplace source target : Sys σ Bool)
      (fun moved w => if moved then At S w else At R w) (fun _ => At R) (At R) := by
  refine Sat.bind (Q := fun _ w => source.root = target.root ∧ At R w)
    (Sat.throwIf (fun _ _ h => h) fun hroot _ h => ⟨by simpa using hroot, h⟩)
    fun _ => Sat.assume fun hroot => Sat.bind call_keeps fun _ => ?_
  refine Sat.bind (Q := fun w w' => w' = w ∧ At R w) (Sat.get fun _ h => ⟨rfl, h⟩) fun w => ?_
  split
  · exact Sat.throw fun _ h => h.1 ▸ h.2
  · exact Sat.pure fun _ h => by simpa using h.1 ▸ h.2
  · next node hs ht =>
    refine Sat.bind (Q := fun _ => At S) (Sat.modify ?_) fun _ => Sat.pure fun _ h => by
      simpa using h
    rintro w' ⟨rfl, h⟩
    refine ⟨h.1.move hroot hs ht, ?_⟩
    simpa [World.move, World.record, World.put, ht] using hmove _ _ _ node h.2

theorem rename_keeps {source target : Place}
    (hmove : ∀ own frame log node, R own frame log →
      R (if own = some source then none else own) frame (log ++ [.move source target node none])) :
    Keeps (At R) (Sys.renameDirectoryNoReplace source target : Sys σ Bool) :=
  (rename_sat hmove).weaken fun moved w h => by cases moved <;> exact h

theorem mkdirCandidate_sat {place : Place} {identity : DirectoryIdentity}
    (hmake : ∀ own frame log, R own frame log →
      S (some place) frame (log ++ [.make place none])) :
    Sat (At R) (Sys.mkdirCandidate place identity : Sys σ Unit) (fun _ => At S) (fun _ => At R)
      (At R) := by
  refine Sat.bind call_keeps fun _ => ?_
  refine Sat.bind (Q := fun w w' => w' = w ∧ At R w) (Sat.get fun _ h => ⟨rfl, h⟩) fun w => ?_
  refine Sat.bind (Q := fun _ w' => w' = w ∧ At R w ∧ w.dir place = none)
    (Sat.throwIf (fun _ _ h => h.1 ▸ h.2) fun hnone w' h => ⟨h.1, h.2, by simpa using hnone⟩)
    fun _ => Sat.modify ?_
  rintro w' ⟨rfl, h, hnone⟩
  refine ⟨h.1.make hnone, ?_⟩
  simpa [World.record, World.put, hnone] using hmake _ _ _ h.2

/-- A change of the unexposed candidate. -/
theorem fillCandidate_keeps {place : Place} {change : Entries → Except Error Entries}
    (hown : ∀ own frame log, R own frame log → own = some place)
    (hfill : ∀ own frame log, R own frame log → R own frame (log ++ [.fill place own])) :
    Keeps (At R) (Sys.fillCandidate place change : Sys σ Unit) := by
  refine turn_keeps.bind fun t => get_keeps.bind fun w => ?_
  have fill_keeps : ∀ tree : Tree, ∀ entries : Entries,
      Keeps (At R) (modify (fun w : World σ =>
        (w.put place (some (.tree { tree with entries }))).record (.fill place w.own)) :
          Sys σ Unit) := by
    refine fun tree entries => Sat.modify fun w h => ?_
    have hplace := hown _ _ _ h.2
    exact ⟨h.1.putOwn hplace hplace, hfill _ _ _ h.2⟩
  split
  · dsimp only
    split
    · exact Keeps.ofExcept.bind fun _ => fill_keeps _ _
    · exact (fill_keeps _ _).bind fun _ => faulty_keeps
  · exact Keeps.throw
  · exact Keeps.throw

theorem rmCandidate_sat {place : Place}
    (hown : ∀ own frame log, R own frame log → own = some place)
    (hdiscard : ∀ own frame log, R own frame log →
      S own frame (log ++ [.discard place own]) ∧
        S none frame (log ++ [.discard place own]) ∧ S own frame log) :
    Sat (At R) (Sys.rmCandidate place : Sys σ Unit) (fun _ => At S) (fun _ => At S) (At S) := by
  refine Sat.bind (turn_keeps.conseq (fun _ h => h) (fun _ _ h => h)
    (fun _ w h => ⟨h.1, (hdiscard _ _ _ h.2).2.2⟩) fun w h => ⟨h.1, (hdiscard _ _ _ h.2).2.2⟩)
    fun t => ?_
  split
  · refine Sat.modify fun w h => ?_
    have hplace := hown _ _ _ h.2
    refine ⟨h.1.removeOwn hplace, ?_⟩
    simpa [World.record, World.put, hplace] using (hdiscard _ _ _ h.2).2.1
  · refine Sat.bind (Q := fun _ => At S) (Sat.modify fun w h => ?_) fun _ => faulty_keeps
    have hplace := hown _ _ _ h.2
    split
    · exact ⟨h.1.putOwn hplace hplace, (hdiscard _ _ _ h.2).1⟩
    · exact ⟨h.1, (hdiscard _ _ _ h.2).2.2⟩

end Rules

end CliProxy.Installer
