import Mathlib

/-! # Machines driven by events

A machine answers every event by moving to one state; a run is a list of events. The rules
below lift what one step keeps to what a whole run keeps, for every order of events. -/

namespace CliProxy.Lib

/-- A machine over states `σ` that is driven by events `ε`. -/
structure Machine (σ ε : Type*) where
  init : σ
  step : σ → ε → σ

namespace Machine

variable {σ ε : Type*} (M : Machine σ ε)

/-- The state after the events `es`, starting in `s`. -/
def runFrom (s : σ) (es : List ε) : σ := es.foldl M.step s

/-- The state after the events `es`, starting in the initial state. -/
def run (es : List ε) : σ := M.runFrom M.init es

/-- `s` is the state after some run. -/
def Reachable (s : σ) : Prop := ∃ es, M.run es = s

@[simp] theorem runFrom_nil (s : σ) : M.runFrom s [] = s := rfl

@[simp] theorem runFrom_cons (s : σ) (e : ε) (es : List ε) :
    M.runFrom s (e :: es) = M.runFrom (M.step s e) es := rfl

theorem runFrom_append (s : σ) (es es' : List ε) :
    M.runFrom s (es ++ es') = M.runFrom (M.runFrom s es) es' := List.foldl_append

/-- Every step of the run satisfies `C`, read in the state before the step. -/
def Along (C : σ → ε → Prop) : σ → List ε → Prop
  | _, [] => True
  | s, e :: es => C s e ∧ Along C (M.step s e) es

variable {M} {I : σ → Prop} {C : σ → ε → Prop}

instance decidableAlong [∀ s e, Decidable (C s e)] : ∀ s es, Decidable (M.Along C s es)
  | _, [] => .isTrue trivial
  | s, e :: es => @instDecidableAnd _ _ _ (decidableAlong (M.step s e) es)

theorem along_append {s : σ} {es es' : List ε} :
    M.Along C s (es ++ es') ↔ M.Along C s es ∧ M.Along C (M.runFrom s es) es' := by
  induction es generalizing s with
  | nil => simp [Along]
  | cons e es ih => simp [Along, ih, and_assoc]

/-- The invariant rule, for runs whose steps all satisfy `C`. -/
theorem runFrom_keeps_along (hstep : ∀ s e, C s e → I s → I (M.step s e)) {s : σ} (hs : I s)
    {es : List ε} (hC : M.Along C s es) : I (M.runFrom s es) := by
  induction es generalizing s with
  | nil => exact hs
  | cons e es ih => exact ih (hstep s e hC.1 hs) hC.2

/-- Two conditions agree along a run if they agree in every state that the second one keeps. -/
theorem along_congr {D : σ → ε → Prop} (hcongr : ∀ s e, I s → (C s e ↔ D s e))
    (hstep : ∀ s e, D s e → I s → I (M.step s e)) {s : σ} (hs : I s) {es : List ε} :
    M.Along C s es ↔ M.Along D s es := by
  induction es generalizing s with
  | nil => exact Iff.rfl
  | cons e es ih =>
    constructor
    · rintro ⟨hC, hrest⟩
      have hD := (hcongr s e hs).mp hC
      exact ⟨hD, (ih (hstep s e hD hs)).mp hrest⟩
    · rintro ⟨hD, hrest⟩
      exact ⟨(hcongr s e hs).mpr hD, (ih (hstep s e hD hs)).mpr hrest⟩

/-- The invariant rule. -/
theorem Reachable.keeps (hinit : I M.init) (hstep : ∀ s e, I s → I (M.step s e)) {s : σ}
    (hs : M.Reachable s) : I s := by
  obtain ⟨es, rfl⟩ := hs
  refine runFrom_keeps_along (C := fun _ _ => True) (fun s e _ => hstep s e) hinit ?_
  generalize M.init = s₀
  induction es generalizing s₀ with
  | nil => trivial
  | cons e es ih => exact ⟨trivial, ih _⟩

end Machine

/-- However `next` is driven, `P` holds after finitely many steps. -/
inductive Inevitable {σ ι : Type*} (next : σ → ι → σ) (P : σ → Prop) : σ → Prop
  | now {s : σ} : P s → Inevitable next P s
  | later {s : σ} : (∀ i, Inevitable next P (next s i)) → Inevitable next P s

namespace Inevitable

variable {σ ι : Type*} {next : σ → ι → σ} {P Q : σ → Prop} {s : σ}

theorem bind (H : Inevitable next P s) (h : ∀ s, P s → Inevitable next Q s) :
    Inevitable next Q s := by
  induction H with
  | now hp => exact h _ hp
  | later _ ih => exact .later ih

end Inevitable

end CliProxy.Lib
