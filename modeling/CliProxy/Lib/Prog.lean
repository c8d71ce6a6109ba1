import Mathlib

/-! # Programs that may fail or be killed

A program reads and changes a world and ends in one of three ways: it returns a value, it
throws, or the process is killed at that point. A handler or a `finally` block runs after a
return or an exception; nothing of the program runs after a kill. -/

namespace CliProxy.Lib

inductive Exit (ε α : Type) where
  | ok (value : α)
  | error (exception : ε)
  | crash
  deriving DecidableEq, Repr

def Prog (W ε α : Type) := W → Exit ε α × W

namespace Prog

variable {W ε α β : Type}

protected def pure (a : α) : Prog W ε α := fun w => (.ok a, w)

protected def bind (p : Prog W ε α) (f : α → Prog W ε β) : Prog W ε β := fun w =>
  match p w with
  | (.ok a, w') => f a w'
  | (.error e, w') => (.error e, w')
  | (.crash, w') => (.crash, w')

instance : Monad (Prog W ε) where
  pure := Prog.pure
  bind := Prog.bind

def throw (e : ε) : Prog W ε α := fun w => (.error e, w)

/-- The process is killed here. -/
def die : Prog W ε α := fun w => (.crash, w)

def tryCatch (p : Prog W ε α) (handler : ε → Prog W ε α) : Prog W ε α := fun w =>
  match p w with
  | (.error e, w') => handler e w'
  | x => x

/-- The exception is part of the result. -/
def attempt (p : Prog W ε α) : Prog W ε (Except ε α) :=
  tryCatch (p >>= fun a => Prog.pure (.ok a)) fun e => Prog.pure (.error e)

/-- An exception of the last block replaces the way the first one ended. -/
def tryFinally (p : Prog W ε α) (last : Prog W ε Unit) : Prog W ε α := fun w =>
  match p w with
  | (.ok a, w') => (last.bind fun _ => Prog.pure a) w'
  | (.error e, w') => (last.bind fun _ => throw e) w'
  | (.crash, w') => (.crash, w')

def throwIf (b : Bool) (e : ε) : Prog W ε Unit :=
  if b then throw e else Prog.pure ()

def ofExcept : Except ε α → Prog W ε α
  | .ok a => Prog.pure a
  | .error e => throw e

def get : Prog W ε W := fun w => (.ok w, w)

def modify (f : W → W) : Prog W ε Unit := fun w => (.ok (), f w)

/-! ## What a program does from any world of a set -/

/-- Started in `P`, the program ends in `Q` if it returns, in `E` if it throws and in `C` if it
is killed. -/
def Sat (P : W → Prop) (p : Prog W ε α) (Q : α → W → Prop) (E : ε → W → Prop)
    (C : W → Prop) : Prop :=
  ∀ w, P w →
    match p w with
    | (.ok a, w') => Q a w'
    | (.error e, w') => E e w'
    | (.crash, w') => C w'

/-- `I` holds however the program ends. -/
def Keeps (I : W → Prop) (p : Prog W ε α) : Prop :=
  Sat I p (fun _ => I) (fun _ => I) I

section Rules

variable {P P' : W → Prop} {p : Prog W ε α} {Q Q' : α → W → Prop} {R : β → W → Prop}
  {E E' : ε → W → Prop} {C C' I : W → Prop} {f : α → Prog W ε β}

theorem Sat.conseq (H : Sat P p Q E C) (hP : ∀ w, P' w → P w) (hQ : ∀ a w, Q a w → Q' a w)
    (hE : ∀ e w, E e w → E' e w) (hC : ∀ w, C w → C' w) : Sat P' p Q' E' C' := by
  intro w hw
  have h := H w (hP w hw)
  revert h
  rcases p w with ⟨_ | _ | _, w'⟩
  · exact hQ _ _
  · exact hE _ _
  · exact hC _

theorem Sat.strengthen (H : Sat P p Q E C) (hP : ∀ w, P' w → P w) : Sat P' p Q E C :=
  H.conseq hP (fun _ _ h => h) (fun _ _ h => h) (fun _ h => h)

theorem Sat.weaken (H : Sat P p Q E C) (hQ : ∀ a w, Q a w → Q' a w) : Sat P p Q' E C :=
  H.conseq (fun _ h => h) hQ (fun _ _ h => h) (fun _ h => h)

/-- A fact about the program alone is taken out of the starting worlds. -/
theorem Sat.assume {φ : Prop} (H : φ → Sat P p Q E C) : Sat (fun w => φ ∧ P w) p Q E C :=
  fun w h => H h.1 w h.2

theorem Sat.pure {a : α} (h : ∀ w, P w → Q a w) : Sat P (pure a : Prog W ε α) Q E C :=
  fun w hw => h w hw

theorem Sat.throw {e : ε} (h : ∀ w, P w → E e w) : Sat P (throw e : Prog W ε α) Q E C :=
  fun w hw => h w hw

theorem Sat.die (h : ∀ w, P w → C w) : Sat P (die : Prog W ε α) Q E C :=
  fun w hw => h w hw

theorem Sat.modify {g : W → W} {Q : Unit → W → Prop} (h : ∀ w, P w → Q () (g w)) :
    Sat P (modify g : Prog W ε Unit) Q E C :=
  fun w hw => h w hw

theorem Sat.get {Q : W → W → Prop} (h : ∀ w, P w → Q w w) : Sat P (get : Prog W ε W) Q E C :=
  fun w hw => h w hw

theorem Sat.bind (Hp : Sat P p Q E C) (Hf : ∀ a, Sat (Q a) (f a) R E C) :
    Sat P (p >>= f) R E C := by
  intro w hw
  have h := Hp w hw
  show match Prog.bind p f w with
    | (.ok a, w') => R a w'
    | (.error e, w') => E e w'
    | (.crash, w') => C w'
  unfold Prog.bind
  revert h
  rcases p w with ⟨_ | _ | _, w'⟩
  · exact fun h => Hf _ w' h
  · exact fun h => h
  · exact fun h => h

/-- What a program does after it has looked at the world. -/
theorem Sat.get_bind {k : W → Prog W ε β} (H : ∀ w, P w → Sat (fun w' => w' = w) (k w) R E C) :
    Sat P (Prog.get >>= k) R E C := by
  intro w hw
  exact H w hw w rfl

theorem Sat.tryCatch {handler : ε → Prog W ε α} (Hp : Sat P p Q E' C)
    (Hh : ∀ e, Sat (E' e) (handler e) Q E C) : Sat P (p.tryCatch handler) Q E C := by
  intro w hw
  have h := Hp w hw
  unfold Prog.tryCatch
  revert h
  rcases p w with ⟨_ | _ | _, w'⟩
  · exact fun h => h
  · exact fun h => Hh _ w' h
  · exact fun h => h

theorem Sat.attempt (Hp : Sat P p Q E C) :
    Sat P p.attempt (fun r w => (∀ a, r = .ok a → Q a w) ∧ ∀ e, r = .error e → E e w) E' C := by
  refine Sat.tryCatch (Sat.bind Hp fun a => ?_) fun e => ?_
  · exact Sat.pure fun w h => ⟨fun _ hr => Except.ok.inj hr ▸ h, fun _ hr => (by cases hr)⟩
  · exact Sat.pure fun w h => ⟨fun _ hr => (by cases hr), fun _ hr => Except.error.inj hr ▸ h⟩

theorem Sat.tryFinally {last : Prog W ε Unit} (Hp : Sat P p Q' E' C)
    (Hok : ∀ a, Sat (Q' a) last (fun _ => Q a) E C)
    (Herr : ∀ e, Sat (E' e) last (fun _ => E e) E C) : Sat P (p.tryFinally last) Q E C := by
  intro w hw
  have h := Hp w hw
  unfold Prog.tryFinally
  revert h
  rcases p w with ⟨_ | _ | _, w'⟩
  · exact fun h => (Sat.bind (Hok _) fun _ => Sat.pure fun _ h => h) w' h
  · exact fun h => (Sat.bind (Herr _) fun _ => Sat.throw fun _ h => h) w' h
  · exact fun h => h

theorem Sat.ite {c : Prop} [Decidable c] {q : Prog W ε α} (Ht : c → Sat P p Q E C)
    (He : ¬c → Sat P q Q E C) : Sat P (if c then p else q) Q E C := by
  split
  · exact Ht ‹_›
  · exact He ‹_›

theorem Sat.throwIf {b : Bool} {e : ε} {Q : Unit → W → Prop}
    (ht : b = true → ∀ w, P w → E e w) (hf : b = false → ∀ w, P w → Q () w) :
    Sat P (throwIf b e) Q E C := by
  unfold Prog.throwIf
  cases b with
  | true => exact Sat.throw (ht rfl)
  | false => exact Sat.pure (hf rfl)

theorem Sat.ofExcept {x : Except ε α} (hok : ∀ a, x = .ok a → ∀ w, P w → Q a w)
    (herr : ∀ e, x = .error e → ∀ w, P w → E e w) : Sat P (ofExcept x) Q E C := by
  cases x with
  | ok a => exact Sat.pure (hok a rfl)
  | error e => exact Sat.throw (herr e rfl)

/-- What holds however the program ends holds of the world it leaves. -/
theorem Sat.final (H : Sat P p (fun _ => I) (fun _ => I) I) {w : W} (hw : P w) : I (p w).2 := by
  have h := H w hw
  revert h
  rcases p w with ⟨_ | _ | _, w'⟩ <;> exact fun h => h

theorem Sat.ok (H : Sat P p Q E C) {w : W} {a : α} (hw : P w) (h : (p w).1 = .ok a) :
    Q a (p w).2 := by
  have hend := H w hw
  revert h hend
  rcases p w with ⟨b | _ | _, w'⟩
  · exact fun h hend => Exit.ok.inj h ▸ hend
  · exact fun h => by cases h
  · exact fun h => by cases h

/-! ## Invariants -/

@[simp] theorem Keeps.pure {a : α} : Keeps I (pure a : Prog W ε α) := Sat.pure fun _ h => h

@[simp] theorem Keeps.throw {e : ε} : Keeps I (throw e : Prog W ε α) := Sat.throw fun _ h => h

theorem Keeps.bind (Hp : Keeps I p) (Hf : ∀ a, Keeps I (f a)) : Keeps I (p >>= f) :=
  Sat.bind Hp Hf

theorem Keeps.tryCatch {handler : ε → Prog W ε α} (Hp : Keeps I p)
    (Hh : ∀ e, Keeps I (handler e)) : Keeps I (p.tryCatch handler) :=
  Sat.tryCatch Hp Hh

theorem Keeps.tryFinally {last : Prog W ε Unit} (Hp : Keeps I p) (Hl : Keeps I last) :
    Keeps I (p.tryFinally last) :=
  Sat.tryFinally Hp (fun _ => Hl) fun _ => Hl

theorem Keeps.ite {c : Prop} [Decidable c] {q : Prog W ε α} (Ht : Keeps I p) (He : Keeps I q) :
    Keeps I (if c then p else q) :=
  Sat.ite (fun _ => Ht) fun _ => He

@[simp] theorem Keeps.throwIf {b : Bool} {e : ε} : Keeps I (Prog.throwIf b e) :=
  Sat.throwIf (fun _ _ h => h) fun _ _ h => h

@[simp] theorem Keeps.ofExcept {x : Except ε α} : Keeps I (Prog.ofExcept x) := by
  cases x with
  | ok a => exact Keeps.pure
  | error e => exact Keeps.throw

end Rules

end Prog

end CliProxy.Lib
