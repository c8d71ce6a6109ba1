import CliProxy.Auth.SessionManager

/-! # What the login adapters share

`src/auth/types.ts`: what the methods of an `EngineAuthSession` settle with, the processes it
spawns, and what `cancel()` promises about both. -/

namespace CliProxy.Auth

/-- What the promise of an adapter's method settles with. -/
inductive Outcome where
  | started (result : AuthStartResult)
  | submitted (result : AuthSubmitResult)
  | rejected (rejection : Rejection)
  deriving DecidableEq, Repr

/-- A process that a login has spawned. -/
structure Child where
  signalled : Bool := false
  exited : Bool := false
  deriving DecidableEq, Repr

def Rejection.auth (message code : String) : Rejection := .provisioning ⟨message, code⟩

/-- `detail ? message + ": " + detail : message` -/
def withDetail (message : String) (detail : List Char) : String :=
  if detail = [] then message else message ++ ": " ++ String.ofList detail

/-- `child?.kill()` for the child that a session holds. -/
def kill (held : Option Nat) (children : List Child) : List Child :=
  match held with
  | some k => children.modify k fun child => { child with signalled := true }
  | none => children

/-- A call of `start()`, `submit()` or `wait()`: what its promise has settled with, and what
`cancel()` has to do with it. It is `doomed` if `cancel()` was called while the promise had not
decided, and `late` if `cancel()` was called before it. -/
structure CallView where
  doomed : Bool
  late : Bool
  outcome : Option Outcome
  deriving DecidableEq, Repr

/-- The cancellation has latched: no doomed call fulfils, no late one returns a credential, and
every child has been signalled to die, or is gone. -/
structure Latched (cancelled : Bool) (calls : List CallView) (children : List Child) : Prop where
  doomed : ∀ c ∈ calls, c.doomed = true → ∀ outcome, c.outcome = some outcome →
    ∃ rejection, outcome = .rejected rejection
  late : ∀ c ∈ calls, c.late = true → ∀ result, c.outcome = some (.submitted result) →
    result.credential = none
  children : cancelled = true → ∀ child ∈ children, child.signalled = true ∨ child.exited = true

theorem mem_modify {α : Type*} {xs : List α} {i : Nat} {f : α → α} {x : α}
    (h : x ∈ xs.modify i f) : x ∈ xs ∨ ∃ x₀, xs[i]? = some x₀ ∧ x = f x₀ := by
  obtain ⟨j, hj⟩ := List.mem_iff_getElem?.mp h
  rw [List.getElem?_modify] at hj
  obtain ⟨x₀, hx₀, he⟩ := Option.map_eq_some_iff.mp hj
  split at he
  next hij =>
    subst hij
    exact .inr ⟨x₀, hx₀, he.symm⟩
  next => exact .inl (he ▸ List.mem_of_getElem? hx₀)

@[simp] theorem length_kill (held : Option Nat) (children : List Child) :
    (kill held children).length = children.length := by
  cases held with
  | none => rfl
  | some k => exact List.length_modify ..

/-- A child that is neither signalled nor gone is the one that the session holds. -/
def Held (held : Option Nat) (children : List Child) : Prop :=
  ∀ k child, children[k]? = some child →
    child.signalled = true ∨ child.exited = true ∨ held = some k

namespace Held

variable {held : Option Nat} {children : List Child}

theorem kill (H : Held held children) : Held none (Auth.kill held children) := by
  intro k child hchild
  cases held with
  | none => exact H k child hchild
  | some j =>
    rw [Auth.kill, List.getElem?_modify] at hchild
    obtain ⟨child₀, hchild₀, he⟩ := Option.map_eq_some_iff.mp hchild
    split at he
    next => exact .inl (he ▸ rfl)
    next hjk =>
      subst he
      obtain h | h | h := H k child₀ hchild₀
      · exact .inl h
      · exact .inr (.inl h)
      · exact absurd (Option.some.inj h) hjk

theorem exit (H : Held held children) (j : Nat) :
    Held held (children.modify j fun child => { child with exited := true }) := by
  intro k child hchild
  rw [List.getElem?_modify] at hchild
  obtain ⟨child₀, hchild₀, he⟩ := Option.map_eq_some_iff.mp hchild
  split at he
  next => exact .inr (.inl (he ▸ rfl))
  next => exact he ▸ H k child₀ hchild₀

/-- A new child may take the place of one that is gone. -/
theorem spawn (H : Held held children)
    (hgone : (held.bind (children[·]?)).all (·.exited) = true) :
    Held (some children.length) (children ++ [({} : Child)]) := by
  intro k child hchild
  rw [List.getElem?_append] at hchild
  split at hchild
  next =>
    obtain h | h | h := H k child hchild
    · exact .inl h
    · exact .inr (.inl h)
    · rw [h, Option.bind_some, hchild, Option.all_some] at hgone
      exact .inr (.inl hgone)
  next hk =>
    obtain ⟨hlt, -⟩ := List.getElem?_eq_some_iff.mp hchild
    rw [List.length_singleton] at hlt
    have hk' : k = children.length := by omega
    exact .inr (.inr (congrArg some hk'.symm))

theorem gone (H : Held none children) {child : Child} (h : child ∈ children) :
    child.signalled = true ∨ child.exited = true := by
  obtain ⟨k, hk⟩ := List.mem_iff_getElem?.mp h
  obtain h | h | h := H k child hk
  · exact .inl h
  · exact .inr h
  · exact absurd h.symm (Option.some_ne_none k)

end Held

end CliProxy.Auth
