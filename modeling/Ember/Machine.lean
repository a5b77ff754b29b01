/-
Steps of a running program: they read and change the frames and the state of
the host, and may fail or run out of fuel.

* `Machine`: the frames of a run together with the state of the host;
* `Outcome`: how a step ends. What it has changed stays changed when it fails;
* `Run`: a step, with the primitive steps `Run.fail`, `Run.child`,
  `Run.declare`, `Run.get`, `Run.assign` and `Run.ofHost`.
-/
import Ember.Heap
import Ember.Host

namespace Ember

/-- The frames of a run and the state of the host. -/
structure Machine (σ : Type) where
  heap : Heap
  host : σ

/-- How a step of a run ends. -/
inductive Outcome (σ α : Type) where
  | done (result : α) (machine : Machine σ)
  | failed (error : RuntimeError) (machine : Machine σ)
  | exhausted

/-- A step of a run. -/
def Run (σ α : Type) : Type := Machine σ → Outcome σ α

namespace Run

variable {σ α β : Type}

/-- A step that only answers. -/
@[always_inline, inline]
protected def pure (a : α) : Run σ α := fun m => .done a m

/-- One step after another; a failure ends both. -/
@[always_inline, inline]
protected def bind (x : Run σ α) (f : α → Run σ β) : Run σ β := fun m =>
  match x m with
  | .done a m => f a m
  | .failed e m => .failed e m
  | .exhausted => .exhausted

@[always_inline]
instance : Monad (Run σ) where
  pure := Run.pure
  bind := Run.bind

/-! ### Primitive steps -/

/-- Fails on a line. -/
def fail (line : Line) (cause : Failure) : Run σ α := fun m => .failed ⟨line, cause⟩ m

/-- The step for which no fuel is left. -/
def exhausted : Run σ α := fun _ => .exhausted

/-- A fresh frame with nothing around it. -/
def root : Run σ Environment := fun m =>
  let (e, heap) := m.heap.newRoot
  .done e { m with heap }

/-- A fresh frame inside an environment. -/
def child (e : Environment) : Run σ Environment := fun m =>
  let (e, heap) := m.heap.newChild e
  .done e { m with heap }

/-- Binds a slot in the innermost frame. -/
def declare (e : Environment) (s : Slot) (v : Value) : Run σ Unit := fun m =>
  .done () { m with heap := m.heap.declare e s v }

/-- Binds slots to null. -/
def declareNull (e : Environment) : List (Slot × String) → Run σ Unit
  | [] => pure ()
  | (s, _) :: rest => do
    declare e s .null
    declareNull e rest

/-- Binds slots to values one by one, as far as there are both. -/
def declareEach (e : Environment) : List Slot → List Value → Run σ Unit
  | s :: ss, v :: vs => do
    declare e s v
    declareEach e ss vs
  | _, _ => pure ()

/-- The value of a slot. -/
def get (e : Environment) (s : Slot) (line : Line) : Run σ Value := fun m =>
  match m.heap.get? e s with
  | some v => .done v m
  | none => .failed ⟨line, .undefinedSlot s⟩ m

/-- Gives a slot another value. -/
def assign (e : Environment) (s : Slot) (v : Value) (line : Line) : Run σ Unit := fun m =>
  match m.heap.assign? e s v with
  | some heap => .done () { m with heap }
  | none => .failed ⟨line, .undefinedSlot s⟩ m

/-- What a built-in method answers on a line. -/
def ofExcept (line : Line) : Except Failure α → Run σ α
  | .ok a => pure a
  | .error cause => fail line cause

/-- Calls a method of the host on a line. -/
def ofHost (line : Line) (method : HostMethod σ) (arguments : List Value) : Run σ Value := fun m =>
  match method arguments m.host with
  | (.ok v, host) => .done v { m with host }
  | (.error cause, host) => .failed ⟨line, cause⟩ { m with host }

end Run

end Ember
