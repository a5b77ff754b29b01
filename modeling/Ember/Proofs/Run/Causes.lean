/-
Where the failures of a run come from.

* `Failure.Arises`: a failure that a task may end with: not an escaped return and not a
  foreign receiver, unless a method of the host says so;
* `Plan.FailsIn`: all primitive steps of a plan fail for causes of one kind;
* `Run.Primitive.arises`: what primitive steps fail for;
* `Task.arises_of_failed`: what a task fails for.
-/
import Mathlib
import Ember.Proofs.Run.Failing

namespace Ember

open Program

variable {σ α β : Type} {host : Host σ} {P : Failure → Prop}

/-- A failure that a task may end with. A return escapes only at the top level of a
program, and built-in methods get receivers of their own class, so that only the host
could say otherwise. -/
def Failure.Arises (host : Host σ) (cause : Failure) : Prop :=
  (cause ≠ .returnOutsideMethod ∧ ∀ method, cause ≠ .foreignReceiver method) ∨
    ∃ o method, host.FailsWith o method cause

/-- A step that fails for causes of one kind. -/
def Run.FailsIn (P : Failure → Prop) (x : Run σ α) : Prop :=
  ∀ m err m', x m = .failed err m' → P err.cause

/-- All primitive steps of a plan fail for causes of one kind. -/
def Plan.FailsIn (P : Failure → Prop) : Plan σ α → Prop
  | .done _ => True
  | .act x next => x.FailsIn P ∧ ∀ b, (next b).FailsIn P
  | .sub _ next => ∀ b, (next b).FailsIn P

/-! ### Steps -/

namespace Run

/-- What always succeeds fails in no way at all. -/
lemma Succeeds.failsIn {x : Run σ α} (h : ∀ m, x.Succeeds m fun _ _ => True) : x.FailsIn P := by
  intro m err m' failed
  obtain ⟨a, m₁, done, -⟩ := h m
  rw [failed] at done
  cases done

/-- A failure is for its cause. -/
lemma failsIn_fail {line : Line} {cause : Failure} (h : P cause) :
    (fail line cause : Run σ α).FailsIn P := by
  intro m err m' failed
  cases failed
  exact h

lemma failsIn_child (e : Environment) : (child e : Run σ Environment).FailsIn P :=
  Succeeds.failsIn fun _ => ⟨_, _, rfl, trivial⟩

lemma failsIn_declare (e : Environment) (s : Slot) (v : Value) :
    (declare e s v : Run σ Unit).FailsIn P :=
  Succeeds.failsIn fun _ => ⟨_, _, rfl, trivial⟩

/-- A look-up fails for a slot that is undefined, if at all. -/
lemma failsIn_get {e : Environment} {s : Slot} {line : Line} (h : P (.undefinedSlot s)) :
    (get e s line : Run σ Value).FailsIn P := by
  intro m err m' failed
  rw [get] at failed
  split at failed <;> cases failed
  exact h

/-- An assignment fails for a slot that is undefined, if at all. -/
lemma failsIn_assign {e : Environment} {s : Slot} {v : Value} {line : Line}
    (h : P (.undefinedSlot s)) : (assign e s v line : Run σ Unit).FailsIn P := by
  intro m err m' failed
  rw [assign] at failed
  split at failed <;> cases failed
  exact h

end Run

lemma makeInstance_failsIn (c : ClassObject) : (makeInstance c : Run σ Instance).FailsIn P :=
  Run.Succeeds.failsIn fun m => by
    obtain ⟨i, m', run, -⟩ := makeInstance_fresh c m
    exact ⟨i, m', run, trivial⟩

/-- A built-in method that is found for a receiver fails for no internal reason. -/
lemma native_arises {receiver : Value} {method : Selector} {run : NativeMethod}
    (found : ((NativeClass.of? receiver).bind fun c => c.find? method) = some run)
    (arguments : List Value) (line : Line) :
    (Run.ofExcept line (run receiver arguments) : Run σ Value).FailsIn (Failure.Arises host) := by
  rcases native_spec found arguments with ⟨v, ok, -⟩ | ⟨cause, error, outside⟩
  · rw [ok]
    exact Run.Succeeds.failsIn fun _ => ⟨_, _, rfl, trivial⟩
  · rw [error]
    refine Run.failsIn_fail (.inl ⟨?_, fun method => ?_⟩)
    · rintro rfl
      exact outside trivial
    · rintro rfl
      exact outside trivial

/-- A method of the host fails as it says. -/
lemma host_arises {o : HostHandle} {method : Selector} {run : HostMethod σ}
    (found : host.findMethod? o method = some run) (arguments : List Value) (line : Line) :
    (Run.ofHost line run arguments).FailsIn (Failure.Arises host) := by
  intro m err m' failed
  rw [Run.ofHost] at failed
  split at failed
  · cases failed
  · next cause st answer =>
    cases failed
    exact .inr ⟨o, method, run, arguments, m.host, found, by rw [answer]⟩

/-! ### Plans -/

namespace Plan

/-- A plan fails as its primitive steps or its tasks do. -/
lemma FailsIn.run {fuel : Nat} {p : Plan σ α} (hp : p.FailsIn P)
    (ht : ∀ {α : Type} (t : Task α), (t.run host fuel).FailsIn P) :
    (p.run host fuel).FailsIn P := by
  intro m err m' failed
  induction p generalizing m with
  | done a => cases failed
  | act x next ih =>
    rw [Plan.run, Run.bind] at failed
    cases h : x m with
    | done b m₁ =>
      rw [h] at failed
      exact ih b (hp.2 b) m₁ failed
    | failed err₁ m₁ =>
      rw [h] at failed
      cases failed
      exact hp.1 m err m' h
    | exhausted =>
      rw [h] at failed
      cases failed
  | sub t next ih =>
    rw [Plan.run, Run.bind] at failed
    cases h : t.run host fuel m with
    | done b m₁ =>
      rw [h] at failed
      exact ih b (hp b) m₁ failed
    | failed err₁ m₁ =>
      rw [h] at failed
      cases failed
      exact ht t m err m' h
    | exhausted =>
      rw [h] at failed
      cases failed

end Plan

/-- A primitive step fails for causes that may arise. -/
lemma Run.Primitive.arises {x : Run σ α} (h : x.Primitive host) :
    x.FailsIn (Failure.Arises host) := by
  have undefined (s : Slot) : Failure.Arises host (.undefinedSlot s) := .inl (by simp)
  cases h with
  | child e => exact Run.failsIn_child e
  | declare e s v => exact Run.failsIn_declare e s v
  | declareEach e ss vs => exact Run.Succeeds.failsIn (Run.declareEach_succeeds e ss vs)
  | makeClass decl e => exact Run.Succeeds.failsIn (makeClass_succeeds decl e)
  | makeClasses e cs => exact Run.Succeeds.failsIn (makeClasses_succeeds e cs)
  | makeInstance c => exact makeInstance_failsIn c
  | get e s line => exact Run.failsIn_get (undefined s)
  | assign e s v line => exact Run.failsIn_assign (undefined s)
  | ofHost found arguments line => exact host_arises found arguments line
  | native found arguments line => exact native_arises found arguments line
  | fail ordinary => exact Run.failsIn_fail (.inl ordinary)

/-- A primitive step of a plan fails for a cause that arises of itself. -/
lemma Plan.Primitive.arises {p : Plan σ α} (h : p.Primitive host) :
    p.FailsIn (Failure.Arises host) := by
  induction p with
  | done a => trivial
  | act x next ih => exact ⟨h.1.arises, fun b => ih b (h.2 b)⟩
  | sub t next ih => exact fun b => ih b (h b)

/-- Whatever a task fails for may arise. -/
theorem Task.arises_of_failed (host : Host σ) (fuel : Nat) :
    ∀ {α : Type} (t : Task α), (t.run host fuel).FailsIn (Failure.Arises host) := by
  induction fuel with
  | zero =>
    intro α t m err m' failed
    rw [Task.run_zero] at failed
    cases failed
  | succ fuel ih =>
    intro α t
    rw [Task.run_succ]
    exact (t.primitive_plan host).arises.run ih

end Ember
