/-
How a program is entered, and what a host may do to it.

* `Value.From`: the values that can be had from others without running code;
* `Host.Honest`: a host that makes no classes and no instances of its own;
  `Host.honest_standard` is the standard one;
* `Program.Script.entered`: the step that binds the globals of a program;
* `Program.Script.Visits`: everything that is started in the course of a run of a
  whole program;
* `interpret_failed`: how such a run fails.
-/
import Mathlib
import Ember.Proofs.Run.Plan

namespace Ember

open Program

variable {σ : Type}

/-! ### Hosts -/

/-- A value that refers to no frame. -/
def Value.IsPlain : Value → Prop
  | .cls _ | .obj _ => False
  | .null | .boolean _ | .number _ | .text _ | .host _ => True

/-- The values that can be had from others: plain values, the others themselves,
and the classes of instances. -/
inductive Value.From (given : Value → Prop) : Value → Prop where
  | plain {v : Value} (h : v.IsPlain) : Value.From given v
  | given {v : Value} (h : given v) : Value.From given v
  | cls {i : Instance} (h : Value.From given (.obj i)) : Value.From given (.cls i.cls)

/-- A property that plain values have and that instances share with their
classes is handed on. -/
lemma Value.From.induct {given P : Value → Prop} {v : Value} (h : v.From given)
    (plain : ∀ v : Value, v.IsPlain → P v) (hg : ∀ v, given v → P v)
    (cls : ∀ i, P (.obj i) → P (.cls i.cls)) : P v := by
  induction h with
  | plain h => exact plain _ h
  | given h => exact hg _ h
  | cls _ ih => exact cls _ ih

/-- A host whose globals are plain values, and whose methods answer with and
store nothing but plain values and what they have been given. The values that a
state of the host holds are told by `holds`. -/
structure Host.Honest (host : Host σ) (holds : σ → Value → Prop) : Prop where
  globals : ∀ g ∈ host.globals, g.value.IsPlain
  answers : ∀ o s method, host.findMethod? o s = some method → ∀ arguments st v,
    (method arguments st).1 = .ok v → v.From fun w => w ∈ arguments ∨ holds st w
  keeps : ∀ o s method, host.findMethod? o s = some method → ∀ arguments st v,
    holds (method arguments st).2 v → v.From fun w => w ∈ arguments ∨ holds st w

/-- The value that a global of an honest host is bound to. -/
lemma Host.Honest.isPlain_global {host : Host σ} {holds : σ → Value → Prop}
    (honest : host.Honest holds) (name : String) :
    (((host.global? name).map Global.value).getD .null).IsPlain := by
  cases h : host.global? name with
  | none => trivial
  | some g => exact honest.globals g (List.mem_of_find?_eq_some h)

/-- The host that supplies nothing is honest. -/
lemma Host.honest_empty : (Host.empty : Host σ).Honest fun _ _ => False where
  globals _ h := nomatch h
  answers _ _ _ h := nomatch h
  keeps _ _ _ h := nomatch h

/-- A host whose methods fail with messages of their own, and with nothing else. -/
def Host.FailsInWords (host : Host σ) : Prop :=
  ∀ o s method, host.findMethod? o s = some method → ∀ arguments st cause,
    (method arguments st).1 = .error cause → ∃ message, cause = .host message

/-- A method of the standard host prints a line, and answers with null or with
one of its arguments. -/
lemma Host.standard_method {console : σ → Console} {update : Console → σ → σ} {o : HostHandle}
    {s : Selector} {method : HostMethod σ}
    (found : (Host.standard console update).findMethod? o s = some method)
    (arguments : List Value) :
    ∃ line result, method arguments = printLine console update line result ∧
      (result = .null ∨ result ∈ arguments) := by
  have object : (Host.standard console update).objects = #[systemObject console update] := rfl
  simp only [Host.findMethod?, object, Option.bind_eq_some_iff, HostObject.find?, systemObject,
    HostObject.withMethod, HostObject.named, Array.getElem?_eq_some_iff] at found
  obtain ⟨_, ⟨_, rfl⟩, found⟩ := found
  simp only [List.getElem_toArray, List.getElem_singleton, List.lookup] at found
  split at found
  · cases found
    exact ⟨_, _, rfl, .inl rfl⟩
  · split at found
    · cases found
      refine ⟨_, _, rfl, ?_⟩
      cases arguments with
      | nil => exact .inl rfl
      | cons v vs => exact .inr (List.mem_cons_self ..)
    · exact nomatch found

/-- The standard host hands nothing back that it has not been given. -/
lemma Host.honest_standard (console : σ → Console) (update : Console → σ → σ) :
    (Host.standard console update).Honest fun _ _ => False := by
  refine ⟨fun g hg => ?_, fun o s method found arguments st v ok => ?_,
    fun _ _ _ _ _ _ _ h => h.elim⟩
  · rw [List.mem_singleton.1 hg]
    trivial
  · obtain ⟨line, result, eq, given⟩ := Host.standard_method found arguments
    rw [eq, printLine] at ok
    split at ok <;> cases ok
    rcases given with rfl | given
    · exact .plain trivial
    · exact .given (.inl given)

/-- The standard host fails when its console is full. -/
lemma Host.failsInWords_standard (console : σ → Console) (update : Console → σ → σ) :
    (Host.standard console update).FailsInWords := by
  intro o s method found arguments st cause failed
  obtain ⟨line, result, eq, -⟩ := Host.standard_method found arguments
  rw [eq, printLine] at failed
  split at failed <;> cases failed
  exact ⟨_, rfl⟩

/-! ### Whole programs -/

/-- Binds the globals of a program in a frame of their own. -/
def Program.Script.entered (host : Host σ) (script : Script) : Run σ Environment := do
  let e ← Run.root
  bindGlobals host e script.globals
  return e

/-- What becomes of the way in which the outermost block has ended. -/
def Completion.conclude : Completion → Run σ Unit
  | .normal => return
  | .returned _ line => Run.fail line .returnOutsideMethod

/-- The run of a program is that of its outermost block inside its globals. -/
lemma interpret_eq (host : Host σ) (fuel : Nat) (script : Script) :
    interpret host fuel script =
      script.entered host >>= fun e =>
        runBlock host fuel script.root e >>= Completion.conclude := by
  funext m
  simp only [interpret, Script.entered, bind, Run.bind, pure, Run.pure]
  cases Run.root m with
  | done e m =>
    dsimp only
    cases bindGlobals host e script.globals m with
    | done u m =>
      dsimp only
      cases runBlock host fuel script.root e m with
      | done c m => cases c <;> rfl
      | failed err m => rfl
      | exhausted => rfl
    | failed err m => rfl
    | exhausted => rfl
  | failed err m => rfl
  | exhausted => rfl

/-- What is started in the course of a run of a whole program. -/
def Program.Script.Visits (host : Host σ) (fuel : Nat) (script : Script) (m : Machine σ)
    (b : Activity σ) : Prop :=
  ∃ e m₁, script.entered host m = .done e m₁ ∧
    Activity.Visits host ⟨fuel, .block script.root e, m₁⟩ b

/-- A script visits what its root visits, once its environment has been entered. -/
lemma Program.Script.visits_iff {host : Host σ} {fuel : Nat} {script : Script} {m m₁ : Machine σ}
    {e : Environment} (entered : script.entered host m = .done e m₁) {b : Activity σ} :
    script.Visits host fuel m b ↔ Activity.Visits host ⟨fuel, .block script.root e, m₁⟩ b := by
  refine ⟨fun h => ?_, fun h => ⟨e, m₁, entered, h⟩⟩
  obtain ⟨e₂, m₂, entered₂, h⟩ := h
  rw [entered] at entered₂
  cases entered₂
  exact h

/-- The failure that a step ends with, if it does. -/
def Outcome.error? {α : Type} : Outcome σ α → Option RuntimeError
  | .failed err _ => some err
  | .done _ _ | .exhausted => none

/-- The error of an outcome is that of its failure. -/
lemma Outcome.error?_eq_some {α : Type} {o : Outcome σ α} {err : RuntimeError} :
    o.error? = some err ↔ ∃ m, o = .failed err m := by
  cases o <;> simp [error?]

/-- A run fails where its outermost block does, or because that block returns. -/
lemma interpret_failed {host : Host σ} {fuel : Nat} {script : Script} {m m' : Machine σ}
    {err : RuntimeError} (failed : interpret host fuel script m = .failed err m')
    {e : Environment} {m₁ : Machine σ} (entered : script.entered host m = .done e m₁) :
    (Task.block script.root e).run host fuel m₁ = .failed err m' ∨
      ∃ v line, (Task.block script.root e).run host fuel m₁ = .done (.returned v line) m' ∧
        err = ⟨line, .returnOutsideMethod⟩ := by
  rw [interpret_eq] at failed
  simp only [bind, Run.bind, entered] at failed
  rw [Task.run]
  cases h : runBlock host fuel script.root e m₁ with
  | done c m₂ =>
    rw [h] at failed
    cases c with
    | normal => cases failed
    | returned v line =>
      cases failed
      exact .inr ⟨v, line, rfl, rfl⟩
  | failed err₂ m₂ =>
    rw [h] at failed
    cases failed
    exact .inl rfl
  | exhausted =>
    rw [h] at failed
    cases failed

end Ember
