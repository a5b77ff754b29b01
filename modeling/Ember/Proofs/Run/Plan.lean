/-
One step of the interpreter at a time: what it is asked to do, and the smaller
things that it asks for in turn.

* `Task`: a call, a block, a statement, an expression; `Task.run` performs it;
* `Plan`: primitive steps and smaller tasks, one after another;
* `Task.plan`: what a task consists of. `Task.run_succ` says that a task with
  fuel left does exactly what its plan says;
* `Run.Primitive`: the primitive steps of all plans (`Task.primitive_plan`);
* `Plan.Starts`, `Activity.Visits`: the tasks that are started in the course of
  a plan, and of a whole run; `Task.visited` lists them;
* `Discipline`: a property of machines, tasks and answers, kept from step to
  step. If every plan keeps it then every task that is started is
  allowed where it starts (`Discipline.Kept.allows`), answers as promised, and
  some task is to blame for every failure (`Discipline.Kept.ends`).
-/
import Mathlib
import Ember.Evaluation

namespace Ember

open Program

/-! ### Tasks -/

/-- What the interpreter may be asked to do, by the kind of its answer. -/
inductive Task : Type → Type where
  | call (receiver : Value) (name : String) (arguments : Option (List Value)) (line : Line) :
      Task Value
  | body (m : Method) (e : Environment) (arguments : Option (List Value)) : Task Value
  | block (b : Block) (e : Environment) : Task Completion
  | stmts (statements : List Stmt) (e : Environment) : Task Completion
  | stmt (s : Stmt) (e : Environment) : Task Completion
  | loop (condition : Expr) (body : Stmt) (e : Environment) : Task Completion
  | test (condition : Expr) (e : Environment) : Task Bool
  | eval (expr : Expr) (e : Environment) : Task Value
  | evalAll (es : List Expr) (e : Environment) : Task (List Value)

variable {σ α β : Type}

/-- Performs a task. -/
def Task.run (host : Host σ) (fuel : Nat) : {α : Type} → Task α → Run σ α
  | _, .call receiver name arguments line => Ember.call host fuel receiver name arguments line
  | _, .body m e arguments => runBody host fuel m e arguments
  | _, .block b e => runBlock host fuel b e
  | _, .stmts ss e => runStmts host fuel ss e
  | _, .stmt s e => runStmt host fuel s e
  | _, .loop condition inner e => runLoop host fuel condition inner e
  | _, .test condition e => evalTest host fuel condition e
  | _, .eval expr e => Ember.eval host fuel expr e
  | _, .evalAll es e => Ember.evalAll host fuel es e

/-- Without fuel no task is performed. -/
lemma Task.run_zero (host : Host σ) (t : Task α) (m : Machine σ) :
    t.run host 0 m = .exhausted := by
  cases t <;> simp [Task.run, Ember.call, runBody, runBlock, runStmts, runStmt, runLoop, evalTest,
    Ember.eval, Ember.evalAll, Run.exhausted]

/-! ### Plans -/

/-- Primitive steps and smaller tasks, one after another. -/
inductive Plan (σ α : Type) : Type 1 where
  | done (a : α)
  | act {β : Type} (x : Run σ β) (next : β → Plan σ α)
  | sub {β : Type} (t : Task β) (next : β → Plan σ α)

namespace Plan

/-- One plan after another. -/
protected def bind : Plan σ α → (α → Plan σ β) → Plan σ β
  | done a, f => f a
  | act x next, f => .act x fun b => (next b).bind f
  | sub t next, f => .sub t fun b => (next b).bind f

instance : Monad (Plan σ) where
  pure := .done
  bind := Plan.bind

/-- A plan of one primitive step. -/
def step (x : Run σ α) : Plan σ α := .act x .done

/-- A plan of one smaller task. -/
def start (t : Task α) : Plan σ α := .sub t .done

/-- Carries out a plan, with the given fuel for each of its tasks. -/
def run (host : Host σ) (fuel : Nat) : Plan σ α → Run σ α
  | done a => Run.pure a
  | act x next => Run.bind x fun b => (next b).run host fuel
  | sub t next => Run.bind (t.run host fuel) fun b => (next b).run host fuel

end Plan

open Plan (step start)

/-- What a task consists of. -/
def Task.plan (host : Host σ) : {α : Type} → Task α → Plan σ α
  | _, .call receiver name arguments line =>
    let method : Selector := ⟨name, arguments.map List.length⟩
    let missing : Plan σ Value := step (Run.fail line (.notImplemented receiver.className method))
    match receiver with
    | .cls c =>
      match findMethod? method c.decl.constructors with
      | some constructor => do
        let i ← step (makeInstance c)
        let _ ← start (.body constructor i.env arguments)
        return .obj i
      | none =>
        match findMethod? method c.decl.staticMethods with
        | some m => start (.body m c.statics arguments)
        | none => missing
    | .obj i =>
      match findMethod? method i.cls.decl.methods with
      | some m => start (.body m i.env arguments)
      | none => missing
    | .host h =>
      match host.findMethod? h method with
      | some m => step (Run.ofHost line m (arguments.getD []))
      | none => missing
    | _ =>
      match (NativeClass.of? receiver).bind fun c => c.find? method with
      | some m => step (Run.ofExcept line (m receiver (arguments.getD [])))
      | none => missing
  | _, .body m e arguments => do
    let frame ← step (Run.child e)
    step (Run.declareEach frame (m.params.getD []) (arguments.getD []))
    match ← start (.block m.body frame) with
    | .normal => return .null
    | .returned v _ => return v
  | _, .block b e => do
    let e ← step (Run.child e)
    step (makeClasses e b.classes)
    start (.stmts b.statements e)
  | _, .stmts [] _ => return .normal
  | _, .stmts (s :: ss) e => do
    match ← start (.stmt s e) with
    | .normal => start (.stmts ss e)
    | .returned v line => return .returned v line
  | _, .stmt (.block b) e => start (.block b e)
  | _, .stmt (.branch condition yes no _) e => do
    if ← start (.test condition e) then start (.stmt yes e)
    else match no with
      | some s => start (.stmt s e)
      | none => return .normal
  | _, .stmt (.loop condition inner _) e => start (.loop condition inner e)
  | _, .stmt (.var s init _) e => do
    let v ← match init with
      | some init => start (.eval init e)
      | none => pure .null
    step (Run.declare e s v)
    return .normal
  | _, .stmt (.ret value line) e => do
    let v ← match value with
      | some value => start (.eval value e)
      | none => pure .null
    return .returned v line
  | _, .stmt (.eval expr) e => do
    let _ ← start (.eval expr e)
    return .normal
  | _, .loop condition inner e => do
    if ← start (.test condition e) then
      match ← start (.stmt inner e) with
      | .normal => start (.loop condition inner e)
      | .returned v line => return .returned v line
    else return .normal
  | _, .test condition e => do
    match ← start (.eval condition e) with
    | .boolean b => return b
    | .null => step (Run.fail condition.line .nullCondition)
    | _ => step (Run.fail condition.line .nonBooleanCondition)
  | _, .eval (.assign target value line) e => do
    let v ← start (.eval value e)
    step (Run.assign e target v line)
    return v
  | _, .eval (.call receiver name arguments line) e => do
    let receiver ← start (.eval receiver e)
    match arguments with
    | none => start (.call receiver name none line)
    | some es => do
      let vs ← start (.evalAll es e)
      start (.call receiver name (some vs) line)
  | _, .eval (.literal value _) _ => return .ofLiteral value
  | _, .eval (.read s line) e => step (Run.get e s line)
  | _, .eval (.logical op left right line) e => do
    match ← start (.eval left e) with
    | .boolean b =>
      if b = op.settledBy then return .boolean b
      else match ← start (.eval right e) with
        | .boolean b => return .boolean b
        | _ => step (Run.fail line .logicalOperand)
    | _ => step (Run.fail line .logicalOperand)
  | _, .eval (.cls decl) e => do
    let c ← step (makeClass decl e)
    return .cls c
  | _, .evalAll [] _ => return []
  | _, .evalAll (expr :: rest) e => do
    let v ← start (.eval expr e)
    let vs ← start (.evalAll rest e)
    return v :: vs

namespace Plan

/-- A plan without steps answers at once. -/
lemma run_pure (host : Host σ) (fuel : Nat) (a : α) :
    (pure a : Plan σ α).run host fuel = pure a := rfl

/-- A plan of one step does what the step does. -/
lemma run_step (host : Host σ) (fuel : Nat) (x : Run σ α) : (step x).run host fuel = x := by
  funext m
  simp only [step, run, Run.bind, Run.pure]
  cases x m <;> rfl

/-- A plan that starts a task does what the task does. -/
lemma run_start (host : Host σ) (fuel : Nat) (t : Task α) :
    (start t : Plan σ α).run host fuel = t.run host fuel := by
  funext m
  simp only [start, run, Run.bind, Run.pure]
  cases t.run host fuel m <;> rfl

/-- Plans are run one after the other. -/
lemma run_bind (host : Host σ) (fuel : Nat) (p : Plan σ α) (f : α → Plan σ β) :
    (p >>= f).run host fuel = p.run host fuel >>= fun a => (f a).run host fuel := by
  change (p.bind f).run host fuel = Run.bind (p.run host fuel) fun a => (f a).run host fuel
  induction p with
  | done a => rfl
  | act x next ih =>
    funext m
    simp only [Plan.bind, run, Run.bind, ih]
    cases x m <;> rfl
  | sub t next ih =>
    funext m
    simp only [Plan.bind, run, Run.bind, ih]
    cases t.run host fuel m <;> rfl

end Plan

/-- A call with fuel left does what its plan says. -/
lemma Task.run_call_succ (host : Host σ) (fuel : Nat) (receiver : Value) (name : String)
    (arguments : Option (List Value)) (line : Line) :
    (Task.call receiver name arguments line).run host (fuel + 1) =
      ((Task.call receiver name arguments line).plan host).run host fuel := by
  simp only [Task.run, Ember.call, Task.plan]
  cases receiver with
  | cls c =>
    cases h : findMethod? ⟨name, arguments.map List.length⟩ c.decl.constructors with
    | some constructor =>
      simp only [h, Plan.run_bind, Plan.run_step, Plan.run_start, Plan.run_pure, Task.run]
    | none =>
      cases h' : findMethod? ⟨name, arguments.map List.length⟩ c.decl.staticMethods with
      | some m => simp only [h, h', Plan.run_start, Task.run]
      | none => simp only [h, h', Plan.run_step]
  | obj i =>
    cases h : findMethod? ⟨name, arguments.map List.length⟩ i.cls.decl.methods with
    | some m => simp only [h, Plan.run_start, Task.run]
    | none => simp only [h, Plan.run_step]
  | host o =>
    cases h : host.findMethod? o ⟨name, arguments.map List.length⟩ with
    | some m => simp only [h, Plan.run_step]
    | none => simp only [h, Plan.run_step]
  | null | boolean _ | number _ | text _ =>
    dsimp only
    split <;> simp_all only [Plan.run_step]

/-- A statement with fuel left does what its plan says. -/
lemma Task.run_stmt_succ (host : Host σ) (fuel : Nat) (s : Stmt) (e : Environment) :
    (Task.stmt s e).run host (fuel + 1) = ((Task.stmt s e).plan host).run host fuel := by
  cases s with
  | block b => simp only [Task.run, runStmt, Task.plan, Plan.run_start]
  | branch condition yes no line =>
    simp only [Task.run, runStmt, Task.plan, Plan.run_bind, Plan.run_start]
    refine bind_congr fun c => ?_
    split
    · simp only [Plan.run_start, Task.run]
    · cases no <;> simp only [Plan.run_start, Plan.run_pure, Task.run]
  | loop condition inner line => simp only [Task.run, runStmt, Task.plan, Plan.run_start]
  | var s init line =>
    cases init <;> simp only [Task.run, runStmt, Task.plan, Plan.run_bind, Plan.run_start,
      Plan.run_step, Plan.run_pure]
  | ret value line =>
    cases value <;> simp only [Task.run, runStmt, Task.plan, Plan.run_bind, Plan.run_start,
      Plan.run_pure]
  | eval expr =>
    simp only [Task.run, runStmt, Task.plan, Plan.run_bind, Plan.run_start, Plan.run_pure]

/-- An expression with fuel left does what its plan says. -/
lemma Task.run_eval_succ (host : Host σ) (fuel : Nat) (expr : Expr) (e : Environment) :
    (Task.eval expr e).run host (fuel + 1) = ((Task.eval expr e).plan host).run host fuel := by
  cases expr with
  | assign target value line =>
    simp only [Task.run, Ember.eval, Task.plan, Plan.run_bind, Plan.run_start, Plan.run_step,
      Plan.run_pure]
  | call receiver name arguments line =>
    simp only [Task.run, Ember.eval, Task.plan, Plan.run_bind, Plan.run_start]
    refine bind_congr fun v => ?_
    cases arguments <;> simp only [Plan.run_bind, Plan.run_start, Task.run]
  | literal value line => simp only [Task.run, Ember.eval, Task.plan, Plan.run_pure]
  | read s line => simp only [Task.run, Ember.eval, Task.plan, Plan.run_step]
  | logical op left right line =>
    simp only [Task.run, Ember.eval, Task.plan, Plan.run_bind, Plan.run_start]
    refine bind_congr fun v => ?_
    cases v with
    | boolean b =>
      dsimp only
      split
      · simp only [Plan.run_pure]
      · simp only [Plan.run_bind, Plan.run_start, Task.run]
        refine bind_congr fun v => ?_
        cases v <;> simp only [Plan.run_step, Plan.run_pure]
    | null | number _ | text _ | cls _ | obj _ | host _ => simp only [Plan.run_step]
  | cls decl =>
    simp only [Task.run, Ember.eval, Task.plan, Plan.run_bind, Plan.run_step, Plan.run_pure]

/-- A task with fuel left does what its plan says. -/
theorem Task.run_succ (host : Host σ) (fuel : Nat) (t : Task α) :
    t.run host (fuel + 1) = (t.plan host).run host fuel := by
  cases t with
  | call receiver name arguments line => exact run_call_succ host fuel receiver name arguments line
  | body m e arguments =>
    simp only [Task.run, runBody, Task.plan, Plan.run_bind, Plan.run_step, Plan.run_start]
    refine bind_congr fun frame => bind_congr fun _ => bind_congr fun c => ?_
    cases c <;> rfl
  | block b e =>
    simp only [Task.run, runBlock, Task.plan, Plan.run_bind, Plan.run_step, Plan.run_start]
  | stmts ss e =>
    cases ss with
    | nil => simp only [Task.run, runStmts, Task.plan, Plan.run_pure]
    | cons s ss =>
      simp only [Task.run, runStmts, Task.plan, Plan.run_bind, Plan.run_start]
      refine bind_congr fun c => ?_
      cases c <;> simp only [Plan.run_start, Plan.run_pure, Task.run]
  | stmt s e => exact run_stmt_succ host fuel s e
  | loop condition inner e =>
    simp only [Task.run, runLoop, Task.plan, Plan.run_bind, Plan.run_start]
    refine bind_congr fun c => ?_
    split
    · simp only [Plan.run_bind, Plan.run_start, Task.run]
      refine bind_congr fun c => ?_
      cases c <;> simp only [Plan.run_start, Plan.run_pure, Task.run]
    · simp only [Plan.run_pure]
  | test condition e =>
    simp only [Task.run, evalTest, Task.plan, Plan.run_bind, Plan.run_start]
    refine bind_congr fun v => ?_
    cases v <;> simp only [Plan.run_step, Plan.run_pure]
  | eval expr e => exact run_eval_succ host fuel expr e
  | evalAll es e =>
    cases es with
    | nil => simp only [Task.run, Ember.evalAll, Task.plan, Plan.run_pure]
    | cons expr rest =>
      simp only [Task.run, Ember.evalAll, Task.plan, Plan.run_bind, Plan.run_start, Plan.run_pure]

/-! ### What a plan is made of -/

/-- The primitive steps of the interpreter. -/
inductive Run.Primitive (host : Host σ) : {α : Type} → Run σ α → Prop
  | child (e : Environment) : Primitive host (Run.child e)
  | declare (e : Environment) (s : Slot) (v : Value) : Primitive host (Run.declare e s v)
  | declareEach (e : Environment) (ss : List Slot) (vs : List Value) :
      Primitive host (Run.declareEach e ss vs)
  | makeClass (decl : ClassDecl) (e : Environment) : Primitive host (Ember.makeClass decl e)
  | makeClasses (e : Environment) (cs : List (Slot × ClassDecl)) :
      Primitive host (Ember.makeClasses e cs)
  | makeInstance (c : ClassObject) : Primitive host (Ember.makeInstance c)
  | get (e : Environment) (s : Slot) (line : Line) : Primitive host (Run.get e s line)
  | assign (e : Environment) (s : Slot) (v : Value) (line : Line) :
      Primitive host (Run.assign e s v line)
  | ofHost {o : HostHandle} {method : Selector} {run : HostMethod σ}
      (found : host.findMethod? o method = some run) (arguments : List Value) (line : Line) :
      Primitive host (Run.ofHost line run arguments)
  | native {receiver : Value} {method : Selector} {run : NativeMethod}
      (found : ((NativeClass.of? receiver).bind fun c => c.find? method) = some run)
      (arguments : List Value) (line : Line) :
      Primitive host (Run.ofExcept line (run receiver arguments))
  | fail {α : Type} {line : Line} {cause : Failure}
      (ordinary : cause ≠ .returnOutsideMethod ∧ ∀ method, cause ≠ .foreignReceiver method) :
      Primitive host (Run.fail line cause : Run σ α)

/-- The steps of a plan are primitive. -/
def Plan.Primitive (host : Host σ) : Plan σ α → Prop
  | .done _ => True
  | .act x next => x.Primitive host ∧ ∀ b, (next b).Primitive host
  | .sub _ next => ∀ b, (next b).Primitive host

namespace Plan

variable {host : Host σ} {f : α → Plan σ β}

/-- A plan without steps has only primitive ones. -/
lemma primitive_pure (a : α) : (pure a : Plan σ α).Primitive host := trivial

/-- A primitive step makes a primitive plan. -/
lemma primitive_step {x : Run σ α} (h : x.Primitive host) : (step x).Primitive host :=
  ⟨h, fun _ => trivial⟩

/-- What is started is a smaller task, and no step. -/
lemma primitive_start (t : Task α) : (start t : Plan σ α).Primitive host := fun _ => trivial

/-- A primitive step, followed by others. -/
lemma primitive_stepThen {x : Run σ α} (h : x.Primitive host)
    (hf : ∀ a, (f a).Primitive host) : (step x >>= f).Primitive host := ⟨h, hf⟩

/-- A smaller task, followed by primitive steps. -/
lemma primitive_startThen {t : Task α} (hf : ∀ a, (f a).Primitive host) :
    (start t >>= f).Primitive host := hf

/-- An ordinary failure is a primitive step. -/
lemma primitive_fail {line : Line} {cause : Failure}
    (ordinary : cause ≠ .returnOutsideMethod ∧ ∀ method, cause ≠ .foreignReceiver method) :
    (step (Run.fail line cause) : Plan σ α).Primitive host :=
  primitive_step (.fail ordinary)

/-- The steps of a call are primitive. -/
lemma primitive_call (host : Host σ) (receiver : Value) (name : String)
    (arguments : Option (List Value)) (line : Line) :
    ((Task.call receiver name arguments line).plan host).Primitive host := by
  cases receiver with
  | cls c =>
    rw [Task.plan]
    split
    · exact primitive_stepThen (.makeInstance c) fun _ => primitive_startThen fun _ =>
        primitive_pure _
    · split
      · exact primitive_start _
      · exact primitive_fail (by simp)
  | obj i =>
    rw [Task.plan]
    split
    · exact primitive_start _
    · exact primitive_fail (by simp)
  | host o =>
    rw [Task.plan]
    split
    · next found => exact primitive_step (.ofHost found _ _)
    · exact primitive_fail (by simp)
  | null | boolean _ | number _ | text _ =>
    simp only [Task.plan]
    split
    · next found => exact primitive_step (.native found _ _)
    · exact primitive_fail (by simp)

/-- The steps of a statement are primitive. -/
lemma primitive_stmt (host : Host σ) (s : Stmt) (e : Environment) :
    ((Task.stmt s e).plan host).Primitive host := by
  cases s with
  | block b => exact primitive_start _
  | branch condition yes no line =>
    refine primitive_startThen fun c => ?_
    cases c with
    | true => exact primitive_start _
    | false =>
      cases no with
      | none => exact primitive_pure _
      | some no => exact primitive_start _
  | loop condition inner line => exact primitive_start _
  | var s init line =>
    have declared (v : Value) : (do
        step (Run.declare e s v)
        return Completion.normal : Plan σ Completion).Primitive host :=
      primitive_stepThen (.declare e s v) fun _ => primitive_pure _
    cases init with
    | none => exact declared .null
    | some init => exact primitive_startThen declared
  | ret value line =>
    cases value with
    | none => exact primitive_pure _
    | some value => exact primitive_startThen fun _ => primitive_pure _
  | eval expr => exact primitive_startThen fun _ => primitive_pure _

/-- The steps of an expression are primitive. -/
lemma primitive_eval (host : Host σ) (expr : Expr) (e : Environment) :
    ((Task.eval expr e).plan host).Primitive host := by
  cases expr with
  | assign target value line =>
    exact primitive_startThen fun v => primitive_stepThen (.assign e target v line) fun _ =>
      primitive_pure _
  | call receiver name arguments line =>
    refine primitive_startThen fun v => ?_
    cases arguments with
    | none => exact primitive_start _
    | some es => exact primitive_startThen fun _ => primitive_start _
  | literal value line => exact primitive_pure _
  | read s line => exact primitive_step (.get e s line)
  | logical op left right line =>
    refine primitive_startThen fun v => ?_
    cases v with
    | boolean b =>
      dsimp only
      split
      · exact primitive_pure _
      · refine primitive_startThen fun v => ?_
        cases v with
        | boolean b => exact primitive_pure _
        | null | number _ | text _ | cls _ | obj _ | host _ => exact primitive_fail (by simp)
    | null | number _ | text _ | cls _ | obj _ | host _ => exact primitive_fail (by simp)
  | cls decl => exact primitive_stepThen (.makeClass decl e) fun _ => primitive_pure _

end Plan

open Plan in
/-- All that a task does by itself are primitive steps. -/
theorem Task.primitive_plan (host : Host σ) (t : Task α) : (t.plan host).Primitive host := by
  cases t with
  | call receiver name arguments line => exact primitive_call host receiver name arguments line
  | body m e arguments =>
    refine primitive_stepThen (.child e) fun _ => primitive_stepThen (.declareEach _ _ _) fun _ =>
      primitive_startThen fun c => ?_
    cases c with
    | normal => exact primitive_pure _
    | returned v line => exact primitive_pure _
  | block b e =>
    exact primitive_stepThen (.child e) fun _ => primitive_stepThen (.makeClasses _ _) fun _ =>
      primitive_start _
  | stmts ss e =>
    cases ss with
    | nil => exact primitive_pure _
    | cons s ss =>
      refine primitive_startThen fun c => ?_
      cases c with
      | normal => exact primitive_start _
      | returned v line => exact primitive_pure _
  | stmt s e => exact primitive_stmt host s e
  | loop condition inner e =>
    refine primitive_startThen fun c => ?_
    cases c with
    | false => exact primitive_pure _
    | true =>
      refine primitive_startThen fun c => ?_
      cases c with
      | normal => exact primitive_start _
      | returned v line => exact primitive_pure _
  | test condition e =>
    refine primitive_startThen fun v => ?_
    cases v with
    | boolean b => exact primitive_pure _
    | null | number _ | text _ | cls _ | obj _ | host _ => exact primitive_fail (by simp)
  | eval expr e => exact primitive_eval host expr e
  | evalAll es e =>
    cases es with
    | nil => exact primitive_pure _
    | cons expr rest =>
      exact primitive_startThen fun _ => primitive_startThen fun _ => primitive_pure _

/-! ### What a run visits -/

/-- A task that is about to be performed on a machine. -/
structure Activity (σ : Type) where
  {α : Type}
  fuel : Nat
  task : Task α
  machine : Machine σ

/-- The tasks that a plan starts, with the fuel and on the machine that each of
them finds. -/
inductive Plan.Starts (host : Host σ) (fuel : Nat) :
    {α : Type} → Plan σ α → Machine σ → Activity σ → Prop where
  | here {α β : Type} (t : Task β) (next : β → Plan σ α) (m : Machine σ) :
      Plan.Starts host fuel (.sub t next) m ⟨fuel, t, m⟩
  | afterAct {α β : Type} {x : Run σ β} {next : β → Plan σ α} {m m' : Machine σ} {b : β}
      {a : Activity σ} (h : x m = .done b m') (later : Plan.Starts host fuel (next b) m' a) :
      Plan.Starts host fuel (.act x next) m a
  | afterSub {α β : Type} {t : Task β} {next : β → Plan σ α} {m m' : Machine σ} {b : β}
      {a : Activity σ} (h : t.run host fuel m = .done b m')
      (later : Plan.Starts host fuel (next b) m' a) :
      Plan.Starts host fuel (.sub t next) m a

/-- An activity with fuel left starts what its plan starts. -/
def Activity.Starts (host : Host σ) (a b : Activity σ) : Prop :=
  ∃ fuel, a.fuel = fuel + 1 ∧ (a.task.plan host).Starts host fuel a.machine b

/-- Everything that is started in the course of an activity, itself included. -/
def Activity.Visits (host : Host σ) : Activity σ → Activity σ → Prop :=
  Relation.ReflTransGen (Activity.Starts host)

/-- The activities that a plan starts, in their order. -/
def Plan.started (host : Host σ) (fuel : Nat) :
    Plan σ α → Machine σ → List (Activity σ)
  | .done _, _ => []
  | .act x next, m =>
    match x m with
    | .done b m' => (next b).started host fuel m'
    | .failed _ _ | .exhausted => []
  | .sub t next, m =>
    ⟨fuel, t, m⟩ :: match t.run host fuel m with
      | .done b m' => (next b).started host fuel m'
      | .failed _ _ | .exhausted => []

/-- Everything that is started in the course of a task, itself included. -/
def Task.visited (host : Host σ) :
    (fuel : Nat) → {α : Type} → Task α → Machine σ → List (Activity σ)
  | 0, _, t, m => [⟨0, t, m⟩]
  | fuel + 1, _, t, m =>
    ⟨fuel + 1, t, m⟩ :: ((t.plan host).started host fuel m).flatMap fun b =>
      b.task.visited host fuel b.machine

/-- What a plan starts is listed, with the fuel of the plan. -/
lemma Plan.Starts.mem_started {host : Host σ} {fuel : Nat} {p : Plan σ α} {m : Machine σ}
    {b : Activity σ} (starts : p.Starts host fuel m b) :
    b.fuel = fuel ∧ b ∈ p.started host fuel m := by
  induction starts with
  | here t next m =>
    rw [Plan.started]
    exact ⟨rfl, List.mem_cons_self ..⟩
  | afterAct h _ ih =>
    rw [Plan.started, h]
    exact ih
  | afterSub h _ ih =>
    rw [Plan.started, h]
    exact ⟨ih.1, List.mem_cons_of_mem _ ih.2⟩

/-- What a run visits can be listed. -/
lemma Activity.Visits.mem_visited {host : Host σ} {a b : Activity σ} (visits : a.Visits host b) :
    b ∈ a.task.visited host a.fuel a.machine := by
  induction visits using Relation.ReflTransGen.head_induction_on with
  | refl =>
    obtain ⟨fuel, t, m⟩ := b
    cases fuel <;> exact List.mem_cons_self ..
  | @head a c starts _ ih =>
    obtain ⟨_, t, m⟩ := a
    obtain ⟨fuel, rfl, starts⟩ := starts
    obtain ⟨rfl, started⟩ := starts.mem_started
    exact List.mem_cons_of_mem _ (List.mem_flatMap_of_mem started ih)

/-! ### What a run keeps -/

/-- A property of machines that steps keep, in worlds that only grow: when a
machine fits a world, which tasks may be started in it with which promise about
their answers, and what a task may be blamed for when a step of it fails. -/
structure Discipline (σ W : Type) where
  Holds : W → Machine σ → Prop
  Allows : W → {α : Type} → Task α → (W → α → Prop) → Prop
  Blames : W → {α : Type} → Task α → RuntimeError → Machine σ → Prop

namespace Discipline

variable {W : Type} [Preorder W] {D : Discipline σ W} {host : Host σ} {root : Activity σ}

/-- A plan keeps a discipline on a machine: where it starts a smaller task the
machine fits a world that allows the task, and where it ends the answer is as
promised. In between the machine need not fit. -/
def Keeps (D : Discipline σ W) (blame : W → RuntimeError → Machine σ → Prop) :
    Plan σ α → W → Machine σ → (W → α → Prop) → Prop
  | .done a, w, m, Q => ∃ w', w ≤ w' ∧ D.Holds w' m ∧ Q w' a
  | .act x next, w, m, Q =>
    match x m with
    | .done b m' => D.Keeps blame (next b) w m' Q
    | .failed err m' => blame w err m'
    | .exhausted => True
  | .sub t next, w, m, Q =>
    ∃ w' Q', w ≤ w' ∧ D.Holds w' m ∧ D.Allows w' t Q' ∧
      ∀ w'' m' b, w' ≤ w'' → D.Holds w'' m' → Q' w'' b → D.Keeps blame (next b) w'' m' Q

/-- What becomes of a step that starts in a world: its answer is as promised in
a later world, or some task that was started fails in the same way and is to
blame for it. -/
def Ends (D : Discipline σ W) (host : Host σ) (root : Activity σ) (w : W) (Q : W → α → Prop) :
    Outcome σ α → Prop
  | .done a m => ∃ w', w ≤ w' ∧ D.Holds w' m ∧ Q w' a
  | .failed err m =>
    ∃ (b : Activity σ) (w' : W), root.Visits host b ∧
      b.task.run host b.fuel b.machine = .failed err m ∧ D.Blames w' b.task err m
  | .exhausted => True

/-- The same, with the task that is to blame in a world later than the first. -/
def EndsAbove (D : Discipline σ W) (host : Host σ) (root : Activity σ) (w : W) (Q : W → α → Prop) :
    Outcome σ α → Prop
  | .done a m => ∃ w', w ≤ w' ∧ D.Holds w' m ∧ Q w' a
  | .failed err m =>
    ∃ (b : Activity σ) (w' : W), w ≤ w' ∧ root.Visits host b ∧
      b.task.run host b.fuel b.machine = .failed err m ∧ D.Blames w' b.task err m
  | .exhausted => True

/-- Every task that is allowed where the run comes to it keeps the discipline. -/
def Kept (D : Discipline σ W) (host : Host σ) (root : Activity σ) : Prop :=
  ∀ {α : Type} (fuel : Nat) (t : Task α) (w : W) (Q : W → α → Prop) (m : Machine σ),
    root.Visits host ⟨fuel + 1, t, m⟩ → D.Allows w t Q → D.Holds w m →
      D.Keeps (fun w' => D.Blames w' t) (t.plan host) w m Q

/-- What ends above a later state ends above an earlier one. -/
lemma EndsAbove.mono {w₀ w : W} (h : w₀ ≤ w) {Q : W → α → Prop} {o : Outcome σ α}
    (ends : D.EndsAbove host root w Q o) : D.EndsAbove host root w₀ Q o := by
  cases o with
  | done a m =>
    obtain ⟨w', hw, holds, hq⟩ := ends
    exact ⟨w', le_trans h hw, holds, hq⟩
  | failed err m =>
    obtain ⟨b, w', hw, blamed⟩ := ends
    exact ⟨b, w', le_trans h hw, blamed⟩
  | exhausted => trivial

/-- What ends above a state ends. -/
lemma EndsAbove.ends {w : W} {Q : W → α → Prop} {o : Outcome σ α}
    (ends : D.EndsAbove host root w Q o) : D.Ends host root w Q o := by
  cases o with
  | done a m => exact ends
  | failed err m =>
    obtain ⟨b, w', -, blamed⟩ := ends
    exact ⟨b, w', blamed⟩
  | exhausted => trivial

/-- Less may be said of whom is to blame. -/
lemma Keeps.imp_blame {blame blame' : W → RuntimeError → Machine σ → Prop}
    (h : ∀ w err m, blame w err m → blame' w err m) {p : Plan σ α} {w : W} {m : Machine σ}
    {Q : W → α → Prop} (keeps : D.Keeps blame p w m Q) : D.Keeps blame' p w m Q := by
  induction p generalizing w m with
  | done a => exact keeps
  | act x next ih =>
    simp only [Keeps] at keeps ⊢
    cases hx : x m with
    | done b m' =>
      rw [hx] at keeps
      exact ih b keeps
    | failed err m' =>
      rw [hx] at keeps
      exact h w err m' keeps
    | exhausted => trivial
  | sub t next ih =>
    obtain ⟨w', Q', hw, holds, allowed, later⟩ := keeps
    exact ⟨w', Q', hw, holds, allowed, fun w'' m' b hw' holds' hq =>
      ih b (later w'' m' b hw' holds' hq)⟩

/-- Whom a discipline blames does not matter to a plan, but for its own task. -/
lemma Keeps.withBlames (B : W → {α : Type} → Task α → RuntimeError → Machine σ → Prop)
    {blame : W → RuntimeError → Machine σ → Prop} {p : Plan σ α} {w : W} {m : Machine σ}
    {Q : W → α → Prop} (keeps : D.Keeps blame p w m Q) :
    ({ D with Blames := B } : Discipline σ W).Keeps blame p w m Q := by
  induction p generalizing w m with
  | done a => exact keeps
  | act x next ih =>
    simp only [Keeps] at keeps ⊢
    cases hx : x m with
    | done b m' =>
      rw [hx] at keeps
      exact ih b keeps
    | failed err m' =>
      rw [hx] at keeps
      exact keeps
    | exhausted => trivial
  | sub t next ih =>
    obtain ⟨w', Q', hw, holds, allowed, later⟩ := keeps
    exact ⟨w', Q', hw, holds, allowed, fun w'' m' b hw' holds' hq =>
      ih b (later w'' m' b hw' holds' hq)⟩

/-! ### The plans of a discipline -/

variable {blame : W → RuntimeError → Machine σ → Prop} {w w' : W} {m : Machine σ}

/-- A plan that is done keeps its promise. -/
lemma Keeps.pure {Q : W → α → Prop} {a : α} (hw : w ≤ w') (holds : D.Holds w' m) (answer : Q w' a) :
    D.Keeps blame (Pure.pure a : Plan σ α) w m Q := ⟨w', hw, holds, answer⟩

/-- A primitive step that succeeds leaves the rest of the plan to be kept. -/
lemma Keeps.step {x : Run σ α} {f : α → Plan σ β} {Q : W → β → Prop} {a : α} {m' : Machine σ}
    (h : x m = .done a m') (next : D.Keeps blame (f a) w m' Q) :
    D.Keeps blame (Plan.step x >>= f) w m Q := by
  change D.Keeps blame (.act x f) w m Q
  simp only [Keeps, h]
  exact next

/-- A primitive step that answers for the whole plan. -/
lemma Keeps.finish {x : Run σ α} {Q : W → α → Prop} {a : α} {m' : Machine σ}
    (h : x m = .done a m') (hw : w ≤ w') (holds : D.Holds w' m') (answer : Q w' a) :
    D.Keeps blame (Plan.step x) w m Q := by
  simp only [Plan.step, Keeps, h]
  exact ⟨w', hw, holds, answer⟩

/-- A primitive step that fails is to blame on the task. -/
lemma Keeps.fail {x : Run σ α} {Q : W → α → Prop} {err : RuntimeError} {m' : Machine σ}
    (h : x m = .failed err m') (blamed : blame w err m') : D.Keeps blame (Plan.step x) w m Q := by
  simp only [Plan.step, Keeps, h]
  exact blamed

/-- A plan fails where its first step does. -/
lemma Keeps.failFirst {x : Run σ α} {f : α → Plan σ β} {Q : W → β → Prop} {err : RuntimeError}
    {m' : Machine σ} (h : x m = .failed err m') (blamed : blame w err m') :
    D.Keeps blame (Plan.step x >>= f) w m Q := by
  change D.Keeps blame (.act x f) w m Q
  simp only [Keeps, h]
  exact blamed

/-- A smaller task, followed by others. -/
lemma Keeps.start {t : Task α} {f : α → Plan σ β} {Q : W → β → Prop} (Q' : W → α → Prop)
    (hw : w ≤ w') (holds : D.Holds w' m) (allowed : D.Allows w' t Q')
    (next : ∀ w'' m' a, w' ≤ w'' → D.Holds w'' m' → Q' w'' a → D.Keeps blame (f a) w'' m' Q) :
    D.Keeps blame (Plan.start t >>= f) w m Q := ⟨w', Q', hw, holds, allowed, next⟩

/-- A smaller task that answers for the whole plan. -/
lemma Keeps.last {t : Task α} {Q : W → α → Prop} (hw : w ≤ w') (holds : D.Holds w' m)
    (allowed : D.Allows w' t Q) : D.Keeps blame (Plan.start t) w m Q :=
  ⟨w', Q, hw, holds, allowed, fun w'' _ _ _ holds answer => ⟨w'', le_refl w'', holds, answer⟩⟩

/-! ### Whole runs -/

/-- A plan that keeps a discipline ends well, if all that it starts does. -/
lemma Keeps.endsAbove {fuel : Nat} {t₀ : Task β} {m₀ : Machine σ} {w₀ : W}
    (visited : root.Visits host ⟨fuel + 1, t₀, m₀⟩)
    (ih : ∀ {α : Type} (t : Task α) (w : W) (Q : W → α → Prop) (m : Machine σ),
      root.Visits host ⟨fuel, t, m⟩ → D.Allows w t Q → D.Holds w m →
        D.EndsAbove host root w Q (t.run host fuel m))
    (p : Plan σ α) {w : W} {m : Machine σ} {Q : W → α → Prop} (later : w₀ ≤ w)
    (reached : ∀ b, p.Starts host fuel m b → root.Visits host b)
    (fails : ∀ err m', p.run host fuel m = .failed err m' →
      t₀.run host (fuel + 1) m₀ = .failed err m')
    (keeps : D.Keeps (fun w' => D.Blames w' t₀) p w m Q) :
    D.EndsAbove host root w₀ Q (p.run host fuel m) := by
  induction p generalizing w m with
  | done a =>
    obtain ⟨w', hw, holds, hq⟩ := keeps
    exact ⟨w', le_trans later hw, holds, hq⟩
  | act x next ih' =>
    simp only [Keeps, Plan.run, Run.bind] at fails keeps ⊢
    cases hx : x m with
    | done b m' =>
      rw [hx] at fails keeps
      exact ih' b later (fun c hc => reached c (.afterAct hx hc)) fails keeps
    | failed err m' =>
      rw [hx] at fails keeps
      exact ⟨_, w, later, visited, fails err m' rfl, keeps⟩
    | exhausted => trivial
  | sub t next ih' =>
    obtain ⟨w', Q', hw, holds, allowed, next⟩ := keeps
    have ends := ih t w' Q' m (reached _ (.here t _ m)) allowed holds
    simp only [Plan.run, Run.bind] at fails ⊢
    cases ht : t.run host fuel m with
    | done b m' =>
      rw [ht] at fails ends
      obtain ⟨w'', hw', holds', hq⟩ := ends
      exact ih' b (later.trans (hw.trans hw')) (fun c hc => reached c (.afterSub ht hc)) fails
        (next w'' m' b hw' holds' hq)
    | failed err m' =>
      rw [ht] at ends
      exact EndsAbove.mono (D := D) (later.trans hw) ends
    | exhausted => trivial

/-- Every task that the run comes to and that is allowed there ends well. -/
theorem Kept.endsAbove (kept : D.Kept host root) (fuel : Nat) :
    ∀ {α : Type} (t : Task α) (w : W) (Q : W → α → Prop) (m : Machine σ),
      root.Visits host ⟨fuel, t, m⟩ → D.Allows w t Q → D.Holds w m →
        D.EndsAbove host root w Q (t.run host fuel m) := by
  induction fuel with
  | zero =>
    intro α t w Q m _ _ _
    rw [Task.run_zero]
    trivial
  | succ fuel ih =>
    intro α t w Q m visited allowed holds
    rw [Task.run_succ]
    refine Keeps.endsAbove visited ih (t.plan host) (le_refl w) (fun b hb => ?_)
      (fun err m' failed => ?_) (kept fuel t w Q m visited allowed holds)
    · exact visited.tail ⟨fuel, rfl, hb⟩
    · rw [Task.run_succ]
      exact failed

/-- If every plan keeps a discipline then every task that is started ends as promised. -/
theorem Kept.ends (kept : D.Kept host root) (fuel : Nat) {α : Type} (t : Task α) (w : W)
    (Q : W → α → Prop) (m : Machine σ) (visited : root.Visits host ⟨fuel, t, m⟩)
    (allowed : D.Allows w t Q) (holds : D.Holds w m) :
    D.Ends host root w Q (t.run host fuel m) :=
  (kept.endsAbove fuel t w Q m visited allowed holds).ends

/-- What a plan that keeps a discipline starts is allowed where it starts. -/
lemma Keeps.allows (kept : D.Kept host root) {fuel : Nat} {p : Plan σ α} {b : Activity σ}
    (starts : p.Starts host fuel m b) {Q : W → α → Prop}
    (reached : ∀ b, p.Starts host fuel m b → root.Visits host b)
    (keeps : D.Keeps blame p w m Q) :
    ∃ (w' : W) (Q' : W → b.α → Prop), D.Allows w' b.task Q' ∧ D.Holds w' b.machine := by
  induction starts generalizing w with
  | here t next m =>
    obtain ⟨w', Q', _, holds, allowed, _⟩ := keeps
    exact ⟨w', Q', allowed, holds⟩
  | afterAct hx later ih =>
    simp only [Keeps, hx] at keeps
    exact ih (fun c hc => reached c (.afterAct hx hc)) keeps
  | afterSub ht later ih =>
    obtain ⟨w', Q', _, holds, allowed, next⟩ := keeps
    have e := Kept.ends kept fuel _ w' Q' _ (reached _ (.here _ _ _)) allowed holds
    rw [ht] at e
    obtain ⟨w'', hw, holds', hq⟩ := e
    exact ih (fun c hc => reached c (.afterSub ht hc)) (next w'' _ _ hw holds' hq)

/-- Whatever a run starts is allowed where it starts, if the run itself is. -/
theorem Kept.allows (kept : D.Kept host root) {w : W} {Q : W → root.α → Prop}
    (allowed : D.Allows w root.task Q) (holds : D.Holds w root.machine) {b : Activity σ}
    (visited : root.Visits host b) :
    ∃ (w' : W) (Q' : W → b.α → Prop), D.Allows w' b.task Q' ∧ D.Holds w' b.machine := by
  induction visited with
  | refl => exact ⟨w, Q, allowed, holds⟩
  | @tail b c visited starts ih =>
    obtain ⟨w', Q', allowed', holds'⟩ := ih
    obtain ⟨fuel, hf, starts⟩ := starts
    obtain ⟨bf, t, m⟩ := b
    cases hf
    exact Keeps.allows kept starts (fun d hd => visited.tail ⟨fuel, rfl, hd⟩)
      (kept fuel t w' Q' m visited allowed' holds')

end Discipline

end Ember
