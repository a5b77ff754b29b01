/-
Reports written as they are made, and the pass over returns that writes them.

* `Reporting`: a step that may add to the reports made so far, and sees all of them;
* `Reporting.Adds`: a step adds the same reports whatever has been reported before, with
  the rules that put steps together;
* `Seen`: what a body belongs to, with what has been seen of its returns;
* `Expr.checkReturns`, `Stmt.checkReturns` and their companions: the walk that looks for
  misplaced returns and reports each where it comes upon it;
* `checkReturns_adds`: the walk adds the mistakes in the returns of a program.
-/
import Mathlib
import Ember.Flow.ReturnShape

namespace Ember

/-! ### Reporting -/

/-- A step that may report something. It has all that was reported before in hand. -/
abbrev Reporting := StateM (List Diagnostic)

namespace Reporting

variable {α β : Type}

/-- Makes a report. -/
def report (d : Diagnostic) : Reporting Unit := modify fun bag => bag ++ [d]

/-- What a step reports when nothing has been reported before. -/
def alone (x : Reporting α) : List Diagnostic := (StateT.run x []).2

/-- A step answers `a` and adds `ds`, whatever has been reported before. -/
def Adds (x : Reporting α) (a : α) (ds : List Diagnostic) : Prop :=
  ∀ bag : List Diagnostic, StateT.run x bag = (a, bag ++ ds)

/-- A result that is at hand adds no report. -/
lemma adds_pure (a : α) : Adds (pure a) a [] := fun bag => by rw [List.append_nil]; rfl

/-- A report adds itself. -/
lemma adds_report (d : Diagnostic) : Adds (report d) () [d] := fun _ => rfl

/-- What one step adds comes before what the next one adds. -/
lemma Adds.bind {x : Reporting α} {f : α → Reporting β} {a : α} {b : β} {ds es : List Diagnostic}
    (hx : x.Adds a ds) (hf : (f a).Adds b es) : (x >>= f).Adds b (ds ++ es) := by
  intro bag
  have first : StateT.run (x >>= f) bag =
      StateT.run (f (StateT.run x bag).1) (StateT.run x bag).2 := rfl
  rw [first, hx bag, ← List.append_assoc]
  exact hf (bag ++ ds)

/-- A step whose answer is not what matters. -/
lemma Adds.andReturn {x : Reporting α} {a : α} {ds : List Diagnostic} (hx : x.Adds a ds) (b : β) :
    (do let _ ← x; return b : Reporting β).Adds b ds := by
  rw [← List.append_nil ds]
  exact hx.bind (adds_pure b)

/-- A step that makes a report on a condition. -/
lemma adds_reportIf (c : Prop) [Decidable c] (d : Diagnostic) :
    Adds (if c then report d else pure ()) () (if c then [d] else []) := by
  split
  · exact adds_report d
  · exact adds_pure ()

/-- A step that adds reports to any others adds those that it makes by itself. -/
lemma Adds.alone_eq {x : Reporting α} {a : α} {ds : List Diagnostic} (h : x.Adds a ds) :
    x.alone = ds := by rw [alone, h, List.nil_append]

end Reporting

namespace Program

open Reporting

/-! ### The walk -/

/-- What a body belongs to. Of a method's body, it is noted which returns have been seen. -/
inductive Seen where
  | script
  | constructor
  | method (value nothing : Bool)

namespace Seen

/-- What the body belongs to. -/
def role : Seen → Role
  | script => .script
  | constructor => .constructor
  | method _ _ => .method

/-- More returns have been seen. -/
def note (value nothing : Bool) : Seen → Seen
  | method v n => method (v || value) (n || nothing)
  | seen => seen

/-- What has been seen does not change whose body it is. -/
@[simp] lemma role_note (value nothing : Bool) (seen : Seen) :
    (seen.note value nothing).role = seen.role := by cases seen <;> rfl

/-- Nothing is seen where nothing is returned. -/
@[simp] lemma note_false (seen : Seen) : seen.note false false = seen := by
  cases seen <;> simp [note]

/-- What is seen in one part and in another is seen in both together. -/
lemma note_note (v n v' n' : Bool) (seen : Seen) :
    (seen.note v n).note v' n' = seen.note (v || v') (n || n') := by
  cases seen <;> simp [note, Bool.or_assoc]

/-- Comes upon a return. -/
def ret (hasValue : Bool) (line : Line) : Seen → Reporting Seen
  | script => do
    report (ReturnProblem.atTopLevel line).diagnostic
    return script
  | constructor => do
    if hasValue then report (ReturnProblem.valueFromConstructor line).diagnostic
    return constructor
  | method value nothing =>
    return if hasValue then method true nothing else method value true

/-- Comes to the end of a method. -/
def finish (name : String) (body : Block) (line : Line) : Seen → Reporting Unit
  | method true nothing =>
    if nothing || body.completes then report (ReturnProblem.mixed name line).diagnostic
    else return
  | _ => return

end Seen

mutual

/-- The walk over an expression, for the classes made within it. -/
def Expr.checkReturns : Expr → Reporting Unit
  | .assign _ value _ => value.checkReturns
  | .call receiver _ arguments _ => do
    receiver.checkReturns
    match arguments with
    | none => return
    | some es => checkExprReturns es
  | .literal _ _ | .read _ _ => return
  | .logical _ left right _ => do
    left.checkReturns
    right.checkReturns
  | .cls decl => decl.checkReturns

/-- The walk over expressions, from left to right. -/
def checkExprReturns : List Expr → Reporting Unit
  | [] => return
  | e :: es => do
    e.checkReturns
    checkExprReturns es

/-- The walk over a statement. -/
def Stmt.checkReturns (seen : Seen) : Stmt → Reporting Seen
  | .block body => body.checkReturns seen
  | .branch condition yes no _ => do
    condition.checkReturns
    let seen ← yes.checkReturns seen
    match no with
    | none => return seen
    | some s => s.checkReturns seen
  | .loop condition body _ => do
    condition.checkReturns
    body.checkReturns seen
  | .var _ init _ => do
    match init with
    | none => return seen
    | some e => do
      e.checkReturns
      return seen
  | .ret value line => do
    match value with
    | none => seen.ret false line
    | some e => do
      e.checkReturns
      seen.ret true line
  | .eval e => do
    e.checkReturns
    return seen

/-- The walk over statements, in order. -/
def checkStmtReturns (seen : Seen) : List Stmt → Reporting Seen
  | [] => return seen
  | s :: ss => do
    let seen ← s.checkReturns seen
    checkStmtReturns seen ss

/-- The walk over a block, its classes first. -/
def Block.checkReturns (seen : Seen) : Block → Reporting Seen
  | ⟨statements, _, classes⟩ => do
    checkClassReturns classes
    checkStmtReturns seen statements

/-- The walk over the classes of a block. -/
def checkClassReturns : List (Slot × ClassDecl) → Reporting Unit
  | [] => return
  | (_, c) :: cs => do
    c.checkReturns
    checkClassReturns cs

/-- The walk over the bodies of a class. -/
def ClassDecl.checkReturns : ClassDecl → Reporting Unit
  | ⟨_, _, _, _, constructors, staticMethods, methods, _, _⟩ => do
    checkConstructorReturns constructors
    checkMethodReturns staticMethods
    checkMethodReturns methods

/-- The walk over constructors. -/
def checkConstructorReturns : List Method → Reporting Unit
  | [] => return
  | ⟨_, _, _, body, _⟩ :: ms => do
    let _ ← body.checkReturns .constructor
    checkConstructorReturns ms

/-- The walk over methods, each judged as a whole at its end. -/
def checkMethodReturns : List Method → Reporting Unit
  | [] => return
  | ⟨name, _, _, body, line⟩ :: ms => do
    let seen ← body.checkReturns (.method false false)
    seen.finish name body line
    checkMethodReturns ms

end

/-! ### What the walk reports -/

/-- The reports of mistakes. -/
def returnReports (ps : List ReturnProblem) : List Diagnostic := ps.map ReturnProblem.diagnostic

/-- Each mistake is reported on its own. -/
@[simp] lemma returnReports_append (ps qs : List ReturnProblem) :
    returnReports (ps ++ qs) = returnReports ps ++ returnReports qs := List.map_append

/-- A return is noted, and reported where it is misplaced. -/
lemma Seen.adds_ret (seen : Seen) (hasValue : Bool) (line : Line) :
    (seen.ret hasValue line).Adds (seen.note hasValue !hasValue)
      (returnReports (seen.role.returnProblems hasValue line)) := by
  cases seen with
  | script => exact (adds_report _).bind (adds_pure _)
  | constructor =>
    cases hasValue with
    | false => exact adds_pure _
    | true => exact (adds_report _).bind (adds_pure _)
  | method value nothing => cases hasValue <;> simp [ret, note, role, Role.returnProblems,
      returnReports, adds_pure]

/-- A method is judged by the returns in its body and by whether it may end without one. -/
lemma Seen.adds_finish (name : String) (body : Block) (line : Line) :
    ((Seen.method body.returnsValue body.returnsNothing).finish name body line).Adds ()
      (returnReports (if body.mixesReturns then [.mixed name line] else [])) := by
  rw [Block.mixesReturns]
  cases body.returnsValue with
  | false => exact adds_pure _
  | true =>
    rw [Bool.true_and, apply_ite returnReports]
    exact adds_reportIf _ _

mutual

/-- The walk adds the mistakes in an expression to any other reports. -/
theorem Expr.checkReturns_adds : (e : Expr) →
    e.checkReturns.Adds () (returnReports e.returnProblems)
  | .assign _ value _ => by
    rw [Expr.checkReturns, Expr.returnProblems]
    exact value.checkReturns_adds
  | .call receiver _ none _ => by
    rw [Expr.checkReturns, Expr.returnProblems, returnReports_append]
    exact receiver.checkReturns_adds.bind (adds_pure ())
  | .call receiver _ (some es) _ => by
    rw [Expr.checkReturns, Expr.returnProblems, returnReports_append]
    exact receiver.checkReturns_adds.bind (checkExprReturns_adds es)
  | .literal _ _ | .read _ _ => adds_pure ()
  | .logical _ left right _ => by
    rw [Expr.checkReturns, Expr.returnProblems, returnReports_append]
    exact left.checkReturns_adds.bind right.checkReturns_adds
  | .cls decl => by
    rw [Expr.checkReturns, Expr.returnProblems]
    exact decl.checkReturns_adds

/-- The walk over expressions reports their mistakes in order. -/
theorem checkExprReturns_adds : (es : List Expr) →
    (checkExprReturns es).Adds () (returnReports (exprReturnProblems es))
  | [] => adds_pure ()
  | e :: es => by
    rw [checkExprReturns, exprReturnProblems, returnReports_append]
    exact e.checkReturns_adds.bind (checkExprReturns_adds es)

/-- The walk over a statement reports by what the body belongs to, not by the returns seen
so far, which it only adds to. -/
theorem Stmt.checkReturns_adds (seen : Seen) : (s : Stmt) →
    (s.checkReturns seen).Adds (seen.note s.returnsValue s.returnsNothing)
      (returnReports (s.returnProblems seen.role))
  | .block body => by
    rw [Stmt.checkReturns, Stmt.returnProblems, Stmt.returnsValue, Stmt.returnsNothing]
    exact body.checkReturns_adds seen
  | .branch condition yes none _ => by
    rw [Stmt.checkReturns, Stmt.returnProblems, returnReports_append, returnReports_append,
      List.append_assoc, Stmt.returnsValue, Stmt.returnsNothing, Bool.or_false, Bool.or_false]
    exact condition.checkReturns_adds.bind ((yes.checkReturns_adds seen).bind (adds_pure _))
  | .branch condition yes (some no) _ => by
    rw [Stmt.checkReturns, Stmt.returnProblems, returnReports_append, returnReports_append,
      List.append_assoc, Stmt.returnsValue, Stmt.returnsNothing, ← Seen.note_note]
    have other := no.checkReturns_adds (seen.note yes.returnsValue yes.returnsNothing)
    rw [Seen.role_note] at other
    exact condition.checkReturns_adds.bind ((yes.checkReturns_adds seen).bind other)
  | .loop condition body _ => by
    rw [Stmt.checkReturns, Stmt.returnProblems, returnReports_append, Stmt.returnsValue,
      Stmt.returnsNothing]
    exact condition.checkReturns_adds.bind (body.checkReturns_adds seen)
  | .var _ none _ => by
    rw [Stmt.checkReturns, Stmt.returnsValue, Stmt.returnsNothing, Seen.note_false]
    exact adds_pure seen
  | .var _ (some e) _ => by
    rw [Stmt.checkReturns, Stmt.returnProblems, Stmt.returnsValue, Stmt.returnsNothing,
      Seen.note_false]
    exact e.checkReturns_adds.andReturn seen
  | .ret none line => by
    rw [Stmt.checkReturns, Stmt.returnProblems, Stmt.returnsValue, Stmt.returnsNothing,
      List.nil_append]
    exact seen.adds_ret false line
  | .ret (some e) line => by
    rw [Stmt.checkReturns, Stmt.returnProblems, returnReports_append, Stmt.returnsValue,
      Stmt.returnsNothing]
    exact e.checkReturns_adds.bind (seen.adds_ret true line)
  | .eval e => by
    rw [Stmt.checkReturns, Stmt.returnProblems, Stmt.returnsValue, Stmt.returnsNothing,
      Seen.note_false]
    exact e.checkReturns_adds.andReturn seen

/-- The walk over statements reports their mistakes in order, and has seen what they return. -/
theorem checkStmtReturns_adds (seen : Seen) : (ss : List Stmt) →
    (checkStmtReturns seen ss).Adds (seen.note (anyReturnsValue ss) (anyReturnsNothing ss))
      (returnReports (stmtReturnProblems seen.role ss))
  | [] => by
    rw [checkStmtReturns, anyReturnsValue, anyReturnsNothing, Seen.note_false]
    exact adds_pure seen
  | s :: ss => by
    rw [checkStmtReturns, stmtReturnProblems, returnReports_append, anyReturnsValue,
      anyReturnsNothing, ← Seen.note_note]
    have rest := checkStmtReturns_adds (seen.note s.returnsValue s.returnsNothing) ss
    rw [Seen.role_note] at rest
    exact (s.checkReturns_adds seen).bind rest

/-- The walk over a block reports its mistakes in order, and has seen what its statements
return. -/
theorem Block.checkReturns_adds (seen : Seen) : (b : Block) →
    (b.checkReturns seen).Adds (seen.note b.returnsValue b.returnsNothing)
      (returnReports (b.returnProblems seen.role))
  | ⟨statements, _, classes⟩ => by
    rw [Block.checkReturns, Block.returnProblems, returnReports_append, Block.returnsValue,
      Block.returnsNothing]
    exact (checkClassReturns_adds classes).bind (checkStmtReturns_adds seen statements)

/-- The walk over the classes of a block reports their mistakes in order. -/
theorem checkClassReturns_adds : (cs : List (Slot × ClassDecl)) →
    (checkClassReturns cs).Adds () (returnReports (classReturnProblems cs))
  | [] => adds_pure ()
  | (_, c) :: cs => by
    rw [checkClassReturns, classReturnProblems, returnReports_append]
    exact c.checkReturns_adds.bind (checkClassReturns_adds cs)

/-- The walk over a class reports the mistakes of its members in order. -/
theorem ClassDecl.checkReturns_adds : (c : ClassDecl) →
    c.checkReturns.Adds () (returnReports c.returnProblems)
  | ⟨_, _, _, _, constructors, staticMethods, methods, _, _⟩ => by
    rw [ClassDecl.checkReturns, ClassDecl.returnProblems, returnReports_append,
      returnReports_append, List.append_assoc]
    exact (checkConstructorReturns_adds constructors).bind
      ((checkMethodReturns_adds staticMethods).bind (checkMethodReturns_adds methods))

/-- The walk over constructors reports the mistakes in their bodies in order. -/
theorem checkConstructorReturns_adds : (ms : List Method) →
    (checkConstructorReturns ms).Adds () (returnReports (constructorReturnProblems ms))
  | [] => adds_pure ()
  | ⟨_, _, _, body, _⟩ :: ms => by
    rw [checkConstructorReturns, constructorReturnProblems, returnReports_append]
    exact (body.checkReturns_adds .constructor).bind (checkConstructorReturns_adds ms)

/-- A method starts with no returns seen, so those at its end are the ones in its body. -/
theorem checkMethodReturns_adds : (ms : List Method) →
    (checkMethodReturns ms).Adds () (returnReports (methodReturnProblems ms))
  | [] => adds_pure ()
  | ⟨name, _, _, body, line⟩ :: ms => by
    rw [checkMethodReturns, methodReturnProblems, returnReports_append, returnReports_append,
      List.append_assoc]
    have whole := body.checkReturns_adds (.method false false)
    simp only [Seen.note, Bool.false_or] at whole
    exact whole.bind ((Seen.adds_finish name body line).bind (checkMethodReturns_adds ms))

end

end Program

/-! ### Whole programs -/

/-- The pass over the returns of a program. -/
def checkReturns (script : Program.Script) : Reporting Unit := do
  let _ ← script.root.checkReturns .script
  return

/-- The pass adds the reports on the returns of the program to any others. -/
theorem checkReturns_adds (script : Program.Script) :
    (checkReturns script).Adds () (returnDiagnostics script) :=
  (script.root.checkReturns_adds .script).andReturn ()

end Ember
