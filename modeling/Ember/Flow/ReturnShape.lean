/-
The returns of a program: where they may stand, and whether a method returns a
value always or never.

* `ReturnProblem`: the mistakes with their wording;
* `Stmt.completes`: whether control can reach the end of a statement, as far as
  its shape tells;
* `Stmt.returnsValue`, `Stmt.returnsNothing`: whether a return with or without
  a value stands in a statement, the bodies of classes aside;
* `Stmt.returnProblems`, `ClassDecl.returnProblems`: the mistakes, in the order of
  the program;
* `returnDiagnostics`: the reports on a whole program.
-/
import Ember.Diagnostic
import Ember.Program

namespace Ember

/-- A mistake in the returns of a program. -/
inductive ReturnProblem where
  | atTopLevel (line : Line)
  | valueFromConstructor (line : Line)
  | mixed (method : String) (line : Line)
deriving DecidableEq, Repr

namespace ReturnProblem

/-- The wording of a mistake. -/
def message : ReturnProblem → String
  | atTopLevel _ => "Cannot return from top-level code."
  | valueFromConstructor _ => "Cannot return a value from a constructor."
  | mixed method _ => "Method '" ++ method ++ "' mixes returning a value and returning nothing."

/-- The line that a mistake lies in. -/
def line : ReturnProblem → Line
  | atTopLevel line | valueFromConstructor line | mixed _ line => line

/-- The report of a mistake. -/
def diagnostic (p : ReturnProblem) : Diagnostic := Diagnostic.atLine .returns p.line p.message

end ReturnProblem

namespace Program

/-! ### The shape of a body -/

mutual

/-- Whether control can reach the end of a statement. A loop may end because
its condition fails. -/
def Stmt.completes : Stmt → Bool
  | .block body => body.completes
  | .branch _ yes no _ => yes.completes || (match no with | none => true | some s => s.completes)
  | .ret _ _ => false
  | .loop _ _ _ | .var _ _ _ | .eval _ => true

/-- Whether control can reach the end of a block. -/
def Block.completes : Block → Bool
  | ⟨statements, _, _⟩ => completeAll statements

/-- Whether control can pass through all of a list of statements. -/
def completeAll : List Stmt → Bool
  | [] => true
  | s :: ss => s.completes && completeAll ss

end

mutual

/-- Whether a return with a value stands in a statement. -/
def Stmt.returnsValue : Stmt → Bool
  | .block body => body.returnsValue
  | .branch _ yes no _ =>
    yes.returnsValue || (match no with | none => false | some s => s.returnsValue)
  | .loop _ body _ => body.returnsValue
  | .ret value _ => value.isSome
  | .var _ _ _ | .eval _ => false

/-- Whether a return with a value stands in a block. -/
def Block.returnsValue : Block → Bool
  | ⟨statements, _, _⟩ => anyReturnsValue statements

/-- Whether a return with a value stands in one of the statements. -/
def anyReturnsValue : List Stmt → Bool
  | [] => false
  | s :: ss => s.returnsValue || anyReturnsValue ss

end

mutual

/-- Whether a return without a value stands in a statement. -/
def Stmt.returnsNothing : Stmt → Bool
  | .block body => body.returnsNothing
  | .branch _ yes no _ =>
    yes.returnsNothing || (match no with | none => false | some s => s.returnsNothing)
  | .loop _ body _ => body.returnsNothing
  | .ret value _ => value.isNone
  | .var _ _ _ | .eval _ => false

/-- Whether a return without a value stands in a block. -/
def Block.returnsNothing : Block → Bool
  | ⟨statements, _, _⟩ => anyReturnsNothing statements

/-- Whether a return without a value stands in one of the statements. -/
def anyReturnsNothing : List Stmt → Bool
  | [] => false
  | s :: ss => s.returnsNothing || anyReturnsNothing ss

end

/-- Whether a body may return a value and may also return without one. -/
def Block.mixesReturns (b : Block) : Bool :=
  b.returnsValue && (b.returnsNothing || b.completes)

/-! ### The mistakes -/

/-- What a body belongs to. -/
inductive Role where
  | script
  | constructor
  | method
deriving DecidableEq, Repr

/-- The mistake of a return that stands in the wrong kind of body. -/
def Role.returnProblems (role : Role) (hasValue : Bool) (line : Line) : List ReturnProblem :=
  match role with
  | .script => [.atTopLevel line]
  | .constructor => if hasValue then [.valueFromConstructor line] else []
  | .method => []

mutual

/-- The mistakes in the classes made within an expression. -/
def Expr.returnProblems : Expr → List ReturnProblem
  | .assign _ value _ => value.returnProblems
  | .call receiver _ arguments _ =>
    receiver.returnProblems ++
      (match arguments with | none => [] | some es => exprReturnProblems es)
  | .literal _ _ | .read _ _ => []
  | .logical _ left right _ => left.returnProblems ++ right.returnProblems
  | .cls decl => decl.returnProblems

/-- The mistakes in the classes made within expressions. -/
def exprReturnProblems : List Expr → List ReturnProblem
  | [] => []
  | e :: es => e.returnProblems ++ exprReturnProblems es

/-- The mistakes in a statement of a body that belongs to `role`. -/
def Stmt.returnProblems (role : Role) : Stmt → List ReturnProblem
  | .block body => body.returnProblems role
  | .branch condition yes no _ =>
    condition.returnProblems ++ yes.returnProblems role ++
      (match no with | none => [] | some s => s.returnProblems role)
  | .loop condition body _ => condition.returnProblems ++ body.returnProblems role
  | .var _ init _ => match init with | none => [] | some e => e.returnProblems
  | .ret value line =>
    (match value with | none => [] | some e => e.returnProblems) ++
      role.returnProblems value.isSome line
  | .eval e => e.returnProblems

/-- The mistakes in statements of a body that belongs to `role`. -/
def stmtReturnProblems (role : Role) : List Stmt → List ReturnProblem
  | [] => []
  | s :: ss => s.returnProblems role ++ stmtReturnProblems role ss

/-- The mistakes in a block, those in its classes first. -/
def Block.returnProblems (role : Role) : Block → List ReturnProblem
  | ⟨statements, _, classes⟩ =>
    classReturnProblems classes ++ stmtReturnProblems role statements

/-- The mistakes in the classes of a block. -/
def classReturnProblems : List (Slot × ClassDecl) → List ReturnProblem
  | [] => []
  | (_, c) :: cs => c.returnProblems ++ classReturnProblems cs

/-- The mistakes in the bodies of a class's methods. -/
def ClassDecl.returnProblems : ClassDecl → List ReturnProblem
  | ⟨_, _, _, _, constructors, staticMethods, methods, _, _⟩ =>
    constructorReturnProblems constructors ++ methodReturnProblems staticMethods ++
      methodReturnProblems methods

/-- The mistakes in constructors. -/
def constructorReturnProblems : List Method → List ReturnProblem
  | [] => []
  | ⟨_, _, _, body, _⟩ :: ms => body.returnProblems .constructor ++ constructorReturnProblems ms

/-- The mistakes in methods, each followed by the mistake of the method as a whole. -/
def methodReturnProblems : List Method → List ReturnProblem
  | [] => []
  | ⟨name, _, _, body, line⟩ :: ms =>
    body.returnProblems .method ++ (if body.mixesReturns then [.mixed name line] else []) ++
      methodReturnProblems ms

end

end Program

/-- The mistakes in the returns of a program. -/
def returnProblems (script : Program.Script) : List ReturnProblem :=
  script.root.returnProblems .script

/-- The reports on the returns of a program. -/
def returnDiagnostics (script : Program.Script) : List Diagnostic :=
  (returnProblems script).map ReturnProblem.diagnostic

end Ember
