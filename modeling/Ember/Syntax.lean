/-
The program as it is written, before its names are resolved.

* `Name`: a word of the program and the line it stands on;
* `Syntax.Expr`, `Syntax.Stmt`: expressions and statements. A call without an
  argument list reads a getter, and a call may carry a block of code;
* `Syntax.Method`: a declaration in a class body; without parameters it
  declares a getter;
* `Syntax.Expr.line`: the line that speaks for an expression.
-/
import Ember.Literal
import Ember.Selector

namespace Ember

/-- A word of the program and where it stands. -/
structure Name where
  text : String
  line : Line
deriving DecidableEq, Repr

namespace Syntax

/-- What a declaration in a class body makes. -/
inductive MethodKind where
  | construct
  | onClass
  | onInstance
deriving DecidableEq, Repr

mutual

/-- An expression as it is written. -/
inductive Expr where
  | assign (target value : Expr) (line : Line)
  | call (receiver : Expr) (name : Name) (arguments : Option (List Expr)) (code : Option Code)
  | literal (value : Literal) (line : Line)
  | variable (name : Name)
  | field (name : Name)
  | staticField (name : Name)
  | this (line : Line)
  | logical (op : Connective) (left right : Expr) (line : Line)

/-- The block of code that a call hands to its method. -/
structure Code where
  params : List Name
  body : List Stmt
  line : Line

/-- A statement as it is written. -/
inductive Stmt where
  | block (body : List Stmt)
  | branch (condition : Expr) (yes : Stmt) (no : Option Stmt) (line : Line)
  | loop (condition : Expr) (body : Stmt) (line : Line)
  | var (name : Name) (init : Option Expr)
  | cls (name : Name) (methods : List Method)
  | ret (value : Option Expr) (line : Line)
  | eval (e : Expr)

/-- A declaration in a class body. -/
structure Method where
  kind : MethodKind
  name : Name
  params : Option (List Name)
  body : List Stmt

end

/-- The line that speaks for an expression: a call stands where its method's
name does. -/
def Expr.line : Expr → Line
  | .assign _ _ line => line
  | .call _ name _ _ => name.line
  | .literal _ line => line
  | .variable name | .field name | .staticField name => name.line
  | .this line => line
  | .logical _ _ _ line => line

/-- The selector that a declaration answers to. -/
def Method.selector (m : Method) : Selector := ⟨m.name.text, m.params.map List.length⟩

end Syntax

end Ember
