/-
The program after name resolution: every name has become a slot.

* `Program.Expr`, `Program.Stmt`: expressions and statements over slots. A
  block of code handed to a call has become a class made in place;
* `Program.Block`: the statements of a scope with the classes declared in it,
  in the order of their slots;
* `Program.ClassDecl`, `Program.Method`: a class with its three method tables, each
  in the order of selectors;
* `Program.Script`: the whole program with its global slots;
* `Program.Script.names`: every slot that the program declares, with the word
  it was declared by.
-/
import Ember.Literal
import Ember.Selector

namespace Ember

namespace Program

mutual

/-- An expression over slots. A read may be of a local, a field, a receiver or a
class. -/
inductive Expr where
  | assign (target : Slot) (value : Expr) (line : Line)
  | call (receiver : Expr) (name : String) (arguments : Option (List Expr)) (line : Line)
  | literal (value : Literal) (line : Line)
  | read (slot : Slot) (line : Line)
  | logical (op : Connective) (left right : Expr) (line : Line)
  /-- A class made in place, its value the class itself. -/
  | cls (decl : ClassDecl)

/-- A statement over slots. -/
inductive Stmt where
  | block (body : Block)
  | branch (condition : Expr) (yes : Stmt) (no : Option Stmt) (line : Line)
  | loop (condition : Expr) (body : Stmt) (line : Line)
  | var (slot : Slot) (init : Option Expr) (line : Line)
  | ret (value : Option Expr) (line : Line)
  | eval (e : Expr)

/-- A scope. Its names are those declared in it, for messages only. -/
structure Block where
  statements : List Stmt
  names : List (Slot × String)
  classes : List (Slot × ClassDecl)

/-- A class with its method tables and its fields. -/
structure ClassDecl where
  name : String
  line : Line
  /-- Holds the instance while its methods run. -/
  receiver : Slot
  /-- Holds the class itself while its static methods run. -/
  staticReceiver : Slot
  constructors : List Method
  staticMethods : List Method
  methods : List Method
  fields : List (Slot × String)
  staticFields : List (Slot × String)

/-- A method without parameters is a getter. -/
structure Method where
  name : String
  params : Option (List Slot)
  names : List (Slot × String)
  body : Block
  line : Line

end

/-- The block that does nothing. -/
def Block.empty : Block := ⟨[], [], []⟩

/-- The selector that a method answers to. -/
def Method.selector (m : Method) : Selector := ⟨m.name, m.params.map List.length⟩

/-- The method of a table that answers to a selector. -/
def findMethod? (s : Selector) (table : List Method) : Option Method :=
  findByKey? Method.selector s table

/-- Constructors first, then static methods, then the methods of instances. -/
def ClassDecl.allMethods (c : ClassDecl) : List Method :=
  c.constructors ++ c.staticMethods ++ c.methods

/-- The line that speaks for an expression. -/
def Expr.line : Expr → Line
  | .assign _ _ line | .call _ _ _ line | .literal _ line | .read _ line => line
  | .logical _ _ _ line => line
  | .cls decl => decl.line

/-- The line that speaks for a statement; a block has none. -/
def Stmt.line : Stmt → Line
  | .block _ => 0
  | .branch _ _ _ line | .loop _ _ line | .var _ _ line | .ret _ line => line
  | .eval e => e.line

/-- A resolved program: its outermost block and its global slots. -/
structure Script where
  root : Block
  globals : List (Slot × String)

/-! ### Declared names -/

mutual

/-- The names declared in the classes made within an expression. -/
def Expr.names : Expr → List (Slot × String)
  | .assign _ value _ => value.names
  | .call receiver _ arguments _ =>
    receiver.names ++ (match arguments with | none => [] | some es => exprNames es)
  | .literal _ _ | .read _ _ => []
  | .logical _ left right _ => left.names ++ right.names
  | .cls decl => decl.names

/-- The names declared within expressions. -/
def exprNames : List Expr → List (Slot × String)
  | [] => []
  | e :: es => e.names ++ exprNames es

/-- The names declared within a statement, a variable itself aside: its block
lists it. -/
def Stmt.names : Stmt → List (Slot × String)
  | .block body => body.allNames
  | .branch condition yes no _ =>
    condition.names ++ yes.names ++ (match no with | none => [] | some s => s.names)
  | .loop condition body _ => condition.names ++ body.names
  | .var _ init _ => match init with | none => [] | some e => e.names
  | .ret value _ => match value with | none => [] | some e => e.names
  | .eval e => e.names

/-- The names declared within statements. -/
def stmtNames : List Stmt → List (Slot × String)
  | [] => []
  | s :: ss => s.names ++ stmtNames ss

/-- The names of a block and of everything in it. -/
def Block.allNames : Block → List (Slot × String)
  | ⟨statements, names, classes⟩ => names ++ classNames classes ++ stmtNames statements

/-- The names declared within the classes of a block. -/
def classNames : List (Slot × ClassDecl) → List (Slot × String)
  | [] => []
  | (_, c) :: cs => c.names ++ classNames cs

/-- The names that a class declares and those declared in its methods. -/
def ClassDecl.names : ClassDecl → List (Slot × String)
  | ⟨_, _, receiver, staticReceiver, constructors, staticMethods, methods, fields, staticFields⟩ =>
    staticFields ++ fields ++ [(receiver, "this"), (staticReceiver, "this")] ++
      methodNames constructors ++ methodNames staticMethods ++ methodNames methods

/-- The names declared in methods and their bodies. -/
def methodNames : List Method → List (Slot × String)
  | [] => []
  | ⟨_, _, names, body, _⟩ :: ms => names ++ body.allNames ++ methodNames ms

end

/-- Every slot that the program declares, with the word it was declared by. -/
def Script.names (s : Script) : List (Slot × String) := s.globals ++ s.root.allNames

end Program

end Ember
