/-
What a body mentions, seen from outside of the classes in it.

* `Mention`: a slot that is read, a class made in place, or a class declared;
* `Block.mentions`: the mentions of a body in the order of the program, and
  `ClassDecl.mentions` those of all bodies of a class;
* `Block.declared`, `ClassDecl.declared`: the slots that a body or a class declares
  itself;
* `Block.locals`: the slots of a body's variables;
* `Script.classes`: all classes of a program, with the slots of those that are
  declared.
-/
import Ember.Program

namespace Ember

namespace Program

/-- A slot or a class that a body mentions. -/
inductive Mention where
  | read (s : Slot)
  | made (c : ClassDecl)
  | declares (c : ClassDecl)

/-! ### Mentions -/

mutual

/-- The mentions of an expression; a target of an assignment is not read. -/
def Expr.mentions : Expr → List Mention
  | .assign _ value _ => value.mentions
  | .call receiver _ arguments _ =>
    receiver.mentions ++ (match arguments with | none => [] | some es => exprMentions es)
  | .literal _ _ => []
  | .read s _ => [.read s]
  | .logical _ left right _ => left.mentions ++ right.mentions
  | .cls decl => [.made decl]

/-- The mentions of expressions, from left to right. -/
def exprMentions : List Expr → List Mention
  | [] => []
  | e :: es => e.mentions ++ exprMentions es

end

mutual

/-- The mentions of a statement. -/
def Stmt.mentions : Stmt → List Mention
  | .block body => body.mentions
  | .branch condition yes no _ =>
    condition.mentions ++ yes.mentions ++ (match no with | none => [] | some s => s.mentions)
  | .loop condition body _ => condition.mentions ++ body.mentions
  | .var _ init _ => match init with | none => [] | some e => e.mentions
  | .ret value _ => match value with | none => [] | some e => e.mentions
  | .eval e => e.mentions

/-- The mentions of statements, in order. -/
def stmtMentions : List Stmt → List Mention
  | [] => []
  | s :: ss => s.mentions ++ stmtMentions ss

/-- The mentions of a block, its own classes first. -/
def Block.mentions : Block → List Mention
  | ⟨statements, _, classes⟩ =>
    classes.map (fun c => .declares c.2) ++ stmtMentions statements

end

/-- The mentions in the bodies of a class. -/
def ClassDecl.mentions (c : ClassDecl) : List Mention :=
  c.allMethods.flatMap fun m => m.body.mentions

/-! ### Declared slots -/

mutual

/-- The slots declared in the blocks within a statement. -/
def Stmt.declared : Stmt → List Slot
  | .block body => body.declared
  | .branch _ yes no _ => yes.declared ++ (match no with | none => [] | some s => s.declared)
  | .loop _ body _ => body.declared
  | .var _ _ _ | .ret _ _ | .eval _ => []

/-- The slots declared in the blocks within statements. -/
def stmtDeclared : List Stmt → List Slot
  | [] => []
  | s :: ss => s.declared ++ stmtDeclared ss

/-- The slots declared in a block and in the blocks within it. -/
def Block.declared : Block → List Slot
  | ⟨statements, names, _⟩ => names.map Prod.fst ++ stmtDeclared statements

end

/-- The slots that a class declares: its fields, its receivers, and what the
bodies of its methods declare. -/
def ClassDecl.declared (c : ClassDecl) : List Slot :=
  c.staticFields.map Prod.fst ++ c.fields.map Prod.fst ++ [c.receiver, c.staticReceiver] ++
    c.allMethods.flatMap fun m => m.params.getD [] ++ m.body.declared

mutual

/-- The slots of the variables that a statement declares. -/
def Stmt.locals : Stmt → List Slot
  | .block body => body.locals
  | .branch _ yes no _ => yes.locals ++ (match no with | none => [] | some s => s.locals)
  | .loop _ body _ => body.locals
  | .var s _ _ => [s]
  | .ret _ _ | .eval _ => []

/-- The slots of the variables that statements declare. -/
def stmtLocals : List Stmt → List Slot
  | [] => []
  | s :: ss => s.locals ++ stmtLocals ss

/-- The slots of the variables of a body. -/
def Block.locals : Block → List Slot
  | ⟨statements, _, _⟩ => stmtLocals statements

end

/-! ### Classes -/

mutual

/-- The classes within an expression, none of them declared by it. -/
def Expr.classes : Expr → List (Option Slot × ClassDecl)
  | .assign _ value _ => value.classes
  | .call receiver _ arguments _ =>
    receiver.classes ++ (match arguments with | none => [] | some es => exprClasses es)
  | .literal _ _ | .read _ _ => []
  | .logical _ left right _ => left.classes ++ right.classes
  | .cls decl => (none, decl) :: decl.classesWithin

/-- The classes within expressions. -/
def exprClasses : List Expr → List (Option Slot × ClassDecl)
  | [] => []
  | e :: es => e.classes ++ exprClasses es

/-- The classes within a statement. -/
def Stmt.classes : Stmt → List (Option Slot × ClassDecl)
  | .block body => body.classesWithin
  | .branch condition yes no _ =>
    condition.classes ++ yes.classes ++ (match no with | none => [] | some s => s.classes)
  | .loop condition body _ => condition.classes ++ body.classes
  | .var _ init _ => match init with | none => [] | some e => e.classes
  | .ret value _ => match value with | none => [] | some e => e.classes
  | .eval e => e.classes

/-- The classes within statements. -/
def stmtClasses : List Stmt → List (Option Slot × ClassDecl)
  | [] => []
  | s :: ss => s.classes ++ stmtClasses ss

/-- The classes in a block, those within its classes included. -/
def Block.classesWithin : Block → List (Option Slot × ClassDecl)
  | ⟨statements, _, classes⟩ => declaredClasses classes ++ stmtClasses statements

/-- The classes of a block and those within them. -/
def declaredClasses : List (Slot × ClassDecl) → List (Option Slot × ClassDecl)
  | [] => []
  | (s, c) :: cs => (some s, c) :: c.classesWithin ++ declaredClasses cs

/-- The classes within the bodies of a class. -/
def ClassDecl.classesWithin : ClassDecl → List (Option Slot × ClassDecl)
  | ⟨_, _, _, _, constructors, staticMethods, methods, _, _⟩ =>
    methodClasses constructors ++ methodClasses staticMethods ++ methodClasses methods

/-- The classes within the bodies of methods. -/
def methodClasses : List Method → List (Option Slot × ClassDecl)
  | [] => []
  | ⟨_, _, _, body, _⟩ :: ms => body.classesWithin ++ methodClasses ms

end

/-- All classes of a program, with the slots of those that are declared. -/
def Script.classes (s : Script) : List (Option Slot × ClassDecl) := s.root.classesWithin

/-- The declared classes of a program by their slots. -/
def Script.namedClasses (s : Script) : List (Slot × ClassDecl) :=
  s.classes.filterMap fun (slot, c) => slot.map fun slot => (slot, c)

end Program

end Ember
