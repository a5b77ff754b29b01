/-
What name resolution can find fault with.

* `ScopeProblem`: the mistakes, each with the word or the line it lies in;
* `ScopeProblem.message`: their wording;
* `ScopeProblem.diagnostic`: the report of a mistake.
-/
import Ember.Diagnostic
import Ember.Syntax

namespace Ember

/-- A mistake in the names of a program. -/
inductive ScopeProblem where
  | alreadyDeclared (name : Name)
  | unusedVariable (name : Name)
  | unusedClass (name : Name)
  | undeclared (name : Name)
  | usedInOwnInitializer (name : Name)
  | assignedClass (name : Name)
  | fieldOutsideClass (name : Name)
  | instanceFieldInStaticMethod (name : Name)
  | thisOutsideClass (line : Line)
  | invalidTarget (line : Line)
  | methodAlreadyDeclared (name : Name) (method : Selector) (cls : String)
deriving DecidableEq, Repr

namespace ScopeProblem

/-- The wording of a mistake. -/
def message : ScopeProblem → String
  | alreadyDeclared name => "'" ++ name.text ++ "' is already declared in this scope."
  | unusedVariable name => "Variable '" ++ name.text ++ "' is defined, but never used."
  | unusedClass name => "Class '" ++ name.text ++ "' is defined, but never used."
  | undeclared name => "Undeclared variable '" ++ name.text ++ "'."
  | usedInOwnInitializer name =>
    "Variable '" ++ name.text ++ "' is used in its own initializer."
  | assignedClass name => "Cannot assign to class '" ++ name.text ++ "'."
  | fieldOutsideClass _ => "Cannot use a field outside of a class."
  | instanceFieldInStaticMethod _ => "Cannot use an instance field in a static method."
  | thisOutsideClass _ => "Cannot use 'this' outside of a class."
  | invalidTarget _ => "Invalid assignment target."
  | methodAlreadyDeclared _ method cls =>
    "Method '" ++ method.text ++ "' is already declared in class '" ++ cls ++ "'."

/-- The word that a mistake lies in, unless it lies in a whole line. -/
def name? : ScopeProblem → Option Name
  | alreadyDeclared name | unusedVariable name | unusedClass name | undeclared name
  | usedInOwnInitializer name | assignedClass name | fieldOutsideClass name
  | instanceFieldInStaticMethod name | methodAlreadyDeclared name _ _ => some name
  | thisOutsideClass _ | invalidTarget _ => none

/-- The line that a mistake lies in. -/
def line : ScopeProblem → Line
  | alreadyDeclared name | unusedVariable name | unusedClass name | undeclared name
  | usedInOwnInitializer name | assignedClass name | fieldOutsideClass name
  | instanceFieldInStaticMethod name | methodAlreadyDeclared name _ _ => name.line
  | thisOutsideClass line | invalidTarget line => line

/-- The report of a mistake. -/
def diagnostic (p : ScopeProblem) : Diagnostic :=
  ⟨.resolve, p.line, p.name?.map Name.text, p.message⟩

end ScopeProblem

end Ember
