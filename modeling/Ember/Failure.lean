/-
How a running program fails.

* `Failure`: the causes, with `Failure.message` for their wording;
* `Failure.IsInternal`: the causes that only an inconsistent program can have,
  never a mistake in the program's own logic;
* `RuntimeError`: a cause with the line it arose on.
-/
import Ember.Selector

namespace Ember

/-- Why a run stops early. -/
inductive Failure where
  /-- The receiver, described by the name of its class, lacks the method. -/
  | notImplemented (receiver : String) (method : Selector)
  | rightOperandNumber
  | rightOperandText
  | divisionByZero
  | overflow
  | nullCondition
  | nonBooleanCondition
  | logicalOperand
  /-- A method that the host supplies has failed with its own message. -/
  | host (message : String)
  | undefinedSlot (slot : Slot)
  | returnOutsideMethod
  /-- A built-in method has been given a receiver of another class. -/
  | foreignReceiver (method : String)
deriving DecidableEq, Repr

namespace Failure

/-- The wording of a failure. -/
def message : Failure → String
  | notImplemented receiver method =>
    "'" ++ receiver ++ "' does not implement '" ++ method.text ++ "'."
  | rightOperandNumber => "Right operand must be a number."
  | rightOperandText => "Right operand must be a string."
  | divisionByZero => "Division by zero."
  | overflow => "Arithmetic overflow."
  | nullCondition => "Condition cannot be null."
  | nonBooleanCondition => "Condition must have type Boolean."
  | logicalOperand => "Operands of a logical operator must be booleans."
  | host message => message
  | undefinedSlot slot => "Undefined variable " ++ slot.text ++ "."
  | returnOutsideMethod => "Return escaped the top level."
  | foreignReceiver method => "Built-in method '" ++ method ++ "' received a foreign receiver."

/-- A program that the passes over it let through is not meant to fail so. -/
def IsInternal : Failure → Prop
  | undefinedSlot _ | returnOutsideMethod | foreignReceiver _ => True
  | _ => False

instance : DecidablePred IsInternal := fun f => by
  cases f <;> simp only [IsInternal] <;> infer_instance

end Failure

/-- A failure on a line of the program. -/
structure RuntimeError where
  line : Line
  cause : Failure
deriving DecidableEq, Repr

/-- A runtime error in full. -/
def RuntimeError.text (e : RuntimeError) : String :=
  "[line " ++ toString e.line ++ "] Runtime error: " ++ e.cause.message

end Ember
