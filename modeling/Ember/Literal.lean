/-
The leaves that a program has in common before and after name resolution:
literals and the two logical connectives.
-/
import Ember.Number

namespace Ember

/-- A constant written in the program. -/
inductive Literal where
  | number (n : Number)
  | text (s : String)
  | boolean (b : Bool)
  | nil
deriving DecidableEq

/-- The operators that may leave their right operand unevaluated. -/
inductive Connective where
  | and
  | or
deriving DecidableEq, Repr

/-- The left operand that settles the result on its own. -/
def Connective.settledBy : Connective → Bool
  | .and => false
  | .or => true

end Ember
