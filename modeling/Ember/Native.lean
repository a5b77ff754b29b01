/-
The methods of the plain values: numbers, text, booleans and null.

* `NativeClass`: the four classes of plain values, `NativeClass.of?` that of a
  value;
* `NativeMethod`: what such a method does with a receiver and its arguments;
* `NativeClass.methods`: the method table of each class, and
  `NativeClass.find?` the look-up in it.

A method checks its receiver and its arguments itself, so it may be called on
values of any class.
-/
import Ember.Failure
import Ember.Value

namespace Ember

/-- What a built-in method does with a receiver and its arguments. -/
abbrev NativeMethod := Value → List Value → Except Failure Value

/-- The classes of plain values. -/
inductive NativeClass where
  | number
  | text
  | boolean
  | null
deriving DecidableEq, Repr

/-! ### Operands -/

namespace NativeMethod

/-- A number as the receiver of the method called `name`. -/
def numberReceiver (name : String) : Value → Except Failure Number
  | .number n => .ok n
  | _ => .error (.foreignReceiver name)

/-- A text as the receiver of the method called `name`. -/
def textReceiver (name : String) : Value → Except Failure String
  | .text s => .ok s
  | _ => .error (.foreignReceiver name)

/-- A number as the first argument. -/
def numberOperand : List Value → Except Failure Number
  | .number n :: _ => .ok n
  | _ => .error .rightOperandNumber

/-- A text as the first argument. -/
def textOperand : List Value → Except Failure String
  | .text s :: _ => .ok s
  | _ => .error .rightOperandText

/-- The result of an operation on numbers, if it fits. -/
def fitting : Option Number → Except Failure Value
  | some n => .ok (.number n)
  | none => .error .overflow

/-! ### Kinds of method -/

/-- An exact operation on two numbers. -/
def arithmetic (name : String) (op : Number → Number → Option Number) : NativeMethod :=
  fun receiver arguments => do
    let left ← numberReceiver name receiver
    let right ← numberOperand arguments
    fitting (op left right)

/-- An operation on two numbers that has no result for a zero on the right. -/
def division (name : String) (op : Number → Number → Option Number) : NativeMethod :=
  fun receiver arguments => do
    let left ← numberReceiver name receiver
    let right ← numberOperand arguments
    if right.val = 0 then .error .divisionByZero else fitting (op left right)

/-- A comparison of two numbers. -/
def comparison (name : String) (holds : Number → Number → Bool) : NativeMethod :=
  fun receiver arguments => do
    let left ← numberReceiver name receiver
    let right ← numberOperand arguments
    .ok (.boolean (holds left right))

/-- An operation on the receiver alone, which has to be a number. -/
def unary (name : String) (op : Number → Option Number) : NativeMethod :=
  fun receiver _ => do
    let n ← numberReceiver name receiver
    fitting (op n)

/-- The receiver, a text, followed by another text. -/
def append : NativeMethod := fun receiver arguments => do
  let left ← textReceiver "+" receiver
  let right ← textOperand arguments
  .ok (.text (left ++ right))

/-- The number of characters of the receiver. -/
def count : NativeMethod := fun receiver _ => do
  let s ← textReceiver "count" receiver
  fitting (Number.ofInt? s.length)

/-- The opposite of a boolean. -/
def negate : NativeMethod := fun receiver _ =>
  match receiver with
  | .boolean b => .ok (.boolean !b)
  | _ => .error (.foreignReceiver "!")

/-- The receiver as it is written. -/
def toText : NativeMethod := fun receiver _ => .ok (.text receiver.display)

/-- Whether the first argument is there and the same as the receiver. -/
def isFirst (receiver : Value) : List Value → Bool
  | v :: _ => v.same receiver
  | [] => false

/-- Whether the receiver and the first argument are the same. -/
def equal : NativeMethod := fun receiver arguments =>
  .ok (.boolean (isFirst receiver arguments))

/-- Whether the receiver and the first argument differ. -/
def unequal : NativeMethod := fun receiver arguments =>
  .ok (.boolean !(isFirst receiver arguments))

end NativeMethod

/-! ### Method tables -/

namespace NativeClass

open NativeMethod

/-- How messages name the class. -/
def name : NativeClass → String
  | number => "Number"
  | text => "String"
  | boolean => "Boolean"
  | null => "Null"

/-- The methods of numbers alone. -/
def numberMethods : List (Selector × NativeMethod) :=
  [(.method "+" 1, arithmetic "+" Number.add?),
   (.method "-" 1, arithmetic "-" Number.sub?),
   (.method "*" 1, arithmetic "*" Number.mul?),
   (.method "/" 1, division "/" Number.div?),
   (.method "%" 1, division "%" Number.rem?),
   (.method "<" 1, comparison "<" fun a b => a < b),
   (.method "<=" 1, comparison "<=" fun a b => a ≤ b),
   (.method ">" 1, comparison ">" fun a b => b < a),
   (.method ">=" 1, comparison ">=" fun a b => b ≤ a),
   (.getter "-", unary "-" Number.neg?),
   (.getter "abs", unary "abs" Number.abs?)]

/-- The methods of text alone. -/
def textMethods : List (Selector × NativeMethod) :=
  [(.method "+" 1, append), (.getter "count", count)]

/-- The methods of booleans alone. -/
def booleanMethods : List (Selector × NativeMethod) := [(.getter "!", negate)]

/-- The methods that every plain value has. -/
def sharedMethods : List (Selector × NativeMethod) :=
  [(.getter "toString", toText), (.method "==" 1, equal), (.method "!=" 1, unequal)]

/-- The methods of a class. -/
def methods : NativeClass → List (Selector × NativeMethod)
  | number => numberMethods ++ sharedMethods
  | text => textMethods ++ sharedMethods
  | boolean => booleanMethods ++ sharedMethods
  | null => sharedMethods

/-- The method of a class that answers to a selector. -/
def find? (c : NativeClass) (s : Selector) : Option NativeMethod := c.methods.lookup s

/-- The class of a plain value; objects have none. -/
def of? : Value → Option NativeClass
  | .number _ => some number
  | .text _ => some text
  | .boolean _ => some boolean
  | .null => some null
  | .cls _ | .obj _ | .host _ => none

end NativeClass

end Ember
