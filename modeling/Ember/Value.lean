/-
The values of a running program.

* `Environment`: the frames that code can see, as addresses, innermost first;
* `Value`: null, booleans, numbers, text, and the three kinds of object: a
  class, an instance of one and an object of the host;
* `Value.className`, `Value.display`: how messages name a value's class, and how
  the value itself is written;
* `Value.same`: equality by content for plain values and by identity for
  objects. Every object has a frame or a handle of its own, which is its
  identity.
-/
import Ember.Program

namespace Ember

/-- Where a frame lies. -/
abbrev Address := Nat

/-- The frames that a piece of code can see: its own and those around it. -/
structure Environment where
  own : Address
  outer : List Address
deriving DecidableEq, Repr

namespace Environment

/-- All visible frames, innermost first. -/
def chain (e : Environment) : List Address := e.own :: e.outer

/-- The environment inside `e` with its own frame at an address. -/
def inside (e : Environment) (own : Address) : Environment := ⟨own, e.chain⟩

/-- How many frames lie around the innermost one. -/
def depth (e : Environment) : Nat := e.outer.length

end Environment

/-- A class as a value. Its frame holds the static fields and itself. -/
structure ClassObject where
  decl : Program.ClassDecl
  statics : Environment

/-- An instance. Its frame holds the fields and itself, inside its class's frame. -/
structure Instance where
  cls : ClassObject
  env : Environment

/-- An object of the host: its name, and the handle its methods are filed under. -/
structure HostHandle where
  name : String
  handle : Nat
deriving DecidableEq, Repr

/-- What an expression may evaluate to. -/
inductive Value where
  | null
  | boolean (b : Bool)
  | number (n : Number)
  | text (s : String)
  | cls (c : ClassObject)
  | obj (i : Instance)
  | host (h : HostHandle)

namespace Value

instance : Inhabited Value := ⟨null⟩

/-- The value that a literal denotes. -/
def ofLiteral : Literal → Value
  | .number n => number n
  | .text s => text s
  | .boolean b => boolean b
  | .nil => null

/-- How a message names the class of a value. -/
def className : Value → String
  | null => "Null"
  | boolean _ => "Boolean"
  | number _ => "Number"
  | text _ => "String"
  | cls c => c.decl.name ++ " metaclass"
  | obj i => i.cls.decl.name
  | host h => h.name

/-- How a value is written. -/
def display : Value → String
  | null => "null"
  | boolean b => if b then "true" else "false"
  | number n => n.text
  | text s => s
  | cls c => c.decl.name
  | obj i => i.cls.decl.name ++ " instance"
  | host h => h.name

/-- Whether two values are equal. -/
def same : Value → Value → Bool
  | null, null => true
  | boolean a, boolean b => a = b
  | number a, number b => a = b
  | text a, text b => a = b
  | cls a, cls b => a.statics.own = b.statics.own
  | obj a, obj b => a.env.own = b.env.own
  | host a, host b => a.handle = b.handle
  | _, _ => false

end Value

end Ember
