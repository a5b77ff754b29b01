/-
The built-in types: numbers, text and booleans, each a label around the class
of its methods.

* `Builtins`: where the three labels are;
* `Builtins.numberMethods`, `Builtins.textMethods`, `Builtins.booleanMethods`,
  `Builtins.sharedMethods`: the methods with their types;
* `Builtins.install`: adds the built-in types to a graph;
* `Builtins.intern`: the type that a host describes.
-/
import Ember.Types.Graph
import Ember.Types.Spec

namespace Ember

/-- The labels of the built-in types. -/
structure Builtins where
  number : TypeId
  text : TypeId
  boolean : TypeId
deriving DecidableEq, Repr

namespace Builtins

/-! ### The methods -/

/-- A method with one parameter. -/
def binary (operand result : TypeId) (name : String) : Selector × Signature :=
  (.method name 1, ⟨some [operand], result⟩)

/-- A getter. -/
def getter (result : TypeId) (name : String) : Selector × Signature :=
  (.getter name, ⟨none, result⟩)

/-- The methods of numbers alone. -/
def numberMethods (b : Builtins) : List (Selector × Signature) :=
  ["+", "-", "*", "/", "%"].map (binary b.number b.number) ++
    ["<", "<=", ">", ">="].map (binary b.number b.boolean) ++
    ["-", "abs"].map (getter b.number)

/-- The methods of text alone. -/
def textMethods (b : Builtins) : List (Selector × Signature) :=
  [binary b.text b.text "+", getter b.number "count"]

/-- The methods of booleans alone. -/
def booleanMethods (b : Builtins) : List (Selector × Signature) :=
  [getter b.boolean "!"]

/-- The methods that every built-in type has. The operands of the two
comparisons have types of their own, which anything may flow into. -/
def sharedMethods (b : Builtins) (equal unequal : TypeId) : List (Selector × Signature) :=
  [getter b.text "toString", binary equal b.boolean "==", binary unequal b.boolean "!="]

/-! ### The types -/

/-- The labels of the built-in types that are installed from a position on. -/
def startingAt (n : TypeId) : Builtins := ⟨n + 3, n + 4, n + 5⟩

/-- The nodes of the built-in types that are installed from a position on: three
classes, their labels, and the operands of each class's comparisons. -/
def nodes (n : TypeId) : List TypeNode :=
  let b := startingAt n
  [.cls (Shape.ofList (b.numberMethods ++ b.sharedMethods (n + 6) (n + 7))),
   .cls (Shape.ofList (b.textMethods ++ b.sharedMethods (n + 8) (n + 9))),
   .cls (Shape.ofList (b.booleanMethods ++ b.sharedMethods (n + 10) (n + 11))),
   .labeled "Number" n,
   .labeled "String" (n + 1),
   .labeled "Boolean" (n + 2)] ++ List.replicate 6 (.var [] [])

/-- Adds the built-in types to a graph. -/
def install (g : TypeGraph) : Builtins × TypeGraph :=
  (startingAt g.size, { g with nodes := g.nodes ++ (nodes g.size).toArray })

/-! ### Described types -/

mutual

/-- The type that a description stands for. What is unconstrained, and every
class, gets a type of its own. -/
def intern (b : Builtins) : TypeSpec → StateM TypeGraph TypeId
  | .number => return b.number
  | .text => return b.text
  | .boolean => return b.boolean
  | .any => modifyGet TypeGraph.fresh
  | .cls methods => do
    let shape ← internMethods b [] methods
    modifyGet fun g => g.push (.cls shape)

/-- The types that descriptions stand for, one by one. -/
def internAll (b : Builtins) : List TypeSpec → StateM TypeGraph (List TypeId)
  | [] => return []
  | t :: ts => do
    let t ← intern b t
    return t :: (← internAll b ts)

/-- Adds the types of described methods to a shape. -/
def internMethods (b : Builtins) (shape : Shape) : List MethodSpec → StateM TypeGraph Shape
  | [] => return shape
  | ⟨name, params, result⟩ :: rest => do
    let params ← match params with
      | none => pure none
      | some ts => do
        let ts ← internAll b ts
        pure (some ts)
    let result ← intern b result
    internMethods b (shape.insert ⟨name, params.map List.length⟩ ⟨params, result⟩) rest

end

end Builtins

end Ember
