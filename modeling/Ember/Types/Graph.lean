/-
Types as nodes of a graph. A type is named by its node's position, so that
types may refer to themselves and to each other in cycles.

* `TypeNode`: a variable with its bounds, a label around another type, a
  structural class by its methods, or the type of what never returns;
* `TypeGraph`: the nodes, and the pairs of types of which the first has been
  made a subtype of the second;
* `TypeGraph.push`: a new node; `TypeGraph.addMethod` completes a class node;
* `TypeGraph.describe`: how messages name a type.
-/
import Ember.Selector

namespace Ember

/-- A type, named by its position in the graph. -/
abbrev TypeId := Nat

/-- The type of a method; a getter has no parameter list. -/
structure Signature where
  params : Option (List TypeId)
  result : TypeId
deriving DecidableEq, Repr

/-- A table of methods in the order of selectors. -/
abbrev Shape := List (Selector × Signature)

namespace Shape

/-- The shape with one more method, which replaces one with the same selector. -/
def insert (s : Shape) (method : Selector) (signature : Signature) : Shape :=
  insertByKey Prod.fst (method, signature) s

/-- The type of the method that answers to a selector. -/
def find? (s : Shape) (method : Selector) : Option Signature :=
  (findByKey? Prod.fst method s).map Prod.snd

/-- The shape with the methods of a list, of which the last with a selector
counts. -/
def ofList (methods : List (Selector × Signature)) : Shape :=
  methods.foldl (fun s m => Shape.insert s m.1 m.2) []

end Shape

/-- What is known about one type. -/
inductive TypeNode where
  /-- An unknown type, with the types found above it and below it. -/
  | var (upper lower : List TypeId)
  | labeled (name : String) (inner : TypeId)
  | cls (shape : Shape)
  /-- Below every type: the type of a statement that does not return. -/
  | bottom
deriving DecidableEq, Repr

/-- The types of a program and what is known about their order. -/
structure TypeGraph where
  nodes : Array TypeNode
  /-- The pairs of which the left has been made a subtype of the right. -/
  established : List (TypeId × TypeId)

namespace TypeGraph

/-- The graph without types. -/
def empty : TypeGraph := ⟨#[], []⟩

/-- The number of types. -/
def size (g : TypeGraph) : Nat := g.nodes.size

/-- The node of a type. -/
def node? (g : TypeGraph) (t : TypeId) : Option TypeNode := g.nodes[t]?

/-- Adds a type. -/
def push (g : TypeGraph) (n : TypeNode) : TypeId × TypeGraph :=
  (g.size, { g with nodes := g.nodes.push n })

/-- Adds a type about which nothing is known yet. -/
def fresh (g : TypeGraph) : TypeId × TypeGraph := g.push (.var [] [])

/-- Adds a method to a class; a type of any other kind is left alone. -/
def addMethod (g : TypeGraph) (t : TypeId) (method : Selector) (signature : Signature) :
    TypeGraph :=
  { g with nodes := g.nodes.modify t fun
    | .cls shape => .cls (shape.insert method signature)
    | n => n }

/-- The types found above a variable. -/
def upper (g : TypeGraph) (t : TypeId) : List TypeId :=
  match g.node? t with
  | some (.var upper _) => upper
  | _ => []

/-- The types found below a variable. -/
def lower (g : TypeGraph) (t : TypeId) : List TypeId :=
  match g.node? t with
  | some (.var _ lower) => lower
  | _ => []

/-- How messages name a type: a label by its name, a class by its methods. -/
def describe (g : TypeGraph) (t : TypeId) : String :=
  match g.node? t with
  | some (.labeled name _) => name
  | some (.cls shape) => "\x7b" ++ ", ".intercalate (shape.map fun m => m.1.text) ++ "\x7d"
  | some .bottom => "nothing"
  | some (.var _ _) | none => "unknown"

end TypeGraph

end Ember
