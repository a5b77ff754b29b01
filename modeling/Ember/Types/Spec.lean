/-
Types as a host writes them down for the globals it supplies.

* `TypeSpec`: a built-in type, anything at all, or a class by its methods;
* `MethodSpec`: a method with the types of its parameters and of its result,
  a getter when it has no parameter list.
-/
import Ember.Selector

namespace Ember

mutual

/-- The description of a type. -/
inductive TypeSpec where
  | number
  | text
  | boolean
  | any
  | cls (methods : List MethodSpec)

/-- The description of a method. -/
structure MethodSpec where
  name : String
  params : Option (List TypeSpec)
  result : TypeSpec

end

/-- The selector that a described method answers to. -/
def MethodSpec.selector (m : MethodSpec) : Selector := ⟨m.name, m.params.map List.length⟩

end Ember
