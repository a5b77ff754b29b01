/-
Selectors and slots, the two kinds of name that survive name resolution.

* `Selector`: what a call asks of its receiver, a method name together with the
  number of arguments, none at all for a getter; `Selector.text` writes it;
* the order of selectors: by name, a getter before the methods of its name, and
  those by their number of arguments;
* `Slot`: a place that holds a value, such as a local, a parameter, a field or
  a receiver.
-/
import Ember.Keyed

namespace Ember

/-- A line of the program text. -/
abbrev Line := Nat

/-! ### Selectors -/

/-- A method name with its number of arguments, or none for a getter. -/
structure Selector where
  name : String
  arity : Option Nat
deriving DecidableEq, Repr

namespace Selector

/-- The getter called `name`. -/
def getter (name : String) : Selector := ⟨name, none⟩

/-- The method called `name` that takes `arity` arguments. -/
def method (name : String) (arity : Nat) : Selector := ⟨name, some arity⟩

/-- A getter is written as its name alone, a method with a mark per argument. -/
def text : Selector → String
  | ⟨name, none⟩ => name
  | ⟨name, some arity⟩ => name ++ "(" ++ ",".intercalate (List.replicate arity "_") ++ ")"

/-- By name, then getters first, then by the number of arguments. -/
instance : Ord Selector where
  compare a b := (compare a.name b.name).then (compare a.arity b.arity)

instance : Std.LawfulEqOrd Selector where
  compare_self {a} := by
    change (compare a.name a.name).then (compare a.arity a.arity) = .eq
    simp
  eq_of_compare {a b} h := by
    have h' : (compare a.name b.name).then (compare a.arity b.arity) = .eq := h
    rw [Ordering.then_eq_eq] at h'
    cases a
    cases b
    simpa using h'

end Selector

/-! ### Slots -/

/-- A place that holds a value while a program runs. No two declarations of a
program share one. -/
structure Slot where
  index : Nat
deriving DecidableEq, Repr

namespace Slot

/-- A slot is written as its number behind a hash. -/
def text (s : Slot) : String := "#" ++ toString s.index

/-- The slot that is handed out after `s`. -/
def next (s : Slot) : Slot := ⟨s.index + 1⟩

instance : Ord Slot where
  compare a b := compare a.index b.index

instance : Std.LawfulEqOrd Slot where
  compare_self {a} := by
    change compare a.index a.index = .eq
    simp
  eq_of_compare {a b} h := by
    have h' : compare a.index b.index = .eq := h
    cases a
    cases b
    simpa using h'

end Slot

end Ember
