/-
What a walk over a body knows about assignments at a point, and what it sums
up about whole methods.

* `FlowState`: what is assigned at a point of a body, and whether control can
  reach it; `FlowState.join` keeps what holds on both of two ways;
* `Finding`: a slot that may be read before a value has been assigned to it;
* `Summary`: what a call of a method on its own instance reads and assigns;
* `Summaries.merge`, `Summaries.weight`: how the summaries of a class change,
  and how much they still can;
* `settle`: repeats a round as long as it makes a weight fall.
-/
import Ember.Flow.Captures

namespace Ember

open Program

/-! ### States -/

/-- What is known at a point of a body. -/
structure FlowState where
  assigned : List Slot
  reachable : Bool
deriving DecidableEq, Repr

namespace FlowState

/-- The point that no way leads to. -/
def unreachable : FlowState := ⟨[], false⟩

/-- Notes an assignment. -/
def assign (st : FlowState) (s : Slot) : FlowState :=
  { st with assigned := addSlots st.assigned [s] }

/-- Forgets an assignment. -/
def forget (st : FlowState) (s : Slot) : FlowState :=
  { st with assigned := st.assigned.filter fun t => t ≠ s }

/-- Keeps what holds on both of two ways; a way that leads nowhere does not
count. -/
def join (a b : FlowState) : FlowState :=
  if !b.reachable then a
  else if !a.reachable then b
  else { a with assigned := a.assigned.filter fun s => s ∈ b.assigned }

end FlowState

/-! ### Findings and summaries -/

/-- The kinds of slot that may be read early. -/
inductive SlotKind where
  | variable
  | field
deriving DecidableEq, Repr

/-- How messages name the kind of a slot. -/
def SlotKind.text : SlotKind → String
  | .variable => "Variable"
  | .field => "Field"

/-- A slot that may be read before it is assigned. -/
structure Finding where
  kind : SlotKind
  slot : Slot
  line : Line
deriving DecidableEq, Repr

/-- What a call of a method on its own instance means to the fields. -/
structure Summary where
  /-- Read before the method itself has assigned them. -/
  requires : List Slot
  /-- Assigned on every way out of the method. -/
  assigns : List Slot
deriving DecidableEq, Repr

/-- The summaries of a class's methods. -/
abbrev Summaries := List (Selector × Summary)

namespace Summaries

/-- The summary to start from: nothing is read, and everything is assigned. -/
def start (fields : List Slot) (methods : List Method) : Summaries :=
  methods.map fun m => (m.selector, ⟨[], fields⟩)

/-- Adds to a method's summary what it was found to read, and takes from it
what it was found not to assign. -/
def merge (fields : List Slot) (summaries : Summaries) (method : Selector) (found : Summary) :
    Summaries :=
  summaries.map fun (s, current) =>
    if s = method then
      (s, ⟨fields.filter fun f => f ∈ current.requires || f ∈ found.requires,
        fields.filter fun f => f ∈ current.assigns && f ∈ found.assigns⟩)
    else (s, current)

/-- How much the summaries can still change. -/
def weight (fields : List Slot) : Summaries → Nat
  | [] => 0
  | (_, s) :: rest =>
    (fields.length - s.requires.length) + s.assigns.length + weight fields rest

end Summaries

/-- Repeats a round as long as it makes the weight fall. -/
def settle {α : Type} (weight : α → Nat) (round : α → α) (x : α) : α :=
  let next := round x
  if weight next < weight x then settle weight round next else x
termination_by weight x

end Ember
