/-
Walks over the body of a method or of the program, and their steps that do not
depend on the shape of the body.

* `FlowContext`: what a walk knows of its surroundings, with the contexts in
  which a body is summarized or checked;
* `Walk`: the state at the point reached, what holds on all returns so far, and
  the early reads found;
* `Walk.read`, `Walk.produce`, `Walk.callOwn`, `Walk.assign`, `Walk.leave`: the
  steps;
* `Walk.assignedOnExit`, `Walk.summary`: what a finished walk has found out.
-/
import Ember.Flow.State

namespace Ember

open Program

/-- What a walk over a body knows of its surroundings. -/
structure FlowContext where
  named : List (Slot × ClassDecl)
  captures : Captures
  /-- The fields that are followed. -/
  fields : List Slot
  /-- The variables that are followed. -/
  locals : List Slot
  /-- The receiver, in the body of an instance. -/
  receiver : Option Slot
  summaries : Summaries
  /-- Whether the classes within the body are analysed too. -/
  inDepth : Bool

/-- A walk over a body: the state at the point reached, what holds on all
returns so far, and what has been found. -/
structure Walk where
  state : FlowState
  exit : FlowState
  found : List Finding

namespace Walk

/-- A walk that has not begun. -/
def start (entry : List Slot) : Walk := ⟨⟨entry, true⟩, .unreachable, []⟩

/-- Reads a slot on a line. -/
def read (ctx : FlowContext) (w : Walk) (s : Slot) (line : Line) : Walk :=
  if !w.state.reachable || s ∈ w.state.assigned then w
  else if s ∈ ctx.fields then { w with found := w.found ++ [⟨.field, s, line⟩] }
  else if s ∈ ctx.locals then { w with found := w.found ++ [⟨.variable, s, line⟩] }
  else w

/-- Reads slots on a line one by one. -/
def readAll (ctx : FlowContext) (w : Walk) (slots : List Slot) (line : Line) : Walk :=
  slots.foldl (fun w s => w.read ctx s line) w

/-- A class value comes about, which reads all that the class captures. -/
def produce (ctx : FlowContext) (w : Walk) (c : ClassDecl) (line : Line) : Walk :=
  w.readAll ctx (ctx.captures.of c) line

/-- Notes an assignment. -/
def assign (w : Walk) (s : Slot) : Walk := { w with state := w.state.assign s }

/-- A method is called on the body's own instance: what it requires is read
here, and what it assigns is assigned from here on. -/
def callOwn (ctx : FlowContext) (w : Walk) (method : Selector) (line : Line) : Walk :=
  match ctx.summaries.lookup method with
  | none => w
  | some summary =>
    let w := w.readAll ctx summary.requires line
    if w.state.reachable then
      { w with state := { w.state with assigned := addSlots w.state.assigned summary.assigns } }
    else w

/-- Goes on from another state. -/
def resume (w : Walk) (st : FlowState) : Walk := { w with state := st }

/-- Leaves the body. -/
def leave (w : Walk) : Walk :=
  { w with exit := w.exit.join w.state, state := { w.state with reachable := false } }

/-- What is assigned on every way out of the body; everything that is followed
if there is none. -/
def assignedOnExit (ctx : FlowContext) (w : Walk) : List Slot :=
  let exit := w.exit.join w.state
  if exit.reachable then exit.assigned else ctx.fields

/-- The fields that the walk found to be read early, and those assigned on
every way out. -/
def summary (ctx : FlowContext) (w : Walk) : Summary :=
  ⟨ctx.fields.filter fun f => f ∈ w.found.map Finding.slot,
    ctx.fields.filter fun f => f ∈ w.assignedOnExit ctx⟩

end Walk

namespace FlowContext

/-- The context of a body that belongs to no instance. -/
def plain (ctx : FlowContext) (body : Block) : FlowContext :=
  { ctx with
    fields := [], locals := body.locals, receiver := none, summaries := [], inDepth := true }

/-- The context in which a body of an instance is summarized: only its fields
matter. -/
def summarizing (ctx : FlowContext) (fields : List Slot) (receiver : Slot)
    (summaries : Summaries) : FlowContext :=
  { ctx with fields, locals := [], receiver := some receiver, summaries, inDepth := false }

/-- The context in which a body of an instance is checked. -/
def checking (ctx : FlowContext) (fields : List Slot) (receiver : Slot) (summaries : Summaries)
    (body : Block) : FlowContext :=
  { ctx with
    fields, locals := body.locals, receiver := some receiver, summaries, inDepth := true }

end FlowContext

end Ember
