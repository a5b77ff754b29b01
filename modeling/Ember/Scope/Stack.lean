/-
The scopes around a point of the program while its names are being resolved.

* `Binding`: what a name stands for in a scope, and what has become of it;
* `Scope`: the bindings of one block or parameter list;
* `FieldScope`: the fields seen so far on one side of a class;
* `Scopes`: the whole state, with the slots handed out and the mistakes found;
* `Resolve`: a step on that state, and the steps that resolution is made of:
  `Resolve.declare`, `Resolve.lookup?`, `Resolve.makeGlobal`, `Resolve.inScope`
  and `Resolve.field?`.
-/
import Ember.Program
import Ember.Scope.Problem

namespace Ember

/-! ### Bindings -/

/-- What a name was declared as. -/
inductive BindingKind where
  | var
  | cls
  | param
  | global
deriving DecidableEq, Repr

/-- What a name stands for in a scope. -/
structure Binding where
  name : Name
  slot : Slot
  kind : BindingKind
  initialized : Bool
  used : Bool
deriving DecidableEq, Repr

namespace Binding

/-- The text by which a binding is found. -/
def text (b : Binding) : String := b.name.text

/-- The mistake of never using a binding. Parameters and globals may stay
unused. -/
def unusedProblem? (b : Binding) : Option ScopeProblem :=
  if b.used then none
  else match b.kind with
    | .var => some (.unusedVariable b.name)
    | .cls => some (.unusedClass b.name)
    | .param | .global => none

end Binding

/-- The bindings of one block or parameter list, in the order in which their
names were first declared. -/
structure Scope where
  bindings : List Binding
  names : List (Slot × String)
  classes : List (Slot × Program.ClassDecl)

namespace Scope

/-- The scope in which nothing is declared. -/
def empty : Scope := ⟨[], [], []⟩

/-- What a name stands for in this scope alone. -/
def find? (s : Scope) (text : String) : Option Binding :=
  findByKey? Binding.text text s.bindings

/-- Adds a binding, or puts it in the place of the one with the same name. -/
def put (s : Scope) (b : Binding) : Scope :=
  { s with bindings := putByKey Binding.text b s.bindings }

end Scope

/-! ### Fields -/

/-- The two sides of a class that have fields. -/
inductive Side where
  | onClass
  | onInstance
deriving DecidableEq, Repr

/-- The fields seen so far on one side of a class, and its receiver. -/
structure FieldScope where
  side : Side
  receiver : Slot
  fields : List (Slot × String)
deriving DecidableEq, Repr

namespace FieldScope

/-- The slot of a field that has been seen. -/
def find? (s : FieldScope) (name : String) : Option Slot :=
  (findByKey? Prod.snd name s.fields).map Prod.fst

end FieldScope

/-! ### The state of resolution -/

/-- The scopes around a point of the program, innermost first, with everything
that resolution has found up to there. -/
structure Scopes where
  nextSlot : Slot
  scopes : List Scope
  globalScope : Scope
  fieldScopes : List FieldScope
  /-- The classes whose bodies are being resolved. -/
  enclosing : List Slot
  globals : List (Slot × String)
  problems : List ScopeProblem

/-- The state before anything is resolved. -/
def Scopes.start : Scopes := ⟨⟨0⟩, [], .empty, [], [], [], []⟩

/-- A step of resolution. -/
abbrev Resolve := StateM Scopes

namespace Resolve

/-- Hands out a slot. -/
def fresh : Resolve Slot :=
  modifyGet fun st => (st.nextSlot, { st with nextSlot := st.nextSlot.next })

/-- Notes a mistake. -/
def report (p : ScopeProblem) : Resolve Unit :=
  modify fun st => { st with problems := st.problems ++ [p] }

/-! ### Scopes and declarations -/

/-- Changes the innermost scope. -/
def modifyInnermost (f : Scope → Scope) : Resolve Unit :=
  modify fun st =>
    match st.scopes with
    | [] => { st with globalScope := f st.globalScope }
    | s :: rest => { st with scopes := f s :: rest }

/-- The innermost scope. -/
def innermost : Resolve Scope := do
  let st ← get
  return st.scopes.headD st.globalScope

/-- Opens a scope. -/
def openScope : Resolve Unit :=
  modify fun st => { st with scopes := .empty :: st.scopes }

/-- Closes the innermost scope and notes which of its names were never used. -/
def closeScope : Resolve Scope :=
  modifyGet fun st =>
    let scope := st.scopes.headD .empty
    (scope, { st with
      scopes := st.scopes.tail
      problems := st.problems ++ scope.bindings.filterMap Binding.unusedProblem? })

/-- Declares a name in the innermost scope. A second declaration of a name
there is a mistake, and counts from then on. -/
def declare (name : Name) (kind : BindingKind) (initialized : Bool) : Resolve Slot := do
  let slot ← fresh
  if ((← innermost).find? name.text).isSome then report (.alreadyDeclared name)
  modifyInnermost fun s =>
    { s.put ⟨name, slot, kind, initialized, false⟩ with names := s.names ++ [(slot, name.text)] }
  return slot

/-- Notes that the initializer of a variable has been resolved. -/
def markInitialized (text : String) : Resolve Unit :=
  modifyInnermost fun s =>
    match s.find? text with
    | none => s
    | some b => s.put { b with initialized := true }

/-- Runs a step in a scope of its own and makes a block of what it returns. -/
def inScope (walk : Resolve (List Program.Stmt)) : Resolve Program.Block := do
  openScope
  let statements ← walk
  let scope ← closeScope
  return ⟨statements, scope.names, scope.classes⟩

/-- Files a class under its slot in the innermost scope. -/
def addClass (slot : Slot) (c : Program.ClassDecl) : Resolve Unit :=
  modifyInnermost fun s => { s with classes := insertByKey Prod.fst (slot, c) s.classes }

/-- Runs a step inside the body of the class in a slot. -/
def insideClass {α : Type} (slot : Slot) (walk : Resolve α) : Resolve α := do
  modify fun st => { st with enclosing := slot :: st.enclosing }
  let result ← walk
  modify fun st => { st with enclosing := st.enclosing.tail }
  return result

/-! ### Uses of names -/

/-- The binding after a use of its name. A class is not used by its own body. -/
def markUsed (enclosing : List Slot) (b : Binding) : Binding :=
  if b.kind = .cls ∧ b.slot ∈ enclosing then b else { b with used := true }

/-- The nearest binding of a name in a stack of scopes, marked as used there. -/
def useIn (enclosing : List Slot) (text : String) : List Scope → Option (Binding × List Scope)
  | [] => none
  | s :: rest =>
    match s.find? text with
    | some b => some (b, s.put (markUsed enclosing b) :: rest)
    | none => (useIn enclosing text rest).map fun (b, rest) => (b, s :: rest)

/-- The nearest binding of a name, which is marked as used. -/
def lookup? (text : String) : Resolve (Option Binding) :=
  modifyGet fun st =>
    match useIn st.enclosing text st.scopes with
    | some (b, scopes) => (some b, { st with scopes })
    | none =>
      match st.globalScope.find? text with
      | some b =>
        (some b, { st with globalScope := st.globalScope.put (markUsed st.enclosing b) })
      | none => (none, st)

/-! ### Globals -/

/-- Makes a global slot and binds a name to it outside of all blocks. -/
def makeGlobal (name : Name) (used : Bool) : Resolve Slot := do
  let slot ← fresh
  modify fun st => { st with
    globals := st.globals ++ [(slot, name.text)]
    globalScope := st.globalScope.put ⟨name, slot, .global, true, used⟩ }
  return slot

/-- Fills the hole that a mistake leaves with a global slot. -/
def fillHole (name : Name) : Resolve Slot := makeGlobal name true

/-! ### Fields and receivers -/

/-- Opens one side of a class. -/
def openFields (s : FieldScope) : Resolve Unit :=
  modify fun st => { st with fieldScopes := s :: st.fieldScopes }

/-- Closes the innermost side of a class. -/
def closeFields (s : FieldScope) : Resolve FieldScope :=
  modifyGet fun st =>
    (st.fieldScopes.headD s, { st with fieldScopes := st.fieldScopes.tail })

/-- Runs a step on a side of a class, which is then as the step left it. -/
def withFields {α : Type} (s : FieldScope) (walk : Resolve α) : Resolve (α × FieldScope) := do
  openFields s
  let result ← walk
  return (result, ← closeFields s)

/-- Adds a field to the innermost side of one kind. -/
def addField (side : Side) (field : Slot × String) : List FieldScope → List FieldScope
  | [] => []
  | s :: rest =>
    if s.side = side then { s with fields := s.fields ++ [field] } :: rest
    else s :: addField side field rest

/-- The slot of a field on the innermost side of one kind, if there is one. The
first use of a field hands out its slot. -/
def field? (side : Side) (name : String) : Resolve (Option Slot) := do
  match (← get).fieldScopes.find? fun s => s.side = side with
  | none => return none
  | some s =>
    match s.find? name with
    | some slot => return some slot
    | none =>
      let slot ← fresh
      modify fun st => { st with fieldScopes := addField side (slot, name) st.fieldScopes }
      return some slot

/-- The receiver at this point. -/
def receiver? : Resolve (Option Slot) := do
  return (← get).fieldScopes.head?.map FieldScope.receiver

end Resolve

end Ember
