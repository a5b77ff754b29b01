/-
Name resolution: from the program as it is written to the program over slots.

* `Resolve.namedSlot`, `Resolve.instanceField`, `Resolve.staticField`,
  `Resolve.thisSlot`: the slot that a use of a name stands for. A use that stands
  for nothing is a mistake, and gets a global slot so that it has one all the
  same;
* `resolveExpr`, `resolveStmt`, `resolveStmts`, `resolveMethods`: the walk over
  the program. The classes of a block are declared before its statements are
  resolved, so that they may refer to each other;
* `resolve`: a whole program. Its result is a script whatever mistakes it has.
-/
import Ember.Scope.Stack

namespace Ember

namespace Resolve

/-! ### Uses of names -/

/-- The slot of a variable, and whether it holds a class. -/
def namedSlot (name : Name) : Resolve (Slot × Bool) := do
  match ← lookup? name.text with
  | some b =>
    if !b.initialized then report (.usedInOwnInitializer name)
    return (b.slot, b.kind = .cls)
  | none =>
    report (.undeclared name)
    return (← fillHole name, false)

/-- The slot of a field of the instance. -/
def instanceField (name : Name) : Resolve Slot := do
  match (← get).fieldScopes.head? with
  | none =>
    report (.fieldOutsideClass name)
    fillHole name
  | some ⟨.onClass, _, _⟩ =>
    report (.instanceFieldInStaticMethod name)
    fillHole name
  | some ⟨.onInstance, _, _⟩ =>
    match ← field? .onInstance name.text with
    | some slot => return slot
    | none => fillHole name

/-- The slot of a field of the class. -/
def staticField (name : Name) : Resolve Slot := do
  match ← field? .onClass name.text with
  | some slot => return slot
  | none =>
    report (.fieldOutsideClass name)
    fillHole name

/-- The slot of the receiver. -/
def thisSlot (line : Line) : Resolve Slot := do
  match ← receiver? with
  | some slot => return slot
  | none =>
    report (.thisOutsideClass line)
    fillHole ⟨"this", line⟩

/-- The slot of a variable that is assigned to; a class keeps its value. -/
def assigned (name : Name) : Resolve Slot := do
  let (slot, isClass) ← namedSlot name
  if isClass then report (.assignedClass name)
  return slot

/-! ### Declarations -/

/-- Declares the classes of a block, each with the slot it will be filed under:
of several with one name, the last one's. -/
def hoist : List Syntax.Stmt → Resolve (List (String × Slot))
  | [] => return []
  | .cls name _ :: rest => do
    let slot ← declare name .cls true
    let later ← hoist rest
    return later ++ [(name.text, slot)]
  | _ :: rest => hoist rest

/-- A branch that declares something gets a scope of its own. -/
def branch (s : Syntax.Stmt) (walk : List (String × Slot) → Resolve (Option Program.Stmt)) :
    Resolve Program.Stmt := do
  match s with
  | .var _ _ | .cls _ _ =>
    let block ← inScope do
      let hoisted ← hoist [s]
      return (← walk hoisted).toList
    return .block block
  | _ => return (← walk []).getD (.block .empty)

/-- A method: its parameters have a scope around that of its body. -/
def method (name : String) (params : Option (List Name)) (line : Line)
    (body : Resolve Program.Block) : Resolve Program.Method := do
  openScope
  let params ← params.mapM fun names => names.mapM fun p => declare p .param true
  let body ← body
  let scope ← closeScope
  return ⟨name, params, scope.names, body, line⟩

/-- The class that a block of code handed to a call stands for: its instances
answer to `call`, and it has no fields of its own. -/
def codeClass (receiver staticReceiver : Slot) (call : Program.Method) (line : Line) :
    Program.ClassDecl where
  name := "Fn"
  line := line
  receiver := receiver
  staticReceiver := staticReceiver
  constructors := [⟨"new", some [], [], .empty, line⟩]
  staticMethods := []
  methods := [call]
  fields := []
  staticFields := []

/-- The members of a class that have been resolved so far. -/
structure Members where
  constructors : List Program.Method
  staticMethods : List Program.Method
  methods : List Program.Method
  /-- The side of the instance, while it is not open. -/
  instanceSide : FieldScope

namespace Members

/-- A class body before its first member. -/
def start (receiver : Slot) : Members := ⟨[], [], [], ⟨.onInstance, receiver, []⟩⟩

/-- Whether a member of this kind would take a place that is taken.
Constructors and static methods share their places. -/
def isTaken (m : Members) (kind : Syntax.MethodKind) (s : Selector) : Bool :=
  match kind with
  | .construct | .onClass =>
    (Program.findMethod? s m.constructors).isSome || (Program.findMethod? s m.staticMethods).isSome
  | .onInstance => (Program.findMethod? s m.methods).isSome

/-- Adds a member to the table of its kind. -/
def add (m : Members) (kind : Syntax.MethodKind) (x : Program.Method) : Members :=
  match kind with
  | .construct => { m with constructors := insertByKey Program.Method.selector x m.constructors }
  | .onClass => { m with staticMethods := insertByKey Program.Method.selector x m.staticMethods }
  | .onInstance => { m with methods := insertByKey Program.Method.selector x m.methods }

end Members

/-- Resolves a member on the side of the class it belongs to and adds it. -/
def member (cls : String) (m : Members) (kind : Syntax.MethodKind) (name : Name)
    (walk : Resolve Program.Method) : Resolve Members := do
  let (x, side) ← match kind with
    | .onClass => do
      let x ← walk
      pure (x, m.instanceSide)
    | .construct | .onInstance => withFields m.instanceSide walk
  if m.isTaken kind x.selector then report (.methodAlreadyDeclared name x.selector cls)
  return { m.add kind x with instanceSide := side }

/-- A class, whose members are resolved by `walk` inside its static side. -/
def classDecl (name : Name) (walk : Members → Resolve Members) : Resolve Program.ClassDecl := do
  let receiver ← fresh
  let staticReceiver ← fresh
  let (m, statics) ← withFields ⟨.onClass, staticReceiver, []⟩ (walk (.start receiver))
  return {
    name := name.text
    line := name.line
    receiver
    staticReceiver
    constructors := m.constructors
    staticMethods := m.staticMethods
    methods := m.methods
    fields := m.instanceSide.fields
    staticFields := statics.fields }

end Resolve

/-! ### The walk over the program -/

open Resolve

mutual

/-- An expression over slots. -/
def resolveExpr : Syntax.Expr → Resolve Program.Expr
  | .assign target value line => do
    let slot ← match target with
      | .variable name => assigned name
      | .field name => instanceField name
      | .staticField name => staticField name
      | _ => do
        report (.invalidTarget target.line)
        let _ ← resolveExpr target
        fillHole ⟨"<invalid>", target.line⟩
    return .assign slot (← resolveExpr value) line
  | .call receiver name arguments code => do
    let receiver ← resolveExpr receiver
    let arguments ← match arguments with
      | none => pure none
      | some es => do
        let es ← resolveExprs es
        pure (some es)
    let arguments ← match code with
      | none => pure arguments
      | some ⟨params, body, line⟩ => do
        let own ← fresh
        let ownStatic ← fresh
        let call ← method "call" (some params) line (inScope do resolveStmts (← hoist body) body)
        let value : Program.Expr :=
          .call (.cls (codeClass own ownStatic call line)) "new" (some []) line
        pure (some (arguments.getD [] ++ [value]))
    return .call receiver name.text arguments name.line
  | .literal value line => return .literal value line
  | .variable name => return .read (← namedSlot name).1 name.line
  | .field name => return .read (← instanceField name) name.line
  | .staticField name => return .read (← staticField name) name.line
  | .this line => return .read (← thisSlot line) line
  | .logical op left right line => do
    let left ← resolveExpr left
    return .logical op left (← resolveExpr right) line

/-- Expressions over slots, resolved from left to right. -/
def resolveExprs : List Syntax.Expr → Resolve (List Program.Expr)
  | [] => return []
  | e :: es => do
    let e ← resolveExpr e
    return e :: (← resolveExprs es)

/-- A statement over slots. A class is no statement any more, but filed in the
innermost scope under the slot it was declared with. -/
def resolveStmt (hoisted : List (String × Slot)) : Syntax.Stmt → Resolve (Option Program.Stmt)
  | .block body => do
    return some (.block (← inScope do resolveStmts (← hoist body) body))
  | .branch condition yes no line => do
    let condition ← resolveExpr condition
    let yes ← branch yes fun hoisted => resolveStmt hoisted yes
    let no ← match no with
      | none => pure none
      | some no => do
        let no ← branch no fun hoisted => resolveStmt hoisted no
        pure (some no)
    return some (.branch condition yes no line)
  | .loop condition body line => do
    let condition ← resolveExpr condition
    let body ← branch body fun hoisted => resolveStmt hoisted body
    return some (.loop condition body line)
  | .var name init => do
    let slot ← declare name .var false
    let init ← match init with
      | none => pure none
      | some e => do
        let e ← resolveExpr e
        pure (some e)
    markInitialized name.text
    return some (.var slot init name.line)
  | .cls name methods => do
    match hoisted.lookup name.text with
    | none => return none
    | some slot =>
      let c ← insideClass slot (classDecl name fun m => resolveMethods name.text m methods)
      addClass slot c
      return none
  | .ret value line => do
    let value ← match value with
      | none => pure none
      | some e => do
        let e ← resolveExpr e
        pure (some e)
    return some (.ret value line)
  | .eval e => return some (.eval (← resolveExpr e))

/-- Statements over slots; the classes among them are filed in their scope. -/
def resolveStmts (hoisted : List (String × Slot)) : List Syntax.Stmt → Resolve (List Program.Stmt)
  | [] => return []
  | s :: ss => do
    let s ← resolveStmt hoisted s
    return s.toList ++ (← resolveStmts hoisted ss)

/-- Adds the members of the class called `name` to those in `m`. -/
def resolveMethods (name : String) (m : Members) : List Syntax.Method → Resolve Members
  | [] => return m
  | ⟨kind, own, params, body⟩ :: rest => do
    let m ← member name m kind own
      (method own.text params own.line (inScope do resolveStmts (← hoist body) body))
    resolveMethods name m rest

end

/-- Makes a global for each name, none of them used so far. -/
def declareGlobals : List String → Resolve Unit
  | [] => return
  | name :: rest => do
    let _ ← makeGlobal ⟨name, 0⟩ false
    declareGlobals rest

/-- A whole program, resolved with the given globals around it. -/
def resolve (globals : List String) (program : List Syntax.Stmt) :
    Program.Script × List ScopeProblem :=
  let (root, st) := (do
    declareGlobals globals
    inScope do resolveStmts (← hoist program) program : Resolve Program.Block).run Scopes.start
  (⟨root, st.globals⟩, st.problems)

end Ember
