/-
Type inference over a resolved program. Every slot starts with an unknown type,
and every use of it demands that one type be below another. A demand that
cannot be met is reported once, and inference goes on.

* `TypeProblem`: a demand that cannot be met, with the line that makes it;
* `Inference`: the types so far, those of the slots among them;
* `inferExpr`, `inferStmt`, `inferBlock`, `inferClass`: the walk over the
  program. A statement has the type of the value it returns, the least type of
  all if it returns none;
* `inferScript`: a whole program, and `typeDiagnostics` the reports on it.
-/
import Ember.Program
import Ember.Types.Builtin
import Ember.Types.Subtyping

namespace Ember

/-- A demand on the types of a program that cannot be met. -/
structure TypeProblem where
  line : Line
  conflict : Conflict
deriving DecidableEq, Repr

/-- The report of a demand that cannot be met. -/
def TypeProblem.diagnostic (g : TypeGraph) (p : TypeProblem) : Diagnostic :=
  Diagnostic.atLine .typecheck p.line (p.conflict.message g)

/-- The types of a program as far as it has been walked over. -/
structure Inference where
  graph : TypeGraph
  builtins : Builtins
  bottom : TypeId
  slots : List (Slot × TypeId)
  problems : List TypeProblem

namespace Inference

/-- The built-in types alone. -/
def start : Inference :=
  let (builtins, graph) := Builtins.install .empty
  let (bottom, graph) := graph.push .bottom
  ⟨graph, builtins, bottom, [], []⟩

end Inference

/-- A step of inference. -/
abbrev Infer := StateM Inference

namespace Infer

/-- A type about which nothing is known yet. -/
def fresh : Infer TypeId :=
  modifyGet fun st =>
    let (t, graph) := st.graph.fresh
    (t, { st with graph })

/-- As many unknown types as a list has elements. -/
def freshFor {α : Type} : List α → Infer (List TypeId)
  | [] => return []
  | _ :: xs => do
    let t ← fresh
    return t :: (← freshFor xs)

/-- The type of a class with the given methods. -/
def shape (s : Shape) : Infer TypeId :=
  modifyGet fun st =>
    let (t, graph) := st.graph.push (.cls s)
    (t, { st with graph })

/-- The least type. -/
def bottom : Infer TypeId := return (← get).bottom

/-- Gives a slot a type. -/
def bind (s : Slot) (t : TypeId) : Infer Unit :=
  modify fun st => { st with slots := putByKey Prod.fst (s, t) st.slots }

/-- The type of a slot, which its first use makes. -/
def slotType (s : Slot) : Infer TypeId := do
  match findByKey? Prod.fst s (← get).slots with
  | some (_, t) => return t
  | none =>
    let t ← fresh
    bind s t
    return t

/-- The types of slots, one by one. -/
def slotTypes : List Slot → Infer (List TypeId)
  | [] => return []
  | s :: ss => do
    let t ← slotType s
    return t :: (← slotTypes ss)

/-- Demands on a line that the left type be below the right one. Of the
conflicts this leads to, the first is kept. -/
def demand (left right : TypeId) (line : Line) : Infer Unit :=
  modify fun st =>
    let (graph, conflicts) := st.graph.constrain left right
    { st with
      graph
      problems := st.problems ++ (conflicts.head?.map fun c => ⟨line, c⟩).toList }

/-- Demands that types be below others one by one. -/
def demandEach (line : Line) : List TypeId → List TypeId → Infer Unit
  | l :: ls, r :: rs => do
    demand l r line
    demandEach line ls rs
  | _, _ => return

/-- Demands that a type be a boolean. -/
def demandBoolean (t : TypeId) (line : Line) : Infer Unit := do
  demand t (← get).builtins.boolean line

/-- The types of a class's two receivers, the class itself first. -/
def receivers (c : Program.ClassDecl) : Infer (TypeId × TypeId) := do
  let statics ← slotType c.staticReceiver
  return (statics, ← slotType c.receiver)

/-- Gives the classes of a block the types of their receivers. -/
def declareClasses : List (Slot × Program.ClassDecl) → Infer Unit
  | [] => return
  | (s, c) :: rest => do
    let (statics, _) ← receivers c
    bind s statics
    declareClasses rest

/-- The type of a literal; null may have any type. -/
def literal : Literal → Infer TypeId
  | .number _ => return (← get).builtins.number
  | .text _ => return (← get).builtins.text
  | .boolean _ => return (← get).builtins.boolean
  | .nil => fresh

/-- A call demands that the receiver have a method that takes the arguments. -/
def call (receiver : TypeId) (name : String) (arguments : Option (List TypeId)) (line : Line) :
    Infer TypeId := do
  let params ← match arguments with
    | none => pure none
    | some ts => do
      let ts ← freshFor ts
      pure (some ts)
  let result ← fresh
  let wanted ← shape [(⟨name, params.map List.length⟩, ⟨params, result⟩)]
  demand receiver wanted line
  demandEach line (arguments.getD []) (params.getD [])
  return result

/-- What a constructor makes is an instance, neither more nor less. -/
def demandInstance (instances : TypeId) (made : TypeId) (line : Line) : Infer Unit := do
  demand instances made line
  demand made instances line

end Infer

/-! ### The walk over the program -/

open Infer

mutual

/-- The type of an expression. -/
def inferExpr : Program.Expr → Infer TypeId
  | .assign target value line => do
    let value ← inferExpr value
    let target ← slotType target
    demand value target line
    return value
  | .call receiver name arguments line => do
    let receiver ← inferExpr receiver
    let arguments ← match arguments with
      | none => pure none
      | some es => do
        let ts ← inferExprs es
        pure (some ts)
    Infer.call receiver name arguments line
  | .literal value _ => Infer.literal value
  | .read s _ => slotType s
  | .logical _ left right line => do
    let left ← inferExpr left
    demandBoolean left line
    let right ← inferExpr right
    demandBoolean right line
    fresh
  | .cls decl => inferClass decl

/-- The types of expressions, from left to right. -/
def inferExprs : List Program.Expr → Infer (List TypeId)
  | [] => return []
  | e :: es => do
    let t ← inferExpr e
    return t :: (← inferExprs es)

/-- The type of the value that a statement returns. -/
def inferStmt : Program.Stmt → Infer TypeId
  | .block body => inferBlock body
  | .branch condition yes no line => do
    let c ← inferExpr condition
    demandBoolean c condition.line
    let yes ← inferStmt yes
    let no ← match no with
      | none => bottom
      | some s => inferStmt s
    let join ← fresh
    demand yes join line
    demand no join line
    return join
  | .loop condition body line => do
    let c ← inferExpr condition
    demandBoolean c condition.line
    let body ← inferStmt body
    let join ← fresh
    demand body join line
    demand (← bottom) join line
    return join
  | .var s init line => do
    let t ← slotType s
    match init with
    | none => pure ()
    | some e => do
      let value ← inferExpr e
      demand value t line
    bottom
  | .ret value _ =>
    match value with
    | none => fresh
    | some e => inferExpr e
  | .eval e => do
    let _ ← inferExpr e
    bottom

/-- Lets the types of statements flow into `join`. -/
def inferStmts (join : TypeId) : List Program.Stmt → Infer Unit
  | [] => return
  | s :: ss => do
    let t ← inferStmt s
    demand t join s.line
    inferStmts join ss

/-- The type of the value that a block returns. Its classes are typed first. -/
def inferBlock : Program.Block → Infer TypeId
  | ⟨statements, _, classes⟩ => do
    declareClasses classes
    inferClasses classes
    let join ← fresh
    inferStmts join statements
    return join

/-- Types the classes of a block. -/
def inferClasses : List (Slot × Program.ClassDecl) → Infer Unit
  | [] => return
  | (_, c) :: rest => do
    let _ ← inferClass c
    inferClasses rest

/-- The type of a class as a value. Its methods are typed before their types
flow into the receivers, so uses of a receiver are checked against all of them. -/
def inferClass : Program.ClassDecl → Infer TypeId
  | c@⟨_, line, _, _, constructors, staticMethods, methods, _, _⟩ => do
    let (statics, instances) ← receivers c
    let onInstance ← inferMethods [] methods
    let onClass ← inferMethods [] staticMethods
    let onClass ← inferConstructors instances onClass constructors
    let instanceShape ← shape onInstance
    let staticShape ← shape onClass
    demand instanceShape instances line
    demand staticShape statics line
    return statics

/-- Adds methods to a shape. -/
def inferMethods (s : Shape) : List Program.Method → Infer Shape
  | [] => return s
  | m :: ms => do
    let signature ← inferMethod m
    inferMethods (s.insert m.selector signature) ms

/-- Adds constructors to a shape, where they replace static methods. -/
def inferConstructors (instances : TypeId) (s : Shape) : List Program.Method → Infer Shape
  | [] => return s
  | m :: ms => do
    let signature ← inferMethod m
    demandInstance instances signature.result m.line
    inferConstructors instances (s.insert m.selector signature) ms

/-- The type of a method. -/
def inferMethod : Program.Method → Infer Signature
  | ⟨_, params, _, body, line⟩ => do
    let params ← match params with
      | none => pure none
      | some ps => do
        let ts ← slotTypes ps
        pure (some ts)
    let result ← fresh
    let returned ← inferBlock body
    demand returned result line
    return ⟨params, result⟩

end

/-! ### Whole programs -/

/-- Gives the globals the types that their host describes. -/
def inferGlobals (host : List (String × TypeSpec)) : List (Slot × String) → Infer Unit
  | [] => return
  | (s, name) :: rest => do
    match host.lookup name with
    | none =>
      let t ← fresh
      bind s t
    | some spec =>
      let t ← modifyGet fun st =>
        let (t, graph) := (Builtins.intern st.builtins spec).run st.graph
        (t, { st with graph })
      bind s t
    inferGlobals host rest

/-- All that inference finds out about a program whose host describes the types
of some globals. -/
def inferScript (host : List (String × TypeSpec)) (script : Program.Script) : Inference :=
  ((do
    inferGlobals host script.globals
    let _ ← inferBlock script.root : Infer Unit).run Inference.start).2

/-- The reports of inference. -/
def typeDiagnostics (host : List (String × TypeSpec)) (script : Program.Script) : List Diagnostic :=
  let found := inferScript host script
  found.problems.map (TypeProblem.diagnostic found.graph)

end Ember
