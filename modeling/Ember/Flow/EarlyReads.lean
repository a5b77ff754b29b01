/-
Early reads: locals, and fields of an instance, that may be read before a value
has been assigned to them.

* `Expr.flow`, `Stmt.flow`, `Block.flow`: a walk over a body;
* `ClassDecl.findings`: the early reads in a class. Its methods are summarized
  until nothing changes any more, and may then rely on what every constructor
  assigns;
* `earlyReads`: those of a whole program, each slot on a line once, and
  `earlyReadDiagnostics` the reports on them.
-/
import Ember.Diagnostic
import Ember.Flow.Walk

namespace Ember

namespace Program

mutual

/-- The walk over an expression, in the order of its evaluation. The right operand
of a connective may be skipped, so what it assigns does not count after it. -/
def Expr.flow (ctx : FlowContext) : Expr → Walk → Walk
  | .assign target value _, w => (value.flow ctx w).assign target
  | .call receiver name arguments line, w =>
    let w := receiver.flow ctx w
    let w := match arguments with
      | none => w
      | some es => exprFlow ctx es w
    match receiver with
    | .read s _ =>
      if ctx.receiver = some s then w.callOwn ctx ⟨name, arguments.map List.length⟩ line else w
    | _ => w
  | .literal _ _, w => w
  | .read s line, w =>
    let w := w.read ctx s line
    match ctx.named.lookup s with
    | none => w
    | some c => w.produce ctx c line
  | .logical _ left right _, w =>
    let w := left.flow ctx w
    (right.flow ctx w).resume w.state
  | .cls decl, w =>
    let w := if ctx.inDepth then { w with found := w.found ++ decl.findings ctx } else w
    w.produce ctx decl decl.line

/-- The walk over expressions, from left to right. -/
def exprFlow (ctx : FlowContext) : List Expr → Walk → Walk
  | [], w => w
  | e :: es, w => exprFlow ctx es (e.flow ctx w)

/-- The branches of a conditional start from one state, and what a loop's body
assigns does not count after the loop. -/
def Stmt.flow (ctx : FlowContext) : Stmt → Walk → Walk
  | .block body, w => body.flow ctx w
  | .branch condition yes no _, w =>
    let w := condition.flow ctx w
    let first := yes.flow ctx w
    let second := match no with
      | none => first.resume w.state
      | some s => s.flow ctx (first.resume w.state)
    second.resume (first.state.join second.state)
  | .loop condition body _, w =>
    let w := condition.flow ctx w
    (body.flow ctx w).resume w.state
  | .var s init _, w =>
    match init with
    | none => w.resume (w.state.forget s)
    | some e => (e.flow ctx w).assign s
  | .ret value _, w =>
    match value with
    | none => w.leave
    | some e => (e.flow ctx w).leave
  | .eval e, w => e.flow ctx w

/-- The walk over statements, in order. -/
def stmtFlow (ctx : FlowContext) : List Stmt → Walk → Walk
  | [], w => w
  | s :: ss, w => stmtFlow ctx ss (s.flow ctx w)

/-- The walk over a block, whose classes are analysed as it is entered. -/
def Block.flow (ctx : FlowContext) : Block → Walk → Walk
  | ⟨statements, _, classes⟩, w =>
    stmtFlow ctx statements
      (if ctx.inDepth then { w with found := w.found ++ classFindings ctx classes } else w)

/-- The early reads in the classes of a block. -/
def classFindings (ctx : FlowContext) : List (Slot × ClassDecl) → List Finding
  | [] => []
  | (_, c) :: cs => c.findings ctx ++ classFindings ctx cs

/-- The early reads in the bodies of a class and in the classes within them. -/
def ClassDecl.findings (ctx : FlowContext) : ClassDecl → List Finding
  | ⟨_, _, receiver, _, constructors, staticMethods, methods, fields, _⟩ =>
    let fields := fields.map Prod.fst
    let summaries := settle (Summaries.weight fields)
      (fun summaries => summarizeMethods ctx fields receiver summaries methods)
      (Summaries.start fields methods)
    let constructed := constructedFields ctx fields receiver summaries fields constructors
    instanceFindings ctx fields receiver summaries [] constructors ++
      instanceFindings ctx fields receiver summaries constructed methods ++
      staticFindings ctx staticMethods

/-- One round over the methods, each summarized with what is known by then. -/
def summarizeMethods (ctx : FlowContext) (fields : List Slot) (receiver : Slot)
    (summaries : Summaries) : List Method → Summaries
  | [] => summaries
  | m@⟨_, _, _, body, _⟩ :: ms =>
    let own := ctx.summarizing fields receiver summaries
    let found := (body.flow own (.start [])).summary own
    summarizeMethods ctx fields receiver (summaries.merge fields m.selector found) ms

/-- The fields among `among` that every constructor assigns. -/
def constructedFields (ctx : FlowContext) (fields : List Slot) (receiver : Slot)
    (summaries : Summaries) (among : List Slot) : List Method → List Slot
  | [] => among
  | ⟨_, _, _, body, _⟩ :: ms =>
    let own := ctx.summarizing fields receiver summaries
    let found := (body.flow own (.start [])).summary own
    constructedFields ctx fields receiver summaries
      (among.filter fun f => f ∈ found.assigns) ms

/-- The early reads in bodies of an instance that find `entry` assigned. -/
def instanceFindings (ctx : FlowContext) (fields : List Slot) (receiver : Slot)
    (summaries : Summaries) (entry : List Slot) : List Method → List Finding
  | [] => []
  | ⟨_, _, _, body, _⟩ :: ms =>
    (body.flow (ctx.checking fields receiver summaries body) (.start entry)).found ++
      instanceFindings ctx fields receiver summaries entry ms

/-- The early reads in static methods. -/
def staticFindings (ctx : FlowContext) : List Method → List Finding
  | [] => []
  | ⟨_, _, _, body, _⟩ :: ms =>
    (body.flow (ctx.plain body) (.start [])).found ++ staticFindings ctx ms

end

end Program

/-! ### Whole programs -/

/-- The context of a program's outermost block. -/
def FlowContext.ofScript (script : Program.Script) : FlowContext :=
  { named := script.namedClasses
    captures := Captures.ofScript script
    fields := []
    locals := script.root.locals
    receiver := none
    summaries := []
    inDepth := true }

/-- Each finding about a slot on a line once, where it first comes. -/
def distinctFindings (seen : List (Line × Slot)) : List Finding → List Finding
  | [] => []
  | f :: fs =>
    if (f.line, f.slot) ∈ seen then distinctFindings seen fs
    else f :: distinctFindings ((f.line, f.slot) :: seen) fs

/-- The early reads of a program. -/
def earlyReads (script : Program.Script) : List Finding :=
  distinctFindings [] (script.root.flow (.ofScript script) (.start [])).found

/-- The report of an early read. -/
def Finding.diagnostic (names : List (Slot × String)) (f : Finding) : Diagnostic :=
  Diagnostic.atLine .flow f.line
    (f.kind.text ++ " '" ++ (names.lookup f.slot).getD "?" ++ "' is used before being assigned.")

/-- The reports on the early reads of a program. -/
def earlyReadDiagnostics (script : Program.Script) : List Diagnostic :=
  (earlyReads script).map (Finding.diagnostic script.names)

end Ember
