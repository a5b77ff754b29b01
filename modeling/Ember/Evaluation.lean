/-
The meaning of a resolved program: how its expressions and statements run.

* `Completion`: how a statement ends, normally or with a return;
* `makeClass`, `makeInstance`: a class or an instance as a value, with a frame of
  its own;
* `eval`, `runStmt`, `call`: expressions, statements and calls. A call looks
  for the method with exactly the name and the number of arguments. The fuel
  bounds how deeply steps may nest, a loop's rounds included;
* `interpret`: a whole program.
-/
import Ember.Machine
import Ember.Native

namespace Ember

open Program

/-- How a statement ends. A return carries its line. -/
inductive Completion where
  | normal
  | returned (v : Value) (line : Line)

variable {σ : Type}

/-! ### Objects -/

/-- Makes a class object inside an environment. -/
def makeClass (decl : ClassDecl) (e : Environment) : Run σ ClassObject := do
  let statics ← Run.child e
  Run.declareNull statics decl.staticFields
  let c : ClassObject := ⟨decl, statics⟩
  Run.declare statics decl.staticReceiver (.cls c)
  return c

/-- Makes the class objects of a block. -/
def makeClasses (e : Environment) : List (Slot × ClassDecl) → Run σ Unit
  | [] => return
  | (s, decl) :: rest => do
    let c ← makeClass decl e
    Run.declare e s (.cls c)
    makeClasses e rest

/-- Makes an instance whose fields are null. Its frame lies inside that of its
class, so that its methods see the static fields. -/
def makeInstance (c : ClassObject) : Run σ Instance := do
  let e ← Run.child c.statics
  Run.declareNull e c.decl.fields
  let i : Instance := ⟨c, e⟩
  Run.declare e c.decl.receiver (.obj i)
  return i

/-! ### Calls, expressions and statements -/

mutual

/-- Calls a method; without arguments it is a getter. -/
def call (host : Host σ) (fuel : Nat) (receiver : Value) (name : String)
    (arguments : Option (List Value)) (line : Line) : Run σ Value :=
  match fuel with
  | 0 => Run.exhausted
  | fuel + 1 =>
    let method : Selector := ⟨name, arguments.map List.length⟩
    let missing : Run σ Value := Run.fail line (.notImplemented receiver.className method)
    match receiver with
    | .cls c =>
      match findMethod? method c.decl.constructors with
      | some constructor => do
        let i ← makeInstance c
        let _ ← runBody host fuel constructor i.env arguments
        return .obj i
      | none =>
        match findMethod? method c.decl.staticMethods with
        | some m => runBody host fuel m c.statics arguments
        | none => missing
    | .obj i =>
      match findMethod? method i.cls.decl.methods with
      | some m => runBody host fuel m i.env arguments
      | none => missing
    | .host h =>
      match host.findMethod? h method with
      | some m => Run.ofHost line m (arguments.getD [])
      | none => missing
    | _ =>
      match (NativeClass.of? receiver).bind fun c => c.find? method with
      | some m => Run.ofExcept line (m receiver (arguments.getD []))
      | none => missing

/-- Runs the body of a method. Without a return its value is null. -/
def runBody (host : Host σ) (fuel : Nat) (m : Method) (e : Environment)
    (arguments : Option (List Value)) : Run σ Value :=
  match fuel with
  | 0 => Run.exhausted
  | fuel + 1 => do
    let frame ← Run.child e
    Run.declareEach frame (m.params.getD []) (arguments.getD [])
    match ← runBlock host fuel m.body frame with
    | .normal => return .null
    | .returned v _ => return v

/-- Runs a block in a frame of its own. -/
def runBlock (host : Host σ) (fuel : Nat) (b : Block) (e : Environment) :
    Run σ Completion :=
  match fuel with
  | 0 => Run.exhausted
  | fuel + 1 => do
    let e ← Run.child e
    makeClasses e b.classes
    runStmts host fuel b.statements e

/-- Runs statements up to the first return. -/
def runStmts (host : Host σ) (fuel : Nat) (statements : List Stmt) (e : Environment) :
    Run σ Completion :=
  match fuel with
  | 0 => Run.exhausted
  | fuel + 1 =>
    match statements with
    | [] => return .normal
    | s :: ss => do
      match ← runStmt host fuel s e with
      | .normal => runStmts host fuel ss e
      | .returned v line => return .returned v line

/-- Runs a statement. -/
def runStmt (host : Host σ) (fuel : Nat) (s : Stmt) (e : Environment) : Run σ Completion :=
  match fuel with
  | 0 => Run.exhausted
  | fuel + 1 =>
    match s with
    | .block b => runBlock host fuel b e
    | .branch condition yes no _ => do
      if ← evalTest host fuel condition e then runStmt host fuel yes e
      else match no with
        | some s => runStmt host fuel s e
        | none => return .normal
    | .loop condition body _ => runLoop host fuel condition body e
    | .var s init _ => do
      let v ← match init with
        | some init => eval host fuel init e
        | none => pure .null
      Run.declare e s v
      return .normal
    | .ret value line => do
      let v ← match value with
        | some value => eval host fuel value e
        | none => pure .null
      return .returned v line
    | .eval expr => do
      let _ ← eval host fuel expr e
      return .normal

/-- Runs a loop up to the first return, as long as its condition holds. -/
def runLoop (host : Host σ) (fuel : Nat) (condition : Expr) (body : Stmt) (e : Environment) :
    Run σ Completion :=
  match fuel with
  | 0 => Run.exhausted
  | fuel + 1 => do
    if ← evalTest host fuel condition e then
      match ← runStmt host fuel body e with
      | .normal => runLoop host fuel condition body e
      | .returned v line => return .returned v line
    else return .normal

/-- Evaluates a condition, which has to be a boolean. -/
def evalTest (host : Host σ) (fuel : Nat) (condition : Expr) (e : Environment) : Run σ Bool :=
  match fuel with
  | 0 => Run.exhausted
  | fuel + 1 => do
    match ← eval host fuel condition e with
    | .boolean b => return b
    | .null => Run.fail condition.line .nullCondition
    | _ => Run.fail condition.line .nonBooleanCondition

/-- Evaluates an expression. -/
def eval (host : Host σ) (fuel : Nat) (expr : Expr) (e : Environment) : Run σ Value :=
  match fuel with
  | 0 => Run.exhausted
  | fuel + 1 =>
    match expr with
    | .assign target value line => do
      let v ← eval host fuel value e
      Run.assign e target v line
      return v
    | .call receiver name arguments line => do
      let receiver ← eval host fuel receiver e
      match arguments with
      | none => call host fuel receiver name none line
      | some es => do
        let vs ← evalAll host fuel es e
        call host fuel receiver name (some vs) line
    | .literal value _ => return .ofLiteral value
    | .read s line => Run.get e s line
    | .logical op left right line => do
      match ← eval host fuel left e with
      | .boolean b =>
        if b = op.settledBy then return .boolean b
        else match ← eval host fuel right e with
          | .boolean b => return .boolean b
          | _ => Run.fail line .logicalOperand
      | _ => Run.fail line .logicalOperand
    | .cls decl => do
      let c ← makeClass decl e
      return .cls c

/-- Evaluates expressions from left to right. -/
def evalAll (host : Host σ) (fuel : Nat) (es : List Expr) (e : Environment) :
    Run σ (List Value) :=
  match fuel with
  | 0 => Run.exhausted
  | fuel + 1 =>
    match es with
    | [] => return []
    | expr :: rest => do
      let v ← eval host fuel expr e
      let vs ← evalAll host fuel rest e
      return v :: vs

end

/-! ### Whole programs -/

/-- Binds the globals of a program to what the host supplies under their names,
or to null. -/
def bindGlobals (host : Host σ) (e : Environment) : List (Slot × String) → Run σ Unit
  | [] => return
  | (s, name) :: rest => do
    Run.declare e s (((host.global? name).map Global.value).getD .null)
    bindGlobals host e rest

/-- Runs a program. -/
def interpret (host : Host σ) (fuel : Nat) (script : Script) : Run σ Unit := do
  let e ← Run.root
  bindGlobals host e script.globals
  match ← runBlock host fuel script.root e with
  | .normal => return
  | .returned _ line => Run.fail line .returnOutsideMethod

end Ember
