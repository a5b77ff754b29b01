/-
The slots that a class captures: those that its methods read and that it does
not declare, together with the captures of the classes that they mention.

* `Captures`: the captures found so far, by the receivers of the classes;
* `Captures.visit`: finds the captures of a class and of all that it leads to.
  A class that is mentioned while its own captures are being found counts as
  capturing nothing;
* `ClassDecl.visits`: the class values that come about in a class, in the order in
  which an analysis of the class meets them;
* `Captures.ofScript`: the captures of every class whose value comes about.
-/
import Ember.Flow.Mentions

namespace Ember

open Program

/-- Captured slots by the receivers of the classes that capture them. -/
abbrev Captures := List (Slot × List Slot)

/-- Adds slots to a list, leaving out those that are there. -/
def addSlots (slots new : List Slot) : List Slot :=
  new.foldl (fun acc s => if s ∈ acc then acc else acc ++ [s]) slots

namespace Captures

/-- The captures of a class, as far as they have been found. -/
def of (captures : Captures) (c : ClassDecl) : List Slot := (captures.lookup c.receiver).getD []

/-- Notes the captures of a class. -/
def put (captures : Captures) (c : ClassDecl) (slots : List Slot) : Captures :=
  putByKey Prod.fst (c.receiver, slots) captures

/-- The class whose value a mention brings about or refers to. -/
def mentioned? (named : List (Slot × ClassDecl)) : Mention → Option ClassDecl
  | .read s => named.lookup s
  | .made c | .declares c => some c

/-- The slot that a mention reads. -/
def slotsRead : Mention → List Slot
  | .read s => [s]
  | .made _ | .declares _ => []

/-- Finds the captures of a class unless they have been found. Classes lead to
each other no deeper than there are classes, which `fuel` allows for. -/
def visit (named : List (Slot × ClassDecl)) : Nat → ClassDecl → Captures → Captures
  | 0, _, captures => captures
  | fuel + 1, c, captures =>
    if (captures.lookup c.receiver).isSome then captures
    else
      let (captures, reads) := c.mentions.foldl (fun (captures, reads) m =>
        let reads := addSlots reads (slotsRead m)
        match mentioned? named m with
        | none => (captures, reads)
        | some d =>
          let captures := visit named fuel d captures
          (captures, addSlots reads (captures.of d))) (captures.put c [], [])
      captures.put c (reads.filter fun s => s ∉ c.declared)

end Captures

/-! ### The order of an analysis -/

namespace Program

/-- The class values that come about in a body, classes within it aside. -/
def Block.produced (named : List (Slot × ClassDecl)) (b : Block) : List ClassDecl :=
  b.mentions.filterMap fun
    | .read s => named.lookup s
    | .made c => some c
    | .declares _ => none

mutual

/-- The class values that come about while an expression is analysed. -/
def Expr.visits (named : List (Slot × ClassDecl)) : Expr → List ClassDecl
  | .assign _ value _ => value.visits named
  | .call receiver _ arguments _ =>
    receiver.visits named ++ (match arguments with | none => [] | some es => exprVisits named es)
  | .literal _ _ => []
  | .read s _ => (named.lookup s).toList
  | .logical _ left right _ => left.visits named ++ right.visits named
  | .cls decl => decl.visits named ++ [decl]

/-- Those of expressions, from left to right. -/
def exprVisits (named : List (Slot × ClassDecl)) : List Expr → List ClassDecl
  | [] => []
  | e :: es => e.visits named ++ exprVisits named es

/-- The class values that come about while a statement is analysed. -/
def Stmt.visits (named : List (Slot × ClassDecl)) : Stmt → List ClassDecl
  | .block body => body.visits named
  | .branch condition yes no _ =>
    condition.visits named ++ yes.visits named ++
      (match no with | none => [] | some s => s.visits named)
  | .loop condition body _ => condition.visits named ++ body.visits named
  | .var _ init _ => match init with | none => [] | some e => e.visits named
  | .ret value _ => match value with | none => [] | some e => e.visits named
  | .eval e => e.visits named

/-- Those of statements, in order. -/
def stmtVisits (named : List (Slot × ClassDecl)) : List Stmt → List ClassDecl
  | [] => []
  | s :: ss => s.visits named ++ stmtVisits named ss

/-- The class values that come about while a block is analysed, in its classes
first. -/
def Block.visits (named : List (Slot × ClassDecl)) : Block → List ClassDecl
  | ⟨statements, _, classes⟩ => classVisits named classes ++ stmtVisits named statements

/-- Those of the classes of a block. -/
def classVisits (named : List (Slot × ClassDecl)) : List (Slot × ClassDecl) → List ClassDecl
  | [] => []
  | (_, c) :: cs => c.visits named ++ classVisits named cs

/-- The class values that come about while a class is analysed: first in its
methods and constructors taken by themselves, then in all of its bodies with
the classes within them. -/
def ClassDecl.visits (named : List (Slot × ClassDecl)) : ClassDecl → List ClassDecl
  | ⟨_, _, _, _, constructors, staticMethods, methods, _, _⟩ =>
    methods.flatMap (fun m => m.body.produced named) ++
      constructors.flatMap (fun m => m.body.produced named) ++
      methodVisits named constructors ++ methodVisits named methods ++
      methodVisits named staticMethods

/-- Those of the bodies of methods. -/
def methodVisits (named : List (Slot × ClassDecl)) : List Method → List ClassDecl
  | [] => []
  | ⟨_, _, _, body, _⟩ :: ms => body.visits named ++ methodVisits named ms

end

end Program

/-- The captures of every class of a program whose value comes about. -/
def Captures.ofScript (script : Script) : Captures :=
  let named := script.namedClasses
  let fuel := script.classes.length + 1
  (script.root.visits named).foldl (fun captures c => visit named fuel c captures) []

end Ember
