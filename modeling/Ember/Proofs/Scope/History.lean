/-
The history of a resolution: what it declares, which words it comes across and what
slots they get, and the classes it makes, in the order in which this happens.

* `Place`: what is around a part of a program: the classes, the variables in whose
  initializers it lies, and the member of a class;
* `Occurrence`, `Declaration`, `ClassRecord`, `ScopeEvent`: what is recorded, each
  occurrence with the slot that resolution answers for it;
* `Syntax.Expr.history`, `Syntax.Stmt.history`: the history of a part of a program from
  the state in which its resolution starts;
* `history`: that of a whole program;
* `ScopeProblem.Topic`, `about`: the mistakes that are about one matter, in the order in
  which they are noted.

The states are those of resolution itself, and each slot is the answer that it gives there.
That the slots are those of the resolved program, and the classes those that are filed in
it, is `resolve_recounted`.
-/
import Mathlib
import Ember.Proofs.Scope.Closure

namespace Ember

open Resolve

/-! ### Events -/

/-- The ways in which a program refers to a slot. -/
inductive OccurrenceKind where
  | variable
  | field
  | staticField
  | this
  /-- An assignment to what cannot be assigned to. -/
  | invalid
deriving DecidableEq, Repr

/-- What is around a part of a program. -/
structure Place where
  /-- The slots of the classes around, innermost first. -/
  classes : List Slot
  /-- The variables in whose initializers the part lies, innermost first. -/
  initializers : List Slot
  /-- The kind of the innermost member around, with its class as it comes out of
  resolution. -/
  member : Option (Syntax.MethodKind × Program.ClassDecl)

namespace Place

/-- Outside of all classes and initializers. -/
def outermost : Place := ⟨[], [], none⟩

/-- In the initializer of a variable. -/
def inInitializer (p : Place) (slot : Slot) : Place :=
  { p with initializers := slot :: p.initializers }

/-- In the body of the class in a slot. -/
def inClass (p : Place) (slot : Slot) : Place := { p with classes := slot :: p.classes }

/-- In a member of a class. -/
def inMember (p : Place) (kind : Syntax.MethodKind) (c : Program.ClassDecl) : Place :=
  { p with member := some (kind, c) }

end Place

/-- A part of a program that refers to a slot. -/
structure Occurrence where
  kind : OccurrenceKind
  word : Name
  slot : Slot
  place : Place

/-- A name that is bound to a slot. -/
structure Declaration where
  kind : BindingKind
  name : Name
  slot : Slot

/-- A class as it is written, each member with what it is resolved to, and as it
comes out of resolution. -/
structure ClassRecord where
  name : Name
  members : List (Syntax.Method × Program.Method)
  decl : Program.ClassDecl

/-- What happens during resolution. -/
inductive ScopeEvent where
  | occurs (o : Occurrence)
  | declares (d : Declaration)
  | makes (c : ClassRecord)

namespace ScopeEvent

/-- The occurrence that an event is. -/
def occurrence? : ScopeEvent → Option Occurrence
  | occurs o => some o
  | _ => none

/-- The declaration that an event is. -/
def declaration? : ScopeEvent → Option Declaration
  | declares d => some d
  | _ => none

/-- The class that an event is about. -/
def class? : ScopeEvent → Option ClassRecord
  | makes c => some c
  | _ => none

end ScopeEvent

/-- Events in the order in which they happen. -/
abbrev History := List ScopeEvent

namespace History

/-- The occurrences of a history. -/
def occurrences (h : History) : List Occurrence := h.filterMap ScopeEvent.occurrence?

/-- The declarations of a history. -/
def declarations (h : History) : List Declaration := h.filterMap ScopeEvent.declaration?

/-- The classes of a history. -/
def classes (h : History) : List ClassRecord := h.filterMap ScopeEvent.class?

section simp

variable (h h' : History) (o : Occurrence) (d : Declaration) (c : ClassRecord)

@[simp] lemma occurrences_nil : occurrences [] = [] := rfl

@[simp] lemma declarations_nil : declarations [] = [] := rfl

@[simp] lemma classes_nil : classes [] = [] := rfl

@[simp] lemma occurrences_append : occurrences (h ++ h') = occurrences h ++ occurrences h' :=
  List.filterMap_append

@[simp] lemma declarations_append : declarations (h ++ h') = declarations h ++ declarations h' :=
  List.filterMap_append

@[simp] lemma classes_append : classes (h ++ h') = classes h ++ classes h' :=
  List.filterMap_append

@[simp] lemma occurrences_occurs : occurrences (.occurs o :: h) = o :: occurrences h := rfl

@[simp] lemma occurrences_declares : occurrences (.declares d :: h) = occurrences h := rfl

@[simp] lemma occurrences_makes : occurrences (.makes c :: h) = occurrences h := rfl

@[simp] lemma declarations_occurs : declarations (.occurs o :: h) = declarations h := rfl

@[simp] lemma declarations_declares : declarations (.declares d :: h) = d :: declarations h := rfl

@[simp] lemma declarations_makes : declarations (.makes c :: h) = declarations h := rfl

@[simp] lemma classes_occurs : classes (.occurs o :: h) = classes h := rfl

@[simp] lemma classes_declares : classes (.declares d :: h) = classes h := rfl

@[simp] lemma classes_makes : classes (.makes c :: h) = c :: classes h := rfl

end simp

end History

/-! ### Scopes, members and classes -/

/-- The classes of a block are declared one by one. -/
def hoistHistory : List Syntax.Stmt → Scopes → History
  | [], _ => []
  | .cls name _ :: rest, st =>
    .declares ⟨.cls, name, (declare name .cls true).answer st⟩ ::
      hoistHistory rest ((declare name .cls true).after st)
  | _ :: rest, st => hoistHistory rest st

/-- Parameters are declared one by one. -/
def paramHistory : List Name → Scopes → History
  | [], _ => []
  | name :: rest, st =>
    .declares ⟨.param, name, (declare name .param true).answer st⟩ ::
      paramHistory rest ((declare name .param true).after st)

/-- The history of a scope in which classes are declared before `walk` goes on. -/
def scopeHistory (body : List Syntax.Stmt) (walk : List (String × Slot) → Scopes → History)
    (st : Scopes) : History :=
  let opened := openScope.after st
  hoistHistory body opened ++ walk ((hoist body).answer opened) ((hoist body).after opened)

/-- The history of a branch, which has a scope of its own if it declares
something. -/
def branchHistory (s : Syntax.Stmt) (walk : List (String × Slot) → Scopes → History)
    (st : Scopes) : History :=
  match s with
  | .var _ _ | .cls _ _ => scopeHistory [s] walk st
  | _ => walk [] st

/-- The parameters of a method, if it has any. -/
def declareParams (params : Option (List Name)) : Resolve (Option (List Slot)) :=
  params.mapM fun names => names.mapM fun p => declare p .param true

/-- The history of a method with the body that `walk` goes over. -/
def methodHistory (params : Option (List Name)) (walk : Scopes → History) (st : Scopes) : History :=
  let opened := openScope.after st
  paramHistory (params.getD []) opened ++ walk ((declareParams params).after opened)

/-- The method that a declaration in a class body makes. -/
def memberOf (d : Syntax.Method) : Resolve Program.Method :=
  method d.name.text d.params d.name.line
    (blockOf d.body fun hoisted => resolveStmts hoisted d.body)

/-- The state in which a member is resolved. The side of the instance is open around
everything but static methods. -/
def enterMember (m : Members) (kind : Syntax.MethodKind) (st : Scopes) : Scopes :=
  match kind with
  | .onClass => st
  | .construct | .onInstance => (openFields m.instanceSide).after st

/-- Each member of a class with the method that resolution makes of it. -/
def resolvedMembers (name : String) (m : Members) (st : Scopes) :
    List Syntax.Method → List (Syntax.Method × Program.Method)
  | [] => []
  | d :: rest =>
    let step := member name m d.kind d.name (memberOf d)
    (d, (memberOf d).answer (enterMember m d.kind st)) ::
      resolvedMembers name (step.answer st) (step.after st) rest

/-- The state in which the members of a class in a slot are resolved: its receivers
have got their slots, and its static side is open. -/
def enterClass (slot : Slot) (st : Scopes) : Scopes :=
  { st with
    nextSlot := st.nextSlot.next.next
    enclosing := slot :: st.enclosing
    fieldScopes := ⟨.onClass, st.nextSlot.next, []⟩ :: st.fieldScopes }

/-! ### The walk over the program -/

mutual

/-- The history of an expression. -/
def Syntax.Expr.history (p : Place) (st : Scopes) : Syntax.Expr → History
  | .assign target value _ =>
    (match target with
      | .variable name => [.occurs ⟨.variable, name, (assigned name).answer st, p⟩]
      | .field name => [.occurs ⟨.field, name, (instanceField name).answer st, p⟩]
      | .staticField name => [.occurs ⟨.staticField, name, (staticField name).answer st, p⟩]
      | _ =>
        target.history p ((report (.invalidTarget target.line)).after st) ++
          [.occurs ⟨.invalid, ⟨"<invalid>", target.line⟩, (resolveTarget target).answer st, p⟩]) ++
      value.history p ((resolveTarget target).after st)
  | .call receiver _ arguments code =>
    let ready := (resolveExpr receiver).after st
    receiver.history p st ++
      (match arguments with
        | none => []
        | some es => exprHistory p ready es) ++
      match code with
      | none => []
      | some ⟨params, body, _⟩ =>
        methodHistory (some params)
          (scopeHistory body fun hoisted st => stmtHistory p hoisted st body)
          (fresh.after (fresh.after ((resolveArguments arguments).after ready)))
  | .literal _ _ => []
  | .variable name => [.occurs ⟨.variable, name, ((namedSlot name).answer st).1, p⟩]
  | .field name => [.occurs ⟨.field, name, (instanceField name).answer st, p⟩]
  | .staticField name => [.occurs ⟨.staticField, name, (staticField name).answer st, p⟩]
  | .this line => [.occurs ⟨.this, ⟨"this", line⟩, (thisSlot line).answer st, p⟩]
  | .logical _ left right _ => left.history p st ++ right.history p ((resolveExpr left).after st)

/-- The history of expressions. -/
def exprHistory (p : Place) (st : Scopes) : List Syntax.Expr → History
  | [] => []
  | e :: es => e.history p st ++ exprHistory p ((resolveExpr e).after st) es

/-- The history of a statement. -/
def Syntax.Stmt.history (p : Place) (hoisted : List (String × Slot)) (st : Scopes) :
    Syntax.Stmt → History
  | .block body => scopeHistory body (fun hoisted st => stmtHistory p hoisted st body) st
  | .branch condition yes no _ =>
    let chosen := (resolveExpr condition).after st
    condition.history p st ++
      branchHistory yes (fun hoisted st => yes.history p hoisted st) chosen ++
      match no with
      | none => []
      | some no =>
        branchHistory no (fun hoisted st => no.history p hoisted st)
          ((branch yes fun hoisted => resolveStmt hoisted yes).after chosen)
  | .loop condition body _ =>
    condition.history p st ++
      branchHistory body (fun hoisted st => body.history p hoisted st)
        ((resolveExpr condition).after st)
  | .var name init =>
    let slot := (declare name .var false).answer st
    .declares ⟨.var, name, slot⟩ ::
      match init with
      | none => []
      | some e => e.history (p.inInitializer slot) ((declare name .var false).after st)
  | .cls name methods =>
    match hoisted.lookup name.text with
    | none => []
    | some slot =>
      let start := Members.start st.nextSlot
      let entered := enterClass slot st
      let c := (insideClass slot
        (classDecl name fun m => resolveMethods name.text m methods)).answer st
      memberHistory (p.inClass slot) c name.text start entered methods ++
        [.makes ⟨name, resolvedMembers name.text start entered methods, c⟩]
  | .ret value _ =>
    match value with
    | none => []
    | some e => e.history p st
  | .eval e => e.history p st

/-- The history of statements. -/
def stmtHistory (p : Place) (hoisted : List (String × Slot)) (st : Scopes) :
    List Syntax.Stmt → History
  | [] => []
  | s :: ss =>
    s.history p hoisted st ++ stmtHistory p hoisted ((resolveStmt hoisted s).after st) ss

/-- The history of the members of the class `c`. -/
def memberHistory (p : Place) (c : Program.ClassDecl) (name : String) (m : Members) (st : Scopes) :
    List Syntax.Method → History
  | [] => []
  | ⟨kind, own, params, body⟩ :: rest =>
    let step := member name m kind own (memberOf ⟨kind, own, params, body⟩)
    methodHistory params
        (scopeHistory body fun hoisted st => stmtHistory (p.inMember kind c) hoisted st body)
        (enterMember m kind st) ++
      memberHistory p c name (step.answer st) (step.after st) rest

end

/-- The history of a whole program with the given globals around it. -/
def history (globals : List String) (program : List Syntax.Stmt) : History :=
  scopeHistory program (fun hoisted st => stmtHistory .outermost hoisted st program)
    (.entry globals)

/-! ### What mistakes are about -/

/-- The matters that mistakes are about. -/
inductive ScopeProblem.Topic where
  | redeclaration
  | unused
  | undeclared
  | ownInitializer
  | target
  /-- Fields and receivers where there are none. -/
  | side
  | member
deriving DecidableEq, Repr

/-- What a mistake is about. -/
def ScopeProblem.topic : ScopeProblem → Topic
  | alreadyDeclared _ => .redeclaration
  | unusedVariable _ | unusedClass _ => .unused
  | undeclared _ => .undeclared
  | usedInOwnInitializer _ => .ownInitializer
  | assignedClass _ | invalidTarget _ => .target
  | fieldOutsideClass _ | instanceFieldInStaticMethod _ | thisOutsideClass _ => .side
  | methodAlreadyDeclared _ _ _ => .member

/-- The mistakes that are about one matter. -/
def about (t : ScopeProblem.Topic) (ps : List ScopeProblem) : List ScopeProblem :=
  ps.filter fun p => p.topic = t

@[simp] lemma about_nil (t : ScopeProblem.Topic) : about t [] = [] := rfl

@[simp] lemma about_append (t : ScopeProblem.Topic) (ps qs : List ScopeProblem) :
    about t (ps ++ qs) = about t ps ++ about t qs :=
  List.filter_append ..

/-- Mistakes about one matter are not about another. -/
lemma about_of_forall {t u : ScopeProblem.Topic} {ps : List ScopeProblem}
    (h : ∀ p ∈ ps, p.topic = t) : about u ps = if t = u then ps else [] := by
  by_cases e : t = u
  · rw [if_pos e]
    exact List.filter_eq_self.2 fun p hp => by simp [h p hp, e]
  · rw [if_neg e]
    exact List.filter_eq_nil_iff.2 fun p hp => by simp [h p hp, e]

/-- A scope that is closed leaves mistakes about what is not used. -/
@[simp] lemma about_unusedProblem? (t : ScopeProblem.Topic) (bs : List Binding) :
    about t (bs.filterMap Binding.unusedProblem?) =
      if .unused = t then bs.filterMap Binding.unusedProblem? else [] := by
  refine about_of_forall fun p hp => ?_
  obtain ⟨b, _, hb⟩ := List.mem_filterMap.1 hp
  rw [Binding.unusedProblem?] at hb
  split at hb
  · cases hb
  · split at hb <;> cases hb <;> rfl

end Ember
