/-
The slots that a resolved program declares, and the slots that its code may
mention.

* `SlotRole`: what a slot stands for;
* `Expr.roles`, `Stmt.roles`, `Block.roles`, `ClassDecl.roles`: the slots that a
  part of a program declares, each with its role, and `slots` for the slots
  alone;
* `Expr.Closed`, `Stmt.Closed`, `Block.Closed`, `ClassDecl.Closed`: a part of a
  program mentions only slots that are visible where it stands. The statements
  of a block see the variables declared before them, its classes see all of
  them. In the strict sense a variable is not visible in its own initializer;
* `Expr.Closed.mono` and its companions: more may be visible than is needed.
-/
import Mathlib
import Ember.Program

namespace Ember

/-- What a slot stands for. -/
inductive SlotRole where
  | global
  | cls
  | var
  | param
  | field
  | receiver
deriving DecidableEq, Repr

namespace Program

/-! ### Declared slots -/

mutual

/-- The slots declared in the classes made within an expression. -/
def Expr.roles : Expr → List (Slot × SlotRole)
  | .assign _ value _ => value.roles
  | .call receiver _ arguments _ =>
    receiver.roles ++ (match arguments with | none => [] | some es => exprRoles es)
  | .literal _ _ | .read _ _ => []
  | .logical _ left right _ => left.roles ++ right.roles
  | .cls decl => decl.roles

/-- The slots declared within expressions. -/
def exprRoles : List Expr → List (Slot × SlotRole)
  | [] => []
  | e :: es => e.roles ++ exprRoles es

/-- The slots declared by a statement and within it. -/
def Stmt.roles : Stmt → List (Slot × SlotRole)
  | .block body => body.roles
  | .branch condition yes no _ =>
    condition.roles ++ yes.roles ++ (match no with | none => [] | some s => s.roles)
  | .loop condition body _ => condition.roles ++ body.roles
  | .var slot init _ =>
    (slot, .var) :: (match init with | none => [] | some e => e.roles)
  | .ret value _ => match value with | none => [] | some e => e.roles
  | .eval e => e.roles

/-- The slots declared by statements and within them. -/
def stmtRoles : List Stmt → List (Slot × SlotRole)
  | [] => []
  | s :: ss => s.roles ++ stmtRoles ss

/-- The slots declared in a block and within it. -/
def Block.roles : Block → List (Slot × SlotRole)
  | ⟨statements, _, classes⟩ =>
    classes.map (fun c => (c.1, .cls)) ++ (classRoles classes ++ stmtRoles statements)

/-- The slots declared within classes. -/
def classRoles : List (Slot × ClassDecl) → List (Slot × SlotRole)
  | [] => []
  | (_, c) :: cs => c.roles ++ classRoles cs

/-- The receivers and fields of a class and the slots declared in its methods. -/
def ClassDecl.roles : ClassDecl → List (Slot × SlotRole)
  | ⟨_, _, receiver, staticReceiver, constructors, staticMethods, methods, fields, staticFields⟩ =>
    [(receiver, .receiver), (staticReceiver, .receiver)] ++
      (staticFields.map (fun f => (f.1, .field)) ++ (fields.map (fun f => (f.1, .field)) ++
        (methodRoles constructors ++ (methodRoles staticMethods ++ methodRoles methods))))

/-- The parameters of methods and the slots declared in their bodies. -/
def methodRoles : List Method → List (Slot × SlotRole)
  | [] => []
  | ⟨_, params, _, body, _⟩ :: ms =>
    (params.getD []).map (fun p => (p, .param)) ++ (body.roles ++ methodRoles ms)

end

/-- Every slot of a program with its role. -/
def Script.roles (s : Script) : List (Slot × SlotRole) :=
  s.globals.map (fun g => (g.1, .global)) ++ s.root.roles

/-- The slots declared in a block and within it. -/
def Block.slots (b : Block) : List Slot := b.roles.map Prod.fst

/-- The slots declared by a class and within it. -/
def ClassDecl.slots (c : ClassDecl) : List Slot := c.roles.map Prod.fst

/-- Every slot of a program. -/
def Script.slots (s : Script) : List Slot := s.roles.map Prod.fst

/-! ### Frames -/

/-- The variable that a statement declares in the scope around it. -/
def Stmt.own : Stmt → List Slot
  | .var slot _ _ => [slot]
  | _ => []

/-- The variables that the statements of a block declare in it. -/
def Block.vars (b : Block) : List Slot := b.statements.flatMap Stmt.own

/-- The classes declared in a block. -/
def Block.classSlots (b : Block) : List Slot := b.classes.map Prod.fst

/-- What the static side of a class holds. -/
def ClassDecl.staticSlots (c : ClassDecl) : List Slot :=
  c.staticReceiver :: c.staticFields.map Prod.fst

/-- What an instance of a class holds. -/
def ClassDecl.instanceSlots (c : ClassDecl) : List Slot := c.receiver :: c.fields.map Prod.fst

/-! ### Closed code -/

variable (strict : Bool)

mutual

/-- An expression mentions only visible slots. -/
def Expr.Closed (visible : List Slot) : Expr → Prop
  | .assign target value _ => target ∈ visible ∧ value.Closed visible
  | .call receiver _ arguments _ =>
    receiver.Closed visible ∧
      (match arguments with | none => True | some es => exprClosed visible es)
  | .literal _ _ => True
  | .read slot _ => slot ∈ visible
  | .logical _ left right _ => left.Closed visible ∧ right.Closed visible
  | .cls decl => decl.Closed visible

/-- Expressions mention only visible slots. -/
def exprClosed (visible : List Slot) : List Expr → Prop
  | [] => True
  | e :: es => e.Closed visible ∧ exprClosed visible es

/-- A statement mentions only visible slots. No branch declares a variable in
the scope around it. -/
def Stmt.Closed (visible : List Slot) : Stmt → Prop
  | .block body => body.Closed visible
  | .branch condition yes no _ =>
    condition.Closed visible ∧ (yes.own = [] ∧ yes.Closed visible) ∧
      (match no with | none => True | some s => s.own = [] ∧ s.Closed visible)
  | .loop condition body _ =>
    condition.Closed visible ∧ body.own = [] ∧ body.Closed visible
  | .var slot init _ =>
    match init with
    | none => True
    | some e => e.Closed (if strict then visible else slot :: visible)
  | .ret value _ => match value with | none => True | some e => e.Closed visible
  | .eval e => e.Closed visible

/-- Each statement mentions only visible slots and variables declared before it. -/
def stmtClosed (visible : List Slot) : List Stmt → Prop
  | [] => True
  | s :: ss => s.Closed visible ∧ stmtClosed (s.own ++ visible) ss

/-- The statements of a block see its classes and the variables before them, its
classes see all that the block declares. -/
def Block.Closed (visible : List Slot) : Block → Prop
  | ⟨statements, _, classes⟩ =>
    stmtClosed (classes.map Prod.fst ++ visible) statements ∧
      classClosed (statements.flatMap Stmt.own ++ (classes.map Prod.fst ++ visible)) classes

/-- Classes mention only visible slots. -/
def classClosed (visible : List Slot) : List (Slot × ClassDecl) → Prop
  | [] => True
  | (_, c) :: cs => c.Closed visible ∧ classClosed visible cs

/-- Static methods see the static side of their class; constructors and the
methods of instances see both sides. -/
def ClassDecl.Closed (visible : List Slot) : ClassDecl → Prop
  | ⟨_, _, receiver, staticReceiver, constructors, staticMethods, methods, fields, staticFields⟩ =>
    let statics := (staticReceiver :: staticFields.map Prod.fst) ++ visible
    let both := (receiver :: fields.map Prod.fst) ++ statics
    methodClosed both constructors ∧ methodClosed statics staticMethods ∧ methodClosed both methods

/-- The bodies of methods see their parameters. -/
def methodClosed (visible : List Slot) : List Method → Prop
  | [] => True
  | ⟨_, params, _, body, _⟩ :: ms =>
    body.Closed (params.getD [] ++ visible) ∧ methodClosed visible ms

end

variable {strict : Bool} {v w : List Slot}

/-- Expressions are closed if those of either part are. -/
lemma exprClosed_append {es fs : List Expr} :
    exprClosed strict v (es ++ fs) ↔ exprClosed strict v es ∧ exprClosed strict v fs := by
  induction es with
  | nil => simp only [List.nil_append, exprClosed, true_and]
  | cons e es ih => simp only [List.cons_append, exprClosed, ih, and_assoc]

/-- Methods are closed together if each of them is. -/
lemma methodClosed_iff {ms : List Method} :
    methodClosed strict v ms ↔ ∀ m ∈ ms, m.body.Closed strict (m.params.getD [] ++ v) := by
  induction ms with
  | nil => simp only [methodClosed, List.not_mem_nil, false_imp_iff, implies_true]
  | cons m ms ih =>
    cases m
    simp only [methodClosed, ih, List.forall_mem_cons]

/-- Classes are closed together if each of them is. -/
lemma classClosed_iff {cs : List (Slot × ClassDecl)} :
    classClosed strict v cs ↔ ∀ c ∈ cs, c.2.Closed strict v := by
  induction cs with
  | nil => simp only [classClosed, List.not_mem_nil, false_imp_iff, implies_true]
  | cons c cs ih => simp only [classClosed, ih, List.forall_mem_cons]

/-! ### More slots than needed -/

lemma append_subset_append_left (u : List Slot) (h : v ⊆ w) : u ++ v ⊆ u ++ w :=
  List.append_subset.2 ⟨List.subset_append_left u w, List.subset_append_of_subset_right u h⟩

mutual

/-- More slots may be visible than an expression needs. -/
lemma Expr.Closed.mono {v w : List Slot} (sub : v ⊆ w) :
    (e : Expr) → e.Closed strict v → e.Closed strict w
  | .assign _ value _, h => ⟨sub h.1, Expr.Closed.mono sub value h.2⟩
  | .call receiver _ none _, h => ⟨Expr.Closed.mono sub receiver h.1, trivial⟩
  | .call receiver _ (some es) _, h =>
    ⟨Expr.Closed.mono sub receiver h.1, exprClosed_mono sub es h.2⟩
  | .literal _ _, _ => trivial
  | .read _ _, h => sub h
  | .logical _ left right _, h =>
    ⟨Expr.Closed.mono sub left h.1, Expr.Closed.mono sub right h.2⟩
  | .cls decl, h => ClassDecl.Closed.mono sub decl h

/-- The same for expressions one after the other. -/
lemma exprClosed_mono {v w : List Slot} (sub : v ⊆ w) :
    (es : List Expr) → exprClosed strict v es → exprClosed strict w es
  | [], _ => trivial
  | e :: es, h => ⟨Expr.Closed.mono sub e h.1, exprClosed_mono sub es h.2⟩

/-- More slots may be visible than a statement needs. -/
lemma Stmt.Closed.mono {v w : List Slot} (sub : v ⊆ w) :
    (s : Stmt) → s.Closed strict v → s.Closed strict w
  | .block body, h => Block.Closed.mono sub body h
  | .branch condition yes none _, h =>
    ⟨Expr.Closed.mono sub condition h.1, ⟨h.2.1.1, Stmt.Closed.mono sub yes h.2.1.2⟩, trivial⟩
  | .branch condition yes (some no) _, h =>
    ⟨Expr.Closed.mono sub condition h.1, ⟨h.2.1.1, Stmt.Closed.mono sub yes h.2.1.2⟩,
      h.2.2.1, Stmt.Closed.mono sub no h.2.2.2⟩
  | .loop condition body _, h =>
    ⟨Expr.Closed.mono sub condition h.1, h.2.1, Stmt.Closed.mono sub body h.2.2⟩
  | .var _ none _, _ => trivial
  | .var slot (some e) _, h =>
    Expr.Closed.mono (by cases strict
                         · exact append_subset_append_left [slot] sub
                         · exact sub) e h
  | .ret none _, _ => trivial
  | .ret (some e) _, h => Expr.Closed.mono sub e h
  | .eval e, h => Expr.Closed.mono sub e h

/-- The same for statements one after the other. -/
lemma stmtClosed_mono {v w : List Slot} (sub : v ⊆ w) :
    (ss : List Stmt) → stmtClosed strict v ss → stmtClosed strict w ss
  | [], _ => trivial
  | s :: ss, h =>
    ⟨Stmt.Closed.mono sub s h.1, stmtClosed_mono (append_subset_append_left _ sub) ss h.2⟩

/-- More slots may be visible than a block needs. -/
lemma Block.Closed.mono {v w : List Slot} (sub : v ⊆ w) :
    (b : Block) → b.Closed strict v → b.Closed strict w
  | ⟨statements, _, classes⟩, h =>
    ⟨stmtClosed_mono (append_subset_append_left _ sub) statements h.1,
      classClosed_mono
        (append_subset_append_left _ (append_subset_append_left _ sub)) classes h.2⟩

/-- The same for the classes of a scope. -/
lemma classClosed_mono {v w : List Slot} (sub : v ⊆ w) :
    (cs : List (Slot × ClassDecl)) → classClosed strict v cs → classClosed strict w cs
  | [], _ => trivial
  | (_, c) :: cs, h => ⟨ClassDecl.Closed.mono sub c h.1, classClosed_mono sub cs h.2⟩

/-- More slots may be visible than a class needs. -/
lemma ClassDecl.Closed.mono {v w : List Slot} (sub : v ⊆ w) :
    (c : ClassDecl) → c.Closed strict v → c.Closed strict w
  | ⟨_, _, _, _, constructors, staticMethods, methods, _, _⟩, h =>
    have statics := append_subset_append_left _ sub
    have both := append_subset_append_left _ statics
    ⟨methodClosed_mono both constructors h.1, methodClosed_mono statics staticMethods h.2.1,
      methodClosed_mono both methods h.2.2⟩

/-- The same for the methods of a class. -/
lemma methodClosed_mono {v w : List Slot} (sub : v ⊆ w) :
    (ms : List Method) → methodClosed strict v ms → methodClosed strict w ms
  | [], _ => trivial
  | ⟨_, _, _, body, _⟩ :: ms, h =>
    ⟨Block.Closed.mono (append_subset_append_left _ sub) body h.1, methodClosed_mono sub ms h.2⟩

end

/-- Statements are closed together if the later ones are where the variables of
the earlier ones are visible. -/
lemma stmtClosed_append {ss ts : List Stmt} (hs : stmtClosed strict v ss)
    (ht : stmtClosed strict (ss.flatMap Stmt.own ++ v) ts) : stmtClosed strict v (ss ++ ts) := by
  induction ss generalizing v with
  | nil => exact ht
  | cons s ss ih =>
    refine ⟨hs.1, ih hs.2 (stmtClosed_mono (fun x hx => ?_) ts ht)⟩
    simp only [List.flatMap_cons, List.mem_append] at hx ⊢
    tauto

end Program

end Ember
