/-
The tables of methods of every class of a program, whatever mistakes the program has:
each is in the order of selectors, so that no method comes twice.

* `Program.ClassDecl.Sorted`: the three tables of a class are in order;
* `Program.Tabled`: the tables of all classes of a list are;
* `ClassScoped.tabled`, `BlockScoped.tabled`: what resolution makes of classes and of
  blocks has such tables, one lemma for each rule of resolution;
* `sorted_of_mem_classes`: hence every class of a resolved program.
-/
import Mathlib
import Ember.Flow.Mentions
import Ember.Proofs.Scope.Naming
import Ember.Proofs.Scope.Plain

namespace Ember

open Resolve

namespace Program

/-! ### Classes with sorted tables -/

/-- The tables of a class are in the order of selectors. -/
structure ClassDecl.Sorted (c : ClassDecl) : Prop where
  constructors : SortedMethods c.constructors
  staticMethods : SortedMethods c.staticMethods
  methods : SortedMethods c.methods

/-- All the classes have sorted tables. -/
def Tabled (cs : List (Option Slot × ClassDecl)) : Prop := ∀ c ∈ cs, c.2.Sorted

/-- No classes have no tables. -/
lemma tabled_nil : Tabled [] := fun _ hc => absurd hc List.not_mem_nil

/-- Classes of two parts are in order if those of both parts are. -/
lemma Tabled.append {cs ds : List (Option Slot × ClassDecl)} (h : Tabled cs) (h' : Tabled ds) :
    Tabled (cs ++ ds) :=
  List.forall_mem_append.2 ⟨h, h'⟩

/-- The classes within declared classes have sorted tables if each of these and all
within it do. -/
lemma tabled_declared {cs : List (Slot × ClassDecl)} :
    Tabled (declaredClasses cs) ↔ ∀ c ∈ cs, c.2.Sorted ∧ Tabled c.2.classesWithin := by
  induction cs with
  | nil => simp [declaredClasses, Tabled]
  | cons c cs ih =>
    obtain ⟨s, c⟩ := c
    rw [declaredClasses, List.forall_mem_cons, ← ih]
    simp only [Tabled, List.cons_append, List.forall_mem_cons, List.forall_mem_append, and_assoc]

/-- The classes within methods are in order if those within each body are. -/
lemma tabled_methods {ms : List Method} :
    Tabled (methodClasses ms) ↔ ∀ m ∈ ms, Tabled m.body.classesWithin := by
  induction ms with
  | nil => simp [methodClasses, Tabled]
  | cons m ms ih =>
    obtain ⟨name, params, names, body, line⟩ := m
    rw [methodClasses, List.forall_mem_cons, ← ih]
    simp only [Tabled, List.forall_mem_append]

/-- The classes within a call are those within its receiver and its arguments. -/
lemma Expr.classes_call (receiver : Expr) (name : String) (es : Option (List Expr)) (line : Line) :
    (Expr.call receiver name es line).classes = receiver.classes ++ exprClasses (es.getD []) := by
  cases es <;> rfl

/-- The classes within a conditional are those within its condition and its branches. -/
lemma Stmt.classes_branch (condition : Expr) (yes : Stmt) (no : Option Stmt) (line : Line) :
    (Stmt.branch condition yes no line).classes =
      condition.classes ++ yes.classes ++ stmtClasses no.toList := by
  cases no <;> simp [Stmt.classes, stmtClasses]

/-- The classes within the declaration of a variable are those within its initializer. -/
lemma Stmt.classes_var (s : Slot) (init : Option Expr) (line : Line) :
    (Stmt.var s init line).classes = exprClasses init.toList := by
  cases init <;> simp [Stmt.classes, exprClasses]

/-- The classes within a return are those within its value. -/
lemma Stmt.classes_ret (value : Option Expr) (line : Line) :
    (Stmt.ret value line).classes = exprClasses value.toList := by
  cases value <;> simp [Stmt.classes, exprClasses]

/-- The classes within expressions are those within both parts of them. -/
lemma exprClasses_append (es es' : List Expr) :
    exprClasses (es ++ es') = exprClasses es ++ exprClasses es' := by
  induction es with
  | nil => rfl
  | cons e es ih => rw [List.cons_append, exprClasses, exprClasses, ih, List.append_assoc]

/-- The classes within statements are those within both parts of them. -/
lemma stmtClasses_append (ss ss' : List Stmt) :
    stmtClasses (ss ++ ss') = stmtClasses ss ++ stmtClasses ss' := by
  induction ss with
  | nil => rfl
  | cons s ss ih => rw [List.cons_append, stmtClasses, stmtClasses, ih, List.append_assoc]

end Program

open Program

/-! ### What the rules make -/

/-- The class of a block of code has one constructor and one method. -/
lemma sorted_codeClass (own ownStatic : Slot) (call : Method) (line : Line) :
    (codeClass own ownStatic call line).Sorted where
  constructors := List.pairwise_singleton _ _
  staticMethods := List.Pairwise.nil
  methods := List.pairwise_singleton _ _

/-- The class of a block of code, made and called, with the classes within the code. -/
lemma tabled_code {own ownStatic : Slot} {call : Method} {line : Line}
    (h : Tabled call.body.classesWithin) :
    Tabled (Expr.call (.cls (codeClass own ownStatic call line)) "new" (some []) line).classes := by
  have hmethods : Tabled (methodClasses [call]) :=
    tabled_methods.2 fun m hm => by rwa [List.mem_singleton.1 hm]
  have hwithin : (codeClass own ownStatic call line).classesWithin = methodClasses [call] := rfl
  rw [Expr.classes_call, Expr.classes, hwithin]
  refine Tabled.append (List.forall_mem_cons.2 ⟨?_, hmethods⟩) tabled_nil
  exact sorted_codeClass own ownStatic call line

/-- The tables that members of a class have been put into so far, and the classes
within them. -/
structure Resolve.Members.Tabled (m : Members) : Prop where
  sorted : ∀ kind, SortedMethods (m.table kind)
  within : ∀ kind, ∀ x ∈ m.table kind, Program.Tabled x.body.classesWithin

/-- A method that is added keeps the tables in order. -/
lemma Resolve.Members.Tabled.add {m : Members} (h : m.Tabled) (kind : Syntax.MethodKind)
    {x : Method} (hx : Program.Tabled x.body.classesWithin) : (m.add kind x).Tabled where
  sorted k := by
    have hinsert := (h.sorted kind).insert x
    cases kind <;> cases k
    case construct.construct | onClass.onClass | onInstance.onInstance => exact hinsert
    case onClass.construct | onInstance.construct => exact h.sorted .construct
    case construct.onClass | onInstance.onClass => exact h.sorted .onClass
    case construct.onInstance | onClass.onInstance => exact h.sorted .onInstance
  within k y hy := by
    rcases Resolve.Members.mem_table_add hy with ⟨-, rfl⟩ | hy
    · exact hx
    · exact h.within k y hy

mutual

/-- The classes within an expression. -/
theorem ExprScoped.tabled {Γ : Surroundings} {g g' : List (Slot × String)} {e : Syntax.Expr}
    {e' : Program.Expr} : ExprScoped Γ g e e' g' → Tabled e'.classes
  | .assign _ hv => hv.tabled
  | .call hr ha hc => by
    rw [Expr.classes_call]
    exact hr.tabled.append (hc.tabled ha.tabled)
  | .literal => tabled_nil
  | .variable _ => tabled_nil
  | .field _ => tabled_nil
  | .staticField _ => tabled_nil
  | .this _ => tabled_nil
  | .logical hl hr => hl.tabled.append hr.tabled

/-- The classes within expressions that follow the rules are in order. -/
lemma ExprsScoped.tabled {Γ : Surroundings} {g g' : List (Slot × String)} {es : List Syntax.Expr}
    {es' : List Program.Expr} : ExprsScoped Γ g es es' g' → Tabled (exprClasses es')
  | .nil => tabled_nil
  | .cons h h' => h.tabled.append h'.tabled

/-- The classes within an expression that may be missing are in order. -/
lemma MaybeScoped.tabled {Γ : Surroundings} {g g' : List (Slot × String)} {e : Option Syntax.Expr}
    {e' : Option Program.Expr} : MaybeScoped Γ g e e' g' → Tabled (exprClasses e'.toList)
  | .none => tabled_nil
  | .some h => h.tabled.append tabled_nil

/-- The classes within arguments in parentheses are in order. -/
lemma ArgumentsScoped.tabled {Γ : Surroundings} {g g' : List (Slot × String)}
    {es : Option (List Syntax.Expr)} {es' : Option (List Program.Expr)} :
    ArgumentsScoped Γ g es es' g' → Tabled (exprClasses (es'.getD []))
  | .none => tabled_nil
  | .some h => h.tabled

/-- The block of code of a call adds the class that is made of it. -/
theorem CodeScoped.tabled {Γ : Surroundings} {g g' : List (Slot × String)}
    {code : Option Syntax.Code} {es es' : Option (List Program.Expr)} :
    CodeScoped Γ g es code es' g' → Tabled (exprClasses (es.getD [])) →
      Tabled (exprClasses (es'.getD []))
  | .none, h => h
  | .some hm, h => by
    rw [Option.getD_some, exprClasses_append]
    exact h.append ((tabled_code hm.tabled).append tabled_nil)

/-- The classes within a method are in order. -/
lemma MethodScoped.tabled {Γ : Surroundings} {g g' : List (Slot × String)} {name : String}
    {params : Option (List Name)} {line : Line} {body : List Syntax.Stmt} {m : Program.Method} :
    MethodScoped Γ g name params line body m g' → Tabled m.body.classesWithin
  | .intro _ h => h.tabled

/-- The classes within a block. -/
theorem BlockScoped.tabled {Γ : Surroundings} {g g' : List (Slot × String)}
    {body : List Syntax.Stmt} {b : Program.Block} :
    BlockScoped Γ g body b g' → Tabled b.classesWithin
  | .intro _ h =>
    have hparts := h.tabled tabled_nil
    hparts.1.append hparts.2

/-- The classes that statements file, and those within them, are in order. -/
lemma StmtsScoped.tabled {Γ : Surroundings} {hoisted : List (Slot × String)} {p p' : Progress}
    {ss : List Syntax.Stmt} {ss' : List Program.Stmt} : StmtsScoped Γ hoisted p ss ss' p' →
      Tabled (declaredClasses p.classes) →
        Tabled (declaredClasses p'.classes) ∧ Tabled (stmtClasses ss')
  | .nil, hp => ⟨hp, tabled_nil⟩
  | .cons h h', hp => by
    obtain ⟨hp₁, hs⟩ := h.tabled hp
    obtain ⟨hp₂, hss⟩ := h'.tabled hp₁
    rw [stmtClasses_append]
    exact ⟨hp₂, hs.append hss⟩

/-- A statement of a block files its class, or has the classes within it. -/
theorem StepScoped.tabled {Γ : Surroundings} {hoisted : List (Slot × String)} {p p' : Progress}
    {s : Syntax.Stmt} {o : Option Program.Stmt} : StepScoped Γ hoisted p s o p' →
      Tabled (declaredClasses p.classes) →
        Tabled (declaredClasses p'.classes) ∧ Tabled (stmtClasses o.toList)
  | .var h, hp => by
    refine ⟨hp, Tabled.append ?_ tabled_nil⟩
    rw [Stmt.classes_var]
    exact h.tabled
  | .cls _ h, hp => by
    refine ⟨tabled_declared.2 fun c hc => ?_, tabled_nil⟩
    rcases mem_insertByKey hc with rfl | hc
    · exact h.tabled
    · exact tabled_declared.1 hp c hc
  | .other h, hp => ⟨hp, h.tabled.append tabled_nil⟩

/-- The classes within a statement are in order. -/
lemma StmtScoped.tabled {Γ : Surroundings} {g g' : List (Slot × String)} {s : Syntax.Stmt}
    {s' : Program.Stmt} : StmtScoped Γ g s s' g' → Tabled s'.classes
  | .block h => h.tabled
  | .branch hc hy hn => by
    rw [Stmt.classes_branch]
    exact (hc.tabled.append hy.tabled).append hn.tabled
  | .loop hc hb => hc.tabled.append hb.tabled
  | .ret h => by
    rw [Stmt.classes_ret]
    exact h.tabled
  | .eval h => h.tabled

/-- The classes within a branch are in order. -/
lemma BranchScoped.tabled {Γ : Surroundings} {g g' : List (Slot × String)} {s : Syntax.Stmt}
    {s' : Program.Stmt} : BranchScoped Γ g s s' g' → Tabled s'.classes
  | .block _ h => h.tabled
  | .quiet _ h => h.tabled

/-- The classes within a branch that may be missing are in order. -/
lemma ElseScoped.tabled {Γ : Surroundings} {g g' : List (Slot × String)} {s : Option Syntax.Stmt}
    {s' : Option Program.Stmt} : ElseScoped Γ g s s' g' → Tabled (stmtClasses s'.toList)
  | .none => tabled_nil
  | .some h => h.tabled.append tabled_nil

/-- A class and the classes within it. -/
theorem ClassScoped.tabled {Γ : Surroundings} {g g' : List (Slot × String)} {name : Name}
    {methods : List Syntax.Method} {c : Program.ClassDecl} :
    ClassScoped Γ g name methods c g' → c.Sorted ∧ Tabled c.classesWithin
  | .intro h => by
    have hmembers := h.tabled ⟨fun kind => by cases kind <;> exact List.Pairwise.nil,
      fun kind x hx => by cases kind <;> cases hx⟩
    refine ⟨⟨hmembers.sorted .construct, hmembers.sorted .onClass, hmembers.sorted .onInstance⟩, ?_⟩
    exact ((tabled_methods.2 (hmembers.within .construct)).append
      (tabled_methods.2 (hmembers.within .onClass))).append
        (tabled_methods.2 (hmembers.within .onInstance))

/-- The classes within the members of a class are in order. -/
lemma MethodsScoped.tabled {Γ : Surroundings} {g g' : List (Slot × String)} {m m' : Members}
    {methods : List Syntax.Method} : MethodsScoped Γ m g methods m' g' → m.Tabled → m'.Tabled
  | .nil, hm => hm
  | .cons h h', hm => h'.tabled (hm.add _ h.tabled)

end

/-- Every class of a resolved program has sorted tables. -/
theorem sorted_of_mem_classes (globals : List String) (program : List Syntax.Stmt)
    {c : Option Slot × ClassDecl} (hc : c ∈ (resolve globals program).1.classes) : c.2.Sorted := by
  obtain ⟨g, _, rules⟩ := resolve_scoped globals program
  exact rules.tabled c hc

end Ember
