/-
What resolution makes of a program without connectives.

* `Syntax.Expr.Unconnected`, `Syntax.Stmt.Unconnected`: no part of the program is a
  conjunction or a disjunction;
* `Expr.Plain`, `Stmt.Plain`, `Block.Plain`, `ClassDecl.Plain`: the same of a
  resolved program, in which moreover no table has two methods for one selector;
* `Resolve.Builds`: a step whose answer is plain, as is every class that it files;
* `builds_resolveExpr`, `builds_resolveStmts`, `builds_resolveMethods`: the walk over
  the program;
* `resolve_plain`: a whole program.
-/
import Mathlib
import Ember.Proofs.Scope.Closure

namespace Ember

open Program

/-! ### Programs without connectives -/

namespace Syntax

mutual

/-- An expression without connectives. -/
def Expr.Unconnected : Expr → Prop
  | .assign target value _ => target.Unconnected ∧ value.Unconnected
  | .call receiver _ arguments code =>
    receiver.Unconnected ∧
      (match arguments with | none => True | some es => exprUnconnected es) ∧
      (match code with | none => True | some c => c.Unconnected)
  | .literal _ _ | .variable _ | .field _ | .staticField _ | .this _ => True
  | .logical _ _ _ _ => False

/-- Expressions without connectives. -/
def exprUnconnected : List Expr → Prop
  | [] => True
  | e :: es => e.Unconnected ∧ exprUnconnected es

/-- A block of code without connectives. -/
def Code.Unconnected : Code → Prop
  | ⟨_, body, _⟩ => stmtUnconnected body

/-- A statement without connectives. -/
def Stmt.Unconnected : Stmt → Prop
  | .block body => stmtUnconnected body
  | .branch condition yes no _ =>
    condition.Unconnected ∧ yes.Unconnected ∧
      (match no with | none => True | some s => s.Unconnected)
  | .loop condition body _ => condition.Unconnected ∧ body.Unconnected
  | .var _ init => match init with | none => True | some e => e.Unconnected
  | .cls _ methods => methodUnconnected methods
  | .ret value _ => match value with | none => True | some e => e.Unconnected
  | .eval e => e.Unconnected

/-- Statements without connectives. -/
def stmtUnconnected : List Stmt → Prop
  | [] => True
  | s :: ss => s.Unconnected ∧ stmtUnconnected ss

/-- Methods without connectives. -/
def methodUnconnected : List Method → Prop
  | [] => True
  | ⟨_, _, _, body⟩ :: ms => stmtUnconnected body ∧ methodUnconnected ms

end

end Syntax

/-! ### Plain programs -/

namespace Program

/-- No two methods of a table answer to one selector. -/
def Unambiguous (table : List Method) : Prop := (table.map Method.selector).Nodup

mutual

/-- An expression without connectives, whose classes are plain. -/
def Expr.Plain : Expr → Prop
  | .assign _ value _ => value.Plain
  | .call receiver _ arguments _ =>
    receiver.Plain ∧ (match arguments with | none => True | some es => exprPlain es)
  | .literal _ _ | .read _ _ => True
  | .logical _ _ _ _ => False
  | .cls decl => decl.Plain

/-- Plain expressions. -/
def exprPlain : List Expr → Prop
  | [] => True
  | e :: es => e.Plain ∧ exprPlain es

/-- A statement of plain expressions. -/
def Stmt.Plain : Stmt → Prop
  | .block body => body.Plain
  | .branch condition yes no _ =>
    condition.Plain ∧ yes.Plain ∧ (match no with | none => True | some s => s.Plain)
  | .loop condition body _ => condition.Plain ∧ body.Plain
  | .var _ init _ => match init with | none => True | some e => e.Plain
  | .ret value _ => match value with | none => True | some e => e.Plain
  | .eval e => e.Plain

/-- Plain statements. -/
def stmtPlain : List Stmt → Prop
  | [] => True
  | s :: ss => s.Plain ∧ stmtPlain ss

/-- A block of plain statements and classes. -/
def Block.Plain : Block → Prop
  | ⟨statements, _, classes⟩ => stmtPlain statements ∧ classPlain classes

/-- Plain classes. -/
def classPlain : List (Slot × ClassDecl) → Prop
  | [] => True
  | (_, c) :: cs => c.Plain ∧ classPlain cs

/-- A class whose tables are unambiguous and whose methods are plain. -/
def ClassDecl.Plain : ClassDecl → Prop
  | ⟨_, _, _, _, constructors, staticMethods, methods, _, _⟩ =>
    (Unambiguous constructors ∧ methodPlain constructors) ∧
      (Unambiguous staticMethods ∧ methodPlain staticMethods) ∧
      (Unambiguous methods ∧ methodPlain methods)

/-- Methods with plain bodies. -/
def methodPlain : List Method → Prop
  | [] => True
  | ⟨_, _, _, body, _⟩ :: ms => body.Plain ∧ methodPlain ms

end

/-- Expressions are plain if both parts of them are. -/
lemma exprPlain_append {es fs : List Expr} (he : exprPlain es) (hf : exprPlain fs) :
    exprPlain (es ++ fs) := by
  induction es with
  | nil => exact hf
  | cons e es ih => exact ⟨he.1, ih he.2⟩

/-- Statements are plain if both parts of them are. -/
lemma stmtPlain_append {ss ts : List Stmt} (hs : stmtPlain ss) (ht : stmtPlain ts) :
    stmtPlain (ss ++ ts) := by
  induction ss with
  | nil => exact ht
  | cons s ss ih => exact ⟨hs.1, ih hs.2⟩

/-- Classes are plain if each one is. -/
lemma classPlain_iff {cs : List (Slot × ClassDecl)} : classPlain cs ↔ ∀ c ∈ cs, c.2.Plain := by
  induction cs with
  | nil => simp only [classPlain, List.not_mem_nil, false_imp_iff, implies_true]
  | cons c cs ih => simp only [classPlain, ih, List.forall_mem_cons]

/-- Methods are plain if each body is. -/
lemma methodPlain_iff {ms : List Method} : methodPlain ms ↔ ∀ m ∈ ms, m.body.Plain := by
  induction ms with
  | nil => simp only [methodPlain, List.not_mem_nil, false_imp_iff, implies_true]
  | cons m ms ih =>
    cases m
    simp only [methodPlain, ih, List.forall_mem_cons]

end Program

/-! ### Sorted tables -/

instance : Std.TransOrd Selector :=
  inferInstanceAs (Std.TransCmp (compareLex (compareOn Selector.name) (compareOn Selector.arity)))

/-- The methods of a table stand in the order of their selectors. -/
def SortedMethods (table : List Method) : Prop :=
  table.Pairwise fun m m' => compare m.selector m'.selector = .lt

/-- A table in order has one method for each selector. -/
lemma SortedMethods.unambiguous {table : List Method} (h : SortedMethods table) :
    Unambiguous table := by
  refine List.pairwise_map.2 (h.imp fun {m m'} lt same => ?_)
  rw [same, Std.LawfulEqOrd.compare_eq_iff_eq.2 rfl] at lt
  cases lt

/-- A table stays in order when a method is put into it. -/
lemma SortedMethods.insert {table : List Method} (h : SortedMethods table) (m : Method) :
    SortedMethods (insertByKey Method.selector m table) := by
  induction table with
  | nil => exact List.pairwise_singleton _ _
  | cons y ys ih =>
    obtain ⟨first, rest⟩ := List.pairwise_cons.1 h
    rw [insertByKey]
    cases order : compare m.selector y.selector with
    | lt =>
      refine List.pairwise_cons.2 ⟨fun z hz => ?_, h⟩
      rcases List.mem_cons.1 hz with rfl | hz
      · exact order
      · exact Std.TransCmp.lt_trans order (first z hz)
    | eq =>
      have same : m.selector = y.selector := Std.LawfulEqOrd.compare_eq_iff_eq.1 order
      exact List.pairwise_cons.2 ⟨fun z hz => same ▸ first z hz, rest⟩
    | gt =>
      refine List.pairwise_cons.2 ⟨fun z hz => ?_, ih rest⟩
      rcases mem_insertByKey hz with rfl | hz
      · exact Std.OrientedCmp.gt_iff_lt.1 order
      · exact first z hz

/-! ### Steps -/

/-- Every class that has been filed in an open scope is plain. -/
def Scopes.Plain (st : Scopes) : Prop := ∀ s ∈ st.scopes, classPlain s.classes

/-- A step that leaves the scopes the same leaves the classes in them plain. -/
lemma Scopes.Evolves.plain {st st' : Scopes} (h : st.Evolves st') (plain : st.Plain) :
    st'.Plain := by
  have same := h.scopes
  unfold Scopes.Plain at plain ⊢
  generalize st.scopes = scopes, st'.scopes = scopes' at same plain
  induction same with
  | nil => exact plain
  | cons hs _ ih =>
    obtain ⟨first, others⟩ := List.forall_mem_cons.1 plain
    exact List.forall_mem_cons.2 ⟨hs.classes ▸ first, ih others⟩

namespace Resolve

variable {α β : Type} {P : α → Prop} {Q : β → Prop} {x : Resolve α} {f : α → Resolve β}

/-- A step with an answer that has a property, which files only plain classes. -/
def Builds (P : α → Prop) (x : Resolve α) : Prop :=
  ∀ st : Scopes, st.Plain → (x.after st).Plain ∧ P (x.answer st)

/-- A result that is at hand changes no classes. -/
lemma Builds.pure {a : α} (h : P a) : Builds P (pure a) := fun _ plain => ⟨plain, h⟩

/-- Steps that file plain classes, one after the other. -/
lemma Builds.bind (hx : Builds P x) (hf : ∀ a, P a → Builds Q (f a)) : Builds Q (x >>= f) := by
  intro st plain
  obtain ⟨plain', h⟩ := hx st plain
  exact hf _ h _ plain'

/-- The answer of the first step may not matter to the second. -/
lemma Builds.andThen (hx : Builds (fun _ => True) x) (hf : ∀ a, Builds Q (f a)) :
    Builds Q (x >>= f) :=
  hx.bind fun a _ => hf a

/-- A step that leaves the scopes the same. -/
lemma builds_of_evolves (h : ∀ st : Scopes, st.Evolves (x.after st)) : Builds (fun _ => True) x :=
  fun st plain => ⟨(h st).plain plain, trivial⟩

/-- What leaves the scopes the same files no class. -/
lemma builds_of_sees {C : List Slot → α → Prop} (h : Sees false (fun _ => True) x C) :
    Builds (fun _ => True) x :=
  builds_of_evolves fun st => (h st).1

/-- A change of the innermost scope that keeps its classes. -/
lemma builds_modifyInnermost {g : Scope → Scope} (h : ∀ s, (g s).classes = s.classes) :
    Builds (fun _ => True) (modifyInnermost g) := by
  intro st plain
  obtain ⟨next, scopes, globalScope, fieldScopes, enclosing, globals, problems⟩ := st
  refine ⟨?_, trivial⟩
  cases scopes with
  | nil => exact plain
  | cons s rest =>
    obtain ⟨first, others⟩ := List.forall_mem_cons.1 plain
    exact List.forall_mem_cons.2 ⟨(h s).symm ▸ first, others⟩

/-- A declaration files no class. -/
lemma builds_declare (name : Name) (kind : BindingKind) (initialized : Bool) :
    Builds (fun _ => True) (declare name kind initialized) := by
  refine (builds_of_evolves evolves_fresh).andThen fun slot => ?_
  refine (builds_of_evolves fun st => .refl st : Builds _ innermost).andThen fun s => ?_
  have bound : Builds (fun _ => True) (do
      modifyInnermost fun s =>
        { s.put ⟨name, slot, kind, initialized, false⟩ with
          names := s.names ++ [(slot, name.text)] }
      return slot) := by
    refine (builds_modifyInnermost fun s => ?_).andThen fun _ => .pure trivial
    rfl
  split
  · exact (builds_of_evolves (evolves_report _)).andThen fun _ => bound
  · exact bound

/-- Classes are declared before they are filed. -/
lemma builds_hoist (body : List Syntax.Stmt) : Builds (fun _ => True) (hoist body) := by
  induction body with
  | nil => exact .pure trivial
  | cons s body ih =>
    cases s with
    | cls name methods =>
      exact (builds_declare name .cls true).andThen fun _ => ih.andThen fun _ => .pure trivial
    | block _ | branch _ _ _ _ | loop _ _ _ | var _ _ | ret _ _ | eval _ => exact ih

/-- A new scope has no classes. -/
lemma builds_openScope : Builds (fun _ => True) openScope := by
  intro st plain
  exact ⟨List.forall_mem_cons.2 ⟨trivial, plain⟩, trivial⟩

/-- The classes of a scope that is closed are plain. -/
lemma builds_closeScope : Builds (fun s : Scope => classPlain s.classes) closeScope := by
  intro st plain
  obtain ⟨next, scopes, globalScope, fieldScopes, enclosing, globals, problems⟩ := st
  cases scopes with
  | nil => exact ⟨plain, trivial⟩
  | cons s rest =>
    obtain ⟨first, others⟩ := List.forall_mem_cons.1 plain
    exact ⟨others, first⟩

/-- A block is plain if its statements are, and so are the classes that they file. -/
lemma builds_blockOf {body : List Syntax.Stmt} {walk : List (String × Slot) → Resolve (List Stmt)}
    (h : ∀ hoisted, Builds stmtPlain (walk hoisted)) : Builds Block.Plain (blockOf body walk) := by
  refine builds_openScope.andThen fun _ => ?_
  refine Builds.bind (P := stmtPlain) ((builds_hoist body).andThen h) fun ss hss => ?_
  exact builds_closeScope.bind fun s hs => .pure ⟨hss, hs⟩

/-- Parameters file no class. -/
lemma builds_params (names : List Name) :
    Builds (fun _ => True) (names.mapM fun p => declare p .param true) := by
  induction names with
  | nil => exact .pure trivial
  | cons name names ih =>
    rw [List.mapM_cons]
    exact (builds_declare name .param true).andThen fun _ => ih.andThen fun _ => .pure trivial

/-- A method is plain if its body is. -/
lemma builds_method (name : String) (params : Option (List Name)) (line : Line)
    {body : Resolve Block} (hbody : Builds Block.Plain body) :
    Builds (fun m => m.body.Plain) (method name params line body) := by
  have declared : Builds (fun _ => True)
      (params.mapM fun names => names.mapM fun p => declare p .param true) := by
    cases params with
    | none => exact .pure trivial
    | some names => exact (builds_params names).andThen fun _ => .pure trivial
  refine builds_openScope.andThen fun _ => declared.andThen fun _ => hbody.bind fun b hb => ?_
  exact builds_closeScope.bind fun _ _ => .pure hb

/-! ### Classes -/

/-- Members whose tables are sorted and whose methods are plain. -/
structure Members.Plain (m : Members) : Prop where
  constructors : SortedMethods m.constructors ∧ methodPlain m.constructors
  staticMethods : SortedMethods m.staticMethods ∧ methodPlain m.staticMethods
  methods : SortedMethods m.methods ∧ methodPlain m.methods

/-- A plain method is added to a table. -/
lemma plain_insert {table : List Method} (h : SortedMethods table ∧ methodPlain table) {m : Method}
    (hm : m.body.Plain) : SortedMethods (insertByKey Method.selector m table) ∧
      methodPlain (insertByKey Method.selector m table) := by
  refine ⟨h.1.insert m, methodPlain_iff.2 fun x hx => ?_⟩
  rcases mem_insertByKey hx with rfl | hx
  · exact hm
  · exact methodPlain_iff.1 h.2 x hx

/-- What is done on a side of a class files the same classes. -/
lemma builds_withFields {side : FieldScope} {walk : Resolve α} (hwalk : Builds P walk) :
    Builds (fun r => P r.1) (withFields side walk) :=
  fun st plain => hwalk { st with fieldScopes := side :: st.fieldScopes } plain

/-- What is done inside of a class files the same classes. -/
lemma builds_insideClass {slot : Slot} {walk : Resolve α} (hwalk : Builds P walk) :
    Builds P (insideClass slot walk) :=
  fun st plain => hwalk { st with enclosing := slot :: st.enclosing } plain

/-- A step before which a mistake may be noted. -/
lemma builds_reportIf (c : Prop) [Decidable c] (p : ScopeProblem) (hx : Builds P x) :
    Builds P (if c then (do report p; x) else x) := by
  split
  · exact (builds_of_evolves (evolves_report p)).andThen fun _ => hx
  · exact hx

/-- A member is plain if its method is, and those before it were. -/
lemma builds_member (cls : String) {m : Members} (hm : m.Plain) (kind : Syntax.MethodKind)
    (name : Name) {walk : Resolve Method} (hwalk : Builds (fun x => x.body.Plain) walk) :
    Builds Members.Plain (member cls m kind name walk) := by
  have onInstance : Builds (fun r => r.1.body.Plain) (withFields m.instanceSide walk) :=
    builds_withFields hwalk
  cases kind with
  | onClass =>
    refine hwalk.bind fun x hx => builds_reportIf _ _ (.pure ?_)
    exact ⟨hm.constructors, plain_insert hm.staticMethods hx, hm.methods⟩
  | construct =>
    refine onInstance.bind fun r hr => builds_reportIf _ _ (.pure ?_)
    exact ⟨plain_insert hm.constructors hr, hm.staticMethods, hm.methods⟩
  | onInstance =>
    refine onInstance.bind fun r hr => builds_reportIf _ _ (.pure ?_)
    exact ⟨hm.constructors, hm.staticMethods, plain_insert hm.methods hr⟩

/-- A class is plain if its members are. -/
lemma builds_classDecl (name : Name) {walk : Members → Resolve Members}
    (hwalk : ∀ m : Members, m.Plain → Builds Members.Plain (walk m)) :
    Builds ClassDecl.Plain (classDecl name walk) := by
  have empty : SortedMethods [] ∧ methodPlain [] := ⟨.nil, trivial⟩
  refine (builds_of_evolves evolves_fresh).andThen fun receiver => ?_
  refine (builds_of_evolves evolves_fresh).andThen fun staticReceiver => ?_
  refine (builds_withFields (hwalk (.start receiver) ⟨empty, empty, empty⟩)).bind fun r hr => ?_
  exact .pure ⟨hr.constructors.imp_left SortedMethods.unambiguous,
    hr.staticMethods.imp_left SortedMethods.unambiguous,
    hr.methods.imp_left SortedMethods.unambiguous⟩

/-! ### The walk -/

/-- A branch is plain if its statement is. -/
lemma builds_branch {s : Syntax.Stmt}
    (hs : ∀ hoisted, Builds (fun o : Option Stmt => stmtPlain o.toList) (resolveStmt hoisted s)) :
    Builds Stmt.Plain (branch s fun hoisted => resolveStmt hoisted s) := by
  have enclosed : Builds Block.Plain
      (blockOf [s] fun hoisted => do return (← resolveStmt hoisted s).toList) :=
    builds_blockOf fun hoisted => (hs hoisted).bind fun o ho => .pure ho
  have inner : Builds Stmt.Plain (do return (← resolveStmt [] s).getD (.block .empty)) := by
    refine (hs []).bind fun o ho => .pure ?_
    cases o with
    | none => exact ⟨trivial, trivial⟩
    | some x => exact ho.1
  cases s with
  | var name init => exact enclosed.bind fun b hb => .pure hb
  | cls name methods => exact enclosed.bind fun b hb => .pure hb
  | block _ | branch _ _ _ _ | loop _ _ _ | ret _ _ | eval _ => exact inner

/-- An expression that may be missing is plain if it is there. -/
lemma builds_resolveMaybe {init : Option Syntax.Expr}
    (h : ∀ e, init = some e → Builds Expr.Plain (resolveExpr e)) :
    Builds (fun o : Option Expr => ∀ e, o = some e → e.Plain) (resolveMaybe init) := by
  cases init with
  | none => exact .pure nofun
  | some e => exact (h e rfl).bind fun x hx => .pure fun y hy => Option.some.inj hy ▸ hx

/-- The class that a block of code stands for is plain if its method is. -/
lemma plain_codeClass (receiver staticReceiver : Slot) {call : Method} (h : call.body.Plain)
    (line : Line) : (codeClass receiver staticReceiver call line).Plain := by
  have single (m : Method) : Unambiguous [m] := List.pairwise_singleton _ _
  exact ⟨⟨single _, ⟨trivial, trivial⟩, trivial⟩, ⟨.nil, trivial⟩, single call,
    methodPlain_iff.2 fun m hm => List.mem_singleton.1 hm ▸ h⟩

/-- Arguments are plain if those in parentheses are and the block of code is. -/
lemma builds_resolveAll {arguments : Option (List Syntax.Expr)} {code : Option Syntax.Code}
    (harguments : ∀ es, arguments = some es → Builds exprPlain (resolveExprs es))
    (hcode : ∀ params body line, code = some ⟨params, body, line⟩ →
      Builds Block.Plain (blockOf body fun hoisted => resolveStmts hoisted body)) :
    Builds (fun o : Option (List Expr) => exprPlain (o.getD [])) (resolveAll arguments code) := by
  have written : Builds (fun o : Option (List Expr) => exprPlain (o.getD []))
      (resolveArguments arguments) := by
    cases arguments with
    | none => exact .pure trivial
    | some es => exact (harguments es rfl).bind fun xs hxs => .pure hxs
  refine written.bind fun arguments plain => ?_
  cases code with
  | none => exact .pure plain
  | some code =>
    obtain ⟨params, body, line⟩ := code
    refine (builds_of_evolves evolves_fresh).andThen fun own => ?_
    refine (builds_of_evolves evolves_fresh).andThen fun ownStatic => ?_
    refine (builds_method "call" (some params) line (hcode params body line rfl)).bind
      fun call hcall => .pure ?_
    exact exprPlain_append plain ⟨⟨plain_codeClass own ownStatic hcall line, trivial⟩, trivial⟩

/-- A call is plain if its receiver and its arguments are. -/
lemma builds_call {receiver : Syntax.Expr} (name : Name) {arguments : Option (List Syntax.Expr)}
    {code : Option Syntax.Code} (hreceiver : Builds Expr.Plain (resolveExpr receiver))
    (harguments : ∀ es, arguments = some es → Builds exprPlain (resolveExprs es))
    (hcode : ∀ params body line, code = some ⟨params, body, line⟩ →
      Builds Block.Plain (blockOf body fun hoisted => resolveStmts hoisted body)) :
    Builds Expr.Plain (resolveExpr (.call receiver name arguments code)) := by
  rw [resolveExpr_call]
  refine hreceiver.bind fun receiver hr => ?_
  refine (builds_resolveAll harguments hcode).bind fun arguments ha => .pure ?_
  cases arguments with
  | none => exact ⟨hr, trivial⟩
  | some es => exact ⟨hr, ha⟩

/-- The statement of a variable is plain if its initializer is. -/
lemma builds_var (hoisted : List (String × Slot)) (name : Name) {init : Option Syntax.Expr}
    (h : ∀ e, init = some e → Builds Expr.Plain (resolveExpr e)) :
    Builds (fun o : Option Stmt => stmtPlain o.toList) (resolveStmt hoisted (.var name init)) := by
  rw [resolveStmt_var]
  refine (builds_declare name .var false).andThen fun slot => ?_
  refine (builds_resolveMaybe h).bind fun init hinit => ?_
  have mark : Builds (fun _ => True) (markInitialized name.text) :=
    builds_modifyInnermost fun s => by split <;> rfl
  refine mark.andThen fun _ => .pure ⟨?_, trivial⟩
  cases init with
  | none => trivial
  | some e => exact hinit e rfl

/-- A plain class is filed. -/
lemma builds_cls (hoisted : List (String × Slot)) (name : Name) (methods : List Syntax.Method)
    (h : ∀ m : Members, m.Plain → Builds Members.Plain (resolveMethods name.text m methods)) :
    Builds (fun o : Option Stmt => stmtPlain o.toList)
      (resolveStmt hoisted (.cls name methods)) := by
  rw [resolveStmt]
  cases hoisted.lookup name.text with
  | none => exact .pure trivial
  | some slot =>
    refine (builds_insideClass (builds_classDecl name h)).bind fun c hc => ?_
    have filed : Builds (fun _ => True) (addClass slot c) := by
      intro st plain
      obtain ⟨next, scopes, globalScope, fieldScopes, enclosing, globals, problems⟩ := st
      refine ⟨?_, trivial⟩
      cases scopes with
      | nil => exact plain
      | cons s rest =>
        obtain ⟨first, others⟩ := List.forall_mem_cons.1 plain
        refine List.forall_mem_cons.2 ⟨classPlain_iff.2 fun x hx => ?_, others⟩
        rcases mem_insertByKey hx with rfl | hx
        · exact hc
        · exact classPlain_iff.1 first x hx
    exact filed.andThen fun _ => .pure trivial

end Resolve

open Resolve

mutual

/-- An expression without connectives becomes a plain one. -/
theorem builds_resolveExpr :
    (e : Syntax.Expr) → e.Unconnected → Builds Expr.Plain (resolveExpr e)
  | .assign target value line, h => by
    rw [resolveExpr_assign]
    refine (builds_of_sees (sees_resolveTarget (sees_resolveExpr target))).andThen fun slot => ?_
    exact (builds_resolveExpr value h.2).bind fun value hv => .pure hv
  | .call receiver name none none, h =>
    builds_call name (builds_resolveExpr receiver h.1) nofun nofun
  | .call receiver name (some es) none, h =>
    builds_call name (builds_resolveExpr receiver h.1)
      (fun _ e => Option.some.inj e ▸ builds_resolveExprs es h.2.1) nofun
  | .call receiver name none (some ⟨params, body, line⟩), h =>
    builds_call name (builds_resolveExpr receiver h.1) nofun fun _ _ _ e => by
      cases e
      exact builds_blockOf fun hoisted => builds_resolveStmts hoisted body h.2.2
  | .call receiver name (some es) (some ⟨params, body, line⟩), h =>
    builds_call name (builds_resolveExpr receiver h.1)
      (fun _ e => Option.some.inj e ▸ builds_resolveExprs es h.2.1) fun _ _ _ e => by
        cases e
        exact builds_blockOf fun hoisted => builds_resolveStmts hoisted body h.2.2
  | .literal value line, _ => .pure trivial
  | .variable name, _ => (builds_of_sees (sees_namedSlot name)).andThen fun r => .pure trivial
  | .field name, _ => (builds_of_sees (sees_instanceField name)).andThen fun s => .pure trivial
  | .staticField name, _ => (builds_of_sees (sees_staticField name)).andThen fun s => .pure trivial
  | .this line, _ => (builds_of_sees (sees_thisSlot line)).andThen fun s => .pure trivial
  | .logical _ _ _ _, h => nomatch h

/-- Expressions without connectives become plain ones. -/
theorem builds_resolveExprs :
    (es : List Syntax.Expr) → Syntax.exprUnconnected es → Builds exprPlain (resolveExprs es)
  | [], _ => .pure trivial
  | e :: es, h => by
    refine (builds_resolveExpr e h.1).bind fun x hx => ?_
    exact (builds_resolveExprs es h.2).bind fun xs hxs => .pure ⟨hx, hxs⟩

/-- A statement without connectives becomes a plain one. -/
theorem builds_resolveStmt (hoisted : List (String × Slot)) :
    (s : Syntax.Stmt) → s.Unconnected →
      Builds (fun o : Option Stmt => stmtPlain o.toList) (resolveStmt hoisted s)
  | .block body, h =>
    (builds_blockOf fun hoisted => builds_resolveStmts hoisted body h).bind fun b hb =>
      .pure ⟨hb, trivial⟩
  | .branch condition yes none line, h => by
    refine (builds_resolveExpr condition h.1).bind fun c hc => ?_
    refine (builds_branch fun hoisted => builds_resolveStmt hoisted yes h.2.1).bind fun y hy => ?_
    exact .pure ⟨⟨hc, hy, trivial⟩, trivial⟩
  | .branch condition yes (some no) line, h => by
    refine (builds_resolveExpr condition h.1).bind fun c hc => ?_
    refine (builds_branch fun hoisted => builds_resolveStmt hoisted yes h.2.1).bind fun y hy => ?_
    refine (builds_branch fun hoisted => builds_resolveStmt hoisted no h.2.2).bind fun n hn => ?_
    exact .pure ⟨⟨hc, hy, hn⟩, trivial⟩
  | .loop condition body line, h => by
    refine (builds_resolveExpr condition h.1).bind fun c hc => ?_
    refine (builds_branch fun hoisted => builds_resolveStmt hoisted body h.2).bind fun b hb => ?_
    exact .pure ⟨⟨hc, hb⟩, trivial⟩
  | .var name none, _ => builds_var hoisted name nofun
  | .var name (some init), h =>
    builds_var hoisted name fun _ e => Option.some.inj e ▸ builds_resolveExpr init h
  | .cls name methods, h =>
    builds_cls hoisted name methods fun m hm => builds_resolveMethods name.text methods h m hm
  | .ret none line, _ => .pure ⟨trivial, trivial⟩
  | .ret (some e) line, h =>
    (builds_resolveExpr e h).bind fun x hx => .pure ⟨hx, trivial⟩
  | .eval e, h => (builds_resolveExpr e h).bind fun x hx => .pure ⟨hx, trivial⟩

/-- Statements without connectives become plain ones. -/
theorem builds_resolveStmts (hoisted : List (String × Slot)) :
    (ss : List Syntax.Stmt) → Syntax.stmtUnconnected ss →
      Builds stmtPlain (resolveStmts hoisted ss)
  | [], _ => .pure trivial
  | s :: ss, h => by
    refine (builds_resolveStmt hoisted s h.1).bind fun x hx => ?_
    exact (builds_resolveStmts hoisted ss h.2).bind fun xs hxs => .pure (stmtPlain_append hx hxs)

/-- Members without connectives are added to plain ones. -/
theorem builds_resolveMethods (name : String) :
    (methods : List Syntax.Method) → Syntax.methodUnconnected methods → ∀ m : Members, m.Plain →
      Builds Members.Plain (resolveMethods name m methods)
  | [], _, _, hm => .pure hm
  | ⟨kind, own, params, body⟩ :: rest, h, m, hm => by
    have walk : Builds (fun x => x.body.Plain) (method own.text params own.line
        (blockOf body fun hoisted => resolveStmts hoisted body)) :=
      builds_method own.text params own.line
        (builds_blockOf fun hoisted => builds_resolveStmts hoisted body h.1)
    exact (builds_member name hm kind own walk).bind fun m' hm' =>
      builds_resolveMethods name rest h.2 m' hm'

end

/-! ### Whole programs -/

/-- A program without connectives becomes a plain one, whatever mistakes it has. -/
theorem resolve_plain (globals : List String) {program : List Syntax.Stmt}
    (h : Syntax.stmtUnconnected program) : (resolve globals program).1.root.Plain := by
  rw [resolve_eq]
  refine (builds_blockOf (fun hoisted => builds_resolveStmts hoisted program h) _ ?_).2
  obtain ⟨-, scopes, -⟩ := entry_spec globals
  intro s hs
  rw [scopes] at hs
  cases hs

end Ember
