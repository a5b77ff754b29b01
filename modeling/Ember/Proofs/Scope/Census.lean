/-
No slot is listed twice among the names of a resolved program.

* `Scope.listed`: the slots that an open scope accounts for: those of its names
  and of the names within its classes;
* `lists_resolveExpr`, `lists_resolveStmts`, `lists_resolveMethods`: the walk over
  the program;
* `names_nodup`: a whole program.
-/
import Mathlib
import Ember.Proofs.Scope.Accounts

namespace Ember

open Program

/-! ### Names of a part of a program -/

namespace Program

/-- The slots of the names declared within an expression. -/
def Expr.listed (e : Expr) : List Slot := e.names.map Prod.fst

/-- The slots of the names declared within expressions. -/
def exprListed (es : List Expr) : List Slot := (exprNames es).map Prod.fst

/-- The slots of the names declared within statements. -/
def stmtListed (ss : List Stmt) : List Slot := (stmtNames ss).map Prod.fst

/-- The slots of the names of a method and of those declared in it. -/
def Method.listed (m : Method) : List Slot := (methodNames [m]).map Prod.fst

/-- The slots of the names of a block and of those declared within it. -/
def Block.listed (b : Block) : List Slot := b.allNames.map Prod.fst

/-- The slots of the names of a class and of those declared within it. -/
def ClassDecl.listed (c : ClassDecl) : List Slot := c.names.map Prod.fst

/-- The names of expressions are those of the first one and those of the others. -/
lemma exprListed_cons (e : Expr) (es : List Expr) :
    exprListed (e :: es) = e.listed ++ exprListed es :=
  List.map_append ..

/-- The names of expressions are those of both parts of them. -/
lemma exprListed_append (es fs : List Expr) :
    exprListed (es ++ fs) = exprListed es ++ exprListed fs := by
  induction es with
  | nil => rfl
  | cons e es ih => rw [List.cons_append, exprListed_cons, exprListed_cons, ih, List.append_assoc]

/-- The names of statements are those of the first one and those of the others. -/
lemma stmtListed_cons (s : Stmt) (ss : List Stmt) :
    stmtListed (s :: ss) = s.names.map Prod.fst ++ stmtListed ss :=
  List.map_append ..

/-- The names of one statement. -/
lemma stmtListed_singleton (s : Stmt) : stmtListed [s] = s.names.map Prod.fst := by
  rw [stmtListed_cons]
  exact List.append_nil _

/-- The names of statements are those of both parts of them. -/
lemma stmtListed_append (ss ts : List Stmt) :
    stmtListed (ss ++ ts) = stmtListed ss ++ stmtListed ts := by
  induction ss with
  | nil => rfl
  | cons s ss ih => rw [List.cons_append, stmtListed_cons, stmtListed_cons, ih, List.append_assoc]

/-- The names of a method are its parameters and those of its body. -/
lemma Method.listed_eq (m : Method) :
    m.listed = m.names.map Prod.fst ++ m.body.listed := by
  cases m
  simp [Method.listed, methodNames, Block.listed]

/-- The names of methods are those of each one. -/
lemma map_methodNames (ms : List Method) :
    (methodNames ms).map Prod.fst = ms.flatMap Method.listed := by
  induction ms with
  | nil => rfl
  | cons m ms ih =>
    rw [List.flatMap_cons, ← ih, Method.listed_eq]
    cases m
    simp [methodNames, Block.listed]

/-- The names of classes are those of each one. -/
lemma map_classNames (cs : List (Slot × ClassDecl)) :
    (classNames cs).map Prod.fst = cs.flatMap fun c => c.2.listed := by
  induction cs with
  | nil => rfl
  | cons c cs ih => rw [List.flatMap_cons, ← ih, classNames, List.map_append, ClassDecl.listed]

end Program

/-- The slots of the names of an open scope and of those within its classes. -/
def Scope.listed (s : Scope) : List Slot :=
  s.names.map Prod.fst ++ (Program.classNames s.classes).map Prod.fst

/-- A scope that is the same accounts for the same slots. -/
lemma Scope.listed_same (s t : Scope) (h : s.Same t) : t.listed = s.listed := by
  rw [Scope.listed, Scope.listed, h.names, h.classes]

namespace Resolve

variable {α : Type}

/-- A step that lists no slot twice. -/
def Lists (x : Resolve α) (slots : α → List Slot) : Prop := Accounts Scope.listed [] x slots

/-! ### Declarations -/

/-- A slot that is declared is listed by the scope. -/
lemma lists_declare (name : Name) (kind : BindingKind) (initialized : Bool) :
    Lists (declare name kind initialized) fun _ => [] := by
  refine accounts_fresh.bind fun slot => ?_
  have bound : Accounts Scope.listed [slot] (do
      modifyInnermost fun s =>
        { s.put ⟨name, slot, kind, initialized, false⟩ with
          names := s.names ++ [(slot, name.text)] }
      return slot) fun _ => [] := by
    refine (accounts_modifyInnermost fun s t => ?_).bind fun _ => accounts_none _
    simp only [Scope.listed, Scope.put, List.map_append, List.map_cons, List.map_nil,
      List.count_append]
    omega
  have looked : Lists innermost fun _ => [] := accounts_of_held fun _ => ⟨rfl, rfl⟩
  refine looked.thenNone fun s => ?_
  exact accounts_reportIf _ _ bound

/-- Classes are listed in their scope when they are declared. -/
lemma lists_hoist (body : List Syntax.Stmt) : Lists (hoist body) fun _ => [] := by
  induction body with
  | nil => exact accounts_none _
  | cons x body ih =>
    cases x with
    | cls name methods =>
      exact (lists_declare name .cls true).thenNone fun slot => ih.thenNone fun _ => accounts_none _
    | block _ | branch _ _ _ _ | loop _ _ _ | var _ _ | ret _ _ | eval _ => exact ih

/-- A block lists what its statements have left in its scope. -/
lemma lists_blockOf {body : List Syntax.Stmt} {walk : List (String × Slot) → Resolve (List Stmt)}
    (hwalk : ∀ hoisted, Lists (walk hoisted) stmtListed) :
    Lists (blockOf body walk) Block.listed := by
  have inner : Lists (do walk (← hoist body)) stmtListed :=
    (lists_hoist body).thenNone hwalk
  refine inner.enclosed rfl (fun ss scope => (⟨ss, scope.names, scope.classes⟩ : Block))
    Block.listed fun ss scope s => ?_
  simp only [Block.listed, Block.allNames, Scope.listed, stmtListed, List.map_append,
    List.count_append]
  omega

/-- Parameters are listed in their scope. -/
lemma lists_params (names : List Name) :
    Lists (names.mapM fun p => declare p .param true) fun _ => [] := by
  induction names with
  | nil => exact accounts_none _
  | cons name names ih =>
    rw [List.mapM_cons]
    exact (lists_declare name .param true).thenNone fun p => ih.thenNone fun _ => accounts_none _

/-- A method lists its parameters and what its body does. -/
lemma lists_method (name : String) (params : Option (List Name)) (line : Line)
    {body : Resolve Block} (hbody : Lists body Block.listed) :
    Lists (method name params line body) Method.listed := by
  have declared : Lists (params.mapM fun names => names.mapM fun p => declare p .param true)
      fun _ => [] := by
    cases params with
    | none => exact accounts_none _
    | some names => exact (lists_params names).thenNone fun _ => accounts_none _
  have inner : Lists (do
      let params ← params.mapM fun names => names.mapM fun p => declare p .param true
      let body ← body
      return (params, body)) fun r => r.2.listed :=
    declared.thenNone fun ps => hbody.bind fun b => .pure fun _ => le_refl _
  refine inner.enclosed rfl (fun r scope => (⟨name, r.1, scope.names, r.2, line⟩ : Method))
    Method.listed fun r scope s => ?_
  simp only [Method.listed_eq, Scope.listed, List.count_append]
  omega

/-- A class lists its fields, its receivers and what its members do. -/
lemma lists_classDecl (name : Name) {walk : Members → Resolve Members}
    (evolves : ∀ m (st : Scopes), st.Evolves ((walk m).after st))
    (hwalk : ∀ m : Members, Accounts Scope.listed (m.slotsBy Method.listed) (walk m)
      (Members.slotsBy Method.listed)) :
    Lists (classDecl name walk) ClassDecl.listed := by
  refine accounts_classDecl name evolves hwalk fun c s => ?_
  cases c
  simp only [ClassDecl.listed, ClassDecl.names, List.map_append, map_methodNames, List.map_cons,
    List.map_nil, List.count_append, List.count_cons, List.count_nil]
  omega

/-! ### The walk -/

/-- A branch lists what its statement does, in a scope of its own if it declares something. -/
lemma lists_branch {s : Syntax.Stmt}
    (hs : ∀ hoisted, Lists (resolveStmt hoisted s) fun o => stmtListed o.toList) :
    Lists (branch s fun hoisted => resolveStmt hoisted s) fun x => x.names.map Prod.fst := by
  have enclosed : Lists
      (blockOf [s] fun hoisted => do return (← resolveStmt hoisted s).toList) Block.listed :=
    lists_blockOf fun hoisted => (hs hoisted).bind fun o => .pure fun _ => le_refl _
  have inner : Lists (do return (← resolveStmt [] s).getD (.block .empty))
      fun x => x.names.map Prod.fst := by
    refine (hs []).bind fun o => .pure fun t => ?_
    cases o with
    | none => exact Nat.zero_le _
    | some x => exact le_of_eq (congrArg (List.count t) (stmtListed_singleton x).symm)
  cases s with
  | var name init => exact enclosed.bind fun b => .pure fun t => le_refl _
  | cls name methods => exact enclosed.bind fun b => .pure fun t => le_refl _
  | block _ | branch _ _ _ _ | loop _ _ _ | ret _ _ | eval _ => exact inner

/-- An expression that may be missing lists what is there. -/
lemma lists_resolveMaybe {init : Option Syntax.Expr}
    (h : ∀ e, init = some e → Lists (resolveExpr e) Expr.listed) :
    Lists (resolveMaybe init) fun o => exprListed o.toList := by
  cases init with
  | none => exact accounts_none _
  | some e =>
    refine (h e rfl).bind fun x => .pure fun s => ?_
    rw [Option.toList_some, exprListed_cons]
    exact le_of_eq (congrArg (List.count s) (List.append_nil _))

/-- A block of code lists the receivers of its class and what its method does. -/
lemma listed_code (own ownStatic : Slot) (call : Method) (line : Line) :
    exprListed [.call (.cls (codeClass own ownStatic call line)) "new" (some []) line] =
      own :: ownStatic :: call.listed := by
  rw [Method.listed_eq]
  cases call
  simp [exprListed, exprNames, Expr.names, codeClass, ClassDecl.names, methodNames,
    Block.empty, Block.allNames, Program.classNames, stmtNames, Block.listed]

/-- A call lists what its receiver and its arguments do. -/
lemma lists_call {receiver : Syntax.Expr} (name : Name) {arguments : Option (List Syntax.Expr)}
    {code : Option Syntax.Code} (hreceiver : Lists (resolveExpr receiver) Expr.listed)
    (harguments : ∀ es, arguments = some es → Lists (resolveExprs es) exprListed)
    (hcode : ∀ params body line, code = some ⟨params, body, line⟩ →
      Lists (blockOf body fun hoisted => resolveStmts hoisted body) Block.listed) :
    Lists (resolveExpr (.call receiver name arguments code)) Expr.listed := by
  have written : Lists (resolveArguments arguments) fun o => exprListed (o.getD []) := by
    cases arguments with
    | none => exact accounts_none _
    | some es => exact (harguments es rfl).bind fun xs => .pure fun _ => le_refl _
  have all : Lists (resolveAll arguments code) fun o => exprListed (o.getD []) := by
    refine written.bind fun arguments => ?_
    cases code with
    | none => exact .pure fun _ => le_refl _
    | some code =>
      obtain ⟨params, body, line⟩ := code
      refine accounts_fresh.andThen fun own => accounts_fresh.andThen fun ownStatic => ?_
      refine (lists_method "call" (some params) line (hcode params body line rfl)).andThen
        fun call => .pure fun s => ?_
      simp only [Option.getD_some, exprListed_append, listed_code, List.count_append,
        List.count_cons, List.count_nil]
      omega
  rw [resolveExpr_call]
  refine hreceiver.bind fun receiver => all.andThen fun arguments => .pure fun s => ?_
  cases arguments <;> simp [Expr.listed, Expr.names, exprListed, exprNames]

/-- A variable is listed in its scope, and what its initializer lists within it. -/
lemma lists_var (hoisted : List (String × Slot)) (name : Name) {init : Option Syntax.Expr}
    (h : ∀ e, init = some e → Lists (resolveExpr e) Expr.listed) :
    Lists (resolveStmt hoisted (.var name init)) fun o => stmtListed o.toList := by
  rw [resolveStmt_var]
  refine (lists_declare name .var false).thenNone fun slot => ?_
  refine (lists_resolveMaybe h).bind fun init => ?_
  have mark : Lists (markInitialized name.text) fun _ => [] := by
    refine accounts_modifyInnermost fun s t => ?_
    split <;> exact Nat.le_add_left _ _
  refine mark.andThen fun _ => .pure fun s => ?_
  cases init <;> simp [stmtListed, stmtNames, Stmt.names, exprListed, exprNames]

/-- A class that is filed is listed by the scope it is filed in. -/
lemma lists_cls (hoisted : List (String × Slot)) (name : Name) (methods : List Syntax.Method)
    (h : ∀ m : Members, Accounts Scope.listed (m.slotsBy Method.listed)
      (resolveMethods name.text m methods) (Members.slotsBy Method.listed)) :
    Lists (resolveStmt hoisted (.cls name methods)) fun o => stmtListed o.toList := by
  rw [resolveStmt]
  cases hoisted.lookup name.text with
  | none => exact accounts_none _
  | some slot =>
    have decl : Lists (insideClass slot
        (classDecl name fun m => resolveMethods name.text m methods)) ClassDecl.listed :=
      accounts_insideClass (lists_classDecl name (evolves_resolveMethods name.text methods) h)
    refine decl.bind fun c => (accounts_modifyInnermost fun scope s => ?_).bind
      fun _ => accounts_none _
    have := count_insertByKey Prod.fst (fun c => c.2.listed) (slot, c) scope.classes s
    simp only [Scope.listed, map_classNames, List.count_append] at this ⊢
    omega

end Resolve

open Resolve

mutual

/-- No slot is listed twice within an expression. -/
theorem lists_resolveExpr : (e : Syntax.Expr) → Lists (resolveExpr e) Expr.listed
  | .assign target value line => by
    rw [resolveExpr_assign]
    refine (accounts_resolveTarget Scope.listed_same (lists_resolveExpr target)).thenNone
      fun slot => ?_
    exact (lists_resolveExpr value).bind fun value => .pure fun _ => le_refl _
  | .call receiver name none none =>
    lists_call name (lists_resolveExpr receiver) (fun _ h => nomatch h) fun _ _ _ h => nomatch h
  | .call receiver name (some es) none =>
    lists_call name (lists_resolveExpr receiver)
      (fun _ h => Option.some.inj h ▸ lists_resolveExprs es) fun _ _ _ h => nomatch h
  | .call receiver name none (some ⟨params, body, line⟩) =>
    lists_call name (lists_resolveExpr receiver) (fun _ h => nomatch h) fun _ _ _ h => by
      cases h
      exact lists_blockOf fun hoisted => lists_resolveStmts hoisted body
  | .call receiver name (some es) (some ⟨params, body, line⟩) =>
    lists_call name (lists_resolveExpr receiver)
      (fun _ h => Option.some.inj h ▸ lists_resolveExprs es) fun _ _ _ h => by
        cases h
        exact lists_blockOf fun hoisted => lists_resolveStmts hoisted body
  | .literal value line => accounts_none _
  | .variable name =>
    (accounts_namedSlot Scope.listed_same name).bind fun r => .pure fun _ => le_refl _
  | .field name => (accounts_instanceField name).bind fun s => .pure fun _ => le_refl _
  | .staticField name => (accounts_staticField name).bind fun s => .pure fun _ => le_refl _
  | .this line => (accounts_thisSlot line).bind fun s => .pure fun _ => le_refl _
  | .logical op left right line => by
    refine (lists_resolveExpr left).bind fun left => ?_
    refine (lists_resolveExpr right).andThen fun right => .pure fun s => ?_
    simp [Expr.listed, Expr.names]

/-- Expressions list what each of them does. -/
theorem lists_resolveExprs : (es : List Syntax.Expr) → Lists (resolveExprs es) exprListed
  | [] => accounts_none _
  | e :: es => by
    refine (lists_resolveExpr e).bind fun e => ?_
    refine (lists_resolveExprs es).andThen fun es => .pure fun s => ?_
    rw [exprListed_cons]

/-- No slot is listed twice within a statement. -/
theorem lists_resolveStmt (hoisted : List (String × Slot)) :
    (s : Syntax.Stmt) → Lists (resolveStmt hoisted s) fun o => stmtListed o.toList
  | .block body => by
    refine (lists_blockOf fun hoisted => lists_resolveStmts hoisted body).bind fun b =>
      .pure fun s => ?_
    exact le_of_eq (congrArg (List.count s) (stmtListed_singleton (.block b)))
  | .branch condition yes none line => by
    refine (lists_resolveExpr condition).bind fun condition => ?_
    refine (lists_branch fun hoisted => lists_resolveStmt hoisted yes).andThen fun yes =>
      .pure fun s => ?_
    simp [stmtListed_singleton, Stmt.names, Expr.listed]
  | .branch condition yes (some no) line => by
    refine (lists_resolveExpr condition).bind fun condition => ?_
    refine (lists_branch fun hoisted => lists_resolveStmt hoisted yes).andThen fun yes => ?_
    refine (lists_branch fun hoisted => lists_resolveStmt hoisted no).andThen fun no =>
      .pure fun s => ?_
    simp [stmtListed_singleton, Stmt.names, Expr.listed]
  | .loop condition body line => by
    refine (lists_resolveExpr condition).bind fun condition => ?_
    refine (lists_branch fun hoisted => lists_resolveStmt hoisted body).andThen fun body =>
      .pure fun s => ?_
    simp [stmtListed_singleton, Stmt.names, Expr.listed]
  | .var name none => lists_var hoisted name fun _ h => nomatch h
  | .var name (some init) =>
    lists_var hoisted name fun _ h => Option.some.inj h ▸ lists_resolveExpr init
  | .cls name methods => lists_cls hoisted name methods (lists_resolveMethods name.text methods)
  | .ret none line => accounts_none _
  | .ret (some e) line => by
    refine (lists_resolveExpr e).bind fun e => .pure fun s => ?_
    exact le_of_eq (congrArg (List.count s) (stmtListed_singleton (.ret (some e) line)))
  | .eval e => by
    refine (lists_resolveExpr e).bind fun e => .pure fun s => ?_
    exact le_of_eq (congrArg (List.count s) (stmtListed_singleton (.eval e)))

/-- No slot is listed twice within statements. -/
theorem lists_resolveStmts (hoisted : List (String × Slot)) :
    (ss : List Syntax.Stmt) → Lists (resolveStmts hoisted ss) stmtListed
  | [] => accounts_none _
  | s :: ss => by
    refine (lists_resolveStmt hoisted s).bind fun x => ?_
    refine (lists_resolveStmts hoisted ss).andThen fun xs => .pure fun s => ?_
    rw [stmtListed_append]

/-- No slot is listed twice within the members of a class. -/
theorem lists_resolveMethods (name : String) :
    (methods : List Syntax.Method) → ∀ m : Members,
      Accounts Scope.listed (m.slotsBy Method.listed) (resolveMethods name m methods)
        (Members.slotsBy Method.listed)
  | [], m => .pure fun _ => le_refl _
  | ⟨kind, own, params, body⟩ :: rest, m => by
    refine (accounts_member name m kind own (fun st => ?_) ?_).bind fun m' =>
      lists_resolveMethods name rest m'
    · exact (sees_method own.text params own.line (sees_program false body) st).1
    · exact lists_method own.text params own.line
        (lists_blockOf fun hoisted => lists_resolveStmts hoisted body)

end

/-! ### Whole programs -/

/-- The globals that are given are held by the state. -/
lemma lists_declareGlobals (names : List String) : Lists (declareGlobals names) fun _ => [] := by
  induction names with
  | nil => exact accounts_none _
  | cons name names ih => exact (accounts_makeGlobal ⟨name, 0⟩ false).thenNone fun _ => ih

/-- No slot is listed twice among the names of a program, whatever mistakes it has. -/
theorem names_nodup (globals : List String) (program : List Syntax.Stmt) :
    ((resolve globals program).1.names.map Prod.fst).Nodup := by
  let whole : Resolve Block := do
    declareGlobals globals
    blockOf program fun hoisted => resolveStmts hoisted program
  have lists : Lists whole Block.listed :=
    (lists_declareGlobals globals).thenNone fun _ =>
      lists_blockOf fun hoisted => lists_resolveStmts hoisted program
  obtain ⟨_, count⟩ := lists .start
  refine List.nodup_iff_count_le_one.2 fun s => ?_
  have window := Scopes.window_le_one .start (whole.after .start) s
  have names : (resolve globals program).1.names.map Prod.fst =
      (whole.after .start).globals.map Prod.fst ++ (whole.answer .start).listed := by
    have eq : (resolve globals program).1 =
        ⟨whole.answer .start, (whole.after .start).globals⟩ := rfl
    rw [eq, Script.names, List.map_append, Block.listed]
  have h := count s
  have start : Scopes.start.heldBy Scope.listed = [] := rfl
  have globals : ((whole.after .start).globals.map Prod.fst).count s ≤
      ((whole.after .start).heldBy Scope.listed).count s := by
    rw [Scopes.heldBy, List.count_append]
    exact Nat.le_add_right _ _
  rw [start, List.count_nil] at h
  rw [names, List.count_append]
  omega

end Ember
