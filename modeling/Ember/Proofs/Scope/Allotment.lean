/-
No slot is declared twice in a resolved program.

* `Expr.slots`, `stmtSlots`, `methodSlots`, `innerSlots`: the slots that a part of a
  program declares;
* `ExprScoped.counted`, `BlockScoped.counted`, `ClassScoped.counted`: whatever is
  declared in a program that follows the scoping rules is listed among its names,
  as often as it is declared;
* `resolve_nodup`: a whole program.
-/
import Mathlib
import Ember.Proofs.Scope.Census
import Ember.Proofs.Scope.Scoping

namespace Ember

open Program

/-! ### Slots of a part of a program -/

namespace Program

/-- The slots declared within classes, the slots of the classes themselves aside. -/
def innerSlots (cs : List (Slot × ClassDecl)) : List Slot := (classRoles cs).map Prod.fst

/-- The slots declared by methods and within them. -/
def methodSlots (ms : List Method) : List Slot := (methodRoles ms).map Prod.fst

/-- The slots declared by a statement and within it. -/
def Stmt.slots (s : Stmt) : List Slot := s.roles.map Prod.fst

/-- The slots declared by statements and within them. -/
def stmtSlots (ss : List Stmt) : List Slot := (stmtRoles ss).map Prod.fst

/-- The slots declared within an expression. -/
def Expr.slots (e : Expr) : List Slot := e.roles.map Prod.fst

/-- The slots declared within expressions. -/
def exprSlots (es : List Expr) : List Slot := (exprRoles es).map Prod.fst

/-- The slots of expressions are those of the first one and those of the others. -/
lemma exprSlots_cons (e : Expr) (es : List Expr) : exprSlots (e :: es) = e.slots ++ exprSlots es :=
  List.map_append ..

/-- The slots of expressions are those of both parts of them. -/
lemma exprSlots_append (es fs : List Expr) :
    exprSlots (es ++ fs) = exprSlots es ++ exprSlots fs := by
  induction es with
  | nil => rfl
  | cons e es ih => rw [List.cons_append, exprSlots_cons, exprSlots_cons, ih, List.append_assoc]

/-- A call declares what its receiver and its arguments do. -/
lemma Expr.slots_call (receiver : Expr) (name : String) (arguments : Option (List Expr))
    (line : Line) :
    (Expr.call receiver name arguments line).slots =
      receiver.slots ++ exprSlots (arguments.getD []) := by
  cases arguments <;> simp [Expr.slots, Expr.roles, exprSlots, exprRoles]

/-- The slots of statements are those of the first one and those of the others. -/
lemma stmtSlots_cons (s : Stmt) (ss : List Stmt) : stmtSlots (s :: ss) = s.slots ++ stmtSlots ss :=
  List.map_append ..

/-- The slots of one statement. -/
lemma stmtSlots_singleton (s : Stmt) : stmtSlots [s] = s.slots := by
  rw [stmtSlots_cons]
  exact List.append_nil _

/-- The slots of statements are those of both parts of them. -/
lemma stmtSlots_append (ss ts : List Stmt) :
    stmtSlots (ss ++ ts) = stmtSlots ss ++ stmtSlots ts := by
  induction ss with
  | nil => rfl
  | cons s ss ih => rw [List.cons_append, stmtSlots_cons, stmtSlots_cons, ih, List.append_assoc]

/-- A block declares its classes, what is within them, and what its statements declare. -/
lemma Block.slots_eq (ss : List Stmt) (names : List (Slot × String))
    (cs : List (Slot × ClassDecl)) :
    Block.slots ⟨ss, names, cs⟩ = cs.map Prod.fst ++ (innerSlots cs ++ stmtSlots ss) := by
  simp [Block.slots, Block.roles, innerSlots, stmtSlots, Function.comp_def]

/-- The slots of methods are those of the first one and those of the others. -/
lemma methodSlots_cons (m : Method) (ms : List Method) :
    methodSlots (m :: ms) = m.params.getD [] ++ (m.body.slots ++ methodSlots ms) := by
  obtain ⟨name, params, names, body, line⟩ := m
  simp [methodSlots, methodRoles, Block.slots, Function.comp_def]

/-- The slots of methods are those of each one. -/
lemma methodSlots_eq_flatMap (ms : List Method) :
    methodSlots ms = ms.flatMap fun m => methodSlots [m] := by
  induction ms with
  | nil => rfl
  | cons m ms ih =>
    rw [List.flatMap_cons, ← ih, methodSlots_cons, methodSlots_cons]
    simp [methodSlots, methodRoles]

/-- A class declares its receivers, its fields and what its methods declare. -/
lemma ClassDecl.slots_eq (c : ClassDecl) :
    c.slots = c.receiver :: c.staticReceiver :: (c.staticFields.map Prod.fst ++
      (c.fields.map Prod.fst ++ (methodSlots c.constructors ++
        (methodSlots c.staticMethods ++ methodSlots c.methods)))) := by
  cases c
  simp [ClassDecl.slots, ClassDecl.roles, methodSlots, Function.comp_def]

/-- The slots within classes are those within the first one and those within the others. -/
lemma innerSlots_cons (c : Slot × ClassDecl) (cs : List (Slot × ClassDecl)) :
    innerSlots (c :: cs) = c.2.slots ++ innerSlots cs := by
  simp [innerSlots, classRoles, ClassDecl.slots]

/-- The slots within classes are those of each one. -/
lemma innerSlots_eq_flatMap (cs : List (Slot × ClassDecl)) :
    innerSlots cs = cs.flatMap fun c => c.2.slots := by
  induction cs with
  | nil => rfl
  | cons c cs ih => rw [List.flatMap_cons, ← ih, innerSlots_cons]

end Program

/-! ### What is declared is listed -/

/-- What is counted for each of some things is counted for all of them. -/
lemma count_flatMap_le {α : Type} {f g : α → List Slot} {xs : List α}
    (h : ∀ x ∈ xs, ∀ s, (f x).count s ≤ (g x).count s) (s : Slot) :
    (xs.flatMap f).count s ≤ (xs.flatMap g).count s := by
  induction xs with
  | nil => exact le_refl _
  | cons x xs ih =>
    rw [List.forall_mem_cons] at h
    rw [List.flatMap_cons, List.flatMap_cons, List.count_append, List.count_append]
    exact Nat.add_le_add (h.1 s) (ih h.2)

/-- Slots that come once come no more often than in a list that has them all. -/
lemma count_le_of_nodup {xs ys : List Slot} (hxs : xs.Nodup) (sub : xs ⊆ ys) (s : Slot) :
    xs.count s ≤ ys.count s := by
  by_cases hs : s ∈ xs
  · have := List.nodup_iff_count_le_one.1 hxs s
    have := List.count_pos_iff.2 (sub hs)
    omega
  · rw [List.count_eq_zero_of_not_mem hs]
    exact Nat.zero_le _

/-- Classes that are filed in order have slots of their own. -/
lemma nodup_of_sortedKeys {cs : List (Slot × ClassDecl)} (h : SortedKeys cs) :
    (cs.map Prod.fst).Nodup :=
  List.pairwise_map.2 (h.imp fun hlt e => absurd (congrArg Slot.index e) hlt.ne)

open Resolve

/-- What is counted in two parts is counted in both together. -/
lemma counted_append {xs ys xs' ys' : List Slot} (h : ∀ s, xs.count s ≤ xs'.count s)
    (h' : ∀ s, ys.count s ≤ ys'.count s) (s : Slot) :
    (xs ++ ys).count s ≤ (xs' ++ ys').count s := by
  rw [List.count_append, List.count_append]
  exact Nat.add_le_add (h s) (h' s)

/-- What the statements of a block have declared in it is listed among its names,
and what they have filed is listed within its classes. -/
structure Counted (hoisted : List (Slot × String)) (p : Progress) (ss : List Stmt)
    (p' : Progress) : Prop where
  names : p'.names.map Prod.fst = p.names.map Prod.fst ++ ss.flatMap Stmt.own
  statements : ∀ s, (stmtSlots ss).count s ≤ (ss.flatMap Stmt.own ++ stmtListed ss).count s
  sorted : SortedKeys p.classes → SortedKeys p'.classes
  keys : p'.classes.map Prod.fst ⊆ p.classes.map Prod.fst ++ hoisted.map Prod.fst
  classes : ∀ c ∈ p'.classes, c ∈ p.classes ∨ ∀ s, c.2.slots.count s ≤ c.2.listed.count s

/-- Statements are counted one after the other. -/
lemma Counted.append {hoisted : List (Slot × String)} {p p' p'' : Progress} {ss ss' : List Stmt}
    (h : Counted hoisted p ss p') (h' : Counted hoisted p' ss' p'') :
    Counted hoisted p (ss ++ ss') p'' where
  names := by rw [h'.names, h.names, List.append_assoc, List.flatMap_append]
  statements s := by
    have := h.statements s
    have := h'.statements s
    simp only [stmtSlots_append, stmtListed_append, List.flatMap_append, List.count_append] at *
    omega
  sorted := h'.sorted ∘ h.sorted
  keys := List.Subset.trans h'.keys (List.append_subset.2 ⟨h.keys, List.subset_append_right _ _⟩)
  classes c hc := (h'.classes c hc).elim (h.classes c) .inr

/-- A statement that declares nothing in the scope around it. -/
lemma Counted.other {hoisted : List (Slot × String)} {p : Progress} {s : Stmt}
    (own : s.own = []) (h : ∀ t, s.slots.count t ≤ (s.names.map Prod.fst).count t)
    (g : List (Slot × String)) : Counted hoisted p [s] ⟨p.names, p.classes, g⟩ where
  names := by rw [List.flatMap_singleton, own, List.append_nil]
  statements t := by
    rw [stmtSlots_singleton, stmtListed_singleton, List.flatMap_singleton, own, List.nil_append]
    exact h t
  sorted := id
  keys := List.subset_append_left _ _
  classes _ hc := .inl hc

/-- The slots of a block are listed if those of its parts are. -/
lemma Counted.block {hoisted : List (Slot × String)}
    {g g' names : List (Slot × String)} {classes : List (Slot × ClassDecl)} {ss : List Stmt}
    (h : Counted hoisted ⟨hoisted, [], g⟩ ss ⟨names, classes, g'⟩) (s : Slot) :
    (Block.slots ⟨ss, names, classes⟩).count s ≤ (Block.listed ⟨ss, names, classes⟩).count s := by
  have keys : (classes.map Prod.fst).count s ≤ (hoisted.map Prod.fst).count s :=
    count_le_of_nodup (nodup_of_sortedKeys (h.sorted List.Pairwise.nil)) h.keys s
  have inner : (innerSlots classes).count s ≤
      ((Program.classNames classes).map Prod.fst).count s := by
    rw [innerSlots_eq_flatMap, map_classNames]
    exact count_flatMap_le (fun c hc => (h.classes c hc).resolve_left List.not_mem_nil) s
  have statements := h.statements s
  have own := congrArg (List.count s) h.names
  rw [Block.slots_eq]
  simp only [Block.listed, Block.allNames, stmtListed, List.map_append, List.count_append] at *
  omega

/-- Each method of the tables is listed as often as it declares slots. -/
def Resolve.Members.Counted (m : Members) : Prop :=
  ∀ kind, ∀ x ∈ m.table kind, ∀ s, (methodSlots [x]).count s ≤ x.listed.count s

/-- A method that is added is counted. -/
lemma Resolve.Members.Counted.add {m : Members} (h : m.Counted) (kind : Syntax.MethodKind)
    {x : Method} (hx : ∀ s, (methodSlots [x]).count s ≤ x.listed.count s) :
    (m.add kind x).Counted := by
  intro k y hy
  rcases Members.mem_table_add hy with ⟨_, rfl⟩ | old
  · exact hx
  · exact h k y old

/-- The slots of a class are listed if those of its methods are. -/
lemma Resolve.Members.Counted.cls {constructors staticMethods methods : List Method}
    {side : FieldScope} (h : Members.Counted ⟨constructors, staticMethods, methods, side⟩)
    (name : String) (line : Line) (receiver staticReceiver : Slot)
    (fields staticFields : List (Slot × String)) (s : Slot) :
    (ClassDecl.slots ⟨name, line, receiver, staticReceiver, constructors, staticMethods, methods,
      fields, staticFields⟩).count s ≤ (ClassDecl.listed ⟨name, line, receiver, staticReceiver,
        constructors, staticMethods, methods, fields, staticFields⟩).count s := by
  have hc := count_flatMap_le (h .construct) s
  have hs := count_flatMap_le (h .onClass) s
  have hi := count_flatMap_le (h .onInstance) s
  rw [ClassDecl.slots_eq]
  simp only [ClassDecl.listed, ClassDecl.names, methodSlots_eq_flatMap constructors,
    methodSlots_eq_flatMap staticMethods, methodSlots_eq_flatMap methods, List.map_append,
    map_methodNames, List.map_cons, List.map_nil, List.count_append,
    List.count_cons, List.count_nil, Members.table] at hc hs hi ⊢
  omega

/-- The class of a block of code is listed if its method is. -/
lemma counted_code {arguments : Option (List Expr)} {call : Method} (own ownStatic : Slot)
    (line : Line) (hcall : ∀ s, (methodSlots [call]).count s ≤ call.listed.count s)
    (h : ∀ s, (exprSlots (arguments.getD [])).count s ≤ (exprListed (arguments.getD [])).count s)
    (s : Slot) :
    (exprSlots (arguments.getD [] ++
      [.call (.cls (codeClass own ownStatic call line)) "new" (some []) line])).count s ≤
    (exprListed (arguments.getD [] ++
      [.call (.cls (codeClass own ownStatic call line)) "new" (some []) line])).count s := by
  have slots : exprSlots [.call (.cls (codeClass own ownStatic call line)) "new" (some []) line] =
      own :: ownStatic :: methodSlots [call] := by
    simp [exprSlots, exprRoles, Expr.roles, codeClass, ClassDecl.roles, methodRoles, methodSlots,
      Block.empty, Block.roles, classRoles, stmtRoles]
  have hc := hcall s
  have ha := h s
  simp only [exprSlots_append, exprListed_append, slots, listed_code, List.count_append,
    List.count_cons] at ha hc ⊢
  omega

/-- A variable is listed among the names of its block, and what its initializer
declares within the block. -/
lemma Counted.var {hoisted : List (Slot × String)} {p : Progress} {s : Slot} {text : String}
    {init : Option Expr} {line : Line} {g : List (Slot × String)}
    (h : ∀ t, (exprSlots init.toList).count t ≤ (exprListed init.toList).count t) :
    Counted hoisted p [.var s init line] ⟨p.names ++ [(s, text)], p.classes, g⟩ where
  names := List.map_append ..
  statements t := by
    have slots : (Stmt.var s init line).slots = [s] ++ exprSlots init.toList := by
      cases init <;> simp [Stmt.slots, Stmt.roles, exprSlots, exprRoles]
    have listed : (Stmt.var s init line).names.map Prod.fst = exprListed init.toList := by
      cases init <;> simp [Stmt.names, exprListed, exprNames]
    rw [stmtSlots_singleton, stmtListed_singleton, slots, listed]
    exact counted_append (fun _ => le_refl _) h t
  sorted := id
  keys := List.subset_append_left _ _
  classes _ hc := .inl hc

/-- A class is filed under one of the slots that classes are hoisted with. -/
lemma Counted.cls {hoisted : List (Slot × String)} {p : Progress} {name : String} {s : Slot}
    {c : ClassDecl} {g : List (Slot × String)} (hs : latest? name hoisted = some s)
    (h : ∀ t, c.slots.count t ≤ c.listed.count t) :
    Counted hoisted p [] ⟨p.names, insertByKey Prod.fst (s, c) p.classes, g⟩ where
  names := (List.append_nil _).symm
  statements _ := le_refl _
  sorted := sortedKeys_insertByKey
  keys k hk := by
    obtain ⟨d, hd, rfl⟩ := List.mem_map.1 hk
    rcases mem_insertByKey hd with rfl | hd
    · exact List.mem_append_right _ (List.mem_map_of_mem (mem_of_latest? hs))
    · exact List.mem_append_left _ (List.mem_map_of_mem hd)
  classes d hd := by
    rcases mem_insertByKey hd with rfl | hd
    · exact .inr h
    · exact .inl hd

/-- No statements declare nothing. -/
lemma Counted.nil (hoisted : List (Slot × String)) (p : Progress) : Counted hoisted p [] p where
  names := (List.append_nil _).symm
  statements _ := le_refl _
  sorted := id
  keys := List.subset_append_left _ _
  classes _ hc := .inl hc

/-- No members declare nothing. -/
lemma Resolve.Members.counted_nil (side : FieldScope) : Members.Counted ⟨[], [], [], side⟩ :=
  fun kind x hx => by cases kind <;> cases hx

/-- A call is counted if its receiver and its arguments are. -/
lemma counted_call {receiver : Expr} {name : String} {arguments : Option (List Expr)} {line : Line}
    (hr : ∀ s, receiver.slots.count s ≤ receiver.listed.count s)
    (ha : ∀ s, (exprSlots (arguments.getD [])).count s ≤ (exprListed (arguments.getD [])).count s)
    (s : Slot) : (Expr.call receiver name arguments line).slots.count s ≤
      (Expr.call receiver name arguments line).listed.count s := by
  have listed : (Expr.call receiver name arguments line).listed =
      receiver.listed ++ exprListed (arguments.getD []) := by
    cases arguments <;> simp [Expr.listed, Expr.names, exprListed, exprNames]
  rw [Expr.slots_call, listed]
  exact counted_append hr ha s

/-- A connective is counted if its operands are. -/
lemma counted_logical {left right : Expr} {op : Connective} {line : Line}
    (hl : ∀ s, left.slots.count s ≤ left.listed.count s)
    (hr : ∀ s, right.slots.count s ≤ right.listed.count s) (s : Slot) :
    (Expr.logical op left right line).slots.count s ≤
      (Expr.logical op left right line).listed.count s := by
  have h := counted_append hl hr s
  simpa only [Expr.slots, Expr.roles, Expr.listed, Expr.names, List.map_append] using h

/-- A method is counted if its body is, next to its parameters. -/
lemma counted_method {name : String} {params : Option (List Name)} {names : List (Slot × String)}
    {body : Block} {line : Line} (h : ∀ s, body.slots.count s ≤ body.listed.count s) (s : Slot) :
    (methodSlots [⟨name, params.map fun _ => names.map Prod.fst, names, body, line⟩]).count s ≤
      (Method.listed ⟨name, params.map fun _ => names.map Prod.fst, names,
        body, line⟩).count s := by
  have hb := h s
  rw [methodSlots_cons, Method.listed_eq]
  cases params <;> simp [methodSlots, methodRoles] <;> omega

/-- A loop is counted if its parts are. -/
lemma counted_loop {condition : Expr} {body : Stmt} {line : Line}
    (hc : ∀ s, condition.slots.count s ≤ condition.listed.count s)
    (hb : ∀ s, body.slots.count s ≤ (body.names.map Prod.fst).count s) (s : Slot) :
    (Stmt.loop condition body line).slots.count s ≤
      ((Stmt.loop condition body line).names.map Prod.fst).count s := by
  have h := counted_append hc hb s
  simpa only [Stmt.slots, Stmt.roles, Expr.listed, Expr.slots, Stmt.names, List.map_append] using h

/-- A conditional is counted if its parts are. -/
lemma counted_branch {condition : Expr} {yes : Stmt} {no : Option Stmt} {line : Line}
    (hc : ∀ s, condition.slots.count s ≤ condition.listed.count s)
    (hy : ∀ s, yes.slots.count s ≤ (yes.names.map Prod.fst).count s)
    (hn : ∀ s, (stmtSlots no.toList).count s ≤ (stmtListed no.toList).count s) (s : Slot) :
    (Stmt.branch condition yes no line).slots.count s ≤
      ((Stmt.branch condition yes no line).names.map Prod.fst).count s := by
  have h := counted_append (counted_append hc hy) hn s
  cases no <;>
    simpa [Stmt.slots, Stmt.roles, Expr.listed, Expr.slots, Stmt.names, stmtSlots, stmtRoles,
      stmtListed, stmtNames] using h

/-- What is returned is counted if it is there. -/
lemma counted_ret {value : Option Expr} {line : Line}
    (h : ∀ s, (exprSlots value.toList).count s ≤ (exprListed value.toList).count s) (s : Slot) :
    (Stmt.ret value line).slots.count s ≤ ((Stmt.ret value line).names.map Prod.fst).count s := by
  have hv := h s
  cases value with
  | none => exact hv
  | some e =>
    simpa [Stmt.slots, Stmt.roles, Stmt.names, exprSlots, exprRoles, exprListed, exprNames] using hv

mutual

/-- What is declared within an expression is listed there. -/
theorem ExprScoped.counted {Γ : Surroundings} {g g' : List (Slot × String)} {e : Syntax.Expr}
    {e' : Expr} : ExprScoped Γ g e e' g' → ∀ s, e'.slots.count s ≤ e'.listed.count s
  | .assign _ hv => hv.counted
  | .call hr ha hc => counted_call hr.counted (hc.counted ha.counted)
  | .literal | .variable _ | .field _ | .staticField _ | .this _ => fun _ => le_refl _
  | .logical hl hr => counted_logical hl.counted hr.counted

/-- Expressions that follow the rules are counted. -/
lemma ExprsScoped.counted {Γ : Surroundings} {g g' : List (Slot × String)} {es : List Syntax.Expr}
    {es' : List Expr} : ExprsScoped Γ g es es' g' →
      ∀ s, (exprSlots es').count s ≤ (exprListed es').count s
  | .nil => fun _ => le_refl _
  | .cons h h' => exprSlots_cons _ _ ▸ exprListed_cons _ _ ▸ counted_append h.counted h'.counted

/-- An expression that may be missing is counted. -/
lemma MaybeScoped.counted {Γ : Surroundings} {g g' : List (Slot × String)} {e : Option Syntax.Expr}
    {e' : Option Expr} : MaybeScoped Γ g e e' g' →
      ∀ s, (exprSlots e'.toList).count s ≤ (exprListed e'.toList).count s
  | .none => fun _ => le_refl _
  | .some h => exprSlots_cons _ _ ▸ exprListed_cons _ _ ▸ counted_append h.counted
    fun _ => le_refl _

/-- Arguments in parentheses are counted. -/
lemma ArgumentsScoped.counted {Γ : Surroundings} {g g' : List (Slot × String)}
    {es : Option (List Syntax.Expr)} {es' : Option (List Expr)} :
    ArgumentsScoped Γ g es es' g' →
      ∀ s, (exprSlots (es'.getD [])).count s ≤ (exprListed (es'.getD [])).count s
  | .none => fun _ => le_refl _
  | .some h => h.counted

/-- A block of code is counted as the last argument. -/
lemma CodeScoped.counted {Γ : Surroundings} {g g' : List (Slot × String)}
    {code : Option Syntax.Code} {es es' : Option (List Expr)} : CodeScoped Γ g es code es' g' →
      (∀ s, (exprSlots (es.getD [])).count s ≤ (exprListed (es.getD [])).count s) →
      ∀ s, (exprSlots (es'.getD [])).count s ≤ (exprListed (es'.getD [])).count s
  | .none, h => h
  | .some hm, h => counted_code _ _ _ hm.counted h

/-- A method that follows the rules is counted. -/
lemma MethodScoped.counted {Γ : Surroundings} {g g' : List (Slot × String)} {name : String}
    {params : Option (List Name)} {line : Line} {body : List Syntax.Stmt} {m : Method} :
    MethodScoped Γ g name params line body m g' →
      ∀ s, (methodSlots [m]).count s ≤ m.listed.count s
  | .intro _ h => counted_method h.counted

/-- What is declared in a block is listed there. -/
theorem BlockScoped.counted {Γ : Surroundings} {g g' : List (Slot × String)}
    {body : List Syntax.Stmt} {b : Block} : BlockScoped Γ g body b g' →
      ∀ s, b.slots.count s ≤ b.listed.count s
  | .intro _ h => h.counted.block

/-- The statements of a block are counted. -/
lemma StmtsScoped.counted {Γ : Surroundings} {hoisted : List (Slot × String)} {p p' : Progress}
    {ss : List Syntax.Stmt} {ss' : List Stmt} : StmtsScoped Γ hoisted p ss ss' p' →
      Counted hoisted p ss' p'
  | .nil => .nil hoisted p
  | .cons h h' => h.counted.append h'.counted

/-- A step through a block is counted. -/
lemma StepScoped.counted {Γ : Surroundings} {hoisted : List (Slot × String)} {p p' : Progress}
    {s : Syntax.Stmt} {o : Option Stmt} : StepScoped Γ hoisted p s o p' →
      Counted hoisted p o.toList p'
  | .var h => .var h.counted
  | .cls hs h => .cls hs h.counted
  | .other h => .other h.counted.1 h.counted.2 _

/-- A statement that is no declaration is counted. -/
lemma StmtScoped.counted {Γ : Surroundings} {g g' : List (Slot × String)} {s : Syntax.Stmt}
    {s' : Stmt} : StmtScoped Γ g s s' g' →
      s'.own = [] ∧ ∀ t, s'.slots.count t ≤ (s'.names.map Prod.fst).count t
  | .block h => ⟨rfl, h.counted⟩
  | .branch hc hy hn => ⟨rfl, counted_branch hc.counted hy.counted.2 hn.counted⟩
  | .loop hc hb => ⟨rfl, counted_loop hc.counted hb.counted.2⟩
  | .ret h => ⟨rfl, counted_ret h.counted⟩
  | .eval h => ⟨rfl, h.counted⟩

/-- A branch declares nothing around it, and is counted. -/
lemma BranchScoped.counted {Γ : Surroundings} {g g' : List (Slot × String)} {s : Syntax.Stmt}
    {s' : Stmt} : BranchScoped Γ g s s' g' →
      s'.own = [] ∧ ∀ t, s'.slots.count t ≤ (s'.names.map Prod.fst).count t
  | .block _ h => ⟨rfl, h.counted⟩
  | .quiet _ h => h.counted

/-- A branch that may be missing is counted. -/
lemma ElseScoped.counted {Γ : Surroundings} {g g' : List (Slot × String)} {s : Option Syntax.Stmt}
    {s' : Option Stmt} : ElseScoped Γ g s s' g' →
      ∀ t, (stmtSlots s'.toList).count t ≤ (stmtListed s'.toList).count t
  | .none => fun _ => le_refl _
  | .some h => stmtSlots_singleton _ ▸ stmtListed_singleton _ ▸ h.counted.2

/-- What is declared in a class is listed there. -/
theorem ClassScoped.counted {Γ : Surroundings} {g g' : List (Slot × String)} {name : Name}
    {methods : List Syntax.Method} {c : ClassDecl} : ClassScoped Γ g name methods c g' →
      ∀ s, c.slots.count s ≤ c.listed.count s
  | .intro h => (h.counted (Members.counted_nil _)).cls _ _ _ _ _ _

/-- The members of a class are counted. -/
lemma MethodsScoped.counted {Γ : Surroundings} {g g' : List (Slot × String)} {m m' : Members}
    {methods : List Syntax.Method} : MethodsScoped Γ m g methods m' g' → m.Counted → m'.Counted
  | .nil, hm => hm
  | .cons h h', hm => h'.counted (hm.add _ h.counted)

end

/-- No slot is declared twice in a program, whatever mistakes it has. -/
theorem resolve_nodup (globals : List String) (program : List Syntax.Stmt) :
    (resolve globals program).1.slots.Nodup := by
  obtain ⟨g, _, rules⟩ := resolve_scoped globals program
  have listed := List.nodup_iff_count_le_one.1 (names_nodup globals program)
  refine List.nodup_iff_count_le_one.2 fun s => (?_ : _ ≤ _).trans (listed s)
  have root := rules.counted s
  simp only [Script.slots, Script.roles, Script.names, Block.slots, Block.listed, List.map_append,
    List.map_map, List.count_append] at root ⊢
  exact Nat.add_le_add_left root _

end Ember
