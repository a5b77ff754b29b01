/-
What a resolved program consists of is what its history tells of.

* `Program.Block.contents`: the slots that resolved code reads or assigns to and the
  classes that are filed in its scopes; `History.contents`: those that a history tells of;
* `ScopeProblem.Drops`: the mistakes for which a part of a program may be left out;
* `Tells`: between two states nothing is made of which the history does not tell, and
  nothing that it tells of is left out without a mistake; `Retold`: a step of resolution
  keeps to this wherever it starts;
* `Files`: the same within a scope, in which classes are filed as well;
* `tells_expr`, `recounts_stmt`, `files_stmts`, `tells_methods`: the walk over the program;
* `resolve_recounted`: a whole program.
-/
import Mathlib
import Ember.Proofs.Scope.Chronicle

namespace Ember

open Resolve
open scoped List

/-! ### Contents -/

/-- What can be found in a resolved program. -/
inductive Content where
  /-- A slot that is read or assigned to. -/
  | use (s : Slot)
  /-- A class that is filed in a scope. -/
  | cls (c : Program.ClassDecl)

namespace Content

/-- The slot that is read or assigned to. -/
def slot? : Content → Option Slot
  | use s => some s
  | cls _ => none

/-- The class that is filed. -/
def class? : Content → Option Program.ClassDecl
  | use _ => none
  | cls c => some c

end Content

namespace Program

mutual

/-- What is read, assigned to and filed in an expression. -/
def Expr.contents : Expr → List Content
  | .assign target value _ => .use target :: value.contents
  | .call receiver _ arguments _ =>
    receiver.contents ++ (match arguments with | none => [] | some es => exprContents es)
  | .literal _ _ => []
  | .read slot _ => [.use slot]
  | .logical _ left right _ => left.contents ++ right.contents
  | .cls decl => decl.contents

/-- What is read, assigned to and filed in expressions. -/
def exprContents : List Expr → List Content
  | [] => []
  | e :: es => e.contents ++ exprContents es

/-- What is read, assigned to and filed in a statement. -/
def Stmt.contents : Stmt → List Content
  | .block body => body.contents
  | .branch condition yes no _ =>
    condition.contents ++ (yes.contents ++ (match no with | none => [] | some s => s.contents))
  | .loop condition body _ => condition.contents ++ body.contents
  | .var _ init _ => match init with | none => [] | some e => e.contents
  | .ret value _ => match value with | none => [] | some e => e.contents
  | .eval e => e.contents

/-- What is read, assigned to and filed in statements. -/
def stmtContents : List Stmt → List Content
  | [] => []
  | s :: ss => s.contents ++ stmtContents ss

/-- The classes that are filed in a block, and what is in them and in its statements. -/
def Block.contents : Block → List Content
  | ⟨statements, _, classes⟩ => classContents classes ++ stmtContents statements

/-- Classes together with what is in them. -/
def classContents : List (Slot × ClassDecl) → List Content
  | [] => []
  | (_, c) :: cs => .cls c :: (c.contents ++ classContents cs)

/-- What is read, assigned to and filed in the methods of a class. -/
def ClassDecl.contents : ClassDecl → List Content
  | ⟨_, _, _, _, constructors, staticMethods, methods, _, _⟩ =>
    methodContents constructors ++ (methodContents staticMethods ++ methodContents methods)

/-- What is read, assigned to and filed in methods. -/
def methodContents : List Method → List Content
  | [] => []
  | ⟨_, _, _, body, _⟩ :: ms => body.contents ++ methodContents ms

end

/-- The slots that a block reads or assigns to, each as often as it does so. -/
def Block.uses (b : Block) : List Slot := b.contents.filterMap Content.slot?

/-- The classes that are filed in a block and within it. -/
def Block.filed (b : Block) : List ClassDecl := b.contents.filterMap Content.class?

/-- A call has the contents of its receiver and of its arguments. -/
lemma Expr.contents_call (receiver : Expr) (name : String) (arguments : Option (List Expr))
    (line : Line) : (Expr.call receiver name arguments line).contents =
      receiver.contents ++ exprContents (arguments.getD []) := by
  cases arguments <;> rfl

/-- Expressions have the contents of both parts of them. -/
lemma exprContents_append (es fs : List Expr) :
    exprContents (es ++ fs) = exprContents es ++ exprContents fs := by
  induction es with
  | nil => rfl
  | cons e es ih => rw [List.cons_append, exprContents, exprContents, ih, List.append_assoc]

/-- Statements have the contents of both parts of them. -/
lemma stmtContents_append (ss ts : List Stmt) :
    stmtContents (ss ++ ts) = stmtContents ss ++ stmtContents ts := by
  induction ss with
  | nil => rfl
  | cons s ss ih => rw [List.cons_append, stmtContents, stmtContents, ih, List.append_assoc]

/-- One statement has its own contents. -/
lemma stmtContents_singleton (s : Stmt) : stmtContents [s] = s.contents := by
  rw [stmtContents, stmtContents, List.append_nil]

/-- A list of classes has the contents of its classes, one after the other. -/
lemma classContents_eq (cs : List (Slot × ClassDecl)) :
    classContents cs = cs.flatMap fun c => .cls c.2 :: c.2.contents := by
  induction cs with
  | nil => rfl
  | cons c cs ih => rw [classContents, ih, List.flatMap_cons, List.cons_append]

/-- A table of methods has the contents of their bodies, one after the other. -/
lemma methodContents_eq (ms : List Method) :
    methodContents ms = ms.flatMap fun m => m.body.contents := by
  induction ms with
  | nil => rfl
  | cons m ms ih =>
    obtain ⟨_, _, _, body, _⟩ := m
    rw [methodContents, ih, List.flatMap_cons]

end Program

/-- What an event tells of. -/
def ScopeEvent.content? : ScopeEvent → Option Content
  | occurs o => some (.use o.slot)
  | declares _ => none
  | makes c => some (.cls c.decl)

namespace History

/-- What a history tells of. -/
def contents (h : History) : List Content := h.filterMap ScopeEvent.content?

@[simp] lemma contents_nil : contents [] = [] := rfl

@[simp] lemma contents_append (h h' : History) : contents (h ++ h') = contents h ++ contents h' :=
  List.filterMap_append

@[simp] lemma contents_occurs (o : Occurrence) (h : History) :
    contents (.occurs o :: h) = .use o.slot :: contents h := rfl

@[simp] lemma contents_declares (d : Declaration) (h : History) :
    contents (.declares d :: h) = contents h := rfl

@[simp] lemma contents_makes (c : ClassRecord) (h : History) :
    contents (.makes c :: h) = .cls c.decl :: contents h := rfl

/-- The slots that a history tells of are those of its occurrences. -/
lemma filterMap_slot? (h : History) :
    h.contents.filterMap Content.slot? = h.occurrences.map Occurrence.slot := by
  induction h with
  | nil => rfl
  | cons event h ih =>
    cases event with
    | occurs o => exact congrArg (o.slot :: ·) ih
    | declares _ | makes _ => exact ih

/-- The classes that a history tells of are those that are made in it. -/
lemma filterMap_class? (h : History) :
    h.contents.filterMap Content.class? = h.classes.map ClassRecord.decl := by
  induction h with
  | nil => rfl
  | cons event h ih =>
    cases event with
    | makes c => exact congrArg (c.decl :: ·) ih
    | occurs _ | declares _ => exact ih

end History

/-! ### Telling and making -/

/-- The mistakes for which a part of a program may be left out: what is in an invalid
target is resolved and forgotten, and of two members in one place, or two classes with
one name, the later one takes the place of the other. -/
def ScopeProblem.Drops : ScopeProblem → Prop
  | alreadyDeclared _ | invalidTarget _ | methodAlreadyDeclared _ _ _ => True
  | unusedVariable _ | unusedClass _ | undeclared _ | usedInOwnInitializer _ | assignedClass _
  | fieldOutsideClass _ | instanceFieldInStaticMethod _ | thisOutsideClass _ => False

/-- No mistake so far has left a part of the program out. -/
def Scopes.Whole (st : Scopes) : Prop := ∀ p ∈ st.problems, ¬p.Drops

/-- A later state has all the mistakes of an earlier one. -/
lemma Scopes.Whole.of_prefix {st st' : Scopes} (h : st'.Whole)
    (problems : st.problems <+: st'.problems) : st.Whole :=
  fun p hp => h p (problems.subset hp)

/-- From one state to another nothing is made but what is told of, and as much of it if
nothing has been left out for a mistake. -/
structure Tells (st : Scopes) (told : List Content) (st' : Scopes) (made : List Content) :
    Prop where
  problems : st.problems <+: st'.problems
  sub : made <+~ told
  all : st'.Whole → told.length ≤ made.length

namespace Tells

variable {st st' st'' : Scopes} {told told' made made' : List Content}

/-- What is made as it is told. -/
lemma same (problems : st.problems <+: st'.problems) (told : List Content) :
    Tells st told st' told :=
  ⟨problems, .refl told, fun _ => le_refl _⟩

/-- One step after another. -/
lemma seq (h : Tells st told st' made) (h' : Tells st' told' st'' made') :
    Tells st (told ++ told') st'' (made ++ made') where
  problems := h.problems.trans h'.problems
  sub := h.sub.append h'.sub
  all whole := by
    have first := h.all (whole.of_prefix h'.problems)
    have second := h'.all whole
    simp only [List.length_append]
    omega

/-- One step after another that puts in order what the first one has made. -/
lemma thenAll (h : Tells st told st' made) (h' : Tells st' (made ++ told') st'' made') :
    Tells st (told ++ told') st'' made' where
  problems := h.problems.trans h'.problems
  sub := h'.sub.trans ((List.subperm_append_right _).2 h.sub)
  all whole := by
    have first := h.all (whole.of_prefix h'.problems)
    have second := h'.all whole
    simp only [List.length_append] at second ⊢
    omega

/-- Nothing is told of in between, and nothing made. -/
lemma later (h : Tells st told st' made) (problems : st'.problems <+: st''.problems) :
    Tells st told st'' made :=
  ⟨h.problems.trans problems, h.sub, fun whole => h.all (whole.of_prefix problems)⟩

/-- Nothing is told of before, and nothing made. -/
lemma earlier (problems : st.problems <+: st'.problems) (h : Tells st' told st'' made) :
    Tells st told st'' made :=
  ⟨problems.trans h.problems, h.sub, h.all⟩

/-- What is made may be ordered in another way. -/
lemma perm (h : Tells st told st' made) (order : made ~ made') : Tells st told st' made' :=
  ⟨h.problems, order.symm.subperm.trans h.sub, fun whole => order.length_eq ▸ h.all whole⟩

end Tells

/-- What a step of resolution makes, with the given contents, is what is told of it,
wherever it starts. -/
def Retold {α : Type} (told : Scopes → History) (x : Resolve α) (contents : α → List Content) :
    Prop :=
  ∀ st, Tells st (told st).contents (x.after st) (contents (x.answer st))

/-! ### Tables sorted by keys -/

section insert

variable {α κ β : Type} [Ord κ] {key : α → κ}

/-- An insertion brings in no more than the new element has. -/
lemma flatMap_insertByKey (f : α → List β) (x : α) (xs : List α) :
    (insertByKey key x xs).flatMap f <+~ f x ++ xs.flatMap f := by
  induction xs with
  | nil => exact .refl _
  | cons y ys ih =>
    rw [insertByKey]
    split
    · exact .refl _
    · exact (List.Sublist.append_left (List.sublist_append_right _ _) _).subperm
    · rw [List.flatMap_cons, List.flatMap_cons]
      exact ((List.subperm_append_left _).2 ih).trans (List.perm_append_comm_assoc ..).subperm

/-- An insertion of a new key replaces nothing. -/
lemma length_flatMap_insertByKey [Std.LawfulEqOrd κ] (f : α → List β) {x : α} {xs : List α}
    (fresh : key x ∉ xs.map key) :
    ((insertByKey key x xs).flatMap f).length = (f x ++ xs.flatMap f).length := by
  induction xs with
  | nil => rfl
  | cons y ys ih =>
    rw [insertByKey]
    split
    · rfl
    · rename_i h
      have same : key x = key y := Std.LawfulEqOrd.compare_eq_iff_eq.1 h
      exact absurd (List.mem_map.2 ⟨y, List.mem_cons_self .., same.symm⟩) fresh
    · have rest := ih fun h => fresh (List.mem_cons_of_mem _ h)
      simp only [List.flatMap_cons, List.length_append] at rest ⊢
      omega

end insert

/-! ### Scopes -/

/-- The slots under which the classes called `names` are filed. -/
def filedUnder (hoisted : List (String × Slot)) (names : List String) : List Slot :=
  names.filterMap fun t => hoisted.lookup t

/-- Names that come once are filed under the slots that they are listed with. -/
lemma filedUnder_keys {hoisted : List (String × Slot)} (once : (hoisted.map Prod.fst).Nodup) :
    filedUnder hoisted (hoisted.map Prod.fst) = hoisted.map Prod.snd := by
  induction hoisted with
  | nil => rfl
  | cons x hoisted ih =>
    obtain ⟨name, slot⟩ := x
    obtain ⟨fresh, once⟩ := List.nodup_cons.1 once
    have rest : ∀ t ∈ hoisted.map Prod.fst,
        ((name, slot) :: hoisted).lookup t = hoisted.lookup t := by
      intro t ht
      have apart : t ≠ name := fun same => fresh (same ▸ ht)
      rw [List.lookup_cons, beq_false_of_ne apart]
    rw [filedUnder, List.map_cons, List.filterMap_cons, List.lookup_cons_self,
      List.filterMap_congr rest, List.map_cons]
    exact congrArg (slot :: ·) (ih once)

/-- Classes of two parts are filed under the slots of both. -/
lemma filedUnder_append (hoisted : List (String × Slot)) (names names' : List String) :
    filedUnder hoisted (names ++ names') = filedUnder hoisted names ++ filedUnder hoisted names' :=
  List.filterMap_append

/-- What happens within a scope: the classes that are filed are among those called
`names`, each under the slot it is declared with. Those that replace one another are
left out. -/
structure Files (hoisted : List (String × Slot)) (names : List String) (st : Scopes) (s : Scope)
    (told : List Content) (st' : Scopes) (s' : Scope) (made : List Content) : Prop
    extends Inside st s st' s' where
  keys : s'.classes.map Prod.fst <+~ s.classes.map Prod.fst ++ filedUnder hoisted names
  sub : Program.classContents s'.classes ++ made <+~ Program.classContents s.classes ++ told
  all : st'.Whole → (s.classes.map Prod.fst ++ filedUnder hoisted names).Nodup →
    (Program.classContents s.classes ++ told).length ≤
      (Program.classContents s'.classes ++ made).length

section Files

variable {hoisted : List (String × Slot)} {names names' : List String} {st st' st'' : Scopes}
  {s s' s'' : Scope} {told told' made made' : List Content}

/-- One statement after another. -/
lemma Files.trans (h : Files hoisted names st s told st' s' made)
    (h' : Files hoisted names' st' s' told' st'' s'' made') :
    Files hoisted (names ++ names') st s (told ++ told') st'' s'' (made ++ made') where
  toInside := h.toInside.trans h'.toInside
  keys := by
    rw [filedUnder_append, ← List.append_assoc]
    exact h'.keys.trans ((List.subperm_append_right _).2 h.keys)
  sub := by
    -- what the first statement makes waits until the second one has used the scope
    have second : made ++ (Program.classContents s''.classes ++ made') <+~
        made ++ (Program.classContents s'.classes ++ told') :=
      (List.subperm_append_left _).2 h'.sub
    have first : (Program.classContents s'.classes ++ made) ++ told' <+~
        (Program.classContents s.classes ++ told) ++ told' :=
      (List.subperm_append_right _).2 h.sub
    rw [List.append_assoc, List.append_assoc] at first
    exact (List.perm_append_comm_assoc ..).subperm.trans
      (second.trans ((List.perm_append_comm_assoc ..).subperm.trans first))
  all whole once := by
    rw [filedUnder_append, ← List.append_assoc] at once
    have once' : (s'.classes.map Prod.fst ++ filedUnder hoisted names').Nodup := by
      obtain ⟨l, order, sub⟩ := (List.subperm_append_right (filedUnder hoisted names')).2 h.keys
      exact order.nodup_iff.1 (sub.nodup once)
    have first := h.all (whole.of_prefix h'.problems) (List.nodup_append.1 once).1
    have second := h'.all whole once'
    simp only [List.length_append] at first second ⊢
    omega

/-- A step that leaves the classes of a scope as they are files nothing. -/
lemma Tells.filesIn (h : Tells st told st' made) (inside : Inside st s st' s')
    (same : s'.classes = s.classes) : Files hoisted [] st s told st' s' made := by
  refine ⟨inside, ?_, ?_, fun whole _ => ?_⟩
  · rw [same, filedUnder, List.filterMap_nil, List.append_nil]
  · rw [same]
    exact (List.subperm_append_left _).2 h.sub
  · have := h.all whole
    rw [same]
    simp only [List.length_append]
    omega

/-- A step that leaves the scopes the same files nothing. -/
lemma Tells.files (h : Tells st told st' made) (evolves : st.Evolves st') {rest : List Scope}
    (e : st.scopes = s :: rest) : ∃ s', Files hoisted [] st s told st' s' made := by
  obtain ⟨s', inside, same⟩ := evolves.inside e
  exact ⟨s', h.filesIn inside same.classes⟩

/-- Nothing is filed where nothing happens. -/
lemma Files.nothing {rest : List Scope} (e : st.scopes = s :: rest) :
    ∃ s', Files hoisted [] st s [] st s' [] :=
  (Tells.same List.prefix_rfl []).files (.refl st) e

end Files

namespace Resolve

variable {p : Place} {st : Scopes}

/-! ### Words -/

/-- Of a target that cannot be assigned to only a slot is left, but that is a mistake. -/
lemma tells_target (target : Syntax.Expr) :
    ∃ es : History, (∀ (value : Syntax.Expr) line,
        Syntax.Expr.history p st (.assign target value line) =
          es ++ value.history p ((resolveTarget target).after st)) ∧
      Tells st es.contents ((resolveTarget target).after st)
        [.use ((resolveTarget target).answer st)] := by
  have problems := (Sees.evolves (sees_resolveTarget (sees_resolveExpr target)) st).problems
  have noted : .invalidTarget target.line ∈
      ((resolveExpr target).after ((report (.invalidTarget target.line)).after st)).problems :=
    (Sees.evolves (sees_resolveExpr target) _).problems.subset
      (List.mem_append_right _ (List.mem_singleton_self _))
  match target, problems, noted with
  | .variable name, problems, _ | .field name, problems, _ | .staticField name, problems, _ =>
    exact ⟨_, fun _ _ => rfl, .same problems _⟩
  | .assign _ _ _, problems, noted | .call _ _ _ _, problems, noted | .literal _ _, problems, noted
  | .this _, problems, noted | .logical _ _ _ _, problems, noted =>
    refine ⟨_, fun _ _ => rfl, problems, ?_, fun whole => ?_⟩
    · rw [History.contents_append]
      exact (List.sublist_append_right _ _).subperm
    · exact (whole (.invalidTarget _) noted trivial).elim

/-! ### Declarations and scopes -/

/-- The declaration of classes tells of nothing. -/
lemma contents_hoistHistory (body : List Syntax.Stmt) (st : Scopes) :
    History.contents (hoistHistory body st) = [] := by
  induction body generalizing st with
  | nil => rfl
  | cons x body ih =>
    cases x with
    | cls name methods => exact ih _
    | block _ | branch _ _ _ _ | loop _ _ _ | var _ _ | ret _ _ | eval _ => exact ih _

/-- The declaration of parameters tells of nothing. -/
lemma contents_paramHistory (names : List Name) (st : Scopes) :
    History.contents (paramHistory names st) = [] := by
  induction names generalizing st with
  | nil => rfl
  | cons name names ih => exact ih _

/-- The classes of a scope are declared under slots of their own. -/
lemma hoist_slots (body : List Syntax.Stmt) {st : Scopes} {s : Scope} {rest : List Scope}
    (e : st.scopes = s :: rest) :
    ((hoist body).answer st).map Prod.fst = (classNames body).reverse ∧
      (((hoist body).answer st).map Prod.snd).Nodup ∧
      ∀ slot ∈ ((hoist body).answer st).map Prod.snd, st.nextSlot.index ≤ slot.index := by
  induction body generalizing st s with
  | nil => exact ⟨rfl, List.nodup_nil, fun _ h => absurd h List.not_mem_nil⟩
  | cons x body ih =>
    cases x with
    | cls name methods =>
      have first := after_declare_eq name .cls true e
      obtain ⟨names, once, above⟩ := ih (congrArg Scopes.scopes first)
      have next : ((declare name .cls true).after st).nextSlot.index = st.nextSlot.index + 1 :=
        congrArg (fun st => st.nextSlot.index) first
      simp only [hoist, answer_bind, answer_pure, answer_declare, List.map_append,
        List.map_cons, List.map_nil, classNames, List.reverse_cons, names]
      refine ⟨trivial, List.nodup_append.2 ⟨once, List.nodup_singleton _, ?_⟩, ?_⟩
      · rintro slot hslot _ own rfl
        have := above slot hslot
        rw [List.mem_singleton.1 own] at this
        omega
      · intro slot hslot
        rcases List.mem_append.1 hslot with hslot | own
        · have := above slot hslot
          omega
        · rw [List.mem_singleton.1 own]
    | block _ | branch _ _ _ _ | loop _ _ _ | var _ _ | ret _ _ | eval _ => exact ih e

/-- Unless one is declared twice the classes of a scope have names of their own. -/
lemma names_of_hoist {body : List Syntax.Stmt} {st : Scopes} {s : Scope} {rest : List Scope}
    (e : st.scopes = s :: rest) (whole : ((hoist body).after st).Whole) :
    (classNames body).Nodup ∧ ∀ t ∈ classNames body, s.find? t = none := by
  induction body generalizing st s with
  | nil => exact ⟨List.nodup_nil, fun _ h => absurd h List.not_mem_nil⟩
  | cons x body ih =>
    cases x with
    | cls name methods =>
      have first := after_declare_eq name .cls true e
      have e₁ : ((declare name .cls true).after st).scopes = _ := congrArg Scopes.scopes first
      obtain ⟨s', later⟩ := hoists body e₁
      obtain ⟨once, fresh⟩ := ih e₁ whole
      -- a name that is bound already would be among the mistakes
      have new : s.find? name.text = none := by
        by_contra found
        have noted : .alreadyDeclared name ∈ ((declare name .cls true).after st).problems := by
          rw [first, redeclared, if_pos (Option.isSome_iff_ne_none.2 found)]
          exact List.mem_append_right _ (List.mem_singleton_self _)
        exact whole _ (later.problems.subset noted) trivial
      have apart {t : String} (ht : t ∈ classNames body) : name.text ≠ t := by
        rintro rfl
        have unbound := fresh _ ht
        rw [show name.text = Binding.text ⟨name, st.nextSlot, .cls, true, false⟩ from rfl,
          Scope.find?_declared_self] at unbound
        cases unbound
      refine ⟨List.nodup_cons.2 ⟨fun h => apart h rfl, once⟩, fun t ht => ?_⟩
      rcases List.mem_cons.1 ht with rfl | ht
      · exact new
      · have same := Scope.find?_put_of_ne s (b := ⟨name, st.nextSlot, .cls, true, false⟩)
          (apart ht)
        exact same.symm.trans (fresh t ht)
    | block _ | branch _ _ _ _ | loop _ _ _ | var _ _ | ret _ _ | eval _ => exact ih e whole

/-- Classes with names of their own are filed under slots of their own. -/
lemma nodup_filedUnder {body : List Syntax.Stmt} {st : Scopes} {s : Scope} {rest : List Scope}
    (e : st.scopes = s :: rest) (whole : ((hoist body).after st).Whole) :
    (filedUnder ((hoist body).answer st) (classNames body)).Nodup := by
  obtain ⟨names, slots, -⟩ := hoist_slots body e
  obtain ⟨once, -⟩ := names_of_hoist e whole
  have listed : (((hoist body).answer st).map Prod.fst).Nodup := by
    rw [names]
    exact List.nodup_reverse.2 once
  have order : classNames body = (((hoist body).answer st).map Prod.fst).reverse := by
    rw [names, List.reverse_reverse]
  rw [order, filedUnder, List.filterMap_reverse]
  change (filedUnder _ _).reverse.Nodup
  rw [filedUnder_keys listed]
  exact List.nodup_reverse.2 slots

/-- A block consists of the classes that are filed in its scope and of its statements. -/
lemma tells_block {body : List Syntax.Stmt}
    {walk : List (String × Slot) → Resolve (List Program.Stmt)}
    {record : List (String × Slot) → Scopes → History}
    (hw : ∀ hoisted (st : Scopes) s rest, st.scopes = s :: rest →
      ∃ s', Files hoisted (classNames body) st s (record hoisted st).contents
        ((walk hoisted).after st) s' (Program.stmtContents ((walk hoisted).answer st))) :
    Retold (scopeHistory body record) (blockOf body walk) Program.Block.contents := by
  intro st
  let opened := openScope.after st
  let hoisted := (hoist body).answer opened
  have e : opened.scopes = .empty :: st.scopes := rfl
  obtain ⟨s₁, hoists⟩ := hoists body e
  obtain ⟨_, rest₁, _, e₁, _⟩ := hoists.scopes
  obtain ⟨s₂, files⟩ := hw hoisted _ s₁ rest₁ e₁
  obtain ⟨_, rest₂, _, e₂, _⟩ := files.scopes
  obtain ⟨closed, after⟩ := after_closeScope e₂
  have before : s₁.classes = [] := hoists.classes
  have answer : ((blockOf body walk).answer st).contents =
      Program.classContents s₂.classes ++
        Program.stmtContents ((walk hoisted).answer ((hoist body).after opened)) := by
    simp only [blockOf, inScope, answer_bind, after_bind, answer_pure]
    rw [closed, Program.Block.contents]
  have told : (scopeHistory body record st).contents =
      (record hoisted ((hoist body).after opened)).contents := by
    rw [scopeHistory, History.contents_append, contents_hoistHistory, List.nil_append]
  -- as the scope is left what is unused in it is reported, and nothing more
  have ended : ((walk hoisted).after ((hoist body).after opened)).problems <+:
      ((blockOf body walk).after st).problems := List.prefix_append _ _
  rw [answer, told]
  refine ⟨(hoists.problems.trans files.problems).trans ended, ?_, fun whole => ?_⟩
  · have sub := files.sub
    rwa [before] at sub
  · have once := nodup_filedUnder e (whole.of_prefix (files.problems.trans ended))
    have all := files.all (whole.of_prefix ended)
    rw [before] at all
    exact all once

/-- A method consists of what its body does. -/
lemma tells_method (name : String) (params : Option (List Name)) (line : Line)
    {body : Resolve Program.Block} {record : Scopes → History}
    (hbody : Retold record body Program.Block.contents) :
    Retold (methodHistory params record) (method name params line body) fun m =>
      m.body.contents := by
  intro st
  let opened := openScope.after st
  have e : opened.scopes = .empty :: st.scopes := rfl
  have told : (methodHistory params record st).contents =
      (record ((declareParams params).after opened)).contents := by
    rw [methodHistory, History.contents_append, contents_paramHistory, List.nil_append]
  have declared : opened.problems <+: ((declareParams params).after opened).problems := by
    cases params with
    | none => exact List.prefix_rfl
    | some names =>
      obtain ⟨_, inside, _⟩ := inside_params names e
      exact inside.problems
  have ended : (body.after ((declareParams params).after opened)).problems <+:
      ((method name params line body).after st).problems := List.prefix_append _ _
  have first : st.problems <+: ((declareParams params).after opened).problems := declared
  rw [told]
  exact ((hbody _).earlier first).later ended

/-! ### Calls -/

/-- What resolution makes of an expression is what its history tells of. -/
def TellsExpr (e : Syntax.Expr) : Prop :=
  ∀ p st, Tells st (e.history p st).contents ((resolveExpr e).after st)
    ((resolveExpr e).answer st).contents

/-- The same for expressions that are resolved one after the other. -/
def TellsExprs (es : List Syntax.Expr) : Prop :=
  ∀ p st, Tells st (exprHistory p st es).contents ((resolveExprs es).after st)
    (Program.exprContents ((resolveExprs es).answer st))

/-- The same for a block of code that is handed over with a call. -/
def TellsCode : Syntax.Code → Prop
  | ⟨params, body, line⟩ => ∀ p, Retold
    (methodHistory (some params)
      (scopeHistory body fun hoisted st => stmtHistory p hoisted st body))
    (method "call" (some params) line (blockOf body fun hoisted => resolveStmts hoisted body))
    fun m => m.body.contents

/-- A class that stands for a block of code consists of that code. -/
lemma contents_codeClass (own ownStatic : Slot) (call : Program.Method) (line : Line) :
    (codeClass own ownStatic call line).contents = call.body.contents := by
  rw [codeClass, Program.ClassDecl.contents, Program.methodContents_eq, Program.methodContents_eq,
    Program.methodContents_eq]
  exact List.append_nil _

/-- The history of the arguments of a call that are written in parentheses. -/
def argumentHistory (p : Place) (arguments : Option (List Syntax.Expr)) (st : Scopes) : History :=
  match arguments with
  | none => []
  | some es => exprHistory p st es

/-- The history of the block of code of a call, after its class has got its slots. -/
def codeHistory (p : Place) (code : Option Syntax.Code) (st : Scopes) : History :=
  match code with
  | none => []
  | some ⟨params, body, _⟩ =>
    methodHistory (some params)
      (scopeHistory body fun hoisted st => stmtHistory p hoisted st body)
      (fresh.after (fresh.after st))

/-- The receiver, the arguments and the block of code of a call come one after the
other. -/
lemma history_call (receiver : Syntax.Expr) (name : Name) (arguments : Option (List Syntax.Expr))
    (code : Option Syntax.Code) :
    let ready := (resolveExpr receiver).after st
    Syntax.Expr.history p st (.call receiver name arguments code) =
      receiver.history p st ++ (argumentHistory p arguments ready ++
        codeHistory p code ((resolveArguments arguments).after ready)) := by
  cases arguments <;> rcases code with _ | ⟨params, body, line⟩ <;>
    exact List.append_assoc ..

/-- The arguments in parentheses have the contents that their history tells of. -/
lemma tells_arguments {arguments : Option (List Syntax.Expr)}
    (h : ∀ es, arguments = some es → TellsExprs es) (p : Place) (st : Scopes) :
    Tells st (argumentHistory p arguments st).contents ((resolveArguments arguments).after st)
      (Program.exprContents (((resolveArguments arguments).answer st).getD [])) := by
  cases arguments with
  | none => exact .same List.prefix_rfl []
  | some es => exact h es rfl p st

/-- A block of code is handed over after the other arguments. -/
lemma tells_code (arguments : Option (List Program.Expr)) {code : Option Syntax.Code}
    (h : ∀ c, code = some c → TellsCode c) (p : Place) (st : Scopes) :
    ∃ made, Program.exprContents (((resolveCode arguments code).answer st).getD []) =
        Program.exprContents (arguments.getD []) ++ made ∧
      Tells st (codeHistory p code st).contents ((resolveCode arguments code).after st) made := by
  cases code with
  | none => exact ⟨[], (List.append_nil _).symm, .same List.prefix_rfl []⟩
  | some code =>
    obtain ⟨params, body, line⟩ := code
    have slots : st.problems <+: (fresh.after (fresh.after st)).problems := List.prefix_rfl
    refine ⟨_, ?_, (h _ rfl p (fresh.after (fresh.after st))).earlier slots⟩
    simp only [resolveCode, answer_bind, answer_pure, Option.getD_some,
      Program.exprContents_append, Program.exprContents, Program.Expr.contents,
      contents_codeClass, List.append_nil]

/-- A call has the contents that its history tells of, the block of code last. -/
lemma tells_call {receiver : Syntax.Expr} (name : Name) {arguments : Option (List Syntax.Expr)}
    {code : Option Syntax.Code} (hreceiver : TellsExpr receiver)
    (harguments : ∀ es, arguments = some es → TellsExprs es)
    (hcode : ∀ c, code = some c → TellsCode c) :
    TellsExpr (.call receiver name arguments code) := by
  intro p st
  let ready := (resolveExpr receiver).after st
  have written := tells_arguments harguments p ready
  obtain ⟨made, answer, handed⟩ := tells_code ((resolveArguments arguments).answer ready) hcode p
    ((resolveArguments arguments).after ready)
  rw [history_call, History.contents_append, History.contents_append, resolveExpr_call]
  simp only [answer_bind, after_bind, answer_pure, after_pure, resolveAll,
    Program.Expr.contents_call]
  rw [answer]
  exact (hreceiver p st).seq (written.seq handed)

/-! ### Statements -/

/-- What resolution makes of a statement, and what its history tells of. -/
structure Recounts (s : Syntax.Stmt) : Prop where
  quiet : IsQuiet s → ∀ p hoisted st, Tells st (s.history p hoisted st).contents
    ((resolveStmt hoisted s).after st)
    (Program.stmtContents ((resolveStmt hoisted s).answer st).toList)
  files : ∀ p hoisted (st : Scopes) scope rest, st.scopes = scope :: rest →
    ∃ scope', Files hoisted (classNames [s]) st scope (s.history p hoisted st).contents
      ((resolveStmt hoisted s).after st) scope'
      (Program.stmtContents ((resolveStmt hoisted s).answer st).toList)

/-- A statement that declares nothing files nothing. -/
lemma Recounts.of_quiet {s : Syntax.Stmt} (none : classNames [s] = []) (isQuiet : IsQuiet s)
    (quiet : ∀ p hoisted st, Tells st (s.history p hoisted st).contents
      ((resolveStmt hoisted s).after st)
      (Program.stmtContents ((resolveStmt hoisted s).answer st).toList)) : Recounts s := by
  refine ⟨fun _ => quiet, fun p hoisted st scope rest e => ?_⟩
  have yields : Yields false s := yields_resolveStmt s
  rw [none]
  exact (quiet p hoisted st).files (yields.quiet isQuiet hoisted st).2.1 e

/-- A branch is a scope if it declares something. -/
lemma tells_branch {s : Syntax.Stmt} (hs : Recounts s) (p : Place) :
    Retold (branchHistory s fun hoisted st => s.history p hoisted st)
      (branch s fun hoisted => resolveStmt hoisted s) Program.Stmt.contents := by
  intro st
  have enclosed : Retold (scopeHistory [s] fun hoisted st => s.history p hoisted st)
      (blockOf [s] fun hoisted => do return (← resolveStmt hoisted s).toList)
      Program.Block.contents :=
    tells_block fun hoisted st scope rest e => hs.files p hoisted st scope rest e
  have inner (quiet : IsQuiet s) : Tells st (s.history p [] st).contents
      ((resolveStmt [] s).after st)
      (((resolveStmt [] s).answer st).getD (.block .empty)).contents := by
    have yields : Yields false s := yields_resolveStmt s
    obtain ⟨⟨x, answer, -⟩, -⟩ := yields.quiet quiet [] st
    have tells := hs.quiet quiet p [] st
    rw [answer, Option.toList_some, Program.stmtContents_singleton] at tells
    rwa [answer]
  cases s with
  | var name init => exact enclosed st
  | cls name methods => exact enclosed st
  | block _ | branch _ _ _ _ | loop _ _ _ | ret _ _ | eval _ => exact inner trivial

/-- The condition and the branches of a conditional come one after the other. -/
lemma recounts_branch {condition : Syntax.Expr} {yes : Syntax.Stmt} {no : Option Syntax.Stmt}
    (line : Line) (hcondition : TellsExpr condition) (hyes : Recounts yes)
    (hno : ∀ s, no = some s → Recounts s) :
    Recounts (.branch condition yes no line) := by
  refine .of_quiet rfl trivial fun p hoisted st => ?_
  have chosen := (hcondition p st).seq (tells_branch hyes p _)
  cases no with
  | none =>
    rw [Syntax.Stmt.history, List.append_nil, History.contents_append]
    refine chosen.perm (.of_eq ?_)
    change _ = Program.stmtContents [.branch _ _ none line]
    rw [Program.stmtContents_singleton, Program.Stmt.contents, List.append_nil]
    rfl
  | some no =>
    rw [Syntax.Stmt.history, History.contents_append, History.contents_append]
    refine (chosen.seq (tells_branch (hno no rfl) p _)).perm (.of_eq ?_)
    change _ = Program.stmtContents [.branch _ _ (some _) line]
    rw [Program.stmtContents_singleton, Program.Stmt.contents, List.append_assoc]
    rfl

/-- The condition and the body of a loop come one after the other. -/
lemma recounts_loop {condition : Syntax.Expr} {body : Syntax.Stmt} (line : Line)
    (hcondition : TellsExpr condition) (hbody : Recounts body) :
    Recounts (.loop condition body line) := by
  refine .of_quiet rfl trivial fun p hoisted st => ?_
  rw [Syntax.Stmt.history, History.contents_append]
  refine ((hcondition p st).seq (tells_branch hbody p _)).perm (.of_eq ?_)
  exact (Program.stmtContents_singleton (.loop _ _ line)).symm

/-- A statement that consists of one expression has its contents. -/
lemma recounts_expr {s : Syntax.Stmt} {e : Syntax.Expr} {make : Program.Expr → Program.Stmt}
    (none : classNames [s] = []) (quiet : IsQuiet s)
    (history : ∀ p hoisted st, s.history p hoisted st = e.history p st)
    (run : ∀ hoisted, resolveStmt hoisted s = do return some (make (← resolveExpr e)))
    (contents : ∀ x, (make x).contents = x.contents) (he : TellsExpr e) : Recounts s := by
  refine .of_quiet none quiet fun p hoisted st => ?_
  rw [history, run]
  refine (he p st).perm (.of_eq ?_)
  exact ((Program.stmtContents_singleton _).trans (contents _)).symm

/-- A variable is declared before its initializer is resolved. -/
lemma recounts_var (name : Name) {init : Option Syntax.Expr}
    (hinit : ∀ e, init = some e → TellsExpr e) : Recounts (.var name init) := by
  refine ⟨fun quiet => quiet.elim, fun p hoisted st scope rest e => ?_⟩
  have first : Inside st scope ((declare name .var false).after st) _ :=
    inside_declare name .var false e
  obtain ⟨_, rest₁, _, e₁, _⟩ := first.scopes
  have sees : SeesAt false _ _ (resolveMaybe init) _ :=
    sees_resolveMaybe (fun e _ => sees_resolveExpr e) ((declare name .var false).after st)
  obtain ⟨scope₂, second, same⟩ := sees.1.inside e₁
  obtain ⟨_, rest₂, _, e₂, _⟩ := second.scopes
  obtain ⟨scope₃, third, classes, -, -⟩ := inside_markInitialized name.text e₂
  have tells : Tells st (Syntax.Stmt.history p hoisted st (.var name init)).contents
      ((resolveStmt hoisted (.var name init)).after st)
      (Program.stmtContents ((resolveStmt hoisted (.var name init)).answer st).toList) := by
    have declared := first.problems
    have marked := third.problems
    rw [resolveStmt_var]
    cases init with
    | none => exact (Tells.same declared []).later marked
    | some init =>
      have tells := ((hinit init rfl (p.inInitializer ((declare name .var false).answer st))
        ((declare name .var false).after st)).earlier declared).later marked
      exact tells.perm (.of_eq (Program.stmtContents_singleton (.var _ (some _) name.line)).symm)
  rw [resolveStmt_var] at tells ⊢
  exact ⟨scope₃, tells.filesIn (first.trans (second.trans third)) (classes.trans same.classes)⟩

/-! ### Classes -/

/-- What is read, assigned to and filed in the members resolved so far. -/
def Members.contents (m : Members) : List Content :=
  Program.methodContents m.constructors ++
    (Program.methodContents m.staticMethods ++ Program.methodContents m.methods)

/-- A member that is added brings in its body, and may take the place of another one. -/
lemma Members.contents_add (m : Members) (kind : Syntax.MethodKind) (x : Program.Method) :
    (m.add kind x).contents <+~ m.contents ++ x.body.contents := by
  have added (ms : List Program.Method) :
      Program.methodContents (insertByKey Program.Method.selector x ms) <+~
        x.body.contents ++ Program.methodContents ms := by
    rw [Program.methodContents_eq, Program.methodContents_eq]
    exact flatMap_insertByKey ..
  refine List.Subperm.trans ?_ List.perm_append_comm.subperm
  cases kind with
  | construct =>
    rw [show x.body.contents ++ m.contents =
      (x.body.contents ++ Program.methodContents m.constructors) ++ _ from
        (List.append_assoc ..).symm]
    exact (List.subperm_append_right _).2 (added m.constructors)
  | onClass =>
    refine ((List.subperm_append_left _).2
      ((List.subperm_append_right _).2 (added m.staticMethods))).trans ?_
    rw [List.append_assoc]
    exact (List.perm_append_comm_assoc ..).subperm
  | onInstance =>
    refine ((List.subperm_append_left _).2
      ((List.subperm_append_left _).2 (added m.methods))).trans ?_
    exact ((List.perm_append_comm_assoc ..).append_left _).subperm.trans
      (List.perm_append_comm_assoc ..).subperm

/-- A member whose place is free takes no other's place. -/
lemma Members.length_add {m : Members} {kind : Syntax.MethodKind} {x : Program.Method}
    (free : m.isTaken kind x.selector = false) :
    (m.contents ++ x.body.contents).length ≤ (m.add kind x).contents.length := by
  have added {ms : List Program.Method}
      (none : (Program.findMethod? x.selector ms).isSome = false) :
      (Program.methodContents (insertByKey Program.Method.selector x ms)).length =
        (x.body.contents ++ Program.methodContents ms).length := by
    have fresh : x.selector ∉ ms.map Program.Method.selector := by
      rintro h
      obtain ⟨y, hy, same⟩ := List.mem_map.1 h
      rw [Option.isSome_eq_false_iff, Option.isNone_iff_eq_none] at none
      exact absurd same (by simpa using List.find?_eq_none.1 none y hy)
    rw [Program.methodContents_eq, Program.methodContents_eq]
    exact length_flatMap_insertByKey _ fresh
  cases kind with
  | construct =>
    have := added (Bool.or_eq_false_iff.1 free).1
    simp only [contents, Members.add, List.length_append] at this ⊢
    omega
  | onClass =>
    have := added (Bool.or_eq_false_iff.1 free).2
    simp only [contents, Members.add, List.length_append] at this ⊢
    omega
  | onInstance =>
    have := added free
    simp only [contents, Members.add, List.length_append] at this ⊢
    omega

/-- A member is resolved on its side of the class and added to the others. -/
lemma tells_member (cls : String) (m : Members) (d : Syntax.Method) {told : Scopes → History}
    (h : Retold told (memberOf d) fun x => x.body.contents) (st : Scopes) :
    Tells st (m.contents ++ (told (enterMember m d.kind st)).contents)
      ((member cls m d.kind d.name (memberOf d)).after st)
      ((member cls m d.kind d.name (memberOf d)).answer st).contents := by
  let st₁ := (memberOf d).after (enterMember m d.kind st)
  let x := (memberOf d).answer (enterMember m d.kind st)
  have tells := h (enterMember m d.kind st)
  have problems := problems_enterMember st m d.kind
  have left : ((leaveMember d.kind st₁).noting (clash cls m d)).problems =
      st₁.problems ++ clash cls m d := by
    rw [Scopes.problems_noting, problems_leaveMember]
  have ended : st₁.problems <+: ((leaveMember d.kind st₁).noting (clash cls m d)).problems := by
    rw [left]
    exact List.prefix_append _ _
  rw [answer, after, run_member]
  refine ⟨(problems ▸ tells.problems).trans ended, ?_, fun whole => ?_⟩
  · exact (Members.contents_add m d.kind x).trans ((List.subperm_append_left _).2 tells.sub)
  · have free : m.isTaken d.kind x.selector = false := by
      by_contra taken
      have noted : clash cls m d = [.methodAlreadyDeclared d.name d.selector cls] :=
        if_pos (selector_memberOf d _ ▸ Bool.not_eq_false _ ▸ taken)
      refine whole (.methodAlreadyDeclared d.name d.selector cls) ?_ trivial
      rw [left, noted]
      exact List.mem_append_right _ (List.mem_singleton_self _)
    have all := tells.all (whole.of_prefix ended)
    have added := Members.length_add free
    simp only [List.length_append] at all added ⊢
    exact le_trans (Nat.add_le_add_left all _) added

/-- A class consists of its members. -/
lemma tells_class {slot : Slot} {name : Name} {walk : Members → Resolve Members} {told : History}
    (h : Tells (enterClass slot st) told.contents ((walk (.start st.nextSlot)).after
      (enterClass slot st)) ((walk (.start st.nextSlot)).answer (enterClass slot st)).contents) :
    Tells st told.contents ((insideClass slot (classDecl name walk)).after st)
      ((insideClass slot (classDecl name walk)).answer st).contents := by
  have run := run_class slot name walk st
  rw [answer, after, run]
  exact ⟨h.problems, h.sub, h.all⟩

/-- A class brings itself and its members into the scope that it is filed in. -/
lemma filed_subperm (slot : Slot) {c : Program.ClassDecl} {told : List Content}
    (h : c.contents <+~ told) (cs : List (Slot × Program.ClassDecl)) :
    Program.classContents (insertByKey Prod.fst (slot, c) cs) <+~
      Program.classContents cs ++ (told ++ [Content.cls c]) := by
  rw [Program.classContents_eq, Program.classContents_eq]
  refine (flatMap_insertByKey ..).trans ?_
  refine List.perm_append_comm.subperm.trans ((List.subperm_append_left _).2 ?_)
  exact (List.perm_append_singleton ..).symm.subperm.trans ((List.subperm_append_right _).2 h)

/-- A class whose place is free takes no other's place. -/
lemma length_filed {slot : Slot} {c : Program.ClassDecl} {told : List Content}
    (h : told.length ≤ c.contents.length) {cs : List (Slot × Program.ClassDecl)}
    (fresh : slot ∉ cs.map Prod.fst) :
    (Program.classContents cs ++ (told ++ [Content.cls c])).length ≤
      (Program.classContents (insertByKey Prod.fst (slot, c) cs)).length := by
  rw [Program.classContents_eq, Program.classContents_eq, length_flatMap_insertByKey _ fresh]
  simp only [List.length_append, List.length_cons, List.length_nil]
  omega

/-- A class is filed under the slot that it was declared with. -/
lemma recounts_cls (name : Name) {methods : List Syntax.Method}
    (h : ∀ p c m st, Tells st (m.contents ++ (memberHistory p c name.text m st methods).contents)
      ((resolveMethods name.text m methods).after st)
      ((resolveMethods name.text m methods).answer st).contents) :
    Recounts (.cls name methods) := by
  refine ⟨fun quiet => quiet.elim, fun p hoisted st scope rest e => ?_⟩
  -- a class that was not declared is filed nowhere, and the history leaves it out
  cases found : hoisted.lookup name.text with
  | none =>
    have unfiled : filedUnder hoisted [name.text] = filedUnder hoisted [] := by
      rw [filedUnder, List.filterMap_cons, found]
      rfl
    obtain ⟨scope', files⟩ : ∃ scope', Files hoisted [] st scope [] st scope' [] :=
      Files.nothing e
    rw [Syntax.Stmt.history, found]
    simp only [resolveStmt, found, answer_pure, after_pure, Option.toList_none]
    exact ⟨scope', { files with keys := unfiled ▸ files.keys, all := unfiled ▸ files.all }⟩
  | some slot =>
    -- what the members tell is told of the class, which is then filed in the scope around
    let walk : Resolve Program.ClassDecl :=
      insideClass slot (classDecl name fun m => resolveMethods name.text m methods)
    let told := (memberHistory (p.inClass slot) (walk.answer st) name.text
      (.start st.nextSlot) (enterClass slot st) methods).contents
    have members : Tells (enterClass slot st) told
        ((resolveMethods name.text (.start st.nextSlot) methods).after (enterClass slot st))
        ((resolveMethods name.text (.start st.nextSlot) methods).answer
          (enterClass slot st)).contents :=
      h (p.inClass slot) (walk.answer st) (.start st.nextSlot) (enterClass slot st)
    have tells : Tells st told (walk.after st) (walk.answer st).contents := tells_class members
    -- resolving the class touches the scope around it only by what it uses there
    have evolves : st.Evolves (walk.after st) := Sees.evolves
      (sees_insideClass (sees_classDecl name (sees_resolveMethods name.text methods))) st
    obtain ⟨scope₁, first, same⟩ := evolves.inside e
    obtain ⟨_, rest₁, _, e₁, _⟩ := first.scopes
    have second := inside_modifyInnermost (fun s =>
      { s with classes := insertByKey Prod.fst (slot, walk.answer st) s.classes }) e₁
    have under : filedUnder hoisted (classNames [.cls name methods]) = [slot] := by
      change filedUnder hoisted [name.text] = [slot]
      rw [filedUnder, List.filterMap_cons, found]
      rfl
    rw [Syntax.Stmt.history, found]
    simp only [resolveStmt, found, answer_bind, after_bind, answer_pure, after_pure,
      Option.toList_none, History.contents_append]
    refine ⟨_, first.trans second, ?_, ?_, fun whole once => ?_⟩
    · rw [under, ← same.classes, List.map_eq_flatMap, List.map_eq_flatMap]
      exact (flatMap_insertByKey ..).trans List.perm_append_comm.subperm
    · rw [← same.classes, Program.stmtContents, List.append_nil]
      exact filed_subperm slot tells.sub scope₁.classes
    -- a slot that is filed once replaces nothing
    · rw [under, ← same.classes] at once
      have fresh : slot ∉ scope₁.classes.map Prod.fst := fun h =>
        (List.nodup_append.1 once).2.2 slot h slot (List.mem_singleton_self _) rfl
      have kept := tells.all (whole.of_prefix second.problems)
      rw [← same.classes, Program.stmtContents, List.append_nil]
      exact length_filed kept fresh

/-! ### The walk over the program -/

mutual

/-- The contents of a resolved expression are those that its history tells of. -/
theorem tells_expr : (e : Syntax.Expr) → TellsExpr e
  | .assign target value line => fun p st => by
    obtain ⟨es, history, first⟩ : ∃ es : History, _ ∧ Tells st es.contents _ _ :=
      tells_target (p := p) target
    rw [history, resolveExpr_assign, History.contents_append]
    exact first.seq (tells_expr value p _)
  | .call receiver name none none =>
    tells_call name (tells_expr receiver) (fun _ h => nomatch h) fun _ h => nomatch h
  | .call receiver name (some es) none =>
    tells_call name (tells_expr receiver) (fun _ e => Option.some.inj e ▸ tells_exprs es)
      fun _ h => nomatch h
  | .call receiver name none (some ⟨params, body, line⟩) =>
    tells_call name (tells_expr receiver) (fun _ h => nomatch h) fun _ e =>
      Option.some.inj e ▸ fun p =>
        tells_method "call" (some params) line (tells_block (files_stmts body p))
  | .call receiver name (some es) (some ⟨params, body, line⟩) =>
    tells_call name (tells_expr receiver) (fun _ e => Option.some.inj e ▸ tells_exprs es)
      fun _ e => Option.some.inj e ▸ fun p =>
        tells_method "call" (some params) line (tells_block (files_stmts body p))
  | .literal _ _ => fun _ _ => .same List.prefix_rfl []
  | .variable name => fun _ st => .same (Sees.evolves (sees_namedSlot name) st).problems _
  | .field name => fun _ st => .same (Sees.evolves (sees_instanceField name) st).problems _
  | .staticField name => fun _ st => .same (Sees.evolves (sees_staticField name) st).problems _
  | .this line => fun _ st => .same (Sees.evolves (sees_thisSlot line) st).problems _
  | .logical _ left right _ => fun p st => by
    rw [Syntax.Expr.history, History.contents_append]
    exact (tells_expr left p st).seq (tells_expr right p _)

/-- The same for expressions that are resolved one after the other. -/
theorem tells_exprs : (es : List Syntax.Expr) → TellsExprs es
  | [] => fun _ _ => .same List.prefix_rfl []
  | e :: es => fun p st => by
    rw [exprHistory, History.contents_append]
    exact (tells_expr e p st).seq (tells_exprs es p _)

/-- The contents of a resolved statement, and what it files, are what its history tells
of. -/
theorem recounts_stmt : (s : Syntax.Stmt) → Recounts s
  | .block body => by
    refine .of_quiet rfl trivial fun p hoisted st => ?_
    refine (tells_block (files_stmts body p) st).perm (.of_eq ?_)
    exact (Program.stmtContents_singleton (.block _)).symm
  | .branch condition yes none line =>
    recounts_branch line (tells_expr condition) (recounts_stmt yes) fun _ h => nomatch h
  | .branch condition yes (some no) line =>
    recounts_branch line (tells_expr condition) (recounts_stmt yes)
      fun _ e => Option.some.inj e ▸ recounts_stmt no
  | .loop condition body line => recounts_loop line (tells_expr condition) (recounts_stmt body)
  | .var name none => recounts_var name fun _ h => nomatch h
  | .var name (some init) => recounts_var name fun _ e => Option.some.inj e ▸ tells_expr init
  | .cls name methods => recounts_cls name (tells_methods methods name.text)
  | .ret none line => .of_quiet rfl trivial fun _ _ _ => .same List.prefix_rfl []
  | .ret (some e) line =>
    recounts_expr rfl trivial (fun _ _ _ => rfl) (fun _ => rfl) (fun _ => rfl) (tells_expr e)
  | .eval e =>
    recounts_expr rfl trivial (fun _ _ _ => rfl) (fun _ => rfl) (fun _ => rfl) (tells_expr e)

/-- Statements file in the scope around them what their history tells of. -/
theorem files_stmts : (ss : List Syntax.Stmt) → ∀ p hoisted (st : Scopes) scope rest,
    st.scopes = scope :: rest →
      ∃ scope', Files hoisted (classNames ss) st scope (stmtHistory p hoisted st ss).contents
        ((resolveStmts hoisted ss).after st) scope'
        (Program.stmtContents ((resolveStmts hoisted ss).answer st))
  | [], _, _, _, _, _, e => Files.nothing e
  | s :: ss, p, hoisted, st, scope, rest, e => by
    obtain ⟨scope₁, first⟩ := (recounts_stmt s).files p hoisted st scope rest e
    obtain ⟨_, rest₁, _, e₁, _⟩ := first.scopes
    obtain ⟨scope₂, second⟩ := files_stmts ss p hoisted _ scope₁ rest₁ e₁
    rw [classNames_cons, stmtHistory, History.contents_append]
    simp only [resolveStmts, answer_bind, after_bind, answer_pure, after_pure,
      Program.stmtContents_append]
    exact ⟨scope₂, first.trans second⟩

/-- The contents of the members of a class are those that their history tells of. -/
theorem tells_methods : (methods : List Syntax.Method) → ∀ name p c m st,
    Tells st (m.contents ++ (memberHistory p c name m st methods).contents)
      ((resolveMethods name m methods).after st)
      ((resolveMethods name m methods).answer st).contents
  | [], name, p, c, m, st => by
    rw [memberHistory, History.contents_nil, List.append_nil]
    exact .same List.prefix_rfl _
  | ⟨kind, own, params, body⟩ :: rest, name, p, c, m, st => by
    let d : Syntax.Method := ⟨kind, own, params, body⟩
    have first := tells_member name m d (tells_method own.text params own.line
      (tells_block (files_stmts body (p.inMember kind c)))) st
    rw [memberHistory, History.contents_append, ← List.append_assoc]
    exact first.thenAll (tells_methods rest name p c _ _)

end

/-- What is picked from a part of a list is part of what is picked from the list. -/
lemma subperm_filterMap {α β : Type} (f : α → Option β) {xs ys : List α} (h : xs <+~ ys) :
    xs.filterMap f <+~ ys.filterMap f := by
  obtain ⟨l, order, sub⟩ := h
  exact ⟨l.filterMap f, order.filterMap f, sub.filterMap f⟩

/-- Whatever mistakes a program has, each read, each target and each filed class of its
resolved form is one that its history tells of. If nothing of the program is left out for
a mistake then they are the same, each as often in the one as in the other. -/
theorem resolve_recounted (globals : List String) (program : List Syntax.Stmt) :
    let root := (resolve globals program).1.root
    let slots := (history globals program).occurrences.map Occurrence.slot
    let classes := (history globals program).classes.map ClassRecord.decl
    root.uses <+~ slots ∧ root.filed <+~ classes ∧
      ((∀ p ∈ (resolve globals program).2, ¬p.Drops) →
        root.uses ~ slots ∧ root.filed ~ classes) := by
  have tells : Tells (.entry globals) (history globals program).contents
      ((blockOf program fun hoisted => resolveStmts hoisted program).after (.entry globals))
      (resolve globals program).1.root.contents :=
    tells_block (files_stmts program .outermost) (.entry globals)
  intro root slots classes
  have sub := tells.sub
  have slotsOf : (history globals program).contents.filterMap Content.slot? = slots :=
    History.filterMap_slot? _
  have classesOf : (history globals program).contents.filterMap Content.class? = classes :=
    History.filterMap_class? _
  rw [← slotsOf, ← classesOf]
  refine ⟨subperm_filterMap _ sub, subperm_filterMap _ sub, fun whole => ?_⟩
  have order := sub.perm_of_length_le (tells.all whole)
  exact ⟨order.filterMap _, order.filterMap _⟩

-- of two classes with one name the program has the later one, the history both
example : (resolve [] [.cls ⟨"A", 1⟩ [], .cls ⟨"A", 2⟩ []]).1.root.filed.length = 1 ∧
    (history [] [.cls ⟨"A", 1⟩ [], .cls ⟨"A", 2⟩ []]).classes.length = 2 := by
  decide +kernel

end Resolve

end Ember
