/-
What lies within what in a resolved program.

* `Part`: what a part of a program consists of as far as classes are concerned: those
  within it, those whose values come about in it, the slots that it declares and what
  it may mention;
* `Part.Inside`: one part lies inside another. What is visible around it leaves room for
  what it declares;
* `Expr.houses`, `Stmt.houses`, `Block.houses`, `ClassDecl.houses`: the classes within a
  part of a program lie inside it;
* `Script.bodies`: all bodies of a program, `inside_of_mem_bodies` that they lie inside it;
* `Expr.count_owned_le` and its companions: the slot that a class is declared by, its
  receiver and the variables of its bodies are its own; so different classes have
  different receivers (`eq_of_receiver_eq`) and slots (`lookup_namedClasses`), and
  different bodies have different variables (`eq_of_mem_locals`).
-/
import Mathlib
import Ember.Flow.Captures
import Ember.Proofs.Scope.Closed

namespace Ember

open Program

/-! ### Parts -/

/-- What is visible where something stands leaves room for the slots that it declares:
no slot is declared twice. -/
def LeavesRoom (visible : List Slot) (roles : List (Slot × SlotRole)) : Prop :=
  ∀ s, visible.count s + (roles.map Prod.fst).count s ≤ 1

/-- Where there is room for some slots there is room for fewer. -/
lemma LeavesRoom.sublist {v : List Slot} {rs rs' : List (Slot × SlotRole)} (room : LeavesRoom v rs')
    (sub : rs.Sublist rs') : LeavesRoom v rs := fun s =>
  (Nat.add_le_add_left ((sub.map Prod.fst).count_le s) _).trans (room s)

/-- What is declared is not visible where it is declared. -/
lemma LeavesRoom.not_mem {x : Slot} {v : List Slot} {rs : List (Slot × SlotRole)}
    (room : LeavesRoom v rs) {role : SlotRole} (h : (x, role) ∈ rs) : x ∉ v := fun mem => by
  have := room x
  have := List.count_pos_iff.2 mem
  have : 0 < (rs.map Prod.fst).count x := List.count_pos_iff.2 (List.mem_map_of_mem h)
  omega

/-- Nothing is declared in two parts. -/
lemma LeavesRoom.apart {x : Slot} {v : List Slot} {rs rs' : List (Slot × SlotRole)}
    (room : LeavesRoom v (rs ++ rs')) {role : SlotRole} (h : (x, role) ∈ rs') :
    x ∉ rs.map Prod.fst := fun mem => by
  have room := room x
  rw [List.map_append, List.count_append] at room
  have := List.count_pos_iff.2 mem
  have : 0 < (rs'.map Prod.fst).count x := List.count_pos_iff.2 (List.mem_map_of_mem h)
  omega

/-- A part of a program: the classes within it, the classes whose values come about in
it, the slots that it declares, and whether it mentions only visible slots. -/
structure Part where
  classes : List (Option Slot × ClassDecl)
  visits : List ClassDecl
  roles : List (Slot × SlotRole)
  closed : List Slot → Prop

/-- One part of a program lies inside another. -/
structure Part.Inside (p q : Part) : Prop where
  classes : p.classes ⊆ q.classes
  visits : p.visits ⊆ q.visits
  roles : p.roles ⊆ q.roles
  housed : ∀ v, q.closed v → LeavesRoom v q.roles → ∃ w, p.closed w ∧ LeavesRoom w p.roles

namespace Part.Inside

variable {p q r : Part}

/-- Every part lies inside itself. -/
lemma refl (p : Part) : p.Inside p :=
  ⟨List.Subset.refl _, List.Subset.refl _, List.Subset.refl _, fun v closed room =>
    ⟨v, closed, room⟩⟩

/-- What lies inside a part inside another lies inside the other. -/
lemma trans (h : p.Inside q) (h' : q.Inside r) : p.Inside r := by
  refine ⟨List.Subset.trans h.classes h'.classes, List.Subset.trans h.visits h'.visits,
    List.Subset.trans h.roles h'.roles, fun v closed room => ?_⟩
  obtain ⟨w, closed', room'⟩ := h'.housed v closed room
  exact h.housed w closed' room'

/-- A part that sees what is visible around the other. -/
lemma of_sublist (classes : p.classes ⊆ q.classes) (visits : p.visits ⊆ q.visits)
    (roles : p.roles.Sublist q.roles) (closed : ∀ v, q.closed v → p.closed v) : p.Inside q :=
  ⟨classes, visits, roles.subset, fun v h room => ⟨v, closed v h, room.sublist roles⟩⟩

end Part.Inside

namespace Program

section Parts

variable (named : List (Slot × ClassDecl))

/-- What an expression consists of. -/
def Expr.part (e : Expr) : Part := ⟨e.classes, e.visits named, e.roles, fun v => e.Closed true v⟩

/-- What expressions that are evaluated one after the other consist of. -/
def exprPart (es : List Expr) : Part :=
  ⟨exprClasses es, exprVisits named es, exprRoles es, fun v => exprClosed true v es⟩

/-- What a statement consists of. -/
def Stmt.part (s : Stmt) : Part := ⟨s.classes, s.visits named, s.roles, fun v => s.Closed true v⟩

/-- What the statements of a block consist of, without its classes. -/
def stmtPart (ss : List Stmt) : Part :=
  ⟨stmtClasses ss, stmtVisits named ss, stmtRoles ss, fun v => stmtClosed true v ss⟩

/-- What a block consists of: its statements and its classes. -/
def Block.part (b : Block) : Part :=
  ⟨b.classesWithin, b.visits named, b.roles, fun v => b.Closed true v⟩

/-- Classes that are declared in a block. -/
def classPart (cs : List (Slot × ClassDecl)) : Part :=
  ⟨declaredClasses cs, classVisits named cs, classRoles cs, fun v => classClosed true v cs⟩

/-- What a class consists of: its members and its own slots. -/
def ClassDecl.part (c : ClassDecl) : Part :=
  ⟨c.classesWithin, c.visits named, c.roles, fun v => c.Closed true v⟩

/-- What the methods of a class consist of. -/
def methodPart (ms : List Method) : Part :=
  ⟨methodClasses ms, methodVisits named ms, methodRoles ms, fun v => methodClosed true v ms⟩

end Parts

variable {named : List (Slot × ClassDecl)}

/-! ### Parts of expressions -/

section Counting

/-- The variable that a statement declares in the scope around it is one of its slots. -/
lemma Stmt.count_own_le (s : Stmt) (x : Slot) : s.own.count x ≤ (s.roles.map Prod.fst).count x := by
  cases s with
  | var slot init line => cases init <;> simp [Stmt.own, Stmt.roles, List.count_cons]
  | block _ | branch _ _ _ _ | loop _ _ _ | ret _ _ | eval _ => exact Nat.zero_le _

/-- The variables that statements declare in the scope around them are slots of theirs, as
often as they are declared. -/
lemma count_vars_le (ss : List Stmt) (x : Slot) :
    (ss.flatMap Stmt.own).count x ≤ ((stmtRoles ss).map Prod.fst).count x := by
  induction ss with
  | nil => exact le_refl _
  | cons s ss ih =>
    have own := s.count_own_le x
    rw [List.flatMap_cons, stmtRoles, List.map_append, List.count_append, List.count_append]
    omega

/-- The rest of some statements has room next to the variable of the first one. -/
lemma leavesRoom_rest {s : Stmt} {ss : List Stmt} {v : List Slot}
    (room : LeavesRoom v (stmtRoles (s :: ss))) : LeavesRoom (s.own ++ v) (stmtRoles ss) := by
  intro x
  have room : v.count x + ((s.roles ++ stmtRoles ss).map Prod.fst).count x ≤ 1 := room x
  have own := s.count_own_le x
  rw [List.map_append, List.count_append] at room
  rw [List.count_append]
  omega

/-- The statements of a block have room next to its classes. -/
lemma leavesRoom_statements {b : Block} {v : List Slot} (room : LeavesRoom v b.roles) :
    LeavesRoom (b.classSlots ++ v) (stmtRoles b.statements) := by
  obtain ⟨ss, names, cs⟩ := b
  intro x
  have room := room x
  simp only [Block.roles, List.map_append, List.map_map, List.count_append] at room
  have own : (cs.map (Prod.fst ∘ fun c => (c.1, SlotRole.cls))).count x =
      (cs.map Prod.fst).count x := rfl
  change (cs.map Prod.fst ++ v).count x + ((stmtRoles ss).map Prod.fst).count x ≤ 1
  rw [List.count_append]
  omega

end Counting

section Inside

variable {e : Expr} {es : List Expr}

/-- The value of an assignment lies inside it. -/
lemma inside_assign (target : Slot) (value : Expr) (line : Line) :
    (value.part named).Inside ((Expr.assign target value line).part named) :=
  .of_sublist (List.Subset.refl _) (List.Subset.refl _) (List.Sublist.refl _) fun _ h => h.2

/-- The receiver and the arguments of a call lie inside it. -/
lemma inside_call (receiver : Expr) (name : String) (arguments : Option (List Expr)) (line : Line) :
    (receiver.part named).Inside ((Expr.call receiver name arguments line).part named) ∧
      ∀ es, arguments = some es →
        (exprPart named es).Inside ((Expr.call receiver name arguments line).part named) := by
  cases arguments with
  | none =>
    exact ⟨.of_sublist (List.subset_append_left _ _) (List.subset_append_left _ _)
      (List.sublist_append_left _ _) fun _ h => h.1, fun es same => nomatch same⟩
  | some es =>
    refine ⟨.of_sublist (List.subset_append_left _ _) (List.subset_append_left _ _)
      (List.sublist_append_left _ _) fun _ h => h.1, fun es' same => ?_⟩
    cases same
    exact .of_sublist (List.subset_append_right _ _) (List.subset_append_right _ _)
      (List.sublist_append_right _ _) fun _ h => h.2

/-- Both operands of a connective lie inside it. -/
lemma inside_logical (op : Connective) (left right : Expr) (line : Line) :
    (left.part named).Inside ((Expr.logical op left right line).part named) ∧
      (right.part named).Inside ((Expr.logical op left right line).part named) :=
  ⟨.of_sublist (List.subset_append_left _ _) (List.subset_append_left _ _)
      (List.sublist_append_left _ _) fun _ h => h.1,
    .of_sublist (List.subset_append_right _ _) (List.subset_append_right _ _)
      (List.sublist_append_right _ _) fun _ h => h.2⟩

/-- A class lies inside the expression that it is. -/
lemma inside_cls (decl : ClassDecl) : (decl.part named).Inside ((Expr.cls decl).part named) :=
  .of_sublist (List.subset_cons_self _ _) (List.subset_append_left _ _) (List.Sublist.refl _)
    fun _ h => h

/-- The first of some expressions lies inside them, and so do the others. -/
lemma inside_exprs (e : Expr) (es : List Expr) :
    (e.part named).Inside (exprPart named (e :: es)) ∧
      (exprPart named es).Inside (exprPart named (e :: es)) :=
  ⟨.of_sublist (List.subset_append_left _ _) (List.subset_append_left _ _)
      (List.sublist_append_left _ _) fun _ h => h.1,
    .of_sublist (List.subset_append_right _ _) (List.subset_append_right _ _)
      (List.sublist_append_right _ _) fun _ h => h.2⟩

/-! ### Parts of statements -/

/-- A block lies inside the statement that it is. -/
lemma inside_block (body : Block) : (body.part named).Inside ((Stmt.block body).part named) :=
  .of_sublist (List.Subset.refl _) (List.Subset.refl _) (List.Sublist.refl _) fun _ h => h

/-- The condition and the branches of a conditional lie inside it. -/
lemma inside_branch (named : List (Slot × ClassDecl)) (condition : Expr) (yes : Stmt)
    (no : Option Stmt) (line : Line) :
    (condition.part named).Inside ((Stmt.branch condition yes no line).part named) ∧
      (yes.part named).Inside ((Stmt.branch condition yes no line).part named) ∧
        ∀ s, no = some s →
          (s.part named).Inside ((Stmt.branch condition yes no line).part named) := by
  have left {α : Type} {xs ys zs : List α} : xs.Sublist (xs ++ ys ++ zs) :=
    (List.sublist_append_left _ _).trans (List.sublist_append_left _ _)
  have middle {α : Type} {xs ys zs : List α} : ys.Sublist (xs ++ ys ++ zs) :=
    (List.sublist_append_right _ _).trans (List.sublist_append_left _ _)
  cases no with
  | none =>
    exact ⟨.of_sublist left.subset left.subset left fun _ h => h.1,
      .of_sublist middle.subset middle.subset middle fun _ h => h.2.1.2, fun s same => nomatch same⟩
  | some no =>
    refine ⟨.of_sublist left.subset left.subset left fun _ h => h.1,
      .of_sublist middle.subset middle.subset middle fun _ h => h.2.1.2, fun s same => ?_⟩
    cases same
    exact .of_sublist (List.subset_append_right _ _) (List.subset_append_right _ _)
      (List.sublist_append_right _ _) fun _ h => h.2.2.2

/-- The condition and the body of a loop lie inside it. -/
lemma inside_loop (condition : Expr) (body : Stmt) (line : Line) :
    (condition.part named).Inside ((Stmt.loop condition body line).part named) ∧
      (body.part named).Inside ((Stmt.loop condition body line).part named) :=
  ⟨.of_sublist (List.subset_append_left _ _) (List.subset_append_left _ _)
      (List.sublist_append_left _ _) fun _ h => h.1,
    .of_sublist (List.subset_append_right _ _) (List.subset_append_right _ _)
      (List.sublist_append_right _ _) fun _ h => h.2.2⟩

/-- The initializer of a variable lies inside its declaration. -/
lemma inside_var (slot : Slot) (e : Expr) (line : Line) :
    (e.part named).Inside ((Stmt.var slot (some e) line).part named) :=
  .of_sublist (List.Subset.refl _) (List.Subset.refl _) (List.sublist_cons_self _ _) fun _ h => h

/-- What is returned lies inside the statement that returns it. -/
lemma inside_ret (e : Expr) (line : Line) :
    (e.part named).Inside ((Stmt.ret (some e) line).part named) :=
  .of_sublist (List.Subset.refl _) (List.Subset.refl _) (List.Sublist.refl _) fun _ h => h

/-- An expression lies inside the statement that it is. -/
lemma inside_eval (e : Expr) : (e.part named).Inside ((Stmt.eval e).part named) :=
  .of_sublist (List.Subset.refl _) (List.Subset.refl _) (List.Sublist.refl _) fun _ h => h

/-- The first of some statements lies inside them. The others do too, next to the variable
that the first one may declare. -/
lemma inside_stmts (s : Stmt) (ss : List Stmt) :
    (s.part named).Inside (stmtPart named (s :: ss)) ∧
      (stmtPart named ss).Inside (stmtPart named (s :: ss)) := by
  refine ⟨.of_sublist (List.subset_append_left _ _) (List.subset_append_left _ _)
      (List.sublist_append_left _ _) fun _ h => h.1,
    List.subset_append_right _ _, List.subset_append_right _ _, List.subset_append_right _ _,
    fun v closed room => ⟨s.own ++ v, closed.2, leavesRoom_rest room⟩⟩

/-! ### Parts of blocks and classes -/

/-- The statements and the classes of a block lie inside it. -/
lemma inside_blockParts (ss : List Stmt) (names : List (Slot × String))
    (cs : List (Slot × ClassDecl)) :
    (stmtPart named ss).Inside (Block.part named ⟨ss, names, cs⟩) ∧
      (classPart named cs).Inside (Block.part named ⟨ss, names, cs⟩) := by
  refine ⟨⟨List.subset_append_right _ _, List.subset_append_right _ _,
      List.subset_append_of_subset_right _ (List.subset_append_right _ _),
      fun v closed room => ⟨_, closed.1, leavesRoom_statements (b := ⟨ss, names, cs⟩) room⟩⟩,
    ⟨List.subset_append_left _ _, List.subset_append_left _ _,
      List.subset_append_of_subset_right _ (List.subset_append_left _ _),
      fun v closed room => ⟨_, closed.2, fun x => ?_⟩⟩⟩
  -- the classes also see the variables of the statements, which are declared after them
  have room : v.count x + ((cs.map Prod.fst).count x + (((classRoles cs).map Prod.fst).count x +
      ((stmtRoles ss).map Prod.fst).count x)) ≤ 1 := by
    simpa [Block.part, Block.roles, Function.comp_def, List.count_append] using room x
  have vars := count_vars_le ss x
  change (ss.flatMap Stmt.own ++ (cs.map Prod.fst ++ v)).count x +
    ((classRoles cs).map Prod.fst).count x ≤ 1
  rw [List.count_append, List.count_append]
  omega

/-- The first of some classes lies inside them, and so do the others. -/
lemma inside_classes (s : Slot) (c : ClassDecl) (cs : List (Slot × ClassDecl)) :
    (c.part named).Inside (classPart named ((s, c) :: cs)) ∧
      (classPart named cs).Inside (classPart named ((s, c) :: cs)) := by
  refine ⟨.of_sublist ?_ (List.subset_append_left _ _) (List.sublist_append_left _ _)
      fun _ h => h.1,
    .of_sublist (List.subset_append_right _ _) (List.subset_append_right _ _)
      (List.sublist_append_right _ _) fun _ h => h.2⟩
  exact List.Subset.trans (List.subset_cons_self _ _) (List.subset_append_left _ _)

/-- The receivers, the fields and the three tables of a class declare different slots. -/
lemma ClassDecl.room_part {c : ClassDecl} {v : List Slot}
    (room : LeavesRoom v (c.part named).roles) (x : Slot) :
    v.count x + ((c.receiver :: c.fields.map Prod.fst).count x +
      (c.staticReceiver :: c.staticFields.map Prod.fst).count x +
      (((methodRoles c.constructors).map Prod.fst).count x +
        ((methodRoles c.staticMethods).map Prod.fst).count x +
        ((methodRoles c.methods).map Prod.fst).count x)) ≤ 1 := by
  obtain ⟨name, line, receiver, staticReceiver, constructors, staticMethods, methods, fields,
    staticFields⟩ := c
  have room := room x
  have slots (fs : List (Slot × String)) : fs.map (fun f => f.1) = fs.map Prod.fst := rfl
  simp only [ClassDecl.part, ClassDecl.roles, List.map_append, List.map_map, List.map_cons,
    List.map_nil, List.count_append, List.count_cons, List.count_nil, Function.comp_def, slots]
    at room ⊢
  omega

/-- A table of a class lies inside it. Where its methods stand, it sees receivers and fields
of the class. -/
lemma inside_table {c : ClassDecl} {ms : List Method} (seen : List Slot)
    (listed : ms = c.constructors ∨ ms = c.staticMethods ∨ ms = c.methods)
    (few : ∀ x, seen.count x ≤ (c.receiver :: c.fields.map Prod.fst).count x +
      (c.staticReceiver :: c.staticFields.map Prod.fst).count x)
    (closed : ∀ v, c.Closed true v → methodClosed true (seen ++ v) ms) :
    (methodPart named ms).Inside (c.part named) := by
  obtain ⟨name, line, receiver, staticReceiver, constructors, staticMethods, methods, fields,
    staticFields⟩ := c
  refine ⟨fun y hy => ?_, fun y hy => ?_, fun y hy => ?_, fun v h left =>
    ⟨seen ++ v, closed v h, fun x => ?_⟩⟩
  · simp only [methodPart, ClassDecl.part, ClassDecl.classesWithin, List.mem_append] at hy ⊢
    rcases listed with rfl | rfl | rfl <;> simp [hy]
  · simp only [methodPart, ClassDecl.part, ClassDecl.visits, List.mem_append] at hy ⊢
    rcases listed with rfl | rfl | rfl <;> simp [hy]
  · simp only [methodPart, ClassDecl.part, ClassDecl.roles, List.mem_append] at hy ⊢
    rcases listed with rfl | rfl | rfl <;> simp [hy]
  · have room := ClassDecl.room_part left x
    have few := few x
    dsimp only at room few
    simp only [methodPart, List.count_append]
    rcases listed with rfl | rfl | rfl <;> omega

/-- The methods of a class see its fields and receivers. -/
lemma inside_methodTables (named : List (Slot × ClassDecl)) (c : ClassDecl) :
    (methodPart named c.constructors).Inside (c.part named) ∧
      (methodPart named c.staticMethods).Inside (c.part named) ∧
        (methodPart named c.methods).Inside (c.part named) := by
  obtain ⟨name, line, receiver, staticReceiver, constructors, staticMethods, methods, fields,
    staticFields⟩ := c
  let statics := staticReceiver :: staticFields.map Prod.fst
  let both := (receiver :: fields.map Prod.fst) ++ statics
  have few (x : Slot) : both.count x ≤ _ := (List.count_append ..).le
  refine ⟨inside_table both (.inl rfl) few fun v h => ?_,
    inside_table statics (.inr (.inl rfl)) (fun x => Nat.le_add_left _ _) fun v h => h.2.1,
    inside_table both (.inr (.inr rfl)) few fun v h => ?_⟩
  · rw [List.append_assoc]
    exact h.1
  · rw [List.append_assoc]
    exact h.2.2

/-- The body of a method lies inside the methods of its class. -/
lemma inside_methods {m : Method} {ms : List Method} (h : m ∈ ms) :
    (m.body.part named).Inside (methodPart named ms) := by
  induction ms with
  | nil => exact absurd h List.not_mem_nil
  | cons m' ms ih =>
    obtain ⟨name, params, names, body, line⟩ := m'
    cases h with
    | head =>
      refine ⟨List.subset_append_left _ _, List.subset_append_left _ _,
        List.subset_append_of_subset_right _ (List.subset_append_left _ _),
        fun v closed room => ⟨params.getD [] ++ v, closed.1, fun x => ?_⟩⟩
      have room : v.count x + ((methodRoles (⟨name, params, names, body, line⟩ :: ms)).map
        Prod.fst).count x ≤ 1 := room x
      simp only [methodRoles, List.map_append, List.map_map, Function.comp_def, List.map_id',
        List.count_append] at room
      change (params.getD [] ++ v).count x + (body.roles.map Prod.fst).count x ≤ 1
      rw [List.count_append]
      omega
    | tail _ h =>
      refine (ih h).trans (.of_sublist (List.subset_append_right _ _) (List.subset_append_right _ _)
        ?_ fun v closed => closed.2)
      exact (List.sublist_append_right _ _).trans (List.sublist_append_right _ _)

/-- The body of a method lies inside its class. -/
lemma inside_body {c : ClassDecl} {m : Method} (h : m ∈ c.allMethods) :
    (m.body.part named).Inside (c.part named) := by
  obtain ⟨constructors, staticMethods, methods⟩ := inside_methodTables named c
  simp only [ClassDecl.allMethods, List.mem_append] at h
  rcases h with (h | h) | h
  · exact (inside_methods h).trans constructors
  · exact (inside_methods h).trans staticMethods
  · exact (inside_methods h).trans methods

end Inside

/-! ### Classes within a part -/

mutual

/-- The classes within an expression lie inside it. -/
lemma Expr.houses : (e : Expr) → ∀ c ∈ e.classes, (c.2.part named).Inside (e.part named)
  | .assign target value line => fun c hc =>
    (Expr.houses value c hc).trans (inside_assign target value line)
  | .call receiver name none line => fun c hc =>
    (Expr.houses receiver c (by simpa [Expr.classes] using hc)).trans
      (inside_call receiver name none line).1
  | .call receiver name (some es) line => fun c hc =>
    (List.mem_append.1 hc).elim
      (fun hc => (Expr.houses receiver c hc).trans (inside_call receiver name (some es) line).1)
      fun hc => (exprHouses es c hc).trans ((inside_call receiver name (some es) line).2 es rfl)
  | .literal _ _ => fun _ hc => absurd hc List.not_mem_nil
  | .read _ _ => fun _ hc => absurd hc List.not_mem_nil
  | .logical op left right line => fun c hc =>
    (List.mem_append.1 hc).elim
      (fun hc => (Expr.houses left c hc).trans (inside_logical op left right line).1)
      fun hc => (Expr.houses right c hc).trans (inside_logical op left right line).2
  | .cls decl => fun c hc => by
    rcases List.mem_cons.1 hc with rfl | hc
    · exact inside_cls decl
    · exact (ClassDecl.houses decl c hc).trans (inside_cls decl)

/-- The classes within some expressions lie inside them. -/
lemma exprHouses : (es : List Expr) → ∀ c ∈ exprClasses es,
    (c.2.part named).Inside (exprPart named es)
  | [] => fun _ hc => absurd hc List.not_mem_nil
  | e :: es => fun c hc =>
    (List.mem_append.1 hc).elim (fun hc => (Expr.houses e c hc).trans (inside_exprs e es).1)
      fun hc => (exprHouses es c hc).trans (inside_exprs e es).2

/-- The classes within a statement lie inside it. -/
lemma Stmt.houses : (s : Stmt) → ∀ c ∈ s.classes, (c.2.part named).Inside (s.part named)
  | .block body => fun c hc => (Block.houses body c hc).trans (inside_block body)
  | .branch condition yes none line => fun c hc => by
    rw [Stmt.classes, List.append_nil] at hc
    rcases List.mem_append.1 hc with hc | hc
    · exact (Expr.houses condition c hc).trans (inside_branch named condition yes none line).1
    · exact (Stmt.houses yes c hc).trans (inside_branch named condition yes none line).2.1
  | .branch condition yes (some no) line => fun c hc => by
    obtain ⟨first, second, third⟩ := inside_branch named condition yes (some no) line
    rcases List.mem_append.1 hc with hc | hc
    · rcases List.mem_append.1 hc with hc | hc
      · exact (Expr.houses condition c hc).trans first
      · exact (Stmt.houses yes c hc).trans second
    · exact (Stmt.houses no c hc).trans (third no rfl)
  | .loop condition body line => fun c hc =>
    (List.mem_append.1 hc).elim
      (fun hc => (Expr.houses condition c hc).trans (inside_loop condition body line).1)
      fun hc => (Stmt.houses body c hc).trans (inside_loop condition body line).2
  | .var _ none _ => fun _ hc => absurd hc List.not_mem_nil
  | .var slot (some e) line => fun c hc => (Expr.houses e c hc).trans (inside_var slot e line)
  | .ret none _ => fun _ hc => absurd hc List.not_mem_nil
  | .ret (some e) line => fun c hc => (Expr.houses e c hc).trans (inside_ret e line)
  | .eval e => fun c hc => (Expr.houses e c hc).trans (inside_eval e)

/-- The classes within some statements lie inside them. -/
lemma stmtHouses : (ss : List Stmt) → ∀ c ∈ stmtClasses ss,
    (c.2.part named).Inside (stmtPart named ss)
  | [] => fun _ hc => absurd hc List.not_mem_nil
  | s :: ss => fun c hc =>
    (List.mem_append.1 hc).elim (fun hc => (Stmt.houses s c hc).trans (inside_stmts s ss).1)
      fun hc => (stmtHouses ss c hc).trans (inside_stmts s ss).2

/-- The classes within a block lie inside it. -/
lemma Block.houses : (b : Block) → ∀ c ∈ b.classesWithin, (c.2.part named).Inside (b.part named)
  | ⟨ss, names, cs⟩ => fun c hc =>
    (List.mem_append.1 hc).elim
      (fun hc => (classHouses cs c hc).trans (inside_blockParts ss names cs).2)
      fun hc => (stmtHouses ss c hc).trans (inside_blockParts ss names cs).1

/-- Classes that are declared in a block lie inside them, with the classes within them. -/
lemma classHouses : (cs : List (Slot × ClassDecl)) → ∀ c ∈ declaredClasses cs,
    (c.2.part named).Inside (classPart named cs)
  | [] => fun _ hc => absurd hc List.not_mem_nil
  | (s, d) :: cs => fun c hc => by
    rw [declaredClasses, List.cons_append] at hc
    rcases List.mem_cons.1 hc with rfl | hc
    · exact (inside_classes s d cs).1
    · rcases List.mem_append.1 hc with hc | hc
      · exact (ClassDecl.houses d c hc).trans (inside_classes s d cs).1
      · exact (classHouses cs c hc).trans (inside_classes s d cs).2

/-- The classes within a class lie inside it. -/
lemma ClassDecl.houses : (d : ClassDecl) → ∀ c ∈ d.classesWithin,
    (c.2.part named).Inside (d.part named)
  | ⟨name, line, receiver, staticReceiver, constructors, staticMethods, methods, fields,
      staticFields⟩ => fun c hc => by
    have tables := inside_methodTables named ⟨name, line, receiver, staticReceiver,
      constructors, staticMethods, methods, fields, staticFields⟩
    rcases List.mem_append.1 hc with hc | hc
    · rcases List.mem_append.1 hc with hc | hc
      · exact (methodHouses constructors c hc).trans tables.1
      · exact (methodHouses staticMethods c hc).trans tables.2.1
    · exact (methodHouses methods c hc).trans tables.2.2

/-- The classes within the methods of a class lie inside them. -/
lemma methodHouses : (ms : List Method) → ∀ c ∈ methodClasses ms,
    (c.2.part named).Inside (methodPart named ms)
  | [] => fun _ hc => absurd hc List.not_mem_nil
  | ⟨name, params, names, body, line⟩ :: ms => fun c hc => by
    rcases List.mem_append.1 hc with hc | hc
    · have first : (body.part named).Inside
          (methodPart named (⟨name, params, names, body, line⟩ :: ms)) :=
        inside_methods (m := ⟨name, params, names, body, line⟩) (List.mem_cons_self ..)
      exact (Block.houses body c hc).trans first
    · refine (methodHouses ms c hc).trans (.of_sublist (List.subset_append_right _ _)
        (List.subset_append_right _ _) ?_ fun v closed => closed.2)
      exact (List.sublist_append_right _ _).trans (List.sublist_append_right _ _)

end

/-! ### Bodies -/

/-- The bodies of the methods of classes. -/
def bodies (cs : List (Option Slot × ClassDecl)) : List Block :=
  cs.flatMap fun c => c.2.allMethods.map Method.body

/-- The bodies of some classes are those of their methods. -/
lemma mem_bodies {b : Block} {cs : List (Option Slot × ClassDecl)} :
    b ∈ bodies cs ↔ ∃ c ∈ cs, ∃ m ∈ c.2.allMethods, m.body = b := by
  simp only [bodies, List.mem_flatMap, List.mem_map]

/-- All bodies of a program: its outermost block and those of methods, blocks of code
among them. -/
def Script.bodies (s : Script) : List Block := s.root :: Program.bodies s.classes

/-- Every body of a program lies inside it. -/
lemma inside_of_mem_bodies {script : Script} {b : Block} (h : b ∈ script.bodies) :
    (b.part named).Inside (script.root.part named) := by
  rcases List.mem_cons.1 h with rfl | h
  · exact .refl _
  · obtain ⟨c, hc, m, hm, rfl⟩ := mem_bodies.1 h
    exact (inside_body hm).trans (script.root.houses c hc)

/-- Every body of a program stands where what is visible leaves room for what it declares. -/
lemma housed_of_mem_bodies {script : Script} {b : Block} (once : script.slots.Nodup)
    (closed : script.root.Closed true (script.globals.map Prod.fst)) (h : b ∈ script.bodies) :
    ∃ v, b.Closed true v ∧ LeavesRoom v b.roles := by
  have room : LeavesRoom (script.globals.map Prod.fst) script.root.roles := fun y => by
    have := List.nodup_iff_count_le_one.1 once y
    rw [Script.slots, Script.roles, List.map_append, List.count_append, List.map_map] at this
    exact this
  have inside : (b.part []).Inside (script.root.part []) := inside_of_mem_bodies h
  exact inside.housed _ closed room

/-! ### What classes have to themselves -/

/-- The slots of roles that come one after the other. -/
lemma slots_append (rs rs' : List (Slot × SlotRole)) :
    (rs ++ rs').map Prod.fst = rs.map Prod.fst ++ rs'.map Prod.fst := List.map_append

/-- The slots that a class has to itself: the one that it is declared by, its receiver and
the variables of its bodies. -/
def ownSlots (c : Option Slot × ClassDecl) : List Slot :=
  c.1.toList ++ c.2.receiver :: c.2.allMethods.flatMap fun m => m.body.locals

/-- The slots that classes have to themselves. -/
def owned (cs : List (Option Slot × ClassDecl)) : List Slot := cs.flatMap ownSlots

/-- The slots of some classes and those of others. -/
lemma owned_append (cs ds : List (Option Slot × ClassDecl)) :
    owned (cs ++ ds) = owned cs ++ owned ds := List.flatMap_append

/-- The slots of a class and those of others. -/
lemma owned_cons (c : Option Slot × ClassDecl) (cs : List (Option Slot × ClassDecl)) :
    owned (c :: cs) = ownSlots c ++ owned cs := List.flatMap_cons

section Owned

variable (x : Slot)

mutual

/-- The classes within an expression declare the slots that they have to themselves. -/
lemma Expr.count_owned_le : (e : Expr) →
    (owned e.classes).count x ≤ (e.roles.map Prod.fst).count x
  | .assign _ value _ => Expr.count_owned_le value
  | .call receiver _ none _ => by
    simpa [Expr.classes, Expr.roles] using Expr.count_owned_le receiver
  | .call receiver _ (some es) _ => by
    rw [Expr.classes, Expr.roles, owned_append, slots_append, List.count_append, List.count_append]
    exact Nat.add_le_add (Expr.count_owned_le receiver) (exprCount_owned_le es)
  | .literal _ _ | .read _ _ => Nat.le_refl _
  | .logical _ left right _ => by
    rw [Expr.classes, Expr.roles, owned_append, slots_append, List.count_append, List.count_append]
    exact Nat.add_le_add (Expr.count_owned_le left) (Expr.count_owned_le right)
  | .cls decl => (ClassDecl.count_owned_le decl none).trans_eq (Nat.zero_add _)

/-- No slot is owned by the classes within some expressions more often than these declare
it. -/
lemma exprCount_owned_le : (es : List Expr) →
    (owned (exprClasses es)).count x ≤ ((exprRoles es).map Prod.fst).count x
  | [] => Nat.le_refl _
  | e :: es => by
    rw [exprClasses, exprRoles, owned_append, slots_append, List.count_append, List.count_append]
    exact Nat.add_le_add (Expr.count_owned_le e) (exprCount_owned_le es)

/-- A statement declares its variables, and the classes within it the slots that they have
to themselves. -/
lemma Stmt.count_owned_le : (s : Stmt) →
    s.locals.count x + (owned s.classes).count x ≤ (s.roles.map Prod.fst).count x
  | .block body => Block.count_owned_le body
  | .branch condition yes none _ => by
    have first := Expr.count_owned_le condition
    have second := Stmt.count_owned_le yes
    simp only [Stmt.locals, Stmt.classes, Stmt.roles, List.append_nil, owned_append,
      slots_append, List.count_append]
    omega
  | .branch condition yes (some no) _ => by
    have first := Expr.count_owned_le condition
    have second := Stmt.count_owned_le yes
    have third := Stmt.count_owned_le no
    simp only [Stmt.locals, Stmt.classes, Stmt.roles, owned_append, slots_append,
      List.count_append]
    omega
  | .loop condition body _ => by
    have first := Expr.count_owned_le condition
    have second := Stmt.count_owned_le body
    simp only [Stmt.locals, Stmt.classes, Stmt.roles, owned_append, slots_append,
      List.count_append]
    omega
  | .var s none _ => Nat.le_refl _
  | .var s (some e) _ => by
    have value := Expr.count_owned_le e
    simp only [Stmt.locals, Stmt.classes, Stmt.roles, List.map_cons, List.count_cons,
      List.count_nil]
    omega
  | .ret none _ => Nat.le_refl _
  | .ret (some e) _ => (Nat.zero_add _).le.trans (Expr.count_owned_le e)
  | .eval e => (Nat.zero_add _).le.trans (Expr.count_owned_le e)

/-- No slot is a variable of some statements, or owned by the classes within them, more
often than these declare it. -/
lemma stmtCount_owned_le : (ss : List Stmt) →
    (stmtLocals ss).count x + (owned (stmtClasses ss)).count x ≤
      ((stmtRoles ss).map Prod.fst).count x
  | [] => Nat.le_refl _
  | s :: ss => by
    have first := Stmt.count_owned_le s
    have rest := stmtCount_owned_le ss
    simp only [stmtLocals, stmtClasses, stmtRoles, owned_append, slots_append, List.count_append]
    omega

/-- A block declares its variables, and the classes within it the slots that they have to
themselves. -/
lemma Block.count_owned_le : (b : Block) →
    b.locals.count x + (owned b.classesWithin).count x ≤ (b.roles.map Prod.fst).count x
  | ⟨statements, _, classes⟩ => by
    have declared := classCount_owned_le classes
    have rest := stmtCount_owned_le statements
    have slots : (classes.map (Prod.fst ∘ fun c => (c.1, SlotRole.cls))).count x =
        (classes.map Prod.fst).count x := rfl
    simp only [Block.locals, Block.classesWithin, Block.roles, owned_append, slots_append,
      List.map_map, List.count_append]
    omega

/-- No slot is owned by some classes, or by classes within them, more often than these
declare it. -/
lemma classCount_owned_le : (cs : List (Slot × ClassDecl)) →
    (owned (declaredClasses cs)).count x ≤
      (cs.map Prod.fst).count x + ((classRoles cs).map Prod.fst).count x
  | [] => Nat.le_refl _
  | (s, c) :: cs => by
    have first : _ ≤ [s].count x + _ := ClassDecl.count_owned_le c (some s)
    have rest := classCount_owned_le cs
    have slots : ((s, c) :: cs).map Prod.fst = [s] ++ cs.map Prod.fst := rfl
    rw [declaredClasses, classRoles, owned_append, slots_append, slots, List.count_append,
      List.count_append, List.count_append]
    omega

/-- A class declares its receiver and the variables of its bodies, and so do the classes
within it. -/
lemma ClassDecl.count_owned_le : (c : ClassDecl) → (o : Option Slot) →
    (owned ((o, c) :: c.classesWithin)).count x ≤
      o.toList.count x + (c.roles.map Prod.fst).count x
  | ⟨_, _, receiver, _, constructors, staticMethods, methods, _, _⟩, o => by
    have first := methodCount_owned_le constructors
    have second := methodCount_owned_le staticMethods
    have third := methodCount_owned_le methods
    rw [owned_cons]
    simp only [ownSlots, ClassDecl.allMethods, ClassDecl.classesWithin, ClassDecl.roles,
      owned_append, slots_append, List.count_append, List.flatMap_append, List.count_cons,
      List.map_cons]
    omega

/-- No slot is a variable of some methods, or owned by the classes within them, more often
than these declare it. -/
lemma methodCount_owned_le : (ms : List Method) →
    (ms.flatMap fun m => m.body.locals).count x + (owned (methodClasses ms)).count x ≤
      ((methodRoles ms).map Prod.fst).count x
  | [] => Nat.le_refl _
  | ⟨_, params, _, body, _⟩ :: ms => by
    have first := Block.count_owned_le body
    have rest := methodCount_owned_le ms
    simp only [List.flatMap_cons, methodClasses, methodRoles, owned_append, slots_append,
      List.count_append]
    omega

end

end Owned

section Apart

variable {script : Script} (once : script.slots.Nodup)
include once

/-- What the classes of a program have to themselves, and the variables of its outermost
block, are different slots. -/
lemma nodup_owned : (script.root.locals ++ owned script.classes).Nodup := by
  refine List.nodup_iff_count_le_one.2 fun y => ?_
  have counted := script.root.count_owned_le y
  have unique := List.nodup_iff_count_le_one.1 once y
  rw [Script.slots, Script.roles, slots_append, List.count_append] at unique
  rw [List.count_append]
  change _ + (owned script.root.classesWithin).count y ≤ 1
  omega

/-- Classes of a program that have a slot in common are the same. -/
lemma eq_of_mem_ownSlots {c d : Option Slot × ClassDecl} (hc : c ∈ script.classes)
    (hd : d ∈ script.classes) {x : Slot} (hx : x ∈ ownSlots c) (hx' : x ∈ ownSlots d) : c = d := by
  have apart := (List.nodup_flatMap.1 (List.nodup_append.1 (nodup_owned once)).2.1).2
  have symm : Std.Symm (Function.onFun List.Disjoint ownSlots) := ⟨fun _ _ h => h.symm⟩
  by_contra different
  exact apart.forall hc hd different hx hx'

/-- Classes of a program with the same receiver are the same. -/
lemma eq_of_receiver_eq {c d : Option Slot × ClassDecl} (hc : c ∈ script.classes)
    (hd : d ∈ script.classes) (same : c.2.receiver = d.2.receiver) : c = d :=
  eq_of_mem_ownSlots once hc hd (List.mem_append_right _ (List.mem_cons_self ..))
    (same ▸ List.mem_append_right _ (List.mem_cons_self ..))

/-- The slot of a declared class holds no other one. -/
lemma lookup_namedClasses {s : Slot} {c : ClassDecl} (hc : (some s, c) ∈ script.classes) :
    script.namedClasses.lookup s = some c := by
  have listed : (s, c) ∈ script.namedClasses := List.mem_filterMap.2 ⟨_, hc, rfl⟩
  cases known : script.namedClasses.lookup s with
  | none =>
    have other := List.lookup_eq_none_iff.1 known _ listed
    simp at other
  | some d =>
    obtain ⟨⟨o, d'⟩, hd, same⟩ := List.mem_filterMap.1 (mem_of_lookup known)
    cases o with
    | none => exact nomatch same
    | some t =>
      cases same
      have own {c : ClassDecl} : s ∈ ownSlots (some s, c) :=
        List.mem_append_left _ (List.mem_singleton_self s)
      cases eq_of_mem_ownSlots once hc hd own own
      rfl

/-- Bodies of a program that share a variable are the same. -/
lemma eq_of_mem_locals {b b' : Block} {x : Slot} (hb : b ∈ script.bodies)
    (hb' : b' ∈ script.bodies) (hx : x ∈ b.locals) (hx' : x ∈ b'.locals) : b = b' := by
  obtain ⟨-, unique, apart⟩ := List.nodup_append.1 (nodup_owned once)
  have own {c : Option Slot × ClassDecl} {m : Method} (hm : m ∈ c.2.allMethods)
      (hx : x ∈ m.body.locals) : x ∈ ownSlots c :=
    List.mem_append_right _ (List.mem_cons_of_mem _ (List.mem_flatMap.2 ⟨m, hm, hx⟩))
  have outside {b : Block} (hb : b ∈ bodies script.classes) (hx : x ∈ b.locals)
      (root : x ∈ script.root.locals) : False := by
    obtain ⟨c, hc, m, hm, rfl⟩ := mem_bodies.1 hb
    exact apart x root x (List.mem_flatMap.2 ⟨c, hc, own hm hx⟩) rfl
  rcases List.mem_cons.1 hb with rfl | hb
  · rcases List.mem_cons.1 hb' with rfl | hb'
    · rfl
    · exact (outside hb' hx' hx).elim
  · rcases List.mem_cons.1 hb' with rfl | hb'
    · exact (outside hb hx hx').elim
    · obtain ⟨c, hc, m, hm, rfl⟩ := mem_bodies.1 hb
      obtain ⟨c', hc', m', hm', rfl⟩ := mem_bodies.1 hb'
      obtain rfl := eq_of_mem_ownSlots once hc hc' (own hm hx) (own hm' hx')
      have inner := ((List.nodup_flatMap.1 unique).1 c hc)
      have bodies := (List.nodup_cons.1 (List.nodup_append.1 inner).2.1).2
      have symm : Std.Symm (Function.onFun List.Disjoint fun m : Method => m.body.locals) :=
        ⟨fun _ _ h => h.symm⟩
      by_contra different
      exact (List.nodup_flatMap.1 bodies).2.forall hm hm'
        (fun same => different (congrArg Method.body same)) hx hx'

end Apart

end Program

end Ember
