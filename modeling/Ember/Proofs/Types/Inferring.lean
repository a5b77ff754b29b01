/-
Inference makes a program well typed, if none of its demands fails.

A slot keeps the type it was given, except that the slot of a class is given the
type of the class's receiver when its block is entered. So no such slot may be
mentioned before: the slots mentioned in a part of a program are visible there or
declared there, and no slot is declared twice.

* `Room`, `Inference.Ready`: the slots declared in a part of a program are new
  there, and have no types yet;
* `Expr.Infers`, `Stmt.Infers`, `Block.Infers`, `ClassDecl.Infers`, `Method.Infers`:
  inference of a part of a program leads to a valid state in which the part is well
  typed;
* `infers_expr`, `infers_stmt`, `infers_block`, `infers_class`: every part does;
* `inferScript_typed`: a whole program.
-/
import Mathlib
import Ember.Proofs.Run.Placing
import Ember.Proofs.Types.Steps

namespace Ember

open Program Infer Inference

/-! ### New slots -/

/-- The slots of the second list are distinct and not in the first. -/
def Room (v own : List Slot) : Prop := ∀ s, v.count s + own.count s ≤ 1

/-- Where less is visible and declared there is room as well. -/
lemma Room.of_count {v own w own' : List Slot} (h : Room v own)
    (le : ∀ s, w.count s + own'.count s ≤ v.count s + own.count s) : Room w own' :=
  fun s => Nat.le_trans (le s) (h s)

/-- What is declared twice as new is not new. -/
lemma not_mem_of_room {v own : List Slot} (h : Room v own) {s : Slot} (hs : s ∈ own) : s ∉ v := by
  intro hv
  have := h s
  have := List.count_pos_iff.2 hs
  have := List.count_pos_iff.2 hv
  omega

namespace Inference

/-- A part of a program that declares the slots of `own` where those of `v` are
visible is about to be typed. -/
structure Ready (st : Inference) (v own : List Slot) : Prop where
  valid : st.Valid
  free : st.Free own
  room : Room v own

variable {st st' : Inference} {v w own a b may : List Slot}

/-- The first of two parts. -/
lemma Ready.left (h : st.Ready v (a ++ b)) : st.Ready v a where
  valid := h.valid
  free := h.free.subset (List.subset_append_left a b)
  room := h.room.of_count fun s => by
    rw [List.count_append]
    omega

/-- The second of two parts, once the first one has been typed. -/
lemma Ready.right (h : st.Ready v (a ++ b)) (leads : st.Leads (v ++ a) st') : st'.Ready v b := by
  have room : Room (v ++ a) b := h.room.of_count fun s => by
    simp only [List.count_append]
    omega
  refine ⟨leads.valid, leads.free (h.free.subset (List.subset_append_right a b)) fun s hs =>
    not_mem_of_room room hs, h.room.of_count fun s => ?_⟩
  rw [List.count_append]
  omega

/-- A part after visible slots may have got types. -/
lemma Ready.next (h : st.Ready v own) (leads : st.Leads may st') (sub : may ⊆ v) :
    st'.Ready v own :=
  ⟨leads.valid, leads.free h.free fun _ hs hm => not_mem_of_room h.room hs (sub hm), h.room⟩

/-- The second of two parts, where the slots of the first one are visible. -/
lemma Ready.enter (h : st.Ready v (a ++ b)) (leads : st.Leads a st') : st'.Ready (a ++ v) b := by
  have room : Room (a ++ v) b := h.room.of_count fun s => by
    simp only [List.count_append]
    omega
  refine ⟨leads.valid, leads.free (h.free.subset (List.subset_append_right a b)) fun s hs hm => ?_,
    room⟩
  exact not_mem_of_room room hs (List.mem_append_left v hm)

end Inference

/-- What is visible to the first of two parts is visible to both. -/
lemma subset_left (v a b : List Slot) : v ++ a ⊆ v ++ (a ++ b) := by
  intro s hs
  simp only [List.mem_append] at hs ⊢
  tauto

/-- What is visible to the second of two parts is visible to both. -/
lemma subset_right (v a b : List Slot) : v ++ b ⊆ v ++ (a ++ b) := by
  intro s hs
  simp only [List.mem_append] at hs ⊢
  tauto

/-! ### What inference is to do -/

namespace Program

/-- The slots declared within a statement, its own variable aside. -/
def Stmt.innerSlots (s : Stmt) : List Slot := s.innerRoles.map Prod.fst

/-- The slots declared within statements, their own variables aside. -/
def stmtInnerSlots (ss : List Stmt) : List Slot := ss.flatMap Stmt.innerSlots

/-- The slots declared in the methods of a class. -/
def ClassDecl.bodySlots (c : ClassDecl) : List Slot :=
  methodSlots c.methods ++ (methodSlots c.staticMethods ++ methodSlots c.constructors)

/-- An expression is given a type. -/
def Expr.Infers (e : Expr) : Prop :=
  ∀ {v st}, e.Closed false v → e.Plain → st.Ready v e.slots →
    InfersAt st (v ++ e.slots) (inferExpr e) fun T t => T.Simple t ∧ e.Typed T t

/-- Expressions are given types. -/
def exprInfers (es : List Expr) : Prop :=
  ∀ {v st}, exprClosed false v es → exprPlain es → st.Ready v (exprSlots es) →
    InfersAt st (v ++ exprSlots es) (inferExprs es) fun T ts =>
      (∀ t ∈ ts, T.Simple t) ∧ exprTyped T es ts

/-- What a statement returns is given a type. -/
def Stmt.Infers (s : Stmt) : Prop :=
  ∀ {v st}, s.own ⊆ v → s.Closed false v → s.Plain → st.Ready v s.innerSlots →
    InfersAt st (v ++ s.innerSlots) (inferStmt s) fun T t => T.Simple t ∧ s.Typed T t

/-- What statements return flows into a type. -/
def stmtInfers (ss : List Stmt) : Prop :=
  ∀ {v w st join}, v ⊆ w → ss.flatMap Stmt.own ⊆ w → stmtClosed false v ss → stmtPlain ss →
    st.Ready w (stmtInnerSlots ss) → st.IsVar join →
      InfersAt st (w ++ stmtInnerSlots ss) (inferStmts join ss) fun T _ => stmtTyped T ss join

/-- What a block returns is given a type. -/
def Block.Infers (b : Block) : Prop :=
  ∀ {v st}, b.Closed false v → b.Plain → st.Ready v b.slots →
    InfersAt st (v ++ b.slots) (inferBlock b) fun T t => T.Simple t ∧ b.Typed T t

/-- A class is given types, which fit what it declares. Its receivers may have types
before. -/
def ClassDecl.Infers (c : ClassDecl) : Prop :=
  ∀ {v st}, c.Closed false v → c.Plain → st.Valid → st.Free c.bodySlots → Room v c.slots →
    InfersAt st (v ++ c.slots) (inferClass c) fun T t =>
      T.Simple t ∧ T.slot? c.staticReceiver = some t ∧ ∃ S I, c.Typed T S I

/-- So are the classes of a block. -/
def classInfers (cs : List (Slot × ClassDecl)) : Prop :=
  ∀ {v st}, classClosed false v cs → classPlain cs → st.Valid →
    st.Free (cs.flatMap fun c => c.2.bodySlots) → Room v (Program.innerSlots cs) →
    InfersAt st (v ++ Program.innerSlots cs) (inferClasses cs) fun T _ =>
      ∀ c ∈ cs, ∃ S I, c.2.Typed T S I

/-- A method is given a signature. -/
def Method.Infers (m : Method) : Prop :=
  ∀ {v st}, m.body.Closed false (m.params.getD [] ++ v) → m.body.Plain →
    st.Ready v (m.params.getD [] ++ m.body.slots) →
    InfersAt st (v ++ (m.params.getD [] ++ m.body.slots)) (inferMethod m) fun T sig =>
      m.Typed T sig

end Program

/-- A shape of methods whose types are variables. -/
structure Inference.Shaped (T : Inference) (s : Shape) : Prop where
  regular : s.IsRegular
  vars : ∀ t ∈ s.types, T.IsVar t

namespace Program

/-- The methods of a table are given signatures, and a shape is extended by them. -/
def methodsInfer (ms : List Method) : Prop :=
  ∀ {v st s}, methodClosed false v ms → methodPlain ms → st.Ready v (methodSlots ms) →
    st.Shaped s → InfersAt st (v ++ methodSlots ms) (inferMethods s ms) fun T s' =>
      methodsTyped T (fun _ => True) ms s s' ∧ T.Shaped s'

/-- The same for constructors, whose results are made to be instances. -/
def constructorsInfer (ms : List Method) : Prop :=
  ∀ {v st s instances}, methodClosed false v ms → methodPlain ms → st.Ready v (methodSlots ms) →
    st.IsVar instances → st.Shaped s →
    InfersAt st (v ++ methodSlots ms) (inferConstructors instances s ms) fun T s' =>
      methodsTyped T (fun sig => T.graph.Below instances sig.result) ms s s' ∧ T.Shaped s'

/-! ### Expressions -/

/-- The value of an assignment flows into the type of its target. -/
lemma infers_assign {value : Expr} (h : value.Infers) (target : Slot) (line : Line) :
    (Expr.assign target value line).Infers := by
  intro v st closed plain ready
  refine (h closed.2 plain ready).bind (List.Subset.refl _) fun st₁ t at₁ typed => ?_
  have target_sub : [target] ⊆ v ++ value.slots := by
    intro s hs
    rw [List.mem_singleton.1 hs]
    exact List.mem_append_left _ closed.1
  refine (infersAt_slotType at₁.valid target).bind target_sub fun st₂ u at₂ slot => ?_
  have simple := (typed st₁ (.refl st₁)).1
  refine (infersAt_demand at₂.valid line (at₂.valid.lt_of_simple (at₂.later.simple simple))
    (at₂.valid.lt_of_isVar (slot st₂ (.refl st₂)).2)).bind (List.Subset.refl _)
    fun st₃ _ at₃ below => .pure at₃.valid fun T hT => ?_
  have later₂ := at₃.later.trans hT
  have later₁ := at₂.later.trans later₂
  exact ⟨later₁.simple simple, (typed T later₁).2, u, (slot T later₂).1, later₁.simple simple,
    below T hT⟩

/-- Each expression has one type. -/
lemma length_of_exprTyped {T : Inference} {es : List Expr} {ts : List TypeId}
    (h : exprTyped T es ts) : ts.length = es.length := by
  induction es generalizing ts with
  | nil =>
    rw [exprTyped] at h
    rw [h]
    rfl
  | cons e es ih =>
    rw [exprTyped] at h
    obtain ⟨t, rest, rfl, -, hrest⟩ := h
    exact congrArg Nat.succ (ih hrest)

/-- A getter is called without arguments. -/
lemma infers_getter {receiver : Expr} (h : receiver.Infers) (name : String) (line : Line) :
    (Expr.call receiver name none line).Infers := by
  intro v st closed plain ready
  have slots : (Expr.call receiver name none line).slots = receiver.slots := by
    simp [Expr.slots, Expr.roles]
  rw [slots] at ready ⊢
  refine (h closed.1 plain.1 ready).bind (List.Subset.refl _) fun st₁ r at₁ typed => ?_
  refine (infersAt_getter at₁.valid (typed st₁ (.refl st₁)).1 name line).imp
    (List.Subset.refl _) ?_
  rintro T t hT ⟨var, asks⟩
  exact ⟨var.simple, r, (typed T hT).2, asks⟩

/-- A call gives its method the types of its arguments, and has the type of its result. -/
lemma infers_call {receiver : Expr} (h : receiver.Infers) {es : List Expr} (hes : exprInfers es)
    (name : String) (line : Line) : (Expr.call receiver name (some es) line).Infers := by
  intro v st closed plain ready
  have slots : (Expr.call receiver name (some es) line).slots = receiver.slots ++ exprSlots es :=
    List.map_append ..
  rw [slots] at ready ⊢
  refine (h closed.1 plain.1 ready.left).bind (subset_left _ _ _) fun st₁ r at₁ typed => ?_
  refine (hes closed.2 plain.2 (ready.right at₁)).bind (subset_right _ _ _)
    fun st₂ ts at₂ typeds => ?_
  refine (infersAt_call at₂.valid (at₂.later.simple (typed st₁ (.refl st₁)).1) name
    (typeds st₂ (.refl st₂)).1 line).imp (List.Subset.refl _)
    fun T t hT ⟨var, params, flows, asks⟩ => ?_
  have same := length_of_exprTyped (typeds T hT).2
  rw [same] at asks
  exact ⟨var.simple, r, (typed T (at₂.later.trans hT)).2, ts, params, (typeds T hT).2, flows, asks⟩

/-- A literal has the type of its kind. -/
lemma infers_literal (value : Literal) (line : Line) : (Expr.literal value line).Infers :=
  fun _ _ ready => infersAt_literal ready.valid value

/-- A slot that is read has a type. -/
lemma infers_read (slot : Slot) (line : Line) : (Expr.read slot line).Infers := by
  intro v st closed _ ready
  refine (infersAt_slotType ready.valid slot).imp (fun s hs => ?_) fun T t _ h => ⟨h.2.simple, h.1⟩
  rw [List.mem_singleton.1 hs]
  exact List.mem_append_left _ closed

/-- The slots of the methods of a class are slots of the class. -/
lemma bodySlots_subset (c : ClassDecl) : c.bodySlots ⊆ c.slots := by
  rw [ClassDecl.slots_eq, ClassDecl.bodySlots]
  intro s hs
  simp only [List.mem_append, List.mem_cons] at hs ⊢
  tauto

/-- A class is given the type of its static side. -/
lemma infers_cls {decl : ClassDecl} (h : decl.Infers) : (Expr.cls decl).Infers := by
  intro v st closed plain ready
  refine (h closed plain ready.valid (ready.free.subset (bodySlots_subset decl)) ready.room).imp
    (List.Subset.refl _) fun T t _ ⟨simple, slot, S, I, typed⟩ => ?_
  exact ⟨simple, S, I, typed, slot⟩

/-- No expressions have no types. -/
lemma infers_nil : exprInfers [] :=
  fun _ _ ready => .pure ready.valid fun _ _ => ⟨fun _ ht => absurd ht List.not_mem_nil, rfl⟩

/-- Expressions are given types one after the other. -/
lemma infers_cons {e : Expr} (h : e.Infers) {es : List Expr} (hes : exprInfers es) :
    exprInfers (e :: es) := by
  intro v st closed plain ready
  rw [exprSlots_cons] at ready ⊢
  refine (h closed.1 plain.1 ready.left).bind (subset_left _ _ _) fun st₁ t at₁ typed => ?_
  refine (hes closed.2 plain.2 (ready.right at₁)).bind (subset_right _ _ _)
    fun st₂ ts at₂ typeds => .pure at₂.valid fun T hT => ?_
  have first := typed T (at₂.later.trans hT)
  exact ⟨List.forall_mem_cons.2 ⟨first.1, (typeds T hT).1⟩, t, ts, rfl, first.2, (typeds T hT).2⟩

/-! ### Statements -/

/-- A statement that declares nothing has all its slots within it. -/
lemma Stmt.innerSlots_of_own {s : Stmt} (own : s.own = []) : s.innerSlots = s.slots := by
  rw [Stmt.slots, Stmt.roles_eq, own]
  rfl

/-- A condition is a boolean, and what two alternatives return flows into one
type. -/
lemma infers_alternatives {condition : Expr} (hc : condition.Infers) {yes : Stmt}
    (hy : yes.Infers) (line : Line) {v : List Slot} {st : Inference}
    (closed : condition.Closed false v ∧ yes.own = [] ∧ yes.Closed false v)
    (plain : condition.Plain ∧ yes.Plain) (own : List Slot) (other : Infer TypeId)
    (C : Inference → TypeId → Prop)
    (hother : ∀ {st}, st.Ready v own →
      InfersAt st (v ++ own) other fun T t => T.Simple t ∧ C T t)
    (ready : st.Ready v (condition.slots ++ (yes.slots ++ own))) :
    InfersAt st (v ++ (condition.slots ++ (yes.slots ++ own))) (do
      let c ← inferExpr condition
      demandBoolean c condition.line
      let yes ← inferStmt yes
      let no ← other
      let join ← fresh
      demand yes join line
      demand no join line
      return join)
      fun T t => T.IsVar t ∧ (∃ u, condition.Typed T u ∧ T.Flows u T.builtins.boolean) ∧
        (∃ u, yes.Typed T u ∧ T.Flows u t) ∧ ∃ u, C T u ∧ T.Flows u t := by
  obtain ⟨closed_c, own_y, closed_y⟩ := closed
  -- the slots of an alternative are those within it, as it declares nothing of its own
  have inner := Stmt.innerSlots_of_own own_y
  refine (hc closed_c plain.1 ready.left).bind (subset_left _ _ _) fun st₁ c at₁ typed_c => ?_
  have demanded : InfersAt st₁ [] (demandBoolean c condition.line) fun T _ =>
      T.Flows c T.builtins.boolean :=
    infersAt_demandBoolean at₁.valid condition.line (typed_c st₁ (.refl st₁)).1
  refine demanded.bind (List.nil_subset _) fun st₂ _ at₂ flows_c => ?_
  have ready₂ := (ready.right at₁).next at₂ (List.nil_subset v)
  have walk := hy (by simp [own_y]) closed_y plain.2 (inner.symm ▸ ready₂.left)
  rw [inner] at walk
  refine walk.bind (List.Subset.trans (subset_left v yes.slots own) (subset_right _ _ _))
    fun st₃ t at₃ typed_y => ?_
  refine (hother (ready₂.right at₃)).bind
    (List.Subset.trans (subset_right v yes.slots own) (subset_right _ _ _))
    fun st₄ u at₄ typed_n => ?_
  have simple_y := at₄.later.simple (typed_y st₃ (.refl st₃)).1
  refine (infersAt_fresh at₄.valid).bind (List.Subset.refl _) fun st₅ join at₅ new => ?_
  have var := new st₅ (.refl st₅)
  refine (infersAt_demand at₅.valid line (at₅.valid.lt_of_simple (at₅.later.simple simple_y))
    (at₅.valid.lt_of_isVar var)).bind (List.Subset.refl _) fun st₆ _ at₆ first => ?_
  have simple_n := (typed_n st₆ (at₅.later.trans at₆.later)).1
  refine (infersAt_demand at₆.valid line (at₆.valid.lt_of_simple simple_n)
    (at₆.valid.lt_of_isVar (at₆.later.isVar var))).bind (List.Subset.refl _)
    fun st₇ _ at₇ second => .pure at₇.valid fun T hT => ?_
  -- both alternatives were asked for in earlier states, and types are kept since
  have later₆ := at₇.later.trans hT
  have later₅ := at₆.later.trans later₆
  have later₄ := at₅.later.trans later₅
  have later₃ := at₄.later.trans later₄
  have later₂ := at₃.later.trans later₃
  exact ⟨new T later₅, ⟨c, (typed_c T (at₂.later.trans later₂)).2, flows_c T later₂⟩,
    ⟨t, (typed_y T later₃).2, later₄.simple simple_y, first T later₆⟩,
    u, (typed_n T later₄).2, later₆.simple simple_n, second T hT⟩

/-- A conditional without an alternative may return what its branch returns. -/
lemma infers_branch {condition : Expr} (hc : condition.Infers) {yes : Stmt} (hy : yes.Infers)
    (line : Line) : (Stmt.branch condition yes none line).Infers := by
  intro v st _ closed plain ready
  have slots : (Stmt.branch condition yes none line).innerSlots =
      condition.slots ++ (yes.slots ++ []) := by
    simp [Stmt.innerSlots, Stmt.innerRoles, Stmt.roles, Expr.slots, Stmt.slots]
  rw [slots] at ready ⊢
  have walk := infers_alternatives hc hy line ⟨closed.1, closed.2.1⟩ ⟨plain.1, plain.2.1⟩
    [] bottom (fun _ _ => True)
    (fun ready => (infersAt_bottom ready.valid).imp (List.Subset.refl _)
      fun _ _ _ h => ⟨h, trivial⟩)
    ready
  exact walk.imp (List.Subset.refl _) fun T t _ h =>
    ⟨h.1.simple, h.2.1, h.2.2.1, trivial⟩

/-- A conditional with an alternative returns what either branch returns. -/
lemma infers_branch_else {condition : Expr} (hc : condition.Infers) {yes no : Stmt}
    (hy : yes.Infers) (hn : no.Infers) (line : Line) :
    (Stmt.branch condition yes (some no) line).Infers := by
  intro v st _ closed plain ready
  have slots : (Stmt.branch condition yes (some no) line).innerSlots =
      condition.slots ++ (yes.slots ++ no.slots) := by
    simp [Stmt.innerSlots, Stmt.innerRoles, Stmt.roles, Expr.slots, Stmt.slots]
  rw [slots] at ready ⊢
  have inner := Stmt.innerSlots_of_own closed.2.2.1
  have walk := infers_alternatives hc hy line ⟨closed.1, closed.2.1⟩ ⟨plain.1, plain.2.1⟩
    no.slots (inferStmt no) no.Typed
      (fun ready => inner ▸ hn (by simp [closed.2.2.1]) closed.2.2.2 plain.2.2 (inner.symm ▸ ready))
    ready
  exact walk.imp (List.Subset.refl _) fun T t _ h =>
    ⟨h.1.simple, h.2.1, h.2.2.1, h.2.2.2⟩

/-- A loop may return what its body returns. -/
lemma infers_loop {condition : Expr} (hc : condition.Infers) {body : Stmt} (hb : body.Infers)
    (line : Line) : (Stmt.loop condition body line).Infers := by
  intro v st _ closed plain ready
  have slots : (Stmt.loop condition body line).innerSlots =
      condition.slots ++ (body.slots ++ []) := by
    simp [Stmt.innerSlots, Stmt.innerRoles, Stmt.roles, Expr.slots, Stmt.slots]
  rw [slots] at ready ⊢
  have walk := infers_alternatives hc hb line closed plain
    [] bottom (fun _ _ => True)
    (fun ready => (infersAt_bottom ready.valid).imp (List.Subset.refl _)
      fun _ _ _ h => ⟨h, trivial⟩)
    ready
  have run := walk.of_run (x := inferStmt (.loop condition body line)) rfl
  exact run.imp (List.Subset.refl _) fun T t _ h =>
    ⟨h.1.simple, h.2.1, h.2.2.1⟩

/-- The initializer of a variable flows into the type of its slot. -/
lemma infers_var {init : Option Expr} (h : ∀ e, init = some e → e.Infers) (slot : Slot)
    (line : Line) : (Stmt.var slot init line).Infers := by
  intro v st own closed plain ready
  have slot_sub (w : List Slot) : [slot] ⊆ v ++ w := fun s hs => by
    rw [List.mem_singleton.1 hs]
    exact List.mem_append_left _ (own (List.mem_singleton_self slot))
  cases init with
  | none =>
    refine (infersAt_slotType ready.valid slot).bind (slot_sub _) fun st₁ t at₁ _ => ?_
    exact (infersAt_bottom at₁.valid).imp (List.Subset.refl _) fun T t _ simple => ⟨simple, trivial⟩
  | some e =>
    refine (infersAt_slotType ready.valid slot).bind (slot_sub _) fun st₁ t at₁ bound => ?_
    have visible : [slot] ⊆ v := own
    have closed' : e.Closed false v :=
      Expr.Closed.mono
        (List.cons_subset.2 ⟨own (List.mem_singleton_self slot), fun _ h => h⟩) e closed
    refine (h e rfl closed' plain (ready.next at₁ visible)).bind (List.Subset.refl _)
      fun st₂ u at₂ typed => ?_
    have simple := (typed st₂ (.refl st₂)).1
    have var := (bound st₂ at₂.later).2
    refine (infersAt_demand at₂.valid line (at₂.valid.lt_of_simple simple)
      (at₂.valid.lt_of_isVar var)).bind (List.Subset.refl _) fun st₃ _ at₃ below => ?_
    refine (infersAt_bottom at₃.valid).imp (List.Subset.refl _) fun T b hT bottom => ?_
    have later₂ := at₃.later.trans hT
    exact ⟨bottom, u, t, (typed T later₂).2, (bound T (at₂.later.trans later₂)).1,
      later₂.simple simple, below T hT⟩

/-- What is returned has the type of its expression, or a fresh one where there is none. -/
lemma infers_ret {value : Option Expr} (h : ∀ e, value = some e → e.Infers) (line : Line) :
    (Stmt.ret value line).Infers := by
  intro v st _ closed plain ready
  cases value with
  | none => exact (infersAt_fresh ready.valid).imp (List.Subset.refl _) fun T t _ new =>
      ⟨new.simple, trivial⟩
  | some e => exact h e rfl closed plain ready

/-- An expression that is a statement returns nothing. -/
lemma infers_eval {e : Expr} (h : e.Infers) : (Stmt.eval e).Infers := by
  intro v st _ closed plain ready
  refine (h closed plain ready).bind (List.Subset.refl _) fun st₁ u at₁ typed => ?_
  exact (infersAt_bottom at₁.valid).imp (List.Subset.refl _) fun T t hT simple =>
    ⟨simple, u, (typed T hT).2⟩

/-- A block that is a statement returns what the block returns. -/
lemma infers_inner {body : Block} (h : body.Infers) : (Stmt.block body).Infers :=
  fun _ closed plain ready => h closed plain ready

/-- Nothing flows into a type where there are no statements. -/
lemma infers_stmts_nil : stmtInfers [] :=
  fun _ _ _ _ ready _ => .pure ready.valid fun _ _ => trivial

/-- What the first of some statements returns flows into the same type as what the others
do. -/
lemma infers_stmts_cons {s : Stmt} (h : s.Infers) {ss : List Stmt} (hss : stmtInfers ss) :
    stmtInfers (s :: ss) := by
  intro v w st join sub own closed plain ready var
  have inner : stmtInnerSlots (s :: ss) = s.innerSlots ++ stmtInnerSlots ss := List.flatMap_cons
  rw [List.flatMap_cons, List.append_subset] at own
  rw [inner] at ready ⊢
  refine (h own.1 (Stmt.Closed.mono sub s closed.1) plain.1 ready.left).bind (subset_left _ _ _)
    fun st₁ t at₁ typed => ?_
  have simple := (typed st₁ (.refl st₁)).1
  have demanded : InfersAt st₁ [] (demand t join s.line) fun T _ => T.graph.Below t join :=
    infersAt_demand at₁.valid s.line (at₁.valid.lt_of_simple simple)
      (at₁.valid.lt_of_isVar (at₁.later.isVar var))
  refine demanded.bind (List.nil_subset _) fun st₂ _ at₂ below => ?_
  refine (hss (List.append_subset.2 ⟨own.1, sub⟩) own.2 closed.2 plain.2
    ((ready.right at₁).next at₂ (List.nil_subset w)) (at₂.later.isVar (at₁.later.isVar var))).imp
    (subset_right _ _ _) fun T _ hT typeds => ?_
  have later₁ := at₂.later.trans hT
  exact ⟨⟨t, (typed T later₁).2, later₁.simple simple, below T hT⟩, typeds⟩

/-! ### Methods -/

/-- The body of a method, whose parameters have types. -/
lemma infers_body {body : Block} (h : body.Infers) (params : Option (List TypeId)) (line : Line)
    {v : List Slot} {st : Inference} (closed : body.Closed false v) (plain : body.Plain)
    (ready : st.Ready v body.slots) :
    InfersAt st (v ++ body.slots) (do
      let result ← fresh
      let returned ← inferBlock body
      demand returned result line
      return (⟨params, result⟩ : Signature))
      fun T sig => sig.params = params ∧ T.IsVar sig.result ∧
        ∃ t, body.Typed T t ∧ T.Flows t sig.result := by
  have made : InfersAt st [] fresh fun T t => T.IsVar t := infersAt_fresh ready.valid
  refine made.bind (List.nil_subset _) fun st₁ result at₁ new => ?_
  refine (h closed plain (ready.next at₁ (List.nil_subset v))).bind (List.Subset.refl _)
    fun st₂ t at₂ typed => ?_
  have simple := (typed st₂ (.refl st₂)).1
  refine (infersAt_demand at₂.valid line (at₂.valid.lt_of_simple simple)
    (at₂.valid.lt_of_isVar (new st₂ at₂.later))).bind (List.Subset.refl _)
    fun st₃ _ at₃ below => .pure at₃.valid fun T hT => ?_
  have later₂ := at₃.later.trans hT
  exact ⟨rfl, new T (at₂.later.trans later₂), t, (typed T later₂).2, later₂.simple simple,
    below T hT⟩

/-- The parameters of a method get fresh types, and its body flows into the type of its
result. -/
lemma infers_method {m : Method} (h : m.body.Infers) : m.Infers := by
  intro v st closed plain ready
  obtain ⟨name, params, names, body, line⟩ := m
  cases params with
  | none =>
    refine (infers_body h none line closed plain ready).imp (List.Subset.refl _)
      fun T sig _ ⟨same, var, returns⟩ => ?_
    obtain ⟨_, result⟩ := sig
    cases same
    refine ⟨⟨rfl, fun t ht => ?_⟩, .nil, returns⟩
    rw [List.mem_singleton.1 ht]
    exact var
  | some ps =>
    refine (infersAt_slotTypes ready.valid ps).bind (fun s hs => ?_) fun st₁ ts at₁ bound => ?_
    · exact List.mem_append_right _ (List.mem_append_left _ hs)
    refine (infers_body h (some ts) line closed plain (ready.enter at₁)).imp (fun s hs => ?_)
      fun T sig hT ⟨same, var, returns⟩ => ?_
    · simp only [Option.getD_some, List.mem_append] at hs ⊢
      tauto
    obtain ⟨_, result⟩ := sig
    cases same
    obtain ⟨slots, vars⟩ := bound T hT
    refine ⟨⟨congrArg some slots.length_eq.symm, fun t ht => ?_⟩, slots, returns⟩
    rcases List.mem_append.1 ht with ht | ht
    · exact vars t ht
    · rw [List.mem_singleton.1 ht]
      exact var

end Program

namespace Inference

variable {T T' : Inference} {s : Shape}

/-- The empty shape has no types. -/
lemma shaped_nil (T : Inference) : T.Shaped [] :=
  ⟨fun _ hm => absurd hm List.not_mem_nil, fun _ ht => absurd ht List.not_mem_nil⟩

/-- The types of a shape stay variables. -/
lemma Shaped.later (h : T.Shaped s) (later : T.Later T') : T'.Shaped s :=
  ⟨h.regular, fun t ht => later.isVar (h.vars t ht)⟩

/-- A shape is extended by the signature of a method. -/
lemma Shaped.insert (h : T.Shaped s) {m : Method} {sig : Signature} (typed : m.Typed T sig) :
    T.Shaped (s.insert m.selector sig) := by
  obtain ⟨name, params, names, body, line⟩ := m
  refine ⟨fun x hx => ?_, fun t ht => ?_⟩
  · rcases mem_insertByKey hx with rfl | hx
    · exact typed.1.1
    · exact h.regular x hx
  · obtain ⟨x, hx, ht⟩ := List.mem_flatMap.1 ht
    rcases mem_insertByKey hx with rfl | hx
    · exact typed.1.2 t ht
    · exact h.vars t (List.mem_flatMap.2 ⟨x, hx, ht⟩)

/-- The types of a shape belong to the graph. -/
lemma Shaped.issued (h : T.Shaped s) (valid : T.Valid) : ∀ t ∈ s.types, t < T.graph.size :=
  fun t ht => valid.lt_of_isVar (h.vars t ht)

end Inference

namespace Program

/-- The slots of methods are those of the first one and those of the others. -/
lemma methodSlots_eq (m : Method) (ms : List Method) :
    methodSlots (m :: ms) = (m.params.getD [] ++ m.body.slots) ++ methodSlots ms := by
  rw [methodSlots_cons, List.append_assoc]

/-- No method extends a shape by nothing. -/
lemma infers_methods_nil : methodsInfer [] :=
  fun _ _ ready shaped => .pure ready.valid fun _ hT => ⟨rfl, shaped.later hT⟩

/-- A shape is extended by one method after the other. -/
lemma infers_methods_cons {m : Method} (h : m.Infers) {ms : List Method} (hms : methodsInfer ms) :
    methodsInfer (m :: ms) := by
  intro v st s closed plain ready shaped
  rw [methodClosed_iff, List.forall_mem_cons, ← methodClosed_iff] at closed
  rw [methodPlain_iff, List.forall_mem_cons, ← methodPlain_iff] at plain
  rw [methodSlots_eq] at ready ⊢
  refine (h closed.1 plain.1 ready.left).bind (subset_left _ _ _) fun st₁ sig at₁ typed => ?_
  have shaped₁ := (shaped.later at₁.later).insert (typed st₁ (.refl st₁))
  refine (hms closed.2 plain.2 (ready.right at₁) shaped₁).imp (subset_right _ _ _)
    fun T s' hT ⟨rest, shaped'⟩ => ⟨⟨sig, typed T hT, trivial, rest⟩, shaped'⟩

/-- No constructor extends a shape by nothing. -/
lemma infers_constructors_nil : constructorsInfer [] :=
  fun _ _ ready _ shaped => .pure ready.valid fun _ hT => ⟨rfl, shaped.later hT⟩

/-- A shape is extended by one constructor after the other. -/
lemma infers_constructors_cons {m : Method} (h : m.Infers) {ms : List Method}
    (hms : constructorsInfer ms) : constructorsInfer (m :: ms) := by
  intro v st s instances closed plain ready var shaped
  rw [methodClosed_iff, List.forall_mem_cons, ← methodClosed_iff] at closed
  rw [methodPlain_iff, List.forall_mem_cons, ← methodPlain_iff] at plain
  rw [methodSlots_eq] at ready ⊢
  refine (h closed.1 plain.1 ready.left).bind (subset_left _ _ _) fun st₁ sig at₁ typed => ?_
  have typed₁ := typed st₁ (.refl st₁)
  have result : st₁.IsVar sig.result := by
    cases m
    exact typed₁.1.2 _ (List.mem_append_right _ (List.mem_singleton_self _))
  have demanded : InfersAt st₁ [] (demandInstance instances sig.result m.line) fun T _ =>
      T.graph.Below instances sig.result :=
    infersAt_demandInstance at₁.valid m.line (at₁.later.isVar var) result
  refine demanded.bind (List.nil_subset _) fun st₂ _ at₂ below => ?_
  have shaped₂ := ((shaped.later at₁.later).insert typed₁).later at₂.later
  refine (hms closed.2 plain.2 ((ready.right at₁).next at₂ (List.nil_subset v))
    (at₂.later.isVar (at₁.later.isVar var)) shaped₂).imp (subset_right _ _ _)
    fun T s' hT ⟨rest, shaped'⟩ => ?_
  exact ⟨⟨sig, typed T (at₂.later.trans hT), below T hT, rest⟩, shaped'⟩

/-! ### Classes -/

/-- What is visible in the methods of instances. -/
def ClassDecl.inside (c : ClassDecl) (v : List Slot) : List Slot :=
  c.instanceSlots ++ (c.staticSlots ++ v)

/-- The three tables of a class are closed in what is visible inside of it. -/
lemma ClassDecl.Closed.inside {c : ClassDecl} {v : List Slot} (h : c.Closed false v) :
    methodClosed false (c.inside v) c.methods ∧ methodClosed false (c.inside v) c.staticMethods ∧
      methodClosed false (c.inside v) c.constructors := by
  cases c
  exact ⟨h.2.2, methodClosed_mono (List.subset_append_right _ _) _ h.2.1, h.1⟩

/-- What is visible inside of a class, and what its methods declare, is visible around it or
declared in it. -/
lemma ClassDecl.inside_subset (c : ClassDecl) (v : List Slot) :
    c.inside v ++ c.bodySlots ⊆ v ++ c.slots := by
  rw [ClassDecl.slots_eq]
  intro s hs
  simp only [ClassDecl.inside, ClassDecl.instanceSlots, ClassDecl.staticSlots, ClassDecl.bodySlots,
    List.mem_append, List.mem_cons] at hs ⊢
  tauto

/-- Inside of a class there is room for what its methods declare. -/
lemma ClassDecl.room_inside {c : ClassDecl} {v : List Slot} (h : Room v c.slots) :
    Room (c.inside v) c.bodySlots := by
  refine h.of_count fun s => ?_
  rw [ClassDecl.slots_eq]
  simp only [ClassDecl.inside, ClassDecl.instanceSlots, ClassDecl.staticSlots, ClassDecl.bodySlots,
    List.count_append, List.count_cons]
  omega

/-- Both receivers of a class are visible inside of it. -/
lemma ClassDecl.receivers_subset (c : ClassDecl) (v : List Slot) :
    [c.staticReceiver, c.receiver] ⊆ c.inside v := by
  intro s hs
  simp only [ClassDecl.inside, ClassDecl.instanceSlots, ClassDecl.staticSlots, List.mem_append,
    List.mem_cons, List.not_mem_nil, or_false] at hs ⊢
  tauto

/-- The types of a class, after those of its receivers are known. -/
def inferMembers (c : ClassDecl) (statics instances : TypeId) : Infer TypeId := do
  let onInstance ← inferMethods [] c.methods
  let onClass ← inferMethods [] c.staticMethods
  let offered ← inferConstructors instances onClass c.constructors
  let I ← shape onInstance
  let S ← shape offered
  demand I instances c.line
  demand S statics c.line
  return statics

/-- A class is typed from its receivers to its members. -/
lemma inferClass_eq (c : ClassDecl) :
    inferClass c = receivers c >>= fun r => inferMembers c r.1 r.2 := by
  cases c
  rfl

/-- The members of a class fit its receivers, whose types are known. -/
lemma infers_members {c : ClassDecl} (hm : methodsInfer c.methods)
    (hs : methodsInfer c.staticMethods) (hc : constructorsInfer c.constructors) {v : List Slot}
    {st : Inference} (closed : methodClosed false v c.methods ∧
      methodClosed false v c.staticMethods ∧ methodClosed false v c.constructors)
    (plain : c.Plain) (ready : st.Ready v c.bodySlots) {statics instances : TypeId}
    (static_slot : st.slot? c.staticReceiver = some statics)
    (slot : st.slot? c.receiver = some instances) :
    InfersAt st (v ++ c.bodySlots) (inferMembers c statics instances) fun T t =>
      t = statics ∧ ∃ S I, c.Typed T S I := by
  have var := ready.valid.slots slot
  refine (hm closed.1 ?_ ready.left (shaped_nil st)).bind (subset_left _ _ _)
    fun st₂ onInstance at₂ typed_m => ?_
  · cases c
    exact plain.2.2.2
  have ready₂ := ready.right at₂
  refine (hs closed.2.1 ?_ ready₂.left (shaped_nil st₂)).bind
    (List.Subset.trans (subset_left _ _ _) (subset_right _ _ _)) fun st₃ onClass at₃ typed_s => ?_
  · cases c
    exact plain.2.1.2
  refine (hc closed.2.2 ?_ (ready₂.right at₃) (at₃.later.isVar (at₂.later.isVar var))
    (typed_s st₃ (.refl st₃)).2).bind (List.Subset.trans (subset_right _ _ _) (subset_right _ _ _))
    fun st₄ offered at₄ typed_c => ?_
  · cases c
    exact plain.1.2
  have shaped_m := (typed_m st₄ (at₃.later.trans at₄.later)).2
  refine (infersAt_shape at₄.valid shaped_m.regular (shaped_m.issued at₄.valid)).bind
    (List.Subset.refl _) fun st₅ I at₅ node_I => ?_
  have shaped_c := (typed_c st₅ at₅.later).2
  refine (infersAt_shape at₅.valid shaped_c.regular (shaped_c.issued at₅.valid)).bind
    (List.Subset.refl _) fun st₆ S at₆ node_S => ?_
  have later₆ : st.Later st₆ :=
    at₂.later.trans (at₃.later.trans (at₄.later.trans (at₅.later.trans at₆.later)))
  have instances₆ := at₆.valid.slots (later₆.slots slot)
  refine (infersAt_demand at₆.valid c.line (TypeGraph.node?_lt (node_I st₆ at₆.later))
    (at₆.valid.lt_of_isVar instances₆)).bind (List.Subset.refl _) fun st₇ _ at₇ below_I => ?_
  have statics₇ := at₇.valid.slots (at₇.later.slots (later₆.slots static_slot))
  refine (infersAt_demand at₇.valid c.line (TypeGraph.node?_lt (node_S st₇ at₇.later))
    (at₇.valid.lt_of_isVar statics₇)).bind (List.Subset.refl _)
    fun st₈ _ at₈ below_S => .pure at₈.valid fun T hT => ?_
  -- everything known of the states between holds in the last of them
  have later₇' := at₈.later.trans hT
  have later₆' := at₇.later.trans later₇'
  have later₅' := at₆.later.trans later₆'
  have later₄' := at₅.later.trans later₅'
  have later₃' := at₄.later.trans later₄'
  -- the receivers have the types that they had to begin with
  have static_slot' := (later₆.trans later₆').slots static_slot
  have slot' := (later₆.trans later₆').slots slot
  have node_S' := node_S T later₆'
  have node_I' := node_I T later₅'
  have below_I' := below_I T later₇'
  have members_m := (typed_m T (at₃.later.trans later₃')).1
  have members_s := (typed_s T later₃').1
  have members_c := (typed_c T later₄').1
  refine ⟨rfl, S, I, ?_⟩
  cases c
  exact ⟨statics, instances, onInstance, onClass, offered, ⟨static_slot', node_S', below_S T hT⟩,
    ⟨slot', node_I', below_I'⟩, ⟨plain.2.2.1, members_m⟩, ⟨plain.2.1.1, members_s⟩, plain.1.1,
    members_c⟩

/-- A class is given the type of its static receiver. -/
lemma infers_class {c : ClassDecl} (hm : methodsInfer c.methods) (hs : methodsInfer c.staticMethods)
    (hc : constructorsInfer c.constructors) : c.Infers := by
  intro v st closed plain valid free room
  rw [inferClass_eq]
  have ready : st.Ready (c.inside v) c.bodySlots := ⟨valid, free, c.room_inside room⟩
  have sub := c.receivers_subset v
  refine (infersAt_receivers valid c).bind
    (List.Subset.trans (List.subset_append_of_subset_left _ sub) (c.inside_subset v))
    fun st₁ r at₁ known => ?_
  have known₁ := known st₁ (.refl st₁)
  refine (infers_members hm hs hc closed.inside plain (ready.next at₁ sub) known₁.1.1
    known₁.2.1).imp (c.inside_subset v) fun T t hT ⟨same, typed⟩ => ?_
  have known' := known T hT
  exact same ▸ ⟨IsVar.simple known'.1.2, known'.1.1, typed⟩

/-! ### Blocks -/

/-- The receivers of the classes of a block. -/
def receiverSlots (cs : List (Slot × ClassDecl)) : List Slot :=
  cs.flatMap fun c => [c.2.staticReceiver, c.2.receiver]

/-- The slot of a class has the type of its static receiver. -/
lemma infersAt_declareClasses {cs : List (Slot × ClassDecl)} {st : Inference} (valid : st.Valid)
    (free : st.Free (cs.map Prod.fst)) (room : Room (receiverSlots cs) (cs.map Prod.fst)) :
    InfersAt st (cs.map Prod.fst ++ receiverSlots cs) (declareClasses cs) fun T _ =>
      ∀ c ∈ cs, T.slot? c.1 = T.slot? c.2.staticReceiver := by
  induction cs generalizing st with
  | nil => exact .pure valid fun T _ c hc => absurd hc List.not_mem_nil
  | cons c cs ih =>
    obtain ⟨s, c⟩ := c
    have receivers_sub : [c.staticReceiver, c.receiver] ⊆ receiverSlots ((s, c) :: cs) :=
      List.subset_append_left _ _
    have apart (t : Slot) (ht : t ∈ ((s, c) :: cs).map Prod.fst) :
        t ∉ [c.staticReceiver, c.receiver] :=
      fun h => not_mem_of_room room ht (receivers_sub h)
    refine (infersAt_receivers valid c).bind (List.subset_append_of_subset_right _ receivers_sub)
      fun st₁ r at₁ known => ?_
    obtain ⟨statics, instances⟩ := r
    have known₁ := known st₁ (.refl st₁)
    have free₁ := at₁.free free apart
    refine (infersAt_bind at₁.valid (free₁ s (List.mem_cons_self ..)) known₁.1.2).bind
      (fun x hx => ?_) fun st₂ _ at₂ bound => ?_
    · rw [List.mem_singleton.1 hx]
      exact List.mem_append_left _ (List.mem_cons_self ..)
    -- no other class of the scope has this slot, as its slots are all apart
    have distinct (t : Slot) (ht : t ∈ cs.map Prod.fst) : t ∉ [s] := by
      intro h
      have once := room t
      have := List.count_pos_iff.2 ht
      simp only [List.mem_singleton] at h
      simp only [List.map_cons, List.count_cons, h, beq_self_eq_true, if_true] at once this
      omega
    have free₂ : st₂.Free (cs.map Prod.fst) :=
      at₂.free (free₁.subset (List.subset_cons_self _ _)) distinct
    have room' : Room (receiverSlots cs) (cs.map Prod.fst) := by
      refine room.of_count fun t => ?_
      simp only [receiverSlots, List.flatMap_cons, List.count_append, List.map_cons,
        List.count_cons]
      omega
    refine (ih at₂.valid free₂ room').imp (fun x hx => ?_) fun T _ hT rest => ?_
    · simp only [receiverSlots, List.flatMap_cons, List.map_cons, List.mem_append, List.mem_cons]
        at hx ⊢
      tauto
    · refine List.forall_mem_cons.2 ⟨?_, rest⟩
      exact (bound T hT).trans (known T (at₂.later.trans hT)).1.1.symm

/-- No classes need no types. -/
lemma infers_classes_nil : classInfers [] :=
  fun _ _ valid _ _ => .pure valid fun _ _ _ hc => absurd hc List.not_mem_nil

/-- The receivers of classes and what their methods declare are declared within
them. -/
lemma count_innerSlots (cs : List (Slot × ClassDecl)) (s : Slot) :
    (receiverSlots cs).count s + (cs.flatMap fun c => c.2.bodySlots).count s ≤
      (Program.innerSlots cs).count s := by
  induction cs with
  | nil => exact Nat.le_refl _
  | cons c cs ih =>
    rw [innerSlots_cons, ClassDecl.slots_eq]
    simp only [receiverSlots, List.flatMap_cons, List.count_append, List.count_cons,
      List.count_nil, ClassDecl.bodySlots] at ih ⊢
    omega

/-- The receivers of some classes and what their methods declare are declared within them. -/
lemma mem_innerSlots {cs : List (Slot × ClassDecl)} {s : Slot}
    (h : s ∈ receiverSlots cs ∨ s ∈ cs.flatMap fun c => c.2.bodySlots) :
    s ∈ Program.innerSlots cs := by
  have := count_innerSlots cs s
  refine List.count_pos_iff.1 ?_
  rcases h with h | h
  · have := List.count_pos_iff.2 h
    omega
  · have := List.count_pos_iff.2 h
    omega

/-- Classes are given types one after the other. -/
lemma infers_classes_cons {c : Slot × ClassDecl} (h : c.2.Infers) {cs : List (Slot × ClassDecl)}
    (hcs : classInfers cs) : classInfers (c :: cs) := by
  intro v st closed plain valid free room
  rw [innerSlots_cons] at room ⊢
  rw [List.flatMap_cons] at free
  have room_c : Room v c.2.slots := room.of_count fun s => by
    rw [List.count_append]
    omega
  have room_cs : Room v (Program.innerSlots cs) := room.of_count fun s => by
    rw [List.count_append]
    omega
  have apart : Room (v ++ c.2.slots) (Program.innerSlots cs) := room.of_count fun s => by
    simp only [List.count_append]
    omega
  refine (h closed.1 plain.1 valid (free.subset (List.subset_append_left _ _)) room_c).bind
    (subset_left _ _ _) fun st₁ t at₁ typed => ?_
  have free₁ := at₁.free (free.subset (List.subset_append_right _ _)) fun s hs =>
    not_mem_of_room apart (mem_innerSlots (.inr hs))
  refine (hcs closed.2 plain.2 at₁.valid free₁ room_cs).imp (subset_right _ _ _)
    fun T _ hT rest => ?_
  exact List.forall_mem_cons.2 ⟨(typed T hT).2.2, rest⟩

/-- Classes fit their types if each one does. -/
lemma classTyped_iff {T : Inference} {cs : List (Slot × ClassDecl)} :
    classTyped T cs ↔ ∀ c ∈ cs, (∃ S I, c.2.Typed T S I) ∧
      T.slot? c.1 = T.slot? c.2.staticReceiver := by
  induction cs with
  | nil => simp only [classTyped, List.not_mem_nil, false_imp_iff, implies_true]
  | cons c cs ih => simp only [classTyped, ih, List.forall_mem_cons, and_assoc]

/-- The slots of statements are the variables that they declare and the slots within them. -/
lemma count_stmtSlots (ss : List Stmt) (s : Slot) :
    (stmtSlots ss).count s = (ss.flatMap Stmt.own).count s + (stmtInnerSlots ss).count s := by
  rw [stmtSlots, count_stmtRoles, stmtInnerRoles, List.map_flatMap]
  rfl

/-- A block is given the type of what its statements return, after its classes. -/
lemma infers_block {b : Block} (hcs : classInfers b.classes) (hss : stmtInfers b.statements) :
    b.Infers := by
  intro v st closed plain ready
  obtain ⟨ss, names, cs⟩ := b
  rw [Block.slots_eq] at ready ⊢
  -- what is declared around the statements, and around the bodies of the classes
  let w : List Slot := ss.flatMap Stmt.own ++ (cs.map Prod.fst ++ v)
  let all : List Slot := w ++ Program.innerSlots cs
  have room_inner : Room w (Program.innerSlots cs) := by
    refine ready.room.of_count fun s => ?_
    have := count_stmtSlots ss s
    simp only [w, List.count_append]
    omega
  -- each slot is declared once in the block, so those of the statements are new
  have room_stmts : Room all (stmtInnerSlots ss) := by
    refine ready.room.of_count fun s => ?_
    have := count_stmtSlots ss s
    simp only [all, w, List.count_append]
    omega
  have room_w : Room w (stmtInnerSlots ss) := by
    refine room_stmts.of_count fun s => ?_
    simp only [all, List.count_append]
    omega
  have room_classes : Room (receiverSlots cs) (cs.map Prod.fst) := by
    refine ready.room.of_count fun s => ?_
    have := count_innerSlots cs s
    simp only [List.count_append]
    omega
  have room_bodies : Room (cs.map Prod.fst ++ receiverSlots cs)
      (cs.flatMap fun c => c.2.bodySlots) := by
    refine ready.room.of_count fun s => ?_
    have := count_innerSlots cs s
    simp only [List.count_append]
    omega
  have stmts_sub : stmtInnerSlots ss ⊆ stmtSlots ss := by
    intro s hs
    have := count_stmtSlots ss s
    have := List.count_pos_iff.2 hs
    exact List.count_pos_iff.1 (by omega)
  have declared_sub : cs.map Prod.fst ++ receiverSlots cs ⊆ all := by
    intro s hs
    simp only [all, w, List.mem_append] at hs ⊢
    rcases hs with hs | hs
    · exact .inl (.inr (.inl hs))
    · exact .inr (mem_innerSlots (.inl hs))
  have own_sub : ss.flatMap Stmt.own ⊆ stmtSlots ss := by
    intro s hs
    have := count_stmtSlots ss s
    have := List.count_pos_iff.2 hs
    exact List.count_pos_iff.1 (by omega)
  have all_sub : all ⊆ v ++ (cs.map Prod.fst ++ (Program.innerSlots cs ++ stmtSlots ss)) := by
    intro s hs
    simp only [all, w, List.mem_append] at hs ⊢
    rcases hs with (hs | hs | hs) | hs
    · exact .inr (.inr (.inr (own_sub hs)))
    · exact .inr (.inl hs)
    · exact .inl hs
    · exact .inr (.inr (.inl hs))
  -- first the classes themselves, then their bodies, and the statements last
  have free_classes : st.Free (cs.map Prod.fst) :=
    ready.free.subset (List.subset_append_left _ _)
  refine (infersAt_declareClasses ready.valid free_classes room_classes).bind
    (List.Subset.trans declared_sub all_sub) fun st₁ _ at₁ declared => ?_
  have free_bodies : st₁.Free (cs.flatMap fun c => c.2.bodySlots) := by
    refine at₁.free (ready.free.subset fun s hs => ?_) fun s hs => not_mem_of_room room_bodies hs
    exact List.mem_append_right _ (List.mem_append_left _ (mem_innerSlots (.inr hs)))
  refine (hcs closed.2 plain.2 at₁.valid free_bodies room_inner).bind all_sub
    fun st₂ _ at₂ typed => ?_
  have at₂' : st.Leads all st₂ := (at₁.mono declared_sub).trans at₂
  -- the type of what is returned is made before the statements are asked for theirs
  have made : InfersAt st₂ [] fresh fun T t => T.IsVar t := infersAt_fresh at₂.valid
  refine made.bind (List.nil_subset _) fun st₃ join at₃ new => ?_
  have free_stmts : st₂.Free (stmtInnerSlots ss) := by
    refine at₂'.free (ready.free.subset fun s hs => ?_) fun s hs => not_mem_of_room room_stmts hs
    exact List.mem_append_right _ (List.mem_append_right _ (stmts_sub hs))
  have ready₃ : st₃.Ready w (stmtInnerSlots ss) :=
    Ready.next ⟨at₂.valid, free_stmts, room_w⟩ at₃ (List.nil_subset w)
  refine (hss (List.subset_append_right _ _) (List.subset_append_left _ _) closed.1 plain.1 ready₃
    (new st₃ (.refl st₃))).bind (fun s hs => ?_) fun st₄ _ at₄ typeds =>
    .pure at₄.valid fun T hT => ?_
  · rcases List.mem_append.1 hs with hs | hs
    · exact all_sub (List.mem_append_left _ hs)
    · exact List.mem_append_right _
        (List.mem_append_right _ (List.mem_append_right _ (stmts_sub hs)))
  have later₃ := at₄.later.trans hT
  have later₂ := at₃.later.trans later₃
  refine ⟨IsVar.simple (new T later₃), typeds T hT, classTyped_iff.2 fun c hc => ?_⟩
  exact ⟨typed T later₂ c hc, declared T (at₂.later.trans later₂) c hc⟩

end Program

/-! ### The walk -/

mutual

/-- Every expression is given a type. -/
theorem infers_expr : (e : Expr) → e.Infers
  | .assign target value line => infers_assign (infers_expr value) target line
  | .call receiver name none line => infers_getter (infers_expr receiver) name line
  | .call receiver name (some es) line =>
    infers_call (infers_expr receiver) (infers_exprs es) name line
  | .literal value line => infers_literal value line
  | .read slot line => infers_read slot line
  | .logical _ _ _ _ => fun _ plain _ => nomatch plain
  | .cls decl => infers_cls (infers_classDecl decl)

/-- Expressions are given types, one after the other. -/
theorem infers_exprs : (es : List Expr) → exprInfers es
  | [] => infers_nil
  | e :: es => infers_cons (infers_expr e) (infers_exprs es)

/-- What a statement returns is given a type. -/
theorem infers_stmt : (s : Stmt) → s.Infers
  | .block body => infers_inner (infers_blockDecl body)
  | .branch condition yes none line => infers_branch (infers_expr condition) (infers_stmt yes) line
  | .branch condition yes (some no) line =>
    infers_branch_else (infers_expr condition) (infers_stmt yes) (infers_stmt no) line
  | .loop condition body line => infers_loop (infers_expr condition) (infers_stmt body) line
  | .var slot none line => infers_var (fun _ h => by cases h) slot line
  | .var slot (some e) line =>
    infers_var (fun _ h => Option.some.inj h ▸ infers_expr e) slot line
  | .ret none line => infers_ret (fun _ h => by cases h) line
  | .ret (some e) line => infers_ret (fun _ h => Option.some.inj h ▸ infers_expr e) line
  | .eval e => infers_eval (infers_expr e)

/-- What statements return flows into one type. -/
theorem infers_stmts : (ss : List Stmt) → stmtInfers ss
  | [] => infers_stmts_nil
  | s :: ss => infers_stmts_cons (infers_stmt s) (infers_stmts ss)

/-- What a block returns is given a type. -/
theorem infers_blockDecl : (b : Block) → b.Infers
  | ⟨ss, _, cs⟩ => infers_block (infers_classDecls cs) (infers_stmts ss)

/-- The classes of a block are given types. -/
theorem infers_classDecls : (cs : List (Slot × ClassDecl)) → classInfers cs
  | [] => infers_classes_nil
  | (_, c) :: cs => infers_classes_cons (infers_classDecl c) (infers_classDecls cs)

/-- A class and its instances are given types. -/
theorem infers_classDecl : (c : ClassDecl) → c.Infers
  | ⟨_, _, _, _, constructors, staticMethods, methods, _, _⟩ =>
    infers_class (infers_methods methods) (infers_methods staticMethods)
      (infers_constructors constructors)

/-- The methods of a class are given signatures. -/
theorem infers_methods : (ms : List Method) → methodsInfer ms
  | [] => infers_methods_nil
  | ⟨_, _, _, body, _⟩ :: ms =>
    infers_methods_cons (infers_method (infers_blockDecl body)) (infers_methods ms)

/-- The constructors of a class are given signatures. -/
theorem infers_constructors : (ms : List Method) → constructorsInfer ms
  | [] => infers_constructors_nil
  | ⟨_, _, _, body, _⟩ :: ms =>
    infers_constructors_cons (infers_method (infers_blockDecl body)) (infers_constructors ms)

end

/-! ### Whole programs -/

/-- Every global gets a type. -/
lemma infersAt_globals {globals : List (Slot × String)} {st : Inference} (valid : st.Valid)
    (free : st.Free (globals.map Prod.fst)) (nodup : (globals.map Prod.fst).Nodup) :
    InfersAt st (globals.map Prod.fst) (inferGlobals [] globals) fun _ _ => True := by
  induction globals generalizing st with
  | nil => exact .pure valid fun _ _ => trivial
  | cons g globals ih =>
    obtain ⟨s, name⟩ := g
    obtain ⟨fresh_s, nodup'⟩ := List.nodup_cons.1 nodup
    have made : InfersAt st [] fresh fun T t => T.IsVar t := infersAt_fresh valid
    refine made.bind (List.nil_subset _) fun st₁ t at₁ new => ?_
    have free₁ := at₁.free free fun _ _ => List.not_mem_nil
    refine (infersAt_bind at₁.valid (free₁ s (List.mem_cons_self ..)) (new st₁ (.refl st₁))).bind
      (fun x hx => by rw [List.mem_singleton.1 hx]; exact List.mem_cons_self ..)
      fun st₂ _ at₂ _ => ?_
    have free₂ : st₂.Free (globals.map Prod.fst) :=
      at₂.free (free₁.subset (List.subset_cons_self _ _)) fun x hx h =>
        fresh_s (List.mem_singleton.1 h ▸ hx)
    exact (ih at₂.valid free₂ nodup').imp (List.subset_cons_self _ _) fun _ _ _ h => h

/-- Without a host and without connectives, inference makes the whole program well
typed. -/
theorem inferScript_typed {script : Script} (nodup : script.slots.Nodup)
    (closed : script.root.Closed false (script.globals.map Prod.fst))
    (plain : script.root.Plain) :
    (inferScript [] script).Valid ∧ ∃ t, script.root.Typed (inferScript [] script) t := by
  let globals := script.globals.map Prod.fst
  have slots : script.slots = globals ++ script.root.slots := by
    simp [globals, Script.slots, Script.roles, Block.slots, Function.comp_def]
  have room : Room globals script.root.slots := by
    intro s
    have once := List.nodup_iff_count_le_one.1 nodup s
    rwa [slots, List.count_append] at once
  have distinct : globals.Nodup := by
    rw [slots] at nodup
    exact (List.nodup_append.1 nodup).1
  have free (ss : List Slot) : Inference.start.Free ss := fun _ _ => rfl
  have whole : InfersAt .start (globals ++ script.root.slots) (do
      inferGlobals [] script.globals
      let _ ← inferBlock script.root) fun T _ => ∃ t, script.root.Typed T t := by
    refine (infersAt_globals valid_start (free _) distinct).bind (List.subset_append_left _ _)
      fun st₁ _ at₁ _ => ?_
    have ready : st₁.Ready globals script.root.slots :=
      ⟨at₁.valid, at₁.free (free _) fun s hs => not_mem_of_room room hs, room⟩
    refine (infers_blockDecl script.root closed plain ready).bind (List.Subset.refl _)
      fun st₂ t at₂ typed => .pure at₂.valid fun T hT => ⟨t, (typed T hT).2⟩
  exact ⟨whole.leads.valid, whole.holds _ (.refl _)⟩

end Ember
