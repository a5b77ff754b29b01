/-
The ways out of a body: its returns, and its end.

* `Program.Stmt.leaves`, `Program.Block.leaves`: the states at the returns, in the order in
  which a walk comes to them, those in dead code among them;
* `Program.Block.waysOut`: the states at the returns and at the end of a body;
* `Walk.Straight`: a walk goes on without a return, and its way stays open;
* `Walk.LeavesBy`: what a walk notes of the returns that it comes by. It goes on, or has
  come by a return that can be reached;
* `assignedOnExit_exact`: what is assigned on every way out is what is assigned on each of
  the ways that can be reached, and there is such a way.
-/
import Mathlib
import Ember.Proofs.Flow.Tracking

namespace Ember

open Program

/-! ### The states at the returns -/

namespace Program

/-- A walk enters a block, whose classes are analysed first. -/
def Block.entered (ctx : FlowContext) : Block → Walk → Walk
  | ⟨_, _, classes⟩, w =>
    if ctx.inDepth then { w with found := w.found ++ classFindings ctx classes } else w

mutual

/-- The states at the returns within a statement. -/
def Stmt.leaves (ctx : FlowContext) : Stmt → Walk → List FlowState
  | .block body, w => body.leaves ctx w
  | .branch condition yes no _, w =>
    let w := condition.flow ctx w
    yes.leaves ctx w ++
      (match no with
        | none => []
        | some s => s.leaves ctx ((yes.flow ctx w).resume w.state))
  | .loop condition body _, w => body.leaves ctx (condition.flow ctx w)
  | .ret none _, w => [w.state]
  | .ret (some e) _, w => [(e.flow ctx w).state]
  | .var _ _ _, _ | .eval _, _ => []

/-- The states at the returns within statements. -/
def stmtLeaves (ctx : FlowContext) : List Stmt → Walk → List FlowState
  | [], _ => []
  | s :: ss, w => s.leaves ctx w ++ stmtLeaves ctx ss (s.flow ctx w)

/-- The states at the returns within a block. -/
def Block.leaves (ctx : FlowContext) : Block → Walk → List FlowState
  | b@⟨statements, _, _⟩, w => stmtLeaves ctx statements (b.entered ctx w)

end

/-- The states at the returns of a body and at its end. -/
def Block.waysOut (ctx : FlowContext) (body : Block) (entry : List Slot) : List FlowState :=
  body.leaves ctx (.start entry) ++ [(body.flow ctx (.start entry)).state]

end Program

/-! ### Walks without a return -/

namespace Walk

variable {ctx : FlowContext} {w w₁ w₂ : Walk}

/-- A walk goes on without a return, and its way stays as open as it is. -/
structure Straight (w w' : Walk) : Prop where
  exit : w'.exit = w.exit
  reachable : w'.state.reachable = w.state.reachable

lemma Straight.refl (w : Walk) : w.Straight w := ⟨rfl, rfl⟩

/-- Walks without a return can be joined. -/
lemma Straight.trans (h : w.Straight w₁) (h' : w₁.Straight w₂) : w.Straight w₂ :=
  ⟨h'.exit.trans h.exit, h'.reachable.trans h.reachable⟩

lemma Level.straight (h : w₁.Level w) : w.Straight w₁ := ⟨h.exit, by rw [h.state]⟩

/-- An assignment is no return. -/
lemma Straight.assign (h : w.Straight w₁) (s : Slot) : w.Straight (w₁.assign s) :=
  ⟨h.exit, h.reachable⟩

/-- Neither is the call of a method of the own class. -/
lemma straight_callOwn (ctx : FlowContext) (w : Walk) (method : Selector) (line : Line) :
    w.Straight (w.callOwn ctx method line) := by
  refine ⟨?_, reachable_callOwn ctx w method line⟩
  rw [callOwn]
  split
  · rfl
  · dsimp only
    split <;> exact exit_readAll ..

end Walk

namespace Program

variable (ctx : FlowContext)

mutual

/-- A walk over an expression comes by no return. -/
lemma Expr.straight_flow : (e : Expr) → (w : Walk) → w.Straight (e.flow ctx w)
  | .assign target value _, w => (Expr.straight_flow value w).assign target
  | .call receiver name arguments line, w => by
    have before : w.Straight (exprFlow ctx (arguments.getD []) (receiver.flow ctx w)) := by
      cases arguments with
      | none => simpa [exprFlow] using Expr.straight_flow receiver w
      | some es => exact (Expr.straight_flow receiver w).trans (straight_exprFlow es _)
    rcases Expr.flow_call ctx receiver name arguments line w with ⟨-, own⟩ | ⟨-, other⟩
    · rw [own]
      exact before.trans (Walk.straight_callOwn ..)
    · rw [other]
      exact before
  | .literal _ _, w => .refl w
  | .read s line, w => (Expr.level_flow_read ctx s line w).straight
  | .logical _ left right _, w =>
    have first := Expr.straight_flow left w
    ⟨(first.trans (Expr.straight_flow right _)).exit, first.reachable⟩
  | .cls decl, w => (Expr.level_flow_cls ctx decl w).straight

/-- A walk over expressions comes by no return. -/
lemma straight_exprFlow : (es : List Expr) → (w : Walk) → w.Straight (exprFlow ctx es w)
  | [], w => .refl w
  | e :: es, w => (Expr.straight_flow e w).trans (straight_exprFlow es _)

end

end Program

/-! ### Walks that come by returns -/

namespace Walk

variable {w w₁ w₂ : Walk} {sts sts' : List FlowState}

/-- A walk comes by returns where it stands in the given states: what it notes of the ways
out of the body is what each of them allows, and unless one of them can be reached its
way stays open. -/
structure LeavesBy (w w' : Walk) (sts : List FlowState) : Prop where
  exit : ∀ x u, w'.exit.Allows x u ↔ w.exit.Allows x u ∨ ∃ st ∈ sts, st.Allows x u
  goesOn : w.state.reachable = true →
    w'.state.reachable = true ∨ ∃ st ∈ sts, st.reachable = true

/-- A walk without a return leaves by no way. -/
lemma Straight.leavesBy (h : w.Straight w₁) : w.LeavesBy w₁ [] where
  exit x u := by simp [h.exit]
  goesOn open_ := .inl (h.reachable.trans open_)

/-- One part of a body after another. -/
lemma LeavesBy.andThen (h : w.LeavesBy w₁ sts) (h' : w₁.LeavesBy w₂ sts') :
    w.LeavesBy w₂ (sts ++ sts') where
  exit x u := by
    simp only [h'.exit, h.exit, List.mem_append, or_and_right, exists_or, or_assoc]
  goesOn open_ := by
    simp only [List.mem_append, or_and_right, exists_or]
    rcases h.goesOn open_ with on | left
    · exact (h'.goesOn on).imp_right .inr
    · exact .inr (.inl left)

/-- A return. -/
lemma leavesBy_leave (w : Walk) : w.LeavesBy w.leave [w.state] where
  exit x u := by simp [leave, FlowState.allows_join]
  goesOn open_ := .inr ⟨w.state, List.mem_singleton_self _, open_⟩

/-- Two ways from one state, which come together again. -/
lemma LeavesBy.either (h : w.LeavesBy w₁ sts) (h' : (w₁.resume w.state).LeavesBy w₂ sts') :
    w.LeavesBy (w₂.resume (w₁.state.join w₂.state)) (sts ++ sts') where
  exit x u := by
    have both := h'.exit x u
    simp only [resume, h.exit] at both ⊢
    simp only [both, List.mem_append, or_and_right, exists_or, or_assoc]
  goesOn open_ := by
    simp only [List.mem_append, or_and_right, exists_or]
    refine (h.goesOn open_).imp (fun on => ?_) .inl
    exact (FlowState.join_weakens_left w₁.state w₂.state on).1

/-- A way that need not be taken. -/
lemma LeavesBy.skip (h : w.LeavesBy w₁ sts) : w.LeavesBy (w₁.resume w.state) sts where
  exit := h.exit
  goesOn := .inl

end Walk

namespace Program

variable (ctx : FlowContext)

mutual

/-- A walk over a statement notes the returns within it. -/
lemma Stmt.leavesBy : (s : Stmt) → (w : Walk) → w.LeavesBy (s.flow ctx w) (s.leaves ctx w)
  | .block body, w => by
    rw [Stmt.leaves]
    exact Block.leavesBy body w
  | .branch condition yes none _, w => by
    have chosen := (Expr.straight_flow ctx condition w).leavesBy
    have first := Stmt.leavesBy yes (condition.flow ctx w)
    rw [Stmt.leaves]
    exact chosen.andThen (first.either (Walk.Straight.refl _).leavesBy)
  | .branch condition yes (some no) _, w => by
    have chosen := (Expr.straight_flow ctx condition w).leavesBy
    have first := Stmt.leavesBy yes (condition.flow ctx w)
    rw [Stmt.leaves]
    exact chosen.andThen (first.either (Stmt.leavesBy no _))
  | .loop condition body _, w => by
    have tested := (Expr.straight_flow ctx condition w).leavesBy
    rw [Stmt.leaves]
    exact tested.andThen (Stmt.leavesBy body (condition.flow ctx w)).skip
  | .var s none _, w => by
    rw [Stmt.leaves]
    exact Walk.Straight.leavesBy ⟨rfl, rfl⟩
  | .var s (some e) _, w => by
    rw [Stmt.leaves]
    exact ((Expr.straight_flow ctx e w).assign s).leavesBy
  | .ret none _, w => by
    rw [Stmt.leaves]
    exact w.leavesBy_leave
  | .ret (some e) _, w => by
    rw [Stmt.leaves]
    exact (Expr.straight_flow ctx e w).leavesBy.andThen (Walk.leavesBy_leave _)
  | .eval e, w => by
    rw [Stmt.leaves]
    exact (Expr.straight_flow ctx e w).leavesBy

/-- A walk over statements notes the returns within them. -/
lemma leavesBy_stmtFlow : (ss : List Stmt) → (w : Walk) →
    w.LeavesBy (stmtFlow ctx ss w) (stmtLeaves ctx ss w)
  | [], w => by
    rw [stmtLeaves]
    exact (Walk.Straight.refl w).leavesBy
  | s :: ss, w => by
    rw [stmtLeaves]
    exact (Stmt.leavesBy s w).andThen (leavesBy_stmtFlow ss _)

/-- A walk over a block notes the returns within it. -/
lemma Block.leavesBy : (b : Block) → (w : Walk) → w.LeavesBy (b.flow ctx w) (b.leaves ctx w)
  | ⟨statements, names, classes⟩, w => by
    have entered : w.Straight (Block.entered ctx ⟨statements, names, classes⟩ w) := by
      rw [Block.entered]
      split <;> exact ⟨rfl, rfl⟩
    rw [Block.leaves]
    exact entered.leavesBy.andThen (leavesBy_stmtFlow statements _)

end

end Program

/-! ### Whole bodies -/

/-- A point of a body is open, or it allows nothing at all. -/
lemma FlowState.allows_false {st : FlowState} {x : Slot} :
    st.Allows x false ↔ st.reachable = true := by
  simp [Allows]

/-- Every body has a way out that can be reached. So what is assigned on exit is never the
stopgap for a body without one: it is what is assigned on all ways out that can be
reached, the returns and the end of the body. -/
theorem assignedOnExit_exact (ctx : FlowContext) (body : Block) (entry : List Slot) :
    let w := body.flow ctx (.start entry)
    (w.exit.join w.state).reachable = true ∧
      w.assignedOnExit ctx = (w.exit.join w.state).assigned ∧
      (∃ st ∈ body.waysOut ctx entry, st.reachable = true) ∧
      ∀ s, s ∈ w.assignedOnExit ctx ↔
        ∀ st ∈ body.waysOut ctx entry, st.reachable = true → s ∈ st.assigned := by
  intro w
  obtain ⟨exit, goesOn⟩ := Block.leavesBy ctx body (.start entry)
  -- what holds on exit allows what one of the ways out allows
  have ways (x : Slot) (u : Bool) : (w.exit.join w.state).Allows x u ↔
      ∃ st ∈ body.waysOut ctx entry, st.Allows x u := by
    have begun : ¬(Walk.start entry).exit.Allows x u := fun h => Bool.false_ne_true h.1
    rw [FlowState.allows_join, exit, or_iff_right begun]
    simp only [Block.waysOut, List.mem_append, List.mem_singleton, or_and_right, exists_or,
      exists_eq_left]
    rfl
  have open_ : ∃ st ∈ body.waysOut ctx entry, st.reachable = true := by
    rcases goesOn rfl with through | ⟨st, hst, left⟩
    · exact ⟨w.state, List.mem_append_right _ (List.mem_singleton_self _), through⟩
    · exact ⟨st, List.mem_append_left _ hst, left⟩
  have reachable : (w.exit.join w.state).reachable = true := by
    have allowed := ways ⟨0⟩ false
    simp only [FlowState.allows_false] at allowed
    exact allowed.2 open_
  have assigned : w.assignedOnExit ctx = (w.exit.join w.state).assigned := if_pos reachable
  refine ⟨reachable, assigned, open_, fun s => ?_⟩
  rw [assigned]
  have unassigned : s ∉ (w.exit.join w.state).assigned ↔
      ∃ st ∈ body.waysOut ctx entry, st.reachable = true ∧ s ∉ st.assigned := by
    simpa [FlowState.Allows, reachable] using ways s true
  rw [← not_iff_not, unassigned]
  simp only [not_forall, exists_prop]

end Ember
