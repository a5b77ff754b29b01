/-
How a walk over a body goes on.

* `FlowState.Weakens`: one state promises no more than another;
* `Walk.Leads`: a walk goes on to another, which has found no less and promises no
  more about the ways out;
* `Walk.Level`: two walks stand at one state and know of the same ways out;
* `Program.Expr.leads_flow` and its companions: walks go on;
* `Program.Expr.level_flow` and its companions: where a walk gets to depends on its
  context only through the receiver and the summaries.
-/
import Mathlib
import Ember.Flow.EarlyReads

namespace Ember

open Program

/-! ### States -/

namespace FlowState

variable {a b c : FlowState}

/-- A state promises no more than another: whatever stands at a point that the
other tells of stands at a point that this one tells of. -/
def Weakens (a b : FlowState) : Prop :=
  b.reachable = true → a.reachable = true ∧ a.assigned ⊆ b.assigned

/-- A state promises no more than itself. -/
lemma Weakens.refl (a : FlowState) : a.Weakens a := fun h => ⟨h, List.Subset.refl _⟩

/-- Promises become no more from one state to the next. -/
lemma Weakens.trans (h : a.Weakens b) (h' : b.Weakens c) : a.Weakens c := fun reachable =>
  have later := h' reachable
  have sooner := h later.1
  ⟨sooner.1, List.Subset.trans sooner.2 later.2⟩

/-- What holds on both of two ways promises no more than the first. -/
lemma join_weakens_left (a b : FlowState) : (a.join b).Weakens a := by
  intro reachable
  rw [join]
  split
  · exact ⟨reachable, List.Subset.refl _⟩
  · rw [if_neg (by simp [reachable])]
    exact ⟨reachable, List.filter_subset_self _⟩

/-- What holds on both of two ways promises no more than the second. -/
lemma join_weakens_right (a b : FlowState) : (a.join b).Weakens b := by
  intro reachable
  rw [join, if_neg (by simp [reachable])]
  split
  · exact ⟨reachable, List.Subset.refl _⟩
  · next open_ =>
    refine ⟨by simpa using open_, fun s hs => ?_⟩
    simpa using (List.mem_filter.1 hs).2

end FlowState

/-- Slots that are added are there, next to those that were. -/
lemma mem_addSlots {s : Slot} {slots new : List Slot} :
    s ∈ addSlots slots new ↔ s ∈ slots ∨ s ∈ new := by
  induction new generalizing slots with
  | nil => simp [addSlots]
  | cons t new ih =>
    rw [addSlots, List.foldl_cons]
    change s ∈ addSlots _ new ↔ _
    rw [ih]
    split
    · next known => aesop
    · simp [or_assoc]

/-! ### Steps of a walk -/

/-- Two contexts agree on which calls are calls of a body's own methods, and on what
these mean to the fields. -/
structure FlowContext.SameCalls (ctx ctx' : FlowContext) : Prop where
  receiver : ctx.receiver = ctx'.receiver
  summaries : ctx.summaries = ctx'.summaries

namespace Walk

variable {ctx ctx' : FlowContext} {w w' w'' : Walk}

/-- A walk goes on to another, which has found no less and promises no more about
the ways out of the body. -/
structure Leads (w w' : Walk) : Prop where
  found : w.found ⊆ w'.found
  exit : w'.exit.Weakens w.exit

/-- A walk goes on to itself. -/
lemma Leads.refl (w : Walk) : w.Leads w := ⟨List.Subset.refl _, .refl _⟩

/-- A walk that goes on twice goes on. -/
lemma Leads.trans (h : w.Leads w') (h' : w'.Leads w'') : w.Leads w'' :=
  ⟨List.Subset.trans h.found h'.found, h'.exit.trans h.exit⟩

/-- A read changes no state. -/
@[simp]
lemma state_read (ctx : FlowContext) (w : Walk) (s : Slot) (line : Line) :
    (w.read ctx s line).state = w.state := by
  rw [read]
  split_ifs <;> rfl

/-- A read is no way out. -/
@[simp]
lemma exit_read (ctx : FlowContext) (w : Walk) (s : Slot) (line : Line) :
    (w.read ctx s line).exit = w.exit := by
  rw [read]
  split_ifs <;> rfl

/-- A walk goes on at a read. -/
lemma leads_read (ctx : FlowContext) (w : Walk) (s : Slot) (line : Line) :
    w.Leads (w.read ctx s line) := by
  refine ⟨?_, exit_read ctx w s line ▸ .refl _⟩
  rw [read]
  split_ifs
  · exact List.Subset.refl _
  · exact List.subset_append_left _ _
  · exact List.subset_append_left _ _
  · exact List.Subset.refl _

/-- A field that is followed has been assigned where it is read, or the read is
found. -/
lemma found_read {s : Slot} (reachable : w.state.reachable = true) (followed : s ∈ ctx.fields)
    (line : Line) : s ∈ w.state.assigned ∨ ⟨.field, s, line⟩ ∈ (w.read ctx s line).found := by
  by_cases assigned : s ∈ w.state.assigned
  · exact .inl assigned
  · refine .inr ?_
    rw [read, if_neg (by simp [reachable, assigned]), if_pos followed]
    exact List.mem_append_right _ (List.mem_singleton_self _)

/-- Reads change no state. -/
@[simp]
lemma state_readAll (ctx : FlowContext) (w : Walk) (slots : List Slot) (line : Line) :
    (w.readAll ctx slots line).state = w.state := by
  induction slots generalizing w with
  | nil => rfl
  | cons s slots ih => exact (ih _).trans (state_read ctx w s line)

/-- Reads are no way out. -/
@[simp]
lemma exit_readAll (ctx : FlowContext) (w : Walk) (slots : List Slot) (line : Line) :
    (w.readAll ctx slots line).exit = w.exit := by
  induction slots generalizing w with
  | nil => rfl
  | cons s slots ih => exact (ih _).trans (exit_read ctx w s line)

/-- A walk goes on at reads. -/
lemma leads_readAll (ctx : FlowContext) (w : Walk) (slots : List Slot) (line : Line) :
    w.Leads (w.readAll ctx slots line) := by
  induction slots generalizing w with
  | nil => exact .refl w
  | cons s slots ih => exact (leads_read ctx w s line).trans (ih _)

/-- The fields among slots that are read have been assigned, or the reads are
found. -/
lemma found_readAll {slots : List Slot} {s : Slot} (hs : s ∈ slots)
    (reachable : w.state.reachable = true) (followed : s ∈ ctx.fields) (line : Line) :
    s ∈ w.state.assigned ∨ ⟨.field, s, line⟩ ∈ (w.readAll ctx slots line).found := by
  induction slots generalizing w with
  | nil => exact absurd hs List.not_mem_nil
  | cons t slots ih =>
    have same := state_read ctx w t line
    cases hs with
    | head =>
      exact (found_read reachable followed line).imp_right fun h =>
        (leads_readAll ctx _ slots line).found h
    | tail _ hs =>
      have later := ih (w := w.read ctx t line) hs (same ▸ reachable)
      rwa [same] at later

/-- A walk goes on at the call of an own method. -/
lemma leads_callOwn (ctx : FlowContext) (w : Walk) (method : Selector) (line : Line) :
    w.Leads (w.callOwn ctx method line) := by
  rw [callOwn]
  split
  · exact .refl w
  · next summary _ =>
    have read := leads_readAll ctx w summary.requires line
    dsimp only
    split <;> exact ⟨read.found, read.exit⟩

/-- What a method requires has been assigned where it is called, or the reads are
found. -/
lemma found_callOwn {method : Selector} {summary : Summary} {s : Slot}
    (known : ctx.summaries.lookup method = some summary) (hs : s ∈ summary.requires)
    (reachable : w.state.reachable = true) (followed : s ∈ ctx.fields) (line : Line) :
    s ∈ w.state.assigned ∨ ⟨.field, s, line⟩ ∈ (w.callOwn ctx method line).found := by
  rw [callOwn, known]
  dsimp only
  split <;> exact found_readAll hs reachable followed line

/-- A call of the body's own methods keeps the way open. -/
lemma reachable_callOwn (ctx : FlowContext) (w : Walk) (method : Selector) (line : Line) :
    (w.callOwn ctx method line).state.reachable = w.state.reachable := by
  rw [callOwn]
  split
  · rfl
  · dsimp only
    split <;> simp

/-- What is assigned after a call of the body's own methods was so before, or the
method assigns it. -/
lemma assigned_callOwn {method : Selector} {line : Line} {s : Slot}
    (h : s ∈ (w.callOwn ctx method line).state.assigned) :
    s ∈ w.state.assigned ∨
      ∃ summary, ctx.summaries.lookup method = some summary ∧ s ∈ summary.assigns := by
  rw [callOwn] at h
  split at h
  · exact .inl h
  · next summary known =>
    dsimp only at h
    split at h
    · rw [mem_addSlots, state_readAll] at h
      exact h.imp_right fun hs => ⟨summary, known, hs⟩
    · rw [state_readAll] at h
      exact .inl h

/-- A walk goes on where a slot is assigned. -/
lemma Leads.assign (h : w.Leads w') (s : Slot) : w.Leads (w'.assign s) := ⟨h.found, h.exit⟩

/-- A walk goes on where another state is resumed. -/
lemma Leads.resume (h : w.Leads w') (st : FlowState) : w.Leads (w'.resume st) := ⟨h.found, h.exit⟩

/-- A walk goes on where it leaves the body. -/
lemma leads_leave (w : Walk) : w.Leads w.leave :=
  ⟨List.Subset.refl _, FlowState.join_weakens_left _ _⟩

/-- Two walks stand at one state and know of the same ways out. -/
structure Level (w w' : Walk) : Prop where
  state : w.state = w'.state
  exit : w.exit = w'.exit

/-- A walk is level with itself. -/
lemma Level.refl (w : Walk) : w.Level w := ⟨rfl, rfl⟩

/-- Walks that are level with one walk are level. -/
lemma Level.trans (h : w.Level w') (h' : w'.Level w'') : w.Level w'' :=
  ⟨h.state.trans h'.state, h.exit.trans h'.exit⟩

/-- Two walks are level with one another. -/
lemma Level.symm (h : w.Level w') : w'.Level w := ⟨h.state.symm, h.exit.symm⟩

/-- Reads keep a walk level. -/
lemma level_readAll (ctx : FlowContext) (w : Walk) (slots : List Slot) (line : Line) :
    (w.readAll ctx slots line).Level w := ⟨state_readAll .., exit_readAll ..⟩

/-- Level walks stay so at the call of an own method, if they know of the same summaries. -/
lemma Level.callOwn (h : w.Level w') (same : ctx.summaries = ctx'.summaries) (method : Selector)
    (line : Line) : (w.callOwn ctx method line).Level (w'.callOwn ctx' method line) := by
  rw [Walk.callOwn, Walk.callOwn, same]
  cases ctx'.summaries.lookup method with
  | none => exact h
  | some summary =>
    simp only [state_readAll, h.state]
    split
    · exact ⟨rfl, by simp [h.exit]⟩
    · exact ⟨by simp [h.state], by simp [h.exit]⟩

/-- Level walks stay so where a slot is assigned. -/
lemma Level.assign (h : w.Level w') (s : Slot) : (w.assign s).Level (w'.assign s) :=
  ⟨by rw [Walk.assign, h.state]; rfl, h.exit⟩

/-- Level walks stay so where the same state is resumed. -/
lemma Level.resume (h : w.exit = w'.exit) {st st' : FlowState} (same : st = st') :
    (w.resume st).Level (w'.resume st') := ⟨same, h⟩

/-- Level walks stay so where they leave the body. -/
lemma Level.leave (h : w.Level w') : w.leave.Level w'.leave :=
  ⟨by rw [Walk.leave, h.state]; rfl, by rw [Walk.leave, h.state, h.exit]; rfl⟩

end Walk

/-! ### Walks over expressions and statements -/

namespace Program

/-- A call is a call of the body's own methods if its receiver is the body's own. -/
lemma Expr.flow_call (ctx : FlowContext) (receiver : Expr) (name : String)
    (arguments : Option (List Expr)) (line : Line) (w : Walk) :
    ((∃ s l, receiver = .read s l ∧ ctx.receiver = some s) ∧
      (Expr.call receiver name arguments line).flow ctx w =
        (exprFlow ctx (arguments.getD []) (receiver.flow ctx w)).callOwn ctx
          ⟨name, arguments.map List.length⟩ line) ∨
    ((∀ s l, receiver = .read s l → ctx.receiver ≠ some s) ∧
      (Expr.call receiver name arguments line).flow ctx w =
        exprFlow ctx (arguments.getD []) (receiver.flow ctx w)) := by
  cases receiver with
  | read s l =>
    by_cases own : ctx.receiver = some s
    · refine .inl ⟨⟨s, l, rfl, own⟩, ?_⟩
      cases arguments <;> exact if_pos own
    · refine .inr ⟨fun t l' same => ?_, ?_⟩
      · cases same
        exact own
      · cases arguments <;> exact if_neg own
  | assign _ _ _ | call _ _ _ _ | literal _ _ | logical _ _ _ _ | cls _ =>
    refine .inr ⟨fun s l same => (by cases same), ?_⟩
    cases arguments <;> rfl

/-- What becomes of a walk where a slot is read, and the class with it if the slot
holds one. -/
lemma Expr.level_flow_read (ctx : FlowContext) (s : Slot) (line : Line) (w : Walk) :
    ((Expr.read s line).flow ctx w).Level w := by
  rw [Expr.flow]
  split
  · exact ⟨Walk.state_read .., Walk.exit_read ..⟩
  · exact (Walk.level_readAll ..).trans ⟨Walk.state_read .., Walk.exit_read ..⟩

/-- A class that is an expression only adds findings. -/
lemma Expr.level_flow_cls (ctx : FlowContext) (decl : ClassDecl) (w : Walk) :
    ((Expr.cls decl).flow ctx w).Level w := by
  rw [Expr.flow]
  refine (Walk.level_readAll ..).trans ?_
  split <;> exact ⟨rfl, rfl⟩

/-- The read itself is the first thing that is found where a slot is read. -/
lemma Expr.found_flow_read (ctx : FlowContext) (s : Slot) (line : Line) (w : Walk) :
    (w.read ctx s line).found ⊆ ((Expr.read s line).flow ctx w).found := by
  rw [Expr.flow]
  split
  · exact List.Subset.refl _
  · exact (Walk.leads_readAll ..).found

section Leads

variable (ctx : FlowContext)

mutual

/-- A walk over an expression goes on. -/
lemma Expr.leads_flow : (e : Expr) → (w : Walk) → w.Leads (e.flow ctx w)
  | .assign target value _, w => (Expr.leads_flow value w).assign target
  | .call receiver name arguments line, w => by
    have before : w.Leads (exprFlow ctx (arguments.getD []) (receiver.flow ctx w)) := by
      cases arguments with
      | none => simpa [exprFlow] using Expr.leads_flow receiver w
      | some es => exact (Expr.leads_flow receiver w).trans (leads_exprFlow es _)
    rcases Expr.flow_call ctx receiver name arguments line w with ⟨-, own⟩ | ⟨-, other⟩
    · rw [own]
      exact before.trans (Walk.leads_callOwn ..)
    · rw [other]
      exact before
  | .literal _ _, w => .refl w
  | .read s line, w =>
    ⟨List.Subset.trans (Walk.leads_read ctx w s line).found (Expr.found_flow_read ctx s line w),
      (Expr.level_flow_read ctx s line w).exit ▸ .refl _⟩
  | .logical _ left right _, w =>
    ((Expr.leads_flow left w).trans (Expr.leads_flow right _)).resume _
  | .cls decl, w => by
    refine ⟨?_, (Expr.level_flow_cls ctx decl w).exit ▸ .refl _⟩
    rw [Expr.flow]
    refine List.Subset.trans ?_ (Walk.leads_readAll ..).found
    split
    · exact List.subset_append_left _ _
    · exact List.Subset.refl _

/-- A walk goes on through expressions. -/
lemma leads_exprFlow : (es : List Expr) → (w : Walk) → w.Leads (exprFlow ctx es w)
  | [], w => .refl w
  | e :: es, w => (Expr.leads_flow e w).trans (leads_exprFlow es _)

/-- A walk over a statement goes on. -/
lemma Stmt.leads_flow : (s : Stmt) → (w : Walk) → w.Leads (s.flow ctx w)
  | .block body, w => Block.leads_flow body w
  | .branch condition yes none _, w =>
    (((Expr.leads_flow condition w).trans (Stmt.leads_flow yes _)).resume _).resume _
  | .branch condition yes (some no) _, w =>
    ((((Expr.leads_flow condition w).trans (Stmt.leads_flow yes _)).resume _).trans
      (Stmt.leads_flow no _)).resume _
  | .loop condition body _, w =>
    ((Expr.leads_flow condition w).trans (Stmt.leads_flow body _)).resume _
  | .var _ none _, w => (Walk.Leads.refl w).resume _
  | .var s (some e) _, w => (Expr.leads_flow e w).assign s
  | .ret none _, w => w.leads_leave
  | .ret (some e) _, w => (Expr.leads_flow e w).trans (Walk.leads_leave _)
  | .eval e, w => Expr.leads_flow e w

/-- A walk goes on through statements. -/
lemma leads_stmtFlow : (ss : List Stmt) → (w : Walk) → w.Leads (stmtFlow ctx ss w)
  | [], w => .refl w
  | s :: ss, w => (Stmt.leads_flow s w).trans (leads_stmtFlow ss _)

/-- A walk over a block goes on, when its classes have been analysed. -/
lemma Block.leads_flow : (b : Block) → (w : Walk) → w.Leads (b.flow ctx w)
  | ⟨statements, _, classes⟩, w => by
    rw [Block.flow]
    refine Walk.Leads.trans ?_ (leads_stmtFlow statements _)
    split
    · exact ⟨List.subset_append_left _ _, .refl _⟩
    · exact .refl w

end

end Leads

section Level

variable {ctx ctx' : FlowContext}

mutual

/-- Where a walk over an expression gets to depends on its context only through
the receiver and the summaries. -/
lemma Expr.level_flow (same : ctx.SameCalls ctx') : (e : Expr) → {w w' : Walk} → w.Level w' →
    (e.flow ctx w).Level (e.flow ctx' w')
  | .assign target value _, _, _, h => (Expr.level_flow same value h).assign target
  | .call callee name arguments line, w, w', h => by
    have before : (exprFlow ctx (arguments.getD []) (callee.flow ctx w)).Level
        (exprFlow ctx' (arguments.getD []) (callee.flow ctx' w')) := by
      cases arguments with
      | none => simpa [exprFlow] using Expr.level_flow same callee h
      | some es => exact level_exprFlow same es (Expr.level_flow same callee h)
    rcases Expr.flow_call ctx callee name arguments line w with ⟨own, eq⟩ | ⟨other, eq⟩ <;>
      rcases Expr.flow_call ctx' callee name arguments line w' with ⟨own', eq'⟩ | ⟨other', eq'⟩
    · rw [eq, eq']
      exact before.callOwn same.summaries _ _
    · obtain ⟨s, l, rfl, hs⟩ := own
      exact absurd (same.receiver ▸ hs) (other' s l rfl)
    · obtain ⟨s, l, rfl, hs⟩ := own'
      exact absurd (same.receiver ▸ hs) (other s l rfl)
    · rw [eq, eq']
      exact before
  | .literal _ _, _, _, h => h
  | .read s line, w, w', h =>
    ((Expr.level_flow_read ctx s line w).trans h).trans (Expr.level_flow_read ctx' s line w').symm
  | .logical _ left right _, _, _, h =>
    have first := Expr.level_flow same left h
    .resume (Expr.level_flow same right first).exit first.state
  | .cls decl, w, w', h =>
    ((Expr.level_flow_cls ctx decl w).trans h).trans (Expr.level_flow_cls ctx' decl w').symm

/-- Level walks stay so through expressions. -/
lemma level_exprFlow (same : ctx.SameCalls ctx') : (es : List Expr) → {w w' : Walk} → w.Level w' →
    (exprFlow ctx es w).Level (exprFlow ctx' es w')
  | [], _, _, h => h
  | e :: es, _, _, h => level_exprFlow same es (Expr.level_flow same e h)

/-- Where a walk over a statement gets to depends on its context only through the
receiver and the summaries. -/
lemma Stmt.level_flow (same : ctx.SameCalls ctx') : (s : Stmt) → {w w' : Walk} → w.Level w' →
    (s.flow ctx w).Level (s.flow ctx' w')
  | .block body, _, _, h => Block.level_flow same body h
  | .branch condition yes none _, _, _, h => by
    have first := Expr.level_flow same condition h
    have second := Stmt.level_flow same yes first
    exact .resume second.exit (by simp only [Walk.resume, second.state, first.state])
  | .branch condition yes (some no) _, _, _, h => by
    have first := Expr.level_flow same condition h
    have second := Stmt.level_flow same yes first
    have third := Stmt.level_flow same no (Walk.Level.resume second.exit first.state)
    exact .resume third.exit (by simp only [second.state, third.state])
  | .loop condition body _, _, _, h =>
    have first := Expr.level_flow same condition h
    .resume (Stmt.level_flow same body first).exit first.state
  | .var s none _, _, _, h => .resume h.exit (by rw [h.state])
  | .var s (some e) _, _, _, h => (Expr.level_flow same e h).assign s
  | .ret none _, _, _, h => h.leave
  | .ret (some e) _, _, _, h => (Expr.level_flow same e h).leave
  | .eval e, _, _, h => Expr.level_flow same e h

/-- Level walks stay so through statements. -/
lemma level_stmtFlow (same : ctx.SameCalls ctx') : (ss : List Stmt) → {w w' : Walk} → w.Level w' →
    (stmtFlow ctx ss w).Level (stmtFlow ctx' ss w')
  | [], _, _, h => h
  | s :: ss, _, _, h => level_stmtFlow same ss (Stmt.level_flow same s h)

/-- Level walks stay so through a block. -/
lemma Block.level_flow (same : ctx.SameCalls ctx') : (b : Block) → {w w' : Walk} → w.Level w' →
    (b.flow ctx w).Level (b.flow ctx' w')
  | ⟨statements, _, classes⟩, w, w', h => by
    have entered (ctx : FlowContext) (w : Walk) : (if ctx.inDepth then
        { w with found := w.found ++ classFindings ctx classes } else w).Level w := by
      split <;> exact ⟨rfl, rfl⟩
    rw [Block.flow, Block.flow]
    exact level_stmtFlow same statements (((entered ctx w).trans h).trans (entered ctx' w').symm)

end

end Level

end Program

end Ember
