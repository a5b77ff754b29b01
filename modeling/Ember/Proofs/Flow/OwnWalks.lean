/-
A method is summarized by the paths through its body: what it is found to require are the
fields that some path uses while they are unassigned, and what it is found to assign are
the fields that every path assigns. Calls of own methods count as the summaries say from
which the walk over the body starts.

* `Walk.Traces`: a walk over a part of a body knows of a field what the paths through the
  part make of it, where control goes on and where it leaves the body;
* `Walk.Traces.andThen`, `Walk.Traces.either`, `Walk.Traces.rounds`: the ways in which
  parts are put together;
* `Program.Block.traces`: the walk over a body follows its paths;
* `Program.Method.MayNeed`, `Program.Method.AlwaysAssigns`: what the paths through the
  body of a method say of a field;
* `Program.Method.mem_requires_summary`, `Program.Method.mem_assigns_summary`: the summary
  of a method is what they say.
-/
import Mathlib
import Ember.Proofs.Flow.OwnPaths
import Ember.Proofs.Flow.Tracking

namespace Ember

open Program

/-! ### What a walk knows of one field -/

namespace Walk

/-- A slot has been found to be read early. -/
def Finds (w : Walk) (x : Slot) : Prop := x ∈ w.found.map Finding.slot

/-- A walk over a part of a body that begins as `w` and ends as `w'` follows the paths
through the part: the slot may be unassigned where they go on and where they leave the
body, and it is found if one of them uses it early. -/
structure Traces (captures : Captures) (x : Slot) (P : Paths) (w w' : Walk) : Prop where
  state : w'.state.Allows x true ↔ w.state.Allows x true ∧ P.Lets x .through
  exit : w'.exit.Allows x true ↔ w.exit.Allows x true ∨ w.state.Allows x true ∧ P.Lets x .left
  found : w'.Finds x ↔ w.Finds x ∨ w.state.Allows x true ∧ P.Early captures x

variable {ctx : FlowContext} {captures : Captures} {x : Slot} {P Q : Paths} {w w₁ w₂ : Walk}

/-- A read finds its slot if that may be unassigned. -/
lemma finds_read (field : x ∈ ctx.fields) (s : Slot) (line : Line) :
    (w.read ctx s line).Finds x ↔ w.Finds x ∨ w.state.Allows x true ∧ s = x := by
  rw [read]
  split
  · next skipped =>
    refine ⟨.inl, fun h => h.resolve_right ?_⟩
    rintro ⟨⟨open_, unassigned⟩, rfl⟩
    have assigned : s ∈ w.state.assigned := by simpa [open_] using skipped
    exact unassigned rfl assigned
  · next seen =>
    simp only [Bool.or_eq_true, Bool.not_eq_true', decide_eq_true_eq, not_or,
      Bool.not_eq_false] at seen
    by_cases same : s = x
    · subst same
      simp [Finds, FlowState.Allows, field, seen.1, seen.2]
    · split_ifs <;> simp [Finds, same, Ne.symm same]

/-- Reads one after the other find each slot that may be unassigned. -/
lemma finds_readAll (field : x ∈ ctx.fields) (slots : List Slot) (line : Line) :
    (w.readAll ctx slots line).Finds x ↔ w.Finds x ∨ w.state.Allows x true ∧ x ∈ slots := by
  induction slots generalizing w with
  | nil => simp [readAll]
  | cons s slots ih =>
    have later : ((w.read ctx s line).readAll ctx slots line).Finds x ↔ _ := ih
    rw [finds_read field, state_read] at later
    change ((w.read ctx s line).readAll ctx slots line).Finds x ↔ _
    rw [later, List.mem_cons, eq_comm (a := s)]
    tauto

namespace Traces

/-- A walk that does nothing follows the path that does nothing. -/
lemma idle (w : Walk) : Traces captures x .idle w w where
  state := by simp [Paths.lets_idle]
  exit := by simp [Paths.lets_idle]
  found := by simp [Paths.not_early_idle]

/-- A step of a path. -/
lemma one {st : PathStep} (exit : w₁.exit = w.exit)
    (state : w₁.state.Allows x true ↔ w.state.Allows x true ∧ st.after x true = true)
    (found : w₁.Finds x ↔ w.Finds x ∨ w.state.Allows x true ∧ ∃ line, st.Uses captures x line) :
    Traces captures x (.one st) w w₁ where
  state := by simp [state, Paths.lets_one]
  exit := by simp [exit, Paths.lets_one]
  found := by rw [found, Paths.early_one]

/-- A read follows the step that reads. -/
lemma read (field : x ∈ ctx.fields) (w : Walk) (s : Slot) (line : Line) :
    Traces captures x (.one (.reads s line)) w (w.read ctx s line) := by
  refine one (exit_read ..) ?_ ?_
  · simp [state_read, PathStep.after]
  · simp [finds_read field, PathStep.Uses]

/-- An instance that is made follows the step that makes it: what its class captures is
read. -/
lemma produce (field : x ∈ ctx.fields) (w : Walk) (c : ClassDecl) (line : Line) :
    Traces ctx.captures x (.one (.makes c line)) w (w.produce ctx c line) := by
  refine one (exit_readAll ..) ?_ ?_
  · simp [Walk.produce, state_readAll, PathStep.after]
  · simp [Walk.produce, finds_readAll field, PathStep.Uses]

/-- An assignment follows the step that assigns. -/
lemma assign (w : Walk) (s : Slot) : Traces captures x (.one (.assigns s)) w (w.assign s) := by
  refine one rfl ?_ ?_
  · by_cases same : s = x
    · simp [Walk.assign, FlowState.assign, FlowState.Allows, PathStep.after, same, mem_addSlots]
    · simp [Walk.assign, FlowState.assign, FlowState.Allows, PathStep.after, same, mem_addSlots,
        Ne.symm same]
  · simp [Walk.assign, Walk.Finds, PathStep.Uses]

/-- The statement of a variable without a value, which is another slot. -/
lemma forget (w : Walk) {s : Slot} (other : s ≠ x) :
    Traces captures x (.one (.forgets s)) w (w.resume (w.state.forget s)) := by
  refine one rfl ?_ ?_
  · simp [Walk.resume, FlowState.forget, FlowState.Allows, PathStep.after, other, Ne.symm other]
  · simp [Walk.resume, Walk.Finds, PathStep.Uses]

/-- A call of an own method does what its summary says. -/
lemma callOwn (field : x ∈ ctx.fields) (w : Walk) (method : Selector) (line : Line) :
    Traces captures x (.steps (ownCall ctx.summaries method line)) w
      (w.callOwn ctx method line) := by
  -- a call goes on after the method, whichever way that was left
  have through : ¬(Paths.steps (ownCall ctx.summaries method line)).Lets x .left := fun h =>
    nomatch (Paths.lets_ownCall.1 h).1
  have state : (w.callOwn ctx method line).state.Allows x true ↔ w.state.Allows x true ∧
      ∀ s, ctx.summaries.lookup method = some s → x ∉ s.assigns := by
    rw [Walk.callOwn]
    cases ctx.summaries.lookup method with
    | none => simp
    | some s =>
      -- fields are taken to be assigned only where the call can be reached
      dsimp only
      rw [state_readAll]
      split_ifs with open_
      · simp [FlowState.Allows, mem_addSlots, not_or, and_assoc]
      · simp [FlowState.Allows, state_readAll, open_]
  constructor
  case state => simp only [state, Paths.lets_ownCall, true_and]
  case exit =>
    have exit : (w.callOwn ctx method line).exit = w.exit := by
      rw [Walk.callOwn]
      cases ctx.summaries.lookup method with
      | none => rfl
      | some s =>
        dsimp only
        split_ifs <;> exact exit_readAll ..
    rw [exit]
    tauto
  case found =>
    rw [Paths.early_ownCall, Walk.callOwn]
    cases ctx.summaries.lookup method with
    | none => simp
    | some s =>
      have found : (w.readAll ctx s.requires line).Finds x ↔ _ :=
        finds_readAll field s.requires line
      simp only [Option.some.injEq, exists_eq_left']
      split_ifs <;> exact found

/-- A return follows the path that leaves. -/
lemma leave (w : Walk) : Traces captures x .leave w w.leave where
  state := by simp [Walk.leave, FlowState.Allows, Paths.lets_leave]
  exit := by
    rw [Walk.leave, FlowState.allows_join, Paths.lets_leave]
    simp
  found := by simp [Walk.leave, Walk.Finds, Paths.not_early_leave]

/-- One part after another. -/
lemma andThen (h : Traces captures x P w w₁) (h' : Traces captures x Q w₁ w₂) (clean : Q.Clean x) :
    Traces captures x (P.andThen Q) w w₂ where
  state := by
    rw [h'.state, h.state, Paths.lets_andThen clean]
    simp [and_assoc]
  exit := by
    rw [h'.exit, h.exit, h.state, Paths.lets_andThen clean]
    tauto
  found := by
    rw [h'.found, h.found, h.state, Paths.early_andThen clean]
    tauto

/-- Two parts of which one is gone through, both from one state. -/
lemma either (h : Traces captures x P w w₁) (h' : Traces captures x Q (w₁.resume w.state) w₂) :
    Traces captures x (P.either Q) w (w₂.resume (w₁.state.join w₂.state)) where
  state := by
    have second : w₂.state.Allows x true ↔ w.state.Allows x true ∧ Q.Lets x .through := h'.state
    rw [Walk.resume, FlowState.allows_join, h.state, second, Paths.lets_either]
    tauto
  exit := by
    have second : w₂.exit.Allows x true ↔
      w₁.exit.Allows x true ∨ w.state.Allows x true ∧ Q.Lets x .left := h'.exit
    change w₂.exit.Allows x true ↔ _
    rw [second, h.exit, Paths.lets_either]
    tauto
  found := by
    have second : w₂.Finds x ↔ w₁.Finds x ∨ w.state.Allows x true ∧ Q.Early captures x := h'.found
    change w₂.Finds x ↔ _
    rw [second, h.found, Paths.early_either]
    tauto

/-- A part that may be skipped. What is assigned in it does not count afterwards. -/
lemma skip (h : Traces captures x P w w₁) :
    Traces captures x (P.either .idle) w (w₁.resume w.state) where
  state := by
    change w.state.Allows x true ↔ _
    rw [Paths.lets_either, Paths.lets_idle]
    tauto
  exit := by
    change w₁.exit.Allows x true ↔ _
    rw [h.exit, Paths.lets_either, Paths.lets_idle]
    tauto
  found := by
    change w₁.Finds x ↔ _
    rw [h.found, Paths.early_either, or_iff_left Paths.not_early_idle]

/-- The rounds of a loop, of which one is walked. -/
lemma rounds (h : Traces captures x P w w₁) (h' : Traces captures x Q w₁ w₂)
    (clean : P.Clean x) (clean' : Q.Clean x) (through : P.Through) :
    Traces captures x (.Rounds P Q) w (w₂.resume w₁.state) where
  state := by
    change w₁.state.Allows x true ↔ _
    rw [h.state, Paths.lets_rounds clean clean']
    tauto
  exit := by
    have stays : ¬P.Lets x .left := fun ⟨tr, hP, _⟩ => nomatch through tr .left hP
    change w₂.exit.Allows x true ↔ _
    rw [h'.exit, h.exit, h.state, Paths.lets_rounds clean clean']
    tauto
  found := by
    change w₂.Finds x ↔ _
    rw [h'.found, h.found, h.state, Paths.early_rounds clean clean' through]
    tauto

end Traces

end Walk

/-! ### Walks over bodies -/

/-- A walk that summarizes a body of the instance that `own` holds, with one of its fields
in view. The classes on its way are left alone. -/
structure FlowContext.Summarizes (ctx : FlowContext) (own : Slot) (x : Slot) : Prop where
  field : x ∈ ctx.fields
  receiver : ctx.receiver = some own
  shallow : ctx.inDepth = false

namespace Program

section Bodies

variable {ctx : FlowContext} {own x : Slot}

/-- A class with the slot it is read from, if that slot holds a declared class. -/
lemma Expr.traces_read (sums : ctx.Summarizes own x) (s : Slot) (line : Line) (w : Walk) :
    w.Traces ctx.captures x ((Expr.read s line).ownPaths ctx.named own ctx.summaries)
      ((Expr.read s line).flow ctx w) := by
  have read : w.Traces ctx.captures x (.one (.reads s line)) (w.read ctx s line) :=
    .read sums.field w s line
  rw [Expr.ownPaths, Expr.flow]
  cases ctx.named.lookup s with
  | none => exact read.andThen (.idle _) Paths.clean_idle
  | some c => exact read.andThen (.produce sums.field _ c line) (Paths.clean_one (by simp))

mutual

/-- The walk over an expression follows its paths. -/
lemma Expr.traces (sums : ctx.Summarizes own x) : (e : Expr) → (w : Walk) →
    w.Traces ctx.captures x (e.ownPaths ctx.named own ctx.summaries) (e.flow ctx w)
  | .assign target value _, w =>
    (Expr.traces sums value w).andThen (.assign _ target) (Paths.clean_one (by simp))
  | .call receiver name arguments line, w => by
    have before : w.Traces ctx.captures x
        ((receiver.ownPaths ctx.named own ctx.summaries).andThen
          (exprOwnPaths ctx.named own ctx.summaries (arguments.getD [])))
        (exprFlow ctx (arguments.getD []) (receiver.flow ctx w)) := by
      cases arguments with
      | none => exact (Expr.traces sums receiver w).andThen (.idle _) Paths.clean_idle
      | some es =>
        exact (Expr.traces sums receiver w).andThen (exprTraces sums es _) (exprClean_ownPaths es)
    rcases Expr.flow_call ctx receiver name arguments line w with ⟨isOwn, eq⟩ | ⟨other, eq⟩ <;>
      rcases Expr.ownPaths_call ctx.named own ctx.summaries receiver name arguments line
        with ⟨isOwn', eq'⟩ | ⟨other', eq'⟩ <;> rw [eq, eq']
    · exact before.andThen (.callOwn sums.field _ _ line) (Paths.clean_ownCall ..)
    · obtain ⟨s, l, rfl, same⟩ := isOwn
      rw [sums.receiver] at same
      cases same
      exact absurd rfl (other' l)
    · obtain ⟨l, rfl⟩ := isOwn'
      exact absurd sums.receiver (other own l rfl)
    · exact before.andThen (.idle _) Paths.clean_idle
  | .literal _ _, w => .idle w
  | .read s line, w => Expr.traces_read sums s line w
  | .logical _ left right _, w =>
    (Expr.traces sums left w).andThen (Expr.traces sums right _).skip
      ((Expr.clean_ownPaths right).either Paths.clean_idle)
  | .cls decl, w => by
    rw [Expr.flow, sums.shallow]
    exact .produce sums.field w decl decl.line

/-- Expressions one after the other follow their paths. -/
lemma exprTraces (sums : ctx.Summarizes own x) : (es : List Expr) → (w : Walk) →
    w.Traces ctx.captures x (exprOwnPaths ctx.named own ctx.summaries es) (exprFlow ctx es w)
  | [], w => .idle w
  | e :: es, w => (Expr.traces sums e w).andThen (exprTraces sums es _) (exprClean_ownPaths es)

end

mutual

/-- The walk over a statement follows its paths. -/
lemma Stmt.traces (sums : ctx.Summarizes own x) : (s : Stmt) → x ∉ s.locals → (w : Walk) →
    w.Traces ctx.captures x (s.ownPaths ctx.named own ctx.summaries) (s.flow ctx w)
  | .block body, h, w => Block.traces sums body h w
  | .branch condition yes none _, h, w => by
    have hyes : x ∉ yes.locals := fun hx => h (List.mem_append_left _ hx)
    exact (Expr.traces sums condition w).andThen ((Stmt.traces sums yes hyes _).either (.idle _))
      ((Stmt.clean_ownPaths yes hyes).either Paths.clean_idle)
  | .branch condition yes (some no) _, h, w => by
    have hyes : x ∉ yes.locals := fun hx => h (List.mem_append_left _ hx)
    have hno : x ∉ no.locals := fun hx => h (List.mem_append_right _ hx)
    exact (Expr.traces sums condition w).andThen
      ((Stmt.traces sums yes hyes _).either (Stmt.traces sums no hno _))
      ((Stmt.clean_ownPaths yes hyes).either (Stmt.clean_ownPaths no hno))
  | .loop condition body _, h, w =>
    (Expr.traces sums condition w).rounds (Stmt.traces sums body h _)
      (Expr.clean_ownPaths condition) (Stmt.clean_ownPaths body h)
      (Expr.through_ownPaths condition)
  | .var s none _, h, w => .forget w fun same => h (same ▸ List.mem_singleton_self _)
  | .var s (some e) _, _, w =>
    (Expr.traces sums e w).andThen (.assign _ s) (Paths.clean_one (by simp))
  | .ret none _, _, w => .leave w
  | .ret (some e) _, _, w => (Expr.traces sums e w).andThen (.leave _) Paths.clean_leave
  | .eval e, _, w => Expr.traces sums e w

/-- Statements one after the other follow their paths, unless they declare the field anew. -/
lemma stmtTraces (sums : ctx.Summarizes own x) : (ss : List Stmt) → x ∉ stmtLocals ss → (w : Walk) →
    w.Traces ctx.captures x (stmtOwnPaths ctx.named own ctx.summaries ss) (stmtFlow ctx ss w)
  | [], _, w => .idle w
  | s :: ss, h, w =>
    (Stmt.traces sums s (fun hx => h (List.mem_append_left _ hx)) w).andThen
      (stmtTraces sums ss (fun hx => h (List.mem_append_right _ hx)) _)
      (stmtClean_ownPaths ss fun hx => h (List.mem_append_right _ hx))

/-- A block follows its paths: the classes of it are none of the method's business. -/
lemma Block.traces (sums : ctx.Summarizes own x) : (b : Block) → x ∉ b.locals → (w : Walk) →
    w.Traces ctx.captures x (b.ownPaths ctx.named own ctx.summaries) (b.flow ctx w)
  | ⟨statements, _, _⟩, h, w => by
    rw [Block.flow, sums.shallow]
    exact stmtTraces sums statements h w

end

end Bodies

/-! ### Summaries of methods -/

/-- On some path through the body of a method a field is used before it is assigned. -/
def Method.MayNeed (m : Method) (named : List (Slot × ClassDecl)) (captures : Captures)
    (own : Slot) (S : Summaries) (x : Slot) : Prop :=
  ∃ tr r line, m.body.ownPaths named own S tr r ∧ Hits captures x line true tr

/-- Every path through the body of a method, whichever way it ends, assigns a field. -/
def Method.AlwaysAssigns (m : Method) (named : List (Slot × ClassDecl)) (own : Slot)
    (S : Summaries) (x : Slot) : Prop :=
  ∀ tr r, m.body.ownPaths named own S tr r → unassignedAfter x true tr = false

section Method

variable {ctx : FlowContext} {fields : List Slot} {receiver x : Slot} {S : Summaries}

/-- The walk by which a method is summarized follows the paths through its body. -/
lemma Method.traces (m : Method) (hx : x ∈ fields) (other : x ∉ m.body.locals) :
    (Walk.start []).Traces ctx.captures x (m.body.ownPaths ctx.named receiver S)
      (m.body.flow (ctx.summarizing fields receiver S) (.start [])) := by
  have sums : (ctx.summarizing fields receiver S).Summarizes receiver x := ⟨hx, rfl, rfl⟩
  exact Block.traces sums m.body other (.start [])

/-- A field is assigned on every way out if it can be unassigned on none. -/
lemma mem_assignedOnExit {w : Walk} (hx : x ∈ ctx.fields) :
    x ∈ w.assignedOnExit ctx ↔ ¬(w.exit.Allows x true ∨ w.state.Allows x true) := by
  rw [← FlowState.allows_join]
  cases open_ : (w.exit.join w.state).reachable with
  | true => simp [Walk.assignedOnExit, FlowState.Allows, open_]
  | false => simp [Walk.assignedOnExit, FlowState.Allows, open_, hx]

/-- A method is found to require the fields that some path uses before they are
assigned. -/
theorem Method.mem_requires_summary (m : Method) (hx : x ∈ fields) (other : x ∉ m.body.locals) :
    x ∈ (m.summary ctx fields receiver S).requires ↔
      m.MayNeed ctx.named ctx.captures receiver S x := by
  have found : (m.body.flow (ctx.summarizing fields receiver S) (.start [])).Finds x ↔
      m.MayNeed ctx.named ctx.captures receiver S x := by
    rw [(m.traces hx other).found]
    simp [Walk.start, Walk.Finds, FlowState.Allows, Method.MayNeed, Paths.Early]
  rw [← found, Method.summary, Walk.summary, List.mem_filter, decide_eq_true_iff]
  exact and_iff_right hx

/-- A method is found to assign the fields that every path assigns. -/
theorem Method.mem_assigns_summary (m : Method) (hx : x ∈ fields) (other : x ∉ m.body.locals) :
    x ∈ (m.summary ctx fields receiver S).assigns ↔
      m.AlwaysAssigns ctx.named receiver S x := by
  let w := m.body.flow (ctx.summarizing fields receiver S) (.start [])
  have traces : (Walk.start []).Traces ctx.captures x (m.body.ownPaths ctx.named receiver S) w :=
    m.traces hx other
  have entry : (Walk.start []).state.Allows x true ∧ ¬(Walk.start []).exit.Allows x true := by
    simp [Walk.start, FlowState.Allows, FlowState.unreachable]
  have assigned : x ∈ w.assignedOnExit (ctx.summarizing fields receiver S) ↔
      m.AlwaysAssigns ctx.named receiver S x := by
    rw [mem_assignedOnExit hx, traces.exit, traces.state]
    simp only [entry.1, entry.2, true_and, false_or]
    constructor
    · intro none tr r path
      refine Bool.eq_false_iff.2 fun unassigned => none ?_
      cases r with
      | through => exact .inr ⟨tr, path, unassigned⟩
      | left => exact .inl ⟨tr, path, unassigned⟩
    · rintro always (⟨tr, path, unassigned⟩ | ⟨tr, path, unassigned⟩) <;>
        exact absurd (always tr _ path) (by simp [unassigned])
  rw [← assigned, Method.summary, Walk.summary, List.mem_filter, decide_eq_true_iff]
  exact and_iff_right hx

end Method

end Program

end Ember
