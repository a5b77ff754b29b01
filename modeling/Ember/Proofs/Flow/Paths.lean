/-
Paths through bodies, and what becomes of one variable on them.

* `PathStep`, `Paths`: what a path comes by as far as assignments are concerned, and a
  set of paths, each with the way in which it ends;
* `Program.Expr.paths`, `Program.Stmt.paths`, `Program.Block.paths`: the syntactic paths.
  Either branch may be taken, a loop may run any number of rounds, right operands may be
  skipped, and a return ends the path;
* `unassignedAfter`, `Hits`: whether a variable is unassigned after steps of a path; some
  step uses a variable on a line while it is unassigned;
* `Program.Block.ReadsEarly`: some path through a body does so;
* `Program.Stmt.without_forgets`, `Program.Stmt.without_assigns`: what paths may do to a
  variable, and `Program.Stmt.orderly` that they assign no variable before its statement.
-/
import Mathlib
import Ember.Proofs.Flow.Nesting

namespace Ember

open Program

/-! ### Sets of paths -/

/-- What a path through a body comes by, as far as assignments are concerned. -/
inductive PathStep where
  | reads (s : Slot) (line : Line)
  /-- The value of a class comes about. -/
  | makes (c : ClassDecl) (line : Line)
  | assigns (s : Slot)
  /-- The statement of a variable without a value. -/
  | forgets (s : Slot)

/-- How a path through a part of a body ends: control goes on after the part, or it
leaves the body. -/
inductive PathEnd where
  | through
  | left
deriving DecidableEq

/-- The paths through a part of a body, with their steps and their ends. -/
abbrev Paths := List PathStep → PathEnd → Prop

namespace Paths

/-- The path without steps. -/
def idle : Paths := fun tr r => tr = [] ∧ r = .through

/-- The path with one step. -/
def one (st : PathStep) : Paths := fun tr r => tr = [st] ∧ r = .through

/-- The path that leaves the body at once. -/
def leave : Paths := fun tr r => tr = [] ∧ r = .left

/-- One path after another, unless the first leaves the body. -/
def andThen (P Q : Paths) : Paths := fun tr r =>
  (∃ tr₁ tr₂, P tr₁ .through ∧ Q tr₂ r ∧ tr = tr₁ ++ tr₂) ∨ (P tr .left ∧ r = .left)

/-- A path of one kind or of the other. -/
def either (P Q : Paths) : Paths := fun tr r => P tr r ∨ Q tr r

/-- The rounds of a loop, any number of them, each with its condition. -/
inductive Rounds (condition body : Paths) : Paths
  | done {tr : List PathStep} (h : condition tr .through) : Rounds condition body tr .through
  | again {tr₁ tr₂ tr₃ : List PathStep} {r : PathEnd} (h : condition tr₁ .through)
      (h' : body tr₂ .through) (rest : Rounds condition body tr₃ r) :
      Rounds condition body (tr₁ ++ tr₂ ++ tr₃) r
  | left {tr₁ tr₂ : List PathStep} (h : condition tr₁ .through) (h' : body tr₂ .left) :
      Rounds condition body (tr₁ ++ tr₂) .left

end Paths

/-! ### Paths through bodies -/

namespace Program

section Syntax

variable (named : List (Slot × ClassDecl))

mutual

/-- The paths through an expression. A slot that holds a declared class is read, and the
value of the class comes about. -/
def Expr.paths : Expr → Paths
  | .assign target value _ => value.paths.andThen (.one (.assigns target))
  | .call receiver _ arguments _ =>
    receiver.paths.andThen (match arguments with | none => .idle | some es => exprPaths es)
  | .literal _ _ => .idle
  | .read s line =>
    (Paths.one (.reads s line)).andThen
      (match named.lookup s with | none => .idle | some c => .one (.makes c line))
  | .logical _ left right _ => left.paths.andThen (right.paths.either .idle)
  | .cls decl => .one (.makes decl decl.line)

/-- The paths through expressions, from left to right. -/
def exprPaths : List Expr → Paths
  | [] => .idle
  | e :: es => e.paths.andThen (exprPaths es)

end

mutual

/-- The paths through a statement. -/
def Stmt.paths : Stmt → Paths
  | .block body => body.paths
  | .branch condition yes no _ =>
    (condition.paths named).andThen
      (yes.paths.either (match no with | none => .idle | some s => s.paths))
  | .loop condition body _ => .Rounds (condition.paths named) body.paths
  | .var s init _ =>
    match init with
    | none => .one (.forgets s)
    | some e => (e.paths named).andThen (.one (.assigns s))
  | .ret value _ =>
    match value with
    | none => .leave
    | some e => (e.paths named).andThen .leave
  | .eval e => e.paths named

/-- The paths through statements, in order. -/
def stmtPaths : List Stmt → Paths
  | [] => .idle
  | s :: ss => s.paths.andThen (stmtPaths ss)

/-- The paths through a block. -/
def Block.paths : Block → Paths
  | ⟨statements, _, _⟩ => stmtPaths statements

end

end Syntax

end Program

/-! ### One variable on a path -/

/-- Whether a variable is unassigned after a step. -/
def PathStep.after (x : Slot) (u : Bool) : PathStep → Bool
  | .assigns s => if s = x then false else u
  | .forgets s => if s = x then true else u
  | .reads _ _ | .makes _ _ => u

/-- Whether a variable is unassigned after steps of a path. -/
def unassignedAfter (x : Slot) (u : Bool) (tr : List PathStep) : Bool :=
  tr.foldl (PathStep.after x) u

/-- A step uses a slot on a line: it reads it there, or there the value of a class comes
about that captures it. -/
def PathStep.Uses (captures : Captures) (x : Slot) (line : Line) : PathStep → Prop
  | .reads s l => s = x ∧ l = line
  | .makes c l => x ∈ captures.of c ∧ l = line
  | .assigns _ | .forgets _ => False

/-- Some step uses a variable on a line while the variable is unassigned. -/
def Hits (captures : Captures) (x : Slot) (line : Line) (u : Bool) (tr : List PathStep) : Prop :=
  ∃ before st rest, tr = before ++ st :: rest ∧ unassignedAfter x u before = true ∧
    st.Uses captures x line

/-- On some path through a body a variable is used on a line while it is unassigned. It is
so where the path begins. -/
def Program.Block.ReadsEarly (named : List (Slot × ClassDecl)) (captures : Captures) (b : Block)
    (x : Slot) (line : Line) : Prop :=
  ∃ tr r, b.paths named tr r ∧ Hits captures x line true tr

section Variable

variable {captures : Captures} {x : Slot} {line : Line} {u v : Bool} {tr tr' : List PathStep}
  {st : PathStep}

/-- A variable that is unassigned before a step in more cases is so after it. -/
lemma PathStep.after_mono (h : u ≤ v) (st : PathStep) : st.after x u ≤ st.after x v := by
  cases st with
  | reads _ _ | makes _ _ => exact h
  | assigns s | forgets s =>
    simp only [PathStep.after]
    split
    · exact le_refl _
    · exact h

/-- A variable that is unassigned at first in more cases is so after any steps. -/
lemma unassignedAfter_mono (h : u ≤ v) (tr : List PathStep) :
    unassignedAfter x u tr ≤ unassignedAfter x v tr := by
  induction tr generalizing u v with
  | nil => exact h
  | cons st tr ih => exact ih (st.after_mono h)

/-- The steps of one path come before those of another. -/
lemma unassignedAfter_append (u : Bool) (tr tr' : List PathStep) :
    unassignedAfter x u (tr ++ tr') = unassignedAfter x (unassignedAfter x u tr) tr' :=
  List.foldl_append ..

/-- Nothing is used where there are no steps. -/
lemma not_hits_nil : ¬Hits captures x line u [] := by
  rintro ⟨before, st, rest, same, -⟩
  exact absurd same.symm (by simp)

/-- A use is at the first step or later. -/
lemma hits_cons : Hits captures x line u (st :: tr) ↔
    u = true ∧ st.Uses captures x line ∨ Hits captures x line (st.after x u) tr := by
  constructor
  · rintro ⟨before, st', rest, same, unassigned, uses⟩
    cases before with
    | nil =>
      cases same
      exact .inl ⟨unassigned, uses⟩
    | cons st₀ before =>
      cases same
      exact .inr ⟨before, st', rest, rfl, unassigned, uses⟩
  · rintro (⟨unassigned, uses⟩ | ⟨before, st', rest, rfl, unassigned, uses⟩)
    · exact ⟨[], st, tr, rfl, unassigned, uses⟩
    · exact ⟨st :: before, st', rest, rfl, unassigned, uses⟩

/-- A single step uses what it uses, if that is unassigned. -/
lemma hits_one : Hits captures x line u [st] ↔ u = true ∧ st.Uses captures x line := by
  rw [hits_cons, or_iff_left not_hits_nil]

/-- A use is on the one part of a path or on the other. -/
lemma hits_append : Hits captures x line u (tr ++ tr') ↔
    Hits captures x line u tr ∨ Hits captures x line (unassignedAfter x u tr) tr' := by
  induction tr generalizing u with
  | nil => simp [not_hits_nil, unassignedAfter]
  | cons st tr ih =>
    rw [List.cons_append, hits_cons, hits_cons, ih, or_assoc]
    rfl

/-- A variable that is unassigned in more cases is used too early in more cases. -/
lemma Hits.mono (h : u ≤ v) (hits : Hits captures x line u tr) : Hits captures x line v tr := by
  obtain ⟨before, st, rest, same, unassigned, uses⟩ := hits
  exact ⟨before, st, rest, same, unassignedAfter_mono h before unassigned, uses⟩

/-- A variable that is forgotten on no step is not unassigned later than before. -/
lemma unassignedAfter_le (h : .forgets x ∉ tr) : unassignedAfter x u tr ≤ u := by
  induction tr generalizing u with
  | nil => exact le_refl _
  | cons st tr ih =>
    have first : st ≠ .forgets x := fun same => h (same ▸ List.mem_cons_self ..)
    refine (ih fun later => h (List.mem_cons_of_mem _ later)).trans ?_
    cases st with
    | reads _ _ | makes _ _ => exact le_refl _
    | assigns s =>
      simp only [PathStep.after]
      split
      · exact Bool.false_le _
      · exact le_refl _
    | forgets s =>
      have other : s ≠ x := fun same => first (same ▸ rfl)
      simp only [PathStep.after, if_neg other, le_refl]

/-- A variable that is assigned on no step stays unassigned. -/
lemma unassignedAfter_eq_true (h : .assigns x ∉ tr) : unassignedAfter x true tr = true := by
  induction tr with
  | nil => rfl
  | cons st tr ih =>
    have first : st ≠ .assigns x := fun same => h (same ▸ List.mem_cons_self ..)
    have same : st.after x true = true := by
      cases st with
      | reads _ _ | makes _ _ => rfl
      | assigns s => exact if_neg fun same => first (by rw [same])
      | forgets s =>
        simp only [PathStep.after]
        split <;> rfl
    change unassignedAfter x (st.after x true) tr = true
    rw [same]
    exact ih fun later => h (List.mem_cons_of_mem _ later)

end Variable

/-! ### Steps that paths do not have -/

/-- No path has a step. -/
def Paths.Without (st : PathStep) (P : Paths) : Prop := ∀ tr r, P tr r → st ∉ tr

namespace Paths

variable {st st' : PathStep} {P Q : Paths}

/-- The empty path has no steps. -/
lemma without_idle : idle.Without st := by
  rintro tr r ⟨rfl, -⟩
  exact List.not_mem_nil

/-- The path that leaves a body has no steps. -/
lemma without_leave : leave.Without st := by
  rintro tr r ⟨rfl, -⟩
  exact List.not_mem_nil

/-- A path of one step has no other. -/
lemma without_one (h : st ≠ st') : (one st').Without st := by
  rintro tr r ⟨rfl, -⟩ mem
  exact h (List.mem_singleton.1 mem)

/-- Paths one after the other have no step that neither of them has. -/
lemma Without.andThen (h : P.Without st) (h' : Q.Without st) : (P.andThen Q).Without st := by
  rintro tr r (⟨tr₁, tr₂, hP, hQ, rfl⟩ | ⟨hP, -⟩)
  · exact fun mem => (List.mem_append.1 mem).elim (h _ _ hP) (h' _ _ hQ)
  · exact h _ _ hP

/-- Alternative paths have no step that neither of them has. -/
lemma Without.either (h : P.Without st) (h' : Q.Without st) : (P.either Q).Without st :=
  fun tr r path => path.elim (h tr r) (h' tr r)

/-- The rounds of a loop have no step that neither its condition nor its body has. -/
lemma Without.rounds (h : P.Without st) (h' : Q.Without st) : (Rounds P Q).Without st := by
  intro tr r path
  induction path with
  | done hP => exact h _ _ hP
  | again hP hQ rest ih =>
    rw [List.mem_append, List.mem_append]
    exact fun mem => (mem.imp_left fun mem => mem.elim (h _ _ hP) (h' _ _ hQ)).elim id ih
  | left hP hQ =>
    exact fun mem => (List.mem_append.1 mem).elim (h _ _ hP) (h' _ _ hQ)

/-- No path leaves the body. -/
def Through (P : Paths) : Prop := ∀ tr r, P tr r → r = .through

/-- The empty path leaves no body. -/
lemma through_idle : idle.Through := fun _ _ path => path.2

/-- A path of one step leaves no body. -/
lemma through_one (st : PathStep) : (one st).Through := fun _ _ path => path.2

/-- Paths one after the other leave no body if neither of them does. -/
lemma Through.andThen (h : P.Through) (h' : Q.Through) : (P.andThen Q).Through := by
  rintro tr r (⟨tr₁, tr₂, -, hQ, -⟩ | ⟨hP, -⟩)
  · exact h' _ _ hQ
  · exact nomatch h _ _ hP

/-- Alternative paths leave no body if neither of them does. -/
lemma Through.either (h : P.Through) (h' : Q.Through) : (P.either Q).Through := fun tr r path =>
  path.elim (h tr r) (h' tr r)

end Paths

/-! ### Steps that bodies do not have -/

namespace Program

variable {named : List (Slot × ClassDecl)} {x : Slot} {v : List Slot}

mutual

/-- No path leaves a body within an expression. -/
lemma Expr.through : (e : Expr) → (e.paths named).Through
  | .assign _ value _ => (Expr.through value).andThen (Paths.through_one _)
  | .call receiver _ none _ => (Expr.through receiver).andThen Paths.through_idle
  | .call receiver _ (some es) _ => (Expr.through receiver).andThen (exprThrough es)
  | .literal _ _ => Paths.through_idle
  | .read s line => by
    rw [Expr.paths]
    refine (Paths.through_one (.reads s line)).andThen ?_
    split
    · exact Paths.through_idle
    · exact Paths.through_one _
  | .logical _ left right _ =>
    (Expr.through left).andThen ((Expr.through right).either Paths.through_idle)
  | .cls _ => Paths.through_one _

/-- No path through expressions leaves the body. -/
lemma exprThrough : (es : List Expr) → (exprPaths named es).Through
  | [] => Paths.through_idle
  | e :: es => (Expr.through e).andThen (exprThrough es)

end

mutual

/-- An expression forgets no variable. -/
lemma Expr.without_forgets : (e : Expr) → (e.paths named).Without (.forgets x)
  | .assign _ value _ => (Expr.without_forgets value).andThen (Paths.without_one nofun)
  | .call receiver _ none _ => (Expr.without_forgets receiver).andThen Paths.without_idle
  | .call receiver _ (some es) _ =>
    (Expr.without_forgets receiver).andThen (exprWithout_forgets es)
  | .literal _ _ => Paths.without_idle
  | .read s line => by
    have read : (Paths.one (.reads s line)).Without (.forgets x) :=
      Paths.without_one fun same => nomatch same
    rw [Expr.paths]
    refine read.andThen ?_
    split
    · exact Paths.without_idle
    · exact Paths.without_one fun same => nomatch same
  | .logical _ left right _ =>
    (Expr.without_forgets left).andThen ((Expr.without_forgets right).either Paths.without_idle)
  | .cls _ => Paths.without_one nofun

/-- No path through expressions forgets a variable of the body. -/
lemma exprWithout_forgets : (es : List Expr) → (exprPaths named es).Without (.forgets x)
  | [] => Paths.without_idle
  | e :: es => (Expr.without_forgets e).andThen (exprWithout_forgets es)

end

mutual

/-- A statement forgets only variables that it declares. -/
lemma Stmt.without_forgets : (s : Stmt) → x ∉ s.locals → (s.paths named).Without (.forgets x)
  | .block body, h => Block.without_forgets body h
  | .branch condition yes none _, h =>
    (Expr.without_forgets condition).andThen
      ((Stmt.without_forgets yes fun hx => h (List.mem_append_left _ hx)).either
        Paths.without_idle)
  | .branch condition yes (some no) _, h =>
    (Expr.without_forgets condition).andThen
      ((Stmt.without_forgets yes fun hx => h (List.mem_append_left _ hx)).either
        (Stmt.without_forgets no fun hx => h (List.mem_append_right _ hx)))
  | .loop condition body _, h =>
    (Expr.without_forgets condition).rounds (Stmt.without_forgets body h)
  | .var s none _, h => Paths.without_one fun same => by
    cases same
    exact h (List.mem_singleton_self _)
  | .var s (some e) _, _ => (Expr.without_forgets e).andThen (Paths.without_one nofun)
  | .ret none _, _ => Paths.without_leave
  | .ret (some e) _, _ => (Expr.without_forgets e).andThen Paths.without_leave
  | .eval e, _ => Expr.without_forgets e

/-- No path through statements forgets what is not a variable of theirs. -/
lemma stmtWithout_forgets : (ss : List Stmt) → x ∉ stmtLocals ss →
    (stmtPaths named ss).Without (.forgets x)
  | [], _ => Paths.without_idle
  | s :: ss, h =>
    (Stmt.without_forgets s fun hx => h (List.mem_append_left _ hx)).andThen
      (stmtWithout_forgets ss fun hx => h (List.mem_append_right _ hx))

/-- No path through a block forgets what is not a variable of it. -/
lemma Block.without_forgets : (b : Block) → x ∉ b.locals → (b.paths named).Without (.forgets x)
  | ⟨statements, _, _⟩, h => stmtWithout_forgets statements h

end

mutual

/-- An expression assigns only what is visible. -/
lemma Expr.without_assigns (hx : x ∉ v) : (e : Expr) → e.Closed true v →
    (e.paths named).Without (.assigns x)
  | .assign target value _, h => (Expr.without_assigns hx value h.2).andThen
    (Paths.without_one fun same => by
      cases same
      exact hx h.1)
  | .call receiver _ none _, h => (Expr.without_assigns hx receiver h.1).andThen Paths.without_idle
  | .call receiver _ (some es) _, h =>
    (Expr.without_assigns hx receiver h.1).andThen (exprWithout_assigns hx es h.2)
  | .literal _ _, _ => Paths.without_idle
  | .read s line, _ => by
    have read : (Paths.one (.reads s line)).Without (.assigns x) :=
      Paths.without_one fun same => nomatch same
    rw [Expr.paths]
    refine read.andThen ?_
    split
    · exact Paths.without_idle
    · exact Paths.without_one fun same => nomatch same
  | .logical _ left right _, h =>
    (Expr.without_assigns hx left h.1).andThen
      ((Expr.without_assigns hx right h.2).either Paths.without_idle)
  | .cls _, _ => Paths.without_one nofun

/-- No path through expressions assigns what is not visible to them. -/
lemma exprWithout_assigns (hx : x ∉ v) : (es : List Expr) → exprClosed true v es →
    (exprPaths named es).Without (.assigns x)
  | [], _ => Paths.without_idle
  | e :: es, h => (Expr.without_assigns hx e h.1).andThen (exprWithout_assigns hx es h.2)

end

/-- What is in neither of two lists is not in the first. -/
lemma not_mem_left {ys zs : List Slot} (h : x ∉ ys ++ zs) : x ∉ ys := fun hx =>
  h (List.mem_append_left _ hx)

/-- What is in neither of two lists is not in the second. -/
lemma not_mem_right {ys zs : List Slot} (h : x ∉ ys ++ zs) : x ∉ zs := fun hx =>
  h (List.mem_append_right _ hx)

mutual

/-- A statement assigns only what is visible and what it declares. -/
lemma Stmt.without_assigns : (s : Stmt) → {v : List Slot} → x ∉ v → x ∉ s.roles.map Prod.fst →
    s.Closed true v → (s.paths named).Without (.assigns x)
  | .block body, _, hx, own, h => Block.without_assigns body hx own h
  | .branch condition yes none _, _, hx, own, h => by
    rw [Stmt.roles, List.append_nil, slots_append] at own
    exact (Expr.without_assigns hx condition h.1).andThen
      ((Stmt.without_assigns yes hx (not_mem_right own) h.2.1.2).either Paths.without_idle)
  | .branch condition yes (some no) _, _, hx, own, h => by
    rw [Stmt.roles, slots_append, slots_append] at own
    exact (Expr.without_assigns hx condition h.1).andThen
      ((Stmt.without_assigns yes hx (not_mem_right (not_mem_left own)) h.2.1.2).either
        (Stmt.without_assigns no hx (not_mem_right own) h.2.2.2))
  | .loop condition body _, _, hx, own, h => by
    rw [Stmt.roles, slots_append] at own
    exact (Expr.without_assigns hx condition h.1).rounds
      (Stmt.without_assigns body hx (not_mem_right own) h.2.2)
  | .var s none _, _, _, _, _ => Paths.without_one nofun
  | .var s (some e) _, _, hx, own, h =>
    (Expr.without_assigns hx e h).andThen (Paths.without_one fun same => by
      cases same
      exact own (List.mem_cons_self ..))
  | .ret none _, _, _, _, _ => Paths.without_leave
  | .ret (some e) _, _, hx, _, h => (Expr.without_assigns hx e h).andThen Paths.without_leave
  | .eval e, _, hx, _, h => Expr.without_assigns hx e h

/-- No path through statements assigns what is neither visible to them nor declared by them. -/
lemma stmtWithout_assigns : (ss : List Stmt) → {v : List Slot} → x ∉ v →
    x ∉ (stmtRoles ss).map Prod.fst → stmtClosed true v ss →
      (stmtPaths named ss).Without (.assigns x)
  | [], _, _, _, _ => Paths.without_idle
  | s :: ss, v, hx, own, h => by
    rw [stmtRoles, slots_append] at own
    have fresh : x ∉ s.own := fun mem => by
      have := s.count_own_le x
      have := List.count_pos_iff.2 mem
      exact not_mem_left own (List.count_pos_iff.1 (by omega))
    have fresh' : x ∉ s.own ++ v := fun mem => (List.mem_append.1 mem).elim fresh hx
    exact (Stmt.without_assigns s hx (not_mem_left own) h.1).andThen
      (stmtWithout_assigns ss fresh' (not_mem_right own) h.2)

/-- No path through a block assigns what is neither visible to it nor declared by it. -/
lemma Block.without_assigns : (b : Block) → {v : List Slot} → x ∉ v → x ∉ b.roles.map Prod.fst →
    b.Closed true v → (b.paths named).Without (.assigns x)
  | ⟨statements, _, classes⟩, v, hx, own, h => by
    rw [Block.roles, slots_append, slots_append, List.map_map] at own
    have fresh : x ∉ classes.map Prod.fst ++ v := fun mem =>
      (List.mem_append.1 mem).elim (not_mem_left own) hx
    exact stmtWithout_assigns statements fresh (not_mem_right (not_mem_right own)) h.1

end

/-! ### Variables and their statements -/

section Orderly

variable (named : List (Slot × ClassDecl)) (x : Slot)

mutual

/-- No path through a statement assigns a variable before it comes to the statement of
the variable. -/
def Stmt.Orderly : Stmt → Prop
  | .block body => body.Orderly
  | .branch condition yes no _ =>
    (x ∈ yes.locals ++ (match no with | none => [] | some s => s.locals) →
      (condition.paths named).Without (.assigns x)) ∧
      yes.Orderly ∧ (match no with | none => True | some s => s.Orderly)
  | .loop condition body _ =>
    (x ∈ body.locals → (condition.paths named).Without (.assigns x)) ∧ body.Orderly
  | .var _ _ _ | .ret _ _ | .eval _ => True

/-- Statements whose paths do not either. -/
def stmtOrderly : List Stmt → Prop
  | [] => True
  | s :: ss =>
    s.Orderly ∧ (x ∈ stmtLocals ss → (s.paths named).Without (.assigns x)) ∧ stmtOrderly ss

/-- A block whose paths do not either. -/
def Block.Orderly : Block → Prop
  | ⟨statements, _, _⟩ => stmtOrderly statements

end

end Orderly

mutual

/-- The variables of a body are declared within it. -/
lemma Stmt.var_of_mem_locals : (s : Stmt) → x ∈ s.locals → (x, .var) ∈ s.roles
  | .block body, h => Block.var_of_mem_locals body h
  | .branch condition yes none _, h => by
    rw [Stmt.locals, List.append_nil] at h
    rw [Stmt.roles, List.append_nil]
    exact List.mem_append_right _ (Stmt.var_of_mem_locals yes h)
  | .branch condition yes (some no) _, h =>
    (List.mem_append.1 h).elim
      (fun h => List.mem_append_left _ (List.mem_append_right _ (Stmt.var_of_mem_locals yes h)))
      fun h => List.mem_append_right _ (Stmt.var_of_mem_locals no h)
  | .loop condition body _, h => List.mem_append_right _ (Stmt.var_of_mem_locals body h)
  | .var s init _, h => by
    rw [List.mem_singleton.1 h]
    cases init <;> exact List.mem_cons_self ..
  | .ret _ _, h => absurd h List.not_mem_nil
  | .eval _, h => absurd h List.not_mem_nil

/-- What the statements of a body have as a variable they declare as one. -/
lemma stmtVar_of_mem_locals : (ss : List Stmt) → x ∈ stmtLocals ss → (x, .var) ∈ stmtRoles ss
  | [], h => absurd h List.not_mem_nil
  | s :: ss, h =>
    (List.mem_append.1 h).elim (fun h => List.mem_append_left _ (Stmt.var_of_mem_locals s h))
      fun h => List.mem_append_right _ (stmtVar_of_mem_locals ss h)

/-- What a block has as a variable it declares as one. -/
lemma Block.var_of_mem_locals : (b : Block) → x ∈ b.locals → (x, .var) ∈ b.roles
  | ⟨statements, _, _⟩, h =>
    List.mem_append_right _ (List.mem_append_right _ (stmtVar_of_mem_locals statements h))

end

mutual

/-- Where what is visible leaves room for what a statement declares, no variable of the
statement is assigned too soon. -/
lemma Stmt.orderly : (s : Stmt) → {v : List Slot} → s.Closed true v → LeavesRoom v s.roles →
    s.Orderly named x
  | .block body, _, closed, room => Block.orderly body closed room
  | .branch condition yes none line, _, closed, room => by
    have room' : LeavesRoom _ yes.roles := room.sublist (by
      rw [Stmt.roles, List.append_nil]
      exact List.sublist_append_right _ _)
    refine ⟨fun hx => ?_, Stmt.orderly yes closed.2.1.2 room', trivial⟩
    have hx : (x, .var) ∈ (Stmt.branch condition yes none line).roles :=
      Stmt.var_of_mem_locals (.branch condition yes none line) hx
    exact Expr.without_assigns (room.not_mem hx) condition closed.1
  | .branch condition yes (some no) line, _, closed, room => by
    have room' : LeavesRoom _ yes.roles :=
      room.sublist ((List.sublist_append_right _ _).trans (List.sublist_append_left _ _))
    refine ⟨fun hx => ?_, Stmt.orderly yes closed.2.1.2 room',
      Stmt.orderly no closed.2.2.2 (room.sublist (List.sublist_append_right _ _))⟩
    have hx : (x, .var) ∈ (Stmt.branch condition yes (some no) line).roles :=
      Stmt.var_of_mem_locals (.branch condition yes (some no) line) hx
    exact Expr.without_assigns (room.not_mem hx) condition closed.1
  | .loop condition body line, _, closed, room => by
    refine ⟨fun hx => ?_,
      Stmt.orderly body closed.2.2 (room.sublist (List.sublist_append_right _ _))⟩
    have hx : (x, .var) ∈ (Stmt.loop condition body line).roles :=
      Stmt.var_of_mem_locals (.loop condition body line) hx
    exact Expr.without_assigns (room.not_mem hx) condition closed.1
  | .var _ _ _, _, _, _ => trivial
  | .ret _ _, _, _, _ => trivial
  | .eval _, _, _, _ => trivial

/-- Statements that have room for what they declare assign no variable before its statement. -/
lemma stmtOrderly_of_room : (ss : List Stmt) → {v : List Slot} → stmtClosed true v ss →
    LeavesRoom v (stmtRoles ss) → stmtOrderly named x ss
  | [], _, _, _ => trivial
  | s :: ss, v, closed, room => by
    refine ⟨Stmt.orderly s closed.1 (room.sublist (List.sublist_append_left _ _)), fun hx => ?_,
      stmtOrderly_of_room ss closed.2 (leavesRoom_rest room)⟩
    have later := stmtVar_of_mem_locals ss hx
    exact Stmt.without_assigns s (room.not_mem (List.mem_append_right _ later)) (room.apart later)
      closed.1

/-- A block that has room for what it declares assigns no variable before its statement. -/
lemma Block.orderly : (b : Block) → {v : List Slot} → b.Closed true v → LeavesRoom v b.roles →
    b.Orderly named x
  | ⟨statements, names, classes⟩, _, closed, room =>
    stmtOrderly_of_room statements closed.1
      (leavesRoom_statements (b := ⟨statements, names, classes⟩) room)

end

end Program

end Ember
