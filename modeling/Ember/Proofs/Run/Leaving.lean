/-
How control leaves the bodies of a program.

* `Passage`: code that control passes through, and `Exit`: the ways in which it leaves
  such code;
* `Exits`: the rules by which control leaves code; `exits_of_run` says that whatever
  comes to an end is left by them;
* `Exits.shape`: control leaves code only as its shape admits;
* `Program.Script.ordinaryMethods`: the methods that are held to return a value always or
  never; `Program.Script.count_returnProblems` says which of them are reported;
* `returns_sound`: the main theorem.
-/
import Mathlib
import Ember.Proofs.Run.Causes

namespace Ember

open Program

variable {σ : Type}

/-! ### Ways out -/

/-- Code that control passes through. -/
inductive Passage where
  | block (b : Block)
  | stmts (ss : List Stmt)
  | stmt (s : Stmt)
  | loop (condition : Expr) (inner : Stmt)

/-- How control leaves code. -/
inductive Exit where
  /-- It comes to the end of the code. -/
  | through
  /-- It comes to a return without a value. -/
  | bare (line : Line)
  /-- It comes to a return with an expression, whose value is `v`. -/
  | value (expr : Expr) (v : Value) (line : Line)

namespace Exit

/-- How a statement that is left in this way ends. -/
def completion : Exit → Completion
  | through => .normal
  | bare line => .returned .null line
  | value _ v line => .returned v line

/-- What an invocation yields whose body is left in this way. -/
def result : Exit → Value
  | through | bare _ => .null
  | value _ v _ => v

/-- The body is left by a return with an expression. -/
def HasValue (x : Exit) : Prop := ∃ expr v line, x = value expr v line

/-- A way out without a value answers with null. -/
lemma result_of_not_hasValue {x : Exit} (h : ¬x.HasValue) : x.result = .null := by
  cases x with
  | through | bare _ => rfl
  | value expr v line => exact absurd ⟨expr, v, line, rfl⟩ h

end Exit

/-- The rules by which control leaves code: after which steps, in which way and on which
machine. -/
inductive Exits (host : Host σ) :
    Passage → Environment → Machine σ → Exit → Machine σ → Prop where
  | block {b : Block} {e e' : Environment} {m m₁ m₂ m' : Machine σ} {x : Exit}
      (frame : Run.child e m = .done e' m₁) (classes : makeClasses e' b.classes m₁ = .done () m₂)
      (body : Exits host (.stmts b.statements) e' m₂ x m') : Exits host (.block b) e m x m'
  | done {e : Environment} {m : Machine σ} : Exits host (.stmts []) e m .through m
  | next {s : Stmt} {ss : List Stmt} {e : Environment} {m m₁ m' : Machine σ} {x : Exit}
      (first : Exits host (.stmt s) e m .through m₁) (rest : Exits host (.stmts ss) e m₁ x m') :
      Exits host (.stmts (s :: ss)) e m x m'
  | stop {s : Stmt} {ss : List Stmt} {e : Environment} {m m' : Machine σ} {x : Exit}
      (first : Exits host (.stmt s) e m x m') (returns : x ≠ .through) :
      Exits host (.stmts (s :: ss)) e m x m'
  | inner {b : Block} {e : Environment} {m m' : Machine σ} {x : Exit}
      (body : Exits host (.block b) e m x m') : Exits host (.stmt (.block b)) e m x m'
  | yes {condition : Expr} {yes : Stmt} {no : Option Stmt} {line : Line} {e : Environment}
      {m m₁ m' : Machine σ} {x : Exit} {fuel : Nat}
      (test : evalTest host fuel condition e m = .done true m₁)
      (branch : Exits host (.stmt yes) e m₁ x m') :
      Exits host (.stmt (.branch condition yes no line)) e m x m'
  | no {condition : Expr} {yes no : Stmt} {line : Line} {e : Environment}
      {m m₁ m' : Machine σ} {x : Exit} {fuel : Nat}
      (test : evalTest host fuel condition e m = .done false m₁)
      (branch : Exits host (.stmt no) e m₁ x m') :
      Exits host (.stmt (.branch condition yes (some no) line)) e m x m'
  | skip {condition : Expr} {yes : Stmt} {line : Line} {e : Environment} {m m' : Machine σ}
      {fuel : Nat} (test : evalTest host fuel condition e m = .done false m') :
      Exits host (.stmt (.branch condition yes none line)) e m .through m'
  | enter {condition : Expr} {inner : Stmt} {line : Line} {e : Environment} {m m' : Machine σ}
      {x : Exit} (loop : Exits host (.loop condition inner) e m x m') :
      Exits host (.stmt (.loop condition inner line)) e m x m'
  | ended {condition : Expr} {inner : Stmt} {e : Environment} {m m' : Machine σ} {fuel : Nat}
      (test : evalTest host fuel condition e m = .done false m') :
      Exits host (.loop condition inner) e m .through m'
  | again {condition : Expr} {inner : Stmt} {e : Environment} {m m₁ m₂ m' : Machine σ}
      {x : Exit} {fuel : Nat} (test : evalTest host fuel condition e m = .done true m₁)
      (round : Exits host (.stmt inner) e m₁ .through m₂)
      (rest : Exits host (.loop condition inner) e m₂ x m') :
      Exits host (.loop condition inner) e m x m'
  | escape {condition : Expr} {inner : Stmt} {e : Environment} {m m₁ m' : Machine σ}
      {x : Exit} {fuel : Nat} (test : evalTest host fuel condition e m = .done true m₁)
      (round : Exits host (.stmt inner) e m₁ x m') (returns : x ≠ .through) :
      Exits host (.loop condition inner) e m x m'
  | var {s : Slot} {init : Option Expr} {line : Line} {e : Environment} {m m' : Machine σ}
      {fuel : Nat} (run : runStmt host fuel (.var s init line) e m = .done .normal m') :
      Exits host (.stmt (.var s init line)) e m .through m'
  | eval {expr : Expr} {e : Environment} {v : Value} {m m' : Machine σ} {fuel : Nat}
      (run : Ember.eval host fuel expr e m = .done v m') :
      Exits host (.stmt (.eval expr)) e m .through m'
  | bare {line : Line} {e : Environment} {m : Machine σ} :
      Exits host (.stmt (.ret none line)) e m (.bare line) m
  | value {expr : Expr} {line : Line} {e : Environment} {v : Value} {m m' : Machine σ}
      {fuel : Nat} (run : Ember.eval host fuel expr e m = .done v m') :
      Exits host (.stmt (.ret (some expr) line)) e m (.value expr v line) m'

/-! ### Runs follow the rules -/

/-- Runs code up to its end or to a return. -/
def Passage.run (host : Host σ) (fuel : Nat) : Passage → Environment → Run σ Completion
  | block b, e => runBlock host fuel b e
  | stmts ss, e => runStmts host fuel ss e
  | stmt s, e => runStmt host fuel s e
  | loop condition inner, e => runLoop host fuel condition inner e

/-- A step followed by another is done when both are. -/
lemma Run.bind_eq_done {α β : Type} {x : Run σ α} {f : α → Run σ β} {m m' : Machine σ} {b : β} :
    (x >>= f) m = .done b m' ↔ ∃ a m₁, x m = .done a m₁ ∧ f a m₁ = .done b m' := by
  change Run.bind x f m = _ ↔ _
  rw [Run.bind]
  cases x m with
  | done a m₁ => simp
  | failed err m₁ => simp
  | exhausted => simp

/-- Code ends with a return if it is left by one. -/
lemma Exit.eq_returned {x : Exit} {v : Value} {line : Line} (h : x.completion = .returned v line) :
    x ≠ .through := by
  rintro rfl
  cases h

/-- Control that ends normally has come through. -/
lemma Exit.eq_through {x : Exit} (h : x.completion = .normal) : x = .through := by
  cases x with
  | through => rfl
  | bare _ | value _ _ _ => cases h

section Rules

variable {host : Host σ} {fuel : Nat}

/-- Whenever code comes to an end, it is left by the rules, in the way in which it ends. -/
def Passage.Obeys (p : Passage) (host : Host σ) (fuel : Nat) : Prop :=
  ∀ {e : Environment} {m m' : Machine σ} {c : Completion}, p.run host fuel e m = .done c m' →
    ∃ x, Exits host p e m x m' ∧ x.completion = c

variable (ih : ∀ p : Passage, p.Obeys host fuel)

include ih

/-- A block is left as its statements are. -/
lemma Passage.obeys_block (b : Block) : (Passage.block b).Obeys host (fuel + 1) := by
  intro e m m' c done
  simp only [Passage.run, runBlock, Run.bind_eq_done] at done
  obtain ⟨e', m₁, frame, _, m₂, classes, body⟩ := done
  obtain ⟨x, left, hx⟩ := ih (.stmts b.statements) body
  exact ⟨x, .block frame classes left, hx⟩

/-- Statements are left where the first one is, or as the others are. -/
lemma Passage.obeys_stmts (ss : List Stmt) : (Passage.stmts ss).Obeys host (fuel + 1) := by
  intro e m m' c done
  cases ss with
  | nil =>
    cases done
    exact ⟨.through, .done, rfl⟩
  | cons s ss =>
    simp only [Passage.run, runStmts, Run.bind_eq_done] at done
    obtain ⟨first, m₁, run, rest⟩ := done
    obtain ⟨x, left, hx⟩ := ih (.stmt s) run
    cases first with
    | normal =>
      obtain ⟨y, left', hy⟩ := ih (.stmts ss) rest
      cases x.eq_through hx
      exact ⟨y, .next left left', hy⟩
    | returned v line =>
      cases rest
      exact ⟨x, .stop left (Exit.eq_returned hx), hx⟩

/-- A conditional is left as one of its branches is. -/
lemma Passage.obeys_branch (condition : Expr) (yes : Stmt) (no : Option Stmt) (line : Line) :
    (Passage.stmt (.branch condition yes no line)).Obeys host (fuel + 1) := by
  intro e m m' c done
  simp only [Passage.run, runStmt, Run.bind_eq_done] at done
  obtain ⟨b, m₁, test, rest⟩ := done
  cases b with
  | true =>
    obtain ⟨x, left, hx⟩ := ih (.stmt yes) rest
    exact ⟨x, .yes test left, hx⟩
  | false =>
    cases no with
    | none =>
      cases rest
      exact ⟨.through, .skip test, rfl⟩
    | some no =>
      obtain ⟨x, left, hx⟩ := ih (.stmt no) rest
      exact ⟨x, .no test left, hx⟩

/-- A statement is left by the rules. -/
lemma Passage.obeys_stmt (s : Stmt) : (Passage.stmt s).Obeys host (fuel + 1) := by
  cases s with
  | block b =>
    intro e m m' c done
    obtain ⟨x, left, hx⟩ := ih (.block b) done
    exact ⟨x, .inner left, hx⟩
  | branch condition yes no line => exact obeys_branch ih condition yes no line
  | loop condition inner line =>
    intro e m m' c done
    obtain ⟨x, left, hx⟩ := ih (.loop condition inner) done
    exact ⟨x, .enter left, hx⟩
  | var s init line =>
    intro e m m' c done
    have normal : c = .normal := by
      cases init <;>
      · simp only [Passage.run, runStmt, Run.bind_eq_done] at done
        obtain ⟨_, _, -, _, _, -, last⟩ := done
        cases last
        rfl
    subst normal
    exact ⟨.through, .var done, rfl⟩
  | ret value line =>
    intro e m m' c done
    cases value with
    | none =>
      cases done
      exact ⟨.bare line, .bare, rfl⟩
    | some expr =>
      simp only [Passage.run, runStmt, Run.bind_eq_done] at done
      obtain ⟨v, m₁, run, last⟩ := done
      cases last
      exact ⟨.value expr v line, .value run, rfl⟩
  | eval expr =>
    intro e m m' c done
    simp only [Passage.run, runStmt, Run.bind_eq_done] at done
    obtain ⟨v, m₁, run, last⟩ := done
    cases last
    exact ⟨.through, .eval run, rfl⟩

/-- A loop is left by the rules, after any number of rounds. -/
lemma Passage.obeys_loop (condition : Expr) (inner : Stmt) :
    (Passage.loop condition inner).Obeys host (fuel + 1) := by
  intro e m m' c done
  simp only [Passage.run, runLoop, Run.bind_eq_done] at done
  obtain ⟨b, m₁, test, rest⟩ := done
  cases b with
  | false =>
    cases rest
    exact ⟨.through, .ended test, rfl⟩
  | true =>
    simp only [if_true, Run.bind_eq_done] at rest
    obtain ⟨first, m₂, run, rest⟩ := rest
    obtain ⟨x, left, hx⟩ := ih (.stmt inner) run
    cases first with
    | normal =>
      obtain ⟨y, left', hy⟩ := ih (.loop condition inner) rest
      cases x.eq_through hx
      exact ⟨y, .again test left left', hy⟩
    | returned v line =>
      cases rest
      exact ⟨x, .escape test left (Exit.eq_returned hx), hx⟩

end Rules

/-- Whatever control passes through and comes to an end of is left by the rules. -/
lemma Passage.obeys (host : Host σ) (fuel : Nat) : ∀ p : Passage, p.Obeys host fuel := by
  induction fuel with
  | zero =>
    intro p e m m' c done
    cases p <;> simp [Passage.run, runBlock, runStmts, runStmt, runLoop, Run.exhausted] at done
  | succ fuel ih =>
    intro p
    cases p with
    | block b => exact obeys_block ih b
    | stmts ss => exact obeys_stmts ih ss
    | stmt s => exact obeys_stmt ih s
    | loop condition inner => exact obeys_loop ih condition inner

/-- Code that comes to an end is left by the rules, in the way in which it ends. -/
theorem exits_of_run {host : Host σ} {fuel : Nat} {p : Passage} {e : Environment}
    {m m' : Machine σ} {c : Completion} (done : p.run host fuel e m = .done c m') :
    ∃ x, Exits host p e m x m' ∧ x.completion = c :=
  p.obeys host fuel done

/-! ### Shapes -/

namespace Passage

/-- Whether control can reach the end of the code, as far as its shape tells. -/
def completes : Passage → Bool
  | block b => b.completes
  | stmts ss => completeAll ss
  | stmt s => s.completes
  | loop _ _ => true

/-- Whether a return with a value stands in the code. -/
def returnsValue : Passage → Bool
  | block b => b.returnsValue
  | stmts ss => anyReturnsValue ss
  | stmt s => s.returnsValue
  | loop _ inner => inner.returnsValue

/-- Whether a return without a value stands in the code. -/
def returnsNothing : Passage → Bool
  | block b => b.returnsNothing
  | stmts ss => anyReturnsNothing ss
  | stmt s => s.returnsNothing
  | loop _ inner => inner.returnsNothing

/-- Statements complete if all of them do. -/
lemma completes_cons (s : Stmt) (ss : List Stmt) :
    (stmts (s :: ss)).completes = ((stmt s).completes && (stmts ss).completes) := rfl

/-- Statements return a value if one of them does. -/
lemma returnsValue_cons (s : Stmt) (ss : List Stmt) :
    (stmts (s :: ss)).returnsValue = ((stmt s).returnsValue || (stmts ss).returnsValue) := rfl

/-- Statements return nothing if one of them does. -/
lemma returnsNothing_cons (s : Stmt) (ss : List Stmt) :
    (stmts (s :: ss)).returnsNothing = ((stmt s).returnsNothing || (stmts ss).returnsNothing) := rfl

/-- Code of this shape may be left in a way. -/
def Admits (p : Passage) : Exit → Prop
  | .through => p.completes = true
  | .bare _ => p.returnsNothing = true
  | .value _ _ _ => p.returnsValue = true

/-- Returns that stand in a part of the code stand in the code. -/
lemma Admits.of_part {p q : Passage} {x : Exit} (h : p.Admits x)
    (through : x = .through → p.completes = true → q.completes = true)
    (bare : p.returnsNothing = true → q.returnsNothing = true)
    (value : p.returnsValue = true → q.returnsValue = true) : q.Admits x := by
  cases x with
  | through => exact through rfl h
  | bare line => exact bare h
  | value expr v line => exact value h

end Passage

/-- Control leaves code only as its shape admits. -/
theorem Exits.shape {host : Host σ} {p : Passage} {e : Environment} {m m' : Machine σ} {x : Exit}
    (left : Exits host p e m x m') : p.Admits x := by
  induction left with
  | @block b _ _ _ _ _ _ x _ _ _ ih =>
    obtain ⟨ss, names, classes⟩ := b
    exact ih.of_part (fun _ h => h) (fun h => h) fun h => h
  | done => exact (rfl : completeAll [] = true)
  | next _ _ first rest =>
    have first : (Passage.stmt _).completes = true := first
    exact rest.of_part (fun _ h => by rw [Passage.completes_cons, first]; exact h)
      (fun h => by rw [Passage.returnsNothing_cons, h, Bool.or_true])
      fun h => by rw [Passage.returnsValue_cons, h, Bool.or_true]
  | stop _ returns ih =>
    exact ih.of_part (fun h => absurd h returns)
      (fun h => by rw [Passage.returnsNothing_cons, h, Bool.true_or])
      fun h => by rw [Passage.returnsValue_cons, h, Bool.true_or]
  | inner _ ih => exact ih.of_part (fun _ h => h) (fun h => h) fun h => h
  | @yes _ _ no _ _ _ _ _ _ _ _ _ ih =>
    cases no <;> exact ih.of_part (fun _ h => (Bool.or_eq_true_iff ..).2 (.inl h))
      (fun h => (Bool.or_eq_true_iff ..).2 (.inl h)) fun h => (Bool.or_eq_true_iff ..).2 (.inl h)
  | no _ _ ih =>
    exact ih.of_part (fun _ h => (Bool.or_eq_true_iff ..).2 (.inr h))
      (fun h => (Bool.or_eq_true_iff ..).2 (.inr h)) fun h => (Bool.or_eq_true_iff ..).2 (.inr h)
  | skip _ => exact Bool.or_true _
  | enter _ ih => exact ih.of_part (fun _ _ => rfl) (fun h => h) fun h => h
  | ended _ => exact (rfl : Passage.completes (.loop _ _) = true)
  | again _ _ _ _ rest => exact rest
  | escape _ _ returns ih => exact ih.of_part (fun h => absurd h returns) (fun h => h) fun h => h
  | var _ | eval _ | bare | value _ => exact (rfl : true = true)

/-- Code that is left by a return has one in it. -/
lemma Exits.returns {host : Host σ} {b : Block} {e : Environment} {m m' : Machine σ} {x : Exit}
    (left : Exits host (.block b) e m x m') (returns : x ≠ .through) : b.returns = true := by
  have shape := left.shape
  rw [Block.returns, Bool.or_eq_true]
  cases x with
  | through => exact absurd rfl returns
  | bare line => exact .inr shape
  | value expr v line => exact .inl shape

/-! ### Reports -/

namespace Program

/-- The methods among those of classes that are held to return a value always or never:
static methods, those of blocks of code among them, and the methods of instances. -/
def ordinary (cs : List (Option Slot × ClassDecl)) : List Method :=
  cs.flatMap fun c => c.2.staticMethods ++ c.2.methods

/-- All such methods of a program. -/
def Script.ordinaryMethods (s : Script) : List Method := ordinary s.classes

/-- A method of a given name and line mixes its returns. -/
def Method.mixesAt (name : String) (line : Line) (m : Method) : Bool :=
  m.body.mixesReturns && (m.name = name && m.line = line)

/-- Methods of two parts are counted in both. -/
lemma countP_ordinary_append (p : Method → Bool) (cs ds : List (Option Slot × ClassDecl)) :
    (ordinary (cs ++ ds)).countP p = (ordinary cs).countP p + (ordinary ds).countP p := by
  rw [ordinary, List.flatMap_append, List.countP_append]
  rfl

/-- Methods are counted class by class. -/
lemma countP_ordinary_cons (p : Method → Bool) (c : Option Slot × ClassDecl)
    (cs : List (Option Slot × ClassDecl)) :
    (ordinary (c :: cs)).countP p =
      c.2.staticMethods.countP p + c.2.methods.countP p + (ordinary cs).countP p := by
  rw [ordinary, List.flatMap_cons, List.countP_append, List.countP_append]
  rfl

/-- A return in the wrong kind of body is not one of mixed returns. -/
lemma Role.count_returnProblems (role : Role) (hasValue : Bool) (line line' : Line)
    (name : String) : (role.returnProblems hasValue line).count (.mixed name line') = 0 := by
  cases role <;> cases hasValue <;> rfl

section Reports

variable (name : String) (line : Line)

mutual

/-- Each method within an expression that mixes its returns is reported once. -/
lemma Expr.count_returnProblems : (e : Expr) →
    e.returnProblems.count (.mixed name line) =
      (ordinary e.classes).countP (Method.mixesAt name line)
  | .assign _ value _ => Expr.count_returnProblems value
  | .call receiver _ none _ => by
    simp only [Expr.returnProblems, Expr.classes, List.append_nil]
    exact Expr.count_returnProblems receiver
  | .call receiver _ (some es) _ => by
    simp only [Expr.returnProblems, Expr.classes, List.count_append, countP_ordinary_append,
      Expr.count_returnProblems receiver, count_exprReturnProblems es]
  | .literal _ _ => rfl
  | .read _ _ => rfl
  | .logical _ left right _ => by
    simp only [Expr.returnProblems, Expr.classes, List.count_append, countP_ordinary_append,
      Expr.count_returnProblems left, Expr.count_returnProblems right]
  | .cls decl => by
    rw [Expr.returnProblems, Expr.classes, countP_ordinary_cons, decl.count_returnProblems]

/-- Each method within expressions that mixes its returns is reported once. -/
lemma count_exprReturnProblems : (es : List Expr) →
    (exprReturnProblems es).count (.mixed name line) =
      (ordinary (exprClasses es)).countP (Method.mixesAt name line)
  | [] => rfl
  | e :: es => by
    simp only [exprReturnProblems, exprClasses, List.count_append, countP_ordinary_append,
      e.count_returnProblems, count_exprReturnProblems es]

/-- Each method within a statement that mixes its returns is reported once. -/
lemma Stmt.count_returnProblems (role : Role) : (s : Stmt) →
    (s.returnProblems role).count (.mixed name line) =
      (ordinary s.classes).countP (Method.mixesAt name line)
  | .block b => b.count_returnProblems role
  | .branch condition yes none _ => by
    simp only [Stmt.returnProblems, Stmt.classes, List.append_nil, List.count_append,
      countP_ordinary_append, condition.count_returnProblems, yes.count_returnProblems role]
  | .branch condition yes (some no) _ => by
    simp only [Stmt.returnProblems, Stmt.classes, List.count_append, countP_ordinary_append,
      condition.count_returnProblems, yes.count_returnProblems role, no.count_returnProblems role]
  | .loop condition inner _ => by
    simp only [Stmt.returnProblems, Stmt.classes, List.count_append, countP_ordinary_append,
      condition.count_returnProblems, inner.count_returnProblems role]
  | .var _ none _ => rfl
  | .var _ (some e) _ => e.count_returnProblems
  | .ret none _ => by
    simp only [Stmt.returnProblems, List.nil_append, role.count_returnProblems]
    rfl
  | .ret (some e) _ => by
    simp only [Stmt.returnProblems, Stmt.classes, List.count_append, e.count_returnProblems,
      role.count_returnProblems, Nat.add_zero]
  | .eval e => e.count_returnProblems

/-- Each method within statements that mixes its returns is reported once. -/
lemma count_stmtReturnProblems (role : Role) : (ss : List Stmt) →
    (stmtReturnProblems role ss).count (.mixed name line) =
      (ordinary (stmtClasses ss)).countP (Method.mixesAt name line)
  | [] => rfl
  | s :: ss => by
    simp only [stmtReturnProblems, stmtClasses, List.count_append, countP_ordinary_append,
      s.count_returnProblems role, count_stmtReturnProblems role ss]

/-- Each method within a block that mixes its returns is reported once. -/
lemma Block.count_returnProblems (role : Role) : (b : Block) →
    (b.returnProblems role).count (.mixed name line) =
      (ordinary b.classesWithin).countP (Method.mixesAt name line)
  | ⟨statements, _, classes⟩ => by
    simp only [Block.returnProblems, Block.classesWithin, List.count_append,
      countP_ordinary_append, count_classReturnProblems classes,
      count_stmtReturnProblems role statements]

/-- Each method within declared classes that mixes its returns is reported once. -/
lemma count_classReturnProblems : (cs : List (Slot × ClassDecl)) →
    (classReturnProblems cs).count (.mixed name line) =
      (ordinary (declaredClasses cs)).countP (Method.mixesAt name line)
  | [] => rfl
  | (_, c) :: cs => by
    simp only [classReturnProblems, declaredClasses, List.count_append, countP_ordinary_append,
      countP_ordinary_cons, c.count_returnProblems, count_classReturnProblems cs]

/-- Each method of a class and within it that mixes its returns is reported once. -/
lemma ClassDecl.count_returnProblems : (c : ClassDecl) →
    c.returnProblems.count (.mixed name line) =
      c.staticMethods.countP (Method.mixesAt name line) +
        c.methods.countP (Method.mixesAt name line) +
          (ordinary c.classesWithin).countP (Method.mixesAt name line)
  | ⟨_, _, _, _, constructors, staticMethods, methods, _, _⟩ => by
    simp only [ClassDecl.returnProblems, ClassDecl.classesWithin, List.count_append,
      countP_ordinary_append, count_constructorReturnProblems constructors,
      count_methodReturnProblems staticMethods, count_methodReturnProblems methods]
    omega

/-- No constructor is reported for mixing, but the methods within its body are. -/
lemma count_constructorReturnProblems : (ms : List Method) →
    (constructorReturnProblems ms).count (.mixed name line) =
      (ordinary (methodClasses ms)).countP (Method.mixesAt name line)
  | [] => rfl
  | ⟨_, _, _, body, _⟩ :: ms => by
    simp only [constructorReturnProblems, methodClasses, List.count_append,
      countP_ordinary_append, body.count_returnProblems, count_constructorReturnProblems ms]

/-- Each method that mixes its returns is reported once, and so are those within its body. -/
lemma count_methodReturnProblems : (ms : List Method) →
    (methodReturnProblems ms).count (.mixed name line) =
      ms.countP (Method.mixesAt name line) +
        (ordinary (methodClasses ms)).countP (Method.mixesAt name line)
  | [] => rfl
  | ⟨name', params, names, body, line'⟩ :: ms => by
    have own : (if body.mixesReturns then [ReturnProblem.mixed name' line'] else []).count
        (.mixed name line) =
          if Method.mixesAt name line ⟨name', params, names, body, line'⟩ then 1 else 0 := by
      cases h : body.mixesReturns <;> simp [Method.mixesAt, h, List.count_singleton]
    simp only [methodReturnProblems, methodClasses, List.count_append, countP_ordinary_append,
      List.countP_cons, body.count_returnProblems, count_methodReturnProblems ms, own]
    omega

end

end Reports

/-- Mixed returns are reported once for each method that mixes them. -/
theorem Script.count_returnProblems (script : Script) (name : String) (line : Line) :
    (returnProblems script).count (.mixed name line) =
      script.ordinaryMethods.countP (Method.mixesAt name line) :=
  script.root.count_returnProblems name line .script

end Program

/-! ### Methods and whole programs -/

/-- The body of a method is left when the method is invoked: its parameters are bound in
a frame of their own, then control passes through the body. -/
def Program.Method.LeftBy (host : Host σ) (method : Method) (e : Environment)
    (arguments : Option (List Value)) (m : Machine σ) (x : Exit) (m' : Machine σ) : Prop :=
  ∃ frame m₁ m₂, Run.child e m = .done frame m₁ ∧
    Run.declareEach frame (method.params.getD []) (arguments.getD []) m₁ = .done () m₂ ∧
      Exits host (.block method.body) frame m₂ x m'

/-- A program is entered, whatever the host supplies. -/
lemma Program.Script.entered_succeeds (host : Host σ) (script : Script) (m : Machine σ) :
    (script.entered host).Succeeds m fun _ _ => True := by
  have globals (e : Environment) (gs : List (Slot × String)) :
      ∀ m : Machine σ, (bindGlobals host e gs).Succeeds m fun _ _ => True := by
    induction gs with
    | nil => exact fun m => .pure trivial
    | cons g gs ih => exact fun m => ih _
  have root : Run.root.Succeeds m fun _ _ => True := ⟨_, _, rfl, trivial⟩
  exact root.bind fun e m₁ _ => (globals e script.globals m₁).bind fun _ _ _ => .pure trivial

section Whole

variable {host : Host σ} {method : Method} {e : Environment} {arguments : Option (List Value)}
  {fuel : Nat} {m m' : Machine σ} {v : Value}

/-- An invocation that completes has left the body in some way, and yields what becomes of
that. -/
lemma leftBy_of_runBody (done : runBody host fuel method e arguments m = .done v m') :
    ∃ x, method.LeftBy host e arguments m x m' ∧ x.result = v := by
  cases fuel with
  | zero => cases done
  | succ fuel =>
    simp only [runBody, Run.bind_eq_done] at done
    obtain ⟨frame, m₁, child, _, m₂, bound, c, m₃, run, last⟩ := done
    obtain ⟨x, left, hx⟩ := exits_of_run (p := .block method.body) run
    cases c with
    | normal =>
      cases last
      cases x.eq_through hx
      exact ⟨.through, ⟨frame, m₁, m₂, child, bound, left⟩, rfl⟩
    | returned w line =>
      cases last
      refine ⟨x, ⟨frame, m₁, m₂, child, bound, left⟩, ?_⟩
      cases x with
      | through => cases hx
      | bare _ | value _ _ _ =>
        cases hx
        rfl

/-- A method without mixed returns leaves its body never with a value or only so. -/
lemma Program.Method.leftBy_of_not_mixes (host : Host σ)
    (clean : method.body.mixesReturns = false) :
    (method.body.returnsValue = false ∧
      ∀ e arguments (m m' : Machine σ) x, method.LeftBy host e arguments m x m' → ¬x.HasValue) ∨
    ∀ e arguments (m m' : Machine σ) x, method.LeftBy host e arguments m x m' → x.HasValue := by
  cases without : method.body.returnsValue with
  | false =>
    refine .inl ⟨rfl, fun e arguments m m' x left valued => ?_⟩
    obtain ⟨_, _, _, -, -, left⟩ := left
    obtain ⟨expr, v, line, rfl⟩ := valued
    have value : method.body.returnsValue = true := left.shape
    rw [without] at value
    cases value
  | true =>
    refine .inr fun e arguments m m' x left => ?_
    obtain ⟨_, _, _, -, -, left⟩ := left
    have shape := left.shape
    rw [Block.mixesReturns, without, Bool.true_and, Bool.or_eq_false_iff] at clean
    cases x with
    | through =>
      have through : method.body.completes = true := shape
      rw [clean.2] at through
      cases through
    | bare line =>
      have bare : method.body.returnsNothing = true := shape
      rw [clean.1] at bare
      cases bare
    | value expr v line => exact ⟨expr, v, line, rfl⟩

/-- The returns of a program are as its reports say. Where none is reported in top-level
code no run fails because a return escapes, unless a method of the host itself fails with
that cause. Static methods, those of blocks of code among them, and the methods of
instances are reported once each for mixing their returns, and of every one that is not:
either no return with a value stands in it and whatever completes yields null, or every
invocation that completes has left the body by a return with an expression, whose value
it yields. -/
theorem returns_sound (host : Host σ) (script : Script) :
    ((∀ line, .atTopLevel line ∉ returnProblems script) → ∀ fuel (m : Machine σ) err m',
      interpret host fuel script m = .failed err m' → err.cause = .returnOutsideMethod →
        ∃ o method, host.FailsWith o method .returnOutsideMethod) ∧
    (∀ name line, (returnProblems script).count (.mixed name line) =
      script.ordinaryMethods.countP (Method.mixesAt name line)) ∧
    ∀ method ∈ script.ordinaryMethods, method.body.mixesReturns = false →
      (method.body.returnsValue = false ∧ ∀ fuel e arguments (m : Machine σ) v m',
        runBody host fuel method e arguments m = .done v m' → v = .null) ∨
      ∀ fuel e arguments (m : Machine σ) v m',
        runBody host fuel method e arguments m = .done v m' →
          (∃ x, method.LeftBy host e arguments m x m' ∧ x.result = v) ∧
            ∀ x m'', method.LeftBy host e arguments m x m'' → x.HasValue := by
  refine ⟨fun without fuel m err m' failed cause => ?_, script.count_returnProblems,
    fun method _ clean => ?_⟩
  · obtain ⟨e, m₁, entered, -⟩ := script.entered_succeeds host m
    rcases interpret_failed failed entered with block | ⟨v, line, done, -⟩
    · have arises := Task.arises_of_failed host fuel _ m₁ err m' block
      rw [cause] at arises
      exact arises.resolve_left fun h => h.1 rfl
    · -- a return that escapes would stand in the top-level code
      obtain ⟨x, left, hx⟩ := exits_of_run (p := .block script.root) done
      have returns : script.root.returns = true := left.returns (Exit.eq_returned hx)
      rw [script.root.returns_of_atTopLevel without] at returns
      cases returns
  · rcases method.leftBy_of_not_mixes host clean with ⟨without, never⟩ | always
    · refine .inl ⟨without, fun fuel e arguments m v m' done => ?_⟩
      obtain ⟨x, left, rfl⟩ := leftBy_of_runBody done
      exact Exit.result_of_not_hasValue (never _ _ _ _ _ left)
    · exact .inr fun fuel e arguments m v m' done =>
        ⟨leftBy_of_runBody done, fun x m'' left => always _ _ _ _ _ left⟩

end Whole

/-- A class whose static method returns on both ways through a conditional. -/
def choosesWay : List Syntax.Stmt :=
  [.cls ⟨"Choice", 1⟩
      [⟨.onClass, ⟨"pick", 2⟩, some [⟨"first", 2⟩],
        [.branch (.variable ⟨"first", 3⟩) (.ret (some (.literal (.boolean true) 3)) 3)
          (some (.block [.ret (some (.literal .nil 4)) 4])) 3]⟩],
    .eval (.call (.variable ⟨"Choice", 5⟩) ⟨"pick", 5⟩ (some [.literal (.boolean true) 5]) none)]

/-- The method once its names are resolved. -/
def choosingMethod : Method :=
  ⟨"pick", some [⟨3⟩], [(⟨3⟩, "first")],
    ⟨[.branch (.read ⟨3⟩ 3) (.ret (some (.literal (.boolean true) 3)) 3)
      (some (.block ⟨[.ret (some (.literal .nil 4)) 4], [], []⟩)) 3], [], []⟩, 2⟩

/-- No return of such a program escapes, and an invocation of the method completes by a
return with an expression. -/
theorem returns_sound_choosesWay :
    let host : Host Unit := Host.empty
    let script := (resolve [] choosesWay).1
    (∀ line, .atTopLevel line ∉ returnProblems script) ∧ script.ordinaryMethods = [choosingMethod] ∧
      choosingMethod.body.mixesReturns = false ∧
      (∀ fuel (m : Machine Unit) err m', interpret host fuel script m = .failed err m' →
        err.cause ≠ .returnOutsideMethod) ∧
      ∃ v m' x, runBody host 9 choosingMethod ⟨0, []⟩ (some [.boolean true]) ⟨⟨#[[]]⟩, ()⟩ =
          .done v m' ∧
        choosingMethod.LeftBy host ⟨0, []⟩ (some [.boolean true]) ⟨⟨#[[]]⟩, ()⟩ x m' ∧
          x.result = v ∧ x.HasValue := by
  intro host script
  have problems : returnProblems (resolve [] choosesWay).1 = [] := by decide +kernel
  have methods : (resolve [] choosesWay).1.ordinaryMethods = [choosingMethod] := by cbv
  have clean : choosingMethod.body.mixesReturns = false := by decide +kernel
  have without (line : Line) : .atTopLevel line ∉ returnProblems script := by
    rw [problems]
    exact List.not_mem_nil
  obtain ⟨escapes, -, ways⟩ := returns_sound host script
  refine ⟨without, methods, clean, fun fuel m err m' failed cause => ?_, ?_⟩
  · obtain ⟨o, method, run, arguments, st, found, -⟩ := escapes without fuel m err m' failed cause
    cases found
  · rcases ways choosingMethod (methods ▸ List.mem_singleton_self _) clean with ⟨never, -⟩ | always
    · cases never
    · obtain ⟨⟨x, left, hx⟩, valued⟩ :=
        always 9 ⟨0, []⟩ (some [.boolean true]) ⟨⟨#[[]]⟩, ()⟩ _ _ rfl
      exact ⟨_, _, x, rfl, left, hx, valued x _ left⟩

end Ember
