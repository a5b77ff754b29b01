/-
How a program fails that all passes have let through.

* `Program.Stmt.returns_of_atTopLevel` and its companions: no return stands in code that
  is found not to return from the top level;
* `Task.Returns`: a statement ends with a return only if one stands in it;
* `Failure.IsMild`: a failure that is internal only for a slot that is not bound;
* `kept_failing`: every run ends statements and fails in these ways;
* `internal_failure_of_runProgram`: the main theorem. Such a slot is that of a variable.
-/
import Mathlib
import Ember.Proofs.Run.Chain
import Ember.Proofs.Run.Events
import Ember.Proofs.Run.Natives
import Ember.Report

namespace Ember

open Program

/-! ### Returns in top-level code -/

namespace Program

/-- A return stands in a statement. -/
def Stmt.returns (s : Stmt) : Bool := s.returnsValue || s.returnsNothing

/-- A return stands in a block. -/
def Block.returns (b : Block) : Bool := b.returnsValue || b.returnsNothing

/-- A return stands in one of the statements. -/
def anyReturns (ss : List Stmt) : Bool := anyReturnsValue ss || anyReturnsNothing ss

/-- Statements return if the first one does or the others do. -/
@[simp]
lemma anyReturns_cons (s : Stmt) (ss : List Stmt) :
    anyReturns (s :: ss) = (s.returns || anyReturns ss) := by
  simp only [anyReturns, Stmt.returns, anyReturnsValue, anyReturnsNothing]
  ac_rfl

/-- A block returns if its statements do. -/
@[simp]
lemma Block.returns_mk (ss : List Stmt) (names : List (Slot × String))
    (classes : List (Slot × ClassDecl)) :
    (Block.mk ss names classes).returns = anyReturns ss := by
  simp only [Block.returns, Block.returnsValue, Block.returnsNothing, anyReturns]

/-- A block that is a statement returns if the block does. -/
@[simp]
lemma Stmt.returns_block (b : Block) : (Stmt.block b).returns = b.returns := by
  simp only [Stmt.returns, Stmt.returnsValue, Stmt.returnsNothing, Block.returns]

/-- A conditional returns if one of its branches does. -/
@[simp]
lemma Stmt.returns_branch (condition : Expr) (yes : Stmt) (no : Option Stmt) (line : Line) :
    (Stmt.branch condition yes no line).returns = (yes.returns || no.elim false Stmt.returns) := by
  cases no with
  | none =>
    simp only [Stmt.returns, Stmt.returnsValue, Stmt.returnsNothing, Option.elim]
    ac_rfl
  | some no =>
    simp only [Stmt.returns, Stmt.returnsValue, Stmt.returnsNothing, Option.elim]
    ac_rfl

/-- A loop returns if its body does. -/
@[simp]
lemma Stmt.returns_loop (condition : Expr) (inner : Stmt) (line : Line) :
    (Stmt.loop condition inner line).returns = inner.returns := by
  simp only [Stmt.returns, Stmt.returnsValue, Stmt.returnsNothing]

/-- A return returns. -/
@[simp]
lemma Stmt.returns_ret (value : Option Expr) (line : Line) :
    (Stmt.ret value line).returns = true := by
  cases value <;> simp [Stmt.returns, Stmt.returnsValue, Stmt.returnsNothing]

/-- The declaration of a variable does not return. -/
@[simp]
lemma Stmt.returns_var (s : Slot) (init : Option Expr) (line : Line) :
    (Stmt.var s init line).returns = false := by
  simp only [Stmt.returns, Stmt.returnsValue, Stmt.returnsNothing, Bool.or_self]

/-- An expression does not return. -/
@[simp]
lemma Stmt.returns_eval (e : Expr) : (Stmt.eval e).returns = false := by
  simp only [Stmt.returns, Stmt.returnsValue, Stmt.returnsNothing, Bool.or_self]

mutual

/-- No return stands in a statement that is found not to return from top-level code. -/
lemma Stmt.returns_of_atTopLevel :
    ∀ s : Stmt, (∀ line, .atTopLevel line ∉ s.returnProblems .script) → s.returns = false
  | .block b, h => by
    rw [Stmt.returnProblems] at h
    rw [Stmt.returns_block, b.returns_of_atTopLevel h]
  | .branch condition yes none line, h => by
    simp only [Stmt.returnProblems, List.mem_append, not_or] at h
    simp [yes.returns_of_atTopLevel fun line => (h line).1.2]
  | .branch condition yes (some no) line, h => by
    simp only [Stmt.returnProblems, List.mem_append, not_or] at h
    simp [yes.returns_of_atTopLevel fun line => (h line).1.2,
      no.returns_of_atTopLevel fun line => (h line).2]
  | .loop condition inner line, h => by
    simp only [Stmt.returnProblems, List.mem_append, not_or] at h
    rw [Stmt.returns_loop, inner.returns_of_atTopLevel fun line => (h line).2]
  | .var s init line, _ => Stmt.returns_var s init line
  | .ret value line, h => by
    have here := h line
    cases value with
    | none => exact absurd (List.mem_singleton_self _) here
    | some value =>
      rw [Stmt.returnProblems] at here
      exact absurd (List.mem_append_right _ (List.mem_singleton_self _)) here
  | .eval e, _ => Stmt.returns_eval e

/-- No return stands in such statements. -/
lemma anyReturns_of_atTopLevel :
    ∀ ss : List Stmt, (∀ line, .atTopLevel line ∉ stmtReturnProblems .script ss) →
      anyReturns ss = false
  | [], _ => rfl
  | s :: ss, h => by
    simp only [stmtReturnProblems, List.mem_append, not_or] at h
    rw [anyReturns_cons, s.returns_of_atTopLevel fun line => (h line).1,
      anyReturns_of_atTopLevel ss fun line => (h line).2, Bool.or_self]

/-- No return stands in such a block. -/
lemma Block.returns_of_atTopLevel :
    ∀ b : Block, (∀ line, .atTopLevel line ∉ b.returnProblems .script) → b.returns = false
  | ⟨ss, names, classes⟩, h => by
    simp only [Block.returnProblems, List.mem_append, not_or] at h
    rw [Block.returns_mk, anyReturns_of_atTopLevel ss fun line => (h line).2]

end

/-- No return stands in a block of top-level code that is without mistakes. -/
lemma Block.returns_of_returnProblems (b : Block) (h : b.returnProblems .script = []) :
    b.returns = false :=
  b.returns_of_atTopLevel fun _ => h ▸ List.not_mem_nil

end Program

/-! ### What a run ends with -/

/-- A return ends a statement that one stands in. -/
def Completion.From (returns : Bool) : Completion → Prop
  | .normal => True
  | .returned _ _ => returns = true

/-- A return in a part is one in the whole. -/
lemma Completion.From.mono {r r' : Bool} {c : Completion} (h : c.From r)
    (within : r = true → r' = true) : c.From r' := by
  cases c with
  | normal => trivial
  | returned v line => exact within h

/-- A statement ends with a return only if one stands in it. -/
def Task.Returns : {α : Type} → Task α → α → Prop
  | _, .block b _, c => c.From b.returns
  | _, .stmts ss _, c => c.From (anyReturns ss)
  | _, .stmt s _, c => c.From s.returns
  | _, .loop _ inner _, c => c.From inner.returns
  | _, .call _ _ _ _, _ | _, .body _ _ _, _ | _, .test _ _, _ | _, .eval _ _, _
  | _, .evalAll _ _, _ => True

/-- A failure that is internal only for a slot that is not bound. -/
def Failure.IsMild (cause : Failure) : Prop := cause.IsInternal → ∃ s, cause = .undefinedSlot s

/-- The discipline of a run that ends statements and fails in these ways. -/
def failing (σ : Type) : Discipline σ Unit where
  Holds _ _ := True
  Allows := fun _ _ t Q => ∀ a, t.Returns a → Q () a
  Blames := fun _ _ _ err _ => err.cause.IsMild

variable {σ : Type} {host : Host σ} {m : Machine σ} {e : Environment}

/-! ### Steps that do not fail -/

namespace Run

/-- Declaring slots one by one does not fail. -/
lemma declareEach_succeeds (e : Environment) (ss : List Slot) (vs : List Value) (m : Machine σ) :
    (declareEach e ss vs).Succeeds m fun _ _ => True := by
  induction ss generalizing vs m with
  | nil => cases vs <;> exact .pure trivial
  | cons s ss ih =>
    cases vs with
    | nil => exact .pure trivial
    | cons v vs => exact ih vs _

end Run

/-- Making a class does not fail. -/
lemma makeClass_succeeds (decl : ClassDecl) (e : Environment) (m : Machine σ) :
    (makeClass decl e).Succeeds m fun _ _ => True := by
  have child : (Run.child e).Succeeds m fun _ _ => True := ⟨_, _, rfl, trivial⟩
  refine child.bind fun e m₁ _ => (Run.declareNull_succeeds e _ m₁).bind fun _ m₂ _ => ?_
  exact ⟨_, _, rfl, trivial⟩

/-- Making classes does not fail. -/
lemma makeClasses_succeeds (e : Environment) (cs : List (Slot × ClassDecl)) (m : Machine σ) :
    (makeClasses e cs).Succeeds m fun _ _ => True := by
  induction cs generalizing m with
  | nil => exact .pure trivial
  | cons c rest ih => exact (makeClass_succeeds c.2 e m).bind fun _ _ _ => ih _

/-! ### Every run keeps the discipline -/

section Steps

/-- A task keeps the discipline, whatever its answers are known to be. -/
abbrev KeepsFailing (host : Host σ) {α : Type} (t : Task α) (m : Machine σ) (Q : α → Prop) : Prop :=
  (failing σ).Keeps (fun _ err _ => err.cause.IsMild) (t.plan host) () m fun _ => Q

/-- A step that fails for no internal reason. -/
lemma keeps_fail {α : Type} {line : Line} {cause : Failure} {Q : Unit → α → Prop}
    (mild : cause.IsMild) :
    (failing σ).Keeps (fun _ err _ => err.cause.IsMild) (Plan.step (Run.fail line cause)) () m Q :=
  .fail rfl mild

/-- A built-in method has a receiver of its own class. -/
lemma keeps_failing_native {receiver : Value} {method : Selector} {arguments : List Value}
    {line : Line} {run : NativeMethod} {Q : Value → Prop} (promise : ∀ v, Q v)
    (found : ((NativeClass.of? receiver).bind fun c => c.find? method) = some run) :
    (failing σ).Keeps (fun _ err _ => err.cause.IsMild)
      (Plan.step (Run.ofExcept line (run receiver arguments))) () m fun _ => Q := by
  obtain ⟨c, own, found⟩ := Option.bind_eq_some_iff.1 found
  obtain ⟨operand, result, -, meets⟩ := NativeClass.meets_of_find? found
  cases h : run receiver arguments with
  | ok v => exact .finish rfl le_rfl trivial (promise v)
  | error cause =>
    refine keeps_fail fun internal => ?_
    rcases meets.error _ _ cause own h with rfl | rfl | ⟨-, rfl, -⟩ | ⟨-, rfl, -⟩
    all_goals exact internal.elim

/-- A method of the host fails with a message of its own. -/
lemma keeps_failing_host (words : host.FailsInWords) {o : HostHandle} {method : Selector}
    {run : HostMethod σ} (found : host.findMethod? o method = some run) {arguments : List Value}
    {line : Line} {Q : Value → Prop} (promise : ∀ v, Q v) :
    (failing σ).Keeps (fun _ err _ => err.cause.IsMild)
      (Plan.step (Run.ofHost line run arguments)) () m fun _ => Q := by
  rcases Run.ofHost_cases line run arguments m with ⟨v, -, done⟩ | ⟨cause, error, failed⟩
  · exact .finish done le_rfl trivial (promise v)
  · obtain ⟨message, rfl⟩ := words o method run found arguments m.host cause error
    exact .fail failed fun internal => internal.elim

/-- A call fails for want of a method, in its body, or with the words of a native method or
of the host. -/
lemma keeps_failing_call (words : host.FailsInWords) {receiver : Value} {name : String}
    {arguments : Option (List Value)} {line : Line} {Q : Value → Prop} (promise : ∀ v, Q v) :
    KeepsFailing host (.call receiver name arguments line) m Q := by
  have missing : (failing σ).Keeps (fun _ err _ => err.cause.IsMild) (Plan.step (Run.fail line
      (.notImplemented receiver.className ⟨name, arguments.map List.length⟩))) () m fun _ => Q :=
    keeps_fail fun internal => internal.elim
  cases receiver with
  | cls c =>
    rw [KeepsFailing, Task.plan]
    split
    · obtain ⟨i, m₁, run, -⟩ := makeInstance_fresh c m
      exact .step run (.start (fun _ _ => True) le_rfl trivial (fun _ _ => trivial)
        fun _ _ _ _ _ _ => .pure le_rfl trivial (promise _))
    · split
      · exact .last le_rfl trivial fun v _ => promise v
      · exact missing
  | obj i =>
    rw [KeepsFailing, Task.plan]
    split
    · exact .last le_rfl trivial fun v _ => promise v
    · exact missing
  | host o =>
    rw [KeepsFailing, Task.plan]
    split
    · next found => exact keeps_failing_host words found promise
    · exact missing
  | null | boolean _ | number _ | text _ =>
    simp only [KeepsFailing, Task.plan]
    split
    · next found => exact keeps_failing_native promise found
    · exact missing

/-- A body fails where its statements do. -/
lemma keeps_failing_body {method : Method} {arguments : Option (List Value)} {Q : Value → Prop}
    (promise : ∀ v, Q v) : KeepsFailing host (.body method e arguments) m Q := by
  obtain ⟨_, m₂, run, -⟩ := Run.declareEach_succeeds (e.inside m.heap.frames.size)
    (method.params.getD []) (arguments.getD []) { m with heap := (m.heap.newChild e).2 }
  refine .step rfl (.step run (.start (fun _ _ => True) le_rfl trivial (fun _ _ => trivial)
    fun _ _ c _ _ _ => ?_))
  cases c <;> exact .pure le_rfl trivial (promise _)

/-- A block ends as its statements do. -/
lemma keeps_failing_block {b : Block} {Q : Completion → Prop}
    (promise : ∀ c : Completion, c.From b.returns → Q c) :
    KeepsFailing host (.block b e) m Q := by
  obtain ⟨ss, names, classes⟩ := b
  obtain ⟨_, m₂, run, -⟩ := makeClasses_succeeds (e.inside m.heap.frames.size) classes
    { m with heap := (m.heap.newChild e).2 }
  rw [Block.returns_mk] at promise
  exact .step rfl (.step run (.last le_rfl trivial promise))

/-- Statements end as one of them does. -/
lemma keeps_failing_stmts {ss : List Stmt} {Q : Completion → Prop}
    (promise : ∀ c : Completion, c.From (anyReturns ss) → Q c) :
    KeepsFailing host (.stmts ss e) m Q := by
  cases ss with
  | nil => exact .pure le_rfl trivial (promise _ trivial)
  | cons s ss =>
    rw [anyReturns_cons] at promise
    refine .start (fun _ c => c.From s.returns) le_rfl trivial (fun _ h => h)
      fun _ _ c _ _ here => ?_
    cases c with
    | normal =>
      exact .last le_rfl trivial fun c later => promise c
        (Completion.From.mono later fun h => by rw [h, Bool.or_true])
    | returned v line =>
      exact .pure le_rfl trivial (promise _
        (Completion.From.mono here fun h => by rw [h, Bool.true_or]))

/-- A statement ends with a return only if one stands in it. -/
lemma keeps_failing_stmt {s : Stmt} {Q : Completion → Prop}
    (promise : ∀ c : Completion, c.From s.returns → Q c) :
    KeepsFailing host (.stmt s e) m Q := by
  cases s with
  | block b =>
    rw [Stmt.returns_block] at promise
    exact .last le_rfl trivial promise
  -- either branch may return, and the statement with it
  | branch condition yes no line =>
    rw [Stmt.returns_branch] at promise
    refine .start (fun _ _ => True) le_rfl trivial (fun _ _ => trivial) fun _ _ b _ _ _ => ?_
    cases b with
    | true =>
      exact .last le_rfl trivial fun c h => promise c
        (Completion.From.mono h fun h => by rw [h, Bool.true_or])
    | false =>
      cases no with
      | none => exact .pure le_rfl trivial (promise _ trivial)
      | some no =>
        exact .last le_rfl trivial fun c h => promise c
          (Completion.From.mono h fun h => by rw [Option.elim, h, Bool.or_true])
  | loop condition inner line =>
    rw [Stmt.returns_loop] at promise
    exact .last le_rfl trivial promise
  | var s init line =>
    have declared (v : Value) (m₁ : Machine σ) :
        (failing σ).Keeps (fun _ err _ => err.cause.IsMild) (do
          Plan.step (Run.declare e s v)
          return Completion.normal) () m₁ fun _ => Q :=
      .step rfl (.pure le_rfl trivial (promise _ trivial))
    cases init with
    | none => exact declared .null m
    | some init =>
      exact .start (fun _ _ => True) le_rfl trivial (fun _ _ => trivial)
        fun _ m₁ v _ _ _ => declared v m₁
  | ret value line =>
    rw [Stmt.returns_ret] at promise
    cases value with
    | none => exact .pure le_rfl trivial (promise _ rfl)
    | some value =>
      exact .start (fun _ _ => True) le_rfl trivial (fun _ _ => trivial)
        fun _ _ v _ _ _ => .pure le_rfl trivial (promise _ rfl)
  | eval expr =>
    exact .start (fun _ _ => True) le_rfl trivial (fun _ _ => trivial)
      fun _ _ _ _ _ _ => .pure le_rfl trivial (promise _ trivial)

/-- A loop ends with a return only if one stands in its body. -/
lemma keeps_failing_loop {condition : Expr} {inner : Stmt} {Q : Completion → Prop}
    (promise : ∀ c : Completion, c.From inner.returns → Q c) :
    KeepsFailing host (.loop condition inner e) m Q := by
  refine .start (fun _ _ => True) le_rfl trivial (fun _ _ => trivial) fun _ _ b _ _ _ => ?_
  cases b with
  | false => exact .pure le_rfl trivial (promise _ trivial)
  | true =>
    refine .start (fun _ c => c.From inner.returns) le_rfl trivial (fun _ h => h)
      fun _ _ c _ _ here => ?_
    cases c with
    | normal => exact .last le_rfl trivial promise
    | returned v line => exact .pure le_rfl trivial (promise _ here)

/-- A condition fails in its evaluation, or for not being a boolean. -/
lemma keeps_failing_test {condition : Expr} {Q : Bool → Prop} (promise : ∀ b, Q b) :
    KeepsFailing host (.test condition e) m Q := by
  refine .start (fun _ _ => True) le_rfl trivial (fun _ _ => trivial) fun _ _ v _ _ _ => ?_
  cases v with
  | boolean b => exact .pure le_rfl trivial (promise b)
  | null | number _ | text _ | cls _ | obj _ | host _ =>
    exact keeps_fail fun internal => internal.elim

/-- An expression fails mildly, be it for a slot that is not bound. -/
lemma keeps_failing_eval {expr : Expr} {Q : Value → Prop} (promise : ∀ v, Q v) :
    KeepsFailing host (.eval expr e) m Q := by
  cases expr with
  | assign target value line =>
    refine .start (fun _ _ => True) le_rfl trivial (fun _ _ => trivial) fun _ m₁ v _ _ _ => ?_
    rcases Run.assign_cases e target v line m₁ with ⟨a, -, run⟩ | ⟨-, run⟩
    · exact .step run (.pure le_rfl trivial (promise v))
    · exact .failFirst run fun _ => ⟨target, rfl⟩
  | call receiver name arguments line =>
    refine .start (fun _ _ => True) le_rfl trivial (fun _ _ => trivial) fun _ _ v _ _ _ => ?_
    cases arguments with
    | none => exact .last le_rfl trivial fun v _ => promise v
    | some es =>
      exact .start (fun _ _ => True) le_rfl trivial (fun _ _ => trivial)
        fun _ _ vs _ _ _ => .last le_rfl trivial fun v _ => promise v
  | literal value line => exact .pure le_rfl trivial (promise _)
  | read s line =>
    rcases Run.get_cases e s line m with ⟨v, -, run⟩ | ⟨-, run⟩
    · exact .finish run le_rfl trivial (promise v)
    · exact .fail run fun _ => ⟨s, rfl⟩
  | logical op left right line =>
    refine .start (fun _ _ => True) le_rfl trivial (fun _ _ => trivial) fun _ _ v _ _ _ => ?_
    cases v with
    | boolean b =>
      dsimp only
      split
      · exact .pure le_rfl trivial (promise _)
      · refine .start (fun _ _ => True) le_rfl trivial (fun _ _ => trivial) fun _ _ v _ _ _ => ?_
        cases v with
        | boolean b => exact .pure le_rfl trivial (promise _)
        | null | number _ | text _ | cls _ | obj _ | host _ =>
          exact keeps_fail fun internal => internal.elim
    | null | number _ | text _ | cls _ | obj _ | host _ =>
      exact keeps_fail fun internal => internal.elim
  | cls decl =>
    obtain ⟨c, m₁, run, -⟩ := makeClass_succeeds decl e m
    exact .step run (.pure le_rfl trivial (promise _))

/-- Expressions fail where one of them does. -/
lemma keeps_failing_evalAll {es : List Expr} {Q : List Value → Prop} (promise : ∀ vs, Q vs) :
    KeepsFailing host (.evalAll es e) m Q := by
  cases es with
  | nil => exact .pure le_rfl trivial (promise _)
  | cons expr rest =>
    exact .start (fun _ _ => True) le_rfl trivial (fun _ _ => trivial)
      fun _ _ v _ _ _ => .start (fun _ _ => True) le_rfl trivial (fun _ _ => trivial)
        fun _ _ vs _ _ _ => .pure le_rfl trivial (promise _)

/-- Every run keeps the discipline, with a host that fails in words. -/
theorem kept_failing (words : host.FailsInWords) (root : Activity σ) :
    (failing σ).Kept host root := by
  intro α fuel t w Q m _ promise _
  cases t with
  | call receiver name arguments line => exact keeps_failing_call words fun v => promise v trivial
  | body method e arguments => exact keeps_failing_body fun v => promise v trivial
  | block b e => exact keeps_failing_block promise
  | stmts ss e => exact keeps_failing_stmts promise
  | stmt s e => exact keeps_failing_stmt promise
  | loop condition inner e => exact keeps_failing_loop promise
  | test condition e => exact keeps_failing_test fun b => promise b trivial
  | eval expr e => exact keeps_failing_eval fun v => promise v trivial
  | evalAll es e => exact keeps_failing_evalAll fun vs => promise vs trivial

end Steps

/-! ### Whole programs -/

/-- The passes after name resolution report nothing on a program. -/
lemma staticDiagnostics_eq_nil_iff {script : Script} :
    staticDiagnostics host .standard script = [] ↔ earlyReadDiagnostics script = [] ∧
      returnDiagnostics script = [] ∧ typeDiagnostics host.types script = [] := by
  simp only [staticDiagnostics, Options.standard, if_true, List.append_eq_nil_iff, and_assoc]

/-- What has been let through: nothing was reported, and what went wrong is what the run
of the resolved program fails with. -/
lemma failed_of_runProgram {fuel : Nat} {program : List Syntax.Stmt} {st : σ} {report : Report}
    {m' : Machine σ} (ran : runProgram host .standard fuel program st = some (report, m'))
    {err : RuntimeError} (error : report.runtimeError = some err) :
    let script := (resolve host.names program).1
    (resolve host.names program).2 = [] ∧ staticDiagnostics host .standard script = [] ∧
      interpret host fuel script ⟨.empty, st⟩ = .failed err m' := by
  rw [runProgram] at ran
  generalize resolve host.names program = resolved at ran ⊢
  obtain ⟨script, problems⟩ := resolved
  dsimp only at ran ⊢
  split at ran
  · cases ran
    cases error
  · next named =>
    split at ran
    · cases ran
      cases error
    · next checked =>
      have clean : staticDiagnostics host .standard script = [] := by
        by_contra found
        exact checked ⟨found, by decide⟩
      cases run : interpret host fuel script ⟨.empty, st⟩ with
      | done u m =>
        rw [run] at ran
        cases ran
        cases error
      | failed err' m =>
        rw [run] at ran
        cases ran
        cases error
        exact ⟨not_not.1 named, clean, rfl⟩
      | exhausted =>
        rw [run] at ran
        cases ran

/-- A program that nothing is reported on is run. -/
lemma runProgram_of_failed {fuel : Nat} {program : List Syntax.Stmt} {st : σ} {m' : Machine σ}
    {err : RuntimeError} (named : (resolve host.names program).2 = [])
    (clean : staticDiagnostics host .standard (resolve host.names program).1 = [])
    (failed : interpret host fuel (resolve host.names program).1 ⟨.empty, st⟩ = .failed err m') :
    runProgram host .standard fuel program st = some (⟨true, [], some err⟩, m') := by
  rw [runProgram]
  generalize resolve host.names program = resolved at named clean failed ⊢
  obtain ⟨script, problems⟩ := resolved
  dsimp only at named clean failed ⊢
  rw [if_neg (not_not.2 named), clean, if_neg fun h => h.1 rfl, failed]

/-- A program that all passes have let through fails with an internal error only where a
variable is undefined: no return escapes the top level, no built-in method is given a
foreign receiver, and classes, parameters, fields, receivers and globals are bound. -/
theorem internal_failure_of_runProgram {holds : σ → Value → Prop} (honest : host.Honest holds)
    (words : host.FailsInWords) {st : σ} (initially : ∀ v, holds st v → v.IsPlain) {fuel : Nat}
    {program : List Syntax.Stmt} {report : Report} {m' : Machine σ}
    (ran : runProgram host .standard fuel program st = some (report, m')) {err : RuntimeError}
    (error : report.runtimeError = some err) (internal : err.cause.IsInternal) :
    ∃ s, err.cause = .undefinedSlot s ∧ (s, .var) ∈ (resolve host.names program).1.roles := by
  obtain ⟨-, clean, failed⟩ := failed_of_runProgram ran error
  let script := (resolve host.names program).1
  obtain ⟨m₀, entered, Λ, fits, holding⟩ :=
    scoping_of_entered honest initially host.names program fuel
  let root : Activity σ := ⟨fuel, .block script.root ⟨0, []⟩, m₀⟩
  have mild : (failing σ).Kept host root := kept_failing words root
  have ends := mild.ends fuel root.task () (fun _ => root.task.Returns) m₀ .refl (fun _ h => h)
    trivial
  rcases interpret_failed failed entered with block | ⟨v, line, done, -⟩
  · have kept : (scoping script.roles holds host root).Kept host root := kept_scoping honest
    have blamed := kept.ends fuel root.task Λ _ m₀ .refl ⟨fits, rfl⟩ holding
    rw [block] at ends blamed
    obtain ⟨_, _, -, -, undefined⟩ := ends
    obtain ⟨s, cause⟩ := undefined internal
    obtain ⟨_, _, -, -, blamed⟩ := blamed
    refine ⟨s, cause, ?_⟩
    rcases blames_undefinedSlot blamed cause with
      ⟨o, name, arguments, line, -, run, values, st', found, fails⟩ | ⟨_, _, -, -, lacks⟩
    · obtain ⟨message, said⟩ := words o _ run found values st' err.cause fails
      rw [cause] at said
      cases said
    · exact lacks.1
  · -- a return that escapes would stand in the top-level code, and would be reported
    rw [done] at ends
    obtain ⟨-, -, -, returns⟩ := ends
    have returns : script.root.returns = true := returns
    have without : returnProblems script = [] :=
      List.map_eq_nil_iff.1 (staticDiagnostics_eq_nil_iff.1 clean).2.1
    rw [script.root.returns_of_returnProblems without] at returns
    cases returns

end Ember
