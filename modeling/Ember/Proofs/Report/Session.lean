/-
A session is put together from its passes.

* `Task.run_more`, `interpret_more`: more fuel does not change a run that has ended;
* `Script.Ends`: how the run of a program ends, by itself and with whatever fuel it takes;
* `session`: a session as it goes. All passes write to one list of reports, which is looked
  at after resolution and again before the program is started; `session_eq` says that
  nothing else comes of it than of `runProgram`;
* `staticReports`: what each pass reports when it is run by itself, one after the other;
* `Composed`: what a session may come to, in terms of its parts;
* `session_composes`: it comes to that.
-/
import Mathlib
import Ember.Proofs.Report.EarlyReads
import Ember.Proofs.Report.Types
import Ember.Proofs.Run.Entry
import Ember.Report

namespace Ember

open Program Reporting

variable {σ : Type}

/-! ### Fuel -/

/-- A plan that ends does the same if its tasks, as far as they end, do. -/
lemma Plan.run_more {host : Host σ} {fuel more : Nat}
    (tasks : ∀ {β : Type} (t : Task β) (m : Machine σ), t.run host fuel m ≠ .exhausted →
      t.run host more m = t.run host fuel m)
    {α : Type} (p : Plan σ α) (m : Machine σ) (ends : p.run host fuel m ≠ .exhausted) :
    p.run host more m = p.run host fuel m := by
  induction p generalizing m with
  | done a => rfl
  | act x next ih =>
    simp only [Plan.run, Run.bind] at ends ⊢
    cases done : x m with
    | done b m₁ =>
      rw [done] at ends
      exact ih b m₁ ends
    | failed error m₁ => rfl
    | exhausted => rfl
  | sub t next ih =>
    simp only [Plan.run, Run.bind] at ends ⊢
    have first : t.run host fuel m ≠ .exhausted := fun exhausted => by
      rw [exhausted] at ends
      exact ends rfl
    rw [tasks t m first]
    cases done : t.run host fuel m with
    | done b m₁ =>
      rw [done] at ends
      exact ih b m₁ ends
    | failed error m₁ => rfl
    | exhausted => rfl

/-- A task that ends does the same with more fuel. -/
theorem Task.run_more {host : Host σ} {fuel more : Nat} (le : fuel ≤ more) {α : Type}
    (t : Task α) (m : Machine σ) (ends : t.run host fuel m ≠ .exhausted) :
    t.run host more m = t.run host fuel m := by
  induction fuel generalizing more α t m with
  | zero => exact absurd (t.run_zero host m) ends
  | succ fuel ih =>
    obtain ⟨more, rfl⟩ : ∃ k, more = k + 1 := ⟨more - 1, by omega⟩
    rw [Task.run_succ] at ends ⊢
    rw [Task.run_succ]
    exact Plan.run_more (fun t m => ih (Nat.le_of_succ_le_succ le) t m) _ m ends

/-- A program that ends does the same with more fuel. -/
theorem interpret_more {host : Host σ} {fuel more : Nat} (le : fuel ≤ more) (script : Script)
    (m : Machine σ) (ends : interpret host fuel script m ≠ .exhausted) :
    interpret host more script m = interpret host fuel script m := by
  rw [interpret_eq] at ends ⊢
  rw [interpret_eq]
  simp only [bind, Run.bind] at ends ⊢
  cases entered : script.entered host m with
  | done e m₁ =>
    rw [entered] at ends
    have block : runBlock host fuel script.root e m₁ ≠ .exhausted := fun exhausted => by
      simp only [exhausted, ne_eq, not_true] at ends
    have same := (Task.block script.root e).run_more le m₁ block
    simp only [Task.run] at same
    simp only [same]
  | failed error m₁ => rfl
  | exhausted => rfl

/-! ### Runs that end -/

/-- How a run ends, if it does: with an error or without, and in which machine. -/
def Outcome.ending? {α : Type} : Outcome σ α → Option (Option RuntimeError × Machine σ)
  | .done _ m => some (none, m)
  | .failed error m => some (some error, m)
  | .exhausted => none

/-- A program that is started on a machine ends with an error or without, and leaves a
machine. -/
def Program.Script.Ends (host : Host σ) (script : Script) (start : Machine σ)
    (error : Option RuntimeError) (m : Machine σ) : Prop :=
  ∃ fuel, (interpret host fuel script start).ending? = some (error, m)

/-- A program ends in one way only. -/
lemma Program.Script.Ends.unique {host : Host σ} {script : Script} {start m m' : Machine σ}
    {error error' : Option RuntimeError} (h : script.Ends host start error m)
    (h' : script.Ends host start error' m') : error' = error ∧ m' = m := by
  obtain ⟨fuel, ends⟩ := h
  obtain ⟨fuel', ends'⟩ := h'
  have some_ne {fuel : Nat} {x : Option RuntimeError × Machine σ}
      (ends : (interpret host fuel script start).ending? = some x) :
      interpret host fuel script start ≠ .exhausted := fun exhausted => by
    rw [exhausted] at ends
    cases ends
  rw [← interpret_more (Nat.le_max_left fuel fuel') script start (some_ne ends)] at ends
  rw [← interpret_more (Nat.le_max_right fuel fuel') script start (some_ne ends'), ends] at ends'
  cases ends'
  exact ⟨rfl, rfl⟩

/-! ### Sessions -/

/-- The passes after name resolution that the options ask for. -/
def checkStatics (host : Host σ) (options : Options) (script : Script) : Reporting Unit := do
  if options.flowAnalysis then
    checkEarlyReads script
    checkReturns script
  if options.typecheck then checkTypes host.types script

/-- A session as it goes. There is one list of reports; it is looked at after name
resolution and after the other passes. -/
def session (host : Host σ) (options : Options) (fuel : Nat) (program : List Syntax.Stmt)
    (state : σ) : Option (Report × Machine σ) :=
  let machine : Machine σ := ⟨.empty, state⟩
  let (script, problems) := resolve host.names program
  let bag := problems.map ScopeProblem.diagnostic
  if bag ≠ [] then some (.refusal bag, machine)
  else
    let bag := (StateT.run (checkStatics host options script) bag).2
    if bag ≠ [] ∧ ¬options.runOnStaticErrors then some (.refusal bag, machine)
    else (interpret host fuel script machine).ending?.map fun (error, machine) =>
      (⟨true, bag, error⟩, machine)

/-- What the passes report, each run by itself. -/
def staticReports (host : Host σ) (options : Options) (script : Script) : List Diagnostic :=
  (if options.flowAnalysis then (checkEarlyReads script).alone ++ (checkReturns script).alone
    else []) ++
    (if options.typecheck then (checkTypes host.types script).alone else [])

/-- The passes add to whatever has been reported what each of them reports by itself. -/
lemma checkStatics_adds (host : Host σ) (options : Options) (script : Script) :
    (checkStatics host options script).Adds () (staticReports host options script) := by
  have reads := checkEarlyReads_adds script
  have returns := checkReturns_adds script
  have types := checkTypes_adds host.types script
  rw [staticReports, reads.alone_eq, returns.alone_eq, types.alone_eq]
  have last : Adds (if options.typecheck then checkTypes host.types script else pure ()) ()
      (if options.typecheck then typeDiagnostics host.types script else []) := by
    split
    · exact types
    · exact adds_pure ()
  rw [checkStatics]
  cases options.flowAnalysis with
  | true => exact (List.append_assoc _ _ _).symm ▸ reads.bind (returns.bind last)
  | false => exact last

/-- What the passes report by themselves is what they report. -/
lemma staticReports_eq (host : Host σ) (options : Options) (script : Script) :
    staticReports host options script = staticDiagnostics host options script := by
  rw [staticReports, staticDiagnostics, (checkEarlyReads_adds script).alone_eq,
    (checkReturns_adds script).alone_eq, (checkTypes_adds host.types script).alone_eq]

/-- A session as it goes, case by case. -/
lemma session_cases (host : Host σ) (options : Options) (fuel : Nat)
    (program : List Syntax.Stmt) (state : σ) :
    session host options fuel program state =
      if (resolve host.names program).2 ≠ [] then
        some (.refusal ((resolve host.names program).2.map ScopeProblem.diagnostic),
          ⟨.empty, state⟩)
      else if staticReports host options (resolve host.names program).1 ≠ [] ∧
          ¬options.runOnStaticErrors then
        some (.refusal (staticReports host options (resolve host.names program).1),
          ⟨.empty, state⟩)
      else (interpret host fuel (resolve host.names program).1 ⟨.empty, state⟩).ending?.map
        fun (error, machine) =>
          (⟨true, staticReports host options (resolve host.names program).1, error⟩, machine) := by
  rw [session]
  cases resolve host.names program with
  | mk script problems =>
    cases problems with
    | nil =>
      have passes := checkStatics_adds host options script []
      simp only [List.map_nil, passes, List.nil_append]
      rfl
    | cons p ps => rfl

/-- Nothing else comes of a session when the reports are kept in one list. -/
theorem session_eq (host : Host σ) (options : Options) (fuel : Nat) (program : List Syntax.Stmt)
    (state : σ) : session host options fuel program state =
      runProgram host options fuel program state := by
  rw [session_cases, runProgram]
  cases resolve host.names program with
  | mk script problems =>
    simp only [staticReports_eq]
    cases interpret host fuel script ⟨.empty, state⟩ <;> rfl

/-- A session ends with a report and leaves a machine, with whatever fuel it takes. -/
def SessionEnds (host : Host σ) (options : Options) (program : List Syntax.Stmt) (state : σ)
    (report : Report) (m : Machine σ) : Prop :=
  ∃ fuel, session host options fuel program state = some (report, m)

/-- Whether a program is started: its names are in order, and so is everything else unless
that is not asked for. -/
def SessionStarts (host : Host σ) (options : Options) (program : List Syntax.Stmt) : Prop :=
  (resolve host.names program).2 = [] ∧
    (staticReports host options (resolve host.names program).1 = [] ∨
      options.runOnStaticErrors = true)

/-- What a session may come to, in terms of its parts. -/
inductive Composed (host : Host σ) (options : Options) (program : List Syntax.Stmt) (state : σ) :
    Report → Machine σ → Prop
  /-- Something is wrong with the names. -/
  | misnamed (faulty : (resolve host.names program).2 ≠ []) :
    Composed host options program state
      ⟨false, (resolve host.names program).2.map ScopeProblem.diagnostic, none⟩ ⟨.empty, state⟩
  /-- Something else is wrong, and the program is not to be run then. -/
  | held (named : (resolve host.names program).2 = [])
      (faulty : staticReports host options (resolve host.names program).1 ≠ [])
      (careful : options.runOnStaticErrors = false) :
    Composed host options program state
      ⟨false, staticReports host options (resolve host.names program).1, none⟩ ⟨.empty, state⟩
  /-- The program is run. -/
  | ran (starts : SessionStarts host options program) {error : Option RuntimeError} {m : Machine σ}
      (ends : (resolve host.names program).1.Ends host ⟨.empty, state⟩ error m) :
    Composed host options program state
      ⟨true, staticReports host options (resolve host.names program).1, error⟩ m

/-- A session comes to what its parts come to, and to nothing else. -/
lemma sessionEnds_iff {host : Host σ} {options : Options} {program : List Syntax.Stmt} {state : σ}
    {report : Report} {m : Machine σ} : SessionEnds host options program state report m ↔
      Composed host options program state report m := by
  constructor
  · rintro ⟨fuel, ends⟩
    -- the ways through a session: bad names, a program held back, and one that is run
    rw [session_cases] at ends
    split at ends
    · next faulty =>
      cases ends
      exact .misnamed faulty
    · next named =>
      rw [not_not] at named
      split at ends
      · next held =>
        cases ends
        exact .held named held.1 (by simpa using held.2)
      · next starts =>
        obtain ⟨⟨error, m'⟩, done, same⟩ := Option.map_eq_some_iff.1 ends
        cases same
        rw [not_and_or, not_not, not_not] at starts
        exact .ran ⟨named, starts⟩ ⟨fuel, done⟩
  · intro composed
    cases composed with
    | misnamed faulty => exact ⟨0, by rw [session_cases, if_pos faulty]; rfl⟩
    -- where nothing runs any amount of fuel will do
    | held named faulty careful =>
      refine ⟨0, ?_⟩
      rw [session_cases, if_neg (not_not.2 named), if_pos ⟨faulty, by simp [careful]⟩]
      rfl
    | ran starts ends =>
      obtain ⟨fuel, done⟩ := ends
      obtain ⟨named, starts⟩ := starts
      refine ⟨fuel, ?_⟩
      rw [session_cases, if_neg (not_not.2 named), if_neg, done]
      · rfl
      · rw [not_and_or, not_not, not_not]
        exact starts

/-- A session is put together from its passes. One list of reports serves all of them, and
nothing else comes of it than of the passes apart: either resolution reports something,
which is all there is, or what is reported is what the other passes report by themselves,
and the program runs as it does without them. So it runs alike whatever the options. -/
theorem session_composes (host : Host σ) (program : List Syntax.Stmt) (state : σ) :
    (∀ options fuel, session host options fuel program state =
      runProgram host options fuel program state) ∧
    (∀ options report m, SessionEnds host options program state report m ↔
      Composed host options program state report m) ∧
    ∀ options options' report m, SessionEnds host options program state report m →
      report.executed = true → SessionStarts host options' program →
      SessionEnds host options' program state
        ⟨true, staticReports host options' (resolve host.names program).1, report.runtimeError⟩ m ∧
      ∀ report' m', SessionEnds host options' program state report' m' →
        report'.runtimeError = report.runtimeError ∧ m' = m := by
  refine ⟨fun options fuel => session_eq host options fuel program state,
    fun options report m => sessionEnds_iff, ?_⟩
  intro options options' report m ends executed starts'
  rw [sessionEnds_iff] at ends
  cases ends with
  | misnamed | held => cases executed
  | ran starts alone =>
    refine ⟨sessionEnds_iff.2 (.ran starts' alone), fun report' m' ends' => ?_⟩
    rw [sessionEnds_iff] at ends'
    cases ends' with
    | misnamed faulty => exact absurd starts.1 faulty
    | held _ faulty careful =>
      rcases starts'.2 with none | careless
      · exact absurd none faulty
      · rw [careful] at careless
        cases careless
    | ran _ alone' => exact alone.unique alone'

end Ember
