/-
From a program as it is written to what becomes of it: its names are resolved,
it is checked as far as the options ask, and then it runs.

* `Report`: what a session has to say about a program;
* `staticDiagnostics`: what the passes after name resolution report;
* `runProgram`: a session. A program with mistakes in its names never runs, one
  with other mistakes only on demand.
-/
import Ember.Evaluation
import Ember.Flow.EarlyReads
import Ember.Flow.ReturnShape
import Ember.Options
import Ember.Scope.Resolution
import Ember.Types.Inference

namespace Ember

/-- What a session has to say about a program. -/
structure Report where
  /-- Whether the program was started. -/
  executed : Bool
  diagnostics : List Diagnostic
  runtimeError : Option RuntimeError
deriving DecidableEq, Repr

/-- Nothing was reported and nothing failed. -/
def Report.isSuccess (r : Report) : Bool := r.diagnostics.isEmpty && r.runtimeError.isNone

variable {σ : Type}

/-- The types that a host describes for its globals. -/
def Host.types (host : Host σ) : List (String × TypeSpec) :=
  host.globals.map fun g => (g.name, g.type)

/-- What the passes that the options ask for report on a resolved program. -/
def staticDiagnostics (host : Host σ) (options : Options) (script : Program.Script) :
    List Diagnostic :=
  (if options.flowAnalysis then earlyReadDiagnostics script ++ returnDiagnostics script else []) ++
    (if options.typecheck then typeDiagnostics host.types script else [])

/-- The report on a program that was not started. -/
def Report.refusal (diagnostics : List Diagnostic) : Report := ⟨false, diagnostics, none⟩

/-- Resolves, checks and runs a program. There is no report if it runs out of
fuel. -/
def runProgram (host : Host σ) (options : Options) (fuel : Nat) (program : List Syntax.Stmt)
    (state : σ) : Option (Report × Machine σ) :=
  let machine : Machine σ := ⟨.empty, state⟩
  let (script, problems) := resolve host.names program
  if problems ≠ [] then
    some (.refusal (problems.map ScopeProblem.diagnostic), machine)
  else
    let diagnostics := staticDiagnostics host options script
    if diagnostics ≠ [] ∧ ¬options.runOnStaticErrors then some (.refusal diagnostics, machine)
    else match interpret host fuel script machine with
      | .done _ machine => some (⟨true, diagnostics, none⟩, machine)
      | .failed error machine => some (⟨true, diagnostics, some error⟩, machine)
      | .exhausted => none

end Ember
