import Ember.Console
import Ember.Diagnostic
import Ember.Evaluation
import Ember.Failure
import Ember.Flow.Captures
import Ember.Flow.EarlyReads
import Ember.Flow.Mentions
import Ember.Flow.ReturnShape
import Ember.Flow.State
import Ember.Flow.Walk
import Ember.Heap
import Ember.Host
import Ember.Keyed
import Ember.Literal
import Ember.Machine
import Ember.Native
import Ember.Number
import Ember.Options
import Ember.Program
import Ember.Report
import Ember.Scope.Problem
import Ember.Scope.Resolution
import Ember.Scope.Stack
import Ember.Selector
import Ember.Syntax
import Ember.Text.Blank
import Ember.Types.Builtin
import Ember.Types.Graph
import Ember.Types.Inference
import Ember.Types.Spec
import Ember.Types.Subtyping
import Ember.Value
import Ember.Proofs.Types.Operations
import Ember.Proofs.Types.Simulation
import Ember.Proofs.Run.Plan
import Ember.Proofs.Scope.Closed
import Ember.Proofs.Run.Chain
import Ember.Proofs.Types.Inferring
import Ember.Proofs.Run.Typing
import Ember.Proofs.Types.Saturation
import Ember.Proofs.Scope.Naming
import Ember.Proofs.Run.Initialisation
import Ember.Proofs.Run.Failing
import Ember.Proofs.Run.Leaving
import Ember.Proofs.Run.Sessions
import Ember.Proofs.Flow.Production
import Ember.Proofs.Flow.Reaching
import Ember.Proofs.Types.Repeating
import Ember.Proofs.Types.Recursion
import Ember.Proofs.Types.Deciding
import Ember.Proofs.Flow.Summing
import Ember.Proofs.Run.Describing
import Ember.Proofs.Run.Dispatch
import Ember.Proofs.Scope.Usage
import Ember.Proofs.Scope.Contents
import Ember.Proofs.Run.Arithmetic
import Ember.Proofs.Run.Environments
import Ember.Proofs.Flow.WaysOut
import Ember.Proofs.Report.Session
import Ember.Proofs.Run.Awaiting
import Ember.Proofs.Run.EarlyUse
