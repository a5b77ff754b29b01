/-
What a session does besides resolving and running a program.

* `Options`: the three switches, `Options.standard` their usual setting;
* `Options.flag?`: the spellings that turn a switch on or off;
* `Options.ofVariables`: the switches as a set of named texts gives them.
-/
import Ember.Text.Blank

namespace Ember

/-- The switches of a session. -/
structure Options where
  typecheck : Bool
  flowAnalysis : Bool
  /-- Run a program even if the passes after name resolution found fault with it. -/
  runOnStaticErrors : Bool
deriving DecidableEq, Repr

namespace Options

/-- Check everything, and run only what passes. -/
def standard : Options := ⟨true, true, false⟩

/-- Reads a switch; letter case and blanks around it do not matter. -/
def flag? (s : String) : Option Bool :=
  let word := String.ofList ((Text.trimBlank s).toList.map Char.toLower)
  if word ∈ ["1", "true", "yes", "on"] then some true
  else if word ∈ ["0", "false", "no", "off"] then some false
  else none

/-- A switch that a variable sets, or its usual setting. -/
def flagOr (usual : Bool) (setting? : Option String) : Bool :=
  (setting?.bind flag?).getD usual

/-- The switches as named variables give them. -/
def ofVariables (lookup : String → Option String) : Options where
  typecheck := flagOr standard.typecheck (lookup "EMBER_TYPECHECK")
  flowAnalysis := flagOr standard.flowAnalysis (lookup "EMBER_FLOW")
  runOnStaticErrors := flagOr standard.runOnStaticErrors (lookup "EMBER_RUN_ON_ERRORS")

end Options

end Ember
