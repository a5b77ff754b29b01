/-
What the passes over a program report.

* `Phase`: the pass that speaks, with the code its reports carry;
* `Diagnostic`: a message about a line, and about a word on it where the fault
  lies in one; `Diagnostic.text` is what a reader sees.
-/
import Ember.Selector

namespace Ember

/-- The passes that can find fault with a program. -/
inductive Phase where
  | resolve
  | typecheck
  | flow
  | returns
deriving DecidableEq, Repr

/-- The code that marks a report of this pass. -/
def Phase.code : Phase → String
  | .resolve => "ember::resolve"
  | .typecheck => "ember::typecheck"
  | .flow => "ember::flow"
  | .returns => "ember::returns"

/-- A report of a pass. The word is there when the fault lies in a word of the
program. -/
structure Diagnostic where
  phase : Phase
  line : Line
  word : Option String
  message : String
deriving DecidableEq, Repr

namespace Diagnostic

/-- A report about a whole line. -/
def atLine (phase : Phase) (line : Line) (message : String) : Diagnostic :=
  ⟨phase, line, none, message⟩

/-- A report about one word of a line. -/
def atWord (phase : Phase) (line : Line) (word message : String) : Diagnostic :=
  ⟨phase, line, some word, message⟩

/-- Where on its line a report points. -/
def location (d : Diagnostic) : String :=
  match d.word with
  | none => ""
  | some word => " at '" ++ word ++ "'"

/-- A report in full. -/
def text (d : Diagnostic) : String :=
  "[line " ++ toString d.line ++ "] Error" ++ d.location ++ ": " ++ d.message

end Diagnostic

end Ember
