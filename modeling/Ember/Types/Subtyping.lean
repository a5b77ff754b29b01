/-
Making one type a subtype of another, with everything that follows from it.

* `Conflict`: why one type cannot be below another;
* `Goal`: a pair of types still to be put in order, or a conflict that has been
  come upon;
* `TypeGraph.expand`: what a pair of types asks for in turn;
* `TypeGraph.solve`: works a list of goals off from the front, putting what a
  goal asks for in its place. It ends because every pair is expanded at most
  once (`TypeGraph.openPairs_lt`);
* `TypeGraph.constrain`: puts two types in order and returns the conflicts in
  the order in which they were met;
* `Attempt`: a demand made by a line of the program, which is reported at most
  once whatever conflicts it leads to.
-/
import Ember.Diagnostic
import Ember.Types.Graph

namespace Ember

/-- Why a type cannot be a subtype of another. -/
inductive Conflict where
  | mismatch (expected found : TypeId)
  /-- The type that is shown lacks a method. -/
  | lacks (shown : TypeId) (method : Selector)
deriving DecidableEq, Repr

/-- The wording of a conflict. -/
def Conflict.message (g : TypeGraph) : Conflict → String
  | mismatch expected found =>
    "Expected '" ++ g.describe expected ++ "' but found '" ++ g.describe found ++ "'."
  | lacks shown method => "'" ++ g.describe shown ++ "' does not implement '" ++ method.text ++ "'."

/-- A step still to be taken. -/
inductive Goal where
  /-- The left type is to be below the right one. -/
  | below (left right : TypeId)
  | conflict (c : Conflict)
deriving DecidableEq, Repr

namespace TypeGraph

/-! ### What a pair of types asks for -/

/-- Parameters are compared the other way round than the methods they belong to. -/
def paramGoals : Option (List TypeId) → Option (List TypeId) → List Goal
  | some expected, some offered => List.zipWith Goal.below expected offered
  | _, _ => []

/-- Every method that is wanted has to be offered, with a type that fits. -/
def shapeGoals (shown : TypeId) (offered wanted : Shape) : List Goal :=
  wanted.flatMap fun (method, expected) =>
    match offered.find? method with
    | none => [.conflict (.lacks shown method)]
    | some signature =>
      paramGoals expected.params signature.params ++ [.below signature.result expected.result]

/-- Notes that the left type is to be below the right one. -/
def establish (g : TypeGraph) (left right : TypeId) : TypeGraph :=
  { g with established := (left, right) :: g.established }

/-- Adds a type to a list of bounds unless it is there. -/
def addBound (bound : TypeId) (bounds : List TypeId) : List TypeId :=
  if bound ∈ bounds then bounds else bounds ++ [bound]

/-- Notes a type above a variable. -/
def addUpper (g : TypeGraph) (t bound : TypeId) : TypeGraph :=
  { g with nodes := g.nodes.modify t fun
    | .var upper lower => .var (addBound bound upper) lower
    | n => n }

/-- Notes a type below a variable. -/
def addLower (g : TypeGraph) (t bound : TypeId) : TypeGraph :=
  { g with nodes := g.nodes.modify t fun
    | .var upper lower => .var upper (addBound bound lower)
    | n => n }

/-- Establishes a pair and returns what it asks for in turn. A variable passes
the demand on to the bounds on its other side; a label stands for its inner
type, except among labels, which go by their names. -/
def expand (g : TypeGraph) (left right : TypeId) : TypeGraph × List Goal :=
  let g := g.establish left right
  match g.node? left, g.node? right with
  | some .bottom, _ => (g, [])
  | some (.labeled a _), some (.labeled b _) =>
    (g, if a = b then [] else [.conflict (.mismatch right left)])
  | some (.cls offered), some (.cls wanted) => (g, shapeGoals left offered wanted)
  | some (.var _ lower), _ => (g.addUpper left right, lower.map fun t => .below t right)
  | _, some (.var upper _) => (g.addLower right left, upper.map fun t => .below left t)
  | some (.labeled _ inner), some (.cls wanted) =>
    match g.node? inner with
    | some (.cls offered) => (g, shapeGoals left offered wanted)
    | _ => (g, [.below inner right])
  | some (.labeled _ inner), _ => (g, [.below inner right])
  | _, _ => (g, [.conflict (.mismatch right left)])

/-- A step of subtyping makes no node. -/
@[simp]
theorem size_expand (g : TypeGraph) (left right : TypeId) :
    (g.expand left right).1.size = g.size := by
  unfold expand
  dsimp only
  split <;> (try split) <;> simp [size, establish, addUpper, addLower]

/-- A step of subtyping establishes its own pair and no other. -/
@[simp]
theorem established_expand (g : TypeGraph) (left right : TypeId) :
    (g.expand left right).1.established = (left, right) :: g.established := by
  unfold expand
  dsimp only
  split <;> (try split) <;> simp [establish, addUpper, addLower]

/-! ### Working goals off -/

/-- Whether a pair of types has still to be expanded. -/
def IsOpen (g : TypeGraph) (left right : TypeId) : Prop :=
  left ≠ right ∧ left < g.size ∧ right < g.size ∧ (left, right) ∉ g.established

instance (g : TypeGraph) (left right : TypeId) : Decidable (g.IsOpen left right) :=
  inferInstanceAs (Decidable (_ ∧ _ ∧ _ ∧ _))

/-- All pairs of types below a bound. -/
def pairs (n : Nat) : List (TypeId × TypeId) :=
  (List.range n).flatMap fun left => (List.range n).map fun right => (left, right)

/-- The pairs below a bound are those of two numbers below it. -/
theorem mem_pairs {n : Nat} {p : TypeId × TypeId} : p ∈ pairs n ↔ p.1 < n ∧ p.2 < n := by
  obtain ⟨left, right⟩ := p
  simp [pairs]

/-- The number of pairs of types that are not established. -/
def openPairs (g : TypeGraph) : Nat := (pairs g.size).countP fun p => p ∉ g.established

/-- A count falls when its condition gets stronger and fails somewhere new. -/
theorem countP_lt_countP {α : Type} {p q : α → Bool} {xs : List α} {x : α} (hx : x ∈ xs)
    (hpq : ∀ y, p y → q y) (hq : q x) (hp : ¬p x) : xs.countP p < xs.countP q := by
  induction xs with
  | nil => simp at hx
  | cons y ys ih =>
    have hle : ys.countP p ≤ ys.countP q := List.countP_mono_left fun z _ => hpq z
    rw [List.countP_cons, List.countP_cons]
    rcases List.mem_cons.1 hx with rfl | hmem
    · rw [if_neg hp, if_pos hq]
      omega
    · have hlt := ih hmem
      by_cases hy : p y
      · rw [if_pos hy, if_pos (hpq y hy)]
        omega
      · rw [if_neg hy]
        omega

/-- Expanding an open pair leaves fewer pairs open. -/
theorem openPairs_lt {g : TypeGraph} {left right : TypeId} (h : g.IsOpen left right) :
    (g.expand left right).1.openPairs < g.openPairs := by
  obtain ⟨_, hl, hr, hnew⟩ := h
  unfold openPairs
  rw [size_expand, established_expand]
  refine countP_lt_countP (mem_pairs.2 ⟨hl, hr⟩ : (left, right) ∈ _) (fun p hp => ?_) ?_ ?_
  · simp only [List.mem_cons, not_or, decide_eq_true_eq] at hp ⊢
    exact hp.2
  · simpa using hnew
  · simp

/-- Works goals off from the front. Returns the conflicts in the order in which
they are met. -/
def solve (g : TypeGraph) : List Goal → TypeGraph × List Conflict
  | [] => (g, [])
  | .conflict c :: rest =>
    let (g, conflicts) := solve g rest
    (g, c :: conflicts)
  | .below left right :: rest =>
    if _h : g.IsOpen left right then
      let next := g.expand left right
      solve next.1 (next.2 ++ rest)
    else solve g rest
termination_by goals => (g.openPairs, goals.length)
decreasing_by
  · exact Prod.Lex.right _ (by simp)
  · exact Prod.Lex.left _ _ (openPairs_lt _h)
  · exact Prod.Lex.right _ (by simp)

/-- Makes the left type a subtype of the right one. -/
def constrain (g : TypeGraph) (left right : TypeId) : TypeGraph × List Conflict :=
  g.solve [.below left right]

end TypeGraph

/-! ### Reports -/

/-- A demand on two types, made by a line of the program. -/
structure Attempt where
  line : Line
  /-- Whether it has been reported. -/
  sent : Bool
deriving DecidableEq, Repr

namespace Attempt

/-- A demand that has not been reported. -/
def new (line : Line) : Attempt := ⟨line, false⟩

/-- Reports a demand with a message, unless it has been reported before. -/
def send (a : Attempt) (message : String) : Attempt × List Diagnostic :=
  if a.sent then (a, [])
  else ({ a with sent := true }, [Diagnostic.atLine .typecheck a.line message])

/-- Reports each of a list of conflicts, hence the first if any. -/
def sendAll (a : Attempt) (g : TypeGraph) : List Conflict → Attempt × List Diagnostic
  | [] => (a, [])
  | c :: rest =>
    let (a, first) := a.send (c.message g)
    let (a, others) := sendAll a g rest
    (a, first ++ others)

/-- Makes the left type a subtype of the right one on behalf of a demand. -/
def constrain (a : Attempt) (g : TypeGraph) (left right : TypeId) :
    Attempt × TypeGraph × List Diagnostic :=
  let (g, conflicts) := g.constrain left right
  let (a, reports) := a.sendAll g conflicts
  (a, g, reports)

end Attempt

end Ember
