/-
The pass over types as it goes: a demand that cannot be met is reported when it is made,
in the words that fit the types as they are known by then.

* `TypeGraph.solveTelling`: works goals off and reports the first conflict on the spot;
  `TypeGraph.adds_solveTelling` compares it with `TypeGraph.solve`, whose conflicts are put
  into words afterwards;
* `Check`: a step of the pass, and `Check.Follows`: it does what a step of inference
  does, and reports the mistakes that this one takes down;
* `checkExpr`, `checkStmt`, `checkBlock`, `checkClass`: the pass, and
  `checkExpr_follows` and its companions;
* `checkTypes_adds`: the pass adds the mistakes in the types of a program.
-/
import Mathlib
import Ember.Proofs.Report.Returns
import Ember.Proofs.Types.Steps

namespace Ember

open Program Reporting

/-! ### Messages -/

/-- The types that the wording of a conflict names. -/
def Conflict.types : Conflict → List TypeId
  | mismatch expected found => [expected, found]
  | lacks shown _ => [shown]

namespace TypeGraph

variable {g g' : TypeGraph}

/-- A type goes by one name for good. -/
lemma Later.describe (h : g.Later g') {t : TypeId} (ht : t < g.size) :
    g'.describe t = g.describe t := by
  have hn : g.node? t = some g.nodes[t] := Array.getElem?_eq_getElem ht
  obtain ⟨n', hn', grows⟩ := h.node? hn
  rw [TypeGraph.describe, TypeGraph.describe, hn, hn']
  generalize g.nodes[t] = n at grows
  cases grows <;> rfl

/-- Types are never given up. -/
lemma Later.lt (h : g.Later g') {t : TypeId} (ht : t < g.size) : t < g'.size := by
  have hn : g.node? t = some g.nodes[t] := Array.getElem?_eq_getElem ht
  obtain ⟨n', hn', -⟩ := h.node? hn
  exact node?_lt hn'

/-- A conflict is put into the same words later on. -/
lemma Later.message (h : g.Later g') {c : Conflict} (named : ∀ t ∈ c.types, t < g.size) :
    c.message g' = c.message g := by
  cases c with
  | mismatch expected found =>
    rw [Conflict.message, Conflict.message, h.describe (named _ (by simp [Conflict.types])),
      h.describe (named _ (by simp [Conflict.types]))]
  | lacks shown method =>
    rw [Conflict.message, Conflict.message, h.describe (named _ (by simp [Conflict.types]))]

/-- Goals that are worked off leave a later graph. -/
lemma later_solve (g : TypeGraph) (goals : List Goal) : g.Later (g.solve goals).1 :=
  ⟨fun hn => (grows_solve g goals).node? hn, established_solve g goals⟩

/-! ### Working goals off -/

/-- The conflicts among the goals are about types of the graph. -/
def NamesIssued (g : TypeGraph) (goals : List Goal) : Prop :=
  ∀ c, .conflict c ∈ goals → ∀ t ∈ c.types, t < g.size

/-- An expansion leads to conflicts between the two types that are expanded. -/
lemma Expands.conflict {left right : TypeId} {goals : List Goal}
    (h : Expands g left right g' goals) {c : Conflict} (hc : .conflict c ∈ goals) :
    ∀ t ∈ c.types, t = left ∨ t = right := by
  have shapes {offered wanted : Shape} (hc : .conflict c ∈ shapeGoals left offered wanted) :
      ∀ t ∈ c.types, t = left ∨ t = right := by
    obtain ⟨m, -, hm⟩ := mem_shapeGoals.1 hc
    rw [methodGoals] at hm
    split at hm
    · obtain rfl := Goal.conflict.inj (List.mem_singleton.1 hm)
      exact fun t ht => .inl (List.mem_singleton.1 ht)
    · rcases List.mem_append.1 hm with hm | hm
      · obtain ⟨_, _, _, _, same⟩ := mem_paramGoals hm
        cases same
      · cases List.mem_singleton.1 hm
  cases h with
  | bottom | labels => cases hc
  | classes => exact shapes hc
  | labelShape => exact shapes hc
  | varLeft | varRight =>
    obtain ⟨_, _, same⟩ := List.mem_map.1 hc
    cases same
  | labelInner => cases List.mem_singleton.1 hc
  | clash =>
    obtain rfl := Goal.conflict.inj (List.mem_singleton.1 hc)
    intro t ht
    simpa [Conflict.types, or_comm] using ht

/-- The goals that an open pair asks for are about types of the graph. -/
lemma NamesIssued.expand {left right : TypeId} {rest : List Goal} (isOpen : g.IsOpen left right)
    (h : g.NamesIssued (.below left right :: rest)) :
    (g.expand left right).1.NamesIssued ((g.expand left right).2 ++ rest) := by
  intro c hc t ht
  rw [size_expand]
  rcases List.mem_append.1 hc with new | old
  · rcases (expands isOpen.2.1 isOpen.2.2.1).conflict new t ht with rfl | rfl
    · exact isOpen.2.1
    · exact isOpen.2.2.1
  · exact h c (List.mem_cons_of_mem _ old) t ht

/-- What the first goal is about does not matter to the others. -/
lemma NamesIssued.tail {goal : Goal} {rest : List Goal} (h : g.NamesIssued (goal :: rest)) :
    g.NamesIssued rest := fun c hc => h c (List.mem_cons_of_mem _ hc)

/-- The conflicts that are met are about types of the graph. -/
lemma lt_of_mem_solve {goals : List Goal} (h : g.NamesIssued goals) :
    ∀ c ∈ (g.solve goals).2, ∀ t ∈ c.types, t < g.size := by
  induction g, goals using solve_induction with
  | nil g =>
    rw [solve_nil]
    exact fun c hc => nomatch hc
  | conflict g c rest ih =>
    rw [solve_conflict]
    exact List.forall_mem_cons.2 ⟨h c List.mem_cons_self, ih h.tail⟩
  | opened g left right rest isOpen ih =>
    rw [solve_open isOpen, ← size_expand g left right]
    exact ih (h.expand isOpen)
  | closed g left right rest settled ih =>
    rw [solve_closed settled]
    exact ih h.tail

end TypeGraph

/-- Reports a demand with a message, unless it has been reported before. -/
def Attempt.tell (a : Attempt) (message : String) : Reporting Attempt := do
  if a.sent then return a
  report (Diagnostic.atLine .typecheck a.line message)
  return { a with sent := true }

namespace TypeGraph

/-- Works goals off from the front, and reports a conflict where it is met. -/
def solveTelling (g : TypeGraph) (a : Attempt) : List Goal → Reporting TypeGraph
  | [] => return g
  | .conflict c :: rest => do
    let a ← a.tell (c.message g)
    solveTelling g a rest
  | .below left right :: rest =>
    if _h : g.IsOpen left right then
      let next := g.expand left right
      solveTelling next.1 a (next.2 ++ rest)
    else solveTelling g a rest
termination_by goals => (g.openPairs, goals.length)
decreasing_by
  · exact Prod.Lex.right _ (by simp)
  · exact Prod.Lex.left _ _ (openPairs_lt _h)
  · exact Prod.Lex.right _ (by simp)

/-- The report of the first of a list of conflicts, for a demand made on a line. -/
def firstReport (g : TypeGraph) (line : Line) (conflicts : List Conflict) : List Diagnostic :=
  (conflicts.head?.map fun c => Diagnostic.atLine .typecheck line (c.message g)).toList

/-- A demand is reported with the first conflict, in words that fit at the end as well. -/
lemma adds_solveTelling (g : TypeGraph) (a : Attempt) {goals : List Goal}
    (h : g.NamesIssued goals) :
    (g.solveTelling a goals).Adds (g.solve goals).1
      (if a.sent then [] else firstReport (g.solve goals).1 a.line (g.solve goals).2) := by
  induction g, goals using solve_induction generalizing a with
  | nil g =>
    rw [solveTelling, solve_nil]
    split <;> exact adds_pure g
  | conflict g c rest ih =>
    rw [solveTelling, solve_conflict]
    obtain ⟨line, sent⟩ := a
    cases sent with
    | true => exact (adds_pure _).bind (ih ⟨line, true⟩ h.tail)
    | false =>
      have told := (adds_report (Diagnostic.atLine .typecheck line (c.message g))).andReturn
        (⟨line, true⟩ : Attempt)
      have same := (later_solve g rest).message (h c List.mem_cons_self)
      rw [firstReport, List.head?_cons, Option.map_some, same]
      exact told.bind (ih ⟨line, true⟩ h.tail)
  | opened g left right rest isOpen ih =>
    rw [solveTelling, dif_pos isOpen, solve_open isOpen]
    exact ih a (h.expand isOpen)
  | closed g left right rest settled ih =>
    rw [solveTelling, dif_neg settled, solve_closed settled]
    exact ih a h.tail

end TypeGraph

/-! ### Steps of the pass -/

/-- A step of the pass. The list of mistakes of inference stays empty, for they are
reported. -/
abbrev Check := StateT Inference Reporting

namespace Inference

/-- The reports of the mistakes found so far. -/
def reports (st : Inference) : List Diagnostic := st.problems.map (TypeProblem.diagnostic st.graph)

/-- The mistakes found so far are about types of the graph. -/
def Named (st : Inference) : Prop :=
  ∀ p ∈ st.problems, ∀ t ∈ p.conflict.types, t < st.graph.size

/-- What is known of the types, without the mistakes. -/
def blank (st : Inference) : Inference := { st with problems := [] }

variable {st : Inference} {g : TypeGraph}

/-- Mistakes are put into the same words when more is known. -/
lemma reports_later (later : st.graph.Later g) (named : st.Named) :
    st.problems.map (TypeProblem.diagnostic g) = st.reports :=
  List.map_congr_left fun p hp =>
    congrArg (Diagnostic.atLine .typecheck p.line) (later.message (named p hp))

end Inference

namespace Infer

variable {α β : Type}

/-- A step that makes no demand: it neither looks at the mistakes found so far nor adds
to them. -/
def Silent (x : Infer α) : Prop :=
  ∀ st : Inference, StateT.run x st.blank = (x.answer st, (x.after st).blank) ∧
    (x.after st).problems = st.problems ∧ st.graph.Later (x.after st).graph

/-- A result that is at hand demands nothing. -/
lemma silent_pure (a : α) : Silent (pure a) := fun _ => ⟨rfl, rfl, .refl _⟩

/-- Silent steps one after the other are silent. -/
lemma Silent.bind {x : Infer α} {f : α → Infer β} (hx : x.Silent) (hf : ∀ a, (f a).Silent) :
    (x >>= f).Silent := by
  intro st
  obtain ⟨run, problems, later⟩ := hx st
  obtain ⟨run', problems', later'⟩ := hf (x.answer st) (x.after st)
  refine ⟨?_, problems'.trans problems, later.trans later'⟩
  have whole : StateT.run (x >>= f) st.blank =
      StateT.run (f (StateT.run x st.blank).1) (StateT.run x st.blank).2 := rfl
  rw [whole, run]
  exact run'

/-- A step that does what a silent one does is silent. -/
lemma Silent.of_run {x : Infer α} (h : ∀ st : Inference, ∃ y : Infer α, y.Silent ∧
    StateT.run x st = StateT.run y st ∧ StateT.run x st.blank = StateT.run y st.blank) :
    x.Silent := by
  intro st
  obtain ⟨y, hy, run, blank⟩ := h st
  rw [answer, after, run, blank]
  exact hy st

/-- A new type demands nothing. -/
lemma silent_push (n : TypeNode) : Silent (modifyGet fun st : Inference =>
    ((st.graph.push n).1, { st with graph := (st.graph.push n).2 })) :=
  fun st => ⟨rfl, rfl, TypeGraph.later_push st.graph n⟩

/-- A fresh variable demands nothing. -/
lemma silent_fresh : Silent fresh := silent_push _

/-- A new shape demands nothing. -/
lemma silent_shape (s : Shape) : Silent (shape s) := silent_push _

/-- Fresh variables demand nothing. -/
lemma silent_freshFor {γ : Type} : (xs : List γ) → Silent (freshFor xs)
  | [] => silent_pure []
  | _ :: xs => silent_fresh.bind fun _ => (silent_freshFor xs).bind fun _ => silent_pure _

/-- The least type is at hand. -/
lemma silent_bottom : Silent bottom := fun _ => ⟨rfl, rfl, .refl _⟩

/-- The type of a slot is written down without a demand. -/
lemma silent_bind (s : Slot) (t : TypeId) : Silent (bind s t) := fun _ => ⟨rfl, rfl, .refl _⟩

/-- The type of a slot is looked up, or made, without a demand. -/
lemma silent_slotType (s : Slot) : Silent (slotType s) := by
  refine .of_run fun st => ?_
  cases found : findByKey? Prod.fst s st.slots with
  | some p => exact ⟨pure p.2, silent_pure p.2, by simp [slotType, found],
      by simp [slotType, Inference.blank, found]⟩
  | none =>
    refine ⟨do let t ← fresh; bind s t; return t, ?_, by simp [slotType, found],
      by simp [slotType, Inference.blank, found]⟩
    exact silent_fresh.bind fun t => (silent_bind s t).bind fun _ => silent_pure t

/-- The types of slots are looked up, or made, without a demand. -/
lemma silent_slotTypes : (ss : List Slot) → Silent (slotTypes ss)
  | [] => silent_pure []
  | s :: ss => (silent_slotType s).bind fun _ => (silent_slotTypes ss).bind fun _ => silent_pure _

/-- The type of a literal is given without a demand. -/
lemma silent_literal (v : Literal) : Silent (literal v) := by
  cases v with
  | nil => exact silent_fresh
  | number | text | boolean => exact fun _ => ⟨rfl, rfl, .refl _⟩

/-- The receivers of a class get fresh types. -/
lemma silent_receivers (c : ClassDecl) : Silent (receivers c) :=
  (silent_slotType _).bind fun _ => (silent_slotType _).bind fun _ => silent_pure _

/-- The classes of a block get fresh types. -/
lemma silent_declareClasses (cs : List (Slot × ClassDecl)) : Silent (declareClasses cs) := by
  induction cs with
  | nil => exact silent_pure ()
  | cons c cs ih =>
    exact (silent_receivers c.2).bind fun _ => (silent_bind c.1 _).bind fun _ => ih

end Infer

/-! ### Described types -/

namespace Builtins

mutual

/-- A described type only adds types to a graph. -/
theorem later_intern (b : Builtins) : (t : TypeSpec) → (g : TypeGraph) →
    g.Later (StateT.run (intern b t) g).2
  | .number, g | .text, g | .boolean, g => .refl g
  | .any, g => g.later_push _
  | .cls methods, g => by
    rw [intern]
    exact (later_internMethods b [] methods g).trans (TypeGraph.later_push _ _)

/-- Described types one after the other only add types to a graph. -/
theorem later_internAll (b : Builtins) : (ts : List TypeSpec) → (g : TypeGraph) →
    g.Later (StateT.run (internAll b ts) g).2
  | [], g => .refl g
  | t :: ts, g => by
    rw [internAll]
    exact (later_intern b t g).trans (later_internAll b ts _)

/-- The methods of a described class only add types to a graph. -/
theorem later_internMethods (b : Builtins) (shape : Shape) : (ms : List MethodSpec) →
    (g : TypeGraph) → g.Later (StateT.run (internMethods b shape ms) g).2
  | [], g => .refl g
  | ⟨_, none, result⟩ :: ms, g => by
    rw [internMethods]
    exact (later_intern b result g).trans (later_internMethods b _ ms _)
  | ⟨_, some ts, result⟩ :: ms, g => by
    rw [internMethods]
    exact ((later_internAll b ts g).trans (later_intern b result _)).trans
      (later_internMethods b _ ms _)

end

end Builtins

/-- The types that a host describes are given without any demand. -/
lemma Infer.silent_inferGlobals (host : List (String × TypeSpec)) :
    (globals : List (Slot × String)) → Silent (inferGlobals host globals)
  | [] => silent_pure ()
  | (s, name) :: rest => by
    rw [inferGlobals]
    cases host.lookup name with
    | none =>
      exact (silent_fresh.bind fun t => silent_bind s t).bind fun _ =>
        silent_inferGlobals host rest
    | some spec =>
      have interned : Silent (modifyGet fun st : Inference =>
          ((StateT.run (Builtins.intern st.builtins spec) st.graph).1,
            { st with graph := (StateT.run (Builtins.intern st.builtins spec) st.graph).2 })) :=
        fun st => ⟨rfl, rfl, Builtins.later_intern _ spec st.graph⟩
      exact (interned.bind fun t => silent_bind s t).bind fun _ => silent_inferGlobals host rest

/-! ### The pass and inference -/

/-- A step of inference that makes no demand, as a step of the pass. -/
instance : MonadLift Infer Check where
  monadLift x := fun st => pure (StateT.run x st)

namespace Check

variable {α β : Type}

/-- A step of the pass does what a step of inference does, and reports the mistakes that
this one takes down. -/
def Follows (y : Check α) (x : Infer α) : Prop :=
  ∀ ⦃st : Inference⦄, st.Named → (x.after st).Named ∧ ∃ ds : List Diagnostic,
    (x.after st).reports = st.reports ++ ds ∧
      (StateT.run y st.blank).Adds (x.answer st, (x.after st).blank) ds

/-- A result that is at hand is reported with nothing. -/
lemma follows_pure (a : α) : Follows (pure a) (pure a) := fun st named =>
  ⟨named, [], (List.append_nil _).symm, adds_pure (a, st.blank)⟩

/-- Steps that follow inference one after the other follow it. -/
lemma Follows.bind {y : Check α} {x : Infer α} {k : α → Check β} {f : α → Infer β}
    (hx : y.Follows x) (hf : ∀ a, (k a).Follows (f a)) : (y >>= k).Follows (x >>= f) := by
  intro st named
  obtain ⟨named₁, ds, reports, adds⟩ := hx named
  obtain ⟨named₂, es, reports', adds'⟩ := hf (x.answer st) named₁
  refine ⟨named₂, ds ++ es, ?_, ?_⟩
  · rw [← List.append_assoc, ← reports]
    exact reports'
  · rw [StateT.run_bind]
    exact adds.bind adds'

/-- A step without demands reports nothing. -/
lemma follows_lift {x : Infer α} (silent : x.Silent) : Follows (liftM x) x := by
  intro st named
  obtain ⟨run, problems, later⟩ := silent st
  refine ⟨?_, [], ?_, ?_⟩
  · intro p hp t ht
    rw [problems] at hp
    exact later.lt (named p hp t ht)
  · rw [List.append_nil, Inference.reports, problems]
    exact Inference.reports_later later named
  · rw [← run]
    exact adds_pure _

/-- Demands on a line that the left type be below the right one. -/
def demand (left right : TypeId) (line : Line) : Check Unit := fun st => do
  let graph ← st.graph.solveTelling (.new line) [.below left right]
  return ((), { st with graph })

/-- A demand is reported if and as inference takes it down. -/
lemma follows_demand (left right : TypeId) (line : Line) :
    (demand left right line).Follows (Infer.demand left right line) := by
  intro st named
  have issued : st.graph.NamesIssued [.below left right] := fun c hc => by
    cases List.mem_singleton.1 hc
  have later := st.graph.later_solve [.below left right]
  have adds := (st.graph.adds_solveTelling (.new line) issued).bind
    (f := fun graph => pure ((), { st.blank with graph })) (adds_pure _)
  rw [List.append_nil] at adds
  refine ⟨?_, _, ?_, adds⟩
  · intro p hp t ht
    rcases List.mem_append.1 hp with old | new
    · exact later.lt (named p old t ht)
    · obtain ⟨c, hc, rfl⟩ := Option.map_eq_some_iff.1 (Option.mem_toList.1 new)
      exact later.lt (TypeGraph.lt_of_mem_solve issued c (List.mem_of_mem_head? hc) t ht)
  · rw [← Inference.reports_later later named]
    refine List.map_append.trans (congrArg _ ?_)
    cases (st.graph.solve [.below left right]).2 <;> rfl

/-- Demands that types be below others one by one. -/
def demandEach (line : Line) : List TypeId → List TypeId → Check Unit
  | l :: ls, r :: rs => do
    demand l r line
    demandEach line ls rs
  | _, _ => return

/-- Demands one by one are reported if and as inference takes them down. -/
lemma follows_demandEach (line : Line) : (ls rs : List TypeId) →
    (demandEach line ls rs).Follows (Infer.demandEach line ls rs)
  | l :: ls, r :: rs => (follows_demand l r line).bind fun _ => follows_demandEach line ls rs
  | [], _ => follows_pure ()
  | _ :: _, [] => follows_pure ()

/-- Demands that a type be a boolean. -/
def demandBoolean (t : TypeId) (line : Line) : Check Unit := do
  demand t (← get).builtins.boolean line

/-- The demand for a boolean is reported if and as inference takes it down. -/
lemma follows_demandBoolean (t : TypeId) (line : Line) :
    (demandBoolean t line).Follows (Infer.demandBoolean t line) :=
  fun st named => follows_demand t st.builtins.boolean line named

/-- A call demands that the receiver have a method that takes the arguments. -/
def call (receiver : TypeId) (name : String) (arguments : Option (List TypeId)) (line : Line) :
    Check TypeId := do
  let params ← match arguments with
    | none => pure none
    | some ts => do
      let ts ← Infer.freshFor ts
      pure (some ts)
  let result ← Infer.fresh
  let wanted ← Infer.shape [(⟨name, params.map List.length⟩, ⟨params, result⟩)]
  demand receiver wanted line
  demandEach line (arguments.getD []) (params.getD [])
  return result

/-- The demands of a call once its types are at hand. -/
lemma follows_call (receiver : TypeId) (name : String) (arguments : Option (List TypeId))
    (line : Line) : (call receiver name arguments line).Follows
      (Infer.call receiver name arguments line) := by
  have rest (params : Option (List TypeId)) := (follows_lift Infer.silent_fresh).bind fun result =>
    (follows_lift (Infer.silent_shape
      [(⟨name, params.map List.length⟩, ⟨params, result⟩)])).bind fun wanted =>
    (follows_demand receiver wanted line).bind fun _ =>
    (follows_demandEach line (arguments.getD []) (params.getD [])).bind fun _ =>
    follows_pure result
  cases arguments with
  | none => exact (follows_pure none).bind rest
  | some ts =>
    exact ((follows_lift (Infer.silent_freshFor ts)).bind fun us =>
      follows_pure (some us)).bind rest

/-- What a constructor makes is an instance, neither more nor less. -/
def demandInstance (instances made : TypeId) (line : Line) : Check Unit := do
  demand instances made line
  demand made instances line

/-- Both demands on an instance are reported if and as inference takes them down. -/
lemma follows_demandInstance (instances made : TypeId) (line : Line) :
    (demandInstance instances made line).Follows (Infer.demandInstance instances made line) :=
  (follows_demand instances made line).bind fun _ => follows_demand made instances line

end Check

/-! ### The walk -/

open Check

mutual

/-- The type of an expression. -/
def checkExpr : Expr → Check TypeId
  | .assign target value line => do
    let value ← checkExpr value
    let target ← Infer.slotType target
    demand value target line
    return value
  | .call receiver name arguments line => do
    let receiver ← checkExpr receiver
    let arguments ← match arguments with
      | none => pure none
      | some es => do
        let ts ← checkExprs es
        pure (some ts)
    Check.call receiver name arguments line
  | .literal value _ => Infer.literal value
  | .read s _ => Infer.slotType s
  | .logical _ left right line => do
    let left ← checkExpr left
    demandBoolean left line
    let right ← checkExpr right
    demandBoolean right line
    Infer.fresh
  | .cls decl => checkClass decl

/-- The types of expressions, from left to right. -/
def checkExprs : List Expr → Check (List TypeId)
  | [] => return []
  | e :: es => do
    let t ← checkExpr e
    return t :: (← checkExprs es)

/-- The type of the value that a statement returns. -/
def checkStmt : Stmt → Check TypeId
  | .block body => checkBlock body
  | .branch condition yes no line => do
    let c ← checkExpr condition
    demandBoolean c condition.line
    let yes ← checkStmt yes
    let no ← match no with
      | none => Infer.bottom
      | some s => checkStmt s
    let join ← Infer.fresh
    demand yes join line
    demand no join line
    return join
  | .loop condition body line => do
    let c ← checkExpr condition
    demandBoolean c condition.line
    let body ← checkStmt body
    let join ← Infer.fresh
    demand body join line
    demand (← Infer.bottom) join line
    return join
  | .var s init line => do
    let t ← Infer.slotType s
    match init with
    | none => pure ()
    | some e => do
      let value ← checkExpr e
      demand value t line
    Infer.bottom
  | .ret value _ =>
    match value with
    | none => Infer.fresh
    | some e => checkExpr e
  | .eval e => do
    let _ ← checkExpr e
    Infer.bottom

/-- Lets the types of statements flow into `join`. -/
def checkStmts (join : TypeId) : List Stmt → Check Unit
  | [] => return
  | s :: ss => do
    let t ← checkStmt s
    demand t join s.line
    checkStmts join ss

/-- The type of the value that a block returns. -/
def checkBlock : Block → Check TypeId
  | ⟨statements, _, classes⟩ => do
    Infer.declareClasses classes
    checkClasses classes
    let join ← Infer.fresh
    checkStmts join statements
    return join

/-- Types the classes of a block. -/
def checkClasses : List (Slot × ClassDecl) → Check Unit
  | [] => return
  | (_, c) :: rest => do
    let _ ← checkClass c
    checkClasses rest

/-- The type of a class as a value. -/
def checkClass : ClassDecl → Check TypeId
  | c@⟨_, line, _, _, constructors, staticMethods, methods, _, _⟩ => do
    let (statics, instances) ← Infer.receivers c
    let onInstance ← checkMethods [] methods
    let onClass ← checkMethods [] staticMethods
    let onClass ← checkConstructors instances onClass constructors
    let instanceShape ← Infer.shape onInstance
    let staticShape ← Infer.shape onClass
    demand instanceShape instances line
    demand staticShape statics line
    return statics

/-- Adds methods to a shape. -/
def checkMethods (s : Shape) : List Method → Check Shape
  | [] => return s
  | m :: ms => do
    let signature ← checkMethod m
    checkMethods (s.insert m.selector signature) ms

/-- Adds constructors to a shape. -/
def checkConstructors (instances : TypeId) (s : Shape) : List Method → Check Shape
  | [] => return s
  | m :: ms => do
    let signature ← checkMethod m
    demandInstance instances signature.result m.line
    checkConstructors instances (s.insert m.selector signature) ms

/-- The type of a method. -/
def checkMethod : Method → Check Signature
  | ⟨_, params, _, body, line⟩ => do
    let params ← match params with
      | none => pure none
      | some ps => do
        let ts ← Infer.slotTypes ps
        pure (some ts)
    let result ← Infer.fresh
    let returned ← checkBlock body
    demand returned result line
    return ⟨params, result⟩

end

-- One case for each construct: its steps are those of inference, in the same order, and
-- each of them reports what the step of inference takes down.
mutual

/-- The pass follows inference through an expression. -/
theorem checkExpr_follows : (e : Expr) → (checkExpr e).Follows (inferExpr e)
  | .assign target value line => by
    rw [checkExpr, inferExpr]
    exact (checkExpr_follows value).bind fun v =>
      (follows_lift (Infer.silent_slotType target)).bind fun t =>
      (follows_demand v t line).bind fun _ => follows_pure v
  | .call receiver name none line => by
    rw [checkExpr, inferExpr]
    exact (checkExpr_follows receiver).bind fun r =>
      (follows_pure none).bind fun ts => follows_call r name ts line
  | .call receiver name (some es) line => by
    rw [checkExpr, inferExpr]
    exact (checkExpr_follows receiver).bind fun r =>
      ((checkExprs_follows es).bind fun ts => follows_pure (some ts)).bind fun ts =>
      follows_call r name ts line
  | .literal value _ => by
    rw [checkExpr, inferExpr]
    exact follows_lift (Infer.silent_literal value)
  | .read s _ => by
    rw [checkExpr, inferExpr]
    exact follows_lift (Infer.silent_slotType s)
  | .logical _ left right line => by
    rw [checkExpr, inferExpr]
    exact (checkExpr_follows left).bind fun l => (follows_demandBoolean l line).bind fun _ =>
      (checkExpr_follows right).bind fun r => (follows_demandBoolean r line).bind fun _ =>
      follows_lift Infer.silent_fresh
  | .cls decl => by
    rw [checkExpr, inferExpr]
    exact checkClass_follows decl

/-- The pass follows inference through expressions, one after the other. -/
theorem checkExprs_follows : (es : List Expr) → (checkExprs es).Follows (inferExprs es)
  | [] => follows_pure []
  | e :: es => by
    rw [checkExprs, inferExprs]
    exact (checkExpr_follows e).bind fun t => (checkExprs_follows es).bind fun ts =>
      follows_pure (t :: ts)

/-- The pass follows inference through a statement. -/
theorem checkStmt_follows : (s : Stmt) → (checkStmt s).Follows (inferStmt s)
  | .block body => by
    rw [checkStmt, inferStmt]
    exact checkBlock_follows body
  | .branch condition yes no line => by
    have join (y n : TypeId) := (follows_lift Infer.silent_fresh).bind fun j =>
      (follows_demand y j line).bind fun _ => (follows_demand n j line).bind fun _ =>
      follows_pure j
    cases no with
    | none =>
      rw [checkStmt, inferStmt]
      exact (checkExpr_follows condition).bind fun c =>
        (follows_demandBoolean c condition.line).bind fun _ =>
        (checkStmt_follows yes).bind fun y =>
        (follows_lift Infer.silent_bottom).bind fun n => join y n
    | some s =>
      rw [checkStmt, inferStmt]
      exact (checkExpr_follows condition).bind fun c =>
        (follows_demandBoolean c condition.line).bind fun _ =>
        (checkStmt_follows yes).bind fun y => (checkStmt_follows s).bind fun n => join y n
  | .loop condition body line => by
    rw [checkStmt, inferStmt]
    exact (checkExpr_follows condition).bind fun c =>
      (follows_demandBoolean c condition.line).bind fun _ =>
      (checkStmt_follows body).bind fun b => (follows_lift Infer.silent_fresh).bind fun j =>
      (follows_demand b j line).bind fun _ => (follows_lift Infer.silent_bottom).bind fun n =>
      (follows_demand n j line).bind fun _ => follows_pure j
  | .var s none line => by
    rw [checkStmt, inferStmt]
    exact (follows_lift (Infer.silent_slotType s)).bind fun _ => (follows_pure ()).bind fun _ =>
      follows_lift Infer.silent_bottom
  | .var s (some e) line => by
    rw [checkStmt, inferStmt]
    exact (follows_lift (Infer.silent_slotType s)).bind fun t =>
      ((checkExpr_follows e).bind fun v => follows_demand v t line).bind fun _ =>
      follows_lift Infer.silent_bottom
  | .ret none _ => by
    rw [checkStmt, inferStmt]
    exact follows_lift Infer.silent_fresh
  | .ret (some e) _ => by
    rw [checkStmt, inferStmt]
    exact checkExpr_follows e
  | .eval e => by
    rw [checkStmt, inferStmt]
    exact (checkExpr_follows e).bind fun _ => follows_lift Infer.silent_bottom

/-- The pass follows inference through statements, whose types are joined. -/
theorem checkStmts_follows (join : TypeId) : (ss : List Stmt) →
    (checkStmts join ss).Follows (inferStmts join ss)
  | [] => follows_pure ()
  | s :: ss => by
    rw [checkStmts, inferStmts]
    exact (checkStmt_follows s).bind fun t => (follows_demand t join s.line).bind fun _ =>
      checkStmts_follows join ss

/-- The pass follows inference through a block. -/
theorem checkBlock_follows : (b : Block) → (checkBlock b).Follows (inferBlock b)
  | ⟨statements, _, classes⟩ => by
    rw [checkBlock, inferBlock]
    exact (follows_lift (Infer.silent_declareClasses classes)).bind fun _ =>
      (checkClasses_follows classes).bind fun _ => (follows_lift Infer.silent_fresh).bind fun j =>
      (checkStmts_follows j statements).bind fun _ => follows_pure j

/-- The pass follows inference through the classes of a block. -/
theorem checkClasses_follows : (cs : List (Slot × ClassDecl)) →
    (checkClasses cs).Follows (inferClasses cs)
  | [] => follows_pure ()
  | (_, c) :: rest => by
    rw [checkClasses, inferClasses]
    exact (checkClass_follows c).bind fun _ => checkClasses_follows rest

/-- The pass follows inference through a class. -/
theorem checkClass_follows : (c : ClassDecl) → (checkClass c).Follows (inferClass c)
  | ⟨_, line, _, _, constructors, staticMethods, methods, _, _⟩ => by
    rw [checkClass, inferClass]
    exact (follows_lift (Infer.silent_receivers _)).bind fun r =>
      (checkMethods_follows [] methods).bind fun onInstance =>
      (checkMethods_follows [] staticMethods).bind fun onClass =>
      (checkConstructors_follows r.2 onClass constructors).bind fun onClass =>
      (follows_lift (Infer.silent_shape onInstance)).bind fun instanceShape =>
      (follows_lift (Infer.silent_shape onClass)).bind fun staticShape =>
      (follows_demand instanceShape r.2 line).bind fun _ =>
      (follows_demand staticShape r.1 line).bind fun _ => follows_pure r.1

/-- The pass follows inference through methods, whose types are put into a shape. -/
theorem checkMethods_follows (s : Shape) : (ms : List Method) →
    (checkMethods s ms).Follows (inferMethods s ms)
  | [] => follows_pure s
  | m :: ms => by
    rw [checkMethods, inferMethods]
    exact (checkMethod_follows m).bind fun _ => checkMethods_follows _ ms

/-- The pass follows inference through constructors, which have to make instances. -/
theorem checkConstructors_follows (instances : TypeId) (s : Shape) : (ms : List Method) →
    (checkConstructors instances s ms).Follows (inferConstructors instances s ms)
  | [] => follows_pure s
  | m :: ms => by
    rw [checkConstructors, inferConstructors]
    exact (checkMethod_follows m).bind fun signature =>
      (follows_demandInstance instances signature.result m.line).bind fun _ =>
      checkConstructors_follows instances _ ms

/-- The pass follows inference through a method. -/
theorem checkMethod_follows : (m : Method) → (checkMethod m).Follows (inferMethod m)
  | ⟨_, params, _, body, line⟩ => by
    have rest (params : Option (List TypeId)) := (follows_lift Infer.silent_fresh).bind fun r =>
      (checkBlock_follows body).bind fun b => (follows_demand b r line).bind fun _ =>
      follows_pure (⟨params, r⟩ : Signature)
    cases params with
    | none =>
      rw [checkMethod, inferMethod]
      exact (follows_pure none).bind rest
    | some ps =>
      rw [checkMethod, inferMethod]
      exact ((follows_lift (Infer.silent_slotTypes ps)).bind fun ts =>
        follows_pure (some ts)).bind rest

end

/-! ### Whole programs -/

/-- The pass over the types of a program whose host describes the types of some globals. -/
def checkTypes (host : List (String × TypeSpec)) (script : Script) : Reporting Unit := do
  let walk : Check Unit := do
    inferGlobals host script.globals
    let _ ← checkBlock script.root
  let _ ← walk.run Inference.start
  return

/-- The pass adds the reports on the types of the program to any others. -/
theorem checkTypes_adds (host : List (String × TypeSpec)) (script : Script) :
    (checkTypes host script).Adds () (typeDiagnostics host script) := by
  have walk := (follows_lift (Infer.silent_inferGlobals host script.globals)).bind fun _ =>
    (checkBlock_follows script.root).bind fun _ => follows_pure ()
  obtain ⟨-, ds, reports, adds⟩ := walk (fun p hp => nomatch hp : Inference.start.Named)
  have found : typeDiagnostics host script = ds := reports
  rw [found]
  exact adds.andReturn ()

end Ember
