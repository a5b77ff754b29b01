/-
Putting two types in order as a recursion: a call that is not cut off notes its
pair and then makes a call for everything the pair asks for. The recursion ends on
every graph, whatever cycles there are in it, because each call that is not cut
off notes a pair that was not noted before.

* `TypeGraph.lookedUp`: the types whose nodes a call looks at;
* `TypeGraph.Puts`, `TypeGraph.PutsAll`: the recursion and the loop in its body as
  relations, with the pairs of the calls that are not cut off. No rule applies to
  a call that would look at a type which does not exist;
* `PutsAll.append_inv`: a loop over two lists of goals is one loop after the other;
* `Puts.solves`: the recursion does what the work on a list of goals does, and
  the pairs that it notes are those of its calls;
* `puts_solve`: the recursion ends on every list of goals about existing types;
* `constrain_terminates`: the same for two types, with what it does to the graph.
-/
import Mathlib
import Ember.Proofs.Types.Saturation

namespace Ember

namespace TypeGraph

/-! ### The recursion -/

/-- The types whose nodes a call looks at: the two types it is about, and the inner
type of a label that is to be below a class or the least type. -/
def lookedUp (g : TypeGraph) (left right : TypeId) : List TypeId :=
  match g.node? left, g.node? right with
  | some (.labeled _ inner), some (.cls _) => [left, right, inner]
  | some (.labeled _ inner), some .bottom => [left, right, inner]
  | _, _ => [left, right]

mutual

/-- A call that puts two types in order, with the pairs of the calls that are not
cut off, the graph it ends with and the conflicts it meets. -/
inductive Puts : TypeGraph → TypeId → TypeId → List (TypeId × TypeId) → TypeGraph →
    List Conflict → Prop
  /-- A type is below itself, and a pair that has been noted is not looked at again. -/
  | cutOff {g : TypeGraph} {left right : TypeId} (h : g.Below left right) :
      Puts g left right [] g []
  | enters {g g' : TypeGraph} {left right : TypeId} {calls : List (TypeId × TypeId)}
      {conflicts : List Conflict} (hnew : ¬g.Below left right)
      (hlooked : ∀ t ∈ g.lookedUp left right, t < g.size)
      (hbody : PutsAll (g.expand left right).1 (g.expand left right).2 calls g' conflicts) :
      Puts g left right ((left, right) :: calls) g' conflicts

/-- The loop over what a pair asks for. -/
inductive PutsAll : TypeGraph → List Goal → List (TypeId × TypeId) → TypeGraph →
    List Conflict → Prop
  | nil (g : TypeGraph) : PutsAll g [] [] g []
  | conflict {g g' : TypeGraph} {rest : List Goal} {calls : List (TypeId × TypeId)}
      {conflicts : List Conflict} (c : Conflict) (hrest : PutsAll g rest calls g' conflicts) :
      PutsAll g (.conflict c :: rest) calls g' (c :: conflicts)
  | call {g g₁ g' : TypeGraph} {left right : TypeId} {rest : List Goal}
      {calls later : List (TypeId × TypeId)} {conflicts others : List Conflict}
      (hcall : Puts g left right calls g₁ conflicts) (hrest : PutsAll g₁ rest later g' others) :
      PutsAll g (.below left right :: rest) (calls ++ later) g' (conflicts ++ others)

end

/-- A loop over two lists of goals is a loop over the first and then one over the
second. -/
lemma PutsAll.append_inv {g g' : TypeGraph} {first rest : List Goal}
    {calls : List (TypeId × TypeId)} {conflicts : List Conflict}
    (h : PutsAll g (first ++ rest) calls g' conflicts) :
    ∃ g₁ calls₁ calls₂ conflicts₁ conflicts₂, PutsAll g first calls₁ g₁ conflicts₁ ∧
      PutsAll g₁ rest calls₂ g' conflicts₂ ∧ calls = calls₁ ++ calls₂ ∧
      conflicts = conflicts₁ ++ conflicts₂ := by
  induction first generalizing g calls conflicts with
  | nil => exact ⟨g, [], calls, [], conflicts, .nil g, h, rfl, rfl⟩
  | cons goal first ih =>
    cases h with
    | conflict c hrest =>
      obtain ⟨g₁, calls₁, calls₂, conflicts₁, conflicts₂, hfirst, hlater, rfl, rfl⟩ := ih hrest
      exact ⟨g₁, calls₁, calls₂, _, conflicts₂, .conflict c hfirst, hlater, rfl, rfl⟩
    | call hcall hrest =>
      obtain ⟨g₁, calls₁, calls₂, conflicts₁, conflicts₂, hfirst, hlater, rfl, rfl⟩ := ih hrest
      exact ⟨g₁, _, calls₂, _, conflicts₂, .call hcall hfirst, hlater,
        (List.append_assoc ..).symm, (List.append_assoc ..).symm⟩

/-- A loop over one goal is one call. -/
lemma PutsAll.single {g g' : TypeGraph} {left right : TypeId} {calls : List (TypeId × TypeId)}
    {conflicts : List Conflict} (h : PutsAll g [.below left right] calls g' conflicts) :
    Puts g left right calls g' conflicts := by
  cases h with
  | call hcall hrest =>
    cases hrest with
    | nil => rwa [List.append_nil, List.append_nil]

/-! ### The recursion and the list of goals -/

/-- The left node of a call is looked up. -/
lemma left_mem_lookedUp (g : TypeGraph) (left right : TypeId) : left ∈ g.lookedUp left right := by
  unfold lookedUp
  split <;> simp

/-- The right node of a call is looked up. -/
lemma right_mem_lookedUp (g : TypeGraph) (left right : TypeId) : right ∈ g.lookedUp left right := by
  unfold lookedUp
  split <;> simp

/-- Different nodes of which nothing is established are an open pair. -/
lemma isOpen_of_not_below {g : TypeGraph} {left right : TypeId} (h : ¬g.Below left right)
    (hleft : left < g.size) (hright : right < g.size) : g.IsOpen left right :=
  ⟨fun heq => h (.inl heq), hleft, hright, fun hold => h (.inr hold)⟩

/-- Nodes that are the same, or of which it is established, are no open pair. -/
lemma not_isOpen_of_below {g : TypeGraph} {left right : TypeId} (h : g.Below left right) :
    ¬g.IsOpen left right := by
  rintro ⟨hne, -, -, hnew⟩
  exact h.elim hne hnew

/-- What a call, or the loop in its body, does as a list of goals would do it: it
leads to the same graph and the same conflicts, before anything that comes later on
the list, and notes the pairs of its calls in their order. -/
def Solves (g : TypeGraph) (goals : List Goal) (calls : List (TypeId × TypeId)) (g' : TypeGraph)
    (conflicts : List Conflict) : Prop :=
  (∀ rest, g.solve (goals ++ rest) = ((g'.solve rest).1, conflicts ++ (g'.solve rest).2)) ∧
    g'.established = calls.reverse ++ g.established

/-- A call for an established pair ends at once. -/
lemma Solves.cutOff {g : TypeGraph} {left right : TypeId} (h : g.Below left right) :
    g.Solves [.below left right] [] g [] := by
  refine ⟨fun rest => ?_, rfl⟩
  show g.solve (.below left right :: rest) = _
  rw [solve_closed (not_isOpen_of_below h)]
  rfl

/-- A call for another pair establishes it and goes on with the goals that it leads to. -/
lemma Solves.enters {g g' : TypeGraph} {left right : TypeId} {calls : List (TypeId × TypeId)}
    {conflicts : List Conflict} (hnew : ¬g.Below left right)
    (hlooked : ∀ t ∈ g.lookedUp left right, t < g.size)
    (hbody : (g.expand left right).1.Solves (g.expand left right).2 calls g' conflicts) :
    g.Solves [.below left right] ((left, right) :: calls) g' conflicts := by
  have hopen : g.IsOpen left right := isOpen_of_not_below hnew
    (hlooked left (left_mem_lookedUp g left right))
    (hlooked right (right_mem_lookedUp g left right))
  obtain ⟨hsolve, hestablished⟩ := hbody
  constructor
  · intro rest
    show g.solve (.below left right :: rest) = _
    rw [solve_open hopen, hsolve]
  · calc g'.established = calls.reverse ++ (left, right) :: g.established := by
          rw [hestablished, established_expand]
      _ = ((left, right) :: calls).reverse ++ g.established := by simp

/-- A conflict among the goals is reported before what comes after it. -/
lemma Solves.conflict {g g' : TypeGraph} {rest : List Goal} {calls : List (TypeId × TypeId)}
    {conflicts : List Conflict} (h : g.Solves rest calls g' conflicts) (c : Conflict) :
    g.Solves (.conflict c :: rest) calls g' (c :: conflicts) := by
  refine ⟨fun later => ?_, h.2⟩
  rw [List.cons_append, solve_conflict, h.1]
  rfl

/-- A call among the goals ends before the goals after it begin. -/
lemma Solves.call {g g₁ g' : TypeGraph} {left right : TypeId} {rest : List Goal}
    {calls later : List (TypeId × TypeId)} {conflicts others : List Conflict}
    (hcall : g.Solves [.below left right] calls g₁ conflicts)
    (hrest : g₁.Solves rest later g' others) :
    g.Solves (.below left right :: rest) (calls ++ later) g' (conflicts ++ others) := by
  constructor
  · intro more
    calc g.solve (.below left right :: rest ++ more)
        = ((g₁.solve (rest ++ more)).1, conflicts ++ (g₁.solve (rest ++ more)).2) :=
          hcall.1 (rest ++ more)
      _ = ((g'.solve more).1, conflicts ++ others ++ (g'.solve more).2) := by
          rw [hrest.1, List.append_assoc]
  · calc g'.established = later.reverse ++ (calls.reverse ++ g.established) := by
          rw [hrest.2, hcall.2]
      _ = (calls ++ later).reverse ++ g.established := by simp

mutual

/-- A call of the recursion does what its goal on a list would do. -/
theorem Puts.solves {g g' : TypeGraph} {left right : TypeId} {calls : List (TypeId × TypeId)}
    {conflicts : List Conflict} :
    Puts g left right calls g' conflicts → g.Solves [.below left right] calls g' conflicts
  | .cutOff h => .cutOff h
  | .enters hnew hlooked hbody => .enters hnew hlooked hbody.solves

/-- The loop in its body does what its goals on a list would do. -/
theorem PutsAll.solves {g g' : TypeGraph} {goals : List Goal} {calls : List (TypeId × TypeId)}
    {conflicts : List Conflict} :
    PutsAll g goals calls g' conflicts → g.Solves goals calls g' conflicts
  | .nil g => ⟨fun _ => rfl, rfl⟩
  | .conflict c hrest => hrest.solves.conflict c
  | .call hcall hrest => hcall.solves.call hrest.solves

end

/-- The recursion has one outcome, that of the work on its goal. -/
lemma Puts.unique {g g₁ g₂ : TypeGraph} {left right : TypeId}
    {calls₁ calls₂ : List (TypeId × TypeId)} {conflicts₁ conflicts₂ : List Conflict}
    (h₁ : Puts g left right calls₁ g₁ conflicts₁)
    (h₂ : Puts g left right calls₂ g₂ conflicts₂) :
    calls₂ = calls₁ ∧ g₂ = g₁ ∧ conflicts₂ = conflicts₁ := by
  have hconstrain : ∀ {calls g' conflicts}, Puts g left right calls g' conflicts →
      g.constrain left right = (g', conflicts) := by
    intro calls g' conflicts h
    have hsolve := h.solves.1 []
    rw [solve_nil, List.append_nil, List.append_nil] at hsolve
    exact hsolve
  have heq : (g₂, conflicts₂) = (g₁, conflicts₁) := (hconstrain h₂).symm.trans (hconstrain h₁)
  cases heq
  have hcalls : calls₂.reverse ++ g.established = calls₁.reverse ++ g.established :=
    h₂.solves.2.symm.trans h₁.solves.2
  exact ⟨List.reverse_injective (List.append_cancel_right hcalls), rfl, rfl⟩

/-! ### Termination -/

/-- Apart from the types that it is about, a call looks at an inner type only. -/
lemma mem_lookedUp {g : TypeGraph} {left right t : TypeId} (ht : t ∈ g.lookedUp left right) :
    t = left ∨ t = right ∨ ∃ name, g.node? left = some (.labeled name t) := by
  unfold lookedUp at ht
  split at ht <;> simp only [List.mem_cons, List.not_mem_nil, or_false] at ht
  case h_1 name inner shape hl hr =>
    refine ht.imp_right (Or.imp_right ?_)
    rintro rfl
    exact ⟨name, hl⟩
  case h_2 name inner hl hr =>
    refine ht.imp_right (Or.imp_right ?_)
    rintro rfl
    exact ⟨name, hl⟩
  case h_3 => exact ht.imp_right .inl

/-- A call about existing types looks at existing types only. -/
lemma lookedUp_lt {g : TypeGraph} (hissued : g.Issued) {left right : TypeId}
    (hleft : left < g.size) (hright : right < g.size) :
    ∀ t ∈ g.lookedUp left right, t < g.size := by
  intro t ht
  rcases mem_lookedUp ht with rfl | rfl | ⟨name, hinner⟩
  · exact hleft
  · exact hright
  · exact hissued left _ hinner t (List.mem_singleton_self t)

/-- The recursion ends on every list of goals about existing types. The calls that
are not cut off are about pairs of existing types, each of which is noted by one of
them and was not noted before. -/
theorem puts_solve {g : TypeGraph} {goals : List Goal} (hissued : g.Issued)
    (hgoals : g.IssuedGoals goals) :
    ∃ calls, PutsAll g goals calls (g.solve goals).1 (g.solve goals).2 ∧ calls.Nodup ∧
      ∀ p ∈ calls, p ∉ g.established ∧ p.1 < g.size ∧ p.2 < g.size := by
  induction g, goals using solve_induction with
  | nil g =>
    rw [solve_nil]
    exact ⟨[], .nil g, List.nodup_nil, fun p hp => absurd hp List.not_mem_nil⟩
  | conflict g c rest ih =>
    rw [solve_conflict]
    obtain ⟨calls, hcalls, hfacts⟩ :=
      ih hissued fun goal hgoal => hgoals goal (List.mem_cons_of_mem _ hgoal)
    exact ⟨calls, .conflict c hcalls, hfacts⟩
  | opened g left right rest h ih =>
    obtain ⟨hne, hleft, hright, hnew⟩ := h
    have hnext := (expands hleft hright).issued hissued hleft hright
    -- the goals of the pair come before the rest of the list, so that the loop over
    -- both splits into the body of this call and what comes after the call
    obtain ⟨calls, hcalls, hnodup, hfacts⟩ := ih hnext.1 fun goal hgoal t ht => by
      rw [size_expand]
      rcases List.mem_append.1 hgoal with hgoal | hgoal
      · exact hnext.2 goal hgoal t ht
      · exact hgoals goal (List.mem_cons_of_mem _ hgoal) t ht
    obtain ⟨g₁, body, later, conflicts₁, conflicts₂, hbody, hlater, rfl, hconflicts⟩ :=
      hcalls.append_inv
    have hbelow : ¬g.Below left right := fun h => h.elim hne hnew
    have hcall := Puts.enters hbelow (lookedUp_lt hissued hleft hright) hbody
    rw [solve_open ⟨hne, hleft, hright, hnew⟩, hconflicts]
    rw [established_expand, size_expand] at hfacts
    refine ⟨(left, right) :: body ++ later, .call hcall hlater, ?_, ?_⟩
    · refine List.nodup_cons.2 ⟨fun hmem => ?_, hnodup⟩
      exact (hfacts _ hmem).1 (List.mem_cons_self ..)
    · rintro p (_ | ⟨_, hp⟩)
      · exact ⟨hnew, hleft, hright⟩
      · exact ⟨fun hold => (hfacts p hp).1 (List.mem_cons_of_mem _ hold), (hfacts p hp).2⟩
  | closed g left right rest h ih =>
    rw [solve_closed h]
    obtain ⟨calls, hcalls, hfacts⟩ :=
      ih hissued fun goal hgoal => hgoals goal (List.mem_cons_of_mem _ hgoal)
    have hpair := hgoals _ (List.mem_cons_self ..)
    have hboth : left < g.size ∧ right < g.size :=
      ⟨hpair left (by simp [Goal.types]), hpair right (by simp [Goal.types])⟩
    have hbelow : g.Below left right := below_of_not_isOpen h hboth.1 hboth.2
    exact ⟨calls, .call (.cutOff hbelow) hcalls, hfacts⟩

/-- Growing keeps whatever is no variable as it is. -/
lemma Grows.eq_of_ne_var {g g' : TypeGraph} (h : g.Grows g') {t : TypeId} {n : TypeNode}
    (hn : g.node? t = some n) (hkind : n.kind ≠ .var) : g'.node? t = some n := by
  obtain ⟨n', hn', hgrow⟩ := h.node? hn
  cases hgrow with
  | same => exact hn'
  | bounds => exact absurd rfl hkind

/-- There are as many pairs of numbers below a bound as the square of the bound. -/
lemma length_pairs (n : Nat) : (pairs n).length = n * n := by
  simp [pairs, List.length_flatMap]

/-- Putting two types of a graph in order ends, whatever cycles there are among the
types, and looks at existing types only: the recursion has an outcome, and one
only. No type is created, and only the bounds of variables change. What is
established in addition are the pairs of the calls that were not cut off: each call
notes a pair of existing types that was not noted before, so that there are at most
as many of them as there are pairs of types. -/
theorem constrain_terminates {g : TypeGraph} (hissued : g.Issued) {left right : TypeId}
    (hleft : left < g.size) (hright : right < g.size) :
    ∃ calls, Puts g left right calls (g.constrain left right).1 (g.constrain left right).2 ∧
      (∀ calls' g' conflicts', Puts g left right calls' g' conflicts' →
        calls' = calls ∧ g' = (g.constrain left right).1 ∧
          conflicts' = (g.constrain left right).2) ∧
      (g.constrain left right).1.size = g.size ∧
      (∀ t n, g.node? t = some n → n.kind ≠ .var →
        (g.constrain left right).1.node? t = some n) ∧
      (g.constrain left right).1.Issued ∧
      (g.constrain left right).1.established = calls.reverse ++ g.established ∧
      calls.Nodup ∧
      (∀ p ∈ calls, p ∉ g.established ∧ p.1 < g.size ∧ p.2 < g.size) ∧
      calls.length ≤ g.size * g.size := by
  have hgoals := issuedGoals_pair hleft hright
  obtain ⟨calls, hcalls, hnodup, hfacts⟩ := puts_solve hissued hgoals
  have hputs : Puts g left right calls (g.constrain left right).1 (g.constrain left right).2 :=
    hcalls.single
  have hsub : calls ⊆ pairs g.size := fun p hp => mem_pairs.2 (hfacts p hp).2
  have hgrows : g.Grows (g.constrain left right).1 := grows_solve g _
  refine ⟨calls, hputs, fun _ _ _ h => hputs.unique h, size_solve g _,
    fun _ _ hn hkind => hgrows.eq_of_ne_var hn hkind, issued_solve hissued hgoals,
    hputs.solves.2, hnodup, hfacts, ?_⟩
  calc calls.length ≤ (pairs g.size).length := (hnodup.subperm hsub).length_le
    _ = g.size * g.size := length_pairs g.size

/-- A label whose class answers with the label again is below a variable, and the
variable is put below a class that answers with itself: the call for the variable
makes one for the label, and the call that this one makes is cut off. -/
theorem constrain_terminates_cycle :
    ∃ g : TypeGraph, g.Issued ∧ 0 < g.size ∧ 3 < g.size ∧
      g.node? 1 = some (.cls [(.getter "next", ⟨none, 2⟩)]) ∧
      g.node? 2 = some (.labeled "Cell" 1) ∧
      g.node? 3 = some (.cls [(.getter "next", ⟨none, 3⟩)]) ∧
      Puts g 0 3 [(0, 3), (2, 3)] (g.constrain 0 3).1 [] := by
  have hclass := @Built.cls _ _ Built.empty.fresh [] (by decide)
  have hlabel := @Built.labeled _ _ hclass "Cell" 1 (by decide)
  have hother := @Built.cls _ _ hlabel [] (by decide)
  have hcell := @Built.addMethod _ hother 1 (.getter "next") ⟨none, 2⟩ (by decide)
  have hself := @Built.addMethod _ hcell 3 (.getter "next") ⟨none, 3⟩ (by decide)
  have hflowed := @Built.constrain _ _ hself (.new 1) 2 0 (by decide) (by decide)
  obtain ⟨g, hissued, hsize, hnodes, hbefore, hafter, hclean⟩ : ∃ g : TypeGraph, g.Issued ∧
      g.size = 4 ∧ (g.node? 1 = some (.cls [(.getter "next", ⟨none, 2⟩)]) ∧
        g.node? 2 = some (.labeled "Cell" 1) ∧
        g.node? 3 = some (.cls [(.getter "next", ⟨none, 3⟩)])) ∧
      g.established = [(2, 0)] ∧ (g.constrain 0 3).1.established = [(2, 3), (0, 3), (2, 0)] ∧
      (g.constrain 0 3).2 = [] :=
    ⟨_, hflowed.steady.1.issued, by cbv, ⟨by cbv, by cbv, by cbv⟩, by cbv, by cbv, by cbv⟩
  have hleft : 0 < g.size := by rw [hsize]; decide
  have hright : 3 < g.size := by rw [hsize]; decide
  obtain ⟨calls, hputs, -, -, -, -, hestablished, -⟩ := constrain_terminates hissued hleft hright
  have hcalls : calls.reverse = [(2, 3), (0, 3)] := by
    rw [hbefore, hafter] at hestablished
    have hsplit : [(2, 3), (0, 3)] ++ [(2, 0)] = calls.reverse ++ [(2, 0)] := hestablished
    exact (List.append_cancel_right hsplit).symm
  rw [hclean, ← List.reverse_reverse calls, hcalls] at hputs
  exact ⟨g, hissued, hleft, hright, hnodes.1, hnodes.2.1, hnodes.2.2, hputs⟩

end TypeGraph

end Ember
