/-
The pairs that a graph of types establishes, as a least closed set: which pairs
are established, which bounds are known and whether a conflict is met do not
depend on the order in which the pairs are asked for.

* `TypeGraph.Built`: the graphs that sequences of operations lead to, also with
  shapes that are not regular and with demands that share an attempt;
* `TypeGraph.bare?`: the node of a type with its bounds left out, which no work
  on a list of goals changes;
* `TypeGraph.asked`: what a pair of types asks for, the bounds aside;
* `TypeGraph.Entailed`: the least set of pairs that contains given ones, what
  they ask for, and what passes through a variable;
* `TypeGraph.Saturated`: the invariant of the solver. The bounds of a variable
  are the established pairs it stands in, and what the established pairs entail
  is established or still on the list;
* `mem_established_solve`: the pairs established by the work on a list of goals
  are the entailed ones;
* `constrainAll_order_independent`: a list of demands may be made in any order.
-/
import Mathlib
import Ember.Proofs.Types.Simulation

namespace Ember

/-! ### Sequences of operations -/

/-- The graphs that sequences of operations lead to from the graph without
types, with a mark whether any types have been put in order yet. Types are
referred to only after they have been issued, and methods are added only before
the first two types are put in order. -/
inductive TypeGraph.Built : TypeGraph → Bool → Prop
  | empty : Built .empty false
  | fresh {g : TypeGraph} {started : Bool} (h : Built g started) : Built g.fresh.2 started
  | labeled {g : TypeGraph} {started : Bool} (h : Built g started) (name : String)
      {inner : TypeId} (hinner : inner < g.size) : Built (g.push (.labeled name inner)).2 started
  | cls {g : TypeGraph} {started : Bool} (h : Built g started) {shape : Shape}
      (hissued : ∀ t ∈ shape.types, t < g.size) : Built (g.push (.cls shape)).2 started
  | bottom {g : TypeGraph} {started : Bool} (h : Built g started) : Built (g.push .bottom).2 started
  | addMethod {g : TypeGraph} (h : Built g false) (t : TypeId) (method : Selector)
      {signature : Signature} (hissued : ∀ u ∈ signature.types, u < g.size) :
      Built (g.addMethod t method signature) false
  | constrain {g : TypeGraph} {started : Bool} (h : Built g started) (attempt : Attempt)
      {left right : TypeId} (hleft : left < g.size) (hright : right < g.size) :
      Built (attempt.constrain g left right).2.1 true

/-- A demand that one type be below another, made by a line of the program. -/
structure Demand where
  left : TypeId
  right : TypeId
  line : Line

/-- The types that a demand is about. -/
def Demand.pair (d : Demand) : TypeId × TypeId := (d.left, d.right)

namespace TypeGraph

/-- Makes demands one after the other, each by an attempt of its own. Returns
the attempts as they are in the end. -/
def constrainAll (g : TypeGraph) : List Demand → TypeGraph × List Attempt
  | [] => (g, [])
  | d :: rest =>
    let first := (Attempt.new d.line).constrain g d.left d.right
    let others := constrainAll first.2.1 rest
    (others.1, first.1 :: others.2)

/-! ### Nodes without their bounds -/

end TypeGraph

/-- A node with its bounds left out. -/
def TypeNode.bare : TypeNode → TypeNode
  | .var _ _ => .var [] []
  | n => n

namespace TypeGraph

/-- The node of a type with its bounds left out. -/
def bare? (g : TypeGraph) (t : TypeId) : Option TypeNode := (g.node? t).map TypeNode.bare

/-- Whether a type is a variable. -/
def IsVar (f : TypeId → Option TypeNode) (t : TypeId) : Prop := f t = some (.var [] [])

/-- Whether a type is a label or a class. -/
def IsConcrete (f : TypeId → Option TypeNode) (t : TypeId) : Prop :=
  ∃ n, f t = some n ∧ (n.kind = .labeled ∨ n.kind = .cls)

/-- What a pair of types asks for, where `f` gives the nodes. What a variable
passes on to its bounds is left out. -/
def asked (f : TypeId → Option TypeNode) (left right : TypeId) : List Goal :=
  match f left, f right with
  | some (.labeled a _), some (.labeled b _) =>
    if a = b then [] else [.conflict (.mismatch right left)]
  | some (.cls offered), some (.cls wanted) => shapeGoals left offered wanted
  | some (.labeled _ inner), some (.cls wanted) =>
    match f inner with
    | some (.cls offered) => shapeGoals left offered wanted
    | _ => [.below inner right]
  | some (.labeled _ inner), some .bottom => [.below inner right]
  | some (.cls _), some (.labeled _ _) | some (.cls _), some .bottom =>
    [.conflict (.mismatch right left)]
  | _, _ => []

/-- Growing leaves the nodes as they are, their bounds aside. -/
lemma Grows.bare?_eq {g g' : TypeGraph} (h : g.Grows g') : g'.bare? = g.bare? := by
  funext t
  have ht := h t
  unfold bare?
  cases hn : g.node? t with
  | none =>
    rw [hn] at ht
    cases hn' : g'.node? t with
    | none => rfl
    | some n' => rw [hn'] at ht; cases ht
  | some n =>
    obtain ⟨n', hn', hgrow⟩ := h.node? hn
    rw [hn']
    cases hgrow <;> rfl

/-- A node with bounds is that of a variable. -/
lemma isVar_of_node? {g : TypeGraph} {t : TypeId} {upper lower : List TypeId}
    (h : g.node? t = some (.var upper lower)) : IsVar g.bare? t := by
  rw [IsVar, bare?, h]
  rfl

/-- A variable is what has a node with bounds. -/
lemma isVar_iff {g : TypeGraph} {t : TypeId} :
    IsVar g.bare? t ↔ ∃ upper lower, g.node? t = some (.var upper lower) := by
  refine ⟨fun h => ?_, fun h => isVar_of_node? h.choose_spec.choose_spec⟩
  obtain ⟨n, hn, hbare⟩ := Option.map_eq_some_iff.1 h
  cases n with
  | var upper lower => exact ⟨upper, lower, hn⟩
  | labeled | cls | bottom => cases hbare

/-- What is concrete is no variable. -/
lemma not_isVar_of_isConcrete {f : TypeId → Option TypeNode} {t : TypeId}
    (h : IsConcrete f t) : ¬IsVar f t := by
  rintro hv
  obtain ⟨n, hn, hk⟩ := h
  rw [hv] at hn
  cases hn
  rcases hk with hk | hk <;> cases hk

/-! ### One expansion -/

/-- What an expansion puts on the list: what the pair asks for, and what a
variable passes on. -/
lemma mem_expand {g : TypeGraph} {left right : TypeId} (hleft : left < g.size)
    (hright : right < g.size) {goal : Goal} :
    goal ∈ (g.expand left right).2 ↔ goal ∈ asked g.bare? left right ∨
      (IsVar g.bare? left ∧ ∃ t ∈ g.lower left, goal = .below t right) ∨
      (IsConcrete g.bare? left ∧ IsVar g.bare? right ∧
        ∃ t ∈ g.upper right, goal = .below left t) := by
  obtain ⟨nl, hl⟩ : ∃ n, g.node? left = some n := ⟨_, Array.getElem?_eq_getElem hleft⟩
  obtain ⟨nr, hr⟩ : ∃ n, g.node? right = some n := ⟨_, Array.getElem?_eq_getElem hright⟩
  have hbl : g.bare? left = some nl.bare := by rw [bare?, hl]; rfl
  have hbr : g.bare? right = some nr.bare := by rw [bare?, hr]; rfl
  have hlower := @lower_eq g left
  have hupper := @upper_eq g right
  unfold expand asked IsVar IsConcrete
  simp only [node?_establish, hl, hr, hbl, hbr]
  cases nl with
  | bottom => cases nr <;> simp [TypeNode.bare, TypeNode.kind]
  | var upper lower =>
    rw [hlower hl]
    cases nr <;> simp [TypeNode.bare, TypeNode.kind, eq_comm]
  | cls offered =>
    cases nr with
    | var upper lower =>
      rw [hupper hr]
      simp [TypeNode.bare, TypeNode.kind, eq_comm]
    | labeled | cls | bottom => simp [TypeNode.bare, TypeNode.kind]
  | labeled name inner =>
    cases nr with
    | var upper lower =>
      rw [hupper hr]
      simp [TypeNode.bare, TypeNode.kind, eq_comm]
    | labeled | bottom => simp [TypeNode.bare, TypeNode.kind]
    | cls wanted =>
      have hbi : g.bare? inner = (g.node? inner).map TypeNode.bare := rfl
      cases hi : g.node? inner with
      | none =>
        rw [hi] at hbi
        simp [TypeNode.bare, TypeNode.kind, hi, hbi]
      | some n =>
        rw [hi] at hbi
        cases n <;> simp [TypeNode.bare, TypeNode.kind, hi, hbi]

/-- The graph after an expansion, which adds at most one bound. -/
lemma expand_graph {g : TypeGraph} {left right : TypeId} (hleft : left < g.size)
    (hright : right < g.size) :
    (IsVar g.bare? left ∧
      (g.expand left right).1 = (g.establish left right).addUpper left right) ∨
    (IsConcrete g.bare? left ∧ IsVar g.bare? right ∧
      (g.expand left right).1 = (g.establish left right).addLower right left) ∨
    (¬IsVar g.bare? left ∧ ¬(IsConcrete g.bare? left ∧ IsVar g.bare? right) ∧
      (g.expand left right).1 = g.establish left right) := by
  obtain ⟨nl, hl⟩ : ∃ n, g.node? left = some n := ⟨_, Array.getElem?_eq_getElem hleft⟩
  obtain ⟨nr, hr⟩ : ∃ n, g.node? right = some n := ⟨_, Array.getElem?_eq_getElem hright⟩
  have hbl : g.bare? left = some nl.bare := by rw [bare?, hl]; rfl
  have hbr : g.bare? right = some nr.bare := by rw [bare?, hr]; rfl
  unfold expand IsVar IsConcrete
  simp only [node?_establish, hl, hr, hbl, hbr]
  cases nl with
  | bottom | var => cases nr <;> simp [TypeNode.bare, TypeNode.kind]
  | cls offered => cases nr <;> simp [TypeNode.bare, TypeNode.kind]
  | labeled name inner =>
    cases nr with
    | var | labeled | bottom => simp [TypeNode.bare, TypeNode.kind]
    | cls wanted =>
      cases hi : g.node? inner with
      | none => simp [TypeNode.bare, TypeNode.kind, hi]
      | some n => cases n <;> simp [TypeNode.bare, TypeNode.kind, hi]

/-- An upper bound that is added is the only new one, and only a variable gets it. -/
lemma mem_upper_addUpper_iff {g : TypeGraph} {t b s u : TypeId} :
    u ∈ (g.addUpper t b).upper s ↔ u ∈ g.upper s ∨ IsVar g.bare? t ∧ s = t ∧ u = b := by
  rw [TypeGraph.upper, TypeGraph.upper, node?_addUpper, isVar_iff]
  by_cases hts : t = s
  · subst hts
    rw [if_pos rfl]
    cases g.node? t with
    | none => simp
    | some n => cases n <;> simp [mem_addBound, or_comm]
  · rw [if_neg hts]
    simp [Ne.symm hts]

/-- A lower bound that is added is the only new one, and only a variable gets it. -/
lemma mem_lower_addLower_iff {g : TypeGraph} {t b s u : TypeId} :
    u ∈ (g.addLower t b).lower s ↔ u ∈ g.lower s ∨ IsVar g.bare? t ∧ s = t ∧ u = b := by
  rw [TypeGraph.lower, TypeGraph.lower, node?_addLower, isVar_iff]
  by_cases hts : t = s
  · subst hts
    rw [if_pos rfl]
    cases g.node? t with
    | none => simp
    | some n => cases n <;> simp [mem_addBound, or_comm]
  · rw [if_neg hts]
    simp [Ne.symm hts]

/-- The bounds above a variable after an expansion. -/
lemma mem_upper_expand {g : TypeGraph} {left right : TypeId} (hleft : left < g.size)
    (hright : right < g.size) {t u : TypeId} :
    u ∈ (g.expand left right).1.upper t ↔
      u ∈ g.upper t ∨ IsVar g.bare? t ∧ (t, u) = (left, right) := by
  rcases expand_graph hleft hright with ⟨hv, he⟩ | ⟨hc, -, he⟩ | ⟨hv, -, he⟩ <;> rw [he]
  · rw [mem_upper_addUpper_iff]
    refine or_congr Iff.rfl ⟨?_, ?_⟩
    · rintro ⟨-, rfl, rfl⟩
      exact ⟨hv, rfl⟩
    · rintro ⟨hv, h⟩
      cases h
      exact ⟨hv, rfl, rfl⟩
  · rw [upper_addLower]
    refine ⟨.inl, fun h => h.elim id ?_⟩
    rintro ⟨hv, h⟩
    cases h
    exact absurd hv (not_isVar_of_isConcrete hc)
  · refine ⟨.inl, fun h => h.elim id ?_⟩
    rintro ⟨hv', h⟩
    cases h
    exact absurd hv' hv

/-- The bounds below a variable after an expansion. -/
lemma mem_lower_expand {g : TypeGraph} {left right : TypeId} (hleft : left < g.size)
    (hright : right < g.size) {t u : TypeId} :
    u ∈ (g.expand left right).1.lower t ↔
      u ∈ g.lower t ∨ IsVar g.bare? t ∧ IsConcrete g.bare? u ∧ (u, t) = (left, right) := by
  rcases expand_graph hleft hright with ⟨hv, he⟩ | ⟨hc, hv, he⟩ | ⟨-, hno, he⟩ <;> rw [he]
  · rw [lower_addUpper]
    refine ⟨.inl, fun h => h.elim id ?_⟩
    rintro ⟨-, hc, h⟩
    cases h
    exact absurd hv (not_isVar_of_isConcrete hc)
  · rw [mem_lower_addLower_iff]
    refine or_congr Iff.rfl ⟨?_, ?_⟩
    · rintro ⟨-, rfl, rfl⟩
      exact ⟨hv, hc, rfl⟩
    · rintro ⟨hv, -, h⟩
      cases h
      exact ⟨hv, rfl, rfl⟩
  · refine ⟨.inl, fun h => h.elim id ?_⟩
    rintro ⟨hv, hc, h⟩
    cases h
    exact absurd ⟨hc, hv⟩ hno

/-! ### The invariant of the solver -/

/-- The bounds of a variable are the established pairs it stands in. A lower
bound is a label or a class, since what is below another variable is passed on
and the least type asks for nothing. -/
structure Bounded (g : TypeGraph) : Prop where
  upper : ∀ t u, u ∈ g.upper t ↔ IsVar g.bare? t ∧ (t, u) ∈ g.established
  lower : ∀ t u, u ∈ g.lower t ↔
    IsVar g.bare? t ∧ IsConcrete g.bare? u ∧ (u, t) ∈ g.established
  issued : ∀ p ∈ g.established, p.1 < g.size ∧ p.2 < g.size

/-- What the established pairs lead to is established or on the list. -/
structure Saturated (g : TypeGraph) (goals : List Goal) : Prop where
  bounded : g.Bounded
  asked : ∀ p ∈ g.established, ∀ a b, .below a b ∈ asked g.bare? p.1 p.2 → g.BelowOr goals a b
  passed : ∀ a v b, (a, v) ∈ g.established → (v, b) ∈ g.established → IsVar g.bare? v →
    IsConcrete g.bare? a → g.BelowOr goals a b

/-- An expansion notes the bounds that belong to its pair. -/
lemma Bounded.expand {g : TypeGraph} (hb : g.Bounded) {left right : TypeId}
    (hleft : left < g.size) (hright : right < g.size) : (g.expand left right).1.Bounded := by
  have hbare : (g.expand left right).1.bare? = g.bare? := (expands hleft hright).grows.bare?_eq
  constructor
  case upper =>
    intro t u
    rw [mem_upper_expand hleft hright, hb.upper, hbare, established_expand, List.mem_cons]
    grind
  case lower =>
    intro t u
    rw [mem_lower_expand hleft hright, hb.lower, hbare, established_expand, List.mem_cons]
    grind
  case issued =>
    rw [established_expand, size_expand]
    exact List.forall_mem_cons.2 ⟨⟨hleft, hright⟩, hb.issued⟩

/-- A goal that is established already may be taken off the list. -/
lemma Saturated.drop {g : TypeGraph} {left right : TypeId} {rest : List Goal}
    (hs : g.Saturated (.below left right :: rest)) (h : g.Below left right) :
    g.Saturated rest := by
  have hdrop : ∀ a b, g.BelowOr (.below left right :: rest) a b → g.BelowOr rest a b := by
    rintro a b (hab | hab)
    · exact .inl hab
    · rcases List.mem_cons.1 hab with heq | hab
      · cases heq
        exact .inl h
      · exact .inr hab
  exact ⟨hs.bounded, fun p hp a b hab => hdrop a b (hs.asked p hp a b hab),
    fun a v b hav hvb hv ha => hdrop a b (hs.passed a v b hav hvb hv ha)⟩

/-- More goals on the list do no harm. -/
lemma Saturated.mono {g : TypeGraph} {goals goals' : List Goal} (hs : g.Saturated goals)
    (h : ∀ a b, .below a b ∈ goals → .below a b ∈ goals') : g.Saturated goals' := by
  have hmono : ∀ a b, g.BelowOr goals a b → g.BelowOr goals' a b := fun a b => .imp_right (h a b)
  exact ⟨hs.bounded, fun p hp a b hab => hmono a b (hs.asked p hp a b hab),
    fun a v b hav hvb hv ha => hmono a b (hs.passed a v b hav hvb hv ha)⟩

/-- An expansion keeps the invariant. -/
lemma Saturated.expand {g : TypeGraph} {left right : TypeId} {rest : List Goal}
    (hs : g.Saturated (.below left right :: rest)) (h : g.IsOpen left right) :
    (g.expand left right).1.Saturated ((g.expand left right).2 ++ rest) := by
  obtain ⟨hne, hleft, hright, -⟩ := h
  have hbare : (g.expand left right).1.bare? = g.bare? := (expands hleft hright).grows.bare?_eq
  have hestablished := established_expand g left right
  -- what the expansion asks for is on the list now
  have hnew : ∀ a b, .below a b ∈ (g.expand left right).2 →
      (g.expand left right).1.BelowOr ((g.expand left right).2 ++ rest) a b :=
    fun a b hab => .inr (List.mem_append_left _ hab)
  -- what was established or on the list still is, the pair itself being established
  have hold : ∀ a b, g.BelowOr (.below left right :: rest) a b →
      (g.expand left right).1.BelowOr ((g.expand left right).2 ++ rest) a b := by
    rintro a b ((rfl | hab) | hab)
    · exact .inl (.inl rfl)
    · exact .inl (.inr (hestablished ▸ List.mem_cons_of_mem _ hab))
    · rcases List.mem_cons.1 hab with heq | hab
      · cases heq
        exact .inl (.inr (hestablished ▸ List.mem_cons_self ..))
      · exact .inr (List.mem_append_right _ hab)
  constructor
  case bounded => exact hs.bounded.expand hleft hright
  case asked =>
    rw [hestablished, hbare]
    refine List.forall_mem_cons.2 ⟨fun a b hab => ?_, fun p hp a b hab => ?_⟩
    · exact hnew a b ((mem_expand hleft hright).2 (.inl hab))
    · exact hold a b (hs.asked p hp a b hab)
  case passed =>
    rw [hestablished, hbare]
    intro a v b hav hvb hv ha
    -- the new pair may stand on either side of a variable, and meets its bounds there
    rcases List.mem_cons.1 hav with heq | hav <;> rcases List.mem_cons.1 hvb with heq' | hvb
    · cases heq
      cases heq'
      exact absurd rfl hne
    · cases heq
      refine hnew left b ((mem_expand hleft hright).2 (.inr (.inr ⟨ha, hv, b, ?_, rfl⟩)))
      exact (hs.bounded.upper right b).2 ⟨hv, hvb⟩
    · cases heq'
      refine hnew a right ((mem_expand hleft hright).2 (.inr (.inl ⟨hv, a, ?_, rfl⟩)))
      exact (hs.bounded.lower left a).2 ⟨hv, ha, hav⟩
    · exact hold a b (hs.passed a v b hav hvb hv ha)

/-- Work on a list of goals leaves nothing open. -/
lemma Saturated.solve {g : TypeGraph} {goals : List Goal} (hs : g.Saturated goals)
    (hissued : g.Issued) (hgoals : g.IssuedGoals goals) : (g.solve goals).1.Saturated [] := by
  induction g, goals using solve_induction with
  | nil g => rwa [solve_nil]
  | conflict g c rest ih =>
    rw [solve_conflict]
    refine ih (hs.mono fun a b hab => ?_) hissued
      fun goal h => hgoals goal (List.mem_cons_of_mem _ h)
    exact (List.mem_cons.1 hab).resolve_left fun h => by cases h
  | opened g left right rest h ih =>
    have hnext := (expands h.2.1 h.2.2.1).issued hissued h.2.1 h.2.2.1
    rw [solve_open h]
    refine ih (hs.expand h) hnext.1 fun goal hgoal t ht => ?_
    rw [size_expand]
    rcases List.mem_append.1 hgoal with hgoal | hgoal
    · exact hnext.2 goal hgoal t ht
    · exact hgoals goal (List.mem_cons_of_mem _ hgoal) t ht
  | closed g left right rest h ih =>
    rw [solve_closed h]
    refine ih (hs.drop (below_of_not_isOpen h ?_ ?_)) hissued fun goal hgoal =>
      hgoals goal (List.mem_cons_of_mem _ hgoal)
    · exact hgoals _ (List.mem_cons_self ..) left (List.mem_cons_self ..)
    · exact hgoals _ (List.mem_cons_self ..) right (List.mem_cons_of_mem _ (List.mem_cons_self ..))

/-! ### The least closed set -/

/-- The pairs that given ones lead to, where `f` gives the nodes: what a pair
asks for, and what a variable passes on from below to above. -/
inductive Entailed (f : TypeId → Option TypeNode) (given : TypeId → TypeId → Prop) :
    TypeId → TypeId → Prop
  | given {a b : TypeId} (h : given a b) (hne : a ≠ b) : Entailed f given a b
  | asked {a b c d : TypeId} (h : Entailed f given a b) (hasked : .below c d ∈ asked f a b)
      (hne : c ≠ d) : Entailed f given c d
  | passed {a v b : TypeId} (hav : Entailed f given a v) (hvb : Entailed f given v b)
      (hv : IsVar f v) (ha : IsConcrete f a) (hne : a ≠ b) : Entailed f given a b

/-- What is asked for and what is established already. -/
def Given (g : TypeGraph) (goals : List Goal) (a b : TypeId) : Prop :=
  (a, b) ∈ g.established ∨ .below a b ∈ goals

/-- What is entailed by entailed pairs is entailed. -/
lemma Entailed.trans {f : TypeId → Option TypeNode} {given given' : TypeId → TypeId → Prop}
    (hgiven : ∀ a b, given a b → a ≠ b → Entailed f given' a b) {a b : TypeId}
    (h : Entailed f given a b) : Entailed f given' a b := by
  induction h with
  | given h hne => exact hgiven _ _ h hne
  | asked _ hasked hne ih => exact .asked ih hasked hne
  | passed _ _ hv ha hne ih ih' => exact .passed ih ih' hv ha hne

/-- What the work on a list of goals establishes is entailed by what was given. -/
lemma entailed_of_mem_solve {given : TypeId → TypeId → Prop} {g : TypeGraph} {goals : List Goal}
    (hb : g.Bounded)
    (hestablished : ∀ p ∈ g.established, Entailed g.bare? given p.1 p.2)
    (hgoals : ∀ a b, .below a b ∈ goals → a = b ∨ Entailed g.bare? given a b) :
    ∀ p ∈ (g.solve goals).1.established, Entailed g.bare? given p.1 p.2 := by
  induction g, goals using solve_induction with
  | nil g => rwa [solve_nil]
  | conflict g c rest ih =>
    rw [solve_conflict]
    exact ih hb hestablished fun a b hab => hgoals a b (List.mem_cons_of_mem _ hab)
  | opened g left right rest h ih =>
    have hbare := (expands h.2.1 h.2.2.1).grows.bare?_eq
    have hpair : Entailed g.bare? given left right :=
      (hgoals left right (List.mem_cons_self ..)).resolve_left h.1
    rw [solve_open h, ← hbare]
    refine ih (hb.expand h.2.1 h.2.2.1) ?_ fun a b hab => ?_
    · rw [established_expand, hbare]
      exact List.forall_mem_cons.2 ⟨hpair, hestablished⟩
    · rw [hbare]
      by_cases hne : a = b
      · exact .inl hne
      refine .inr ?_
      -- the goals of the expansion come from the pair itself, or from a bound of a variable
      rcases List.mem_append.1 hab with hab | hab
      · rcases (mem_expand h.2.1 h.2.2.1).1 hab with
          hab | ⟨hv, t, ht, heq⟩ | ⟨ha, hv, t, ht, heq⟩
        · exact .asked hpair hab hne
        · cases heq
          obtain ⟨-, ha, hmem⟩ := (hb.lower _ _).1 ht
          exact .passed (hestablished _ hmem) hpair hv ha hne
        · cases heq
          obtain ⟨-, hmem⟩ := (hb.upper _ _).1 ht
          exact .passed hpair (hestablished _ hmem) hv ha hne
      · exact (hgoals a b (List.mem_cons_of_mem _ hab)).resolve_left hne
  | closed g left right rest h ih =>
    rw [solve_closed h]
    exact ih hb hestablished fun a b hab => hgoals a b (List.mem_cons_of_mem _ hab)

/-- All goals are put in order by the work on them. -/
lemma below_of_mem_goals {g : TypeGraph} {goals : List Goal} (hgoals : g.IssuedGoals goals)
    (hissued : g.Issued) {a b : TypeId} (hab : .below a b ∈ goals) :
    (g.solve goals).1.Below a b := by
  induction g, goals using solve_induction with
  | nil g => cases hab
  | conflict g c rest ih =>
    rw [solve_conflict]
    refine ih (fun goal h => hgoals goal (List.mem_cons_of_mem _ h)) hissued ?_
    exact (List.mem_cons.1 hab).resolve_left fun h => by cases h
  | opened g left right rest h ih =>
    rw [solve_open h]
    rcases List.mem_cons.1 hab with heq | hab
    · cases heq
      exact .inr (established_solve _ _ (by simp))
    · have hnext := (expands h.2.1 h.2.2.1).issued hissued h.2.1 h.2.2.1
      refine ih (fun goal hgoal t ht => ?_) hnext.1 (List.mem_append_right _ hab)
      rw [size_expand]
      rcases List.mem_append.1 hgoal with hgoal | hgoal
      · exact hnext.2 goal hgoal t ht
      · exact hgoals goal (List.mem_cons_of_mem _ hgoal) t ht
  | closed g left right rest h ih =>
    rw [solve_closed h]
    have hrest : g.IssuedGoals rest := fun goal hgoal => hgoals goal (List.mem_cons_of_mem _ hgoal)
    rcases List.mem_cons.1 hab with heq | hab
    · cases heq
      have hbelow : g.Below a b := by
        refine below_of_not_isOpen h ?_ ?_
        · exact hgoals _ (List.mem_cons_self ..) a (List.mem_cons_self ..)
        · exact hgoals _ (List.mem_cons_self ..) b (List.mem_cons_of_mem _ (List.mem_cons_self ..))
      exact hbelow.imp_right fun h => established_solve g rest h
    · exact ih hrest hissued hab

/-- What is given is established in the end, and with it all that it entails. -/
lemma mem_of_entailed {g : TypeGraph} (hs : g.Saturated []) {given : TypeId → TypeId → Prop}
    (hgiven : ∀ a b, given a b → g.Below a b) {a b : TypeId} (h : Entailed g.bare? given a b) :
    (a, b) ∈ g.established := by
  have hmem : ∀ {a b}, g.BelowOr [] a b → a ≠ b → (a, b) ∈ g.established := by
    rintro a b ((heq | hab) | hab) hne
    · exact absurd heq hne
    · exact hab
    · cases hab
  induction h with
  | given h hne => exact hmem (.inl (hgiven _ _ h)) hne
  | asked _ hasked hne ih => exact hmem (hs.asked _ ih _ _ hasked) hne
  | passed _ _ hv ha hne ih ih' => exact hmem (hs.passed _ _ _ ih ih' hv ha) hne

/-- The pairs that the work on a list of goals establishes are those entailed by
the goals and what was established before. -/
theorem mem_established_solve {g : TypeGraph} {goals : List Goal} (hs : g.Saturated [])
    (hissued : g.Issued) (hgoals : g.IssuedGoals goals)
    (hirreflexive : ∀ p ∈ g.established, p.1 ≠ p.2) {a b : TypeId} :
    (a, b) ∈ (g.solve goals).1.established ↔ Entailed g.bare? (g.Given goals) a b := by
  have hbare := (grows_solve g goals).bare?_eq
  constructor
  · intro h
    refine entailed_of_mem_solve hs.bounded (fun p hp => ?_) (fun c d hcd => ?_) _ h
    · exact .given (.inl hp) (hirreflexive p hp)
    · by_cases hne : c = d
      · exact .inl hne
      · exact .inr (.given (.inr hcd) hne)
  · intro h
    rw [← hbare] at h
    refine mem_of_entailed ((hs.mono fun c d hcd => by cases hcd).solve hissued hgoals) ?_ h
    rintro c d (hcd | hcd)
    · exact .inr (established_solve g goals hcd)
    · exact below_of_mem_goals hgoals hissued hcd

/-! ### Conflicts -/

/-- A pair of types that cannot be put in order by itself. -/
def Clashes (f : TypeId → Option TypeNode) (p : TypeId × TypeId) : Prop :=
  ∃ c, .conflict c ∈ asked f p.1 p.2

/-- A step reports a conflict exactly where the two nodes clash. -/
lemma conflict_mem_expand {g : TypeGraph} {left right : TypeId} (hleft : left < g.size)
    (hright : right < g.size) :
    (∃ c, .conflict c ∈ (g.expand left right).2) ↔ Clashes g.bare? (left, right) := by
  refine exists_congr fun c => (mem_expand hleft hright).trans ⟨?_, .inl⟩
  rintro (h | ⟨-, t, -, h⟩ | ⟨-, -, t, -, h⟩)
  · exact h
  · cases h
  · cases h

/-- The work on a list of goals meets a conflict if one is on the list or a pair
is established that cannot be put in order. -/
lemma conflicts_solve {g : TypeGraph} {goals : List Goal} :
    (g.solve goals).2 ≠ [] ↔ (∃ c, .conflict c ∈ goals) ∨
      ∃ p ∈ (g.solve goals).1.established, p ∉ g.established ∧ Clashes g.bare? p := by
  induction g, goals using solve_induction with
  | nil g =>
    rw [solve_nil]
    simp only [ne_eq, not_true_eq_false, List.not_mem_nil, exists_false, false_or, false_iff]
    rintro ⟨p, hp, hnot, -⟩
    exact hnot hp
  | conflict g c rest ih =>
    rw [solve_conflict]
    simp only [ne_eq, reduceCtorEq, not_false_eq_true, true_iff]
    exact .inl ⟨c, List.mem_cons_self ..⟩
  | opened g left right rest h ih =>
    rw [solve_open h, ih, (expands h.2.1 h.2.2.1).grows.bare?_eq, established_expand]
    -- the pair that is opened stays established, so a clash of it is among those at the end
    have hmem : (left, right) ∈
        ((g.expand left right).1.solve ((g.expand left right).2 ++ rest)).1.established :=
      established_solve _ _ (by simp)
    have hclash := conflict_mem_expand h.2.1 h.2.2.1
    constructor
    · rintro (⟨c, hc⟩ | ⟨p, hp, hnot, hpc⟩)
      · rcases List.mem_append.1 hc with hc | hc
        · exact .inr ⟨_, hmem, h.2.2.2, hclash.1 ⟨c, hc⟩⟩
        · exact .inl ⟨c, List.mem_cons_of_mem _ hc⟩
      · exact .inr ⟨p, hp, fun hmem => hnot (List.mem_cons_of_mem _ hmem), hpc⟩
    · rintro (⟨c, hc⟩ | ⟨p, hp, hnot, hpc⟩)
      · have hc : .conflict c ∈ rest := (List.mem_cons.1 hc).resolve_left fun h => by cases h
        exact .inl ⟨c, List.mem_append_right _ hc⟩
      · by_cases hpair : p = (left, right)
        · obtain ⟨c, hc⟩ := hclash.2 (hpair ▸ hpc)
          exact .inl ⟨c, List.mem_append_left _ hc⟩
        · refine .inr ⟨p, hp, fun hmem => ?_, hpc⟩
          exact (List.mem_cons.1 hmem).elim hpair hnot
  | closed g left right rest h ih =>
    rw [solve_closed h, ih]
    refine or_congr (exists_congr fun c => ?_) Iff.rfl
    rw [List.mem_cons]
    exact ⟨.inr, fun h => h.resolve_left fun h => by cases h⟩

/-! ### Graphs that have been built -/

/-- A node that is pushed changes none of those before it. -/
lemma bare?_push {g : TypeGraph} (n : TypeNode) {t : TypeId} (ht : t < g.size) :
    (g.push n).2.bare? t = g.bare? t := by
  rw [bare?, node?_push, if_neg (Nat.ne_of_lt ht), bare?]

/-- What a pair of types asks for depends on its two nodes, and on that within a
label. -/
lemma asked_congr {f f' : TypeId → Option TypeNode} {left right : TypeId}
    (hleft : f left = f' left) (hright : f right = f' right)
    (hinner : ∀ name inner, f left = some (.labeled name inner) → f inner = f' inner) :
    asked f left right = asked f' left right := by
  unfold asked
  rw [← hleft, ← hright]
  cases hl : f left with
  | none => rfl
  | some nl =>
    cases f right with
    | none => cases nl <;> rfl
    | some nr =>
      cases nl with
      | labeled name inner =>
        have hi := hinner name inner hl
        cases nr <;> simp only [hi]
      | var | cls | bottom => cases nr <;> rfl

/-- What a pair of types asks for is not changed by a type that comes later. -/
lemma asked_push {g : TypeGraph} (hissued : g.Issued) (n : TypeNode) {left right : TypeId}
    (hleft : left < g.size) (hright : right < g.size) :
    asked (g.push n).2.bare? left right = asked g.bare? left right := by
  refine asked_congr (bare?_push n hleft) (bare?_push n hright) fun name inner hinner => ?_
  rw [bare?_push n hleft] at hinner
  obtain ⟨nl, hl, hbare⟩ := Option.map_eq_some_iff.1 hinner
  cases nl with
  | labeled name' inner' =>
    cases hbare
    exact bare?_push n (hissued _ _ hl inner (List.mem_singleton_self _))
  | var | cls | bottom => cases hbare

/-- What holds of a graph that has been built: the bounds are the established
pairs, nothing is open, and no type is established below itself. -/
structure Steady (g : TypeGraph) : Prop where
  saturated : g.Saturated []
  issued : g.Issued
  irreflexive : ∀ p ∈ g.established, p.1 ≠ p.2

/-- What was a variable stays one when a node is pushed, and nothing else becomes one. -/
lemma isVar_push {g : TypeGraph} (n : TypeNode) {t : TypeId} (ht : t < g.size) :
    IsVar (g.push n).2.bare? t ↔ IsVar g.bare? t := by
  rw [IsVar, IsVar, bare?_push n ht]

/-- What was concrete stays so when a node is pushed. -/
lemma isConcrete_push {g : TypeGraph} (n : TypeNode) {t : TypeId} (ht : t < g.size) :
    IsConcrete (g.push n).2.bare? t ↔ IsConcrete g.bare? t := by
  rw [IsConcrete, IsConcrete, bare?_push n ht]

/-- Nothing is above a new type unless its node says so. -/
lemma upper_push {g : TypeGraph} {n : TypeNode} (hvar : ∀ upper lower, n = .var upper lower →
    upper = [] ∧ lower = []) (t : TypeId) :
    (g.push n).2.upper t = if t = g.size then [] else g.upper t := by
  rw [TypeGraph.upper, node?_push]
  split_ifs
  · cases n with
    | var upper lower => exact (hvar upper lower rfl).1
    | labeled | cls | bottom => rfl
  · rfl

/-- Nothing is below a new type unless its node says so. -/
lemma lower_push {g : TypeGraph} {n : TypeNode} (hvar : ∀ upper lower, n = .var upper lower →
    upper = [] ∧ lower = []) (t : TypeId) :
    (g.push n).2.lower t = if t = g.size then [] else g.lower t := by
  rw [TypeGraph.lower, node?_push]
  split_ifs
  · cases n with
    | var upper lower => exact (hvar upper lower rfl).2
    | labeled | cls | bottom => rfl
  · rfl

/-- A new type without bounds changes nothing about the others. -/
lemma Steady.push {g : TypeGraph} (hs : g.Steady) {n : TypeNode}
    (hn : ∀ t ∈ n.types, t < g.size) (hvar : ∀ upper lower, n = .var upper lower →
      upper = [] ∧ lower = []) : (g.push n).2.Steady := by
  have hbounded := hs.saturated.bounded
  have hestablished : (g.push n).2.established = g.established := rfl
  refine ⟨⟨⟨fun t u => ?_, fun t u => ?_, ?_⟩, ?_, ?_⟩, ?_, hs.irreflexive⟩
  · rw [upper_push hvar, hestablished]
    split_ifs with ht
    · refine iff_of_false List.not_mem_nil fun hmem => ?_
      exact absurd (hbounded.issued _ hmem.2).1 (ht ▸ Nat.lt_irrefl _)
    · rw [hbounded.upper]
      exact and_congr_left fun hmem => (isVar_push n (hbounded.issued _ hmem).1).symm
  · rw [lower_push hvar, hestablished]
    split_ifs with ht
    · refine iff_of_false List.not_mem_nil fun hmem => ?_
      exact absurd (hbounded.issued _ hmem.2.2).2 (ht ▸ Nat.lt_irrefl _)
    · rw [hbounded.lower, ← and_assoc, ← and_assoc]
      refine and_congr_left fun hmem => ?_
      rw [isVar_push n (hbounded.issued _ hmem).2, isConcrete_push n (hbounded.issued _ hmem).1]
  · intro p hp
    rw [size_push]
    exact (hbounded.issued p hp).imp Nat.lt_succ_of_lt Nat.lt_succ_of_lt
  · intro p hp a b hab
    obtain ⟨hleft, hright⟩ := hbounded.issued p hp
    rw [asked_push hs.issued n hleft hright] at hab
    exact hs.saturated.asked p hp a b hab
  · intro a v b hav hvb hv ha
    obtain ⟨hlta, hltv⟩ := hbounded.issued _ hav
    exact hs.saturated.passed a v b hav hvb ((isVar_push n hltv).1 hv)
      ((isConcrete_push n hlta).1 ha)
  · exact issued_push hs.issued fun t ht => Nat.lt_succ_of_lt (hn t ht)

/-- The goal of putting two types in order is about these types. -/
lemma issuedGoals_pair {g : TypeGraph} {left right : TypeId} (hleft : left < g.size)
    (hright : right < g.size) : g.IssuedGoals [.below left right] := by
  intro goal hgoal t ht
  obtain rfl := List.mem_singleton.1 hgoal
  simp only [Goal.types, List.mem_cons, List.not_mem_nil, or_false] at ht
  rcases ht with rfl | rfl
  · exact hleft
  · exact hright

/-- Putting two types in order leaves a graph steady. -/
lemma Steady.constrain {g : TypeGraph} (hs : g.Steady) {left right : TypeId}
    (hleft : left < g.size) (hright : right < g.size) : (g.constrain left right).1.Steady := by
  have hgoals := issuedGoals_pair hleft hright
  refine ⟨(hs.saturated.mono fun a b hab => by cases hab).solve hs.issued hgoals,
    issued_solve hs.issued hgoals, fun p hp => ?_⟩
  have hentailed := (mem_established_solve hs.saturated hs.issued hgoals hs.irreflexive).1 hp
  cases hentailed <;> assumption

/-- Methods of a class have no part in upper bounds. -/
lemma upper_addMethod (g : TypeGraph) (t : TypeId) (m : Selector) (s : Signature) (u : TypeId) :
    (g.addMethod t m s).upper u = g.upper u := by
  rw [TypeGraph.upper, TypeGraph.upper, node?_addMethod]
  split_ifs
  · cases g.node? u with
    | none => rfl
    | some n => cases n <;> rfl
  · rfl

/-- Methods of a class have no part in lower bounds. -/
lemma lower_addMethod (g : TypeGraph) (t : TypeId) (m : Selector) (s : Signature) (u : TypeId) :
    (g.addMethod t m s).lower u = g.lower u := by
  rw [TypeGraph.lower, TypeGraph.lower, node?_addMethod]
  split_ifs
  · cases g.node? u with
    | none => rfl
    | some n => cases n <;> rfl
  · rfl

/-- Every graph that has been built is steady, and nothing is established in it
before the first two types are put in order. -/
theorem Built.steady {g : TypeGraph} {started : Bool} (h : g.Built started) :
    g.Steady ∧ (started = false → g.established = []) := by
  induction h with
  | empty =>
    refine ⟨⟨⟨⟨?_, ?_, ?_⟩, ?_, ?_⟩, ?_, ?_⟩, fun _ => rfl⟩ <;>
      simp [TypeGraph.empty, TypeGraph.upper, TypeGraph.lower, node?, Issued]
  | fresh h ih =>
    refine ⟨ih.1.push (fun t ht => absurd ht List.not_mem_nil) fun _ _ h => ?_, ih.2⟩
    cases h
    exact ⟨rfl, rfl⟩
  | labeled h name hinner ih =>
    refine ⟨ih.1.push (fun t ht => ?_) (fun _ _ h => by cases h), ih.2⟩
    rwa [List.mem_singleton.1 ht]
  | cls h hissued ih => exact ⟨ih.1.push hissued (fun _ _ h => by cases h), ih.2⟩
  | bottom h ih =>
    exact ⟨ih.1.push (fun t ht => absurd ht List.not_mem_nil) (fun _ _ h => by cases h), ih.2⟩
  | @addMethod g h t method signature hissued ih =>
    obtain ⟨hs, hnil⟩ := ih
    have hnone : (g.addMethod t method signature).established = [] := hnil rfl
    refine ⟨⟨⟨⟨fun u v => ?_, fun u v => ?_, ?_⟩, ?_, ?_⟩,
      issued_addMethod hs.issued t hissued, ?_⟩, fun _ => hnone⟩
    · rw [upper_addMethod, hs.saturated.bounded.upper, hnil rfl, hnone]
      simp
    · rw [lower_addMethod, hs.saturated.bounded.lower, hnil rfl, hnone]
      simp
    all_goals simp [hnone]
  | constrain h attempt hleft hright ih =>
    exact ⟨ih.1.constrain hleft hright, fun h => by cases h⟩

/-! ### Lists of demands -/

/-- A list of demands establishes what the demands and the pairs established
before entail. It leaves the graph steady and changes no node but for its
bounds. -/
lemma constrainAll_spec {g : TypeGraph} (hs : g.Steady) {ds : List Demand}
    (hissued : ∀ d ∈ ds, d.left < g.size ∧ d.right < g.size) :
    (g.constrainAll ds).1.Steady ∧ (g.constrainAll ds).1.bare? = g.bare? ∧
      g.established ⊆ (g.constrainAll ds).1.established ∧
      ∀ a b, (a, b) ∈ (g.constrainAll ds).1.established ↔
        Entailed g.bare? (fun a b => (a, b) ∈ g.established ∨ (a, b) ∈ ds.map Demand.pair) a b := by
  induction ds generalizing g with
  | nil =>
    refine ⟨hs, rfl, fun _ h => h, fun a b => ⟨fun h => ?_, fun h => ?_⟩⟩
    · exact .given (.inl h) (hs.irreflexive _ h)
    · refine mem_of_entailed hs.saturated (fun c d hcd => ?_) h
      exact .inr (hcd.resolve_right List.not_mem_nil)
  | cons d ds ih =>
    obtain ⟨⟨hleft, hright⟩, hrest⟩ := List.forall_mem_cons.1 hissued
    have hs₁ : (g.constrain d.left d.right).1.Steady := hs.constrain hleft hright
    have hgrows : g.Grows (g.constrain d.left d.right).1 := grows_solve _ _
    have hsub : g.established ⊆ (g.constrain d.left d.right).1.established :=
      established_solve _ _
    have hfirst := fun a b => mem_established_solve hs.saturated hs.issued
      (issuedGoals_pair hleft hright) hs.irreflexive (a := a) (b := b)
    obtain ⟨hs₂, hbare, hsub₂, hmem⟩ := ih hs₁ fun e he => by
      rw [constrain, size_solve]
      exact hrest e he
    rw [hgrows.bare?_eq] at hbare hmem
    refine ⟨hs₂, hbare, List.Subset.trans hsub hsub₂, fun a b => ?_⟩
    -- entailment is transitive, so the first demand can be taken as given for the others
    refine (hmem a b).trans ⟨fun h => h.trans ?_, fun h => h.trans ?_⟩
    · rintro a b (hab | hab) hne
      · refine ((hfirst a b).1 hab).trans ?_
        rintro c d (hcd | hcd) hne
        · exact .given (.inl hcd) hne
        · cases List.mem_singleton.1 hcd
          exact .given (.inr (List.mem_cons_self ..)) hne
      · exact .given (.inr (List.mem_cons_of_mem _ hab)) hne
    · rintro a b (hab | hab) hne
      · exact .given (.inl (hsub hab)) hne
      · rcases List.mem_cons.1 hab with heq | hab
        · cases heq
          refine .given (.inl ((hfirst _ _).2 ?_)) hne
          exact .given (.inr (List.mem_singleton_self _)) hne
        · exact .given (.inr hab) hne

/-- An attempt is sent if a pair is established on the way that cannot be put in
order. -/
lemma sent_constrainAll {g : TypeGraph} (hs : g.Steady) {ds : List Demand}
    (hissued : ∀ d ∈ ds, d.left < g.size ∧ d.right < g.size) :
    (∃ a ∈ (g.constrainAll ds).2, a.sent = true) ↔
      ∃ p ∈ (g.constrainAll ds).1.established, p ∉ g.established ∧ Clashes g.bare? p := by
  induction ds generalizing g with
  | nil =>
    refine iff_of_false ?_ ?_
    · rintro ⟨a, ha, -⟩
      cases ha
    · rintro ⟨p, hp, hnot, -⟩
      exact hnot hp
  | cons d ds ih =>
    obtain ⟨⟨hleft, hright⟩, hrest⟩ := List.forall_mem_cons.1 hissued
    have hs₁ : (g.constrain d.left d.right).1.Steady := hs.constrain hleft hright
    have hgrows : g.Grows (g.constrain d.left d.right).1 := grows_solve _ _
    have hsub : g.established ⊆ (g.constrain d.left d.right).1.established :=
      established_solve _ _
    have hissued₁ : ∀ e ∈ ds, e.left < (g.constrain d.left d.right).1.size ∧
        e.right < (g.constrain d.left d.right).1.size := fun e he => by
      rw [constrain, size_solve]
      exact hrest e he
    have hfirst : ((Attempt.new d.line).constrain g d.left d.right).1.sent = true ↔
        ∃ p ∈ (g.constrain d.left d.right).1.established, p ∉ g.established ∧
          Clashes g.bare? p := by
      have hconflicts : (g.solve [.below d.left d.right]).2 ≠ [] ↔ _ := conflicts_solve
      rw [Attempt.sent_constrain]
      simpa [constrain] using hconflicts
    have hlater := ih hs₁ hissued₁
    have hsub₁ := (constrainAll_spec hs₁ hissued₁).2.2.1
    rw [hgrows.bare?_eq] at hlater
    change (∃ a ∈ _ :: (constrainAll (g.constrain d.left d.right).1 ds).2, _) ↔
      ∃ p ∈ (constrainAll (g.constrain d.left d.right).1 ds).1.established, _
    rw [List.exists_mem_cons_iff, hfirst, hlater]
    constructor
    · rintro (⟨p, hp, hnot, hc⟩ | ⟨p, hp, hnot, hc⟩)
      · exact ⟨p, hsub₁ hp, hnot, hc⟩
      · exact ⟨p, hp, fun h => hnot (hsub h), hc⟩
    · rintro ⟨p, hp, hnot, hc⟩
      -- a pair that clashes is established by the first demand, or else by a later one
      by_cases hold : p ∈ (g.constrain d.left d.right).1.established
      · exact .inl ⟨p, hold, hnot, hc⟩
      · exact .inr ⟨p, hp, hold, hc⟩

/-- The same pairs may be asked for in any order: the same pairs are established
in the end, the same bounds are known of every variable, and there is a conflict
either way or neither way. -/
theorem constrainAll_order_independent {g : TypeGraph} {started : Bool} (h : g.Built started)
    {ds ds' : List Demand} (hperm : (ds.map Demand.pair).Perm (ds'.map Demand.pair))
    (hissued : ∀ d ∈ ds, d.left < g.size ∧ d.right < g.size) :
    (∀ p, p ∈ (g.constrainAll ds).1.established ↔ p ∈ (g.constrainAll ds').1.established) ∧
      (∀ t u, u ∈ (g.constrainAll ds).1.upper t ↔ u ∈ (g.constrainAll ds').1.upper t) ∧
      (∀ t u, u ∈ (g.constrainAll ds).1.lower t ↔ u ∈ (g.constrainAll ds').1.lower t) ∧
      ((∃ a ∈ (g.constrainAll ds).2, a.sent = true) ↔
        ∃ a ∈ (g.constrainAll ds').2, a.sent = true) := by
  have hs := h.steady.1
  have hissued' : ∀ d ∈ ds', d.left < g.size ∧ d.right < g.size := by
    intro d hd
    have hmem : d.pair ∈ ds.map Demand.pair := hperm.mem_iff.2 (List.mem_map_of_mem hd)
    obtain ⟨e, he, hpair⟩ := List.mem_map.1 hmem
    have hleft : e.left = d.left := congrArg Prod.fst hpair
    have hright : e.right = d.right := congrArg Prod.snd hpair
    exact hleft ▸ hright ▸ hissued e he
  obtain ⟨hs₁, hbare₁, -, hmem₁⟩ := constrainAll_spec hs hissued
  obtain ⟨hs₂, hbare₂, -, hmem₂⟩ := constrainAll_spec hs hissued'
  have hestablished : ∀ p, p ∈ (g.constrainAll ds).1.established ↔
      p ∈ (g.constrainAll ds').1.established := by
    rintro ⟨a, b⟩
    rw [hmem₁, hmem₂]
    simp only [hperm.mem_iff]
  refine ⟨hestablished, fun t u => ?_, fun t u => ?_, ?_⟩
  · rw [hs₁.saturated.bounded.upper, hs₂.saturated.bounded.upper, hbare₁, hbare₂, hestablished]
  · rw [hs₁.saturated.bounded.lower, hs₂.saturated.bounded.lower, hbare₁, hbare₂, hestablished]
  · rw [sent_constrainAll hs hissued, sent_constrainAll hs hissued']
    simp only [hestablished]

/-- A class without methods flows into a variable that has to have one. Whichever
demand comes second is the one that is sent. -/
theorem constrainAll_order_independent_missing_method :
    ∃ g : TypeGraph, g.Built false ∧
      (∀ d ∈ [(⟨0, 1, 1⟩ : Demand), ⟨1, 2, 2⟩], d.left < g.size ∧ d.right < g.size) ∧
      (g.constrainAll [⟨0, 1, 1⟩, ⟨1, 2, 2⟩]).2 = [⟨1, false⟩, ⟨2, true⟩] ∧
      (g.constrainAll [⟨1, 2, 2⟩, ⟨0, 1, 1⟩]).2 = [⟨2, false⟩, ⟨1, true⟩] ∧
      ∀ p, p ∈ (g.constrainAll [⟨0, 1, 1⟩, ⟨1, 2, 2⟩]).1.established ↔
        p ∈ (g.constrainAll [⟨1, 2, 2⟩, ⟨0, 1, 1⟩]).1.established := by
  have hempty : Built (empty.push (.cls [])).2 false := Built.empty.cls (by decide)
  have hbuilt : Built ((empty.push (.cls [])).2.fresh.2.push
      (.cls [(.getter "at", ⟨none, 0⟩)])).2 false := hempty.fresh.cls (by decide)
  have hissued : ∀ d ∈ [(⟨0, 1, 1⟩ : Demand), ⟨1, 2, 2⟩], d.left < 3 ∧ d.right < 3 := by
    simp
  have hperm : ([(⟨0, 1, 1⟩ : Demand), ⟨1, 2, 2⟩].map Demand.pair).Perm
      ([(⟨1, 2, 2⟩ : Demand), ⟨0, 1, 1⟩].map Demand.pair) := List.Perm.swap ..
  exact ⟨_, hbuilt, hissued, by cbv, by cbv,
    (constrainAll_order_independent hbuilt hperm hissued).1⟩

end TypeGraph

end Ember
