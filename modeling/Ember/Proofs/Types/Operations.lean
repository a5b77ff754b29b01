/-
The type graphs that come about by the operations on types, with the facts that
every one of them keeps.

* `Shape.IsRegular`: every method of a shape has as many parameters as its
  selector says;
* `TypeGraph.Reached`: the graphs that a sequence of operations leads to, with
  the demands made on the way;
* `TypeGraph.Issued`: every type that a node of a graph refers to has been
  issued by the graph;
* `TypeGraph.Regular`: every class of a graph has a regular shape;
* `Reached.issued`, `Reached.regular`: the two hold of every graph that is
  reached.
-/
import Mathlib
import Ember.Types.Subtyping

namespace Ember

/-! ### Shapes -/

/-- A signature that has as many parameters as a selector says. -/
def Signature.Matches (s : Signature) (method : Selector) : Prop :=
  s.params.map List.length = method.arity

/-- The types that a signature refers to. -/
def Signature.types (s : Signature) : List TypeId := s.params.getD [] ++ [s.result]

/-- Every method has as many parameters as its selector says. -/
def Shape.IsRegular (s : Shape) : Prop := ∀ m ∈ s, m.2.Matches m.1

/-- The types that a shape refers to. -/
def Shape.types (s : Shape) : List TypeId := s.flatMap fun m => m.2.types

/-- What is found in a shape is one of its methods. -/
lemma Shape.find?_mem {s : Shape} {method : Selector} {signature : Signature}
    (h : s.find? method = some signature) : (method, signature) ∈ s := by
  obtain ⟨m, hm, rfl⟩ := Option.map_eq_some_iff.1 h
  have hkey : m.1 = method := by simpa using List.find?_some hm
  rw [← hkey]
  exact List.mem_of_find?_eq_some hm

/-! ### Graphs -/

/-- The kinds of type. -/
inductive TypeKind where
  | var
  | labeled
  | cls
  | bottom
deriving DecidableEq

/-- The kind of a node. -/
def TypeNode.kind : TypeNode → TypeKind
  | .var _ _ => .var
  | .labeled _ _ => .labeled
  | .cls _ => .cls
  | .bottom => .bottom

/-- The types that a node refers to. -/
def TypeNode.types : TypeNode → List TypeId
  | .var upper lower => upper ++ lower
  | .labeled _ inner => [inner]
  | .cls shape => shape.types
  | .bottom => []

namespace TypeGraph

/-- The kind of a type. -/
def kind? (g : TypeGraph) (t : TypeId) : Option TypeKind := (g.node? t).map TypeNode.kind

/-- Every type that a node refers to has been issued. -/
def Issued (g : TypeGraph) : Prop :=
  ∀ t n, g.node? t = some n → ∀ u ∈ n.types, u < g.size

/-- Every class has a regular shape. -/
def Regular (g : TypeGraph) : Prop :=
  ∀ t shape, g.node? t = some (.cls shape) → shape.IsRegular

/-- A node of a graph has a number below its size. -/
lemma node?_lt {g : TypeGraph} {t : TypeId} {n : TypeNode} (h : g.node? t = some n) :
    t < g.size := by
  by_contra hge
  rw [node?, Array.getElem?_eq_none (by simpa [size] using hge)] at h
  cases h

/-- A new node makes a graph larger by one. -/
@[simp]
lemma size_push (g : TypeGraph) (n : TypeNode) : (g.push n).2.size = g.size + 1 := by
  simp [push, size]

/-- A method that is added to a class makes a graph no larger. -/
@[simp]
lemma size_addMethod (g : TypeGraph) (t : TypeId) (m : Selector) (s : Signature) :
    (g.addMethod t m s).size = g.size := by
  simp [addMethod, size]

/-- The nodes of a graph with a new one. -/
lemma node?_push (g : TypeGraph) (n : TypeNode) (t : TypeId) :
    (g.push n).2.node? t = if t = g.size then some n else g.node? t := by
  change (g.nodes.push n)[t]? = _
  rw [Array.getElem?_push]
  rfl

/-- The nodes after a change of one of them. -/
lemma node?_modify (g : TypeGraph) (t u : TypeId) (f : TypeNode → TypeNode) :
    ({ g with nodes := g.nodes.modify t f } : TypeGraph).node? u =
      if t = u then (g.node? u).map f else g.node? u := by
  change (g.nodes.modify t f)[u]? = _
  rw [Array.getElem?_modify]
  rfl

/-- The nodes of a graph in which a class gets a method. -/
lemma node?_addMethod (g : TypeGraph) (t u : TypeId) (m : Selector) (s : Signature) :
    (g.addMethod t m s).node? u = if t = u then (g.node? u).map (fun
      | .cls shape => .cls (shape.insert m s)
      | n => n) else g.node? u :=
  node?_modify g t u _

/-- The nodes of a graph in which a variable gets an upper bound. -/
lemma node?_addUpper (g : TypeGraph) (t u b : TypeId) :
    (g.addUpper t b).node? u = if t = u then (g.node? u).map (fun
      | .var upper lower => .var (addBound b upper) lower
      | n => n) else g.node? u :=
  node?_modify g t u _

/-- The nodes of a graph in which a variable gets a lower bound. -/
lemma node?_addLower (g : TypeGraph) (t u b : TypeId) :
    (g.addLower t b).node? u = if t = u then (g.node? u).map (fun
      | .var upper lower => .var upper (addBound b lower)
      | n => n) else g.node? u :=
  node?_modify g t u _

/-- An established pair changes no node. -/
@[simp]
lemma node?_establish (g : TypeGraph) (left right t : TypeId) :
    (g.establish left right).node? t = g.node? t := rfl

/-- The upper bounds of a variable. -/
lemma upper_eq {g : TypeGraph} {t : TypeId} {upper lower : List TypeId}
    (h : g.node? t = some (.var upper lower)) : g.upper t = upper := by
  rw [TypeGraph.upper, h]

/-- The lower bounds of a variable. -/
lemma lower_eq {g : TypeGraph} {t : TypeId} {upper lower : List TypeId}
    (h : g.node? t = some (.var upper lower)) : g.lower t = lower := by
  rw [TypeGraph.lower, h]

/-- The bounds after one is added. -/
lemma mem_addBound {b c : TypeId} {bounds : List TypeId} :
    c ∈ addBound b bounds ↔ c = b ∨ c ∈ bounds := by
  rw [addBound]
  split
  · exact ⟨.inr, fun h => h.elim (fun e => e ▸ ‹_›) id⟩
  · simp [or_comm]

/-! ### Growing bounds -/

/-- A node after more bounds have become known. -/
inductive NodeGrows : TypeNode → TypeNode → Prop
  | same (n : TypeNode) : NodeGrows n n
  | bounds {upper lower upper' lower' : List TypeId} (hupper : upper ⊆ upper')
      (hlower : lower ⊆ lower') : NodeGrows (.var upper lower) (.var upper' lower')

/-- The nodes of one graph are those of another with more bounds. -/
def Grows (g g' : TypeGraph) : Prop := ∀ t, Option.Rel NodeGrows (g.node? t) (g'.node? t)

namespace Grows

variable {g g' : TypeGraph} (h : g.Grows g') {t : TypeId}
include h

/-- A node stays and may grow. -/
lemma node? {n : TypeNode} (hn : g.node? t = some n) :
    ∃ n', g'.node? t = some n' ∧ NodeGrows n n' := by
  have ht := h t
  rw [hn] at ht
  cases hn' : g'.node? t with
  | none => rw [hn'] at ht; cases ht
  | some n' =>
    rw [hn'] at ht
    cases ht with
    | some hnn => exact ⟨n', rfl, hnn⟩

/-- A type stays of its kind. -/
lemma kind? : g'.kind? t = g.kind? t := by
  unfold TypeGraph.kind?
  obtain hn | ⟨n, hn⟩ := Option.eq_none_or_eq_some (g.node? t)
  · have ht := h t
    rw [hn] at ht ⊢
    cases hn' : g'.node? t with
    | none => rfl
    | some n' => rw [hn'] at ht; cases ht
  · obtain ⟨n', hn', hnn⟩ := h.node? hn
    rw [hn, hn']
    cases hnn <;> rfl

/-- A label stays as it is. -/
lemma labeled {name : String} {inner : TypeId} (hn : g.node? t = some (.labeled name inner)) :
    g'.node? t = some (.labeled name inner) := by
  obtain ⟨n', hn', hg⟩ := h.node? hn
  cases hg
  exact hn'

/-- A class stays as it is. -/
lemma cls {shape : Shape} (hn : g.node? t = some (.cls shape)) :
    g'.node? t = some (.cls shape) := by
  obtain ⟨n', hn', hg⟩ := h.node? hn
  cases hg
  exact hn'

/-- The least type stays as it is. -/
lemma bottom (hn : g.node? t = some .bottom) : g'.node? t = some .bottom := by
  obtain ⟨n', hn', hg⟩ := h.node? hn
  cases hg
  exact hn'

/-- A variable stays one and keeps its bounds. -/
lemma var {upper lower : List TypeId} (hn : g.node? t = some (.var upper lower)) :
    ∃ upper' lower', g'.node? t = some (.var upper' lower') ∧ upper ⊆ upper' ∧
      lower ⊆ lower' := by
  obtain ⟨n', hn', hg⟩ := h.node? hn
  cases hg with
  | same => exact ⟨upper, lower, hn', fun _ h => h, fun _ h => h⟩
  | bounds hupper hlower => exact ⟨_, _, hn', hupper, hlower⟩

end Grows

/-- An upper bound is added to one variable alone. -/
lemma mem_upper_addUpper {g : TypeGraph} {t u b s : TypeId}
    (h : u ∈ (g.addUpper t b).upper s) : u ∈ g.upper s ∨ s = t ∧ u = b := by
  rw [TypeGraph.upper, node?_addUpper] at h
  by_cases hts : t = s
  · rw [if_pos hts] at h
    cases hn : g.node? s with
    | none => rw [hn] at h; cases h
    | some n =>
      rw [hn] at h
      cases n with
      | var upper lower =>
        rw [upper_eq hn]
        exact (mem_addBound.1 h).symm.imp_right fun e => ⟨hts.symm, e⟩
      | labeled | cls | bottom => cases h
  · rw [if_neg hts] at h
    exact .inl h

/-- An upper bound that is added changes no lower bounds. -/
lemma lower_addUpper (g : TypeGraph) (t b s : TypeId) :
    (g.addUpper t b).lower s = g.lower s := by
  rw [TypeGraph.lower, TypeGraph.lower, node?_addUpper]
  by_cases hts : t = s
  · rw [if_pos hts]
    cases g.node? s with
    | none => rfl
    | some n => cases n <;> rfl
  · rw [if_neg hts]

/-- A lower bound is added to one variable alone. -/
lemma mem_lower_addLower {g : TypeGraph} {t u b s : TypeId}
    (h : u ∈ (g.addLower t b).lower s) : u ∈ g.lower s ∨ s = t ∧ u = b := by
  rw [TypeGraph.lower, node?_addLower] at h
  by_cases hts : t = s
  · rw [if_pos hts] at h
    cases hn : g.node? s with
    | none => rw [hn] at h; cases h
    | some n =>
      rw [hn] at h
      cases n with
      | var upper lower =>
        rw [lower_eq hn]
        exact (mem_addBound.1 h).symm.imp_right fun e => ⟨hts.symm, e⟩
      | labeled | cls | bottom => cases h
  · rw [if_neg hts] at h
    exact .inl h

/-- A lower bound that is added changes no upper bounds. -/
lemma upper_addLower (g : TypeGraph) (t b s : TypeId) :
    (g.addLower t b).upper s = g.upper s := by
  rw [TypeGraph.upper, TypeGraph.upper, node?_addLower]
  by_cases hts : t = s
  · rw [if_pos hts]
    cases g.node? s with
    | none => rfl
    | some n => cases n <;> rfl
  · rw [if_neg hts]

/-! ### What an expansion does -/

/-- The ways in which a pair of types is expanded: the graph that results, and
the goals. -/
inductive Expands (g : TypeGraph) (left right : TypeId) : TypeGraph → List Goal → Prop
  | bottom (hleft : g.node? left = some .bottom) :
      Expands g left right (g.establish left right) []
  | labels {name : String} {a b : TypeId} (hleft : g.node? left = some (.labeled name a))
      (hright : g.node? right = some (.labeled name b)) :
      Expands g left right (g.establish left right) []
  | classes {offered wanted : Shape} (hleft : g.node? left = some (.cls offered))
      (hright : g.node? right = some (.cls wanted)) :
      Expands g left right (g.establish left right) (shapeGoals left offered wanted)
  | varLeft {upper lower : List TypeId} (hleft : g.node? left = some (.var upper lower)) :
      Expands g left right ((g.establish left right).addUpper left right)
        (lower.map fun t => .below t right)
  | varRight {upper lower : List TypeId}
      (hleft : g.kind? left = some .labeled ∨ g.kind? left = some .cls)
      (hright : g.node? right = some (.var upper lower)) :
      Expands g left right ((g.establish left right).addLower right left)
        (upper.map fun t => .below left t)
  | labelShape {name : String} {inner : TypeId} {offered wanted : Shape}
      (hleft : g.node? left = some (.labeled name inner))
      (hinner : g.node? inner = some (.cls offered))
      (hright : g.node? right = some (.cls wanted)) :
      Expands g left right (g.establish left right) (shapeGoals left offered wanted)
  | labelInner {name : String} {inner : TypeId}
      (hleft : g.node? left = some (.labeled name inner))
      (hright : g.kind? right = some .cls ∨ g.kind? right = some .bottom)
      (hnot : g.kind? right = some .cls → g.kind? inner ≠ some .cls) :
      Expands g left right (g.establish left right) [.below inner right]
  | clash (hleft : g.kind? left = some .labeled ∨ g.kind? left = some .cls)
      (hright : g.kind? right = some .labeled ∨ g.kind? right = some .bottom) :
      Expands g left right (g.establish left right) [.conflict (.mismatch right left)]

/-- Every expansion of two types of a graph is one of these. -/
lemma expands {g : TypeGraph} {left right : TypeId} (hleft : left < g.size)
    (hright : right < g.size) :
    Expands g left right (g.expand left right).1 (g.expand left right).2 := by
  obtain ⟨nl, hl⟩ : ∃ n, g.node? left = some n := ⟨_, Array.getElem?_eq_getElem hleft⟩
  obtain ⟨nr, hr⟩ : ∃ n, g.node? right = some n := ⟨_, Array.getElem?_eq_getElem hright⟩
  have hkl : g.kind? left = some nl.kind := by rw [kind?, hl]; rfl
  have hkr : g.kind? right = some nr.kind := by rw [kind?, hr]; rfl
  unfold expand
  simp only [node?_establish, hl, hr]
  cases nl with
  | bottom => exact .bottom hl
  | var upper lower => exact .varLeft hl
  | labeled name inner =>
    cases nr with
    | var upper lower => exact .varRight (.inl hkl) hr
    | labeled name' inner' =>
      by_cases hname : name = name'
      · subst hname
        simpa using .labels hl hr
      · simpa [hname] using .clash (.inl hkl) (.inl hkr)
    | bottom => exact .labelInner hl (.inr hkr) (by rw [hkr]; rintro ⟨⟩)
    | cls wanted =>
      dsimp only
      cases hi : g.node? inner with
      | some n =>
        cases n with
        | cls offered => exact .labelShape hl hi hr
        | var | labeled | bottom =>
          exact .labelInner hl (.inl hkr) fun _ => by simp [kind?, hi, TypeNode.kind]
      | none => exact .labelInner hl (.inl hkr) fun _ => by simp [kind?, hi]
  | cls offered =>
    cases nr with
    | var upper lower => exact .varRight (.inr hkl) hr
    | labeled name' inner' => exact .clash (.inr hkl) (.inl hkr)
    | bottom => exact .clash (.inr hkl) (.inr hkr)
    | cls wanted => exact .classes hl hr

/-- A graph grows from itself. -/
lemma Grows.refl (g : TypeGraph) : g.Grows g := by
  intro t
  cases g.node? t with
  | none => exact .none
  | some n => exact .some (.same n)

/-- A graph that has grown twice has grown. -/
lemma Grows.trans {g₁ g₂ g₃ : TypeGraph} (h : g₁.Grows g₂) (h' : g₂.Grows g₃) :
    g₁.Grows g₃ := by
  intro t
  cases hn : g₁.node? t with
  | none =>
    have h₂ := h t
    have h₃ := h' t
    rw [hn] at h₂
    cases hn₂ : g₂.node? t with
    | some n₂ => rw [hn₂] at h₂; cases h₂
    | none =>
      rw [hn₂] at h₃
      exact h₃
  | some n =>
    obtain ⟨n₂, hn₂, hg⟩ := h.node? hn
    obtain ⟨n₃, hn₃, hg'⟩ := h'.node? hn₂
    rw [hn₃]
    refine .some ?_
    cases hg with
    | same => exact hg'
    | bounds hu hl =>
      cases hg' with
      | same => exact .bounds hu hl
      | bounds hu' hl' => exact .bounds (List.Subset.trans hu hu') (List.Subset.trans hl hl')

/-- A graph grows where one node does. -/
lemma grows_modify (g : TypeGraph) (t : TypeId) {f : TypeNode → TypeNode}
    (hf : ∀ n, NodeGrows n (f n)) : g.Grows { g with nodes := g.nodes.modify t f } := by
  intro u
  rw [node?_modify]
  split
  · cases g.node? u with
    | none => exact .none
    | some n => exact .some (hf n)
  · exact Grows.refl g u

/-- A graph grows by an upper bound. -/
lemma grows_addUpper (g : TypeGraph) (t b : TypeId) : g.Grows (g.addUpper t b) :=
  grows_modify g t fun n => by
    cases n with
    | var upper lower => exact .bounds (fun _ h => mem_addBound.2 (.inr h)) fun _ h => h
    | labeled | cls | bottom => exact .same _

/-- A graph grows by a lower bound. -/
lemma grows_addLower (g : TypeGraph) (t b : TypeId) : g.Grows (g.addLower t b) :=
  grows_modify g t fun n => by
    cases n with
    | var upper lower => exact .bounds (fun _ h => h) fun _ h => mem_addBound.2 (.inr h)
    | labeled | cls | bottom => exact .same _

namespace Expands

variable {g g' : TypeGraph} {left right : TypeId} {goals : List Goal}

/-- An expansion only adds bounds. -/
lemma grows (h : Expands g left right g' goals) : g.Grows g' := by
  have hestablish : g.Grows (g.establish left right) := Grows.refl g
  cases h with
  | varLeft => exact hestablish.trans (grows_addUpper _ _ _)
  | varRight => exact hestablish.trans (grows_addLower _ _ _)
  | _ => exact hestablish

/-- A new bound above a variable is the right type, and what is below the
variable is to be below it. -/
lemma upper (h : Expands g left right g' goals) {t u : TypeId} (hu : u ∈ g'.upper t) :
    u ∈ g.upper t ∨ t = left ∧ u = right ∧ ∀ b ∈ g.lower left, .below b right ∈ goals := by
  cases h with
  | varLeft hleft =>
    refine (mem_upper_addUpper hu).imp_right ?_
    rintro ⟨rfl, rfl⟩
    exact ⟨rfl, rfl, fun b hb => List.mem_map.2 ⟨b, lower_eq hleft ▸ hb, rfl⟩⟩
  | varRight => exact .inl (upper_addLower _ _ _ _ ▸ hu)
  | _ => exact .inl hu

/-- A new bound below a variable is the left type, and is to be below what is
above the variable. -/
lemma lower (h : Expands g left right g' goals) {t u : TypeId} (hu : u ∈ g'.lower t) :
    u ∈ g.lower t ∨ t = right ∧ u = left ∧ ∀ b ∈ g.upper right, .below left b ∈ goals := by
  cases h with
  | varLeft => exact .inl (lower_addUpper _ _ _ _ ▸ hu)
  | varRight _ hright =>
    refine (mem_lower_addLower hu).imp_right ?_
    rintro ⟨rfl, rfl⟩
    exact ⟨rfl, rfl, fun b hb => List.mem_map.2 ⟨b, upper_eq hright ▸ hb, rfl⟩⟩
  | _ => exact .inl hu

end Expands

/-! ### Working goals off -/

/-- No goals leave a graph as it is. -/
lemma solve_nil (g : TypeGraph) : g.solve [] = (g, []) := by rw [solve]

/-- A conflict is taken down, and the other goals are worked off. -/
lemma solve_conflict (g : TypeGraph) (c : Conflict) (rest : List Goal) :
    g.solve (.conflict c :: rest) = ((g.solve rest).1, c :: (g.solve rest).2) := by
  rw [solve]

/-- A pair that is open is expanded, and what it asks for comes before the other goals. -/
lemma solve_open {g : TypeGraph} {left right : TypeId} (h : g.IsOpen left right)
    (rest : List Goal) : g.solve (.below left right :: rest) =
      (g.expand left right).1.solve ((g.expand left right).2 ++ rest) := by
  rw [solve, dif_pos h]

/-- A pair that is not open asks for nothing. -/
lemma solve_closed {g : TypeGraph} {left right : TypeId} (h : ¬g.IsOpen left right)
    (rest : List Goal) : g.solve (.below left right :: rest) = g.solve rest := by
  rw [solve, dif_neg h]

/-- Induction along the work on a list of goals. -/
@[elab_as_elim]
theorem solve_induction {P : TypeGraph → List Goal → Prop} (nil : ∀ g, P g [])
    (conflict : ∀ g c rest, P g rest → P g (.conflict c :: rest))
    (opened : ∀ g left right rest, g.IsOpen left right →
      P (g.expand left right).1 ((g.expand left right).2 ++ rest) →
      P g (.below left right :: rest))
    (closed : ∀ g left right rest, ¬g.IsOpen left right → P g rest →
      P g (.below left right :: rest)) (g : TypeGraph) (goals : List Goal) : P g goals :=
  solve.induct P nil (fun g c rest _ _ _ ih => conflict g c rest ih) opened closed g goals

/-- What every expansion does to the graph, the work on a list of goals does. -/
lemma solve_rel {R : TypeGraph → TypeGraph → Prop} (refl : ∀ g, R g g)
    (trans : ∀ g₁ g₂ g₃, R g₁ g₂ → R g₂ g₃ → R g₁ g₃)
    (expand : ∀ g left right, g.IsOpen left right → R g (g.expand left right).1)
    (g : TypeGraph) (goals : List Goal) : R g (g.solve goals).1 := by
  induction g, goals using solve_induction with
  | nil g => rw [solve_nil]; exact refl g
  | conflict g c rest ih => rw [solve_conflict]; exact ih
  | opened g left right rest h ih =>
    rw [solve_open h]
    exact trans _ _ _ (expand g left right h) ih
  | closed g left right rest h ih => rw [solve_closed h]; exact ih

/-- Working goals off only adds bounds. -/
lemma grows_solve (g : TypeGraph) (goals : List Goal) : g.Grows (g.solve goals).1 :=
  solve_rel Grows.refl (fun _ _ _ => Grows.trans)
    (fun _ _ _ h => (expands h.2.1 h.2.2.1).grows) g goals

/-- The pairs established before stay established. -/
lemma established_solve (g : TypeGraph) (goals : List Goal) :
    g.established ⊆ (g.solve goals).1.established :=
  solve_rel (R := fun g g' => g.established ⊆ g'.established) (fun _ _ h => h)
    (fun _ _ _ => List.Subset.trans)
    (fun g left right _ => by
      rw [established_expand]
      exact List.subset_cons_self _ _) g goals

/-- Goals that are worked off create no node. -/
@[simp]
lemma size_solve (g : TypeGraph) (goals : List Goal) : (g.solve goals).1.size = g.size :=
  solve_rel (R := fun g g' => g'.size = g.size) (fun _ => rfl) (fun _ _ _ h h' => h'.trans h)
    (fun g left right _ => size_expand g left right) g goals

/-! ### Types that have been issued -/

end TypeGraph

/-- The types that a goal is about. -/
def Goal.types : Goal → List TypeId
  | .below left right => [left, right]
  | .conflict _ => []

namespace TypeGraph

/-- The goals are about types that have been issued. -/
def IssuedGoals (g : TypeGraph) (goals : List Goal) : Prop :=
  ∀ goal ∈ goals, ∀ t ∈ goal.types, t < g.size

/-- What two lists of parameters ask for is about a parameter of each. -/
lemma mem_paramGoals {a b : Option (List TypeId)} {goal : Goal} (h : goal ∈ paramGoals a b) :
    ∃ l ∈ a.getD [], ∃ r ∈ b.getD [], goal = .below l r := by
  unfold paramGoals at h
  split at h
  · rw [← List.map_uncurry_zip_eq_zipWith] at h
    obtain ⟨⟨l, r⟩, hlr, rfl⟩ := List.mem_map.1 h
    exact ⟨l, (List.of_mem_zip hlr).1, r, (List.of_mem_zip hlr).2, rfl⟩
  · cases h

/-- What one wanted method asks for. -/
def methodGoals (shown : TypeId) (offered : Shape) (wanted : Selector × Signature) : List Goal :=
  match offered.find? wanted.1 with
  | none => [.conflict (.lacks shown wanted.1)]
  | some signature =>
    paramGoals wanted.2.params signature.params ++ [.below signature.result wanted.2.result]

/-- What two shapes ask for is about a method that is wanted. -/
lemma mem_shapeGoals {shown : TypeId} {offered wanted : Shape} {goal : Goal} :
    goal ∈ shapeGoals shown offered wanted ↔ ∃ m ∈ wanted, goal ∈ methodGoals shown offered m :=
  List.mem_flatMap

/-- The goals of two shapes are about types that the shapes refer to. -/
lemma mem_types_of_shapeGoals {shown : TypeId} {offered wanted : Shape} {goal : Goal}
    (h : goal ∈ shapeGoals shown offered wanted) {t : TypeId} (ht : t ∈ goal.types) :
    t ∈ offered.types ∨ t ∈ wanted.types := by
  obtain ⟨m, hm, hgoal⟩ := mem_shapeGoals.1 h
  have hwanted : ∀ u ∈ m.2.types, u ∈ wanted.types := fun u hu =>
    List.mem_flatMap.2 ⟨m, hm, hu⟩
  unfold methodGoals at hgoal
  split at hgoal
  · obtain rfl := List.mem_singleton.1 hgoal
    cases ht
  · rename_i signature hs
    have hoffered : ∀ u ∈ signature.types, u ∈ offered.types := fun u hu =>
      List.mem_flatMap.2 ⟨_, Shape.find?_mem hs, hu⟩
    rcases List.mem_append.1 hgoal with hgoal | hgoal
    · obtain ⟨l, hl, r, hr, rfl⟩ := mem_paramGoals hgoal
      simp only [Goal.types, List.mem_cons, List.not_mem_nil, or_false] at ht
      rcases ht with rfl | rfl
      · exact .inr (hwanted _ (List.mem_append_left _ hl))
      · exact .inl (hoffered _ (List.mem_append_left _ hr))
    · obtain rfl := List.mem_singleton.1 hgoal
      simp only [Goal.types, List.mem_cons, List.not_mem_nil, or_false] at ht
      rcases ht with rfl | rfl
      · exact .inl (hoffered _ (List.mem_append_right _ (List.mem_singleton_self _)))
      · exact .inr (hwanted _ (List.mem_append_right _ (List.mem_singleton_self _)))

/-- A bound that has been issued may be added to any variable. -/
lemma issued_modify {g : TypeGraph} (h : g.Issued) (t : TypeId) {f : TypeNode → TypeNode}
    (hf : ∀ n, g.node? t = some n → ∀ u ∈ (f n).types, u ∈ n.types ∨ u < g.size) :
    ({ g with nodes := g.nodes.modify t f } : TypeGraph).Issued := by
  have hsize : ({ g with nodes := g.nodes.modify t f } : TypeGraph).size = g.size :=
    Array.size_modify
  intro u n hn v hv
  rw [node?_modify] at hn
  rw [hsize]
  split at hn
  · rename_i htu
    obtain ⟨m, hm, rfl⟩ := Option.map_eq_some_iff.1 hn
    exact (hf m (htu ▸ hm) v hv).elim (h u m hm v) id
  · exact h u n hn v hv

/-- The types of a graph are its own after an upper bound is added. -/
lemma issued_addUpper {g : TypeGraph} (h : g.Issued) {t b : TypeId} (hb : b < g.size) :
    (g.addUpper t b).Issued := by
  refine issued_modify h t fun n _ u hu => ?_
  cases n with
  | var upper lower =>
    rcases List.mem_append.1 hu with hu | hu
    · exact (mem_addBound.1 hu).elim (fun e => .inr (e ▸ hb)) fun hu =>
        .inl (List.mem_append_left _ hu)
    · exact .inl (List.mem_append_right _ hu)
  | labeled | cls | bottom => exact .inl hu

/-- The types of a graph are its own after a lower bound is added. -/
lemma issued_addLower {g : TypeGraph} (h : g.Issued) {t b : TypeId} (hb : b < g.size) :
    (g.addLower t b).Issued := by
  refine issued_modify h t fun n _ u hu => ?_
  cases n with
  | var upper lower =>
    rcases List.mem_append.1 hu with hu | hu
    · exact .inl (List.mem_append_left _ hu)
    · exact (mem_addBound.1 hu).elim (fun e => .inr (e ▸ hb)) fun hu =>
        .inl (List.mem_append_right _ hu)
  | labeled | cls | bottom => exact .inl hu

/-- An expansion refers to no type that has not been issued. -/
lemma Expands.issued {g g' : TypeGraph} {left right : TypeId} {goals : List Goal}
    (h : Expands g left right g' goals) (hg : g.Issued) (hl : left < g.size)
    (hr : right < g.size) : g'.Issued ∧ g.IssuedGoals goals := by
  have hestablish : (g.establish left right).Issued := hg
  have hpair : ∀ a b, a < g.size → b < g.size → ∀ t ∈ (Goal.below a b).types, t < g.size := by
    intro a b ha hb t ht
    simp only [Goal.types, List.mem_cons, List.not_mem_nil, or_false] at ht
    rcases ht with rfl | rfl
    · exact ha
    · exact hb
  have hshape : ∀ t s, g.node? t = some (.cls s) → ∀ u ∈ s.types, u < g.size :=
    fun t s hs => hg t _ hs
  cases h with
  | bottom | labels => exact ⟨hestablish, fun _ h => absurd h List.not_mem_nil⟩
  | classes hleft hright =>
    refine ⟨hestablish, fun goal hgoal t ht => ?_⟩
    exact (mem_types_of_shapeGoals hgoal ht).elim (hshape _ _ hleft t) (hshape _ _ hright t)
  | varLeft hleft =>
    refine ⟨issued_addUpper hestablish hr, fun goal hgoal => ?_⟩
    obtain ⟨b, hb, rfl⟩ := List.mem_map.1 hgoal
    exact hpair b right (hg _ _ hleft b (List.mem_append_right _ hb)) hr
  | varRight _ hright =>
    refine ⟨issued_addLower hestablish hl, fun goal hgoal => ?_⟩
    obtain ⟨b, hb, rfl⟩ := List.mem_map.1 hgoal
    exact hpair left b hl (hg _ _ hright b (List.mem_append_left _ hb))
  | labelShape _ hinner hright =>
    refine ⟨hestablish, fun goal hgoal t ht => ?_⟩
    exact (mem_types_of_shapeGoals hgoal ht).elim (hshape _ _ hinner t) (hshape _ _ hright t)
  | labelInner hleft _ _ =>
    refine ⟨hestablish, fun goal hgoal => ?_⟩
    obtain rfl := List.mem_singleton.1 hgoal
    exact hpair _ right (hg _ _ hleft _ (List.mem_singleton_self _)) hr
  | clash =>
    refine ⟨hestablish, fun goal hgoal t ht => ?_⟩
    obtain rfl := List.mem_singleton.1 hgoal
    cases ht

/-- Working goals off refers to no type that has not been issued. -/
lemma issued_solve {g : TypeGraph} {goals : List Goal} (hg : g.Issued)
    (hgoals : g.IssuedGoals goals) : (g.solve goals).1.Issued := by
  induction g, goals using solve_induction with
  | nil g => rwa [solve_nil]
  | conflict g c rest ih =>
    rw [solve_conflict]
    exact ih hg fun goal h => hgoals goal (List.mem_cons_of_mem _ h)
  | opened g left right rest h ih =>
    rw [solve_open h]
    obtain ⟨hg', hnew⟩ := (expands h.2.1 h.2.2.1).issued hg h.2.1 h.2.2.1
    refine ih hg' fun goal hgoal t ht => ?_
    rw [size_expand]
    rcases List.mem_append.1 hgoal with hgoal | hgoal
    · exact hnew goal hgoal t ht
    · exact hgoals goal (List.mem_cons_of_mem _ hgoal) t ht
  | closed g left right rest h ih =>
    rw [solve_closed h]
    exact ih hg fun goal hgoal => hgoals goal (List.mem_cons_of_mem _ hgoal)

/-- Shapes are not changed by working goals off. -/
lemma Grows.regular {g g' : TypeGraph} (h : g.Grows g') (hg : g.Regular) : g'.Regular := by
  intro t shape hs
  cases hn : g.node? t with
  | none =>
    have ht := h t
    rw [hn, hs] at ht
    cases ht
  | some n =>
    obtain ⟨n', hn', hgrow⟩ := h.node? hn
    rw [hs] at hn'
    cases hn'
    cases hgrow
    exact hg t shape hn

end TypeGraph

/-! ### Sequences of operations -/

/-- The graphs that sequences of operations lead to from the graph without
types, with the attempts that have been made. Types are referred to only after
they have been issued, and methods are added only before the first attempt. -/
inductive TypeGraph.Reached : TypeGraph → List Attempt → Prop
  | empty : Reached .empty []
  | fresh {g : TypeGraph} {attempts : List Attempt} (h : Reached g attempts) :
      Reached g.fresh.2 attempts
  | labeled {g : TypeGraph} {attempts : List Attempt} (h : Reached g attempts) (name : String)
      {inner : TypeId} (hinner : inner < g.size) : Reached (g.push (.labeled name inner)).2 attempts
  | cls {g : TypeGraph} {attempts : List Attempt} (h : Reached g attempts) {shape : Shape}
      (hregular : shape.IsRegular) (hissued : ∀ t ∈ shape.types, t < g.size) :
      Reached (g.push (.cls shape)).2 attempts
  | bottom {g : TypeGraph} {attempts : List Attempt} (h : Reached g attempts) :
      Reached (g.push .bottom).2 attempts
  | addMethod {g : TypeGraph} (h : Reached g []) (t : TypeId) {method : Selector}
      {signature : Signature} (hmatches : signature.Matches method)
      (hissued : ∀ u ∈ signature.types, u < g.size) : Reached (g.addMethod t method signature) []
  | constrain {g : TypeGraph} {attempts : List Attempt} (h : Reached g attempts)
      (left right : TypeId) (hleft : left < g.size) (hright : right < g.size) (line : Line) :
      Reached ((Attempt.new line).constrain g left right).2.1
        (attempts ++ [((Attempt.new line).constrain g left right).1])

namespace Attempt

/-- A conflict is sent, and what has been sent stays so. -/
lemma sent_sendAll (a : Attempt) (g : TypeGraph) (conflicts : List Conflict) :
    (a.sendAll g conflicts).1.sent = (a.sent || !conflicts.isEmpty) := by
  induction conflicts generalizing a with
  | nil => simp [sendAll]
  | cons c rest ih =>
    have hsend : (a.send (c.message g)).1.sent = true := by
      unfold send
      split
      · assumption
      · rfl
    simp [sendAll, ih, hsend]

/-- An attempt does not matter to the graph that comes out of it. -/
lemma graph_constrain (a : Attempt) (g : TypeGraph) (left right : TypeId) :
    (a.constrain g left right).2.1 = (g.constrain left right).1 := rfl

/-- A fresh attempt is sent if there is a conflict. -/
lemma sent_constrain (line : Line) (g : TypeGraph) (left right : TypeId) :
    ((new line).constrain g left right).1.sent = !(g.constrain left right).2.isEmpty := by
  change ((new line).sendAll _ _).1.sent = _
  rw [sent_sendAll]
  rfl

end Attempt

namespace TypeGraph

/-- The types of a graph are its own after a node is created. -/
lemma issued_push {g : TypeGraph} (h : g.Issued) {n : TypeNode}
    (hn : ∀ t ∈ n.types, t < g.size + 1) : (g.push n).2.Issued := by
  intro t m hm u hu
  rw [node?_push] at hm
  rw [size_push]
  split at hm
  · cases hm
    exact hn u hu
  · exact Nat.lt_succ_of_lt (h t m hm u hu)

/-- Classes stay regular after a node is created. -/
lemma regular_push {g : TypeGraph} (h : g.Regular) {n : TypeNode}
    (hn : ∀ shape, n = .cls shape → shape.IsRegular) : (g.push n).2.Regular := by
  intro t shape hs
  rw [node?_push] at hs
  split at hs
  · cases hs
    exact hn shape rfl
  · exact h t shape hs

/-- The types of a graph are its own after a class gets a method. -/
lemma issued_addMethod {g : TypeGraph} (h : g.Issued) (t : TypeId) {m : Selector}
    {s : Signature} (hs : ∀ u ∈ s.types, u < g.size) : (g.addMethod t m s).Issued := by
  refine issued_modify h t fun n _ u hu => ?_
  cases n with
  | cls shape =>
    obtain ⟨x, hx, hu⟩ := List.mem_flatMap.1 hu
    rcases mem_insertByKey hx with rfl | hx
    · exact .inr (hs u hu)
    · exact .inl (List.mem_flatMap.2 ⟨x, hx, hu⟩)
  | var | labeled | bottom => exact .inl hu

/-- Classes stay regular after one gets a method. -/
lemma regular_addMethod {g : TypeGraph} (h : g.Regular) (t : TypeId) {m : Selector}
    {s : Signature} (hs : s.Matches m) : (g.addMethod t m s).Regular := by
  intro u shape hshape
  rw [node?_addMethod] at hshape
  split at hshape
  · obtain ⟨n, hn, hf⟩ := Option.map_eq_some_iff.1 hshape
    cases n with
    | cls shape₀ =>
      cases hf
      intro x hx
      exact (mem_insertByKey hx).elim (fun e => e ▸ hs) (h u shape₀ hn x)
    | var | labeled | bottom => cases hf
  · exact h u shape hshape

namespace Reached

variable {g : TypeGraph} {attempts : List Attempt}

/-- No graph that is reached refers to a type that has not been issued. -/
theorem issued (h : g.Reached attempts) : g.Issued := by
  induction h with
  | empty =>
    intro t n hn
    simp [node?, TypeGraph.empty] at hn
  | fresh h ih => exact issued_push ih fun t ht => absurd ht List.not_mem_nil
  | labeled h name hinner ih =>
    refine issued_push ih fun t ht => ?_
    rw [List.mem_singleton.1 ht]
    exact Nat.lt_succ_of_lt hinner
  | cls h _ hissued ih => exact issued_push ih fun t ht => Nat.lt_succ_of_lt (hissued t ht)
  | bottom h ih => exact issued_push ih fun t ht => absurd ht List.not_mem_nil
  | addMethod h t _ hissued ih => exact issued_addMethod ih t hissued
  | constrain h _ _ hleft hright line ih =>
    rw [Attempt.graph_constrain]
    refine issued_solve ih fun goal hgoal t ht => ?_
    obtain rfl := List.mem_singleton.1 hgoal
    simp only [Goal.types, List.mem_cons, List.not_mem_nil, or_false] at ht
    rcases ht with rfl | rfl
    · exact hleft
    · exact hright

/-- Every class of a graph that is reached has a regular shape. -/
theorem regular (h : g.Reached attempts) : g.Regular := by
  induction h with
  | empty =>
    intro t n hn
    simp [node?, TypeGraph.empty] at hn
  | fresh h ih => exact regular_push ih fun shape => by rintro ⟨⟩
  | labeled h name _ ih => exact regular_push ih fun shape => by rintro ⟨⟩
  | cls h hregular _ ih =>
    refine regular_push ih fun shape hshape => ?_
    cases hshape
    exact hregular
  | bottom h ih => exact regular_push ih fun shape => by rintro ⟨⟩
  | addMethod h t hmatches _ ih => exact regular_addMethod ih t hmatches
  | constrain h _ _ _ _ _ ih => exact (grows_solve _ _).regular ih

end Reached

end TypeGraph

end Ember
