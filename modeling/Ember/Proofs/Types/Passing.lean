/-
Which types reach a type, seen from the types of values.

A value has the type of its class or one of the built-in labels. Whatever it
flows into is known as a variable, so that the types above a variable are above
the types of all values that flow into it.

* `TypeGraph.Later`: a graph after more types were added and more was found out;
* `TypeGraph.Sound`: the graphs that inference works on. They stay sound whatever
  is added (`Sound.push`, `Sound.constrain`);
* `TypeGraph.Simulated`: every established pair is justified, as long as no demand
  has led to a conflict (`Simulated.push`, `Simulated.constrain`);
* `TypeGraph.Labels`: where the built-in labels are;
* `Below.through`: what a concrete type is below and what that is below in turn,
  if there is a variable, a built-in label or the least type in between;
* `fits_of_below`, `fits_of_label_below`: what is asked of a concrete type is
  offered by its methods.
-/
import Mathlib
import Ember.Proofs.Types.Simulation
import Ember.Types.Builtin

namespace Ember

namespace TypeGraph

/-! ### Graphs that grow -/

/-- Types are only ever added to a graph, and more is found out about them. -/
structure Later (g g' : TypeGraph) : Prop where
  node? : ∀ {t n}, g.node? t = some n → ∃ n', g'.node? t = some n' ∧ NodeGrows n n'
  established : g.established ⊆ g'.established

namespace Later

variable {g g' g'' : TypeGraph}

/-- A graph is later than itself. -/
lemma refl (g : TypeGraph) : g.Later g := ⟨fun hn => ⟨_, hn, .same _⟩, fun _ hp => hp⟩

/-- What is later than a later graph is later. -/
lemma trans (h : g.Later g') (h' : g'.Later g'') : g.Later g'' := by
  refine ⟨fun {t n} hn => ?_, List.Subset.trans h.established h'.established⟩
  obtain ⟨n', hn', grows⟩ := h.node? hn
  obtain ⟨n'', hn'', grows'⟩ := h'.node? hn'
  refine ⟨n'', hn'', ?_⟩
  cases grows with
  | same => exact grows'
  | bounds hu hl =>
    cases grows' with
    | same => exact .bounds hu hl
    | bounds hu' hl' => exact .bounds (List.Subset.trans hu hu') (List.Subset.trans hl hl')

/-- A type stays of its kind. -/
lemma kind? (h : g.Later g') {t : TypeId} {k : TypeKind} (hk : g.kind? t = some k) :
    g'.kind? t = some k := by
  obtain ⟨n, hn, rfl⟩ := Option.map_eq_some_iff.1 hk
  obtain ⟨n', hn', grows⟩ := h.node? hn
  rw [TypeGraph.kind?, hn']
  cases grows <;> rfl

/-- A class stays as it is. -/
lemma cls (h : g.Later g') {t : TypeId} {shape : Shape} (hn : g.node? t = some (.cls shape)) :
    g'.node? t = some (.cls shape) := by
  obtain ⟨n', hn', grows⟩ := h.node? hn
  cases grows
  exact hn'

/-- A label stays as it is. -/
lemma labeled (h : g.Later g') {t inner : TypeId} {name : String}
    (hn : g.node? t = some (.labeled name inner)) : g'.node? t = some (.labeled name inner) := by
  obtain ⟨n', hn', grows⟩ := h.node? hn
  cases grows
  exact hn'

/-- What is established stays so. -/
lemma below (h : g.Later g') {left right : TypeId} (hb : g.Below left right) :
    g'.Below left right :=
  hb.imp_right fun hp => h.established hp

end Later

/-- A graph with one type more is later. -/
lemma later_push (g : TypeGraph) (n : TypeNode) : g.Later (g.push n).2 := by
  refine ⟨fun {t m} hm => ⟨m, ?_, .same m⟩, fun _ hp => hp⟩
  rw [node?_push, if_neg (Nat.ne_of_lt (node?_lt hm))]
  exact hm

/-- A graph after a demand is later. -/
lemma later_constrain (g : TypeGraph) (left right : TypeId) :
    g.Later (g.constrain left right).1 :=
  ⟨fun hn => (grows_solve g _).node? hn, established_solve g _⟩

/-! ### What holds of every graph on the way -/

/-- Types are referred to only after they have been issued, and every class has
a regular shape. -/
structure Sound (g : TypeGraph) : Prop where
  issued : g.Issued
  regular : g.Regular

/-- Every established pair is justified. -/
def Simulated (g : TypeGraph) : Prop := ∀ p ∈ g.established, g.Justified g.Below p.1 p.2

variable {g : TypeGraph}

/-- A graph stays sound when a type is added. -/
lemma Sound.push (h : g.Sound) {n : TypeNode} (hissued : ∀ t ∈ n.types, t < g.size)
    (hregular : ∀ shape, n = .cls shape → shape.IsRegular) : (g.push n).2.Sound :=
  ⟨issued_push h.issued fun t ht => Nat.lt_succ_of_lt (hissued t ht),
    regular_push h.regular hregular⟩

/-- A goal about types of a graph is about types of the graph. -/
lemma issuedGoals_below {left right : TypeId} (hl : left < g.size) (hr : right < g.size) :
    g.IssuedGoals [.below left right] := by
  intro goal hgoal t ht
  obtain rfl := List.mem_singleton.1 hgoal
  simp only [Goal.types, List.mem_cons, List.not_mem_nil, or_false] at ht
  rcases ht with rfl | rfl <;> assumption

/-- A graph stays sound after a demand. -/
lemma Sound.constrain (h : g.Sound) {left right : TypeId} (hl : left < g.size)
    (hr : right < g.size) : (g.constrain left right).1.Sound :=
  ⟨issued_solve h.issued (issuedGoals_below hl hr), (grows_solve g _).regular h.regular⟩

/-- Established pairs stay justified when a type is added. -/
lemma Simulated.push (h : g.Simulated) (hissued : g.Issued) (n : TypeNode) :
    (g.push n).2.Simulated :=
  fun p hp => (h p hp).push hissued n

/-- A demand that leads to no conflict leaves every established pair justified. -/
lemma Simulated.constrain (h : g.Simulated) (sound : g.Sound) {left right : TypeId}
    (hl : left < g.size) (hr : right < g.size) (clean : (g.constrain left right).2 = []) :
    (g.constrain left right).1.Simulated := by
  refine justified_solve sound.issued sound.regular (issuedGoals_below hl hr)
    (.inr fun p hp => ?_) clean
  exact (h p hp).mono (fun a b => .inl) (Grows.refl g) (fun _ _ => .inl) fun _ _ => .inl

/-- What has been demanded is established. -/
lemma below_constrain {left right : TypeId} (hl : left < g.size) (hr : right < g.size) :
    (g.constrain left right).1.Below left right := by
  by_cases hopen : g.IsOpen left right
  · refine .inr ?_
    rw [TypeGraph.constrain, solve_open hopen]
    refine established_solve _ _ ?_
    rw [established_expand]
    exact List.mem_cons_self ..
  · exact (later_constrain g left right).below (below_of_not_isOpen hopen hl hr)

/-! ### The types of values -/

/-- A type is one of the built-in labels. -/
def IsLabel (b : Builtins) (t : TypeId) : Prop := t = b.number ∨ t = b.text ∨ t = b.boolean

/-- The built-in labels are around classes, and no two of them have one name. -/
structure Labels (g : TypeGraph) (b : Builtins) : Prop where
  shaped : ∀ t, IsLabel b t → ∃ name inner shape, g.node? t = some (.labeled name inner) ∧
    g.node? inner = some (.cls shape)
  apart : ∀ t u name a c, IsLabel b t → IsLabel b u → g.node? t = some (.labeled name a) →
    g.node? u = some (.labeled name c) → t = u

/-- What a value can have as its own type: a class or a built-in label. -/
def Concrete (g : TypeGraph) (b : Builtins) (t : TypeId) : Prop :=
  g.kind? t = some .cls ∨ IsLabel b t

/-- What an expression can have as its type: a variable, a built-in label or the
least type. -/
def Simple (g : TypeGraph) (b : Builtins) (t : TypeId) : Prop :=
  g.kind? t = some .var ∨ g.kind? t = some .bottom ∨ IsLabel b t

/-- The kind of a type is that of its node. -/
lemma kind?_of_node? {t : TypeId} {n : TypeNode} (h : g.node? t = some n) :
    g.kind? t = some n.kind := by
  rw [kind?, h]
  rfl

/-- A type with a kind belongs to the graph. -/
lemma kind?_lt {t : TypeId} {k : TypeKind} (h : g.kind? t = some k) : t < g.size := by
  obtain ⟨n, hn, -⟩ := Option.map_eq_some_iff.1 h
  exact node?_lt hn

variable {b : Builtins}

/-- A built-in type is a label. -/
lemma Labels.kind? (h : g.Labels b) {t : TypeId} (ht : IsLabel b t) :
    g.kind? t = some .labeled := by
  obtain ⟨name, inner, shape, hn, -⟩ := h.shaped t ht
  exact kind?_of_node? hn

/-- A simple type belongs to the graph. -/
lemma Simple.lt (h : g.Simple b t) (labels : g.Labels b) : t < g.size := by
  rcases h with h | h | h
  · exact kind?_lt h
  · exact kind?_lt h
  · exact kind?_lt (labels.kind? h)

/-- A simple type stays simple. -/
lemma Simple.later {g' : TypeGraph} {t : TypeId} (h : g.Simple b t) (later : g.Later g') :
    g'.Simple b t :=
  h.imp later.kind? (.imp_left later.kind?)

/-- The labels stay where they are. -/
lemma Labels.later {g' : TypeGraph} (h : g.Labels b) (later : g.Later g') : g'.Labels b where
  shaped t ht := by
    obtain ⟨name, inner, shape, hn, hi⟩ := h.shaped t ht
    exact ⟨name, inner, shape, later.labeled hn, later.cls hi⟩
  apart t u name a c ht hu hn hm := by
    obtain ⟨name₁, a₁, -, hn₁, -⟩ := h.shaped t ht
    obtain ⟨name₂, c₂, -, hm₂, -⟩ := h.shaped u hu
    rw [later.labeled hn₁] at hn
    rw [later.labeled hm₂] at hm
    cases hn
    cases hm
    exact h.apart t u name a c ht hu hn₁ hm₂

/-! ### The rules by the kind of the left type -/

section Inversion

variable {r : TypeId → TypeId → Prop} {left right : TypeId}

/-- A variable knows what it is below, and so does what is below the variable. -/
lemma Justified.of_var (h : g.Justified r left right) (kl : g.kind? left = some .var) :
    ∀ t ∈ g.lower left, r t right := by
  cases h with
  | varLeft hleft _ hlower => rwa [lower_eq hleft]
  | bottom hleft => rw [kind?_of_node? hleft] at kl; cases kl
  | labels hleft => rw [kind?_of_node? hleft] at kl; cases kl
  | classes hleft => rw [kind?_of_node? hleft] at kl; cases kl
  | varRight hleft => rcases hleft with hk | hk <;> rw [hk] at kl <;> cases kl
  | labelShape hleft => rw [kind?_of_node? hleft] at kl; cases kl
  | labelInner hleft => rw [kind?_of_node? hleft] at kl; cases kl

/-- A class is below classes that it fits and below variables. -/
lemma Justified.of_class (h : g.Justified r left right) {offered : Shape}
    (hl : g.node? left = some (.cls offered)) :
    (∃ wanted, g.node? right = some (.cls wanted) ∧ Fits r offered wanted) ∨
      (g.kind? right = some .var ∧ left ∈ g.lower right) := by
  have kl := kind?_of_node? hl
  cases h with
  | classes hleft hright hfits =>
    rw [hl] at hleft
    cases hleft
    exact .inl ⟨_, hright, hfits⟩
  | varRight _ hright hmem => exact .inr ⟨kind?_of_node? hright, by rwa [lower_eq hright]⟩
  | varLeft hleft => rw [kind?_of_node? hleft] at kl; cases kl
  | bottom hleft => rw [kind?_of_node? hleft] at kl; cases kl
  | labels hleft => rw [kind?_of_node? hleft] at kl; cases kl
  | labelShape hleft => rw [kind?_of_node? hleft] at kl; cases kl
  | labelInner hleft => rw [kind?_of_node? hleft] at kl; cases kl

/-- A label around a class is below labels of its name, below classes that its
class fits and below variables; its class is below what has no rule of its own. -/
lemma Justified.of_label (h : g.Justified r left right) {name : String} {inner : TypeId}
    {offered : Shape} (hl : g.node? left = some (.labeled name inner))
    (hi : g.node? inner = some (.cls offered)) :
    (∃ a, g.node? right = some (.labeled name a)) ∨
      (∃ wanted, g.node? right = some (.cls wanted) ∧ Fits r offered wanted) ∨
      (g.kind? right = some .var ∧ left ∈ g.lower right) ∨
      (g.kind? right = some .bottom ∧ r inner right) := by
  have kl := kind?_of_node? hl
  cases h with
  | labels hleft hright =>
    rw [hl] at hleft
    cases hleft
    exact .inl ⟨_, hright⟩
  | labelShape hleft hinner hright hfits =>
    rw [hl] at hleft
    cases hleft
    rw [hi] at hinner
    cases hinner
    exact .inr (.inl ⟨_, hright, hfits⟩)
  | varRight _ hright hmem =>
    exact .inr (.inr (.inl ⟨kind?_of_node? hright, by rwa [lower_eq hright]⟩))
  | labelInner hleft hright hnot hinner =>
    rw [hl] at hleft
    cases hleft
    rcases hright with hk | hk
    · exact absurd (kind?_of_node? hi) (hnot hk)
    · exact .inr (.inr (.inr ⟨hk, hinner⟩))
  | varLeft hleft => rw [kind?_of_node? hleft] at kl; cases kl
  | bottom hleft => rw [kind?_of_node? hleft] at kl; cases kl
  | classes hleft => rw [kind?_of_node? hleft] at kl; cases kl

end Inversion

/-! ### What flows on -/

/-- A class is below a type that is simple only if that is a variable. -/
lemma lower_of_class_below (simulated : g.Simulated) (labels : g.Labels b) {t u : TypeId}
    (kt : g.kind? t = some .cls) (simple : g.Simple b u) (below : g.Below t u) :
    g.kind? u = some .var ∧ t ∈ g.lower u := by
  obtain ⟨n, hn, hk⟩ := Option.map_eq_some_iff.1 kt
  cases n with
  | var | labeled | bottom => cases hk
  | cls offered =>
    have hu : g.kind? u ≠ some .cls := by
      rcases simple with ku | ku | ku
      · simp [ku]
      · simp [ku]
      · simp [labels.kind? ku]
    rcases below with rfl | hp
    · exact absurd kt hu
    · rcases (simulated _ hp).of_class hn with ⟨wanted, hw, -⟩ | hvar
      · exact absurd (kind?_of_node? hw) hu
      · exact hvar

/-- A label is below a type that is simple only if that is itself or a variable. -/
lemma lower_of_label_below (simulated : g.Simulated) (labels : g.Labels b) {t u : TypeId}
    (ht : IsLabel b t) (simple : g.Simple b u) (below : g.Below t u) :
    t = u ∨ (g.kind? u = some .var ∧ t ∈ g.lower u) := by
  obtain ⟨name, inner, shape, hn, hi⟩ := labels.shaped t ht
  rcases below with rfl | hp
  · exact .inl rfl
  have other {k : TypeKind} (hk : g.kind? u = some k) (hv : k ≠ .var) (hb : k ≠ .bottom) :
      IsLabel b u := by
    rcases simple with ku | ku | ku
    · rw [hk] at ku; exact absurd (Option.some.inj ku) hv
    · rw [hk] at ku; exact absurd (Option.some.inj ku) hb
    · exact ku
  rcases (simulated _ hp).of_label hn hi with ⟨a, ha⟩ | ⟨wanted, hw, -⟩ | hvar | ⟨hbot, hin⟩
  · have hu : IsLabel b u := other (kind?_of_node? ha) (by simp [TypeNode.kind])
      (by simp [TypeNode.kind])
    exact .inl (labels.apart t u name inner a ht hu hn ha)
  · have hu : IsLabel b u := other (kind?_of_node? hw) (by simp [TypeNode.kind])
      (by simp [TypeNode.kind])
    have := labels.kind? hu
    rw [kind?_of_node? hw] at this
    cases this
  · exact .inr hvar
  · have := (lower_of_class_below simulated labels (kind?_of_node? hi) (.inr (.inl hbot)) hin).1
    rw [hbot] at this
    cases this

/-- What flows into something simple flows on. -/
lemma Below.through (simulated : g.Simulated) (labels : g.Labels b) {p t u : TypeId}
    (concrete : g.Concrete b p) (simple : g.Simple b t) (below : g.Below p t)
    (above : g.Below t u) : g.Below p u := by
  have through (hvar : g.kind? t = some .var ∧ p ∈ g.lower t) : g.Below p u := by
    rcases above with rfl | hp
    · exact below
    · exact (simulated _ hp).of_var hvar.1 p hvar.2
  rcases concrete with kp | hp
  · exact through (lower_of_class_below simulated labels kp simple below)
  · rcases lower_of_label_below simulated labels hp simple below with rfl | hvar
    · exact above
    · exact through hvar

/-! ### What is asked of a concrete type -/

/-- A shape of one method fits itself. -/
lemma fits_self (g : TypeGraph) (method : Selector) (signature : Signature) :
    Fits g.Below [(method, signature)] [(method, signature)] := by
  intro m expected hm
  cases List.mem_singleton.1 hm
  refine ⟨signature, by simp [Shape.find?, findByKey?_cons], ?_, .inl rfl⟩
  exact List.forall₂_same.2 fun t _ => .inl rfl

/-- A class that is below another one of one method offers it. -/
lemma fits_of_below (simulated : g.Simulated) {t u : TypeId} {offered : Shape} {method : Selector}
    {signature : Signature} (ht : g.node? t = some (.cls offered))
    (hu : g.node? u = some (.cls [(method, signature)])) (below : g.Below t u) :
    Fits g.Below offered [(method, signature)] := by
  rcases below with rfl | hp
  · rw [ht] at hu
    cases hu
    exact fits_self g method signature
  rcases (simulated _ hp).of_class ht with ⟨wanted, hw, hfits⟩ | ⟨hk, -⟩
  · rw [hu] at hw
    cases hw
    exact hfits
  · rw [kind?_of_node? hu] at hk
    cases hk

/-- A label that is below a class offers the methods of the class. -/
lemma fits_of_label_below (simulated : g.Simulated) {t inner u : TypeId} {name : String}
    {offered wanted : Shape} (ht : g.node? t = some (.labeled name inner))
    (hinner : g.node? inner = some (.cls offered)) (hu : g.node? u = some (.cls wanted))
    (below : g.Below t u) : Fits g.Below offered wanted := by
  rcases below with rfl | hp
  · rw [ht] at hu
    cases hu
  rcases (simulated _ hp).of_label ht hinner with ⟨a, ha⟩ | ⟨w, hw, hfits⟩ | ⟨hk, -⟩ | ⟨hk, -⟩
  · rw [hu] at ha
    cases ha
  · rw [hu] at hw
    cases hw
    exact hfits
  · rw [kind?_of_node? hu] at hk
    cases hk
  · rw [kind?_of_node? hu] at hk
    cases hk

end TypeGraph

end Ember
