/-
On types that are all known, putting one type below another decides structural
subtyping of recursive types.

* `TypeGraph.SubtypeRule`: when a type is a subtype of another, relative to a
  relation for the types they are made of;
* `TypeGraph.IsSubtype`: the greatest relation whose pairs follow the rules, with
  its coinduction principle `IsSubtype.of_closed` and `IsSubtype.rule`;
* `isSubtype_of_justified`: pairs that justify each other are subtypes;
* `goals_of_rule`: what a pair of subtypes asks for are pairs of subtypes again;
* `solve_clean_of_isSubtype`: so that work on such goals meets no conflict;
* `sent_iff_not_isSubtype`: an attempt is sent exactly for a pair of types that are
  not subtypes.
-/
import Mathlib
import Ember.Proofs.Types.Saturation

namespace Ember

namespace TypeGraph

/-! ### Structural subtyping -/

/-- When the left type is a subtype of the right one, where `r` relates the types
they are made of. A type is a subtype of itself and the least type of every type;
labels go by their names and classes by their methods; a label is below a class or
the least type when its inner type is. -/
inductive SubtypeRule (g : TypeGraph) (r : TypeId → TypeId → Prop) (left right : TypeId) : Prop
  | refl (h : left = right)
  | bottom (hleft : g.node? left = some .bottom)
  | labels {name : String} {a b : TypeId} (hleft : g.node? left = some (.labeled name a))
      (hright : g.node? right = some (.labeled name b))
  | classes {offered wanted : Shape} (hleft : g.node? left = some (.cls offered))
      (hright : g.node? right = some (.cls wanted)) (hfits : Fits r offered wanted)
  | inner {name : String} {inner : TypeId} (hleft : g.node? left = some (.labeled name inner))
      (hright : g.kind? right = some .cls ∨ g.kind? right = some .bottom)
      (hinner : r inner right)

/-- The rule for subtypes asks for less where the relation holds of more. -/
lemma SubtypeRule.mono {g : TypeGraph} {r r' : TypeId → TypeId → Prop}
    (hr : ∀ a b, r a b → r' a b) {left right : TypeId} (h : g.SubtypeRule r left right) :
    g.SubtypeRule r' left right := by
  cases h with
  | refl h => exact .refl h
  | bottom hleft => exact .bottom hleft
  | labels hleft hright => exact .labels hleft hright
  | classes hleft hright hfits => exact .classes hleft hright (hfits.mono hr)
  | inner hleft hright hinner => exact .inner hleft hright (hr _ _ hinner)

/-- One step back along the rules. -/
def subtypeStep (g : TypeGraph) : (TypeId → TypeId → Prop) →o (TypeId → TypeId → Prop) where
  toFun r := g.SubtypeRule r
  monotone' _ _ hr _ _ := SubtypeRule.mono hr

/-- The left type is a subtype of the right one: the pair is in the greatest
relation whose pairs follow the rules. -/
def IsSubtype (g : TypeGraph) : TypeId → TypeId → Prop := OrderHom.gfp g.subtypeStep

/-- A relation whose pairs follow the rules relates subtypes only. -/
lemma IsSubtype.of_closed {g : TypeGraph} {r : TypeId → TypeId → Prop}
    (hr : ∀ a b, r a b → g.SubtypeRule r a b) {left right : TypeId} (h : r left right) :
    g.IsSubtype left right :=
  OrderHom.le_gfp g.subtypeStep (show r ≤ g.subtypeStep r from hr) left right h

/-- A pair of subtypes follows a rule. -/
lemma IsSubtype.rule {g : TypeGraph} {left right : TypeId} (h : g.IsSubtype left right) :
    g.SubtypeRule g.IsSubtype left right := by
  have hfix : g.subtypeStep g.IsSubtype = g.IsSubtype := OrderHom.map_gfp g.subtypeStep
  show g.subtypeStep g.IsSubtype left right
  rwa [hfix]

lemma IsSubtype.refl (g : TypeGraph) (t : TypeId) : g.IsSubtype t t :=
  .of_closed (r := Eq) (fun _ _ => .refl) rfl

/-! ### Established pairs are subtypes -/

/-- No type is a variable. -/
def VariableFree (g : TypeGraph) : Prop := ∀ t, g.kind? t ≠ some .var

/-- No node is that of a variable where there are none. -/
lemma VariableFree.node?_ne {g : TypeGraph} (h : g.VariableFree) {t : TypeId}
    {upper lower : List TypeId} : g.node? t ≠ some (.var upper lower) := by
  intro hn
  refine h t ?_
  rw [kind?, hn]
  rfl

/-- Without variables, work on goals changes no node. -/
lemma Grows.node?_eq {g g' : TypeGraph} (h : g.Grows g') (hfree : g.VariableFree) :
    g'.node? = g.node? := by
  funext t
  have ht := h t
  cases hn : g.node? t with
  | none =>
    rw [hn] at ht
    cases hn' : g'.node? t with
    | none => rfl
    | some n' => rw [hn'] at ht; cases ht
  | some n =>
    obtain ⟨n', hn', hgrow⟩ := h.node? hn
    rw [hn']
    cases hgrow with
    | same => rfl
    | bounds => exact absurd hn hfree.node?_ne

/-- What relates two classes directly: the one fits the other. A label whose inner
type is a class is compared with another class in this way, without a pair of the
inner type being noted. -/
def ClassesFit (g : TypeGraph) (r : TypeId → TypeId → Prop) (left right : TypeId) : Prop :=
  ∃ offered wanted, g.node? left = some (.cls offered) ∧ g.node? right = some (.cls wanted) ∧
    Fits r offered wanted

/-- Pairs that justify each other relate subtypes, and so do classes that fit along
such pairs. -/
lemma isSubtype_of_justified {g : TypeGraph} (hfree : g.VariableFree)
    (h : ∀ p ∈ g.established, g.Justified g.Below p.1 p.2) {left right : TypeId}
    (hbelow : g.Below left right) : g.IsSubtype left right := by
  refine .of_closed (r := fun a b => g.Below a b ∨ g.ClassesFit g.Below a b) ?_ (.inl hbelow)
  rintro a b ((rfl | hab) | ⟨offered, wanted, hleft, hright, hfits⟩)
  · exact .refl rfl
  · cases h _ hab with
    | bottom hleft => exact .bottom hleft
    | labels hleft hright => exact .labels hleft hright
    | classes hleft hright hfits =>
      exact .classes hleft hright (hfits.mono fun _ _ => .inl)
    | varLeft hleft => exact absurd hleft hfree.node?_ne
    | varRight _ hright => exact absurd hright hfree.node?_ne
    | labelShape hleft hinner hright hfits =>
      refine .inner hleft (.inl ?_) (.inr ⟨_, _, hinner, hright, hfits⟩)
      rw [kind?, hright]
      rfl
    | labelInner hleft hright _ hinner => exact .inner hleft hright (.inl hinner)
  · exact .classes hleft hright (hfits.mono fun _ _ => .inl)

/-! ### Subtypes ask for subtypes -/

/-- No class lists a method twice. -/
def Keyed (g : TypeGraph) : Prop :=
  ∀ t shape, g.node? t = some (.cls shape) → (shape.map Prod.fst).Nodup

/-- In a graph with keys a method of a shape is the one found for its selector. -/
lemma Keyed.find? {g : TypeGraph} (hkeyed : g.Keyed) {t : TypeId} {shape : Shape}
    (hshape : g.node? t = some (.cls shape)) {method : Selector} {signature : Signature}
    (h : (method, signature) ∈ shape) : shape.find? method = some signature := by
  rw [Shape.find?, findByKey?_of_mem (hkeyed t shape hshape) h]
  rfl

/-- Two classes are compared along the subtypes they are made of, also when they
are the same class. -/
lemma fits_of_isSubtype {g : TypeGraph} (hkeyed : g.Keyed) {left right : TypeId}
    {offered wanted : Shape} (h : g.IsSubtype left right)
    (hleft : g.node? left = some (.cls offered)) (hright : g.node? right = some (.cls wanted)) :
    Fits g.IsSubtype offered wanted := by
  cases h.rule with
  | refl heq =>
    obtain rfl : offered = wanted := by
      rw [heq, hright] at hleft
      cases hleft
      rfl
    intro method signature hmem
    refine ⟨signature, hkeyed.find? hleft hmem, ?_, .refl g _⟩
    exact List.forall₂_same.2 fun t _ => .refl g t
  | bottom hleft' => rw [hleft] at hleft'; cases hleft'
  | labels hleft' => rw [hleft] at hleft'; cases hleft'
  | classes hleft' hright' hfits =>
    rw [hleft] at hleft'
    rw [hright] at hright'
    cases hleft'
    cases hright'
    exact hfits
  | inner hleft' => rw [hleft] at hleft'; cases hleft'

/-- A list of goals that only asks for subtypes. -/
def AsksSubtypes (g : TypeGraph) (goals : List Goal) : Prop :=
  ∀ goal ∈ goals, ∃ a b, goal = .below a b ∧ g.IsSubtype a b

/-- What two classes ask for along which the one fits the other. -/
lemma Fits.asksSubtypes {g : TypeGraph} {offered wanted : Shape}
    (h : Fits g.IsSubtype offered wanted) (shown : TypeId) :
    g.AsksSubtypes (shapeGoals shown offered wanted) := by
  intro goal hgoal
  obtain ⟨⟨method, expected⟩, hmem, hgoal⟩ := mem_shapeGoals.1 hgoal
  obtain ⟨signature, hfind, hparams, hresult⟩ := h method expected hmem
  rw [methodGoals, hfind] at hgoal
  rcases List.mem_append.1 hgoal with hgoal | hgoal
  · unfold paramGoals at hgoal
    split at hgoal
    · rename_i wantedParams offeredParams hw ho
      rw [hw, ho] at hparams
      rw [← List.map_uncurry_zip_eq_zipWith] at hgoal
      obtain ⟨⟨a, b⟩, hab, rfl⟩ := List.mem_map.1 hgoal
      exact ⟨a, b, rfl, (List.forall₂_iff_zip.1 hparams).2 hab⟩
    · cases hgoal
  · exact ⟨_, _, List.mem_singleton.1 hgoal, hresult⟩

/-- What a pair of subtypes asks for are pairs of subtypes. -/
lemma goals_of_rule {g : TypeGraph} (hkeyed : g.Keyed) {left right : TypeId} (hne : left ≠ right)
    (h : g.IsSubtype left right) : g.AsksSubtypes (g.expand left right).2 := by
  have hnil : g.AsksSubtypes [] := fun goal hgoal => absurd hgoal List.not_mem_nil
  unfold expand
  simp only [node?_establish]
  cases h.rule with
  | refl heq => exact absurd heq hne
  | bottom hleft =>
    simp only [hleft]
    exact hnil
  | labels hleft hright =>
    simp only [hleft, hright, if_true]
    exact hnil
  | classes hleft hright hfits =>
    simp only [hleft, hright]
    exact hfits.asksSubtypes left
  | @inner name inner hleft hright hinner =>
    -- a label is below a class, or the least type, through its inner type
    have hone : g.AsksSubtypes [.below inner right] :=
      fun goal hgoal => ⟨inner, right, List.mem_singleton.1 hgoal, hinner⟩
    rcases hright with hright | hright
    · obtain ⟨n, hn, hkind⟩ := Option.map_eq_some_iff.1 hright
      cases n with
      | cls wanted =>
        simp only [hleft, hn]
        split
        · rename_i offered hi
          exact (fits_of_isSubtype hkeyed hinner hi hn).asksSubtypes left
        · exact hone
      | var | labeled | bottom => cases hkind
    · obtain ⟨n, hn, hkind⟩ := Option.map_eq_some_iff.1 hright
      cases n with
      | bottom =>
        simp only [hleft, hn]
        exact hone
      | var | labeled | cls => cases hkind

/-! ### The decision -/

/-- The rule for subtypes looks at the nodes of a graph only. -/
lemma SubtypeRule.congr {g g' : TypeGraph} (h : g'.node? = g.node?) {r : TypeId → TypeId → Prop}
    {left right : TypeId} (hrule : g.SubtypeRule r left right) :
    g'.SubtypeRule r left right := by
  have hkind : g'.kind? = g.kind? := by
    funext t
    rw [kind?, kind?, h]
  cases hrule with
  | refl heq => exact .refl heq
  | bottom hleft => exact .bottom (h ▸ hleft)
  | labels hleft hright => exact .labels (h ▸ hleft) (h ▸ hright)
  | classes hleft hright hfits => exact .classes (h ▸ hleft) (h ▸ hright) hfits
  | inner hleft hright hinner => exact .inner (h ▸ hleft) (hkind ▸ hright) hinner

/-- Subtypes depend on the nodes of a graph only. -/
lemma IsSubtype.congr {g g' : TypeGraph} (h : g'.node? = g.node?) {left right : TypeId}
    (hsub : g.IsSubtype left right) : g'.IsSubtype left right :=
  .of_closed (fun _ _ hab => hab.rule.congr h) hsub

/-- Work on goals that ask for subtypes meets no conflict. -/
lemma solve_clean_of_isSubtype {g : TypeGraph} {goals : List Goal} (hfree : g.VariableFree)
    (hkeyed : g.Keyed) (hgoals : g.AsksSubtypes goals) : (g.solve goals).2 = [] := by
  induction g, goals using solve_induction with
  | nil g => rw [solve_nil]
  | conflict g c rest ih =>
    obtain ⟨a, b, heq, -⟩ := hgoals _ (List.mem_cons_self ..)
    cases heq
  | opened g left right rest h ih =>
    have hgrows : g.Grows (g.expand left right).1 := (expands h.2.1 h.2.2.1).grows
    have hnode := hgrows.node?_eq hfree
    obtain ⟨a, b, heq, hsub⟩ := hgoals _ (List.mem_cons_self ..)
    cases heq
    rw [solve_open h]
    refine ih (fun t => hgrows.kind? ▸ hfree t) (fun t shape => hnode ▸ hkeyed t shape) ?_
    intro goal hgoal
    have hold : ∃ a b, goal = .below a b ∧ g.IsSubtype a b := by
      rcases List.mem_append.1 hgoal with hgoal | hgoal
      · exact goals_of_rule hkeyed h.1 hsub goal hgoal
      · exact hgoals goal (List.mem_cons_of_mem _ hgoal)
    obtain ⟨a, b, rfl, hab⟩ := hold
    exact ⟨a, b, rfl, hab.congr hnode⟩
  | closed g left right rest h ih =>
    rw [solve_closed h]
    exact ih hfree hkeyed fun goal hgoal => hgoals goal (List.mem_cons_of_mem _ hgoal)

/-- In a graph without variables in which nothing has gone wrong yet, an attempt to
put one type below another is sent exactly if the one is not a subtype of the other,
whatever cycles there are among the types and whatever has been established. -/
theorem sent_iff_not_isSubtype {g : TypeGraph} {attempts : List Attempt}
    (h : g.Reached attempts) (hunsent : ∀ a ∈ attempts, a.sent = false)
    (hfree : g.VariableFree) (hkeyed : g.Keyed) {left right : TypeId} (hleft : left < g.size)
    (hright : right < g.size) (line : Line) :
    ((Attempt.new line).constrain g left right).1.sent = true ↔ ¬g.IsSubtype left right := by
  have hgrows : g.Grows (g.constrain left right).1 := grows_solve g _
  have hnode := hgrows.node?_eq hfree
  constructor
  · intro hsent hsub
    have hclean : (g.constrain left right).2 = [] :=
      solve_clean_of_isSubtype hfree hkeyed fun goal hgoal =>
        ⟨left, right, List.mem_singleton.1 hgoal, hsub⟩
    rw [Attempt.sent_constrain, hclean] at hsent
    cases hsent
  · contrapose!
    intro hnot
    have hnext := h.constrain left right hleft hright line
    have hsimulation := established_simulation hnext fun a ha => by
      rcases List.mem_append.1 ha with ha | ha
      · exact hunsent a ha
      · rw [List.mem_singleton.1 ha]
        simpa using hnot
    have hbelow : (g.constrain left right).1.Below left right :=
      below_of_mem_goals (issuedGoals_pair hleft hright) h.issued (List.mem_singleton_self _)
    have hsub : (g.constrain left right).1.IsSubtype left right :=
      isSubtype_of_justified (fun t => hgrows.kind? ▸ hfree t) hsimulation hbelow
    exact hsub.congr hnode.symm

/-- Two classes that answer with themselves, of which the second has one more
method and has been put below the first: a label around the second is a subtype of
the first, and the first is no subtype of the second. -/
theorem sent_iff_not_isSubtype_recursive_classes :
    ∃ (g : TypeGraph) (attempts : List Attempt), g.Reached attempts ∧
      (∀ a ∈ attempts, a.sent = false) ∧
      g.nodes = #[.cls [(.getter "next", ⟨none, 0⟩)],
        .cls [(.getter "next", ⟨none, 1⟩), (.method "push" 1, ⟨some [0], 1⟩)],
        .labeled "Stack" 1] ∧
      g.established = [(1, 0)] ∧ g.IsSubtype 2 0 ∧ ¬g.IsSubtype 0 1 := by
  have hregular : Shape.IsRegular [] := by simp [Shape.IsRegular]
  have hclass := Reached.empty.cls hregular (by decide)
  have hlabel := @Reached.labeled _ _ (hclass.cls hregular (by decide)) "Stack" 1 (by decide)
  have hself := @Reached.addMethod _ hlabel 0 (.getter "next") ⟨none, 0⟩ rfl (by decide)
  have hother := @Reached.addMethod _ hself 1 (.getter "next") ⟨none, 1⟩ rfl (by decide)
  have hreached := @Reached.addMethod _ hother 1 (.method "push" 1) ⟨some [0], 1⟩ rfl (by decide)
  have hnext := hreached.constrain 1 0 (by decide) (by decide) 1
  obtain ⟨g, attempts, hg, hunsent, hnodes, hestablished, hbelow, habove⟩ :
      ∃ (g : TypeGraph) (attempts : List Attempt), g.Reached attempts ∧
        (∀ a ∈ attempts, a.sent = false) ∧
        g.nodes = #[.cls [(.getter "next", ⟨none, 0⟩)],
          .cls [(.getter "next", ⟨none, 1⟩), (.method "push" 1, ⟨some [0], 1⟩)],
          .labeled "Stack" 1] ∧
        g.established = [(1, 0)] ∧ ((Attempt.new 2).constrain g 2 0).1.sent = false ∧
        ((Attempt.new 2).constrain g 0 1).1.sent = true :=
    ⟨_, _, hnext, by simpa using by cbv, by cbv, by cbv, by cbv, by cbv⟩
  have hsize : g.size = 3 := by rw [TypeGraph.size, hnodes]; rfl
  have hnode : ∀ t, g.node? t = #[.cls [(.getter "next", ⟨none, 0⟩)],
      .cls [(.getter "next", ⟨none, 1⟩), (.method "push" 1, ⟨some [0], 1⟩)],
      .labeled "Stack" 1][t]? := fun t => by rw [node?, hnodes]
  have hfree : g.VariableFree := by
    intro t
    rw [kind?, hnode]
    rcases t with _ | _ | _ | t <;> simp [TypeNode.kind]
  have hkeyed : g.Keyed := by
    intro t shape hshape
    rw [hnode] at hshape
    rcases t with _ | _ | _ | t <;> simp at hshape <;> subst hshape <;> decide
  have hlt : 0 < g.size ∧ 1 < g.size ∧ 2 < g.size := by rw [hsize]; decide
  refine ⟨g, attempts, hg, hunsent, hnodes, hestablished, ?_, ?_⟩
  · by_contra hnot
    have hsent := (sent_iff_not_isSubtype hg hunsent hfree hkeyed hlt.2.2 hlt.1 2).2 hnot
    rw [hbelow] at hsent
    cases hsent
  · exact (sent_iff_not_isSubtype hg hunsent hfree hkeyed hlt.1 hlt.2.1 2).1 habove

end TypeGraph

end Ember
