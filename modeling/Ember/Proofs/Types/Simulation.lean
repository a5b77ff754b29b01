/-
What the established pairs of a graph mean: without a conflict they form a
simulation, so that whatever is asked of a type is offered by every type below
it.

* `TypeGraph.Fits`: the rule for two shapes, with parameters the other way
  round than results;
* `TypeGraph.Justified`: what a pair of types asks for, relative to a relation
  that holds of the pairs it leads to;
* `TypeGraph.Settled`: the invariant of the solver. Every established pair is
  justified by equal types, established pairs and goals still on the list;
* `Expands.settled`: one expansion keeps the invariant, since it puts all that
  the new pair asks for and all that a new bound asks for on the list;
* `justified_solve`: hence a list of goals is worked off without losing it;
* `established_simulation`: the pairs established by any sequence of operations
  without a conflict are justified by equal types and established pairs alone.
-/
import Mathlib
import Ember.Proofs.Types.Operations

namespace Ember

namespace TypeGraph

/-! ### The simulation rules -/

/-- A signature that is offered fits one that is wanted. -/
def FitsSignature (r : TypeId → TypeId → Prop) (offered wanted : Signature) : Prop :=
  List.Forall₂ r (wanted.params.getD []) (offered.params.getD []) ∧
    r offered.result wanted.result

/-- Every method that is wanted is offered with a signature that fits. -/
def Fits (r : TypeId → TypeId → Prop) (offered wanted : Shape) : Prop :=
  ∀ method expected, (method, expected) ∈ wanted →
    ∃ signature, offered.find? method = some signature ∧ FitsSignature r signature expected

/-- What it takes for the left type to be below the right one, where `r` holds
of the pairs that this leads to. Labels go by their names and classes by their
methods; a variable knows the right type above it or the left one below it, and
what is known on its other side follows; a label stands for its inner type
otherwise. There is no rule for a class below a label or below the least type. -/
inductive Justified (g : TypeGraph) (r : TypeId → TypeId → Prop) (left right : TypeId) : Prop
  | bottom (hleft : g.node? left = some .bottom)
  | labels {name : String} {a b : TypeId} (hleft : g.node? left = some (.labeled name a))
      (hright : g.node? right = some (.labeled name b))
  | classes {offered wanted : Shape} (hleft : g.node? left = some (.cls offered))
      (hright : g.node? right = some (.cls wanted)) (hfits : Fits r offered wanted)
  | varLeft {upper lower : List TypeId} (hleft : g.node? left = some (.var upper lower))
      (hupper : right ∈ upper) (hlower : ∀ t ∈ lower, r t right)
  | varRight {upper lower : List TypeId}
      (hleft : g.kind? left = some .labeled ∨ g.kind? left = some .cls)
      (hright : g.node? right = some (.var upper lower)) (hlower : left ∈ lower)
      (hupper : ∀ t ∈ upper, r left t)
  | labelShape {name : String} {inner : TypeId} {offered wanted : Shape}
      (hleft : g.node? left = some (.labeled name inner))
      (hinner : g.node? inner = some (.cls offered))
      (hright : g.node? right = some (.cls wanted)) (hfits : Fits r offered wanted)
  | labelInner {name : String} {inner : TypeId}
      (hleft : g.node? left = some (.labeled name inner))
      (hright : g.kind? right = some .cls ∨ g.kind? right = some .bottom)
      (hnot : g.kind? right = some .cls → g.kind? inner ≠ some .cls) (hinner : r inner right)

/-- The left type is the right one or has been put below it. -/
def Below (g : TypeGraph) (left right : TypeId) : Prop :=
  left = right ∨ (left, right) ∈ g.established

/-- The left type is below the right one or will be. -/
def BelowOr (g : TypeGraph) (goals : List Goal) (left right : TypeId) : Prop :=
  g.Below left right ∨ .below left right ∈ goals

section Monotone

variable {g g' : TypeGraph} {r r' : TypeId → TypeId → Prop}

/-- A signature fits where the relation holds of more. -/
lemma FitsSignature.mono (hr : ∀ a b, r a b → r' a b) {offered wanted : Signature}
    (h : FitsSignature r offered wanted) : FitsSignature r' offered wanted :=
  ⟨h.1.imp fun a b => hr a b, hr _ _ h.2⟩

/-- A shape fits where the relation holds of more. -/
lemma Fits.mono (hr : ∀ a b, r a b → r' a b) {offered wanted : Shape}
    (h : Fits r offered wanted) : Fits r' offered wanted := by
  intro method expected hm
  obtain ⟨signature, hs, hfit⟩ := h method expected hm
  exact ⟨signature, hs, hfit.mono hr⟩

/-- A justified pair stays so when more bounds become known, as long as what the
new bounds ask for is taken care of. -/
lemma Justified.mono {left right : TypeId} (h : g.Justified r left right)
    (hr : ∀ a b, r a b → r' a b) (hg : g.Grows g')
    (hlower : right ∈ g.upper left → ∀ t ∈ g'.lower left, t ∈ g.lower left ∨ r' t right)
    (hupper : left ∈ g.lower right → ∀ t ∈ g'.upper right, t ∈ g.upper right ∨ r' left t) :
    g'.Justified r' left right := by
  cases h with
  | bottom hleft => exact .bottom (hg.bottom hleft)
  | labels hleft hright => exact .labels (hg.labeled hleft) (hg.labeled hright)
  | classes hleft hright hfits =>
    exact .classes (hg.cls hleft) (hg.cls hright) (hfits.mono hr)
  | varLeft hleft hmem hold =>
    obtain ⟨upper, lower, hleft', hsub, -⟩ := hg.var hleft
    rw [upper_eq hleft, lower_eq hleft, lower_eq hleft'] at hlower
    exact .varLeft hleft' (hsub hmem) fun t ht =>
      (hlower hmem t ht).elim (fun ht => hr _ _ (hold t ht)) id
  | varRight hleft hright hmem hold =>
    obtain ⟨upper, lower, hright', -, hsub⟩ := hg.var hright
    rw [upper_eq hright, lower_eq hright, upper_eq hright'] at hupper
    rw [← hg.kind?] at hleft
    exact .varRight hleft hright' (hsub hmem) fun t ht =>
      (hupper hmem t ht).elim (fun ht => hr _ _ (hold t ht)) id
  | labelShape hleft hinner hright hfits =>
    exact .labelShape (hg.labeled hleft) (hg.cls hinner) (hg.cls hright) (hfits.mono hr)
  | labelInner hleft hright hnot hinner =>
    rw [← hg.kind?] at hright
    rw [← hg.kind?, ← hg.kind?] at hnot
    exact .labelInner (hg.labeled hleft) hright hnot (hr _ _ hinner)

end Monotone

/-! ### One expansion -/

/-- The goals that two lists of types of one length lead to relate them one by
one. -/
lemma forall₂_of_zipWith {as bs : List TypeId} {goals : List Goal}
    (hlength : as.length = bs.length)
    (h : ∀ goal ∈ List.zipWith Goal.below as bs, goal ∈ goals) :
    List.Forall₂ (fun a b => .below a b ∈ goals) as bs := by
  induction as generalizing bs with
  | nil =>
    cases bs with
    | nil => exact .nil
    | cons => cases hlength
  | cons a as ih =>
    cases bs with
    | nil => cases hlength
    | cons b bs =>
      refine .cons (h _ (List.mem_cons_self ..)) (ih (Nat.succ.inj hlength) fun goal hgoal => ?_)
      exact h goal (List.mem_cons_of_mem _ hgoal)

/-- Without a conflict, the goals of two shapes make the one fit the other. -/
lemma fits_of_shapeGoals {shown : TypeId} {offered wanted : Shape}
    (hoffered : offered.IsRegular) (hwanted : wanted.IsRegular)
    (hclean : ∀ c, .conflict c ∉ shapeGoals shown offered wanted) :
    Fits (fun a b => .below a b ∈ shapeGoals shown offered wanted) offered wanted := by
  intro method expected hm
  have hgoals : ∀ goal ∈ methodGoals shown offered (method, expected),
      goal ∈ shapeGoals shown offered wanted := fun goal hgoal => mem_shapeGoals.2 ⟨_, hm, hgoal⟩
  unfold methodGoals at hgoals
  cases hs : offered.find? method with
  | none =>
    rw [hs] at hgoals
    exact absurd (hgoals _ (List.mem_singleton_self _)) (hclean _)
  | some signature =>
    rw [hs] at hgoals
    refine ⟨signature, rfl, ?_, hgoals _ (List.mem_append_right _ (List.mem_singleton_self _))⟩
    have hlength : expected.params.map List.length = signature.params.map List.length :=
      (hwanted _ hm).trans (hoffered _ (Shape.find?_mem hs)).symm
    have hparams := fun goal h => hgoals goal (List.mem_append_left _ h)
    cases he : expected.params with
    | none =>
      cases hp : signature.params with
      | none => exact .nil
      | some given => rw [he, hp] at hlength; cases hlength
    | some wantedParams =>
      cases hp : signature.params with
      | none => rw [he, hp] at hlength; cases hlength
      | some given =>
        rw [he, hp] at hlength hparams
        exact forall₂_of_zipWith (by simpa using hlength) hparams

/-- Without a conflict, a pair that has been expanded is justified by its goals. -/
lemma Expands.justified {g g' : TypeGraph} {left right : TypeId} {goals : List Goal}
    (h : Expands g left right g' goals) (hg : g.Regular)
    (hclean : ∀ c, .conflict c ∉ goals) :
    g'.Justified (fun a b => .below a b ∈ goals) left right := by
  cases h with
  | bottom hleft => exact .bottom hleft
  | labels hleft hright => exact .labels hleft hright
  | classes hleft hright =>
    exact .classes hleft hright (fits_of_shapeGoals (hg _ _ hleft) (hg _ _ hright) hclean)
  | @varLeft upper lower hleft =>
    have hnode : ((g.establish left right).addUpper left right).node? left =
        some (.var (addBound right upper) lower) := by
      rw [node?_addUpper, if_pos rfl, node?_establish, hleft]
      rfl
    exact .varLeft hnode (mem_addBound.2 (.inl rfl)) fun t ht => List.mem_map.2 ⟨t, ht, rfl⟩
  | @varRight upper lower hleft hright =>
    have hnode : ((g.establish left right).addLower right left).node? right =
        some (.var upper (addBound left lower)) := by
      rw [node?_addLower, if_pos rfl, node?_establish, hright]
      rfl
    refine .varRight ?_ hnode (mem_addBound.2 (.inl rfl)) fun t ht => List.mem_map.2 ⟨t, ht, rfl⟩
    rwa [(grows_addLower _ right left).kind?]
  | labelShape hleft hinner hright =>
    exact .labelShape hleft hinner hright
      (fits_of_shapeGoals (hg _ _ hinner) (hg _ _ hright) hclean)
  | labelInner hleft hright hnot =>
    exact .labelInner hleft hright hnot (List.mem_singleton_self _)
  | clash => exact absurd (List.mem_singleton_self _) (hclean _)

/-- The invariant of the solver: either a conflict is still to be met, or every
established pair is justified by what is established and what is still to be
put in order. -/
def Settled (g : TypeGraph) (goals : List Goal) : Prop :=
  (∃ c, .conflict c ∈ goals) ∨ ∀ p ∈ g.established, g.Justified (g.BelowOr goals) p.1 p.2

/-- A goal that is established is dropped from those to be settled. -/
lemma Settled.drop {g : TypeGraph} {left right : TypeId} {rest : List Goal}
    (hs : g.Settled (.below left right :: rest)) (h : g.Below left right) : g.Settled rest := by
  rcases hs with ⟨c, hc⟩ | hs
  · exact .inl ⟨c, by simpa using hc⟩
  · refine .inr fun p hp =>
      (hs p hp).mono ?_ (Grows.refl g) (fun _ _ => .inl) fun _ _ => .inl
    rintro a b (hab | hab)
    · exact .inl hab
    · rcases List.mem_cons.1 hab with heq | hab
      · cases heq
        exact .inl h
      · exact .inr hab

/-- A pair that is not open is in order already. -/
lemma below_of_not_isOpen {g : TypeGraph} {left right : TypeId} (h : ¬g.IsOpen left right)
    (hleft : left < g.size) (hright : right < g.size) : g.Below left right := by
  by_contra hnot
  rw [Below, not_or] at hnot
  exact h ⟨hnot.1, hleft, hright, hnot.2⟩

/-- An expansion keeps the invariant. -/
lemma Expands.settled {g g' : TypeGraph} {left right : TypeId} {goals rest : List Goal}
    (h : Expands g left right g' goals) (hg : g.Regular)
    (hestablished : g'.established = (left, right) :: g.established)
    (hs : g.Settled (.below left right :: rest)) : g'.Settled (goals ++ rest) := by
  -- if there is a conflict among the goals there is nothing to show
  by_cases hclean : ∃ c, .conflict c ∈ goals
  · obtain ⟨c, hc⟩ := hclean
    exact .inl ⟨c, List.mem_append_left _ hc⟩
  rcases hs with ⟨c, hc⟩ | hs
  · have hc : .conflict c ∈ rest := by simpa using hc
    exact .inl ⟨c, List.mem_append_right _ hc⟩
  right
  have hnew : ∀ a b, .below a b ∈ goals → g'.BelowOr (goals ++ rest) a b :=
    fun a b hab => .inr (List.mem_append_left _ hab)
  have hold : ∀ a b, g.BelowOr (.below left right :: rest) a b →
      g'.BelowOr (goals ++ rest) a b := by
    rintro a b ((rfl | hab) | hab)
    · exact .inl (.inl rfl)
    · exact .inl (.inr (hestablished ▸ List.mem_cons_of_mem _ hab))
    · rcases List.mem_cons.1 hab with heq | hab
      · cases heq
        exact .inl (.inr (hestablished ▸ List.mem_cons_self ..))
      · exact .inr (List.mem_append_right _ hab)
  intro p hp
  rw [hestablished] at hp
  rcases List.mem_cons.1 hp with rfl | hp
  -- the new pair is justified by its goals, and an older one by what it was before
  · refine (h.justified hg fun c hc => hclean ⟨c, hc⟩).mono hnew (Grows.refl g') ?_ ?_
    · exact fun _ t ht => .inl ht
    · exact fun _ t ht => .inl ht
  · refine (hs p hp).mono hold h.grows (fun hmem t ht => ?_) fun hmem t ht => ?_
    · refine (h.lower ht).imp_right ?_
      rintro ⟨hp₁, rfl, hgoal⟩
      exact hnew _ _ (hgoal _ (hp₁ ▸ hmem))
    · refine (h.upper ht).imp_right ?_
      rintro ⟨hp₂, rfl, hgoal⟩
      exact hnew _ _ (hgoal _ (hp₂ ▸ hmem))

/-! ### Whole lists of goals and sequences of operations -/

/-- Work without a conflict leaves every established pair justified by
established pairs. -/
lemma justified_solve {g : TypeGraph} {goals : List Goal} (hissued : g.Issued)
    (hregular : g.Regular) (hgoals : g.IssuedGoals goals) (hs : g.Settled goals)
    (hclean : (g.solve goals).2 = []) :
    ∀ p ∈ (g.solve goals).1.established,
      (g.solve goals).1.Justified (g.solve goals).1.Below p.1 p.2 := by
  induction g, goals using solve_induction with
  | nil g =>
    rw [solve_nil]
    rcases hs with ⟨c, hc⟩ | hs
    · cases hc
    · intro p hp
      refine (hs p hp).mono ?_ (Grows.refl g) (fun _ _ => .inl) fun _ _ => .inl
      rintro a b (hab | hab)
      · exact hab
      · cases hab
  | conflict g c rest ih =>
    rw [solve_conflict] at hclean
    cases hclean
  -- an expansion keeps the goals settled
  | opened g left right rest h ih =>
    have hexpands := expands h.2.1 h.2.2.1
    have hnext := hexpands.issued hissued h.2.1 h.2.2.1
    rw [solve_open h] at hclean ⊢
    refine ih hnext.1 (hexpands.grows.regular hregular) (fun goal hgoal t ht => ?_)
      (hexpands.settled hregular (established_expand g left right) hs) hclean
    rw [size_expand]
    rcases List.mem_append.1 hgoal with hgoal | hgoal
    · exact hnext.2 goal hgoal t ht
    · exact hgoals goal (List.mem_cons_of_mem _ hgoal) t ht
  | closed g left right rest h ih =>
    rw [solve_closed h] at hclean ⊢
    refine ih hissued hregular (fun goal hgoal => hgoals goal (List.mem_cons_of_mem _ hgoal))
      (hs.drop (below_of_not_isOpen h ?_ ?_)) hclean
    · exact hgoals _ (List.mem_cons_self ..) left (List.mem_cons_self ..)
    · exact hgoals _ (List.mem_cons_self ..) right (List.mem_cons_of_mem _ (List.mem_cons_self ..))

/-- The rules say nothing about types that have not been issued. -/
lemma Justified.push {g : TypeGraph} {r : TypeId → TypeId → Prop} {left right : TypeId}
    (h : g.Justified r left right) (hissued : g.Issued) (n : TypeNode) :
    (g.push n).2.Justified r left right := by
  have hnode : ∀ t < g.size, (g.push n).2.node? t = g.node? t := fun t ht => by
    rw [node?_push, if_neg (Nat.ne_of_lt ht)]
  have hkind : ∀ t k, g.kind? t = some k → (g.push n).2.kind? t = some k := by
    intro t k hk
    obtain ⟨m, hm, -⟩ := Option.map_eq_some_iff.1 hk
    rwa [kind?, hnode t (node?_lt hm)]
  have hsome : ∀ t m, g.node? t = some m → (g.push n).2.node? t = some m := fun t m hm => by
    rwa [hnode t (node?_lt hm)]
  cases h with
  | bottom hleft => exact .bottom (hsome _ _ hleft)
  | labels hleft hright => exact .labels (hsome _ _ hleft) (hsome _ _ hright)
  | classes hleft hright hfits => exact .classes (hsome _ _ hleft) (hsome _ _ hright) hfits
  | varLeft hleft hmem hold => exact .varLeft (hsome _ _ hleft) hmem hold
  | varRight hleft hright hmem hold =>
    exact .varRight (hleft.imp (hkind _ _) (hkind _ _)) (hsome _ _ hright) hmem hold
  | labelShape hleft hinner hright hfits =>
    exact .labelShape (hsome _ _ hleft) (hsome _ _ hinner) (hsome _ _ hright) hfits
  | @labelInner name inner hleft hright hnot hinner =>
    have hlt : inner < g.size := hissued _ _ hleft inner (List.mem_singleton_self _)
    have hright' : (g.push n).2.kind? right = g.kind? right := by
      rcases hright with hk | hk <;> rw [hk, hkind _ _ hk]
    have hinner' : (g.push n).2.kind? inner = g.kind? inner := by
      rw [kind?, hnode inner hlt, kind?]
    refine .labelInner (hsome _ _ hleft) (hright' ▸ hright) ?_ hinner
    rwa [hright', hinner']

/-- Before the first attempt nothing is established. -/
lemma Reached.established_eq_nil {g : TypeGraph} {attempts : List Attempt}
    (h : g.Reached attempts) (hnil : attempts = []) : g.established = [] := by
  induction h with
  | empty => rfl
  | fresh _ ih | labeled _ _ _ ih | cls _ _ _ ih | bottom _ ih => exact ih hnil
  | addMethod _ _ _ _ ih => exact ih hnil
  | constrain => exact absurd hnil (by simp)

/-- The pairs established by any sequence of operations in which no attempt was
sent form a simulation: each of them is justified by equal types and established
pairs. -/
theorem established_simulation {g : TypeGraph} {attempts : List Attempt}
    (h : g.Reached attempts) (hunsent : ∀ a ∈ attempts, a.sent = false) :
    ∀ p ∈ g.established, g.Justified g.Below p.1 p.2 := by
  induction h with
  | empty => exact fun p hp => absurd hp List.not_mem_nil
  | fresh h ih => exact fun p hp => (ih hunsent p hp).push h.issued _
  | labeled h name _ ih => exact fun p hp => (ih hunsent p hp).push h.issued _
  | cls h _ _ ih => exact fun p hp => (ih hunsent p hp).push h.issued _
  | bottom h ih => exact fun p hp => (ih hunsent p hp).push h.issued _
  | addMethod h t hmatches hissued _ =>
    intro p hp
    rw [(h.addMethod t hmatches hissued).established_eq_nil rfl] at hp
    cases hp
  | @constrain g attempts h left right hleft hright line ih =>
    have hold := ih fun a ha => hunsent a (List.mem_append_left _ ha)
    have hnew := hunsent _ (List.mem_append_right _ (List.mem_singleton_self _))
    rw [Attempt.sent_constrain] at hnew
    have hclean : (g.constrain left right).2 = [] := by simpa using hnew
    rw [Attempt.graph_constrain]
    refine justified_solve h.issued h.regular (fun goal hgoal t ht => ?_) (.inr fun p hp => ?_)
      hclean
    · obtain rfl := List.mem_singleton.1 hgoal
      simp only [Goal.types, List.mem_cons, List.not_mem_nil, or_false] at ht
      rcases ht with rfl | rfl
      · exact hleft
      · exact hright
    · exact (hold p hp).mono (fun a b => .inl) (Grows.refl g) (fun _ _ => .inl) fun _ _ => .inl

/-- A class flows through a variable to a class that wants one of its methods,
and the types of the method are put in order. -/
theorem established_simulation_through_variable :
    ∃ (g : TypeGraph) (attempts : List Attempt), g.Reached attempts ∧
      (∀ a ∈ attempts, a.sent = false) ∧
      g.established = [(1, 3), (1, 0), (2, 4), (3, 4), (2, 3)] ∧
      ∀ p ∈ g.established, g.Justified g.Below p.1 p.2 := by
  have hoffered : Shape.IsRegular [(.method "at" 1, ⟨some [0], 1⟩)] := by
    simp [Shape.IsRegular, Signature.Matches, Selector.method]
  have hwanted : Shape.IsRegular [(.method "at" 1, ⟨some [1], 3⟩)] := by
    simp [Shape.IsRegular, Signature.Matches, Selector.method]
  have hclasses := ((Reached.empty.fresh.fresh.cls hoffered (by decide)).fresh.cls hwanted
    (by decide))
  have hreached :=
    (hclasses.constrain 2 3 (by decide) (by decide) 1).constrain 3 4 (by cbv) (by cbv) 2
  refine ⟨_, _, hreached, ?hunsent, by cbv, established_simulation hreached ?hunsent⟩
  simp only [List.nil_append, List.cons_append, List.forall_mem_cons]
  exact ⟨by cbv, by cbv, fun _ h => absurd h List.not_mem_nil⟩

end TypeGraph

end Ember
