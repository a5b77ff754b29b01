/-
Resolution follows the scoping rules, whatever mistakes a program has.

* `Scope.Mirrors`, `Scopes.Mirrored`: a binding table holds what has been
  declared last by each name;
* `Resolve.Follows`: a step that keeps its binding tables so and whose answer
  stands in a given relation to the surroundings and the globals;
* `Resolve.Walks`: the same of a step that adds to the innermost scope;
* `follows_resolveExpr`, `walks_resolveStmts`, `follows_resolveMethods`: the walk
  over the program;
* `resolve_scoped`: a whole program;
* `resolve_lexical`: what follows for the names around a nested part of it.
-/
import Mathlib
import Ember.Proofs.Scope.Census
import Ember.Proofs.Scope.Lexical

namespace Ember

/-! ### Binding tables -/

namespace Scope

/-- Each name stands for its most recent declaration among the given ones. -/
def Mirrors (s : Scope) (ds : List (Slot × String)) : Prop :=
  ∀ name, (s.find? name).map Binding.slot = latest? name ds

/-- Nothing is bound in an empty scope, and nothing is declared. -/
lemma mirrors_empty : empty.Mirrors [] := fun _ => rfl

variable {s t : Scope} {ds : List (Slot × String)}

/-- A scope that is the same mirrors the same declarations. -/
lemma Mirrors.same (h : s.Mirrors ds) (same : s.Same t) : t.Mirrors ds := by
  intro name
  have slots := congrArg (Option.map Binding.slot) (same.find name)
  simp only [Option.map_map] at slots
  rw [← h name]
  exact slots

/-- A binding that is put into a table is the most recent one. -/
lemma Mirrors.put (h : s.Mirrors ds) (b : Binding) :
    (s.put b).Mirrors (ds ++ [(b.slot, b.text)]) := by
  intro name
  rw [latest?_concat]
  by_cases e : b.text = name
  · rw [if_pos e, ← e, find?_put_self, Option.map_some]
  · rw [if_neg e, find?_put_of_ne s e, h name]

/-- A binding may take the place of one with its slot. -/
lemma Mirrors.replace (h : s.Mirrors ds) {b c : Binding} (hc : s.find? b.text = some c)
    (slot : b.slot = c.slot) : (s.put b).Mirrors ds := by
  intro name
  by_cases e : b.text = name
  · rw [← e, find?_put_self, ← h, hc, Option.map_some, Option.map_some, slot]
  · rw [find?_put_of_ne s e, h name]

end Scope

namespace Scopes

/-- The binding tables of all scopes hold what has been declared in them. -/
structure Mirrored (st : Scopes) : Prop where
  scopes : ∀ s ∈ st.scopes, s.Mirrors s.names
  globals : st.globalScope.Mirrors st.globals

/-- The surroundings that a state stands for, once the sides of the classes are
known. -/
def around (st : Scopes) (sides : List FieldScope) : Surroundings :=
  ⟨st.scopes.map Scope.names, sides⟩

/-- Scopes that are the same have the same names. -/
lemma names_same {scopes scopes' : List Scope} (h : List.Forall₂ Scope.Same scopes scopes') :
    scopes'.map Scope.names = scopes.map Scope.names := by
  induction h with
  | nil => rfl
  | cons hs _ ih => rw [List.map_cons, List.map_cons, ih, hs.names]

/-- Scopes that are the same mirror their names if the others do. -/
lemma mirrors_same {scopes scopes' : List Scope} (h : List.Forall₂ Scope.Same scopes scopes')
    (mirrors : ∀ s ∈ scopes, s.Mirrors s.names) : ∀ s ∈ scopes', s.Mirrors s.names := by
  induction h with
  | nil => exact mirrors
  | cons hs _ ih =>
    rw [List.forall_mem_cons] at mirrors ⊢
    exact ⟨hs.names.symm ▸ mirrors.1.same hs, ih mirrors.2⟩

/-- A state evolves with the same surroundings. -/
lemma Evolves.around {st st' : Scopes} (h : st.Evolves st') (sides : List FieldScope) :
    st'.around sides = st.around sides := by
  rw [Scopes.around, names_same h.scopes, Scopes.around]

/-- A state still mirrors its declarations if its globals do. -/
lemma Evolves.mirrored {st st' : Scopes} (h : st.Evolves st') (mirrored : st.Mirrored)
    (globals : st'.globalScope.Mirrors st'.globals) : st'.Mirrored :=
  ⟨mirrors_same h.scopes mirrored.scopes, globals⟩

end Scopes

namespace Resolve

variable {α β : Type}

/-! ### Steps that follow a rule -/

/-- A step that keeps the binding tables, and whose answer stands in the relation
`J` to the surroundings and to the globals before and after it. Of the sides of
classes the relation is given all fields, also those that are seen later. -/
def FollowsAt (st : Scopes) (x : Resolve α)
    (J : Surroundings → List (Slot × String) → α → List (Slot × String) → Prop) : Prop :=
  st.Evolves (x.after st) ∧ (st.Mirrored → (x.after st).Mirrored ∧
    ∀ sides, List.Forall₂ FieldScope.Grows (x.after st).fieldScopes sides →
      J (st.around sides) st.globals (x.answer st) (x.after st).globals)

/-- The same wherever the step starts. -/
def Follows (x : Resolve α)
    (J : Surroundings → List (Slot × String) → α → List (Slot × String) → Prop) : Prop :=
  ∀ st, FollowsAt st x J

variable {st : Scopes} {x : Resolve α} {f : α → Resolve β}
  {J J' : Surroundings → List (Slot × String) → α → List (Slot × String) → Prop}
  {L : Surroundings → List (Slot × String) → β → List (Slot × String) → Prop}

/-- What holds of a first step, the second one may rely on. -/
lemma FollowsAt.bind (hx : FollowsAt st x J)
    (hf : FollowsAt (x.after st) (f (x.answer st)) fun Γ g' b g'' =>
      ∀ g, J Γ g (x.answer st) g' → L Γ g b g'') : FollowsAt st (x >>= f) L := by
  refine ⟨hx.1.trans hf.1, fun mirrored => ?_⟩
  obtain ⟨mirrored', first⟩ := hx.2 mirrored
  obtain ⟨mirrored'', second⟩ := hf.2 mirrored'
  refine ⟨mirrored'', fun sides known => ?_⟩
  have all := second sides known
  rw [hx.1.around] at all
  exact all _ (first sides (forall₂_trans .trans hf.1.fields known))

/-- Steps in any state, one after the other. -/
lemma Follows.bind (hx : Follows x J)
    (hf : ∀ a, Follows (f a) fun Γ g' b g'' => ∀ g, J Γ g a g' → L Γ g b g'') :
    Follows (x >>= f) L :=
  fun st => (hx st).bind (hf _ _)

/-- A result that is at hand follows what holds of it. -/
lemma Follows.pure {a : α} (h : ∀ Γ g, J Γ g a g) : Follows (pure a) J :=
  fun st => ⟨.refl st, fun mirrored => ⟨mirrored, fun _ _ => h _ _⟩⟩

/-- What is followed may say less. -/
lemma FollowsAt.imp (hx : FollowsAt st x J) (h : ∀ Γ g a g', J Γ g a g' → J' Γ g a g') :
    FollowsAt st x J' :=
  ⟨hx.1, fun mirrored => ⟨(hx.2 mirrored).1, fun sides known =>
    h _ _ _ _ ((hx.2 mirrored).2 sides known)⟩⟩

/-- The same for steps in any state. -/
lemma Follows.imp (hx : Follows x J) (h : ∀ Γ g a g', J Γ g a g' → J' Γ g a g') : Follows x J' :=
  fun st => (hx st).imp h

/-- A step that makes no global. -/
lemma FollowsAt.quiet (evolves : st.Evolves (x.after st))
    (globalScope : (x.after st).globalScope = st.globalScope)
    (globals : (x.after st).globals = st.globals)
    (answer : st.Mirrored → ∀ sides, List.Forall₂ FieldScope.Grows (x.after st).fieldScopes sides →
      J (st.around sides) st.globals (x.answer st) st.globals) : FollowsAt st x J := by
  refine ⟨evolves, fun mirrored => ⟨evolves.mirrored mirrored ?_, fun sides known => ?_⟩⟩
  · rw [globalScope, globals]
    exact mirrored.globals
  · rw [globals]
    exact answer mirrored sides known

/-- A fresh slot adds no global. -/
lemma follows_fresh : Follows fresh fun _ g _ g' => g' = g :=
  fun st => .quiet (evolves_fresh st) rfl rfl fun _ _ _ => rfl

/-- A report adds no global. -/
lemma follows_report (p : ScopeProblem) : Follows (report p) fun _ g _ g' => g' = g :=
  fun st => .quiet (evolves_report p st) rfl rfl fun _ _ _ => rfl

/-- A step before which a mistake may be noted. -/
lemma follows_reportIf (c : Prop) [Decidable c] (p : ScopeProblem) (hx : Follows x J) :
    Follows (if c then (do report p; x) else x) J := by
  by_cases h : c
  · simp only [if_pos h]
    refine (follows_report p).bind fun _ => hx.imp fun Γ g' a g'' hJ g hg => ?_
    exact hg ▸ hJ
  · simp only [if_neg h]
    exact hx

/-! ### Uses of names -/

/-- A hole is filled with a new global. -/
lemma follows_fillHole (name : Name) :
    Follows (fillHole name) fun _ g s g' => g' = g ++ [(s, name.text)] := by
  intro st
  have sees : SeesAt false st (fun _ => True) (fillHole name) fun v s => s ∈ v :=
    sees_fillHole name st
  exact ⟨sees.1, fun mirrored => ⟨sees.1.mirrored mirrored (mirrored.globals.put _),
    fun _ _ => rfl⟩⟩

/-- A mistake whose hole is filled with a new global. -/
lemma follows_hole (p : ScopeProblem) (name : Name) :
    Follows (do report p; fillHole name) fun _ g s g' => g' = g ++ [(s, name.text)] := by
  intro st
  refine (follows_report p st).bind ((follows_fillHole name _).imp ?_)
  rintro Γ _ s g' rfl g rfl
  rfl

/-- The nearest binding of a name has the slot of the declaration that the name
stands for. -/
lemma slot_useIn (enclosing : List Slot) (name : String) {scopes : List Scope}
    (mirrors : ∀ s ∈ scopes, s.Mirrors s.names) :
    (useIn enclosing name scopes).map (fun r => r.1.slot) =
      (scopes.map Scope.names).findSome? (latest? name) := by
  induction scopes with
  | nil => rfl
  | cons s rest ih =>
    rw [List.forall_mem_cons] at mirrors
    have here := mirrors.1 name
    rw [useIn, List.map_cons, List.findSome?_cons, ← here]
    cases s.find? name with
    | some b => rfl
    | none =>
      have there := ih mirrors.2
      rw [Option.map_none]
      rw [← there]
      cases useIn enclosing name rest <;> rfl

/-- A name is looked up in the scopes around, and among the globals after that. -/
lemma follows_lookup? (name : String) :
    Follows (lookup? name) fun Γ g o g' => g' = g ∧ o.map Binding.slot = Γ.named? g name := by
  intro st
  have evolves : st.Evolves ((lookup? name).after st) := (lookup?_spec false name st).1
  refine ⟨evolves, fun mirrored => ?_⟩
  have near := slot_useIn st.enclosing name mirrored.scopes
  have far := mirrored.globals name
  simp only [Surroundings.named?, Surroundings.local?, Scopes.around, ← near, ← far]
  suffices globals : ((lookup? name).after st).globalScope.Mirrors st.globals ∧
      ((lookup? name).after st).globals = st.globals ∧
      ((lookup? name).answer st).map Binding.slot =
        ((useIn st.enclosing name st.scopes).map fun r => r.1.slot).or
          ((st.globalScope.find? name).map Binding.slot) by
    obtain ⟨mirrors, same, answer⟩ := globals
    exact ⟨evolves.mirrored mirrored (same ▸ mirrors), fun _ _ => ⟨same, answer⟩⟩
  simp only [answer, after]
  rw [run_lookup?]
  cases useIn st.enclosing name st.scopes with
  | some found => exact ⟨mirrored.globals, rfl, rfl⟩
  | none =>
    cases hg : st.globalScope.find? name with
    | some b =>
      exact ⟨mirrored.globals.same (Scope.same_put_markUsed hg st.enclosing), rfl, rfl⟩
    | none => exact ⟨mirrored.globals, rfl, rfl⟩

/-- A use of a variable gets the slot that its name stands for, or a new global. -/
lemma follows_namedSlot (name : Name) :
    Follows (namedSlot name) fun Γ g r g' => Use g name.text (Γ.named? g name.text) r.1 g' := by
  refine (follows_lookup? name.text).bind fun o => ?_
  cases o with
  | none =>
    have hole : Follows (do report (.undeclared name); return (← fillHole name, false))
        fun _ g r g' => g' = g ++ [(r.1, name.text)] :=
      Follows.bind (f := fun s => pure (s, false)) (follows_hole (.undeclared name) name) fun s =>
        Follows.pure fun _ _ _ hs => hs
    refine hole.imp ?_
    rintro Γ g r g' rfl g₀ ⟨rfl, none⟩
    rw [← none]
    exact .hole r.1
  | some b =>
    have found : Follows (pure (b.slot, decide (b.kind = .cls))) fun Γ g r g' =>
        ∀ g₀, g = g₀ ∧ some b.slot = Γ.named? g₀ name.text →
          Use g₀ name.text (Γ.named? g₀ name.text) r.1 g' := by
      refine Follows.pure fun Γ g g₀ h => ?_
      rw [← h.2, h.1]
      exact .known b.slot
    exact follows_reportIf _ _ found

/-- A variable that is assigned to gets its slot as any other use. -/
lemma follows_assigned (name : Name) :
    Follows (assigned name) fun Γ g s g' => Use g name.text (Γ.named? g name.text) s g' := by
  refine (follows_namedSlot name).bind fun r => ?_
  exact follows_reportIf _ _ (Follows.pure fun _ _ _ h => h)

end Resolve

/-! ### Fields -/

namespace FieldScope

/-- A side that has grown differs in its fields alone. -/
lemma Grows.eq {s t : FieldScope} (h : s.Grows t) : t = ⟨s.side, s.receiver, t.fields⟩ := by
  rw [← h.side, ← h.receiver]

/-- A field that is added to a side is found there. -/
lemma find?_concat (name : String) (s : FieldScope) (slot : Slot) (h : s.find? name = none) :
    FieldScope.find? { s with fields := s.fields ++ [(slot, name)] } name = some slot := by
  have none : findByKey? Prod.snd name s.fields = none := Option.map_eq_none_iff.1 h
  rw [findByKey?] at none
  simp [FieldScope.find?, findByKey?, List.find?_append, none]

/-- A field that is known stays so. -/
lemma Grows.find? {s t : FieldScope} (h : s.Grows t) {name : String} {slot : Slot}
    (found : s.find? name = some slot) : t.find? name = some slot := by
  obtain ⟨f, hf, rfl⟩ := Option.map_eq_some_iff.1 found
  obtain ⟨more, e⟩ := h.fields
  rw [findByKey?] at hf
  simp [FieldScope.find?, findByKey?, ← e, List.find?_append, hf]

/-- A side that is found among some is found among those they have grown to. -/
lemma find?_grows {fs gs : List FieldScope} (h : List.Forall₂ Grows fs gs) (side : Side) :
    Option.Rel Grows (fs.find? fun s => s.side = side) (gs.find? fun s => s.side = side) := by
  induction h with
  | nil => exact .none
  | cons hf _ ih =>
    rw [List.find?_cons, List.find?_cons, hf.side]
    split
    · exact .some hf
    · exact ih

/-- The innermost side is one that has grown. -/
lemma head?_grows {fs gs : List FieldScope} (h : List.Forall₂ Grows fs gs) :
    Option.Rel Grows fs.head? gs.head? := by
  cases h with
  | nil => exact .none
  | cons hf _ => exact .some hf

end FieldScope

namespace Resolve

/-- A field is added on the nearest side of its kind. -/
lemma find?_addField {side : Side} {field : Slot × String} {fs : List FieldScope} {s : FieldScope}
    (h : fs.find? (fun s => s.side = side) = some s) :
    (addField side field fs).find? (fun s => s.side = side) =
      some { s with fields := s.fields ++ [field] } := by
  induction fs with
  | nil => cases h
  | cons t rest ih =>
    rw [List.find?_cons] at h
    rw [addField]
    by_cases e : t.side = side
    · simp only [e, decide_true] at h
      cases h
      rw [if_pos e, List.find?_cons]
      simp [e]
    · simp only [e, decide_false] at h
      rw [if_neg e, List.find?_cons]
      simp only [e, decide_false]
      exact ih h

/-- The name of a field is looked up on the innermost side of one kind. -/
def Answers (side : Option FieldScope) (name : String) (o : Option Slot) : Prop :=
  match side with
  | none => o = none
  | some f => ∃ s, o = some s ∧ f.find? name = some s

/-- A look-up of a field answers with its slot on the nearest side of its kind, and adds no
global. -/
lemma follows_field? (side : Side) (name : String) :
    Follows (field? side name) fun Γ g o g' =>
      g' = g ∧ Answers (Γ.sides.find? fun s => s.side = side) name o := by
  intro st
  have evolves : st.Evolves ((field? side name).after st) := (sees_field? false side name st).1.1
  refine ⟨evolves, fun mirrored => ?_⟩
  suffices found : ((field? side name).after st).globalScope = st.globalScope ∧
      ((field? side name).after st).globals = st.globals ∧
      Answers (((field? side name).after st).fieldScopes.find? fun s => s.side = side) name
        ((field? side name).answer st) by
    obtain ⟨scope, globals, answers⟩ := found
    refine ⟨evolves.mirrored mirrored ?_, fun sides known => ⟨globals, ?_⟩⟩
    · rw [scope, globals]
      exact mirrored.globals
    · have grows := FieldScope.find?_grows known side
      simp only [Scopes.around]
      generalize sides.find? _ = g at grows
      generalize ((field? side name).after st).fieldScopes.find? _ = f at grows answers
      cases grows with
      | none => exact answers
      | some hf =>
        obtain ⟨s, hs, found⟩ := answers
        exact ⟨s, hs, hf.find? found⟩
  simp only [answer, after]
  rw [run_field?]
  cases hf : st.fieldScopes.find? fun s => s.side = side with
  | none =>
    simp only
    refine ⟨rfl, rfl, ?_⟩
    change Answers (st.fieldScopes.find? fun s => s.side = side) name none
    rw [hf]
    rfl
  | some f =>
    cases hn : f.find? name with
    | some slot =>
      simp only [hn]
      refine ⟨rfl, rfl, ?_⟩
      change Answers (st.fieldScopes.find? fun s => s.side = side) name (some slot)
      rw [hf]
      exact ⟨slot, rfl, hn⟩
    | none =>
      simp only [hn]
      refine ⟨rfl, rfl, ?_⟩
      change Answers ((addField side (st.nextSlot, name) st.fieldScopes).find? fun s =>
        s.side = side) name (some st.nextSlot)
      rw [find?_addField hf]
      exact ⟨st.nextSlot, rfl, FieldScope.find?_concat name f st.nextSlot hn⟩

/-- An answer is the slot of the field. -/
lemma Answers.use {side : Option FieldScope} {name : String} {slot : Slot}
    (h : Answers side name (some slot)) (g : List (Slot × String)) :
    FieldUse g name side slot g := by
  cases side with
  | none => cases h
  | some f =>
    obtain ⟨s, hs, found⟩ := h
    cases hs
    exact .known found

/-- Where there is no answer, the field gets a new global. -/
lemma Answers.hole {side : Option FieldScope} {name : String} (h : Answers side name none)
    (g : List (Slot × String)) (slot : Slot) :
    FieldUse g name side slot (g ++ [(slot, name)]) := by
  cases side with
  | none => exact .hole slot
  | some f =>
    obtain ⟨s, hs, _⟩ := h
    cases hs

/-- A field of a class is one of the nearest class around. -/
lemma follows_staticField (name : Name) :
    Follows (staticField name) fun Γ g s g' => FieldUse g name.text Γ.classSide? s g' := by
  refine (follows_field? _ _).bind fun o => ?_
  cases o with
  | none =>
    refine (follows_hole _ name).imp ?_
    rintro Γ g s g' rfl g₀ ⟨rfl, answers⟩
    exact answers.hole _ s
  | some slot =>
    refine Follows.pure ?_
    rintro Γ g g₀ ⟨rfl, answers⟩
    exact answers.use _

/-- Directly on the side of an instance that side is the innermost of its kind. -/
lemma instanceSide?_grows {st : Scopes} {sides : List FieldScope} {receiver : Slot}
    {fields : List (Slot × String)}
    (h : st.fieldScopes.head? = some ⟨.onInstance, receiver, fields⟩)
    (known : List.Forall₂ FieldScope.Grows st.fieldScopes sides) :
    (st.around sides).instanceSide? = sides.find? fun s => s.side = .onInstance := by
  obtain ⟨rest, e⟩ := List.head?_eq_some_iff.1 h
  rw [e] at known
  cases known with
  | cons hf hrest =>
    have side := hf.side
    simp [Scopes.around, Surroundings.instanceSide?, side]

/-- On no side of an instance, a field has nothing to stand for. -/
lemma instanceSide?_none {st : Scopes} {sides : List FieldScope}
    (h : ∀ f, st.fieldScopes.head? = some f → f.side = .onClass)
    (known : List.Forall₂ FieldScope.Grows st.fieldScopes sides) :
    (st.around sides).instanceSide? = none := by
  have grows := FieldScope.head?_grows known
  rw [Scopes.around, Surroundings.instanceSide?]
  generalize sides.head? = g at grows
  generalize st.fieldScopes.head? = f at grows h
  cases grows with
  | none => rfl
  | some hf =>
    have side := hf.side.trans (h _ rfl)
    simp [side]

/-- Where there is no instance around, a field of an instance gets a new global. -/
lemma FollowsAt.fieldHole {st : Scopes} {x : Resolve Slot} {name : Name}
    (h : ∀ f, st.fieldScopes.head? = some f → f.side = .onClass)
    (hole : FollowsAt st x fun _ g s g' => g' = g ++ [(s, name.text)]) :
    FollowsAt st x fun Γ g s g' => FieldUse g name.text Γ.instanceSide? s g' := by
  refine ⟨hole.1, fun mirrored => ⟨(hole.2 mirrored).1, fun sides known => ?_⟩⟩
  have made := (hole.2 mirrored).2 sides known
  beta_reduce at made ⊢
  rw [instanceSide?_none h (forall₂_trans .trans hole.1.fields known), made]
  exact .hole _

/-- A field of an instance is one of the innermost class, if its member belongs to
instances. -/
lemma follows_instanceField (name : Name) :
    Follows (instanceField name) fun Γ g s g' => FieldUse g name.text Γ.instanceSide? s g' := by
  intro st
  rw [FollowsAt, answer, after, run_instanceField]
  cases hh : st.fieldScopes.head? with
  | none =>
    refine FollowsAt.fieldHole (fun f hf => ?_) (follows_hole (.fieldOutsideClass name) name st)
    rw [hh] at hf
    cases hf
  | some f =>
    obtain ⟨side, receiver, fields⟩ := f
    cases side with
    | onClass =>
      refine FollowsAt.fieldHole (fun f hf => ?_)
        (follows_hole (.instanceFieldInStaticMethod name) name st)
      rw [hh] at hf
      cases hf
      rfl
    | onInstance =>
      obtain ⟨evolves, follows⟩ := follows_field? .onInstance name.text st
      obtain ⟨_, total⟩ := sees_field? false .onInstance name.text st
      refine FollowsAt.bind (x := field? .onInstance name.text)
        (J := fun Γ g o g' => g' = g ∧ Answers Γ.instanceSide? name.text o)
        (L := fun Γ g s g' => FieldUse g name.text Γ.instanceSide? s g')
        ⟨evolves, fun mirrored => ⟨(follows mirrored).1, fun sides known => ?_⟩⟩ ?_
      · beta_reduce
        rw [instanceSide?_grows hh (forall₂_trans .trans evolves.fields known)]
        exact (follows mirrored).2 sides known
      · cases ho : (field? .onInstance name.text).answer st with
        | some slot =>
          refine Follows.pure ?_ _
          rintro Γ g g₀ ⟨rfl, answers⟩
          exact answers.use _
        | none =>
          have absent := List.find?_eq_none.1 (total ho)
          exact absurd (decide_eq_true rfl) (absent _ (List.mem_of_mem_head? hh))

/-- The receiver is that of the innermost side, or a new global. -/
lemma follows_thisSlot (line : Line) :
    Follows (thisSlot line) fun Γ g s g' => Use g "this" Γ.receiver? s g' := by
  intro st
  rw [FollowsAt, answer, after, run_thisSlot]
  cases hh : st.fieldScopes.head? with
  | none =>
    obtain ⟨evolves, follows⟩ := follows_hole (.thisOutsideClass line) ⟨"this", line⟩ st
    refine ⟨evolves, fun mirrored => ⟨(follows mirrored).1, fun sides known => ?_⟩⟩
    have grows := FieldScope.head?_grows (forall₂_trans .trans evolves.fields known)
    have made := (follows mirrored).2 sides known
    simp only [Surroundings.receiver?, Scopes.around] at made ⊢
    rw [hh] at grows
    generalize sides.head? = g at grows
    cases grows
    exact made ▸ .hole _
  | some f =>
    refine FollowsAt.quiet (x := pure f.receiver)
      (J := fun Γ g s g' => Use g "this" Γ.receiver? s g') (.refl st) rfl rfl
        fun _ sides known => ?_
    have grows := FieldScope.head?_grows known
    simp only [Surroundings.receiver?, Scopes.around]
    rw [after_pure, hh] at grows
    generalize sides.head? = g at grows
    cases grows with
    | some hf =>
      rw [Option.map_some, hf.receiver]
      exact .known f.receiver

/-! ### Steps in the innermost scope -/

/-- A step that may add to the innermost scope, and whose answer stands in the
relation `J` to what has been left there before and after it. -/
def Walks (x : Resolve α) (J : Surroundings → Progress → α → Progress → Prop) : Prop :=
  ∀ (st : Scopes) s rest, st.scopes = s :: rest → ∃ s', Inside st s (x.after st) s' ∧
    (st.Mirrored → (x.after st).Mirrored ∧
      ∀ sides, List.Forall₂ FieldScope.Grows (x.after st).fieldScopes sides →
        J ⟨rest.map Scope.names, sides⟩ ⟨s.names, s.classes, st.globals⟩ (x.answer st)
          ⟨s'.names, s'.classes, (x.after st).globals⟩)

variable {α β : Type} {x : Resolve α} {f : α → Resolve β}
  {W : Surroundings → Progress → α → Progress → Prop}
  {V : Surroundings → Progress → β → Progress → Prop}

/-- Steps in a scope, one after the other. -/
lemma Walks.bind (hx : Walks x W)
    (hf : ∀ a, Walks (f a) fun Γ p' b p'' => ∀ p, W Γ p a p' → V Γ p b p'') :
    Walks (x >>= f) V := by
  intro st s rest e
  obtain ⟨s', inside, first⟩ := hx st s rest e
  obtain ⟨rest₁, rest', e₁, e', same⟩ := inside.scopes
  rw [e] at e₁
  cases e₁
  obtain ⟨s'', inside', second⟩ := hf (x.answer st) (x.after st) s' rest' e'
  refine ⟨s'', inside.trans inside', fun mirrored => ?_⟩
  obtain ⟨mirrored', first⟩ := first mirrored
  obtain ⟨mirrored'', second⟩ := second mirrored'
  refine ⟨mirrored'', fun sides known => ?_⟩
  have all := second sides known
  rw [Scopes.names_same same] at all
  exact all _ (first sides (forall₂_trans .trans inside'.fields known))

/-- A result that is at hand changes nothing in the scope. -/
lemma Walks.pure {a : α} (h : ∀ Γ p, W Γ p a p) : Walks (pure a) W := by
  intro st s rest e
  exact ⟨s, ⟨.refl st, rest, rest, e, e, List.forall₂_same.2 fun s _ => .refl s⟩,
    fun mirrored => ⟨mirrored, fun _ _ => h _ _⟩⟩

/-- What is known of a step in a scope may say less. -/
lemma Walks.imp {W' : Surroundings → Progress → α → Progress → Prop} (hx : Walks x W)
    (h : ∀ Γ p a p', W Γ p a p' → W' Γ p a p') : Walks x W' := by
  intro st s rest e
  obtain ⟨s', inside, walks⟩ := hx st s rest e
  exact ⟨s', inside, fun mirrored =>
    ⟨(walks mirrored).1, fun sides known => h _ _ _ _ ((walks mirrored).2 sides known)⟩⟩

/-- A step that adds nothing to the innermost scope. -/
lemma Follows.walks {J : Surroundings → List (Slot × String) → α → List (Slot × String) → Prop}
    (hx : Follows x J) : Walks x fun Γ p a p' =>
      p'.names = p.names ∧ p'.classes = p.classes ∧
        J (Γ.within p.names) p.globals a p'.globals := by
  intro st s rest e
  obtain ⟨evolves, follows⟩ := hx st
  obtain ⟨s', inside, same⟩ := evolves.inside e
  refine ⟨s', inside, fun mirrored => ⟨(follows mirrored).1, fun sides known => ?_⟩⟩
  refine ⟨same.names, same.classes, ?_⟩
  have all := (follows mirrored).2 sides known
  rw [Scopes.around, e, List.map_cons] at all
  exact all

/-- A change of the innermost scope. -/
lemma walks_modifyInnermost {change : Scope → Scope}
    {U : Surroundings → Progress → Unit → Progress → Prop}
    (h : ∀ s, s.Mirrors s.names → (change s).Mirrors (change s).names)
    (hW : ∀ Γ (s : Scope) g, U Γ ⟨s.names, s.classes, g⟩ ()
      ⟨(change s).names, (change s).classes, g⟩) : Walks (modifyInnermost change) U := by
  intro st s rest e
  have inside := inside_modifyInnermost change e
  have run : (modifyInnermost change).after st = { st with scopes := change s :: rest } := by
    simp only [modifyInnermost, after_modify, e]
  refine ⟨change s, inside, fun mirrored => ?_⟩
  have scopes := mirrored.scopes
  rw [run]
  rw [e, List.forall_mem_cons] at scopes
  refine ⟨⟨?_, mirrored.globals⟩, fun _ _ => hW _ _ _⟩
  exact List.forall_mem_cons.2 ⟨h s scopes.1, scopes.2⟩

/-- A declaration adds a slot to the innermost scope. -/
lemma walks_declare (name : Name) (kind : BindingKind) (initialized : Bool) :
    Walks (declare name kind initialized) fun _ p s p' =>
      p' = ⟨p.names ++ [(s, name.text)], p.classes, p.globals⟩ := by
  intro st s rest e
  have inside := inside_declare name kind initialized e
  obtain ⟨problems, _, run⟩ := after_declare name kind initialized e
  refine ⟨_, inside, fun mirrored => ?_⟩
  have scopes := mirrored.scopes
  rw [run, answer_declare]
  rw [e, List.forall_mem_cons] at scopes
  refine ⟨⟨?_, mirrored.globals⟩, fun _ _ => rfl⟩
  exact List.forall_mem_cons.2 ⟨scopes.1.put _, scopes.2⟩

/-- The slots that classes are hoisted with stand for their most recent
declarations, and those of the given names are among them. -/
structure Hoisting (hoisted : List (String × Slot)) (ds : List (Slot × String))
    (names : List String) : Prop where
  lookup : ∀ name, hoisted.lookup name = latest? name ds
  declared : names ⊆ ds.map Prod.snd

/-- Fewer names are declared as well. -/
lemma Hoisting.mono {hoisted : List (String × Slot)} {ds : List (Slot × String)}
    {names more : List String} (h : Hoisting hoisted ds more) (sub : names ⊆ more) :
    Hoisting hoisted ds names :=
  ⟨h.lookup, List.Subset.trans sub h.declared⟩

/-- All classes of a block are declared in order, each name with its latest slot. -/
lemma walks_hoist (body : List Syntax.Stmt) :
    Walks (hoist body) fun _ p hoisted p' => ∃ ds : List (Slot × String),
      ds.map Prod.snd = classNames body ∧ (∀ name, hoisted.lookup name = latest? name ds) ∧
        p' = ⟨p.names ++ ds, p.classes, p.globals⟩ := by
  induction body with
  | nil => exact Walks.pure fun _ p => ⟨[], rfl, fun _ => rfl, by rw [List.append_nil]⟩
  | cons x body ih =>
    cases x with
    | cls name methods =>
      refine (walks_declare name .cls true).bind fun slot => ih.bind fun later => Walks.pure ?_
      rintro Γ p'' p' ⟨ds, texts, lookup, rfl⟩ p rfl
      refine ⟨(slot, name.text) :: ds, ?_, fun t => ?_, ?_⟩
      · rw [List.map_cons, texts]
        rfl
      · rw [List.lookup_append, lookup, latest?, lookup_singleton]
        simp only [eq_comm]
      · rw [List.append_assoc]
        rfl
    | block _ | branch _ _ _ _ | loop _ _ _ | var _ _ | ret _ _ | eval _ =>
      exact ih.imp fun _ _ _ _ h => h

/-- What is done in a scope of its own ends with that scope. -/
lemma Walks.enclosed (hx : Walks x W) (make : α → Scope → β) :
    Follows (do openScope; let a ← x; let scope ← closeScope; return make a scope)
      fun Γ g b g' => ∃ a scope, b = make a scope ∧
        W Γ ⟨[], [], g⟩ a ⟨scope.names, scope.classes, g'⟩ := by
  intro st
  obtain ⟨s', inside, walks⟩ := hx (openScope.after st) .empty st.scopes rfl
  obtain ⟨answer, evolves, _, _⟩ := evolves_closeScope false inside
  obtain ⟨rest, rest', e, e', same⟩ := inside.scopes
  cases e
  obtain ⟨_, closed⟩ := after_closeScope e'
  have globals : (closeScope.after (x.after (openScope.after st))).globalScope =
      (x.after (openScope.after st)).globalScope := by
    rw [closed]
  refine ⟨evolves, fun mirrored => ?_⟩
  obtain ⟨mirrored', walks⟩ := walks
    ⟨List.forall_mem_cons.2 ⟨Scope.mirrors_empty, mirrored.scopes⟩, mirrored.globals⟩
  refine ⟨evolves.mirrored mirrored ?_, fun sides known => ?_⟩
  · rw [globals, closed]
    exact mirrored'.globals
  · simp only [after_bind, answer_bind, after_pure, answer_pure, answer, closed] at known ⊢
    exact ⟨_, s', rfl, walks sides known⟩

/-- A block whose statements follow the rules follows them. -/
lemma follows_blockOf {body : List Syntax.Stmt}
    {walk : List (String × Slot) → Resolve (List Program.Stmt)}
    (hwalk : ∀ hoisted, Walks (walk hoisted) fun Γ p ss p' =>
      ∀ ds, Hoisting hoisted ds (classNames body) → StmtsScoped Γ ds p body ss p') :
    Follows (blockOf body walk) fun Γ g b g' => BlockScoped Γ g body b g' := by
  have inner : Walks (do walk (← hoist body)) fun Γ p ss p' =>
      ∃ ds, ds.map Prod.snd = classNames body ∧
        StmtsScoped Γ ds ⟨p.names ++ ds, p.classes, p.globals⟩ body ss p' := by
    refine (walks_hoist body).bind fun hoisted => (hwalk hoisted).imp ?_
    rintro Γ _ ss p' judged p ⟨ds, texts, lookup, rfl⟩
    exact ⟨ds, texts, judged ds ⟨lookup, texts ▸ List.Subset.refl _⟩⟩
  refine (inner.enclosed fun ss scope => (⟨ss, scope.names, scope.classes⟩ : Program.Block)).imp ?_
  rintro Γ g b g' ⟨ss, scope, rfl, ds, texts, judged⟩
  exact .intro texts judged

/-! ### Methods and classes -/

/-- Parameters are declared one by one. -/
lemma walks_params (names : List Name) :
    Walks (names.mapM fun p => declare p .param true) fun _ p slots p' =>
      ∃ ds : List (Slot × String), ds.map Prod.snd = names.map Name.text ∧
        slots = ds.map Prod.fst ∧ p' = ⟨p.names ++ ds, p.classes, p.globals⟩ := by
  induction names with
  | nil => exact Walks.pure fun _ p => ⟨[], rfl, rfl, by rw [List.append_nil]⟩
  | cons name names ih =>
    rw [List.mapM_cons]
    refine (walks_declare name .param true).bind fun slot => ih.bind fun later => Walks.pure ?_
    rintro Γ p'' p' ⟨ds, texts, rfl, rfl⟩ p rfl
    refine ⟨(slot, name.text) :: ds, ?_, rfl, ?_⟩
    · rw [List.map_cons, texts]
      rfl
    · rw [List.append_assoc]
      rfl

/-- A method follows the rules if its body does, with its parameters around it. -/
lemma follows_method (name : String) (params : Option (List Name)) (line : Line)
    {body : List Syntax.Stmt} {walk : Resolve Program.Block}
    (hwalk : Follows walk fun Γ g b g' => BlockScoped Γ g body b g') :
    Follows (method name params line walk) fun Γ g m g' =>
      MethodScoped Γ g name params line body m g' := by
  have declared : Walks (params.mapM fun names => names.mapM fun p => declare p .param true)
      fun _ p slots p' => ∃ ds : List (Slot × String),
        ds.map Prod.snd = (params.getD []).map Name.text ∧
          slots = params.map (fun _ => ds.map Prod.fst) ∧
          p' = ⟨p.names ++ ds, p.classes, p.globals⟩ := by
    cases params with
    | none => exact Walks.pure fun _ p => ⟨[], rfl, rfl, by rw [List.append_nil]⟩
    | some names =>
      refine (walks_params names).bind fun slots => Walks.pure ?_
      rintro Γ _ p ⟨ds, texts, rfl, rfl⟩
      exact ⟨ds, texts, rfl, rfl⟩
  have inner : Walks (do
      let params ← params.mapM fun names => names.mapM fun p => declare p .param true
      let body ← walk
      return (params, body)) fun Γ p r p' => ∃ ds : List (Slot × String),
        ds.map Prod.snd = (params.getD []).map Name.text ∧
          r.1 = params.map (fun _ => ds.map Prod.fst) ∧ p'.names = p.names ++ ds ∧
          BlockScoped (Γ.within p'.names) p.globals body r.2 p'.globals := by
    refine declared.bind fun slots => hwalk.walks.bind fun b => Walks.pure ?_
    rintro Γ p' _ ⟨names, _, judged⟩ p ⟨ds, texts, rfl, rfl⟩
    exact ⟨ds, texts, rfl, names, names ▸ judged⟩
  refine (inner.enclosed fun r scope =>
    (⟨name, r.1, scope.names, r.2, line⟩ : Program.Method)).imp ?_
  rintro Γ g m g' ⟨r, scope, rfl, ds, texts, slots, names, judged⟩
  rw [List.nil_append] at names
  simp only at names judged
  subst names
  rw [slots]
  exact .intro texts judged

section

variable {J : Surroundings → List (Slot × String) → α → List (Slot × String) → Prop}

/-- What is done on a side of a class may use all fields of that side, however
many are added to it afterwards. -/
lemma follows_withFields (side : FieldScope) (hx : Follows x J) :
    Follows (withFields side x) fun Γ g r g' => side.Grows r.2 ∧
      ∀ f, r.2.Grows f → J (Γ.inside f) g r.1 g' := by
  intro st
  obtain ⟨evolves, follows⟩ := hx { st with fieldScopes := side :: st.fieldScopes }
  obtain ⟨side', rest', hside, hrest, e, answer, after⟩ := run_withFields side evolves
  rw [FollowsAt, answer, after]
  refine ⟨⟨⟨hrest, evolves.globals, evolves.problems, evolves.bound⟩,
    evolves.scopes⟩, fun mirrored => ?_⟩
  obtain ⟨mirrored', follows⟩ := follows ⟨mirrored.scopes, mirrored.globals⟩
  refine ⟨⟨mirrored'.scopes, mirrored'.globals⟩, fun sides known => ⟨hside, fun f hf => ?_⟩⟩
  exact follows (f :: sides) (e ▸ .cons hf known)

/-- Inside of a class the same is around. -/
lemma follows_insideClass (slot : Slot) (hx : Follows x J) : Follows (insideClass slot x) J := by
  intro st
  obtain ⟨evolves, follows⟩ := hx { st with enclosing := slot :: st.enclosing }
  refine ⟨⟨⟨evolves.fields, evolves.globals, evolves.problems, evolves.bound⟩,
    evolves.scopes⟩, fun mirrored => ?_⟩
  obtain ⟨mirrored', follows⟩ := follows ⟨mirrored.scopes, mirrored.globals⟩
  exact ⟨⟨mirrored'.scopes, mirrored'.globals⟩, follows⟩

/-- A member is resolved where its kind says, and added to the others. -/
lemma follows_member (cls : String) (m : Members) (kind : Syntax.MethodKind) (name : Name)
    {walk : Resolve Program.Method}
    {J : Surroundings → List (Slot × String) → Program.Method → List (Slot × String) → Prop}
    (hwalk : Follows walk J) :
    Follows (member cls m kind name walk) fun Γ g m' g' => m.instanceSide.Grows m'.instanceSide ∧
      ∀ f, m'.instanceSide.Grows f → ∃ x, J (Γ.ofMember f kind) g x g' ∧
        ({ m' with instanceSide := f } : Members) =
          ({ m with instanceSide := f } : Members).add kind x := by
  have onInstance := follows_withFields m.instanceSide hwalk
  cases kind with
  | onClass =>
    refine hwalk.bind fun x => follows_reportIf _ _ (Follows.pure fun Γ g g₀ h => ?_)
    exact ⟨.refl _, fun f _ => ⟨x, h, rfl⟩⟩
  | construct | onInstance =>
    refine onInstance.bind fun r => follows_reportIf _ _ (Follows.pure fun Γ g g₀ h => ?_)
    exact ⟨h.1, fun f hf => ⟨r.1, h.2 f hf, rfl⟩⟩

/-- The members of a class, once all fields of its instances are known. -/
def MembersScoped (m : Members) (methods : List Syntax.Method) (Γ : Surroundings)
    (g : List (Slot × String)) (m' : Members) (g' : List (Slot × String)) : Prop :=
  m.instanceSide.Grows m'.instanceSide ∧ ∀ f, m'.instanceSide.Grows f →
    MethodsScoped Γ { m with instanceSide := f } g methods { m' with instanceSide := f } g'

/-- A class follows the rules if its members do. -/
lemma follows_classDecl (name : Name) {methods : List Syntax.Method}
    {walk : Members → Resolve Members}
    (hwalk : ∀ m, Follows (walk m) (MembersScoped m methods)) :
    Follows (classDecl name walk) fun Γ g c g' => ClassScoped Γ g name methods c g' := by
  refine follows_fresh.bind fun receiver => follows_fresh.bind fun staticReceiver => ?_
  refine (follows_withFields _ (hwalk (.start receiver))).bind fun r => Follows.pure ?_
  rintro Γ g' g₂ ⟨grows, members⟩ g₁ rfl g rfl
  obtain ⟨grows', members⟩ := members _ (.refl _)
  have rules := members _ (.refl _)
  obtain ⟨m, statics⟩ := r
  have side : m.instanceSide = ⟨.onInstance, receiver, m.instanceSide.fields⟩ := grows'.eq
  rw [grows.eq, side] at rules
  exact .intro rules

end

/-! ### Statements and expressions -/

/-- A class is filed under its slot, and nothing else changes. -/
lemma walks_addClass (slot : Slot) (c : Program.ClassDecl) :
    Walks (addClass slot c) fun _ p _ p' =>
      p' = ⟨p.names, insertByKey Prod.fst (slot, c) p.classes, p.globals⟩ :=
  walks_modifyInnermost (fun _ h => h) fun _ _ _ => rfl

/-- That a variable is initialized changes no name and no class. -/
lemma walks_markInitialized (name : String) :
    Walks (markInitialized name) fun _ p _ p' => p' = p := by
  refine walks_modifyInnermost (fun s h => ?_) fun _ s _ => ?_
  · cases hb : s.find? name with
    | none => exact h
    | some b =>
      refine h.replace (c := b) ?_ rfl
      exact (Scope.text_of_find? hb).symm ▸ hb
  · cases s.find? name <;> rfl

/-- An expression that may be missing follows the rules if it is there. -/
lemma follows_resolveMaybe {init : Option Syntax.Expr}
    (h : ∀ e, init = some e → Follows (resolveExpr e) fun Γ g x g' => ExprScoped Γ g e x g') :
    Follows (resolveMaybe init) fun Γ g o g' => MaybeScoped Γ g init o g' := by
  cases init with
  | none => exact Follows.pure fun _ _ => .none
  | some e => exact (h e rfl).bind fun x => Follows.pure fun _ _ _ hx => .some hx

/-- A statement of a block follows the rules, once its classes are hoisted. -/
def Steps (s : Syntax.Stmt) : Prop :=
  ∀ hoisted, Walks (resolveStmt hoisted s) fun Γ p o p' => ∀ ds,
    Hoisting hoisted ds (classNames [s]) → StepScoped Γ ds p s o p'

/-- A variable is known by its name in its own initializer and after it. -/
lemma steps_var (name : Name) {init : Option Syntax.Expr}
    (h : ∀ e, init = some e → Follows (resolveExpr e) fun Γ g x g' => ExprScoped Γ g e x g') :
    Steps (.var name init) := by
  intro hoisted
  rw [resolveStmt_var]
  refine (walks_declare name .var false).bind fun slot => ?_
  refine (follows_resolveMaybe h).walks.bind fun init' => ?_
  refine (walks_markInitialized name.text).bind fun _ => Walks.pure ?_
  rintro Γ p _ rfl _ ⟨names, classes, rules⟩ p₀ rfl ds _
  obtain ⟨names', classes', globals'⟩ := p
  simp only at names classes rules
  subst names classes
  exact .var rules

/-- A name that is declared has a latest declaration. -/
lemma latest?_of_mem {name : String} {ds : List (Slot × String)} (h : name ∈ ds.map Prod.snd) :
    latest? name ds ≠ none := by
  induction ds with
  | nil => cases h
  | cons d ds ih =>
    rw [latest?, ne_eq, Option.or_eq_none_iff]
    rintro ⟨later, here⟩
    rcases List.mem_cons.1 h with rfl | h
    · rw [if_pos rfl] at here
      cases here
    · exact ih h later

/-- A class follows the rules, and is filed under its latest declaration. -/
lemma steps_cls (name : Name) (methods : List Syntax.Method)
    (h : ∀ m, Follows (resolveMethods name.text m methods) (MembersScoped m methods)) :
    Steps (.cls name methods) := by
  intro hoisted
  rw [resolveStmt]
  cases hlookup : hoisted.lookup name.text with
  | none =>
    refine Walks.pure fun Γ p ds hoisting => ?_
    have known := latest?_of_mem (hoisting.declared (List.mem_singleton_self name.text))
    exact absurd (hoisting.lookup name.text ▸ hlookup) known
  | some slot =>
    refine (follows_insideClass slot (follows_classDecl name h)).walks.bind fun c => ?_
    refine (walks_addClass slot c).bind fun _ => Walks.pure ?_
    rintro Γ _ p rfl p₀ ⟨names, classes, rules⟩ ds hoisting
    rw [names, classes]
    exact .cls (hoisting.lookup name.text ▸ hlookup) rules

/-- A statement that declares nothing in the scope around it follows the rules. -/
structure Quiet (s : Syntax.Stmt) : Prop where
  none : classNames [s] = []
  follows : ∀ hoisted, Follows (resolveStmt hoisted s) fun Γ g o g' =>
    ∃ s', o = some s' ∧ StmtScoped Γ g s s' g'

/-- A statement that declares nothing follows the rules of the part that it consists of. -/
lemma Quiet.of_follows {s : Syntax.Stmt} {walk : Resolve α} (make : α → Program.Stmt)
    {J : Surroundings → List (Slot × String) → α → List (Slot × String) → Prop}
    (none : classNames [s] = []) (hwalk : Follows walk J)
    (run : ∀ hoisted, resolveStmt hoisted s = do return some (make (← walk)))
    (rules : ∀ Γ g a g', J Γ g a g' → StmtScoped Γ g s (make a) g') : Quiet s := by
  refine ⟨none, fun hoisted => ?_⟩
  rw [run]
  exact hwalk.bind fun a => Follows.pure fun _ _ _ h => ⟨make a, rfl, rules _ _ _ _ h⟩

/-- A statement that declares nothing leaves the scope around it as it is. -/
lemma Quiet.steps {s : Syntax.Stmt} (h : Quiet s) : Steps s := by
  intro hoisted
  refine (h.follows hoisted).walks.imp ?_
  rintro Γ p _ p' ⟨names, classes, s', rfl, rules⟩ ds _
  obtain ⟨names', classes', globals'⟩ := p'
  simp only at names classes rules
  subst names classes
  exact .other rules

/-- What resolution makes of a statement follows the rules. -/
structure Obeys (s : Syntax.Stmt) : Prop where
  quiet : IsQuiet s → Quiet s
  steps : Steps s

/-- A statement that declares nothing obeys the rules. -/
lemma Quiet.obeys {s : Syntax.Stmt} (h : Quiet s) : Obeys s := ⟨fun _ => h, h.steps⟩

/-- A branch follows the rules, in a scope of its own if it declares something. -/
lemma follows_branch {s : Syntax.Stmt} (hs : Obeys s) :
    Follows (branch s fun hoisted => resolveStmt hoisted s) fun Γ g x g' =>
      BranchScoped Γ g s x g' := by
  have enclosed : Follows
      (blockOf [s] fun hoisted => do return (← resolveStmt hoisted s).toList) fun Γ g b g' =>
        BlockScoped Γ g [s] b g' := by
    refine follows_blockOf fun hoisted => (hs.steps hoisted).bind fun o => Walks.pure ?_
    intro Γ p p₀ step ds hoisting
    exact List.append_nil o.toList ▸ .cons (step ds hoisting) .nil
  have inner (quiet : IsQuiet s) : Follows
      (do return (← resolveStmt [] s).getD (.block .empty)) fun Γ g x g' =>
        BranchScoped Γ g s x g' := by
    refine ((hs.quiet quiet).follows []).bind fun o => Follows.pure ?_
    rintro Γ g g₀ ⟨s', rfl, rules⟩
    exact .quiet quiet rules
  cases s with
  | var name init => exact enclosed.bind fun b => Follows.pure fun _ _ _ h => .block id h
  | cls name methods => exact enclosed.bind fun b => Follows.pure fun _ _ _ h => .block id h
  | block _ | branch _ _ _ _ | loop _ _ _ | ret _ _ | eval _ => exact inner trivial

/-- A conditional follows the rules if its parts do. -/
lemma quiet_branch {condition : Syntax.Expr} {yes : Syntax.Stmt} {no : Option Syntax.Stmt}
    (line : Line)
    (hcondition : Follows (resolveExpr condition) fun Γ g x g' => ExprScoped Γ g condition x g')
    (hyes : Obeys yes) (hno : ∀ s, no = some s → Obeys s) :
    Quiet (.branch condition yes no line) := by
  cases no with
  | none =>
    let walk : Resolve (Program.Expr × Program.Stmt) := do
      let condition ← resolveExpr condition
      let yes ← branch yes fun hoisted => resolveStmt hoisted yes
      return (condition, yes)
    have follows : Follows walk fun Γ g r g' => StmtScoped Γ g (.branch condition yes none line)
        (.branch r.1 r.2 none line) g' :=
      hcondition.bind fun condition => (follows_branch hyes).bind fun yes =>
        Follows.pure fun _ _ _ hy _ hc => .branch hc hy .none
    exact .of_follows (fun r => .branch r.1 r.2 none line) rfl follows (fun _ => rfl)
      fun _ _ _ _ h => h
  | some no =>
    let walk : Resolve (Program.Expr × Program.Stmt × Program.Stmt) := do
      let condition ← resolveExpr condition
      let yes ← branch yes fun hoisted => resolveStmt hoisted yes
      let no ← branch no fun hoisted => resolveStmt hoisted no
      return (condition, yes, no)
    have follows : Follows walk fun Γ g r g' => StmtScoped Γ g
        (.branch condition yes (some no) line) (.branch r.1 r.2.1 (some r.2.2) line) g' :=
      hcondition.bind fun condition => (follows_branch hyes).bind fun yes =>
        (follows_branch (hno no rfl)).bind fun no =>
          Follows.pure fun _ _ _ hn _ hy _ hc => .branch hc hy (.some hn)
    exact .of_follows (fun r => .branch r.1 r.2.1 (some r.2.2) line) rfl follows (fun _ => rfl)
      fun _ _ _ _ h => h

/-- A loop follows the rules if its parts do. -/
lemma quiet_loop {condition : Syntax.Expr} {body : Syntax.Stmt} (line : Line)
    (hcondition : Follows (resolveExpr condition) fun Γ g x g' => ExprScoped Γ g condition x g')
    (hbody : Obeys body) : Quiet (.loop condition body line) := by
  let walk : Resolve (Program.Expr × Program.Stmt) := do
    let condition ← resolveExpr condition
    let body ← branch body fun hoisted => resolveStmt hoisted body
    return (condition, body)
  have follows : Follows walk fun Γ g r g' =>
      StmtScoped Γ g (.loop condition body line) (.loop r.1 r.2 line) g' :=
    hcondition.bind fun condition => (follows_branch hbody).bind fun body =>
      Follows.pure fun _ _ _ hb _ hc => .loop hc hb
  exact .of_follows (fun r => .loop r.1 r.2 line) rfl follows (fun _ => rfl) fun _ _ _ _ h => h

/-- What is no target is resolved all the same, and its hole filled. -/
lemma follows_invalid {target : Syntax.Expr} (invalid : ¬ target.IsTarget)
    (h : Follows (resolveExpr target) fun Γ g x g' => ExprScoped Γ g target x g') :
    Follows (do
      report (.invalidTarget target.line)
      let _ ← resolveExpr target
      fillHole ⟨"<invalid>", target.line⟩) fun Γ g s g' => TargetScoped Γ g target s g' := by
  intro st
  let p : ScopeProblem := .invalidTarget target.line
  refine (follows_report p st).bind ((h _).bind ((follows_fillHole _ _).imp ?_))
  rintro Γ g₂ s _ rfl g₁ rules g rfl
  exact .invalid invalid rules (.hole s)

/-- What is assigned to follows the rules, whether or not it is a target. -/
lemma follows_resolveTarget {target : Syntax.Expr}
    (h : Follows (resolveExpr target) fun Γ g x g' => ExprScoped Γ g target x g') :
    Follows (resolveTarget target) fun Γ g s g' => TargetScoped Γ g target s g' := by
  cases target with
  | «variable» name => exact (follows_assigned name).imp fun _ _ _ _ h => .variable h
  | field name => exact (follows_instanceField name).imp fun _ _ _ _ h => .field h
  | staticField name => exact (follows_staticField name).imp fun _ _ _ _ h => .staticField h
  | assign _ _ _ | call _ _ _ _ | literal _ _ | this _ | logical _ _ _ _ =>
    exact follows_invalid id h

/-- Arguments in parentheses follow the rules if each of them does. -/
lemma follows_resolveArguments {arguments : Option (List Syntax.Expr)}
    (h : ∀ es, arguments = some es →
      Follows (resolveExprs es) fun Γ g xs g' => ExprsScoped Γ g es xs g') :
    Follows (resolveArguments arguments) fun Γ g o g' => ArgumentsScoped Γ g arguments o g' := by
  cases arguments with
  | none => exact Follows.pure fun _ _ => .none
  | some es => exact (h es rfl).bind fun xs => Follows.pure fun _ _ _ hx => .some hx

/-- A block of code follows the rules as a method of a class of its own. -/
lemma follows_resolveCode (arguments : Option (List Program.Expr)) {code : Option Syntax.Code}
    (h : ∀ params body line, code = some ⟨params, body, line⟩ →
      Follows (blockOf body fun hoisted => resolveStmts hoisted body) fun Γ g b g' =>
        BlockScoped Γ g body b g') :
    Follows (resolveCode arguments code) fun Γ g o g' => CodeScoped Γ g arguments code o g' := by
  cases code with
  | none => exact Follows.pure fun _ _ => .none
  | some code =>
    obtain ⟨params, body, line⟩ := code
    refine follows_fresh.bind fun own => follows_fresh.bind fun ownStatic => ?_
    refine (follows_method "call" (some params) line (h params body line rfl)).bind fun call =>
      Follows.pure ?_
    rintro Γ g₃ g₂ rules g₁ rfl g rfl
    exact .some rules

/-- A call follows the rules if its parts do. -/
lemma follows_call {receiver : Syntax.Expr} (name : Name) {arguments : Option (List Syntax.Expr)}
    {code : Option Syntax.Code}
    (hreceiver : Follows (resolveExpr receiver) fun Γ g x g' => ExprScoped Γ g receiver x g')
    (harguments : ∀ es, arguments = some es →
      Follows (resolveExprs es) fun Γ g xs g' => ExprsScoped Γ g es xs g')
    (hcode : ∀ params body line, code = some ⟨params, body, line⟩ →
      Follows (blockOf body fun hoisted => resolveStmts hoisted body) fun Γ g b g' =>
        BlockScoped Γ g body b g') :
    Follows (resolveExpr (.call receiver name arguments code)) fun Γ g x g' =>
      ExprScoped Γ g (.call receiver name arguments code) x g' := by
  have all : Follows (resolveAll arguments code) fun Γ g o g' => ∃ o₁ g₁,
      ArgumentsScoped Γ g arguments o₁ g₁ ∧ CodeScoped Γ g₁ o₁ code o g' :=
    (follows_resolveArguments harguments).bind fun o₁ =>
      (follows_resolveCode o₁ hcode).imp fun _ _ _ _ hc _ ha => ⟨o₁, _, ha, hc⟩
  rw [resolveExpr_call]
  refine hreceiver.bind fun receiver => all.bind fun arguments => Follows.pure ?_
  rintro Γ g₃ g₁ ⟨_, _, ha, hc⟩ g hr
  exact .call hr ha hc

end Resolve

/-! ### The walk -/

open Resolve

mutual

/-- An expression follows the rules. -/
theorem follows_resolveExpr : (e : Syntax.Expr) →
    Follows (resolveExpr e) fun Γ g x g' => ExprScoped Γ g e x g'
  | .assign target value line => by
    rw [resolveExpr_assign]
    refine (follows_resolveTarget (follows_resolveExpr target)).bind fun slot => ?_
    refine (follows_resolveExpr value).bind fun value => Follows.pure ?_
    exact fun Γ g₂ g₁ hv g ht => .assign ht hv
  | .call receiver name none none =>
    follows_call name (follows_resolveExpr receiver) (fun _ h => nomatch h) fun _ _ _ h => nomatch h
  | .call receiver name (some es) none =>
    follows_call name (follows_resolveExpr receiver)
      (fun _ h => Option.some.inj h ▸ follows_resolveExprs es) fun _ _ _ h => nomatch h
  | .call receiver name none (some ⟨params, body, line⟩) =>
    follows_call name (follows_resolveExpr receiver) (fun _ h => nomatch h) fun _ _ _ h => by
      cases h
      exact follows_blockOf (walks_resolveStmts body)
  | .call receiver name (some es) (some ⟨params, body, line⟩) =>
    follows_call name (follows_resolveExpr receiver)
      (fun _ h => Option.some.inj h ▸ follows_resolveExprs es) fun _ _ _ h => by
        cases h
        exact follows_blockOf (walks_resolveStmts body)
  | .literal value line => Follows.pure fun _ _ => .literal
  | .variable name => (follows_namedSlot name).bind fun r => Follows.pure fun _ _ _ h => .variable h
  | .field name => (follows_instanceField name).bind fun s => Follows.pure fun _ _ _ h => .field h
  | .staticField name =>
    (follows_staticField name).bind fun s => Follows.pure fun _ _ _ h => .staticField h
  | .this line => (follows_thisSlot line).bind fun s => Follows.pure fun _ _ _ h => .this h
  | .logical op left right line => by
    refine (follows_resolveExpr left).bind fun left => ?_
    refine (follows_resolveExpr right).bind fun right => Follows.pure ?_
    exact fun Γ g₂ g₁ hr g hl => .logical hl hr

/-- Expressions follow the rules, one after the other. -/
theorem follows_resolveExprs : (es : List Syntax.Expr) →
    Follows (resolveExprs es) fun Γ g xs g' => ExprsScoped Γ g es xs g'
  | [] => Follows.pure fun _ _ => .nil
  | e :: es => by
    refine (follows_resolveExpr e).bind fun e => ?_
    refine (follows_resolveExprs es).bind fun es => Follows.pure ?_
    exact fun Γ g₂ g₁ hes g he => .cons he hes

/-- A statement follows the rules. -/
theorem obeys_resolveStmt : (s : Syntax.Stmt) → Obeys s
  | .block body =>
    Quiet.obeys (.of_follows .block rfl (follows_blockOf (walks_resolveStmts body)) (fun _ => rfl)
      fun _ _ _ _ h => .block h)
  | .branch condition yes none line =>
    have quiet : Quiet (.branch condition yes none line) :=
      quiet_branch line (follows_resolveExpr condition) (obeys_resolveStmt yes) fun _ h => nomatch h
    quiet.obeys
  | .branch condition yes (some no) line =>
    have quiet : Quiet (.branch condition yes (some no) line) :=
      quiet_branch line (follows_resolveExpr condition) (obeys_resolveStmt yes)
        fun _ h => Option.some.inj h ▸ obeys_resolveStmt no
    quiet.obeys
  | .loop condition body line =>
    (quiet_loop line (follows_resolveExpr condition) (obeys_resolveStmt body)).obeys
  | .var name none => ⟨fun quiet => quiet.elim, steps_var name fun _ h => nomatch h⟩
  | .var name (some init) =>
    ⟨fun quiet => quiet.elim,
      steps_var name fun _ h => Option.some.inj h ▸ follows_resolveExpr init⟩
  | .cls name methods =>
    ⟨fun quiet => quiet.elim, steps_cls name methods (follows_resolveMethods name.text methods)⟩
  | .ret none line =>
    have nothing : Follows (pure ()) fun Γ g _ g' => MaybeScoped Γ g none none g' :=
      Follows.pure fun _ _ => .none
    Quiet.obeys (.of_follows (fun _ => .ret none line) rfl nothing (fun _ => rfl)
      fun _ _ _ _ h => .ret h)
  | .ret (some e) line =>
    Quiet.obeys (.of_follows (fun e => .ret (some e) line) rfl (follows_resolveExpr e)
      (fun _ => rfl) fun _ _ _ _ h => .ret (.some h))
  | .eval e =>
    Quiet.obeys (.of_follows .eval rfl (follows_resolveExpr e) (fun _ => rfl)
      fun _ _ _ _ h => .eval h)

/-- The statements of a block follow the rules. -/
theorem walks_resolveStmts : (body : List Syntax.Stmt) → ∀ hoisted,
    Walks (resolveStmts hoisted body) fun Γ p ss p' =>
      ∀ ds, Hoisting hoisted ds (classNames body) → StmtsScoped Γ ds p body ss p'
  | [], hoisted => Walks.pure fun _ _ _ _ => .nil
  | s :: ss, hoisted => by
    refine ((obeys_resolveStmt s).steps hoisted).bind fun o => ?_
    refine (walks_resolveStmts ss hoisted).bind fun ss' => Walks.pure ?_
    intro Γ p₂ p₁ rest p step ds hoisting
    rw [classNames_cons] at hoisting
    exact .cons (step ds (hoisting.mono (List.subset_append_left _ _)))
      (rest ds (hoisting.mono (List.subset_append_right _ _)))

/-- The members of a class follow the rules. -/
theorem follows_resolveMethods (name : String) : (methods : List Syntax.Method) → ∀ m,
    Follows (resolveMethods name m methods) (MembersScoped m methods)
  | [], m => Follows.pure fun _ _ => ⟨.refl _, fun _ _ => .nil⟩
  | ⟨kind, own, params, body⟩ :: rest, m => by
    refine (follows_member name m kind own (follows_method own.text params own.line
      (follows_blockOf (walks_resolveStmts body)))).bind fun m' => ?_
    refine (follows_resolveMethods name rest m').imp ?_
    rintro Γ g₁ m'' g₂ ⟨grows', rules'⟩ g ⟨grows, rules⟩
    refine ⟨grows.trans grows', fun f hf => ?_⟩
    obtain ⟨x, method, added⟩ := rules f (grows'.trans hf)
    exact .cons method (added ▸ rules' f hf)

end

/-! ### Whole programs -/

/-- The globals that are given are known by their names. -/
lemma mirrored_declareGlobals (names : List String) {st : Scopes} (h : st.Mirrored) :
    ((declareGlobals names).after st).Mirrored := by
  induction names generalizing st with
  | nil => exact h
  | cons name names ih =>
    have next : ((makeGlobal ⟨name, 0⟩ false).after st).Mirrored :=
      ⟨h.scopes, h.globals.put _⟩
    exact ih next

/-- At first a program knows its globals, and nothing else. -/
lemma mirrored_entry (globals : List String) : (Scopes.entry globals).Mirrored :=
  mirrored_declareGlobals globals ⟨fun _ h => absurd h List.not_mem_nil, Scope.mirrors_empty⟩

/-- Whatever mistakes a program has, its resolved form follows the rules, in which
the given globals come first. -/
theorem resolve_scoped (globals : List String) (program : List Syntax.Stmt) :
    ∃ g : List (Slot × String), g.map Prod.snd = globals ∧
      BlockScoped ⟨[], []⟩ g program (resolve globals program).1.root
        (resolve globals program).1.globals := by
  obtain ⟨_, scopes, fieldScopes, _, names⟩ := entry_spec globals
  obtain ⟨evolves, follows⟩ := follows_blockOf (walks_resolveStmts program) (.entry globals)
  have rules := (follows (mirrored_entry globals)).2 [] (by
    have fields := evolves.fields
    rw [fieldScopes] at fields
    rw [List.forall₂_nil_left_iff.1 fields]
    exact .nil)
  rw [Scopes.around, scopes, List.map_nil] at rules
  exact ⟨(Scopes.entry globals).globals, names, rules⟩

/-- What is known by a name is the same in two states of the globals, if it is
known in the scopes around or the name is none of the given words. -/
def Surroundings.Undisturbed (Γ : Surroundings) (g g' : List (Slot × String))
    (words : List String) : Prop :=
  ∀ name s, Γ.named? g name = some s → (Γ.local? name = some s ∨ name ∉ words) →
    Γ.named? g' name = some s

/-- What is known by a name stays so where only names among the given words are added. -/
lemma Kept.undisturbed {words : List String} {g g' : List (Slot × String)}
    (h : Kept words g g') (Γ : Surroundings) : Γ.Undisturbed g g' words := by
  intro name s hs outside
  rw [Surroundings.named?, Option.or_eq_some_iff] at hs ⊢
  rcases hs with hs | ⟨none, hs⟩
  · exact .inl hs
  · refine .inr ⟨none, h name s hs fun hmem => ?_⟩
    rcases outside with found | out
    · rw [none] at found
      cases found
    · exact out hmem

/-- Resolution is lexical, whatever mistakes a program has: no two declarations
have one slot, each use of a name gets the slot of the declaration that the scoping
rules find for it, and resolving a nested block, class or block of code leaves what
the names around it stand for, but for those globals whose names recovery declares
anew inside it. -/
theorem resolve_lexical (globals : List String) (program : List Syntax.Stmt) :
    ((resolve globals program).1.names.map Prod.fst).Nodup ∧
      (∃ g : List (Slot × String), g.map Prod.snd = globals ∧
        BlockScoped ⟨[], []⟩ g program (resolve globals program).1.root
          (resolve globals program).1.globals) ∧
      (∀ Γ g body b g', BlockScoped Γ g body b g' →
        Γ.Undisturbed g g' (Syntax.stmtRecovered (Γ.sides.map FieldScope.side) body)) ∧
      (∀ Γ g name methods c g', ClassScoped Γ g name methods c g' →
        Γ.Undisturbed g g'
          (Syntax.methodRecovered (.onClass :: Γ.sides.map FieldScope.side) methods)) ∧
      (∀ Γ g arguments code arguments' g', CodeScoped Γ g arguments code arguments' g' →
        Γ.Undisturbed g g' (Syntax.codeRecovered (Γ.sides.map FieldScope.side) code)) :=
  ⟨names_nodup globals program, resolve_scoped globals program,
    fun Γ _ _ _ _ h => h.kept.undisturbed Γ, fun Γ _ _ _ _ _ h => h.kept.undisturbed Γ,
    fun Γ _ _ _ _ _ h => h.kept.undisturbed Γ⟩

/-- A block that uses a global leaves it as it is. -/
theorem resolve_lexical_usedGlobal :
    BlockScoped ⟨[], []⟩ [(⟨0⟩, "f")] [.eval (.variable ⟨"f", 1⟩)]
        ⟨[.eval (.read ⟨0⟩ 1)], [], []⟩ [(⟨0⟩, "f")] ∧
      Surroundings.named? ⟨[], []⟩ [(⟨0⟩, "f")] "f" = some ⟨0⟩ := by
  have rules : BlockScoped ⟨[], []⟩ [(⟨0⟩, "f")] [.eval (.variable ⟨"f", 1⟩)]
      ⟨[.eval (.read ⟨0⟩ 1)], [], []⟩ [(⟨0⟩, "f")] :=
    .intro (rfl : ([] : List (Slot × String)).map Prod.snd = _)
      (.cons (.other (.eval (.variable (.known ⟨0⟩)))) .nil)
  obtain ⟨_, _, block, _, _⟩ := resolve_lexical ["f"] [.eval (.variable ⟨"f", 1⟩)]
  exact ⟨rules, block _ _ _ _ _ rules "f" ⟨0⟩ rfl (.inr List.not_mem_nil)⟩

/-- A field outside of classes in a nested block changes what a global of its name
stands for afterwards. -/
theorem field_disturbs_global :
    (resolve ["f"] [.eval (.variable ⟨"f", 2⟩)]).1.root.statements = [.eval (.read ⟨0⟩ 2)] ∧
      (resolve ["f"] [.block [.eval (.field ⟨"f", 1⟩)],
        .eval (.variable ⟨"f", 2⟩)]).1.root.statements =
        [.block ⟨[.eval (.read ⟨1⟩ 1)], [], []⟩, .eval (.read ⟨1⟩ 2)] :=
  ⟨rfl, rfl⟩

end Ember
