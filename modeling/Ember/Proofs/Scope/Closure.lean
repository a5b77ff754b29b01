/-
Resolution yields closed programs: whatever mistakes a program has, its resolved
form mentions only slots that are visible where they are mentioned.

* `Resolve.sees_namedSlot`, `Resolve.sees_instanceField` and their like: every
  use of a name gets a slot that is visible, if only a global made on the spot;
* `Declares`: what the statements of a block do to the scope of the block;
* `declares_resolveStmts`, `sees_resolveExpr`: the walk over the program;
* `resolve_closed`: a whole program.
-/
import Mathlib
import Ember.Proofs.Scope.Closed
import Ember.Proofs.Scope.Steps

namespace Ember

namespace Resolve

variable {α β : Type} {strict : Bool}

/-! ### Uses of names -/

/-- A mistake is fine in the loose sense alone. -/
lemma sees_report {P : List Slot → Prop} (p : ScopeProblem) :
    Sees strict P (report p) fun v _ => P v ∧ strict = false := by
  intro st
  refine ⟨evolves_report p st, fun Γ _ fine hp => ⟨hp, ?_⟩⟩
  cases strict with
  | false => rfl
  | true =>
    have none : st.problems ++ [p] = [] := fine rfl
    simp at none

/-- A hole is filled with a global. -/
lemma sees_fillHole (name : Name) :
    Sees strict (fun _ => True) (fillHole name) fun v s => s ∈ v := by
  intro st
  have run : after (fillHole name) st =
      { st with
        nextSlot := st.nextSlot.next
        globals := st.globals ++ [(st.nextSlot, name.text)]
        globalScope := st.globalScope.put ⟨name, st.nextSlot, .global, true, true⟩ } := rfl
  have made : answer (fillHole name) st = st.nextSlot := rfl
  rw [SeesAt, run, made]
  have new : st.nextSlot ∈ (st.globals ++ [(st.nextSlot, name.text)]).map Prod.fst := by simp
  refine ⟨⟨⟨(Scopes.Advances.refl st).fields, List.prefix_append _ _, List.prefix_rfl,
    fun bound t b hb => ?_⟩, (Scopes.Evolves.refl st).scopes⟩,
    fun Γ _ _ _ => Scopes.mem_visible_of_global Γ new⟩
  rcases Scope.find?_put hb with rfl | hb
  · exact new
  · rw [List.map_append]
    exact List.mem_append_left _ (bound t b hb)

/-- A mistake whose hole is filled, after what else there is to resolve. -/
lemma sees_hole_after (p : ScopeProblem) (name : Name) {x : Resolve α}
    {C : List Slot → α → Prop} (hx : Sees strict (fun _ => True) x C) :
    Sees strict (fun _ => True) (do report p; let _ ← x; fillHole name) fun v s => s ∈ v := by
  intro st
  have forgotten : SeesAt strict ((report p).after st) (fun v => True ∧ strict = false) x
      fun _ _ => True := (hx _).imp (fun _ _ => trivial) fun _ _ _ => trivial
  exact (sees_report p st).bind (forgotten.bind (sees_fillHole name _))

/-- A mistake whose hole is filled with a global. -/
lemma sees_hole (p : ScopeProblem) (name : Name) :
    Sees strict (fun _ => True) (do report p; fillHole name) fun v s => s ∈ v :=
  sees_hole_after p name (C := fun _ _ => True) (Sees.pure (a := ()) fun _ _ => trivial)

/-- A use of a variable gets a visible slot. -/
lemma sees_namedSlot (name : Name) :
    Sees strict (fun _ => True) (namedSlot name) fun v r => r.1 ∈ v := by
  intro st
  obtain ⟨evolves, inside⟩ := lookup?_spec strict name.text st
  have found : SeesAt strict st (fun _ => True) (lookup? name.text) fun v o =>
      ∀ b, o = some b → (strict = true → b.initialized = true) → b.slot ∈ v :=
    ⟨evolves, fun Γ covered _ _ b hb => inside b hb Γ covered⟩
  refine found.bind ?_
  cases (lookup? name.text).answer st with
  | none =>
    have hole : Sees strict (fun _ => True)
        (do report (.undeclared name); return (← fillHole name, false)) fun v r => r.1 ∈ v :=
      (sees_hole (.undeclared name) name).bind fun s => Sees.pure fun v h => h
    exact (hole _).imp (fun _ _ => trivial) fun _ _ h => h
  | some b =>
    cases hb : b.initialized with
    | true =>
      simp only [hb, Bool.not_true, Bool.false_eq_true, if_false]
      exact Sees.pure (fun v h => h b rfl fun _ => hb) _
    | false =>
      simp only [hb, Bool.not_false, if_true]
      refine (sees_report _).bind (fun _ => Sees.pure fun v h => ?_) _
      exact h.1 b rfl fun hs => absurd hs (by simp [h.2])

/-- A variable that is assigned to gets a visible slot. -/
lemma sees_assigned (name : Name) :
    Sees strict (fun _ => True) (assigned name) fun v s => s ∈ v := by
  refine (sees_namedSlot name).bind fun r => ?_
  obtain ⟨slot, isClass⟩ := r
  cases isClass with
  | true => exact (sees_report _).bind fun _ => Sees.pure fun v h => h.1
  | false => exact Sees.pure fun v h => h

/-- A field is added to a side that is there. -/
lemma grows_addField (side : Side) (field : Slot × String) (fs : List FieldScope) :
    List.Forall₂ FieldScope.Grows fs (addField side field fs) := by
  induction fs with
  | nil => exact .nil
  | cons s rest ih =>
    rw [addField]
    split
    · exact .cons ⟨rfl, rfl, List.prefix_append _ _⟩ (List.forall₂_same.2 fun s _ => .refl s)
    · exact .cons (.refl s) ih

/-- A field that is added is among the slots of the sides around. -/
lemma mem_addField {side : Side} {field : Slot × String} {fs : List FieldScope} {s : FieldScope}
    (h : fs.find? (fun s => s.side = side) = some s) :
    field.1 ∈ (addField side field fs).flatMap FieldScope.slots := by
  induction fs with
  | nil => cases h
  | cons t rest ih =>
    rw [List.find?_cons] at h
    rw [addField]
    by_cases e : t.side = side
    · rw [if_pos e, List.flatMap_cons, FieldScope.slots]
      simp
    · rw [if_neg e, List.flatMap_cons]
      simp only [e, decide_false] at h
      exact List.mem_append_right _ (ih h)

/-- A field that is found is among the slots of its side. -/
lemma FieldScope.mem_slots_of_find? {s : FieldScope} {name : String} {slot : Slot}
    (h : s.find? name = some slot) : slot ∈ s.slots := by
  obtain ⟨f, hf, rfl⟩ := Option.map_eq_some_iff.1 h
  exact List.mem_cons_of_mem _ (List.mem_map_of_mem (List.mem_of_find?_eq_some hf))

/-- A field is looked up on the nearest side of its kind, and added there if it is new. -/
lemma run_field? (side : Side) (name : String) (st : Scopes) :
    StateT.run (field? side name) st = StateT.run
      (match st.fieldScopes.find? fun s => s.side = side with
      | none => return none
      | some s =>
        match s.find? name with
        | some slot => return some slot
        | none => do
          let slot ← fresh
          modify fun st => { st with fieldScopes := addField side (slot, name) st.fieldScopes }
          return some slot : Resolve (Option Slot)) st := rfl

/-- The slot of a field is one of the innermost side of its kind, and is there
unless there is no such side. -/
lemma sees_field? (strict : Bool) (side : Side) (name : String) (st : Scopes) :
    SeesAt strict st (fun _ => True) (field? side name) (fun v o => ∀ s, o = some s → s ∈ v) ∧
      ((field? side name).answer st = none →
        st.fieldScopes.find? (fun s => s.side = side) = none) := by
  simp only [SeesAt, answer, after]
  rw [run_field?]
  cases hf : st.fieldScopes.find? fun s => s.side = side with
  | none => exact ⟨⟨.refl st, fun _ _ _ _ s hs => by cases hs⟩, fun _ => rfl⟩
  | some f =>
    cases hn : f.find? name with
    | some slot =>
      simp only [hn]
      refine ⟨⟨.refl st, fun Γ _ _ _ s hs => ?_⟩, fun h => by cases h⟩
      cases hs
      exact Scopes.mem_visible_of_field Γ (List.mem_of_find?_eq_some hf)
        (FieldScope.mem_slots_of_find? hn)
    | none =>
      simp only [hn]
      refine ⟨⟨⟨⟨grows_addField side _ st.fieldScopes, List.prefix_rfl, List.prefix_rfl,
        id⟩, (Scopes.Evolves.refl st).scopes⟩, fun Γ _ _ _ s hs => ?_⟩,
        fun h => by cases h⟩
      cases hs
      exact List.mem_append_right _ (List.mem_append_left _ (mem_addField hf))

/-- A field of an instance is looked up where the innermost side is that of an instance. -/
lemma run_instanceField (name : Name) (st : Scopes) :
    StateT.run (instanceField name) st = StateT.run
      (match st.fieldScopes.head? with
      | none => do report (.fieldOutsideClass name); fillHole name
      | some ⟨.onClass, _, _⟩ => do report (.instanceFieldInStaticMethod name); fillHole name
      | some ⟨.onInstance, _, _⟩ => do
        match ← field? .onInstance name.text with
        | some slot => return slot
        | none => fillHole name : Resolve Slot) st := rfl

/-- A field of an instance gets a visible slot. -/
lemma sees_instanceField (name : Name) :
    Sees strict (fun _ => True) (instanceField name) fun v s => s ∈ v := by
  intro st
  rw [SeesAt, answer, after, run_instanceField]
  cases hh : st.fieldScopes.head? with
  | none => exact sees_hole _ name st
  | some f =>
    obtain ⟨side, receiver, fields⟩ := f
    cases side with
    | onClass => exact sees_hole _ name st
    | onInstance =>
      obtain ⟨sees, total⟩ := sees_field? strict .onInstance name.text st
      refine sees.bind ?_
      cases ho : (field? .onInstance name.text).answer st with
      | some slot => exact Sees.pure (fun v h => h slot rfl) _
      | none =>
        have absent := List.find?_eq_none.1 (total ho)
        exact absurd (decide_eq_true rfl) (absent _ (List.mem_of_mem_head? hh))

/-- A field of a class gets a visible slot. -/
lemma sees_staticField (name : Name) :
    Sees strict (fun _ => True) (staticField name) fun v s => s ∈ v := by
  intro st
  refine (sees_field? strict .onClass name.text st).1.bind ?_
  cases (field? .onClass name.text).answer st with
  | some slot => exact Sees.pure (fun v h => h slot rfl) _
  | none => exact (sees_hole _ name _).imp (fun _ _ => trivial) fun _ _ h => h

/-- The receiver is that of the innermost side. -/
lemma run_thisSlot (line : Line) (st : Scopes) :
    StateT.run (thisSlot line) st = StateT.run
      (match st.fieldScopes.head?.map FieldScope.receiver with
      | some slot => return slot
      | none => do
        report (.thisOutsideClass line)
        fillHole ⟨"this", line⟩ : Resolve Slot) st :=
  rfl

/-- The receiver is visible. -/
lemma sees_thisSlot (line : Line) :
    Sees strict (fun _ => True) (thisSlot line) fun v s => s ∈ v := by
  intro st
  rw [SeesAt, answer, after, run_thisSlot]
  cases hh : st.fieldScopes.head? with
  | none => exact sees_hole _ _ st
  | some f =>
    exact ⟨.refl st, fun Γ _ _ _ =>
      Scopes.mem_visible_of_field Γ (List.mem_of_mem_head? hh) (List.mem_cons_self ..)⟩

end Resolve

/-! ### Declarations -/

/-- The innermost scope changes from `s` to `s'`, those around it stay the same. -/
structure Inside (st : Scopes) (s : Scope) (st' : Scopes) (s' : Scope) : Prop
    extends Scopes.Advances st st' where
  scopes : ∃ rest rest', st.scopes = s :: rest ∧ st'.scopes = s' :: rest' ∧
    List.Forall₂ Scope.Same rest rest'

/-- What happens in one scope, one step after the other. -/
lemma Inside.trans {st st' st'' : Scopes} {s s' s'' : Scope} (h : Inside st s st' s')
    (h' : Inside st' s' st'' s'') : Inside st s st'' s'' := by
  obtain ⟨rest, rest', e, e', same⟩ := h.scopes
  obtain ⟨rest₁, rest'', e₁, e'', same'⟩ := h'.scopes
  rw [e'] at e₁
  cases e₁
  exact ⟨h.toAdvances.trans h'.toAdvances, rest, rest'', e, e'', forall₂_trans .trans same same'⟩

/-- A step that leaves the scopes the same leaves the innermost one the same. -/
lemma Scopes.Evolves.inside {st st' : Scopes} (h : st.Evolves st') {s : Scope} {rest : List Scope}
    (e : st.scopes = s :: rest) : ∃ s', Inside st s st' s' ∧ s.Same s' := by
  have scopes := h.scopes
  rw [e] at scopes
  generalize e' : st'.scopes = scopes' at scopes
  cases scopes with
  | @cons _ s' _ rest' hs hrest => exact ⟨s', ⟨h.toAdvances, rest, rest', e, e', hrest⟩, hs⟩

/-- What covers the innermost scope and the scopes around it covers them all. -/
lemma Inside.covered {strict : Bool} {own own' : List Slot} {Γ : List (List Slot)}
    {st st' : Scopes} {s s' : Scope} (h : Inside st s st' s')
    (covered : st.Covered strict (own :: Γ)) (hs : s'.Covered strict own') :
    st'.Covered strict (own' :: Γ) := by
  obtain ⟨rest, rest', e, e', same⟩ := h.scopes
  have scopes := covered.scopes
  rw [e] at scopes
  cases scopes with
  | cons _ hrest =>
    refine ⟨?_, h.bound covered.globals⟩
    rw [e']
    exact .cons hs (Scopes.covered_same same hrest)

/-- What covers all scopes covers the innermost one. -/
lemma Inside.head_covered {strict : Bool} {own : List Slot} {Γ : List (List Slot)}
    {st st' : Scopes} {s s' : Scope} (h : Inside st s st' s')
    (covered : st.Covered strict (own :: Γ)) : s.Covered strict own := by
  obtain ⟨rest, _, e, _, _⟩ := h.scopes
  have scopes := covered.scopes
  rw [e] at scopes
  cases scopes with
  | cons hs _ => exact hs

namespace Scope

/-- A scope with one more name declared. -/
def declared (s : Scope) (b : Binding) : Scope :=
  { s.put b with names := s.names ++ [(b.slot, b.text)] }

/-- After a declaration a name is bound to what is declared, or to what it was bound to. -/
lemma find?_declared {s : Scope} {b c : Binding} {t : String}
    (h : (s.declared b).find? t = some c) : c = b ∨ s.find? t = some c :=
  find?_put h

/-- What is declared is found under its name. -/
lemma find?_declared_self (s : Scope) (b : Binding) : (s.declared b).find? b.text = some b :=
  find?_put_self s b

end Scope

namespace Resolve

variable {strict : Bool}

/-- A declaration adds a binding with the next slot to the innermost scope. -/
lemma after_declare (name : Name) (kind : BindingKind) (initialized : Bool) {st : Scopes}
    {s : Scope} {rest : List Scope} (e : st.scopes = s :: rest) :
    ∃ problems, st.problems <+: problems ∧ (declare name kind initialized).after st =
      { st with
        nextSlot := st.nextSlot.next
        scopes := s.declared ⟨name, st.nextSlot, kind, initialized, false⟩ :: rest
        problems } := by
  obtain ⟨next, scopes, globalScope, fieldScopes, enclosing, globals, problems⟩ := st
  cases e
  simp only [declare, after_bind]
  split
  · exact ⟨problems ++ [.alreadyDeclared name], List.prefix_append _ _, rfl⟩
  · exact ⟨problems, List.prefix_rfl, rfl⟩

/-- A declaration happens in the innermost scope. -/
lemma inside_declare (name : Name) (kind : BindingKind) (initialized : Bool) {st : Scopes}
    {s : Scope} {rest : List Scope} (e : st.scopes = s :: rest) :
    Inside st s ((declare name kind initialized).after st)
      (s.declared ⟨name, st.nextSlot, kind, initialized, false⟩) := by
  obtain ⟨problems, more, run⟩ := after_declare name kind initialized e
  rw [run]
  exact ⟨⟨(Scopes.Advances.refl st).fields, List.prefix_rfl, more, id⟩, rest, rest, e,
    rfl, List.forall₂_same.2 fun s _ => .refl s⟩

/-- What is declared gets the next slot. -/
lemma answer_declare (name : Name) (kind : BindingKind) (initialized : Bool) (st : Scopes) :
    (declare name kind initialized).answer st = st.nextSlot := by
  simp only [declare, answer_bind]
  split <;> rfl

end Resolve

open Resolve

/-- The names of the classes among statements. -/
def classNames : List Syntax.Stmt → List String
  | [] => []
  | .cls name _ :: rest => name.text :: classNames rest
  | _ :: rest => classNames rest

/-- What the declaration of classes makes of the innermost scope: their names
stand for the slots that they will be filed under. -/
structure Hoists (declared : List String) (st : Scopes) (s : Scope)
    (hoisted : List (String × Slot)) (st' : Scopes) (s' : Scope) : Prop extends
    Inside st s st' s' where
  classes : s'.classes = s.classes
  names : s'.names.map Prod.fst = s.names.map Prod.fst ++ (hoisted.map Prod.snd).reverse
  lookup : ∀ t slot, hoisted.lookup t = some slot → t ∈ declared
  find : ∀ t b, s'.find? t = some b →
    hoisted.lookup t = some b.slot ∨ hoisted.lookup t = none ∧ s.find? t = some b

/-- One class is found under its name and nowhere else. -/
lemma lookup_singleton (t name : String) (slot : Slot) :
    [(name, slot)].lookup t = if t = name then some slot else none := by
  by_cases e : t = name
  · rw [if_pos e, e, List.lookup_cons_self]
  · rw [if_neg e, List.lookup_cons, beq_false_of_ne e]
    rfl

/-- All classes of a block are declared in its scope, each under a slot of its own. -/
lemma hoists (body : List Syntax.Stmt) {st : Scopes} {s : Scope} {rest : List Scope}
    (e : st.scopes = s :: rest) :
    ∃ s', Hoists (classNames body) st s ((hoist body).answer st) ((hoist body).after st) s' := by
  induction body generalizing st s rest with
  | nil =>
    exact ⟨s, ⟨⟨.refl st, rest, rest, e, e, List.forall₂_same.2 fun s _ => .refl s⟩, rfl,
      (List.append_nil _).symm, fun t slot h => (nomatch h), fun t b h => .inr ⟨rfl, h⟩⟩⟩
  | cons x body ih =>
    cases x with
    | cls name methods =>
      have inside := inside_declare name .cls true e
      obtain ⟨_, rest', _, e', _⟩ := inside.scopes
      obtain ⟨s', later⟩ := ih e'
      simp only [hoist, answer_bind, after_bind, answer_pure, after_pure, answer_declare]
      generalize (hoist body).answer _ = hoisted at later
      refine ⟨s', inside.trans later.toInside, later.classes, ?_, fun t slot h => ?_,
        fun t b h => ?_⟩
      · rw [later.names, List.map_append, List.reverse_append]
        simp [Scope.declared]
      -- of two declarations of a name the later one is looked up, and is the one bound
      · rw [List.lookup_append, Option.or_eq_some_iff] at h
        rcases h with h | ⟨_, h⟩
        · exact List.mem_cons_of_mem _ (later.lookup t slot h)
        · by_cases ht : t = name.text
          · exact ht ▸ List.mem_cons_self ..
          · rw [lookup_singleton, if_neg ht] at h
            cases h
      · rw [List.lookup_append]
        rcases later.find t b h with h | ⟨none, h⟩
        · exact .inl (by rw [h, Option.some_or])
        · rw [none, Option.none_or]
          by_cases ht : t = name.text
          · subst ht
            have new := Scope.find?_declared_self s ⟨name, st.nextSlot, .cls, true, false⟩
            rw [Binding.text, h] at new
            cases new
            exact .inl (by rw [lookup_singleton, if_pos rfl])
          · refine .inr ⟨by rw [lookup_singleton, if_neg ht], ?_⟩
            rcases Scope.find?_declared h with rfl | h
            · exact absurd (Scope.text_of_find? h).symm ht
            · exact h
    | block _ | branch _ _ _ _ | loop _ _ _ | var _ _ | ret _ _ | eval _ =>
      simpa only [hoist, classNames] using ih e

/-! ### Statements -/

/-- Classes are filed in the order of their slots, each slot once. -/
def SortedKeys (classes : List (Slot × Program.ClassDecl)) : Prop :=
  classes.Pairwise fun c d => c.1.index < d.1.index

/-- What resolved statements of a block have done to its scope: their variables
are declared, and the classes called `declared` are filed under the slots they
were hoisted with. -/
structure Declares (strict : Bool) (hoisted : List (String × Slot)) (declared : List String)
    (st : Scopes) (s : Scope) (st' : Scopes) (s' : Scope) (ss : List Program.Stmt) : Prop
    extends Inside st s st' s' where
  names : s'.names.map Prod.fst = s.names.map Prod.fst ++ ss.flatMap Program.Stmt.own
  sorted : SortedKeys s.classes → SortedKeys s'.classes
  kept : s.classes.map Prod.fst ⊆ s'.classes.map Prod.fst
  filed : ∀ t ∈ declared, ∀ slot, hoisted.lookup t = some slot → slot ∈ s'.classes.map Prod.fst
  keys : ∀ k ∈ s'.classes.map Prod.fst, k ∈ s.classes.map Prod.fst ∨ ∃ t, hoisted.lookup t = some k
  closed : ∀ own Γ, st.Covered strict (own :: Γ) → st'.Fine strict →
    st'.Covered strict ((ss.flatMap Program.Stmt.own ++ own) :: Γ) ∧
      Program.stmtClosed strict (st'.visible (own :: Γ)) ss ∧
      ∀ c ∈ s'.classes, c ∈ s.classes ∨
        c.2.Closed strict (st'.visible ((ss.flatMap Program.Stmt.own ++ own) :: Γ))

variable {strict : Bool} {hoisted : List (String × Slot)} {declared declared' : List String}
  {st st' st'' : Scopes} {s s' s'' : Scope} {ss ss' : List Program.Stmt}

/-- A step within the scope that declares nothing and yields one statement. -/
lemma Declares.quiet {x : Program.Stmt} (evolves : st.Evolves st') {rest : List Scope}
    (e : st.scopes = s :: rest)
    (closed : ∀ Γ, st.Covered strict Γ → st'.Fine strict → x.Closed strict (st'.visible Γ))
    (own : x.own = []) :
    ∃ s', Declares strict hoisted [] st s st' s' [x] := by
  obtain ⟨s', inside, same⟩ := evolves.inside e
  have none : [x].flatMap Program.Stmt.own = [] := by
    rw [List.flatMap_singleton, own]
  refine ⟨s', inside, ?_, fun h => ?_, ?_, fun t h => absurd h List.not_mem_nil, fun k hk => ?_,
    fun own Γ covered fine => ?_⟩
  · rw [same.names, none, List.append_nil]
  · rwa [same.classes]
  · rw [same.classes]
    exact List.Subset.refl _
  · exact .inl (same.classes ▸ hk)
  · rw [none, List.nil_append]
    exact ⟨evolves.covered covered, ⟨closed _ covered fine, trivial⟩, fun c hc =>
      .inl (same.classes ▸ hc)⟩

/-- Statements one after the other do to their scope what the parts of them do. -/
lemma Declares.trans (h : Declares strict hoisted declared st s st' s' ss)
    (h' : Declares strict hoisted declared' st' s' st'' s'' ss') :
    Declares strict hoisted (declared ++ declared') st s st'' s'' (ss ++ ss') where
  toInside := h.toInside.trans h'.toInside
  names := by rw [h'.names, h.names, List.append_assoc, List.flatMap_append]
  sorted := h'.sorted ∘ h.sorted
  kept := List.Subset.trans h.kept h'.kept
  filed t ht slot hslot := by
    rcases List.mem_append.1 ht with ht | ht
    · exact h'.kept (h.filed t ht slot hslot)
    · exact h'.filed t ht slot hslot
  keys k hk := (h'.keys k hk).elim (h.keys k) .inr
  closed own Γ covered fine := by
    have fine' : st'.Fine strict := h'.toAdvances.fine fine
    obtain ⟨covered', first, classes⟩ := h.closed own Γ covered fine'
    obtain ⟨covered'', second, classes'⟩ := h'.closed _ Γ covered' fine
    have all : ss'.flatMap Program.Stmt.own ++ (ss.flatMap Program.Stmt.own ++ own) ⊆
        (ss ++ ss').flatMap Program.Stmt.own ++ own := by
      intro x hx
      simp only [List.flatMap_append, List.mem_append] at hx ⊢
      tauto
    refine ⟨covered''.head_mono all, Program.stmtClosed_append
      (Program.stmtClosed_mono (h'.toAdvances.visible _) ss first)
      (Program.stmtClosed_mono (fun x hx => ?_) ss' second), fun c hc => ?_⟩
    · simp only [Scopes.visible, List.flatten_cons, List.mem_append] at hx ⊢
      tauto
    · rcases classes' c hc with hc | hc
      · refine (classes c hc).imp_right fun hclosed => Program.ClassDecl.Closed.mono ?_ _ hclosed
        refine List.Subset.trans (h'.toAdvances.visible _) (Scopes.visible_head_mono Γ st'' ?_)
        intro x hx
        simp only [List.flatMap_append, List.mem_append] at hx ⊢
        tauto
      · exact .inr (Program.ClassDecl.Closed.mono (Scopes.visible_head_mono Γ st'' all) _ hc)

namespace Resolve

/-- A scope of its own is closed again. -/
lemma after_closeScope {rest : List Scope} (e : st.scopes = s :: rest) :
    closeScope.answer st = s ∧ closeScope.after st =
      { st with
        scopes := rest
        problems := st.problems ++ s.bindings.filterMap Binding.unusedProblem? } := by
  obtain ⟨next, scopes, globalScope, fieldScopes, enclosing, globals, problems⟩ := st
  cases e
  exact ⟨rfl, rfl⟩

/-- What is done in a scope of its own leaves the scopes around it the same. -/
lemma evolves_closeScope (strict : Bool) (h : Inside (openScope.after st) .empty st' s') :
    closeScope.answer st' = s' ∧ st.Evolves (closeScope.after st') ∧
      (∀ Γ, (closeScope.after st').visible Γ = st'.visible Γ) ∧
      ((closeScope.after st').Fine strict → st'.Fine strict) := by
  obtain ⟨rest, rest', e, e', same⟩ := h.scopes
  cases e
  obtain ⟨answer, after⟩ := after_closeScope e'
  rw [after]
  exact ⟨answer, ⟨⟨h.fields, h.globals, h.problems.trans (List.prefix_append _ _),
    h.bound⟩, same⟩, fun _ => rfl, fun fine hs => (List.append_eq_nil_iff.1 (fine hs)).1⟩

/-- The statements of a block, resolved in a scope in which its classes have been
declared. -/
def blockOf (body : List Syntax.Stmt)
    (walk : List (String × Slot) → Resolve (List Program.Stmt)) : Resolve Program.Block :=
  inScope do walk (← hoist body)

/-- What the scope of a block has gone through when the block is made of it. -/
lemma blockOf_spec {body : List Syntax.Stmt}
    {walk : List (String × Slot) → Resolve (List Program.Stmt)}
    (hw : ∀ hoisted (st : Scopes) s rest, st.scopes = s :: rest →
      ∃ s', Declares strict hoisted (classNames body) st s ((walk hoisted).after st) s'
        ((walk hoisted).answer st)) (st : Scopes) :
    ∃ hoisted st₁ s₁ st₂ s₂ ss,
      hoisted = (hoist body).answer (openScope.after st) ∧
      Hoists (classNames body) (openScope.after st) .empty hoisted st₁ s₁ ∧
      Declares strict hoisted (classNames body) st₁ s₁ st₂ s₂ ss ∧
      (blockOf body walk).answer st = ⟨ss, s₂.names, s₂.classes⟩ ∧
      (blockOf body walk).after st = closeScope.after st₂ := by
  obtain ⟨s₁, hoists⟩ := hoists body
    (show (openScope.after st).scopes = .empty :: st.scopes from rfl)
  obtain ⟨_, rest₁, _, e₁, _⟩ := hoists.scopes
  obtain ⟨s₂, declares⟩ := hw ((hoist body).answer (openScope.after st)) _ s₁ rest₁ e₁
  obtain ⟨_, rest₂, _, e₂, _⟩ := declares.scopes
  refine ⟨_, _, s₁, _, s₂, _, rfl, hoists, declares, ?_, rfl⟩
  simp only [blockOf, inScope, answer_bind, after_bind, answer_pure]
  rw [(after_closeScope e₂).1]

/-- A block is closed in what is visible around it. -/
lemma sees_blockOf {body : List Syntax.Stmt}
    {walk : List (String × Slot) → Resolve (List Program.Stmt)}
    (hw : ∀ hoisted (st : Scopes) s rest, st.scopes = s :: rest →
      ∃ s', Declares strict hoisted (classNames body) st s ((walk hoisted).after st) s'
        ((walk hoisted).answer st)) :
    Sees strict (fun _ => True) (blockOf body walk) fun v b => b.Closed strict v := by
  intro st
  obtain ⟨hoisted, st₁, s₁, st₂, s₂, ss, _, hoists, declares, answer, after⟩ := blockOf_spec hw st
  have inside := hoists.toInside.trans declares.toInside
  obtain ⟨_, evolves, visible, fine⟩ := evolves_closeScope strict inside
  rw [SeesAt, after, answer]
  refine ⟨evolves, fun Γ covered hfine _ => ?_⟩
  rw [visible]
  -- the slots of the classes cover the scope once they have been declared
  have names : s₁.Covered strict (s₂.classes.map Prod.fst) := by
    intro t b hb _
    rcases hoists.find t b hb with h | ⟨_, h⟩
    · exact declares.filed t (hoists.lookup t _ h) _ h
    · cases h
  have covered₁ : st₁.Covered strict (s₂.classes.map Prod.fst :: Γ) := by
    obtain ⟨rest, rest', e, e', same⟩ := hoists.scopes
    cases e
    refine ⟨?_, hoists.bound covered.globals⟩
    rw [e']
    exact .cons names (Scopes.covered_same same covered.scopes)
  obtain ⟨_, statements, classes⟩ := declares.closed _ Γ covered₁ (fine hfine)
  have before : s₁.classes = [] := hoists.classes
  refine ⟨Program.stmtClosed_mono (fun x hx => ?_) ss statements,
    Program.classClosed_iff.2 fun c hc => ?_⟩
  · simp only [Scopes.visible, List.flatten_cons, List.mem_append] at hx ⊢
    tauto
  · rcases classes c hc with h | h
    · rw [before] at h
      cases h
    · refine Program.ClassDecl.Closed.mono (fun x hx => ?_) _ h
      simp only [Scopes.visible, List.flatten_cons, List.mem_append] at hx ⊢
      tauto

/-! ### Methods and classes -/

/-- Parameters are declared one by one. -/
lemma inside_params (names : List Name) {st : Scopes} {s : Scope} {rest : List Scope}
    (e : st.scopes = s :: rest) :
    let x : Resolve (List Slot) := names.mapM fun p => declare p .param true
    ∃ s', Inside st s (x.after st) s' ∧ s'.classes = s.classes ∧
      s'.names.map Prod.fst = s.names.map Prod.fst ++ x.answer st ∧
      ∀ t b, s'.find? t = some b → b.slot ∈ x.answer st ∨ s.find? t = some b := by
  induction names generalizing st s rest with
  | nil =>
    exact ⟨s, ⟨.refl st, rest, rest, e, e, List.forall₂_same.2 fun s _ => .refl s⟩, rfl,
      (List.append_nil _).symm, fun t b h => .inr h⟩
  | cons name names ih =>
    have inside := inside_declare name .param true e
    obtain ⟨_, rest', _, e', _⟩ := inside.scopes
    obtain ⟨s', later, classes, names', find⟩ := ih e'
    simp only [List.mapM_cons, answer_bind, after_bind, answer_pure, after_pure, answer_declare]
    refine ⟨s', inside.trans later, classes, ?_, fun t b h => ?_⟩
    · rw [names']
      simp [Scope.declared]
    · rcases find t b h with h | h
      · exact .inl (List.mem_cons_of_mem _ h)
      · rcases Scope.find?_declared h with rfl | h
        · exact .inl (List.mem_cons_self ..)
        · exact .inr h

/-- The body of a method sees its parameters. -/
lemma sees_method (name : String) (params : Option (List Name)) (line : Line)
    {body : Resolve Program.Block}
    (hbody : Sees strict (fun _ => True) body fun v b => b.Closed strict v) :
    Sees strict (fun _ => True) (method name params line body) fun v m =>
      m.body.Closed strict (m.params.getD [] ++ v) := by
  intro st
  let declared : Resolve (Option (List Slot)) :=
    params.mapM fun names => names.mapM fun p => declare p .param true
  -- the parameters are declared in a scope of their own, with nothing in it yet
  obtain ⟨s₁, inside, cover⟩ : ∃ s₁, Inside (openScope.after st) .empty
      (declared.after (openScope.after st)) s₁ ∧
      s₁.Covered strict ((declared.answer (openScope.after st)).getD []) := by
    cases params with
    | none =>
      exact ⟨.empty, ⟨.refl _, st.scopes, st.scopes, rfl, rfl,
        List.forall₂_same.2 fun s _ => .refl s⟩,
        fun t b h => nomatch h⟩
    | some names =>
      obtain ⟨s₁, inside, _, _, find⟩ :=
        inside_params names (show (openScope.after st).scopes = .empty :: st.scopes from rfl)
      refine ⟨s₁, inside, fun t b h _ => ?_⟩
      rcases find t b h with h | h
      · exact h
      · cases h
  obtain ⟨rest, rest₁, e, e₁, same⟩ := inside.scopes
  cases e
  obtain ⟨evolves, closed⟩ := hbody (declared.after (openScope.after st))
  obtain ⟨s₂, inside₂, _⟩ := evolves.inside e₁
  obtain ⟨answer, evolves', visible, fine⟩ :=
    evolves_closeScope strict (inside.trans inside₂)
  refine ⟨evolves', fun Γ covered hfine _ => ?_⟩
  -- what is bound in the scope of the parameters is just these
  have covered₁ : (declared.after (openScope.after st)).Covered strict
      ((declared.answer (openScope.after st)).getD [] :: Γ) := by
    refine ⟨?_, inside.bound covered.globals⟩
    rw [e₁]
    exact .cons cover (Scopes.covered_same same covered.scopes)
  have hclosed := closed _ covered₁ (fine hfine) trivial
  refine Program.Block.Closed.mono (fun x hx => ?_) _ hclosed
  change x ∈ (declared.answer (openScope.after st)).getD [] ++
    (closeScope.after (body.after (declared.after (openScope.after st)))).visible Γ
  rw [visible]
  simp only [Scopes.visible, List.flatten_cons, List.mem_append] at hx ⊢
  tauto

variable {α : Type} {P : List Slot → Prop} {C : List Slot → α → Prop}

/-- What is done on one side of a class ends with that side, which has grown. -/
lemma run_withFields (side : FieldScope) {walk : Resolve α} {st : Scopes}
    (evolves : Scopes.Evolves { st with fieldScopes := side :: st.fieldScopes }
      (walk.after { st with fieldScopes := side :: st.fieldScopes })) :
    ∃ side' rest', side.Grows side' ∧ List.Forall₂ FieldScope.Grows st.fieldScopes rest' ∧
      (walk.after { st with fieldScopes := side :: st.fieldScopes }).fieldScopes = side' :: rest' ∧
      (withFields side walk).answer st =
        (walk.answer { st with fieldScopes := side :: st.fieldScopes }, side') ∧
      (withFields side walk).after st =
        { walk.after { st with fieldScopes := side :: st.fieldScopes } with
          fieldScopes := rest' } := by
  let st₀ : Scopes := { st with fieldScopes := side :: st.fieldScopes }
  have grows : List.Forall₂ FieldScope.Grows (side :: st.fieldScopes)
      (walk.after st₀).fieldScopes :=
    evolves.fields
  obtain ⟨side', rest', hside, hrest, e⟩ := List.forall₂_cons_left_iff.1 grows
  have answer : (withFields side walk).answer st =
      (walk.answer st₀, (walk.after st₀).fieldScopes.headD side) := rfl
  have after : (withFields side walk).after st =
      { walk.after st₀ with fieldScopes := (walk.after st₀).fieldScopes.tail } := rfl
  rw [e] at answer after
  exact ⟨side', rest', hside, hrest, e, answer, after⟩

/-- What is done on one side of a class sees the receiver and the fields there,
as far as they are known in the end. -/
lemma sees_withFields {side : FieldScope} {walk : Resolve α} (hP : Upward P)
    (hC : ∀ a, Upward (C · a)) (hwalk : Sees strict P walk C) :
    Sees strict (fun v => P (side.slots ++ v)) (withFields side walk) fun v r =>
      C (r.2.slots ++ v) r.1 ∧ side.Grows r.2 := by
  intro st
  obtain ⟨evolves, closed⟩ := hwalk { st with fieldScopes := side :: st.fieldScopes }
  obtain ⟨side', rest', hside, hrest, e, answer, after⟩ := run_withFields _ evolves
  rw [SeesAt, answer, after]
  refine ⟨⟨⟨hrest, evolves.globals, evolves.problems, evolves.bound⟩,
    evolves.scopes⟩, fun Γ covered fine hp => ⟨?_, hside⟩⟩
  refine hC _ (fun x hx => ?_) (closed Γ ⟨covered.scopes, covered.globals⟩ fine (hP ?_ hp))
  · simp only [Scopes.visible, e, List.flatMap_cons, List.mem_append] at hx ⊢
    tauto
  · intro x hx
    simp only [Scopes.visible, List.flatMap_cons, List.mem_append] at hx ⊢
    tauto

/-- Inside of a class the same is visible. -/
lemma sees_insideClass {slot : Slot} {walk : Resolve α} (hwalk : Sees strict P walk C) :
    Sees strict P (insideClass slot walk) C := by
  intro st
  let st₀ : Scopes := { st with enclosing := slot :: st.enclosing }
  obtain ⟨evolves, closed⟩ := hwalk st₀
  exact ⟨⟨⟨evolves.fields, evolves.globals, evolves.problems, evolves.bound⟩,
    evolves.scopes⟩, fun Γ covered fine hp => closed Γ ⟨covered.scopes, covered.globals⟩ fine hp⟩

end Resolve

/-- The members of a class are closed: static methods in what is visible, the
others together with the side of the instance. -/
structure Resolve.Members.Closed (strict : Bool) (v : List Slot) (m : Members) : Prop where
  constructors : Program.methodClosed strict (m.instanceSide.slots ++ v) m.constructors
  staticMethods : Program.methodClosed strict v m.staticMethods
  methods : Program.methodClosed strict (m.instanceSide.slots ++ v) m.methods

namespace Resolve

/-- Members stay closed where the side of the instance grows and more is visible. -/
lemma Members.Closed.mono {v w : List Slot} {m : Members} (h : m.Closed strict v)
    {side : FieldScope} (grows : m.instanceSide.Grows side) (sub : v ⊆ w) :
    ({ m with instanceSide := side } : Members).Closed strict w := by
  have both : m.instanceSide.slots ++ v ⊆ side.slots ++ w :=
    List.append_subset.2 ⟨List.subset_append_of_subset_left _ grows.slots,
      List.subset_append_of_subset_right _ sub⟩
  exact ⟨Program.methodClosed_mono both _ h.constructors,
    Program.methodClosed_mono sub _ h.staticMethods, Program.methodClosed_mono both _ h.methods⟩

/-- A closed method is added to the table of its kind. -/
lemma methodClosed_insertByKey {v : List Slot} {x : Program.Method} {ms : List Program.Method}
    (hms : Program.methodClosed strict v ms)
    (hx : x.body.Closed strict (x.params.getD [] ++ v)) :
    Program.methodClosed strict v (insertByKey Program.Method.selector x ms) := by
  rw [Program.methodClosed_iff] at hms ⊢
  intro m hm
  rcases mem_insertByKey hm with rfl | hm
  · exact hx
  · exact hms m hm

/-- The body of a method stays closed where more is visible. -/
lemma upward_method (m : Program.Method) :
    Upward fun v => m.body.Closed strict (m.params.getD [] ++ v) :=
  fun _ _ sub h => Program.Block.Closed.mono (Program.append_subset_append_left _ sub) _ h

/-- Members stay closed where more is visible. -/
lemma upward_members (m : Members) : Upward fun v => m.Closed strict v :=
  fun _ _ sub h => h.mono (.refl _) sub

/-- What follows a mistake that may have been noted. -/
lemma sees_reportIf {β : Type} {P : List Slot → Prop} {D : List Slot → β → Prop} (c : Prop)
    [Decidable c] (p : ScopeProblem) {x : Resolve β} (hx : Sees strict P x D) :
    Sees strict P (if c then (do report p; x) else x) D := by
  by_cases h : c
  · simp only [if_pos h]
    exact ((sees_report p).imp (fun _ h => h) fun _ _ h => h.1).bind fun _ => hx
  · simp only [if_neg h]
    exact hx

/-- A member is closed if its body is, on the side where it stands. -/
lemma sees_member (cls : String) (m : Members) (kind : Syntax.MethodKind) (name : Name)
    {walk : Resolve Program.Method}
    (hwalk : Sees strict (fun _ => True) walk fun v x =>
      x.body.Closed strict (x.params.getD [] ++ v)) :
    Sees strict (fun v => m.Closed strict v) (member cls m kind name walk) fun v m' =>
      m'.Closed strict v ∧ m.instanceSide.Grows m'.instanceSide := by
  have onInstance : Sees strict (fun v => m.Closed strict v) (withFields m.instanceSide walk)
      fun v r => (r.1.body.Closed strict (r.1.params.getD [] ++ (r.2.slots ++ v)) ∧
        m.instanceSide.Grows r.2) ∧ m.Closed strict v :=
    ((sees_withFields upward_true upward_method hwalk).keep (upward_members m)).imp
      (fun _ h => ⟨trivial, h⟩) fun _ _ h => h
  cases kind with
  | onClass =>
    refine hwalk.andThen (upward_members m) fun x => sees_reportIf _ _ (Sees.pure fun v h => ?_)
    exact ⟨⟨h.2.constructors, methodClosed_insertByKey h.2.staticMethods h.1, h.2.methods⟩,
      .refl _⟩
  | construct =>
    refine onInstance.bind fun r => sees_reportIf _ _ (Sees.pure fun v h => ?_)
    obtain ⟨⟨hx, grows⟩, hm⟩ := h
    have hm' := hm.mono grows (List.Subset.refl v)
    exact ⟨⟨methodClosed_insertByKey hm'.constructors hx, hm'.staticMethods, hm'.methods⟩, grows⟩
  | onInstance =>
    refine onInstance.bind fun r => sees_reportIf _ _ (Sees.pure fun v h => ?_)
    obtain ⟨⟨hx, grows⟩, hm⟩ := h
    have hm' := hm.mono grows (List.Subset.refl v)
    exact ⟨⟨hm'.constructors, hm'.staticMethods, methodClosed_insertByKey hm'.methods hx⟩, grows⟩

/-- A class is closed if its members are. -/
lemma sees_classDecl (name : Name) {walk : Members → Resolve Members}
    (hwalk : ∀ m, Sees strict (fun v => m.Closed strict v) (walk m) fun v m' =>
      m'.Closed strict v ∧ m.instanceSide.Grows m'.instanceSide) :
    Sees strict (fun _ => True) (classDecl name walk) fun v c => c.Closed strict v := by
  refine (sees_of_evolves (P := fun _ => True) evolves_fresh).bind fun receiver => ?_
  refine (sees_of_evolves evolves_fresh).bind fun staticReceiver => ?_
  have start : ∀ v, (Members.start receiver).Closed strict v :=
    fun v => ⟨trivial, trivial, trivial⟩
  have inside : Sees strict _
      (withFields ⟨.onClass, staticReceiver, []⟩ (walk (.start receiver))) _ :=
    sees_withFields (upward_members (.start receiver))
      (fun m' => Upward.and (upward_members m') fun _ _ _ h => h) (hwalk (.start receiver))
  refine (inside.imp (fun v _ => start _) fun _ _ h => h).bind fun r => Sees.pure fun v h => ?_
  obtain ⟨m, statics⟩ := r
  obtain ⟨⟨hm, grows⟩, grows'⟩ := h
  have hi : m.instanceSide.slots = receiver :: m.instanceSide.fields.map Prod.fst := by
    rw [FieldScope.slots, grows.receiver]
    rfl
  have hs : statics.slots = staticReceiver :: statics.fields.map Prod.fst := by
    rw [FieldScope.slots, grows'.receiver]
  obtain ⟨constructors, staticMethods, methods⟩ := hm
  rw [hi, hs] at constructors methods
  rw [hs] at staticMethods
  exact ⟨constructors, staticMethods, methods⟩

end Resolve

/-! ### The walk -/

/-- A statement that declares nothing in the scope around it. -/
def IsQuiet : Syntax.Stmt → Prop
  | .var _ _ | .cls _ _ => False
  | _ => True

/-- What resolution makes of a statement. -/
structure Yields (strict : Bool) (s : Syntax.Stmt) : Prop where
  quiet : IsQuiet s → ∀ hoisted st,
    (∃ x, (resolveStmt hoisted s).answer st = some x ∧ x.own = []) ∧
      SeesAt strict st (fun _ => True) (resolveStmt hoisted s) fun v o =>
        ∀ x, o = some x → x.Closed strict v
  declares : ∀ hoisted (st : Scopes) scope rest, st.scopes = scope :: rest →
    ∃ scope', Declares strict hoisted (classNames [s]) st scope
      ((resolveStmt hoisted s).after st) scope' ((resolveStmt hoisted s).answer st).toList

/-- A statement that declares nothing leaves the scope around it the same. -/
lemma Yields.of_quiet {s : Syntax.Stmt} (none : classNames [s] = [])
    (quiet : ∀ hoisted st,
      (∃ x, (resolveStmt hoisted s).answer st = some x ∧ x.own = []) ∧
        SeesAt strict st (fun _ => True) (resolveStmt hoisted s) fun v o =>
          ∀ x, o = some x → x.Closed strict v) : Yields strict s := by
  refine ⟨fun _ => quiet, fun hoisted st scope rest e => ?_⟩
  obtain ⟨⟨x, hx, own⟩, evolves, closed⟩ := quiet hoisted st
  rw [none, hx, Option.toList_some]
  exact Declares.quiet evolves e (fun Γ covered fine => closed Γ covered fine trivial x hx) own

/-- A statement made of one step, which sees what it mentions. -/
lemma Yields.of_sees {α : Type} {s : Syntax.Stmt} (walk : Resolve α) (make : α → Program.Stmt)
    (none : classNames [s] = [])
    (run : ∀ hoisted, resolveStmt hoisted s = do return some (make (← walk)))
    (own : ∀ a, (make a).own = [])
    (sees : Sees strict (fun _ => True) walk fun v a => (make a).Closed strict v) :
    Yields strict s := by
  refine .of_quiet none fun hoisted st => ?_
  rw [run]
  refine ⟨⟨_, rfl, own _⟩, (sees st).bind ?_⟩
  refine Sees.pure (fun v h x hx => ?_) _
  cases hx
  exact h

namespace Resolve

/-- A branch is closed, and what it declares stays in a scope of its own. -/
lemma sees_branch {s : Syntax.Stmt} (hs : Yields strict s) :
    Sees strict (fun _ => True) (branch s fun hoisted => resolveStmt hoisted s) fun v x =>
      x.own = [] ∧ x.Closed strict v := by
  have enclosed : Sees strict (fun _ => True)
      (blockOf [s] fun hoisted => do return (← resolveStmt hoisted s).toList) fun v b =>
        b.Closed strict v :=
    sees_blockOf fun hoisted st scope rest e => hs.declares hoisted st scope rest e
  have inner (quiet : IsQuiet s) : Sees strict (fun _ => True)
      (do return (← resolveStmt [] s).getD (.block .empty)) fun v x =>
        x.own = [] ∧ x.Closed strict v := by
    intro st
    obtain ⟨⟨x, hx, own⟩, sees⟩ := hs.quiet quiet [] st
    refine sees.bind ?_
    rw [hx]
    exact Sees.pure (fun v h => ⟨own, h x rfl⟩) _
  cases s with
  | var name init => exact enclosed.bind fun b => Sees.pure fun v h => ⟨rfl, h⟩
  | cls name methods => exact enclosed.bind fun b => Sees.pure fun v h => ⟨rfl, h⟩
  | block _ | branch _ _ _ _ | loop _ _ _ | ret _ _ | eval _ => exact inner trivial

/-- A change of the innermost scope alone. -/
lemma inside_modifyInnermost (f : Scope → Scope) {st : Scopes} {s : Scope} {rest : List Scope}
    (e : st.scopes = s :: rest) : Inside st s ((modifyInnermost f).after st) (f s) := by
  have run : (modifyInnermost f).after st = { st with scopes := f s :: rest } := by
    simp only [modifyInnermost, after_modify, e]
  rw [run]
  exact ⟨⟨(Scopes.Advances.refl st).fields, List.prefix_rfl, List.prefix_rfl, id⟩,
    rest, rest, e, rfl, List.forall₂_same.2 fun s _ => .refl s⟩

/-- A binding of the innermost scope becomes initialized, which puts it where it
was. -/
lemma inside_markInitialized (text : String) {st : Scopes} {s : Scope} {rest : List Scope}
    (e : st.scopes = s :: rest) :
    ∃ s', Inside st s ((markInitialized text).after st) s' ∧ s'.classes = s.classes ∧
      s'.names = s.names ∧
      (s' = s ∨ ∃ c, s.find? text = some c ∧ s' = s.put { c with initialized := true }) := by
  refine ⟨_, inside_modifyInnermost _ e, ?_⟩
  cases h : s.find? text with
  | none => exact ⟨rfl, rfl, .inl rfl⟩
  | some c => exact ⟨rfl, rfl, .inr ⟨c, rfl, rfl⟩⟩

/-- An expression that may be missing. -/
def resolveMaybe : Option Syntax.Expr → Resolve (Option Program.Expr)
  | none => pure none
  | some e => do return some (← resolveExpr e)

/-- An expression that may be missing is closed if it is there. -/
lemma sees_resolveMaybe {init : Option Syntax.Expr}
    (hinit : ∀ e, init = some e → Sees strict (fun _ => True) (resolveExpr e) fun v x =>
      x.Closed strict v) :
    Sees strict (fun _ => True) (resolveMaybe init) fun v o =>
      ∀ x, o = some x → x.Closed strict v := by
  cases init with
  | none => exact Sees.pure fun v _ x hx => nomatch hx
  | some e =>
    refine (hinit e rfl).bind fun x => Sees.pure fun v h y hy => ?_
    cases hy
    exact h

/-- A variable is declared, its initializer resolved, and then it is initialized. -/
lemma resolveStmt_var (hoisted : List (String × Slot)) (name : Name) (init : Option Syntax.Expr) :
    resolveStmt hoisted (.var name init) = do
      let slot ← declare name .var false
      let init ← resolveMaybe init
      markInitialized name.text
      return some (.var slot init name.line) := by
  cases init <;> rfl

/-- A variable is declared before its initializer is resolved, and may be used
after it. -/
lemma declares_var (name : Name) (init : Option Syntax.Expr)
    (hinit : ∀ e, init = some e → Sees strict (fun _ => True) (resolveExpr e) fun v x =>
      x.Closed strict v) (hoisted : List (String × Slot)) {st : Scopes} {scope : Scope}
    {rest : List Scope} (e : st.scopes = scope :: rest) :
    ∃ scope', Declares strict hoisted [] st scope
      ((resolveStmt hoisted (.var name init)).after st) scope'
      ((resolveStmt hoisted (.var name init)).answer st).toList := by
  let b : Binding := ⟨name, st.nextSlot, .var, false, false⟩
  have first : Inside st scope ((declare name .var false).after st) (scope.declared b) :=
    inside_declare name .var false e
  obtain ⟨_, rest₁, _, e₁, _⟩ := first.scopes
  obtain ⟨evolves, closed⟩ := sees_resolveMaybe hinit ((declare name .var false).after st)
  obtain ⟨scope₂, second, same⟩ := evolves.inside e₁
  obtain ⟨_, rest₂, _, e₂, _⟩ := second.scopes
  obtain ⟨scope₃, third, classes₃, names₃, put₃⟩ := inside_markInitialized name.text e₂
  -- the binding that is initialized is the one just made
  have own' : ∀ c, scope₂.find? name.text = some c → c.slot = st.nextSlot := by
    intro c hc
    have hfind := same.find name.text
    rw [hc, show name.text = b.text from rfl, Scope.find?_declared_self] at hfind
    exact congrArg (·.slot) (Option.some.inj hfind)
  rw [resolveStmt_var]
  simp only [answer_bind, after_bind, answer_pure, after_pure, answer_declare, Option.toList_some]
  have kept : scope₃.classes = scope.classes ∧
      scope₃.names = scope.names ++ [(st.nextSlot, name.text)] :=
    ⟨classes₃.trans same.classes, names₃.trans same.names⟩
  refine ⟨scope₃, first.trans (second.trans third), ?_, fun h => ?_, ?_,
    fun t h => absurd h List.not_mem_nil, fun k hk => .inl ?_, fun own Γ covered fine => ?_⟩
  · rw [kept.2]
    simp [Program.Stmt.own]
  · rwa [kept.1]
  · rw [kept.1]
    exact List.Subset.refl _
  · rwa [← kept.1]
  -- what the initializer sees: the variable itself only where that is allowed
  · have hscope := first.head_covered covered
    have covered₁ : Scopes.Covered strict ((if strict then own else st.nextSlot :: own) :: Γ)
        ((declare name .var false).after st) := by
      refine first.covered covered fun t c hc hinit => ?_
      cases strict with
      | true =>
        rcases Scope.find?_declared hc with rfl | hc
        · exact absurd (hinit rfl) (by simp [b])
        · exact hscope t c hc hinit
      | false =>
        rcases Scope.find?_declared hc with rfl | hc
        · exact List.mem_cons_self ..
        · exact List.mem_cons_of_mem _ (hscope t c hc hinit)
    have hinit := closed _ covered₁ (third.toAdvances.fine fine) trivial
    have sub : (if strict then own else st.nextSlot :: own) ⊆ st.nextSlot :: own := by
      cases strict with
      | true => exact List.subset_cons_self _ _
      | false => exact List.Subset.refl _
    have covered₂ := (evolves.covered covered₁).head_mono sub
    -- after it the variable is there in either case
    have covered₃ : scope₃.Covered strict (st.nextSlot :: own) := by
      have hscope₂ := third.head_covered covered₂
      rcases put₃ with rfl | ⟨c, hc, rfl⟩
      · exact hscope₂
      · exact hscope₂.put fun _ => own' c hc ▸ List.mem_cons_self ..
    refine ⟨third.covered covered₂ covered₃, ⟨?_, trivial⟩, fun c hc => .inl (kept.1 ▸ hc)⟩
    cases hx : (resolveMaybe init).answer ((declare name .var false).after st) with
    | none => trivial
    | some x =>
      -- a slot that is seen after the declaration is the new one or was seen before
      refine Program.Expr.Closed.mono (fun y hy => ?_) x (hinit x hx)
      have hy' := third.toAdvances.visible _ hy
      cases strict with
      | true => exact hy'
      | false =>
        simp only [Scopes.visible, List.flatten_cons, List.mem_append, List.mem_cons,
          Bool.false_eq_true, if_false] at hy' ⊢
        tauto

/-- An insertion keeps the keys that are there. -/
lemma keys_insertByKey (x : Slot × Program.ClassDecl) (cs : List (Slot × Program.ClassDecl)) :
    x.1 ∈ (insertByKey Prod.fst x cs).map Prod.fst ∧
      cs.map Prod.fst ⊆ (insertByKey Prod.fst x cs).map Prod.fst := by
  induction cs with
  | nil => exact ⟨List.mem_cons_self .., List.nil_subset _⟩
  | cons c cs ih =>
    rw [insertByKey]
    split
    · exact ⟨List.mem_cons_self .., List.subset_cons_self _ _⟩
    · rename_i h
      have e : x.1 = c.1 := Std.LawfulEqOrd.compare_eq_iff_eq.1 h
      refine ⟨List.mem_cons_self .., ?_⟩
      rw [List.map_cons, List.map_cons, e]
      exact List.Subset.refl _
    · exact ⟨List.mem_cons_of_mem _ ih.1, List.cons_subset_cons _ ih.2⟩

/-- An insertion keeps the order of the keys. -/
lemma sortedKeys_insertByKey {x : Slot × Program.ClassDecl} {cs : List (Slot × Program.ClassDecl)}
    (h : SortedKeys cs) : SortedKeys (insertByKey Prod.fst x cs) := by
  induction cs with
  | nil => exact List.pairwise_singleton _ _
  | cons c cs ih =>
    rw [insertByKey]
    obtain ⟨hc, hcs⟩ := List.pairwise_cons.1 h
    split
    · rename_i hlt
      have lt : x.1.index < c.1.index := Nat.compare_eq_lt.1 hlt
      refine List.pairwise_cons.2 ⟨fun d hd => ?_, h⟩
      rcases List.mem_cons.1 hd with rfl | hd
      · exact lt
      · exact lt.trans (hc d hd)
    · rename_i heq
      have e : x.1 = c.1 := Std.LawfulEqOrd.compare_eq_iff_eq.1 heq
      exact List.pairwise_cons.2 ⟨fun d hd => e ▸ hc d hd, hcs⟩
    · rename_i hgt
      have gt : c.1.index < x.1.index := Nat.compare_eq_gt.1 hgt
      refine List.pairwise_cons.2 ⟨fun d hd => ?_, ih hcs⟩
      rcases mem_insertByKey hd with rfl | hd
      · exact gt
      · exact hc d hd

/-- A class is filed under the slot it was declared with. -/
lemma declares_cls (name : Name) (methods : List Syntax.Method)
    (hwalk : ∀ m : Members, Sees strict (fun v => m.Closed strict v)
      (resolveMethods name.text m methods) fun v m' =>
        m'.Closed strict v ∧ m.instanceSide.Grows m'.instanceSide)
    (hoisted : List (String × Slot)) {st : Scopes} {scope : Scope} {rest : List Scope}
    (e : st.scopes = scope :: rest) :
    ∃ scope', Declares strict hoisted [name.text] st scope
      ((resolveStmt hoisted (.cls name methods)).after st) scope'
      ((resolveStmt hoisted (.cls name methods)).answer st).toList := by
  cases hlookup : hoisted.lookup name.text with
  -- the name is not among the declared ones: the class is dropped, and nothing changes
  | none =>
    simp only [resolveStmt, hlookup, answer_pure, after_pure, Option.toList_none]
    refine ⟨scope, ⟨.refl st, rest, rest, e, e, List.forall₂_same.2 fun s _ => .refl s⟩,
      (List.append_nil _).symm, id, List.Subset.refl _, fun t ht slot hslot => ?_,
      fun k hk => .inl hk, fun own Γ covered _ => ⟨covered, trivial, fun c hc => .inl hc⟩⟩
    rw [List.mem_singleton.1 ht, hlookup] at hslot
    cases hslot
  | some slot =>
    let walk : Resolve Program.ClassDecl :=
      insideClass slot (classDecl name fun m => resolveMethods name.text m methods)
    obtain ⟨evolves, closed⟩ : SeesAt strict st (fun _ => True) walk fun v c => c.Closed strict v :=
      sees_insideClass (sees_classDecl name hwalk) st
    -- the class is resolved in the scope, and filed there afterwards
    obtain ⟨scope₁, first, same⟩ := evolves.inside e
    obtain ⟨_, rest₁, _, e₁, _⟩ := first.scopes
    have second := inside_modifyInnermost (fun s =>
      { s with classes := insertByKey Prod.fst (slot, walk.answer st) s.classes }) e₁
    simp only [resolveStmt, hlookup, answer_bind, after_bind, answer_pure, after_pure,
      Option.toList_none]
    obtain ⟨new, old⟩ := keys_insertByKey (slot, walk.answer st) scope₁.classes
    refine ⟨_, first.trans second, ?_, fun h => ?_, ?_, fun t ht s hs => ?_, fun k hk => ?_,
      fun own Γ covered fine => ?_⟩
    · rw [List.flatMap_nil, List.append_nil, ← same.names]
    · exact sortedKeys_insertByKey (same.classes ▸ h)
    · exact same.classes ▸ old
    · rw [List.mem_singleton.1 ht, hlookup] at hs
      cases hs
      exact new
    · obtain ⟨c, hc, rfl⟩ := List.mem_map.1 hk
      rcases mem_insertByKey hc with rfl | hc
      · exact .inr ⟨_, hlookup⟩
      · exact .inl (List.mem_map_of_mem (same.classes ▸ hc))
    · have covered₁ := evolves.covered covered
      refine ⟨second.covered covered₁ fun t b hb => second.head_covered covered₁ t b hb, trivial,
        fun c hc => ?_⟩
      -- filing replaces the class of that slot and keeps all the others
      rcases mem_insertByKey hc with rfl | hc
      · exact .inr (Program.ClassDecl.Closed.mono (second.toAdvances.visible _) _
          (closed _ covered (second.toAdvances.fine fine) trivial))
      · exact .inl (same.classes ▸ hc)

end Resolve

/-! ### Expressions -/

namespace Resolve

/-- The slot that is assigned to. -/
def resolveTarget : Syntax.Expr → Resolve Slot
  | .variable name => assigned name
  | .field name => instanceField name
  | .staticField name => staticField name
  | target => do
    report (.invalidTarget target.line)
    let _ ← resolveExpr target
    fillHole ⟨"<invalid>", target.line⟩

/-- The target of an assignment is resolved before its value. -/
lemma resolveExpr_assign (target value : Syntax.Expr) (line : Line) :
    resolveExpr (.assign target value line) = do
      let slot ← resolveTarget target
      return .assign slot (← resolveExpr value) line := by
  cases target <;> rfl

/-- What is assigned to gets a visible slot, whether or not it is a target. -/
lemma sees_resolveTarget {target : Syntax.Expr}
    (h : Sees strict (fun _ => True) (resolveExpr target) fun v e => e.Closed strict v) :
    Sees strict (fun _ => True) (resolveTarget target) fun v s => s ∈ v := by
  match target, h with
  | .variable name, _ => exact sees_assigned name
  | .field name, _ => exact sees_instanceField name
  | .staticField name, _ => exact sees_staticField name
  | .assign _ _ _, h | .call _ _ _ _, h | .literal _ _, h | .this _, h | .logical _ _ _ _, h =>
    exact sees_hole_after _ _ h

/-- The arguments of a call that are written in parentheses. -/
def resolveArguments : Option (List Syntax.Expr) → Resolve (Option (List Program.Expr))
  | none => pure none
  | some es => do return some (← resolveExprs es)

/-- The arguments of a call together with its block of code. -/
def resolveCode (arguments : Option (List Program.Expr)) :
    Option Syntax.Code → Resolve (Option (List Program.Expr))
  | none => pure arguments
  | some ⟨params, body, line⟩ => do
    let own ← fresh
    let ownStatic ← fresh
    let call ← method "call" (some params) line
      (blockOf body fun hoisted => resolveStmts hoisted body)
    return some (arguments.getD [] ++
      [.call (.cls (codeClass own ownStatic call line)) "new" (some []) line])

/-- All arguments of a call. -/
def resolveAll (arguments : Option (List Syntax.Expr)) (code : Option Syntax.Code) :
    Resolve (Option (List Program.Expr)) := do
  resolveCode (← resolveArguments arguments) code

/-- A call is resolved from its receiver to its arguments. -/
lemma resolveExpr_call (receiver : Syntax.Expr) (name : Name)
    (arguments : Option (List Syntax.Expr)) (code : Option Syntax.Code) :
    resolveExpr (.call receiver name arguments code) = do
      let receiver ← resolveExpr receiver
      let arguments ← resolveAll arguments code
      return .call receiver name.text arguments name.line := by
  rcases code with _ | ⟨params, body, line⟩ <;> cases arguments <;> rfl

/-- Arguments are closed, if there are any. -/
def ArgumentsClosed (strict : Bool) (v : List Slot) (arguments : Option (List Program.Expr)) :
    Prop :=
  ∀ es, arguments = some es → Program.exprClosed strict v es

/-- Arguments stay closed where more is visible. -/
lemma upward_arguments (arguments : Option (List Program.Expr)) :
    Upward (ArgumentsClosed strict · arguments) :=
  fun _ _ sub h es he => Program.exprClosed_mono sub es (h es he)

/-- An expression stays closed where more is visible. -/
lemma upward_expr (e : Program.Expr) : Upward fun v => e.Closed strict v :=
  fun _ _ sub h => Program.Expr.Closed.mono sub e h

/-- The class that a block of code stands for is closed if its method is. -/
lemma sees_resolveCode (arguments : Option (List Program.Expr)) (code : Option Syntax.Code)
    (hbody : ∀ params body line, code = some ⟨params, body, line⟩ →
      Sees strict (fun _ => True) (blockOf body fun hoisted => resolveStmts hoisted body)
        fun v b => b.Closed strict v) :
    Sees strict (ArgumentsClosed strict · arguments) (resolveCode arguments code)
      (ArgumentsClosed strict) := by
  cases code with
  | none => exact Sees.pure fun v h => h
  | some code =>
    obtain ⟨params, body, line⟩ := code
    refine (sees_of_evolves evolves_fresh).andThen (upward_arguments arguments) fun own => ?_
    refine ((sees_of_evolves evolves_fresh).andThen (upward_arguments arguments)
      fun ownStatic => ?_).imp (fun _ h => h.2) fun _ _ h => h
    refine ((sees_method "call" (some params) line (hbody params body line rfl)).andThen
      (upward_arguments arguments) fun call => Sees.pure fun v h => ?_).imp (fun _ h => h.2)
      fun _ _ h => h
    obtain ⟨hcall, hargs⟩ := h
    intro es he
    cases he
    rw [Program.exprClosed_append]
    have method : Program.methodClosed strict ((own :: []) ++ ((ownStatic :: []) ++ v)) [call] :=
      Program.methodClosed_iff.2 fun m hm => by
        obtain rfl := List.mem_singleton.1 hm
        exact Program.Block.Closed.mono (fun x hx => by
          simp only [List.mem_append, List.mem_cons] at hx ⊢
          tauto) _ hcall
    have made : ∀ v : List Slot, Program.Block.Closed strict ([] ++ v) .empty :=
      fun v => ⟨trivial, trivial⟩
    refine ⟨?_, ⟨⟨⟨made _, trivial⟩, trivial, method⟩, trivial⟩, trivial⟩
    cases harguments : arguments with
    | none => trivial
    | some es => exact hargs es harguments

/-- A call is closed if its parts are. -/
lemma sees_call {receiver : Syntax.Expr} (name : Name) {arguments : Option (List Syntax.Expr)}
    {code : Option Syntax.Code}
    (hreceiver : Sees strict (fun _ => True) (resolveExpr receiver) fun v x => x.Closed strict v)
    (harguments : ∀ es, arguments = some es →
      Sees strict (fun _ => True) (resolveExprs es) fun v xs => Program.exprClosed strict v xs)
    (hcode : ∀ params body line, code = some ⟨params, body, line⟩ →
      Sees strict (fun _ => True) (blockOf body fun hoisted => resolveStmts hoisted body)
        fun v b => b.Closed strict v) :
    Sees strict (fun _ => True) (resolveExpr (.call receiver name arguments code)) fun v x =>
      x.Closed strict v := by
  have written : Sees strict (fun _ => True) (resolveArguments arguments)
      (ArgumentsClosed strict) := by
    cases arguments with
    | none => exact Sees.pure fun v _ es he => nomatch he
    | some es =>
      refine (harguments es rfl).bind fun xs => Sees.pure fun v h ys hy => ?_
      cases hy
      exact h
  have complete : Sees strict (fun _ => True) (resolveAll arguments code)
      (ArgumentsClosed strict) :=
    written.bind fun arguments => sees_resolveCode arguments code hcode
  rw [resolveExpr_call]
  refine hreceiver.bind fun receiver => ?_
  refine complete.andThen (upward_expr receiver) fun arguments => ?_
  refine Sees.pure fun v h => ?_
  cases arguments with
  | none => exact ⟨h.2, trivial⟩
  | some es => exact ⟨h.2, h.1 es rfl⟩

/-- A conditional is closed if its parts are. -/
lemma yields_branch {condition : Syntax.Expr} {yes : Syntax.Stmt} {no : Option Syntax.Stmt}
    (line : Line)
    (hcondition : Sees strict (fun _ => True) (resolveExpr condition) fun v x => x.Closed strict v)
    (hyes : Yields strict yes) (hno : ∀ s, no = some s → Yields strict s) :
    Yields strict (.branch condition yes no line) := by
  cases no with
  | none =>
    let walk : Resolve (Program.Expr × Program.Stmt) := do
      let condition ← resolveExpr condition
      let yes ← branch yes fun hoisted => resolveStmt hoisted yes
      return (condition, yes)
    refine .of_sees walk (fun r => .branch r.1 r.2 none line) rfl (fun _ => rfl) (fun _ => rfl) ?_
    refine hcondition.bind fun condition => ?_
    refine (sees_branch hyes).andThen (upward_expr condition) fun yes => ?_
    exact Sees.pure fun v h => ⟨h.2, h.1, trivial⟩
  | some no =>
    let walk : Resolve (Program.Expr × Program.Stmt × Program.Stmt) := do
      let condition ← resolveExpr condition
      let yes ← branch yes fun hoisted => resolveStmt hoisted yes
      let no ← branch no fun hoisted => resolveStmt hoisted no
      return (condition, yes, no)
    refine .of_sees walk (fun r => .branch r.1 r.2.1 (some r.2.2) line) rfl (fun _ => rfl)
      (fun _ => rfl) ?_
    refine hcondition.bind fun condition => ?_
    refine (sees_branch hyes).andThen (upward_expr condition) fun yes => ?_
    refine (((sees_branch (hno no rfl)).keep (Q := fun v =>
      (yes.own = [] ∧ yes.Closed strict v) ∧ condition.Closed strict v) fun _ _ sub h =>
        ⟨⟨h.1.1, Program.Stmt.Closed.mono sub yes h.1.2⟩, upward_expr condition sub h.2⟩).imp
      (fun _ h => ⟨trivial, h⟩) fun _ _ h => h).bind fun no => ?_
    exact Sees.pure fun v h => ⟨h.2.2, h.2.1, h.1⟩

/-- A loop is closed if its parts are. -/
lemma yields_loop {condition : Syntax.Expr} {body : Syntax.Stmt} (line : Line)
    (hcondition : Sees strict (fun _ => True) (resolveExpr condition) fun v x => x.Closed strict v)
    (hbody : Yields strict body) : Yields strict (.loop condition body line) := by
  let walk : Resolve (Program.Expr × Program.Stmt) := do
    let condition ← resolveExpr condition
    let body ← branch body fun hoisted => resolveStmt hoisted body
    return (condition, body)
  refine .of_sees walk (fun r => .loop r.1 r.2 line) rfl (fun _ => rfl) (fun _ => rfl) ?_
  refine hcondition.bind fun condition => ?_
  refine (sees_branch hbody).andThen (upward_expr condition) fun body => ?_
  exact Sees.pure fun v h => ⟨h.2, h.1⟩

end Resolve

/-- The classes among statements are that of the first one and those of the others. -/
lemma classNames_cons (s : Syntax.Stmt) (ss : List Syntax.Stmt) :
    classNames (s :: ss) = classNames [s] ++ classNames ss := by
  cases s <;> rfl

mutual

/-- An expression is closed in what is visible where it stands. -/
theorem sees_resolveExpr :
    (e : Syntax.Expr) → Sees strict (fun _ => True) (resolveExpr e) fun v x => x.Closed strict v
  | .assign target value line => by
    rw [resolveExpr_assign]
    refine (sees_resolveTarget (sees_resolveExpr target)).bind fun slot => ?_
    refine ((sees_resolveExpr value).andThen (upward_mem slot) fun value => ?_)
    exact Sees.pure fun v h => ⟨h.2, h.1⟩
  | .call receiver name none none =>
    sees_call name (sees_resolveExpr receiver) (fun _ h => nomatch h) fun _ _ _ h => nomatch h
  | .call receiver name (some es) none =>
    sees_call name (sees_resolveExpr receiver)
      (fun _ h => Option.some.inj h ▸ sees_resolveExprs es) fun _ _ _ h => nomatch h
  | .call receiver name none (some ⟨params, body, line⟩) =>
    sees_call name (sees_resolveExpr receiver) (fun _ h => nomatch h) fun _ _ _ h => by
      cases h
      exact sees_blockOf (declares_resolveStmts body)
  | .call receiver name (some es) (some ⟨params, body, line⟩) =>
    sees_call name (sees_resolveExpr receiver)
      (fun _ h => Option.some.inj h ▸ sees_resolveExprs es) fun _ _ _ h => by
        cases h
        exact sees_blockOf (declares_resolveStmts body)
  | .literal value line => Sees.pure fun _ _ => trivial
  | .variable name => (sees_namedSlot name).bind fun r => Sees.pure fun v h => h
  | .field name => (sees_instanceField name).bind fun s => Sees.pure fun v h => h
  | .staticField name => (sees_staticField name).bind fun s => Sees.pure fun v h => h
  | .this line => (sees_thisSlot line).bind fun s => Sees.pure fun v h => h
  | .logical op left right line => by
    refine (sees_resolveExpr left).bind fun left => ?_
    refine (sees_resolveExpr right).andThen (upward_expr left) fun right => ?_
    exact Sees.pure fun v h => ⟨h.2, h.1⟩

/-- Expressions are closed in what is visible where they stand. -/
theorem sees_resolveExprs :
    (es : List Syntax.Expr) →
      Sees strict (fun _ => True) (resolveExprs es) fun v xs => Program.exprClosed strict v xs
  | [] => Sees.pure fun _ _ => trivial
  | e :: es => by
    refine (sees_resolveExpr e).bind fun e => ?_
    refine (sees_resolveExprs es).andThen (upward_expr e) fun es => ?_
    exact Sees.pure fun v h => ⟨h.2, h.1⟩

/-- A statement is closed in what is visible where it stands. -/
theorem yields_resolveStmt : (s : Syntax.Stmt) → Yields strict s
  | .block body =>
    .of_sees (blockOf body fun hoisted => resolveStmts hoisted body) .block rfl (fun _ => rfl)
      (fun _ => rfl) (sees_blockOf (declares_resolveStmts body))
  | .branch condition yes none line =>
    yields_branch line (sees_resolveExpr condition) (yields_resolveStmt yes) fun _ h => nomatch h
  | .branch condition yes (some no) line =>
    yields_branch line (sees_resolveExpr condition) (yields_resolveStmt yes)
      fun _ h => Option.some.inj h ▸ yields_resolveStmt no
  | .loop condition body line =>
    yields_loop line (sees_resolveExpr condition) (yields_resolveStmt body)
  | .var name none =>
    ⟨fun quiet => quiet.elim, fun hoisted _ _ _ e =>
      declares_var name none (fun _ h => nomatch h) hoisted e⟩
  | .var name (some init) =>
    ⟨fun quiet => quiet.elim, fun hoisted _ _ _ e =>
      declares_var name (some init)
        (fun _ h => Option.some.inj h ▸ sees_resolveExpr init) hoisted e⟩
  | .cls name methods =>
    ⟨fun quiet => quiet.elim, fun hoisted _ _ _ e =>
      declares_cls name methods (sees_resolveMethods name.text methods) hoisted e⟩
  | .ret none line =>
    .of_sees (pure ()) (fun _ => .ret none line) rfl (fun _ => rfl) (fun _ => rfl)
      (Sees.pure fun _ _ => trivial)
  | .ret (some e) line =>
    .of_sees (resolveExpr e) (fun e => .ret (some e) line) rfl (fun _ => rfl) (fun _ => rfl)
      (sees_resolveExpr e)
  | .eval e => .of_sees (resolveExpr e) .eval rfl (fun _ => rfl) (fun _ => rfl) (sees_resolveExpr e)

/-- Statements do to the scope around them what each of them does. -/
theorem declares_resolveStmts :
    (ss : List Syntax.Stmt) → ∀ hoisted (st : Scopes) scope rest, st.scopes = scope :: rest →
      ∃ scope', Declares strict hoisted (classNames ss) st scope
        ((resolveStmts hoisted ss).after st) scope' ((resolveStmts hoisted ss).answer st)
  | [], _, st, scope, rest, e => by
    refine ⟨scope, ⟨.refl st, rest, rest, e, e, List.forall₂_same.2 fun s _ => .refl s⟩,
      (List.append_nil _).symm, id, List.Subset.refl _, fun t h => absurd h List.not_mem_nil,
      fun k hk => .inl hk, fun own Γ covered _ => ⟨covered, trivial, fun c hc => .inl hc⟩⟩
  | s :: ss, hoisted, st, scope, rest, e => by
    obtain ⟨scope₁, first⟩ := (yields_resolveStmt s).declares hoisted st scope rest e
    obtain ⟨_, rest₁, _, e₁, _⟩ := first.scopes
    obtain ⟨scope₂, second⟩ := declares_resolveStmts ss hoisted _ scope₁ rest₁ e₁
    rw [classNames_cons]
    exact ⟨scope₂, first.trans second⟩

/-- The members of a class are closed in what is visible around it. -/
theorem sees_resolveMethods (name : String) :
    (methods : List Syntax.Method) → ∀ m : Members,
      Sees strict (fun v => m.Closed strict v) (resolveMethods name m methods) fun v m' =>
        m'.Closed strict v ∧ m.instanceSide.Grows m'.instanceSide
  | [], m => Sees.pure fun v h => ⟨h, .refl _⟩
  | ⟨kind, own, params, body⟩ :: rest, m => by
    refine (sees_member name m kind own (sees_method own.text params own.line
      (sees_blockOf (declares_resolveStmts body)))).bind fun m' => ?_
    intro st
    obtain ⟨evolves, closed⟩ := sees_resolveMethods name rest m' st
    refine ⟨evolves, fun Γ covered fine h => ?_⟩
    obtain ⟨closed', grows⟩ := closed Γ covered fine h.1
    exact ⟨closed', h.2.trans grows⟩

end

/-! ### Whole programs -/

/-- The globals are made before anything is resolved. -/
lemma declareGlobals_spec (names : List String) (st : Scopes) (h : st.GlobalsBound) :
    ((declareGlobals names).after st).GlobalsBound ∧
      ((declareGlobals names).after st).scopes = st.scopes ∧
      ((declareGlobals names).after st).fieldScopes = st.fieldScopes ∧
      ((declareGlobals names).after st).problems = st.problems ∧
      ((declareGlobals names).after st).globals.map Prod.snd =
        st.globals.map Prod.snd ++ names := by
  induction names generalizing st with
  | nil => exact ⟨h, rfl, rfl, rfl, (List.append_nil _).symm⟩
  | cons name names ih =>
    let st₁ := (makeGlobal ⟨name, 0⟩ false).after st
    have bound : st₁.GlobalsBound := by
      intro t b hb
      have globals : st₁.globals = st.globals ++ [(st.nextSlot, name)] := rfl
      rw [globals, List.map_append]
      rcases Scope.find?_put hb with rfl | hb
      · exact List.mem_append_right _ (List.mem_singleton_self _)
      · exact List.mem_append_left _ (h t b hb)
    obtain ⟨h₁, h₂, h₃, h₄, h₅⟩ := ih st₁ bound
    refine ⟨h₁, h₂, h₃, h₄, ?_⟩
    rw [declareGlobals, after_bind, h₅]
    change (st.globals ++ [(st.nextSlot, name)]).map Prod.snd ++ names = _
    simp

/-- The state in which the outermost block is resolved. -/
def Scopes.entry (globals : List String) : Scopes := (declareGlobals globals).after .start

/-- A program is the block that its statements make up, resolved among its globals. -/
lemma resolve_eq (globals : List String) (program : List Syntax.Stmt) :
    let root := blockOf program fun hoisted => resolveStmts hoisted program
    resolve globals program =
      (⟨root.answer (.entry globals), (root.after (.entry globals)).globals⟩,
        (root.after (.entry globals)).problems) := rfl

/-- At first there are the given globals, and nothing else. -/
lemma entry_spec (globals : List String) :
    (Scopes.entry globals).GlobalsBound ∧ (Scopes.entry globals).scopes = [] ∧
      (Scopes.entry globals).fieldScopes = [] ∧ (Scopes.entry globals).problems = [] ∧
      (Scopes.entry globals).globals.map Prod.snd = globals :=
  declareGlobals_spec globals .start fun _ _ h => nomatch h

/-- The members of a class leave the scopes around it the same. -/
lemma evolves_resolveMethods (name : String) (methods : List Syntax.Method) (m : Members)
    (st : Scopes) : st.Evolves ((resolveMethods name m methods).after st) :=
  Sees.evolves (sees_resolveMethods name methods m) st

/-- A program is closed in what is visible around it. -/
lemma sees_program (strict : Bool) (program : List Syntax.Stmt) :
    Sees strict (fun _ => True) (blockOf program fun hoisted => resolveStmts hoisted program)
      fun v b => b.Closed strict v :=
  sees_blockOf (declares_resolveStmts program)

/-- Whatever mistakes a program has, its resolved form mentions only its globals
and what is declared around. If it has none then no variable is mentioned in its
own initializer either. -/
theorem resolve_closed (globals : List String) (program : List Syntax.Stmt)
    (fine : strict = true → (resolve globals program).2 = []) :
    (resolve globals program).1.root.Closed strict
      ((resolve globals program).1.globals.map Prod.fst) := by
  obtain ⟨bound, scopes, fieldScopes, _, _⟩ := entry_spec globals
  obtain ⟨evolves, closed⟩ :=
    sees_program strict program (Scopes.entry globals)
  rw [resolve_eq] at fine ⊢
  refine Program.Block.Closed.mono (fun x hx => ?_) _
    (closed [] ⟨scopes ▸ .nil, bound⟩ fine trivial)
  have fields := evolves.fields
  rw [fieldScopes] at fields
  rw [Scopes.visible, List.forall₂_nil_left_iff.1 fields] at hx
  simpa using hx

end Ember
