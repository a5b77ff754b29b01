/-
What a step of name resolution does to the scopes around it.

* `Resolve.answer`, `Resolve.after`: what a step answers and the state it leaves;
* `Scope.Same`: two scopes bind the same names to the same slots, whatever has
  been used of them in between;
* `Scopes.Advances`: fields, globals and mistakes are only ever added, and no
  global is added without a mistake. `Scopes.Evolves` adds that the scopes stay
  the same, which holds of every step within an expression;
* `Scopes.Covered`, `Scopes.visible`: the slots that the names in scope stand
  for are among given ones, scope by scope, and all slots that may be mentioned;
* `Resolve.Sees`: a step that evolves the state and whose answer has a property
  relative to the visible slots, with the rules that put such steps together.
-/
import Mathlib
import Ember.Scope.Resolution

namespace Ember

/-! ### Steps -/

namespace Resolve

variable {α β : Type}

/-- What a step answers. -/
def answer (x : Resolve α) (st : Scopes) : α := (StateT.run x st).1

/-- The state that a step leaves. -/
def after (x : Resolve α) (st : Scopes) : Scopes := (StateT.run x st).2

@[simp] lemma answer_pure (a : α) (st : Scopes) : answer (pure a) st = a := rfl

@[simp] lemma after_pure (a : α) (st : Scopes) : after (pure a) st = st := rfl

@[simp] lemma answer_bind (x : Resolve α) (f : α → Resolve β) (st : Scopes) :
    answer (x >>= f) st = answer (f (answer x st)) (after x st) := rfl

@[simp] lemma after_bind (x : Resolve α) (f : α → Resolve β) (st : Scopes) :
    after (x >>= f) st = after (f (answer x st)) (after x st) := rfl

@[simp] lemma answer_get (st : Scopes) : answer get st = st := rfl

@[simp] lemma after_get (st : Scopes) : after get st = st := rfl

@[simp] lemma after_modify (f : Scopes → Scopes) (st : Scopes) : after (modify f) st = f st := rfl

end Resolve

/-! ### Scopes that stay the same -/

namespace Binding

/-- A binding apart from whether it has been used. -/
def unmarked (b : Binding) : Binding := { b with used := false }

end Binding

namespace Scope

/-- What is found under a word has that word as its name. -/
lemma text_of_find? {s : Scope} {t : String} {b : Binding} (h : s.find? t = some b) :
    b.text = t := by
  simpa using List.find?_some h

/-- What is put into a scope is found there. -/
lemma find?_put_self (s : Scope) (b : Binding) : (s.put b).find? b.text = some b :=
  findByKey?_putByKey_self Binding.text b s.bindings

/-- What is put into a scope does not matter to other names. -/
lemma find?_put_of_ne (s : Scope) {b : Binding} {t : String} (h : b.text ≠ t) :
    (s.put b).find? t = s.find? t :=
  findByKey?_putByKey_of_ne Binding.text b s.bindings h

/-- After a binding is put into a scope, a name stands for it or for what it did. -/
lemma find?_put {s : Scope} {b c : Binding} {t : String} (h : (s.put b).find? t = some c) :
    c = b ∨ s.find? t = some c := by
  by_cases e : b.text = t
  · subst e
    rw [find?_put_self] at h
    exact .inl (Option.some.inj h).symm
  · rw [find?_put_of_ne s e] at h
    exact .inr h

/-- The same names are bound to the same slots, and the same is declared. -/
structure Same (s t : Scope) : Prop where
  find : ∀ text, (t.find? text).map Binding.unmarked = (s.find? text).map Binding.unmarked
  names : t.names = s.names
  classes : t.classes = s.classes

/-- A scope is the same as itself. -/
lemma Same.refl (s : Scope) : s.Same s := ⟨fun _ => rfl, rfl, rfl⟩

/-- Scopes that are the same as one scope are the same. -/
lemma Same.trans {s t u : Scope} (h : s.Same t) (h' : t.Same u) : s.Same u :=
  ⟨fun text => (h'.find text).trans (h.find text), h'.names.trans h.names,
    h'.classes.trans h.classes⟩

/-- A binding stays where it is when it is marked as used. -/
lemma same_put_markUsed {s : Scope} {t : String} {b : Binding} (h : s.find? t = some b)
    (enclosing : List Slot) : s.Same (s.put (Resolve.markUsed enclosing b)) := by
  have htext : (Resolve.markUsed enclosing b).text = t := by
    rw [← text_of_find? h, Resolve.markUsed]
    split <;> rfl
  have hmark : (Resolve.markUsed enclosing b).unmarked = b.unmarked := by
    rw [Resolve.markUsed]
    split <;> rfl
  refine ⟨fun text => ?_, rfl, rfl⟩
  by_cases e : t = text
  · subst e
    have hput := find?_put_self s (Resolve.markUsed enclosing b)
    rw [htext] at hput
    rw [hput, h, Option.map_some, Option.map_some, hmark]
  · rw [find?_put_of_ne s (htext ▸ e)]

/-- Every name that the scope binds, but for those that are in their own
initializer in the strict sense, stands for one of the given slots. -/
def Covered (strict : Bool) (s : Scope) (own : List Slot) : Prop :=
  ∀ t b, s.find? t = some b → (strict = true → b.initialized = true) → b.slot ∈ own

variable {strict : Bool} {s t : Scope} {own : List Slot}

/-- What covers a scope may have more slots. -/
lemma Covered.mono (h : s.Covered strict own) {more : List Slot} (sub : own ⊆ more) :
    s.Covered strict more :=
  fun text b hb hinit => sub (h text b hb hinit)

/-- What covers a scope covers one that is the same. -/
lemma Covered.same (h : s.Covered strict own) (same : s.Same t) : t.Covered strict own := by
  intro text b hb hinit
  have hfind := same.find text
  rw [hb, Option.map_some] at hfind
  obtain ⟨b₀, hb₀, e⟩ := Option.map_eq_some_iff.1 hfind.symm
  have hslot : b₀.slot = b.slot := congrArg (·.slot) e
  have hini : b₀.initialized = b.initialized := congrArg (·.initialized) e
  rw [← hslot]
  exact h text b₀ hb₀ (hini ▸ hinit)

/-- A binding that is put into a scope has to be covered as the others are. -/
lemma Covered.put (h : s.Covered strict own) {b : Binding}
    (hb : (strict = true → b.initialized = true) → b.slot ∈ own) :
    (s.put b).Covered strict own := by
  intro text c hc hinit
  rcases find?_put hc with rfl | hc
  · exact hb hinit
  · exact h text c hc hinit

end Scope

/-! ### States that advance -/

namespace FieldScope

/-- The receiver and the fields of one side of a class. -/
def slots (s : FieldScope) : List Slot := s.receiver :: s.fields.map Prod.fst

/-- Fields are only ever added to a side of a class. -/
structure Grows (s t : FieldScope) : Prop where
  side : t.side = s.side
  receiver : t.receiver = s.receiver
  fields : s.fields <+: t.fields

/-- A side of a class grows from itself. -/
lemma Grows.refl (s : FieldScope) : s.Grows s := ⟨rfl, rfl, List.prefix_rfl⟩

/-- A side that has grown twice has grown. -/
lemma Grows.trans {s t u : FieldScope} (h : s.Grows t) (h' : t.Grows u) : s.Grows u :=
  ⟨h'.side.trans h.side, h'.receiver.trans h.receiver, h.fields.trans h'.fields⟩

/-- The slots of a side stay. -/
lemma Grows.slots {s t : FieldScope} (h : s.Grows t) : s.slots ⊆ t.slots := by
  rw [FieldScope.slots, FieldScope.slots, h.receiver]
  exact List.cons_subset_cons _ (h.fields.map Prod.fst).subset

end FieldScope

/-- Lists whose elements are related step by step are related. -/
lemma forall₂_trans {α : Type} {R : α → α → Prop} (trans : ∀ {a b c}, R a b → R b c → R a c)
    {xs ys zs : List α} (h : List.Forall₂ R xs ys) (h' : List.Forall₂ R ys zs) :
    List.Forall₂ R xs zs := by
  induction h generalizing zs with
  | nil => exact h'
  | cons hab _ ih =>
    cases h' with
    | cons hbc h' => exact .cons (trans hab hbc) (ih h')

namespace Scopes

/-- The names of globals stand for global slots. -/
def GlobalsBound (st : Scopes) : Prop :=
  ∀ t b, st.globalScope.find? t = some b → b.slot ∈ st.globals.map Prod.fst

/-- Fields, globals and mistakes are only ever added. -/
structure Advances (st st' : Scopes) : Prop where
  fields : List.Forall₂ FieldScope.Grows st.fieldScopes st'.fieldScopes
  globals : st.globals <+: st'.globals
  problems : st.problems <+: st'.problems
  bound : st.GlobalsBound → st'.GlobalsBound

/-- The state advances and the scopes stay the same. -/
structure Evolves (st st' : Scopes) : Prop extends Advances st st' where
  scopes : List.Forall₂ Scope.Same st.scopes st'.scopes

/-- A state advances from itself. -/
lemma Advances.refl (st : Scopes) : st.Advances st :=
  ⟨List.forall₂_same.2 fun s _ => .refl s, List.prefix_rfl, List.prefix_rfl, id⟩

/-- Advances go on. -/
lemma Advances.trans {st st' st'' : Scopes} (h : st.Advances st') (h' : st'.Advances st'') :
    st.Advances st'' where
  fields := forall₂_trans .trans h.fields h'.fields
  globals := h.globals.trans h'.globals
  problems := h.problems.trans h'.problems
  bound := h'.bound ∘ h.bound

/-- A state evolves from itself. -/
lemma Evolves.refl (st : Scopes) : st.Evolves st :=
  ⟨.refl st, List.forall₂_same.2 fun s _ => .refl s⟩

/-- One evolution after another. -/
lemma Evolves.trans {st st' st'' : Scopes} (h : st.Evolves st') (h' : st'.Evolves st'') :
    st.Evolves st'' :=
  ⟨h.toAdvances.trans h'.toAdvances, forall₂_trans .trans h.scopes h'.scopes⟩

/-! ### What may be mentioned -/

/-- In the strict sense only a state without mistakes counts. -/
def Fine (strict : Bool) (st : Scopes) : Prop := strict = true → st.problems = []

/-- Where a later state is fine, so was the earlier one. -/
lemma Advances.fine {strict : Bool} {st st' : Scopes} (h : st.Advances st')
    (fine : st'.Fine strict) : st.Fine strict :=
  fun hs => List.prefix_nil.1 (fine hs ▸ h.problems)

/-- The names in scope stand for the given slots, scope by scope. -/
structure Covered (strict : Bool) (Γ : List (List Slot)) (st : Scopes) : Prop where
  scopes : List.Forall₂ (Scope.Covered strict) st.scopes Γ
  globals : st.GlobalsBound

/-- The slots that may be mentioned: those given for the names in scope, the
receivers and fields around, and the globals. -/
def visible (Γ : List (List Slot)) (st : Scopes) : List Slot :=
  Γ.flatten ++ (st.fieldScopes.flatMap FieldScope.slots ++ st.globals.map Prod.fst)

/-- What covers scopes covers scopes that are the same. -/
lemma covered_same {strict : Bool} {scopes scopes' : List Scope}
    (same : List.Forall₂ Scope.Same scopes scopes') {Γ : List (List Slot)}
    (covered : List.Forall₂ (Scope.Covered strict) scopes Γ) :
    List.Forall₂ (Scope.Covered strict) scopes' Γ := by
  induction same generalizing Γ with
  | nil => exact covered
  | cons hs _ ih =>
    cases covered with
    | cons hcov hrest => exact .cons (hcov.same hs) (ih hrest)

/-- What covers the scopes of a state covers those of a later one. -/
lemma Evolves.covered {strict : Bool} {Γ : List (List Slot)} {st st' : Scopes}
    (h : st.Evolves st') (covered : st.Covered strict Γ) : st'.Covered strict Γ :=
  ⟨covered_same h.scopes covered.scopes, h.bound covered.globals⟩

/-- The slots of the sides around stay. -/
lemma slots_subset_of_grows {fs gs : List FieldScope} (h : List.Forall₂ FieldScope.Grows fs gs) :
    fs.flatMap FieldScope.slots ⊆ gs.flatMap FieldScope.slots := by
  induction h with
  | nil => exact List.Subset.refl _
  | cons hf _ ih =>
    rw [List.flatMap_cons, List.flatMap_cons]
    exact List.append_subset.2 ⟨List.subset_append_of_subset_left _ hf.slots,
      List.subset_append_of_subset_right _ ih⟩

/-- What is visible stays visible. -/
lemma Advances.visible {st st' : Scopes} (h : st.Advances st') (Γ : List (List Slot)) :
    st.visible Γ ⊆ st'.visible Γ := by
  refine List.append_subset.2 ⟨List.subset_append_left _ _,
    List.subset_append_of_subset_right _ (List.append_subset.2
      ⟨List.subset_append_of_subset_left _ (slots_subset_of_grows h.fields),
        List.subset_append_of_subset_right _ (h.globals.map Prod.fst).subset⟩)⟩

/-- Globals are visible everywhere. -/
lemma mem_visible_of_global {st : Scopes} {s : Slot} (Γ : List (List Slot))
    (h : s ∈ st.globals.map Prod.fst) : s ∈ st.visible Γ :=
  List.mem_append_right _ (List.mem_append_right _ h)

/-- The fields of a class around are visible, and so are its receivers. -/
lemma mem_visible_of_field {st : Scopes} {f : FieldScope} {s : Slot} (Γ : List (List Slot))
    (hf : f ∈ st.fieldScopes) (h : s ∈ f.slots) : s ∈ st.visible Γ :=
  List.mem_append_right _ (List.mem_append_left _ (List.mem_flatMap.2 ⟨f, hf, h⟩))

/-- What the scopes around bind is visible. -/
lemma mem_visible_of_own {Γ : List (List Slot)} {s : Slot} (st : Scopes) (h : s ∈ Γ.flatten) :
    s ∈ st.visible Γ :=
  List.mem_append_left _ h

/-- More slots cover a scope as well. -/
lemma Covered.head_mono {strict : Bool} {own more : List Slot} {Γ : List (List Slot)}
    {st : Scopes} (h : st.Covered strict (own :: Γ)) (sub : own ⊆ more) :
    st.Covered strict (more :: Γ) := by
  refine ⟨?_, h.globals⟩
  obtain ⟨s, rest, hs, hrest, e⟩ := List.forall₂_cons_right_iff.1 h.scopes
  rw [e]
  exact .cons (hs.mono sub) hrest

/-- With more slots in the innermost scope, more is visible. -/
lemma visible_head_mono {own more : List Slot} (Γ : List (List Slot)) (st : Scopes)
    (sub : own ⊆ more) : st.visible (own :: Γ) ⊆ st.visible (more :: Γ) := by
  intro x hx
  simp only [visible, List.flatten_cons, List.mem_append] at hx ⊢
  rcases hx with (hx | hx) | hx
  · exact .inl (.inl (sub hx))
  · exact .inl (.inr hx)
  · exact .inr hx

end Scopes

namespace Resolve

variable {α β : Type} {strict : Bool}

/-! ### Primitive steps -/

/-- A step that changes nothing but the next slot and the enclosing classes. -/
lemma evolves_of_eq {st st' : Scopes} (scopes : st'.scopes = st.scopes)
    (globalScope : st'.globalScope = st.globalScope)
    (fieldScopes : st'.fieldScopes = st.fieldScopes)
    (globals : st'.globals = st.globals) (problems : st.problems <+: st'.problems) :
    st.Evolves st' where
  fields := fieldScopes ▸ (Scopes.Advances.refl st).fields
  globals := globals ▸ List.prefix_rfl
  problems := problems
  bound h := by
    rw [Scopes.GlobalsBound, globalScope, globals]
    exact h
  scopes := scopes ▸ (Scopes.Evolves.refl st).scopes

/-- A fresh slot leaves the scopes as they are. -/
lemma evolves_fresh (st : Scopes) : st.Evolves (fresh.after st) :=
  evolves_of_eq rfl rfl rfl rfl List.prefix_rfl

/-- A report leaves the scopes as they are. -/
lemma evolves_report (p : ScopeProblem) (st : Scopes) : st.Evolves ((report p).after st) :=
  evolves_of_eq rfl rfl rfl rfl (List.prefix_append _ _)

/-- The nearest binding of a name is found in some scope, and nothing but its
mark changes. -/
lemma useIn_some (strict : Bool) {enclosing : List Slot} {t : String} {scopes scopes' : List Scope}
    {b : Binding} (h : useIn enclosing t scopes = some (b, scopes')) :
    List.Forall₂ Scope.Same scopes scopes' ∧
      ∀ Γ, List.Forall₂ (Scope.Covered strict) scopes Γ →
        (strict = true → b.initialized = true) → b.slot ∈ Γ.flatten := by
  induction scopes generalizing scopes' with
  | nil => cases h
  | cons s rest ih =>
    rw [useIn] at h
    cases hs : s.find? t with
    | some c =>
      rw [hs] at h
      cases h
      refine ⟨.cons (Scope.same_put_markUsed hs enclosing) (List.forall₂_same.2 fun s _ => .refl s),
        fun Γ covered hinit => ?_⟩
      cases covered with
      | cons hcov _ => exact List.mem_flatten_of_mem (List.mem_cons_self ..) (hcov t b hs hinit)
    | none =>
      rw [hs] at h
      obtain ⟨⟨c, rest'⟩, hrest, e⟩ := Option.map_eq_some_iff.1 h
      cases e
      obtain ⟨same, inside⟩ := ih hrest
      refine ⟨.cons (.refl s) same, fun Γ covered hinit => ?_⟩
      cases covered with
      | cons _ hcov =>
        rw [List.flatten_cons]
        exact List.mem_append_right _ (inside _ hcov hinit)

/-- A look-up goes through the scopes around and to the globals after that, and marks what
it finds. -/
lemma run_lookup? (t : String) (st : Scopes) :
    (StateT.run (lookup? t) st : Option Binding × Scopes) =
      match useIn st.enclosing t st.scopes with
      | some (b, scopes) => (some b, { st with scopes })
      | none =>
        match st.globalScope.find? t with
        | some b =>
          (some b, { st with globalScope := st.globalScope.put (markUsed st.enclosing b) })
        | none => (none, st) := rfl

/-- A use of a name marks its binding, and the binding's slot may be mentioned. -/
lemma lookup?_spec (strict : Bool) (t : String) (st : Scopes) :
    st.Evolves ((lookup? t).after st) ∧
      ∀ b, (lookup? t).answer st = some b → ∀ Γ, st.Covered strict Γ →
        (strict = true → b.initialized = true) → b.slot ∈ ((lookup? t).after st).visible Γ := by
  simp only [answer, after]
  rw [run_lookup?]
  cases hu : useIn st.enclosing t st.scopes with
  | some found =>
    obtain ⟨b, scopes⟩ := found
    obtain ⟨same, inside⟩ := useIn_some strict hu
    refine ⟨⟨⟨(Scopes.Advances.refl st).fields, List.prefix_rfl, List.prefix_rfl, id⟩,
      same⟩, fun c hc Γ covered hinit => ?_⟩
    cases hc
    exact Scopes.mem_visible_of_own _ (inside Γ covered.scopes hinit)
  | none =>
    cases hg : st.globalScope.find? t with
    | some b =>
      have same := Scope.same_put_markUsed hg st.enclosing
      refine ⟨⟨⟨(Scopes.Advances.refl st).fields, List.prefix_rfl, List.prefix_rfl,
        fun bound text c hc => ?_⟩, (Scopes.Evolves.refl st).scopes⟩, fun c hc Γ covered _ => ?_⟩
      · have hfind := same.find text
        rw [hc, Option.map_some] at hfind
        obtain ⟨c₀, hc₀, e⟩ := Option.map_eq_some_iff.1 hfind.symm
        have hslot : c₀.slot = c.slot := congrArg (·.slot) e
        exact hslot ▸ bound text c₀ hc₀
      · cases hc
        exact Scopes.mem_visible_of_global Γ (covered.globals t b hg)
    | none => exact ⟨.refl st, fun c hc => absurd hc (by simp)⟩

end Resolve

/-! ### Steps that see what they mention -/

/-- Holds of more slots if it holds of some. -/
def Upward (P : List Slot → Prop) : Prop := ∀ ⦃v w : List Slot⦄, v ⊆ w → P v → P w

namespace Resolve

variable {α β : Type} {strict : Bool} {st : Scopes}

/-- A step evolves the state it starts from, and if `P` holds of the slots that
are visible before it then `C` holds of those after it and of the answer. -/
def SeesAt (strict : Bool) (st : Scopes) (P : List Slot → Prop) (x : Resolve α)
    (C : List Slot → α → Prop) : Prop :=
  st.Evolves (x.after st) ∧
    ∀ Γ, st.Covered strict Γ → (x.after st).Fine strict → P (st.visible Γ) →
      C ((x.after st).visible Γ) (x.answer st)

/-- The same wherever the step starts. -/
def Sees (strict : Bool) (P : List Slot → Prop) (x : Resolve α) (C : List Slot → α → Prop) : Prop :=
  ∀ st, SeesAt strict st P x C

variable {P Q : List Slot → Prop} {C C' : List Slot → α → Prop} {D : List Slot → β → Prop}
  {x : Resolve α} {f : α → Resolve β}

/-- A step whose answer sees what it should leaves the scopes around it the same. -/
lemma Sees.evolves (h : Sees false P x C) (st : Scopes) : st.Evolves (x.after st) := (h st).1

/-- What a first step makes sure of, the second one may rely on. -/
lemma SeesAt.bind (hx : SeesAt strict st P x C)
    (hf : SeesAt strict (x.after st) (C · (x.answer st)) (f (x.answer st)) D) :
    SeesAt strict st P (x >>= f) D := by
  refine ⟨hx.1.trans hf.1, fun Γ covered fine hp => ?_⟩
  exact hf.2 Γ (hx.1.covered covered) fine (hx.2 Γ covered (hf.1.toAdvances.fine fine) hp)

/-- Steps in any state, one after the other. -/
lemma Sees.bind (hx : Sees strict P x C) (hf : ∀ a, Sees strict (C · a) (f a) D) :
    Sees strict P (x >>= f) D :=
  fun st => (hx st).bind (hf _ _)

/-- A result that is at hand sees what is supposed of it. -/
lemma Sees.pure {a : α} (h : ∀ v, P v → C v a) : Sees strict P (pure a) C :=
  fun st => ⟨.refl st, fun _ _ _ hp => h _ hp⟩

/-- What is supposed may be more, and what is seen may be less. -/
lemma SeesAt.imp (hx : SeesAt strict st P x C) (hP : ∀ v, Q v → P v)
    (hC : ∀ v a, C v a → C' v a) : SeesAt strict st Q x C' :=
  ⟨hx.1, fun Γ covered fine hq => hC _ _ (hx.2 Γ covered fine (hP _ hq))⟩

/-- The same for steps in any state. -/
lemma Sees.imp (hx : Sees strict P x C) (hP : ∀ v, Q v → P v) (hC : ∀ v a, C v a → C' v a) :
    Sees strict Q x C' :=
  fun st => (hx st).imp hP hC

/-- What holds upwards is kept by every step. -/
lemma Sees.keep (hx : Sees strict P x C) (up : Upward Q) :
    Sees strict (fun v => P v ∧ Q v) x (fun v a => C v a ∧ Q v) :=
  fun st => ⟨(hx st).1, fun Γ covered fine h =>
    ⟨(hx st).2 Γ covered fine h.1, up ((hx st).1.toAdvances.visible Γ) h.2⟩⟩

/-- A step whose answer needs nothing from before, followed by others. -/
lemma Sees.andThen (hx : Sees strict (fun _ => True) x C) (up : Upward P)
    (hf : ∀ a, Sees strict (fun v => C v a ∧ P v) (f a) D) : Sees strict P (x >>= f) D :=
  ((hx.keep up).imp (fun _ h => ⟨trivial, h⟩) fun _ _ h => h).bind hf

/-- A step that tells nothing about its answer. -/
lemma sees_of_evolves (h : ∀ st : Scopes, st.Evolves (x.after st)) :
    Sees strict P x (fun _ _ => True) :=
  fun st => ⟨h st, fun _ _ _ _ => trivial⟩

/-- What is always so stays so. -/
lemma upward_true : Upward fun _ => True := fun _ _ _ h => h

/-- Two properties that stay stay together. -/
lemma Upward.and {P Q : List Slot → Prop} (hP : Upward P) (hQ : Upward Q) :
    Upward fun v => P v ∧ Q v :=
  fun _ _ sub h => ⟨hP sub h.1, hQ sub h.2⟩

/-- A visible slot stays visible. -/
lemma upward_mem (s : Slot) : Upward (s ∈ ·) := fun _ _ sub h => sub h

end Resolve

end Ember
