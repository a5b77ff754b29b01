/-
What a step of inference does to the types found so far.

* `Infer.answer`, `Infer.after`: what a step answers and the state it leaves;
* `Inference.Later`: a state in which more has been found out. Slots keep their
  types, and mistakes stay;
* `Inference.Valid`: what holds of every state on the way. As long as no demand has
  failed the established pairs form a simulation;
* `Inference.Leads`: a valid later state in which no slots beyond the given ones
  have been given a type;
* `Infer.InfersAt`: a step that leads to such a state and whose answer has a property
  in all later ones, with the rules that put steps together and one for each
  primitive step.
-/
import Mathlib
import Ember.Proofs.Types.Judgement

namespace Ember

open Program

/-! ### Steps -/

namespace Infer

variable {α β : Type}

/-- What a step answers. -/
def answer (x : Infer α) (st : Inference) : α := (StateT.run x st).1

/-- The state that a step leaves. -/
def after (x : Infer α) (st : Inference) : Inference := (StateT.run x st).2

end Infer

/-! ### States that grow -/

namespace Inference

/-- A state in which more has been found out. -/
structure Later (st T : Inference) : Prop where
  graph : st.graph.Later T.graph
  builtins : T.builtins = st.builtins
  bottom : T.bottom = st.bottom
  slots : ∀ {s t}, st.slot? s = some t → T.slot? s = some t
  problems : st.problems <+: T.problems

/-- A state is later than itself. -/
lemma Later.refl (st : Inference) : st.Later st := ⟨.refl _, rfl, rfl, id, List.prefix_rfl⟩

/-- What is later than a later state is later. -/
lemma Later.trans {st T U : Inference} (h : st.Later T) (h' : T.Later U) : st.Later U where
  graph := h.graph.trans h'.graph
  builtins := h'.builtins.trans h.builtins
  bottom := h'.bottom.trans h.bottom
  slots := h'.slots ∘ h.slots
  problems := h.problems.trans h'.problems

/-- A variable stays one. -/
lemma Later.isVar {st T : Inference} (h : st.Later T) {t : TypeId} (ht : st.IsVar t) : T.IsVar t :=
  h.graph.kind? ht

/-- A simple type stays simple. -/
lemma Later.simple {st T : Inference} (h : st.Later T) {t : TypeId} (ht : st.Simple t) :
    T.Simple t := by
  rw [Simple, h.builtins]
  exact TypeGraph.Simple.later ht h.graph

/-- Variables are simple. -/
lemma IsVar.simple {T : Inference} {t : TypeId} (h : T.IsVar t) : T.Simple t := .inl h

/-! ### Valid states -/

/-- What holds of every state on the way. -/
structure Valid (st : Inference) : Prop where
  origin : start.Later st
  sound : st.graph.Sound
  slots : ∀ {s t}, st.slot? s = some t → st.IsVar t
  simulated : st.problems = [] → st.graph.Simulated

/-- The nodes that are there from the start. -/
lemma node?_start (t : TypeId) :
    start.graph.node? t = (Builtins.nodes 0 ++ [.bottom])[t]? := by
  change ((#[] ++ (Builtins.nodes 0).toArray).push .bottom)[t]? = _
  rw [← Array.getElem?_toList]
  simp

/-- The classes that are there from the start have regular shapes. -/
lemma regular_nodes : ∀ n ∈ Builtins.nodes 0 ++ [.bottom], ∀ m : Selector × Signature,
    m ∈ (match n with
      | .cls shape => shape
      | _ => ([] : Shape)) → m.2.params.map List.length = m.1.arity := by decide

/-- The first graph is sound. -/
lemma sound_start : start.graph.Sound := by
  have issued : ∀ n ∈ Builtins.nodes 0 ++ [.bottom], ∀ u ∈ n.types, u < 13 := by decide
  constructor
  · intro t n hn
    rw [node?_start] at hn
    exact issued n (List.mem_of_getElem? hn)
  · intro t shape hn m hm
    rw [node?_start] at hn
    exact regular_nodes (.cls shape) (List.mem_of_getElem? hn) m hm

/-- At first nothing has been demanded. -/
lemma valid_start : start.Valid where
  origin := .refl start
  sound := sound_start
  slots h := nomatch h
  simulated _ _ hp := absurd hp List.not_mem_nil

/-- The labels of the built-in types are there at first. -/
lemma labels_start : start.graph.Labels start.builtins where
  shaped t ht := by
    simp only [node?_start]
    rcases ht with rfl | rfl | rfl
    · exact ⟨"Number", 0, _, rfl, rfl⟩
    · exact ⟨"String", 1, _, rfl, rfl⟩
    · exact ⟨"Boolean", 2, _, rfl, rfl⟩
  apart t u name a c ht hu hn hm := by
    rw [node?_start] at hn hm
    rcases ht with rfl | rfl | rfl <;> rcases hu with rfl | rfl | rfl <;> first
      | rfl
      | exact absurd ((TypeNode.labeled.inj (Option.some.inj hn)).1.trans
          (TypeNode.labeled.inj (Option.some.inj hm)).1.symm) (by decide)

namespace Valid

variable {st : Inference} (h : st.Valid)
include h

/-- The labels of the built-in types are there. -/
lemma labels : st.graph.Labels st.builtins :=
  h.origin.builtins ▸ labels_start.later h.origin.graph

/-- The least type is there. -/
lemma kind?_bottom : st.graph.kind? st.bottom = some .bottom := by
  rw [h.origin.bottom]
  exact h.origin.graph.kind? (by rw [TypeGraph.kind?, node?_start]; rfl)

/-- A simple type belongs to the graph. -/
lemma lt_of_simple {t : TypeId} (ht : st.Simple t) : t < st.graph.size :=
  TypeGraph.Simple.lt ht h.labels

/-- A variable belongs to the graph. -/
lemma lt_of_isVar {t : TypeId} (ht : st.IsVar t) : t < st.graph.size := h.lt_of_simple ht.simple

end Valid

/-! ### Where a step leads -/

/-- None of these slots has a type. -/
def Free (st : Inference) (ss : List Slot) : Prop := ∀ s ∈ ss, st.slot? s = none

/-- A valid later state, in which only the given slots may have got a type. -/
structure Leads (st : Inference) (may : List Slot) (st' : Inference) : Prop where
  later : st.Later st'
  valid : st'.Valid
  bound : ∀ s, st.slot? s = none → s ∉ may → st'.slot? s = none

variable {st st' st'' : Inference} {may may' : List Slot}

/-- A state leads to itself. -/
lemma Leads.refl (valid : st.Valid) : st.Leads may st := ⟨.refl st, valid, fun _ h _ => h⟩

/-- More slots may be given types. -/
lemma Leads.mono (h : st.Leads may st') (sub : may ⊆ may') : st.Leads may' st' :=
  ⟨h.later, h.valid, fun s hs hm => h.bound s hs fun h' => hm (sub h')⟩

/-- Steps lead on, one after the other. -/
lemma Leads.trans (h : st.Leads may st') (h' : st'.Leads may st'') : st.Leads may st'' :=
  ⟨h.later.trans h'.later, h'.valid, fun s hs hm => h'.bound s (h.bound s hs hm) hm⟩

/-- What is free and not among the given slots stays free. -/
lemma Leads.free (h : st.Leads may st') {ss : List Slot} (free : st.Free ss)
    (apart : ∀ s ∈ ss, s ∉ may) : st'.Free ss :=
  fun s hs => h.bound s (free s hs) (apart s hs)

/-- Fewer slots are free as well. -/
lemma Free.subset {ss ts : List Slot} (h : st.Free ss) (sub : ts ⊆ ss) : st.Free ts :=
  fun s hs => h s (sub hs)

end Inference

/-! ### Rules -/

namespace Infer

open Inference

variable {α β : Type} {st : Inference} {may may' : List Slot} {x : Infer α} {f : α → Infer β}
  {Q Q' : Inference → α → Prop} {R : Inference → β → Prop}

/-- A step that leads to a valid state, in which and after which the answer has a
property. -/
structure InfersAt (st : Inference) (may : List Slot) (x : Infer α)
    (Q : Inference → α → Prop) : Prop where
  leads : st.Leads may (x.after st)
  holds : ∀ T, (x.after st).Later T → Q T (x.answer st)

/-- A result that is at hand finds out nothing. -/
lemma InfersAt.pure {a : α} (valid : st.Valid) (h : ∀ T, st.Later T → Q T a) :
    InfersAt st may (Pure.pure a) Q := ⟨.refl valid, h⟩

/-- One step after another. The second one may rely on what the first one has found
out, and so may the whole. -/
lemma InfersAt.bind (hx : InfersAt st may' x Q) (sub : may' ⊆ may)
    (hf : ∀ st' a, st.Leads may' st' → (∀ T, st'.Later T → Q T a) → InfersAt st' may (f a) R) :
    InfersAt st may (x >>= f) R := by
  have next := hf _ _ hx.leads hx.holds
  exact ⟨(hx.leads.mono sub).trans next.leads, next.holds⟩

/-- What is inferred may say less, of more slots. -/
lemma InfersAt.imp (hx : InfersAt st may' x Q) (sub : may' ⊆ may)
    (h : ∀ T a, st.Later T → Q T a → Q' T a) : InfersAt st may x Q' :=
  ⟨hx.leads.mono sub, fun T later => h T _ (hx.leads.later.trans later) (hx.holds T later)⟩

/-! ### Primitive steps -/

/-- A step that adds a type. -/
lemma infersAt_push (valid : st.Valid) {n : TypeNode}
    (hissued : ∀ t ∈ n.types, t < st.graph.size)
    (hregular : ∀ shape, n = .cls shape → shape.IsRegular) :
    InfersAt st may (modifyGet fun st : Inference =>
      ((st.graph.push n).1, { st with graph := (st.graph.push n).2 }))
      fun T t => ∃ n', T.graph.node? t = some n' ∧ TypeGraph.NodeGrows n n' := by
  have grows := TypeGraph.later_push st.graph n
  have later : st.Later { st with graph := (st.graph.push n).2 } :=
    ⟨grows, rfl, rfl, id, List.prefix_rfl⟩
  refine ⟨⟨later, ⟨valid.origin.trans later, valid.sound.push hissued hregular, fun hs => ?_,
    fun clean => ?_⟩, fun _ h _ => h⟩, fun T hT => hT.graph.node? ?_⟩
  · exact later.isVar (valid.slots hs)
  · exact (valid.simulated clean).push valid.sound.issued n
  · change (st.graph.push n).2.node? st.graph.size = some n
    rw [TypeGraph.node?_push, if_pos rfl]

/-- A fresh variable is a variable. -/
lemma infersAt_fresh (valid : st.Valid) : InfersAt st may fresh fun T t => T.IsVar t := by
  refine (infersAt_push valid (n := .var [] []) (fun t ht => nomatch ht) fun _ h => nomatch h).imp
    (List.Subset.refl _) fun T t _ ⟨n, hn, grows⟩ => ?_
  rw [IsVar, TypeGraph.kind?, hn]
  cases grows <;> rfl

/-- A new shape is a class with its methods. -/
lemma infersAt_shape (valid : st.Valid) {s : Shape} (regular : s.IsRegular)
    (issued : ∀ t ∈ s.types, t < st.graph.size) :
    InfersAt st may (shape s) fun T t => T.graph.node? t = some (.cls s) := by
  refine (infersAt_push valid (n := .cls s) issued fun _ h => by cases h; exact regular).imp
    (List.Subset.refl _) fun T t _ ⟨n, hn, grows⟩ => ?_
  cases grows
  exact hn

/-- Fresh variables are as many as asked for. -/
lemma infersAt_freshFor {γ : Type} (valid : st.Valid) (xs : List γ) :
    InfersAt st may (freshFor xs) fun T ts =>
      ts.length = xs.length ∧ ∀ t ∈ ts, T.IsVar t := by
  induction xs generalizing st with
  | nil => exact .pure valid fun T _ => ⟨rfl, fun t ht => nomatch ht⟩
  | cons x xs ih =>
    refine (infersAt_fresh valid).bind (List.Subset.refl _) fun st₁ t at₁ new => ?_
    refine (ih at₁.valid).bind (List.Subset.refl _) fun st₂ ts at₂ news => ?_
    refine .pure at₂.valid fun T hT => ⟨congrArg Nat.succ (news T hT).1, ?_⟩
    exact List.forall_mem_cons.2 ⟨new T (at₂.later.trans hT), (news T hT).2⟩

/-- The least type is simple. -/
lemma infersAt_bottom (valid : st.Valid) :
    InfersAt st may bottom fun T t => T.Simple t :=
  ⟨.refl valid, fun _ hT => .inr (.inl (hT.graph.kind? valid.kind?_bottom))⟩

/-- A slot without a type is given one. -/
lemma infersAt_bind (valid : st.Valid) {s : Slot} {t : TypeId} (free : st.slot? s = none)
    (ht : st.IsVar t) : InfersAt st [s] (bind s t) fun T _ => T.slot? s = some t := by
  have self : ({ st with slots := putByKey Prod.fst (s, t) st.slots } : Inference).slot? s =
      some t := by
    rw [slot?, findByKey?_putByKey_self Prod.fst (s, t) st.slots]
    rfl
  have other {u : Slot} (hu : s ≠ u) :
      ({ st with slots := putByKey Prod.fst (s, t) st.slots } : Inference).slot? u =
        st.slot? u := by
    rw [slot?, findByKey?_putByKey_of_ne Prod.fst (s, t) st.slots hu, slot?]
  have later : st.Later { st with slots := putByKey Prod.fst (s, t) st.slots } := by
    refine ⟨.refl _, rfl, rfl, fun {u v} hu => ?_, List.prefix_rfl⟩
    rw [other]
    · exact hu
    · rintro rfl
      rw [free] at hu
      cases hu
  refine ⟨⟨later, ⟨valid.origin.trans later, valid.sound, fun {u v} hu => ?_, valid.simulated⟩,
    fun u hu hm => ?_⟩, fun T hT => hT.slots self⟩
  · change st.IsVar v
    change ({ st with slots := putByKey Prod.fst (s, t) st.slots } : Inference).slot? u =
      some v at hu
    by_cases e : s = u
    · subst e
      rw [self] at hu
      cases hu
      exact ht
    · rw [other e] at hu
      exact valid.slots hu
  · change ({ st with slots := putByKey Prod.fst (s, t) st.slots } : Inference).slot? u = none
    rw [other fun e => hm (e ▸ List.mem_singleton_self u)]
    exact hu

/-- What a step does depends on what it answers and leaves alone. -/
lemma InfersAt.of_run {y : Infer α} (hy : InfersAt st may y Q)
    (run : StateT.run x st = StateT.run y st) : InfersAt st may x Q := by
  obtain ⟨leads, holds⟩ := hy
  rw [after, ← run] at leads holds
  rw [answer, ← run] at holds
  exact ⟨leads, holds⟩

/-- The type of a slot, old or new. -/
lemma infersAt_slotType (valid : st.Valid) (s : Slot) :
    InfersAt st [s] (slotType s) fun T t => T.slot? s = some t ∧ T.IsVar t := by
  cases found : findByKey? Prod.fst s st.slots with
  | some p =>
    have known : st.slot? s = some p.2 := by rw [slot?, found]; rfl
    refine InfersAt.of_run (y := pure p.2) (.pure valid fun T hT => ?_) ?_
    · exact ⟨hT.slots known, hT.isVar (valid.slots known)⟩
    · simp [slotType, found]
  | none =>
    have unknown : st.slot? s = none := by rw [slot?, found]; rfl
    refine InfersAt.of_run (y := do let t ← fresh; bind s t; return t) ?_ ?_
    · have made : InfersAt st [] fresh fun T t => T.IsVar t := infersAt_fresh valid
      refine made.bind (List.nil_subset _) fun st₁ t at₁ new => ?_
      have free := at₁.bound s unknown List.not_mem_nil
      refine (infersAt_bind at₁.valid free (new st₁ (.refl st₁))).bind (List.Subset.refl _)
        fun st₂ _ at₂ bound => ?_
      exact .pure at₂.valid fun T hT => ⟨bound T hT, new T (at₂.later.trans hT)⟩
    · simp [slotType, found]

/-- Slots are given variables, if they have no types. -/
lemma infersAt_slotTypes (valid : st.Valid) (ss : List Slot) :
    InfersAt st ss (slotTypes ss) fun T ts => T.Slots ss ts ∧ ∀ t ∈ ts, T.IsVar t := by
  induction ss generalizing st with
  | nil => exact .pure valid fun T _ => ⟨.nil, fun t ht => nomatch ht⟩
  | cons s ss ih =>
    refine (infersAt_slotType valid s).bind (by simp) fun st₁ t at₁ first => ?_
    refine (ih at₁.valid).bind (List.subset_cons_self s ss) fun st₂ ts at₂ rest => ?_
    refine .pure at₂.valid fun T hT => ?_
    have h := first T (at₂.later.trans hT)
    exact ⟨.cons h.1 (rest T hT).1, List.forall_mem_cons.2 ⟨h.2, (rest T hT).2⟩⟩

/-! ### Demands -/

/-- What is demanded holds, if not without a conflict. -/
lemma infersAt_demand (valid : st.Valid) {left right : TypeId} (line : Line)
    (hl : left < st.graph.size) (hr : right < st.graph.size) :
    InfersAt st may (demand left right line) fun T _ => T.graph.Below left right := by
  have later : st.Later ((demand left right line).after st) :=
    ⟨TypeGraph.later_constrain st.graph left right, rfl, rfl, id, List.prefix_append _ _⟩
  refine ⟨⟨later, ⟨valid.origin.trans later, valid.sound.constrain hl hr, fun hs => ?_,
    fun clean => ?_⟩, fun _ h _ => h⟩, fun T hT => ?_⟩
  · exact later.isVar (valid.slots hs)
  · -- Without a mistake there was none before, and none has been added.
    obtain ⟨before, added⟩ := List.append_eq_nil_iff.1 clean
    refine (valid.simulated before).constrain valid.sound hl hr ?_
    rw [TypeGraph.constrain]
    cases conflicts : (st.graph.solve [.below left right]).2 with
    | nil => rfl
    | cons c rest =>
      rw [conflicts] at added
      cases added
  · exact hT.graph.below (TypeGraph.below_constrain hl hr)

/-- What is demanded one by one flows one by one. -/
lemma infersAt_demandEach (valid : st.Valid) (line : Line) {ls rs : List TypeId}
    (same : ls.length = rs.length) (hl : ∀ t ∈ ls, st.Simple t) (hr : ∀ t ∈ rs, st.Simple t) :
    InfersAt st may (demandEach line ls rs) fun T _ => List.Forall₂ T.Flows ls rs := by
  induction ls generalizing st rs with
  | nil =>
    cases rs with
    | nil => exact .pure valid fun T _ => .nil
    | cons => cases same
  | cons l ls ih =>
    cases rs with
    | nil => cases same
    | cons r rs =>
      rw [List.forall_mem_cons] at hl hr
      refine (infersAt_demand valid line (valid.lt_of_simple hl.1)
        (valid.lt_of_simple hr.1)).bind (List.Subset.refl _) fun st₁ _ at₁ first => ?_
      refine (ih at₁.valid (Nat.succ.inj same) (fun t ht => at₁.later.simple (hl.2 t ht))
        fun t ht => at₁.later.simple (hr.2 t ht)).imp (List.Subset.refl _) fun T _ hT rest => ?_
      exact .cons ⟨(at₁.later.trans hT).simple hl.1, first T hT⟩ rest

/-- What a boolean is demanded of flows into the booleans. -/
lemma infersAt_demandBoolean (valid : st.Valid) {t : TypeId} (line : Line) (ht : st.Simple t) :
    InfersAt st may (demandBoolean t line) fun T _ => T.Flows t T.builtins.boolean := by
  have boolean : st.Simple st.builtins.boolean := .inr (.inr (.inr (.inr rfl)))
  refine InfersAt.of_run (y := demand t st.builtins.boolean line) ?_ rfl
  refine (infersAt_demand valid line (valid.lt_of_simple ht) (valid.lt_of_simple boolean)).imp
    (List.Subset.refl _) fun T _ hT below => ?_
  exact ⟨hT.simple ht, hT.builtins ▸ below⟩

/-! ### Compound steps -/

/-- A literal has the type of its kind. -/
lemma infersAt_literal (valid : st.Valid) (v : Literal) :
    InfersAt st may (literal v) fun T t => T.Simple t ∧ T.OfLiteral t v := by
  have label {t : TypeId} (ht : TypeGraph.IsLabel st.builtins t) {T : Inference} (hT : st.Later T) :
      T.Simple t := hT.simple (.inr (.inr ht))
  cases v with
  | number n =>
    exact ⟨.refl valid, fun T hT =>
      ⟨label (.inl rfl) hT, congrArg Builtins.number hT.builtins.symm⟩⟩
  | text s =>
    exact ⟨.refl valid, fun T hT =>
      ⟨label (.inr (.inl rfl)) hT, congrArg Builtins.text hT.builtins.symm⟩⟩
  | boolean b =>
    exact ⟨.refl valid, fun T hT =>
      ⟨label (.inr (.inr rfl)) hT, congrArg Builtins.boolean hT.builtins.symm⟩⟩
  | nil =>
    exact (infersAt_fresh valid).imp (List.Subset.refl _) fun T t _ new => ⟨new.simple, trivial⟩

/-- The part of a call that comes after its operands. -/
lemma infersAt_asks (valid : st.Valid) {r : TypeId} (hr : st.Simple r) (name : String)
    (params : Option (List TypeId)) (hparams : ∀ t ∈ params.getD [], st.IsVar t) (line : Line)
    (arguments : List TypeId) (same : arguments.length = (params.getD []).length)
    (harguments : ∀ t ∈ arguments, st.Simple t) :
    InfersAt st may (do
      let result ← fresh
      let wanted ← shape [(⟨name, params.map List.length⟩, ⟨params, result⟩)]
      demand r wanted line
      demandEach line arguments (params.getD [])
      return result)
      fun T t => T.IsVar t ∧ List.Forall₂ T.Flows arguments (params.getD []) ∧
        T.Asks r ⟨name, params.map List.length⟩ params t := by
  refine (infersAt_fresh valid).bind (List.Subset.refl _) fun st₁ result at₁ new => ?_
  have regular : Shape.IsRegular [(⟨name, params.map List.length⟩, ⟨params, result⟩)] := by
    intro m hm
    cases List.mem_singleton.1 hm
    rfl
  refine (infersAt_shape at₁.valid regular fun t ht => ?_).bind (List.Subset.refl _)
    fun st₂ wanted at₂ node => ?_
  · simp only [Shape.types, Signature.types, List.flatMap_cons, List.flatMap_nil, List.append_nil,
      List.mem_append, List.mem_singleton] at ht
    rcases ht with ht | rfl
    · exact at₁.valid.lt_of_isVar (at₁.later.isVar (hparams t ht))
    · exact at₁.valid.lt_of_isVar (new st₁ (.refl st₁))
  have later₂ := at₁.later.trans at₂.later
  refine (infersAt_demand at₂.valid line (at₂.valid.lt_of_simple (later₂.simple hr))
    (TypeGraph.node?_lt (node st₂ (.refl st₂)))).bind (List.Subset.refl _) fun st₃ _ at₃ asked => ?_
  have later₃ := later₂.trans at₃.later
  refine (infersAt_demandEach at₃.valid line same (fun t ht => later₃.simple (harguments t ht))
    fun t ht => (later₃.isVar (hparams t ht)).simple).bind (List.Subset.refl _)
    fun st₄ _ at₄ flows => ?_
  refine .pure at₄.valid fun T hT => ?_
  have later₃' := at₄.later.trans hT
  have later' := later₃.trans later₃'
  have result_var := new T (at₂.later.trans (at₃.later.trans later₃'))
  exact ⟨result_var, flows T hT, wanted, node T (at₃.later.trans later₃'),
    ⟨later'.simple hr, asked T later₃'⟩, result_var, fun t ht => later'.isVar (hparams t ht)⟩

/-- A call with arguments. -/
lemma infersAt_call (valid : st.Valid) {r : TypeId} (hr : st.Simple r) (name : String)
    {ts : List TypeId} (hts : ∀ t ∈ ts, st.Simple t) (line : Line) :
    InfersAt st may (call r name (some ts) line) fun T t => T.IsVar t ∧
      ∃ params, List.Forall₂ T.Flows ts params ∧ T.Asks r
        ⟨name, some ts.length⟩ (some params) t := by
  refine (infersAt_freshFor valid ts).bind (List.Subset.refl _) fun st₁ ps at₁ new => ?_
  obtain ⟨same, vars⟩ := new st₁ (.refl st₁)
  refine (infersAt_asks at₁.valid (at₁.later.simple hr) name (some ps) vars line
    ts same.symm fun t ht => at₁.later.simple (hts t ht)).imp (List.Subset.refl _)
    fun T t _ ⟨var, flows, asks⟩ => ⟨var, ps, flows, ?_⟩
  rwa [Option.map_some, same] at asks

/-- A call of a getter. -/
lemma infersAt_getter (valid : st.Valid) {r : TypeId} (hr : st.Simple r) (name : String)
    (line : Line) :
    InfersAt st may (call r name none line) fun T t => T.IsVar t ∧ T.Asks r ⟨name, none⟩ none t :=
  (infersAt_asks valid hr name none (fun _ ht => nomatch ht) line [] rfl
    fun _ ht => nomatch ht).imp (List.Subset.refl _) fun _ _ _ ⟨var, _, asks⟩ => ⟨var, asks⟩

/-- The type of instances flows into what a constructor makes. -/
lemma infersAt_demandInstance (valid : st.Valid) {instances made : TypeId} (line : Line)
    (hi : st.IsVar instances) (hm : st.IsVar made) :
    InfersAt st may (demandInstance instances made line) fun T _ =>
      T.graph.Below instances made := by
  refine (infersAt_demand valid line (valid.lt_of_isVar hi) (valid.lt_of_isVar hm)).bind
    (List.Subset.refl _) fun st₁ _ at₁ below => ?_
  refine (infersAt_demand at₁.valid line (at₁.valid.lt_of_isVar (at₁.later.isVar hm))
    (at₁.valid.lt_of_isVar (at₁.later.isVar hi))).imp (List.Subset.refl _) fun T _ hT _ => ?_
  exact below T hT

/-! ### Receivers -/

/-- The receivers of a class are given variables. -/
lemma infersAt_receivers (valid : st.Valid) (c : ClassDecl) :
    InfersAt st [c.staticReceiver, c.receiver] (receivers c) fun T ts =>
      (T.slot? c.staticReceiver = some ts.1 ∧ T.IsVar ts.1) ∧
        T.slot? c.receiver = some ts.2 ∧ T.IsVar ts.2 := by
  refine (infersAt_slotType valid _).bind (by simp) fun st₁ statics at₁ first => ?_
  refine (infersAt_slotType at₁.valid _).bind (by simp) fun st₂ instances at₂ second => ?_
  exact .pure at₂.valid fun T hT => ⟨first T (at₂.later.trans hT), second T hT⟩

end Infer

end Ember
