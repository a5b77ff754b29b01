/-
Which types the values of a run have.

* `Value.Owns`: the type that a value is made with, that of its class or a built-in
  label;
* `Value.Typed`: a value has every type that its own type is below, and null has all
  types;
* `Value.Typed.flow`: values flow on, as long as no demand on the types has failed;
* `Value.Typed.of_label`: a value with the type of a built-in label is of that class;
* `offers_native`, `offers_class`, `offers_instance`: what is asked of the type of
  a value, the value has a method for.
-/
import Mathlib
import Ember.Proofs.Run.Natives
import Ember.Proofs.Types.Inferring

namespace Ember

open Program

/-! ### The built-in labels -/

/-- The label of the values of a class. Null has none. -/
def NativeClass.label? (b : Builtins) : NativeClass → Option TypeId
  | number => some b.number
  | text => some b.text
  | boolean => some b.boolean
  | null => none

/-- The label of a native class is a label of the graph. -/
lemma NativeClass.isLabel {b : Builtins} {c : NativeClass} {l : TypeId}
    (h : c.label? b = some l) : TypeGraph.IsLabel b l := by
  cases c with
  | number => exact .inl (Option.some.inj h).symm
  | text => exact .inr (.inl (Option.some.inj h).symm)
  | boolean => exact .inr (.inr (Option.some.inj h).symm)
  | null => cases h

/-- A signature agrees with what a method of plain values asks for and answers. -/
def Signature.Agrees (b : Builtins) (sig : Signature)
    (native : Option NativeClass × NativeClass) : Prop :=
  native.2.label? b = some sig.result ∧
    ∀ c ∈ native.1, sig.params = (c.label? b).map fun l => [l]

instance (b : Builtins) (sig : Signature) (native : Option NativeClass × NativeClass) :
    Decidable (sig.Agrees b native) := inferInstanceAs (Decidable (_ ∧ _))

namespace Inference

/-- The types that are built in describe the methods that are built in. -/
lemma start_agrees {c : NativeClass} {l : TypeId} (h : c.label? start.builtins = some l) :
    ∃ name inner shape, start.graph.node? l = some (.labeled name inner) ∧
      start.graph.node? inner = some (.cls shape) ∧
        ∀ x ∈ shape, ∃ native ∈ c.signatures.lookup x.1, x.2.Agrees start.builtins native := by
  simp only [node?_start]
  cases c with
  | number =>
    cases h
    exact ⟨"Number", 0, _, rfl, rfl, by decide⟩
  | text =>
    cases h
    exact ⟨"String", 1, _, rfl, rfl, by decide⟩
  | boolean =>
    cases h
    exact ⟨"Boolean", 2, _, rfl, rfl, by decide⟩
  | null => cases h

/-- At the start native classes have labels of their own. -/
lemma start_label_inj {c d : NativeClass} {l : TypeId} (hc : c.label? start.builtins = some l)
    (hd : d.label? start.builtins = some l) : c = d := by
  revert hc
  cases c <;> cases d <;> cases hd <;> decide

/-- The types of a program in which no demand has failed. -/
structure Consistent (T : Inference) : Prop where
  valid : T.Valid
  clean : T.problems = []

variable {T : Inference}

lemma Consistent.simulated (h : T.Consistent) : T.graph.Simulated := h.valid.simulated h.clean

/-- Native classes have labels of their own in a consistent state. -/
lemma Consistent.label_inj (h : T.Consistent) {c d : NativeClass} {l : TypeId}
    (hc : c.label? T.builtins = some l) (hd : d.label? T.builtins = some l) : c = d := by
  rw [h.valid.origin.builtins] at hc hd
  exact start_label_inj hc hd

/-- The label of a class of plain values offers the methods of that class. -/
lemma Consistent.agrees (h : T.Consistent) {c : NativeClass} {l : TypeId}
    (hl : c.label? T.builtins = some l) :
    ∃ name inner shape, T.graph.node? l = some (.labeled name inner) ∧
      T.graph.node? inner = some (.cls shape) ∧
        ∀ x ∈ shape, ∃ native ∈ c.signatures.lookup x.1, x.2.Agrees T.builtins native := by
  rw [h.valid.origin.builtins] at hl ⊢
  obtain ⟨name, inner, shape, hlabel, hinner, agrees⟩ := start_agrees hl
  exact ⟨name, inner, shape, h.valid.origin.graph.labeled hlabel, h.valid.origin.graph.cls hinner,
    agrees⟩

end Inference

/-! ### The types of values -/

section Values

variable {T : Inference}

/-- The type that a value is made with. Null has none, and neither have the values
of a host. -/
def Value.Owns (T : Inference) : Value → TypeId → Prop
  | .cls c, p => ∃ I, c.decl.Typed T p I
  | .obj i, p => ∃ S, i.cls.decl.Typed T S p
  | v, p => ∃ c, NativeClass.of? v = some c ∧ c.label? T.builtins = some p

/-- A value has every type that its own type is below. Null has all types. -/
def Value.Typed (T : Inference) (v : Value) (t : TypeId) : Prop :=
  v = .null ∨ ∃ p, v.Owns T p ∧ T.graph.Below p t

/-- The type of a class is a class, and so is that of its instances. -/
lemma Program.ClassDecl.Typed.nodes {c : ClassDecl} {S I : TypeId} (h : c.Typed T S I) :
    T.graph.kind? S = some .cls ∧ T.graph.kind? I = some .cls := by
  obtain ⟨name, line, receiver, staticReceiver, constructors, staticMethods, methods, fields,
    staticFields⟩ := c
  obtain ⟨statics, instances, onInstance, onClass, offered, hS, hI, -⟩ := h
  exact ⟨TypeGraph.kind?_of_node? hS.2.1, TypeGraph.kind?_of_node? hI.2.1⟩

/-- What belongs to a value is concrete. -/
lemma Value.Owns.concrete {v : Value} {p : TypeId} (h : v.Owns T p) :
    T.graph.Concrete T.builtins p := by
  cases v with
  | cls c =>
    obtain ⟨I, typed⟩ := h
    exact .inl typed.nodes.1
  | obj i =>
    obtain ⟨S, typed⟩ := h
    exact .inl typed.nodes.2
  | null | boolean _ | number _ | text _ | host _ =>
    obtain ⟨c, -, label⟩ := h
    exact .inr (NativeClass.isLabel label)

/-- Null is of every type. -/
lemma Value.Typed.null (T : Inference) (t : TypeId) : Value.null.Typed T t := .inl rfl

/-- A plain value has the label of its class. -/
lemma Value.Typed.native {v : Value} {c : NativeClass} {t : TypeId}
    (own : NativeClass.of? v = some c) (label : c.label? T.builtins = some t) : v.Typed T t := by
  refine .inr ⟨t, ?_, .inl rfl⟩
  cases v with
  | cls _ | obj _ | host _ => cases own
  | null | boolean _ | number _ | text _ => exact ⟨c, own, label⟩

/-- A value that has a type has every type that one flows into. -/
lemma Value.Typed.flow (h : T.Consistent) {v : Value} {t u : TypeId} (typed : v.Typed T t)
    (flows : T.Flows t u) : v.Typed T u := by
  rcases typed with rfl | ⟨p, own, below⟩
  · exact .null T u
  · exact .inr ⟨p, own, below.through h.simulated h.valid.labels own.concrete flows.1 flows.2⟩

/-- Values flow on one by one. -/
lemma typed_flow (h : T.Consistent) {vs : List Value} {ts us : List TypeId}
    (typed : List.Forall₂ (Value.Typed T) vs ts) (flows : List.Forall₂ T.Flows ts us) :
    List.Forall₂ (Value.Typed T) vs us := by
  induction typed generalizing us with
  | nil =>
    cases flows
    exact .nil
  | cons first _ ih =>
    cases flows with
    | cons flow flows => exact .cons (first.flow h flow) (ih flows)

/-- A value that has the type of a built-in label is of that class, or it is null. -/
lemma Value.Typed.of_label (h : T.Consistent) {v : Value} {c : NativeClass} {l : TypeId}
    (label : c.label? T.builtins = some l) (typed : v.Typed T l) :
    v = .null ∨ NativeClass.of? v = some c := by
  rcases typed with rfl | ⟨p, own, below⟩
  · exact .inl rfl
  have labels := h.valid.labels
  have isLabel := NativeClass.isLabel label
  have simple : T.graph.Simple T.builtins l := .inr (.inr isLabel)
  have noVar : T.graph.kind? l ≠ some .var := by simp [labels.kind? isLabel]
  have noClass (kp : T.graph.kind? p = some .cls) : False :=
    noVar (TypeGraph.lower_of_class_below h.simulated labels kp simple below).1
  cases v with
  | cls d =>
    obtain ⟨I, hd⟩ := own
    exact (noClass hd.nodes.1).elim
  | obj i =>
    obtain ⟨S, hd⟩ := own
    exact (noClass hd.nodes.2).elim
  | null | boolean _ | number _ | text _ | host _ =>
    obtain ⟨d, own, label'⟩ := own
    rcases TypeGraph.lower_of_label_below h.simulated labels (NativeClass.isLabel label') simple
      below with rfl | ⟨hvar, -⟩
    · rw [h.label_inj label label']
      exact .inr own
    · exact absurd hvar noVar

/-! ### What is asked of a value -/

/-- Arguments that were fit for a method that is asked for are fit for one that is
offered for it, and what that one answers is fit to be the answer. -/
lemma fit_call (h : T.Consistent) {r result : TypeId} {params : Option (List TypeId)}
    {method : Selector} {sig : Signature} (asks : T.Asks r method params result)
    (fits : TypeGraph.FitsSignature T.graph.Below sig ⟨params, result⟩)
    (simple : T.Simple sig.result) {vs : List Value}
    (given : List.Forall₂ (Value.Typed T) vs (params.getD [])) :
    List.Forall₂ (Value.Typed T) vs (sig.params.getD []) ∧ T.Flows sig.result result := by
  obtain ⟨wanted, -, -, -, vars⟩ := asks
  refine ⟨typed_flow h given ?_, simple, fits.2⟩
  exact List.forall₂_iff_zip.2 ⟨fits.1.length_eq, fun {p q} hpq =>
    ⟨(vars p (List.of_mem_zip hpq).1 : T.IsVar p).simple, (List.forall₂_iff_zip.1 fits.1).2 hpq⟩⟩

/-- What is asked of a plain value its class has a method for. -/
lemma offers_native (h : T.Consistent) {r result : TypeId} {params : Option (List TypeId)}
    {method : Selector} (asks : T.Asks r method params result) {v : Value} {c : NativeClass}
    (own : NativeClass.of? v = some c) (null : v ≠ .null) (typed : v.Typed T r) :
    ∃ run operand answer sig, c.find? method = some run ∧ run.Meets c operand answer ∧
      sig.Agrees T.builtins (operand, answer) ∧
        TypeGraph.FitsSignature T.graph.Below sig ⟨params, result⟩ := by
  obtain ⟨wanted, hwanted, flows, -⟩ := asks
  rcases typed.flow h flows with rfl | ⟨p, owns, below⟩
  · exact absurd rfl null
  have label : c.label? T.builtins = some p := by
    cases v with
    | cls _ | obj _ | host _ => cases own
    | null | boolean _ | number _ | text _ =>
      obtain ⟨d, own', label⟩ := owns
      rw [own] at own'
      cases own'
      exact label
  obtain ⟨name, inner, shape, hlabel, hinner, agrees⟩ := h.agrees label
  obtain ⟨sig, found, fits⟩ := TypeGraph.fits_of_label_below h.simulated hlabel hinner hwanted below
    method ⟨params, result⟩ (List.mem_singleton_self _)
  obtain ⟨⟨operand, answer⟩, signature, agree⟩ := agrees _ (Shape.find?_mem found)
  rcases (NativeClass.agree_methods c).lookup method with
    ⟨-, none⟩ | ⟨run, operand', answer', found', signature', meets⟩
  · rw [none] at signature
    cases signature
  · rw [signature'] at signature
    cases signature
    exact ⟨run, operand, answer, sig, found', meets, agree, fits⟩

/-- What is asked of a class it has a constructor or else a static method for. A
constructor may be asked for as much as an instance has. -/
lemma offers_class (h : T.Consistent) {r result : TypeId} {params : Option (List TypeId)}
    {method : Selector} (asks : T.Asks r method params result) {c : ClassObject}
    (typed : (Value.cls c).Typed T r) :
    ∃ m sig, m.Typed T sig ∧ TypeGraph.FitsSignature T.graph.Below sig ⟨params, result⟩ ∧
      ((findMethod? method c.decl.constructors = some m ∧ ∀ i : Instance, i.cls = c →
          (Value.obj i).Typed T sig.result) ∨
        findMethod? method c.decl.constructors = none ∧
          findMethod? method c.decl.staticMethods = some m) := by
  obtain ⟨wanted, hwanted, flows, -⟩ := asks
  obtain ⟨p, ⟨I, hc⟩, below⟩ := (typed.flow h flows).resolve_left nofun
  have typedI := hc
  obtain ⟨⟨name, line, receiver, staticReceiver, constructors, staticMethods, methods, fields,
    staticFields⟩, statics⟩ := c
  obtain ⟨_, instances, onInstance, onClass, offered, ⟨-, hS, -⟩, ⟨hinstances, -, hI⟩, -,
    ⟨distinct, onClass'⟩, distinct', offered'⟩ := hc
  obtain ⟨sig, found, fits⟩ := TypeGraph.fits_of_below h.simulated hS hwanted below
    method ⟨params, result⟩ (List.mem_singleton_self _)
  rcases methodsTyped_find? offered' distinct' found with ⟨m, hm, typed, made⟩ | ⟨none, before⟩
  · refine ⟨m, sig, typed, fits, .inl ⟨hm, fun i hi => ?_⟩⟩
    have own : (Value.obj i).Typed T instances := by
      refine .inr ⟨I, ⟨p, ?_⟩, hI⟩
      rw [hi]
      exact typedI
    exact own.flow h ⟨(h.valid.slots hinstances).simple, made⟩
  · rcases methodsTyped_find? onClass' distinct before with ⟨m, hm, typed, -⟩ | ⟨-, nothing⟩
    · exact ⟨m, sig, typed, fits, .inr ⟨none, hm⟩⟩
    · cases nothing

/-- What is asked of an instance its class has a method for. -/
lemma offers_instance (h : T.Consistent) {r result : TypeId} {params : Option (List TypeId)}
    {method : Selector} (asks : T.Asks r method params result) {i : Instance}
    (typed : (Value.obj i).Typed T r) :
    ∃ m sig, m.Typed T sig ∧ TypeGraph.FitsSignature T.graph.Below sig ⟨params, result⟩ ∧
      findMethod? method i.cls.decl.methods = some m := by
  obtain ⟨wanted, hwanted, flows, -⟩ := asks
  obtain ⟨p, ⟨S, hc⟩, below⟩ := (typed.flow h flows).resolve_left nofun
  obtain ⟨⟨⟨name, line, receiver, staticReceiver, constructors, staticMethods, methods, fields,
    staticFields⟩, statics⟩, env⟩ := i
  obtain ⟨_, instances, onInstance, onClass, offered, -, ⟨-, hI, -⟩, ⟨distinct, typeds⟩, -⟩ := hc
  obtain ⟨sig, found, fits⟩ := TypeGraph.fits_of_below h.simulated hI hwanted below
    method ⟨params, result⟩ (List.mem_singleton_self _)
  rcases methodsTyped_find? typeds distinct found with ⟨m, hm, typed, -⟩ | ⟨-, nothing⟩
  · exact ⟨m, sig, typed, fits, hm⟩
  · cases nothing

end Values

end Ember
