/-
When the parts of a program are well typed, given the types of its slots.

Inference assigns types to slots and demands that some be below others. Here it
is said, without reference to the order in which that happens, what the result
has to be like.

* `Inference.slot?`: the type of a slot;
* `Inference.Flows`, `Inference.Asks`: one type is below another, and a type
  offers a method;
* `Expr.Typed`, `Stmt.Typed`, `Block.Typed`, `ClassDecl.Typed`, `Method.Typed`: a
  part of a program is well typed. A statement has the type of the values it may
  return;
* `methodsTyped_find?`: what a table of methods offers, one of its methods answers
  to with that type.
-/
import Mathlib
import Ember.Proofs.Scope.Plain
import Ember.Proofs.Types.Passing
import Ember.Types.Inference

namespace Ember

open Program

/-! ### Types of slots -/

namespace Inference

/-- The type of a slot. -/
def slot? (T : Inference) (s : Slot) : Option TypeId := (findByKey? Prod.fst s T.slots).map Prod.snd

/-- A type about which nothing was known at first. -/
def IsVar (T : Inference) (t : TypeId) : Prop := T.graph.kind? t = some .var

/-- A type that an expression can have. -/
def Simple (T : Inference) (t : TypeId) : Prop := T.graph.Simple T.builtins t

/-- What has the one type may be put where the other one is wanted. -/
def Flows (T : Inference) (left right : TypeId) : Prop :=
  T.Simple left ∧ T.graph.Below left right

/-- A method with these parameters and this result is asked of a type. -/
def Asks (T : Inference) (receiver : TypeId) (method : Selector) (params : Option (List TypeId))
    (result : TypeId) : Prop :=
  ∃ wanted, T.graph.node? wanted = some (.cls [(method, ⟨params, result⟩)]) ∧
    T.Flows receiver wanted ∧ T.IsVar result ∧ ∀ t ∈ params.getD [], T.IsVar t

/-- A literal has a built-in type; null may have any. -/
def OfLiteral (T : Inference) (t : TypeId) : Literal → Prop
  | .number _ => t = T.builtins.number
  | .text _ => t = T.builtins.text
  | .boolean _ => t = T.builtins.boolean
  | .nil => True

/-- Slots have the given types, one by one. -/
def Slots (T : Inference) (ss : List Slot) (ts : List TypeId) : Prop :=
  List.Forall₂ (fun s t => T.slot? s = some t) ss ts

end Inference

/-! ### The judgement -/

namespace Program

variable (T : Inference)

mutual

/-- An expression has a type. There is no rule for connectives. -/
def Expr.Typed : Expr → TypeId → Prop
  | .assign target value _, t => value.Typed t ∧ ∃ u, T.slot? target = some u ∧ T.Flows t u
  | .call receiver name arguments _, t =>
    ∃ r, receiver.Typed r ∧
      match arguments with
      | none => T.Asks r ⟨name, none⟩ none t
      | some es => ∃ ts params, exprTyped es ts ∧ List.Forall₂ T.Flows ts params ∧
          T.Asks r ⟨name, some es.length⟩ (some params) t
  | .literal value _, t => T.OfLiteral t value
  | .read slot _, t => T.slot? slot = some t
  | .logical _ _ _ _, _ => False
  | .cls decl, t => ∃ S I, decl.Typed S I ∧ T.slot? decl.staticReceiver = some t

/-- Expressions have types, one by one. -/
def exprTyped : List Expr → List TypeId → Prop
  | [], ts => ts = []
  | e :: es, ts => ∃ t rest, ts = t :: rest ∧ e.Typed t ∧ exprTyped es rest

/-- What a statement returns has a type. -/
def Stmt.Typed : Stmt → TypeId → Prop
  | .block body, t => body.Typed t
  | .branch condition yes no _, t =>
    (∃ u, condition.Typed u ∧ T.Flows u T.builtins.boolean) ∧
      (∃ u, yes.Typed u ∧ T.Flows u t) ∧
      (match no with | none => True | some s => ∃ u, s.Typed u ∧ T.Flows u t)
  | .loop condition body _, t =>
    (∃ u, condition.Typed u ∧ T.Flows u T.builtins.boolean) ∧ ∃ u, body.Typed u ∧ T.Flows u t
  | .var slot init _, _ =>
    match init with
    | none => True
    | some e => ∃ u v, e.Typed u ∧ T.slot? slot = some v ∧ T.Flows u v
  | .ret value _, t => match value with | none => True | some e => e.Typed t
  | .eval e, _ => ∃ u, e.Typed u

/-- What statements return flows into a type. -/
def stmtTyped : List Stmt → TypeId → Prop
  | [], _ => True
  | s :: ss, t => (∃ u, s.Typed u ∧ T.Flows u t) ∧ stmtTyped ss t

/-- What a block returns has a type, and its classes are well typed. -/
def Block.Typed : Block → TypeId → Prop
  | ⟨statements, _, classes⟩, t => stmtTyped statements t ∧ classTyped classes

/-- Classes are well typed, and each has the type of its static receiver. -/
def classTyped : List (Slot × ClassDecl) → Prop
  | [] => True
  | (s, c) :: cs =>
    (∃ S I, c.Typed S I) ∧ (T.slot? s = T.slot? c.staticReceiver ∧ classTyped cs)

/-- A class is well typed, with one type for the class itself and one for its
instances, which flow into the types of the receivers. Constructors give back
instances. -/
def ClassDecl.Typed : ClassDecl → TypeId → TypeId → Prop
  | ⟨_, _, receiver, staticReceiver, constructors, staticMethods, methods, _, _⟩, S, I =>
    ∃ statics instances onInstance onClass offered,
      (T.slot? staticReceiver = some statics ∧ T.graph.node? S = some (.cls offered) ∧
        T.graph.Below S statics) ∧
      (T.slot? receiver = some instances ∧ T.graph.node? I = some (.cls onInstance) ∧
        T.graph.Below I instances) ∧
      (Unambiguous methods ∧ methodsTyped (fun _ => True) methods [] onInstance) ∧
      (Unambiguous staticMethods ∧ methodsTyped (fun _ => True) staticMethods [] onClass) ∧
      (Unambiguous constructors ∧
        methodsTyped (fun sig => T.graph.Below instances sig.result) constructors onClass offered)

/-- Methods are well typed and turn one shape into another. -/
def methodsTyped (P : Signature → Prop) : List Method → Shape → Shape → Prop
  | [], s, s' => s' = s
  | m :: ms, s, s' =>
    ∃ sig, m.Typed sig ∧ P sig ∧ methodsTyped P ms (s.insert m.selector sig) s'

/-- A method has a signature of variables: its parameters have the types it says,
and what its body returns flows into the result. -/
def Method.Typed : Method → Signature → Prop
  | ⟨name, params, _, body, _⟩, sig =>
    (sig.Matches ⟨name, params.map List.length⟩ ∧ ∀ t ∈ sig.types, T.IsVar t) ∧
      T.Slots (params.getD []) (sig.params.getD []) ∧
      ∃ t, body.Typed t ∧ T.Flows t sig.result

end

variable {T : Inference}

/-! ### Tables of methods -/

lemma Unambiguous.tail {m : Method} {ms : List Method} (h : Unambiguous (m :: ms)) :
    Unambiguous ms :=
  (List.nodup_cons.1 h).2

/-- The only method of an unambiguous table that answers to a selector. -/
lemma findMethod?_cons_of_unambiguous {m : Method} {ms : List Method}
    (h : Unambiguous (m :: ms)) : findMethod? m.selector ms = none := by
  refine List.find?_eq_none.2 fun x hx => ?_
  have fresh := (List.nodup_cons.1 h).1
  simp only [decide_eq_true_eq]
  exact fun e => fresh (e ▸ List.mem_map_of_mem hx)

/-- What a shape offers after the methods of a table came to it, the table
answers to, or the shape offered it before. -/
lemma methodsTyped_find? {P : Signature → Prop} {ms : List Method} {s s' : Shape}
    (typed : methodsTyped T P ms s s') (unambiguous : Unambiguous ms) {method : Selector}
    {sig : Signature} (found : s'.find? method = some sig) :
    (∃ m, findMethod? method ms = some m ∧ m.Typed T sig ∧ P sig) ∨
      (findMethod? method ms = none ∧ s.find? method = some sig) := by
  induction ms generalizing s with
  | nil =>
    rw [methodsTyped] at typed
    exact .inr ⟨rfl, typed ▸ found⟩
  | cons m ms ih =>
    rw [methodsTyped] at typed
    obtain ⟨sig', hm, hp, rest⟩ := typed
    rw [findMethod?, findByKey?_cons]
    rcases ih rest unambiguous.tail with ⟨x, hx, later⟩ | ⟨none, before⟩
    · have other : m.selector ≠ method := by
        rintro rfl
        rw [findMethod?_cons_of_unambiguous unambiguous] at hx
        cases hx
      rw [if_neg other]
      exact .inl ⟨x, hx, later⟩
    · by_cases same : m.selector = method
      · subst same
        rw [Shape.find?, Shape.insert,
          findByKey?_insertByKey_self Prod.fst (m.selector, sig') s] at before
        cases before
        rw [if_pos rfl]
        exact .inl ⟨m, rfl, hm, hp⟩
      · rw [Shape.find?, Shape.insert,
          findByKey?_insertByKey_of_ne Prod.fst (m.selector, sig') s same] at before
        rw [if_neg same]
        exact .inr ⟨none, before⟩

end Program

end Ember
