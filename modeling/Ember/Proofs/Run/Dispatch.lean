/-
The members of a class are found by the same places wherever they are looked for: when
the class is resolved, when it is typed and when it is called.

* `ClassRecord.onClass?`, `ClassRecord.onInstance?`: the member that a selector stands
  for, on the class and on its instances;
* `latestMember?_of_onClass`, `latestMember?_of_onInstance`: the tables of a class in
  which no member is repeated hold these members;
* `call_onClass`, `call_onInstance`: a call runs this member, or nothing;
* `inferClass_shapes`: inference gives types to the same selectors;
* `members_agree`: all classes of a program.
-/
import Mathlib
import Ember.Evaluation
import Ember.Proofs.Scope.Clashes
import Ember.Proofs.Types.Inferring

namespace Ember

open Program Resolve

/-! ### Look-ups among members -/

/-- Where at most one element has a property, it is found from the end as well, and
further properties are asked of it alone. -/
lemma find?_reverse_and {α : Type} (p q r : α → Bool) {xs : List α}
    (h : xs.Pairwise fun a b => ¬(p a = true ∧ p b = true)) (hr : ∀ a, r a = (p a && q a)) :
    xs.reverse.find? r = (xs.find? p).filter q := by
  induction xs with
  | nil => rfl
  | cons x xs ih =>
    obtain ⟨first, rest⟩ := List.pairwise_cons.1 h
    rw [List.reverse_cons, List.find?_append, ih rest, List.find?_cons]
    cases hp : p x with
    | true =>
      have none : xs.find? p = none :=
        List.find?_eq_none.2 fun y hy hpy => first y hy ⟨hp, hpy⟩
      rw [none]
      cases hq : q x <;> simp [Option.filter, hr, hp, hq]
    | false => simp [hr, hp]

namespace ClassRecord

/-- The member that a selector stands for on the class itself. -/
def onClass? (r : ClassRecord) (s : Selector) : Option (Syntax.Method × Method) :=
  r.members.find? fun e => e.1.kind ≠ .onInstance ∧ e.1.selector = s

/-- The member that a selector stands for on the instances of a class. -/
def onInstance? (r : ClassRecord) (s : Selector) : Option (Syntax.Method × Method) :=
  r.members.find? fun e => e.1.kind = .onInstance ∧ e.1.selector = s

variable {r : ClassRecord}

/-- A class answers to a selector if some constructor or method of the class has it. -/
lemma isSome_onClass? (r : ClassRecord) (s : Selector) : (r.onClass? s).isSome ↔
    (latestMember? .construct s r.members).isSome ∨
      (latestMember? .onClass s r.members).isSome := by
  simp [onClass?, isSome_latestMember?, Syntax.MethodKind.not_onInstance, or_and_right, and_or_left,
    exists_or]

/-- An instance answers to a selector if some method of instances has it. -/
lemma isSome_onInstance? (r : ClassRecord) (s : Selector) :
    (r.onInstance? s).isSome ↔ (latestMember? .onInstance s r.members).isSome := by
  simp [onInstance?, isSome_latestMember?]

/-- Where no member repeats another, no two of them take the same place. -/
lemma apart_of_repeats (distinct : r.repeats = []) :
    r.members.Pairwise fun a b => ¬a.1.SamePlace b.1 :=
  List.pairwise_map.1 (repeated_eq_nil.1 distinct).2

/-- A table of the class holds the member on the class, if it is of the table's kind. -/
lemma latestMember?_of_onClass (distinct : r.repeats = []) {kind : Syntax.MethodKind}
    (hk : kind ≠ .onInstance) (s : Selector) :
    latestMember? kind s r.members =
      ((r.onClass? s).filter fun e => e.1.kind = kind).map Prod.snd := by
  refine congrArg (Option.map Prod.snd) (find?_reverse_and _ _ _ ?_ fun e => ?_)
  · refine (apart_of_repeats distinct).imp fun {a b} apart both => apart ?_
    simp only [decide_eq_true_eq] at both
    exact ⟨iff_of_false both.1.1 both.2.1, both.1.2.trans both.2.2.symm⟩
  · rw [← Bool.decide_and, decide_eq_decide]
    constructor
    · rintro ⟨rfl, rfl⟩
      exact ⟨⟨hk, rfl⟩, rfl⟩
    · rintro ⟨⟨_, hs⟩, hk⟩
      exact ⟨hk, hs⟩

/-- The table of the instances holds the members on them. -/
lemma latestMember?_of_onInstance (distinct : r.repeats = []) (s : Selector) :
    latestMember? .onInstance s r.members = (r.onInstance? s).map Prod.snd := by
  have found := find?_reverse_and
    (fun e : Syntax.Method × Method => decide (e.1.kind = .onInstance ∧ e.1.selector = s))
    (fun _ => true) (fun e => decide (e.1.kind = .onInstance ∧ e.1.selector = s))
    ((apart_of_repeats distinct).imp fun {a b} apart both => apart (by
      simp only [decide_eq_true_eq] at both
      exact ⟨iff_of_true both.1.1 both.2.1, both.1.2.trans both.2.2.symm⟩))
    fun e => (Bool.and_true _).symm
  rw [latestMember?, found, ← onInstance?]
  cases r.onInstance? s <;> rfl

end ClassRecord

/-! ### Calls -/

variable {σ : Type}

/-- A call on a class runs the member that its selector stands for there. A constructor
makes an instance and runs on that. -/
lemma call_onClass {once : Bool} {r : ClassRecord} (made : r.Made once) (distinct : r.repeats = [])
    (host : Host σ) (fuel : Nat) (statics : Environment) (name : String)
    (arguments : Option (List Value)) (line : Line) :
    call host (fuel + 1) (.cls ⟨r.decl, statics⟩) name arguments line =
      match r.onClass? ⟨name, arguments.map List.length⟩ with
      | some (d, x) =>
        if d.kind = .construct then do
          let i ← makeInstance ⟨r.decl, statics⟩
          let _ ← runBody host fuel x i.env arguments
          return .obj i
        else runBody host fuel x statics arguments
      | none => Run.fail line (.notImplemented (Value.cls ⟨r.decl, statics⟩).className
          ⟨name, arguments.map List.length⟩) := by
  have constructors := made.holds .construct ⟨name, arguments.map List.length⟩
  have staticMethods := made.holds .onClass ⟨name, arguments.map List.length⟩
  rw [ClassRecord.latestMember?_of_onClass distinct (by decide)] at constructors staticMethods
  simp only [call]
  dsimp only at constructors staticMethods
  rw [constructors, staticMethods]
  cases found : r.onClass? ⟨name, arguments.map List.length⟩ with
  | none => rfl
  | some e =>
    obtain ⟨d, x⟩ := e
    have kind : d.kind ≠ .onInstance := by
      have hd := List.find?_some found
      simp only [decide_eq_true_eq] at hd
      exact hd.1
    cases hd : d.kind with
    | construct => simp [Option.filter, hd]
    | onClass => simp [Option.filter, hd]
    | onInstance => exact absurd hd kind

/-- A call on an instance runs the member that its selector stands for there. -/
lemma call_onInstance {once : Bool} {r : ClassRecord} (made : r.Made once)
    (distinct : r.repeats = []) (host : Host σ) (fuel : Nat) (statics env : Environment)
    (name : String) (arguments : Option (List Value)) (line : Line) :
    call host (fuel + 1) (.obj ⟨⟨r.decl, statics⟩, env⟩) name arguments line =
      match r.onInstance? ⟨name, arguments.map List.length⟩ with
      | some (_, x) => runBody host fuel x env arguments
      | none => Run.fail line (.notImplemented (Value.obj ⟨⟨r.decl, statics⟩, env⟩).className
          ⟨name, arguments.map List.length⟩) := by
  have methods := made.holds .onInstance ⟨name, arguments.map List.length⟩
  rw [ClassRecord.latestMember?_of_onInstance distinct] at methods
  simp only [call]
  dsimp only at methods
  rw [methods]
  cases r.onInstance? ⟨name, arguments.map List.length⟩ <;> rfl

/-! ### Shapes -/

/-- A method that is inserted adds its selector to the keys. -/
lemma Shape.mem_keys_insert (s : Shape) (method k : Selector) (signature : Signature) :
    k ∈ (s.insert method signature).map Prod.fst ↔ k = method ∨ k ∈ s.map Prod.fst := by
  have found (xs : Shape) : k ∈ xs.map Prod.fst ↔ (findByKey? Prod.fst k xs).isSome := by
    simp [findByKey?]
  rw [found, found, Shape.insert]
  by_cases e : method = k
  · subst e
    rw [findByKey?_insertByKey_self Prod.fst (method, signature) s]
    simp
  · rw [findByKey?_insertByKey_of_ne Prod.fst (method, signature) s e]
    simp [Ne.symm e]

/-- Inference adds a type for every method of a table to a shape. -/
lemma keys_inferMethods (s : Shape) (table : List Method) (st : Inference) (k : Selector) :
    k ∈ (StateT.run (inferMethods s table) st).1.map Prod.fst ↔
      k ∈ s.map Prod.fst ∨ k ∈ table.map Method.selector := by
  induction table generalizing s st with
  | nil => exact (or_iff_left List.not_mem_nil).symm
  | cons m table ih =>
    rw [inferMethods]
    refine (ih (s.insert m.selector (StateT.run (inferMethod m) st).1) _).trans ?_
    rw [Shape.mem_keys_insert, List.map_cons, List.mem_cons]
    tauto

/-- Inference adds a type for every constructor of a table to a shape. -/
lemma keys_inferConstructors (instances : TypeId) (s : Shape) (table : List Method)
    (st : Inference) (k : Selector) :
    k ∈ (StateT.run (inferConstructors instances s table) st).1.map Prod.fst ↔
      k ∈ s.map Prod.fst ∨ k ∈ table.map Method.selector := by
  induction table generalizing s st with
  | nil => exact (or_iff_left List.not_mem_nil).symm
  | cons m table ih =>
    rw [inferConstructors]
    refine (ih (s.insert m.selector (StateT.run (inferMethod m) st).1) _).trans ?_
    rw [Shape.mem_keys_insert, List.map_cons, List.mem_cons]
    tauto

/-- The last steps in which a class is typed: its two shapes become types, which are put
below those of its receivers. -/
def offer (c : ClassDecl) (receivers : TypeId × TypeId) (onClass onInstance : Shape) :
    Infer TypeId := do
  let I ← Infer.shape onInstance
  let S ← Infer.shape onClass
  Infer.demand I receivers.2 c.line
  Infer.demand S receivers.1 c.line
  return receivers.1

/-- A table has the selector of a method that is found in it. -/
lemma mem_selectors {s : Selector} {table : List Method} :
    s ∈ table.map Method.selector ↔ (findMethod? s table).isSome := by
  simp [findMethod?, findByKey?]

/-- The shapes that inference makes for a class have the selectors of its members as
their keys. -/
lemma inferClass_shapes {once : Bool} {r : ClassRecord} (made : r.Made once) (st : Inference) :
    ∃ (mid : Inference) (onClass onInstance : Shape),
      StateT.run (inferClass r.decl) st =
        StateT.run (offer r.decl (StateT.run (Infer.receivers r.decl) st).1 onClass onInstance)
          mid ∧
      (∀ s, s ∈ onClass.map Prod.fst ↔ (r.onClass? s).isSome) ∧
      ∀ s, s ∈ onInstance.map Prod.fst ↔ (r.onInstance? s).isSome := by
  let r₁ := StateT.run (Infer.receivers r.decl) st
  let r₂ := StateT.run (inferMethods [] r.decl.methods) r₁.2
  let r₃ := StateT.run (inferMethods [] r.decl.staticMethods) r₂.2
  let r₄ := StateT.run (inferConstructors r₁.1.2 r₃.1 r.decl.constructors) r₃.2
  refine ⟨r₄.2, r₄.1, r₂.1, ?_, fun s => ?_, fun s => ?_⟩
  · rw [inferClass_eq]
    rfl
  · have constructors := made.holds .construct s
    have staticMethods := made.holds .onClass s
    refine (keys_inferConstructors ..).trans ?_
    rw [keys_inferMethods, mem_selectors, mem_selectors]
    dsimp only at constructors staticMethods
    rw [constructors, staticMethods, ClassRecord.isSome_onClass?, or_comm]
    simp
  · have methods := made.holds .onInstance s
    refine (keys_inferMethods ..).trans ?_
    rw [mem_selectors]
    dsimp only at methods
    rw [methods, ClassRecord.isSome_onInstance?]
    simp

/-! ### All classes of a program -/

/-- A member is reported as declared already exactly if an earlier member of its class
has its place. In a class of which none is, a call on the class runs the constructor or
static method that is declared with the call's selector, a call on an instance runs the
method of instances that is, and where there is no such member the call fails without
running anything. The two shapes that inference makes for a class have the same
selectors as their keys. -/
theorem members_agree (globals : List String) (program : List Syntax.Stmt) :
    (about .member (resolve globals program).2).Perm
        ((history globals program).classes.flatMap ClassRecord.clashes) ∧
      ∀ r ∈ (history globals program).classes,
        (r.repeats = [] → ∀ (σ : Type) (host : Host σ) (fuel : Nat) (statics env : Environment)
          (name : String) (arguments : Option (List Value)) (line : Line),
          (call host (fuel + 1) (.cls ⟨r.decl, statics⟩) name arguments line =
            match r.onClass? ⟨name, arguments.map List.length⟩ with
            | some (d, x) =>
              if d.kind = .construct then do
                let i ← makeInstance ⟨r.decl, statics⟩
                let _ ← runBody host fuel x i.env arguments
                return .obj i
              else runBody host fuel x statics arguments
            | none => Run.fail line (.notImplemented (Value.cls ⟨r.decl, statics⟩).className
                ⟨name, arguments.map List.length⟩)) ∧
          call host (fuel + 1) (.obj ⟨⟨r.decl, statics⟩, env⟩) name arguments line =
            match r.onInstance? ⟨name, arguments.map List.length⟩ with
            | some (_, x) => runBody host fuel x env arguments
            | none => Run.fail line (.notImplemented
                (Value.obj ⟨⟨r.decl, statics⟩, env⟩).className
                ⟨name, arguments.map List.length⟩)) ∧
        ∀ st : Inference, ∃ (mid : Inference) (onClass onInstance : Shape),
          StateT.run (inferClass r.decl) st =
            StateT.run (offer r.decl (StateT.run (Infer.receivers r.decl) st).1 onClass onInstance)
              mid ∧
          (∀ s, s ∈ onClass.map Prod.fst ↔ (r.onClass? s).isSome) ∧
          ∀ s, s ∈ onInstance.map Prod.fst ↔ (r.onInstance? s).isSome := by
  have whole : Chronicle false .outermost (.entry globals) (history globals program) [] _ :=
    chronicle_program globals fun h => nomatch h
  refine ⟨clashes_reported globals program, fun r hr => ⟨?_, inferClass_shapes (whole.made r hr)⟩⟩
  intro distinct σ host fuel statics env name arguments line
  exact ⟨call_onClass (whole.made r hr) distinct host fuel statics name arguments line,
    call_onInstance (whole.made r hr) distinct host fuel statics env name arguments line⟩

end Ember
