/-
The built-in types describe the built-in methods.

* `NativeMethod.Refuses`: a method fails on operands that are not of its class;
* `NativeClass.Entry`: a method together with the classes of its operand and its
  results;
* `Signature.Describes`: a signature says so much about the operand and the results;
* `TypeGraph.shape?`: the methods of the class that a label stands around;
* `Builtins.describes_install`: the labels that are installed in a type graph describe
  the methods of plain values;
* `natives_described`: what this means for the calls of a run.
-/
import Mathlib
import Ember.Proofs.Run.Causes
import Ember.Proofs.Run.Values

namespace Ember

/-! ### Look-ups side by side -/

/-- Two tables with the same keys in the same order are looked up alike. -/
lemma lookup_forall₂ {κ α β : Type} [DecidableEq κ] {R : α → β → Prop} {xs : List (κ × α)}
    {ys : List (κ × β)} (h : List.Forall₂ (fun x y => x.1 = y.1 ∧ R x.2 y.2) xs ys) (k : κ) :
    Option.Rel R (xs.lookup k) (ys.lookup k) := by
  induction h with
  | nil => exact .none
  | @cons x y _ _ hxy _ ih =>
    rw [List.lookup_cons, List.lookup_cons, ← hxy.1]
    cases k == x.1 with
    | true => exact .some hxy.2
    | false => exact ih

/-! ### Methods -/

/-- What a method fails with when its operand is not of the class it asks for. -/
def NativeClass.operandFailure? : NativeClass → Option Failure
  | number => some .rightOperandNumber
  | text => some .rightOperandText
  | boolean | null => none

/-- A method of the receivers of one class refuses operands of all classes but one. -/
def NativeMethod.Refuses (run : NativeMethod) (c operand : NativeClass) : Prop :=
  ∃ cause ∈ operand.operandFailure?, ∀ receiver v rest, NativeClass.of? receiver = some c →
    NativeClass.of? v ≠ some operand → run receiver (v :: rest) = .error cause

namespace NativeMethod

/-- A method that needs a number on both sides refuses what is none. -/
lemma refuses_ofNumbers {run : NativeMethod} {name : String}
    (op : Number → Number → Except Failure Value)
    (eq : ∀ receiver arguments, run receiver arguments = (do
      let left ← numberReceiver name receiver
      let right ← numberOperand arguments
      op left right)) : run.Refuses .number .number := by
  refine ⟨_, rfl, fun receiver v rest own other => ?_⟩
  obtain ⟨a, ha⟩ := numberReceiver_of own name
  have operand : numberOperand (v :: rest) = .error .rightOperandNumber := by
    cases v with
    | number n => exact absurd rfl other
    | null | boolean _ | text _ | cls _ | obj _ | host _ => rfl
  rw [eq, ha, operand]
  rfl

/-- Texts are appended to texts alone. -/
lemma refuses_append : append.Refuses .text .text := by
  refine ⟨_, rfl, fun receiver v rest own other => ?_⟩
  obtain ⟨a, ha⟩ := textReceiver_of own "+"
  have operand : textOperand (v :: rest) = .error .rightOperandText := by
    cases v with
    | text s => exact absurd rfl other
    | null | boolean _ | number _ | cls _ | obj _ | host _ => rfl
  rw [append, ha, operand]
  rfl

end NativeMethod

namespace NativeClass

/-- A method of a class with the classes of its operand, if it asks for one, and of
its results. -/
structure Entry (c : NativeClass) (run : NativeMethod)
    (types : Option NativeClass × NativeClass) : Prop where
  meets : run.Meets c types.1 types.2
  refuses : ∀ operand ∈ types.1, run.Refuses c operand

section

open NativeMethod

variable {c : NativeClass} {name : String}

/-- A method that asks for no operand of a certain class. -/
lemma entry_free {run : NativeMethod} {result : NativeClass} (meets : run.Meets c none result) :
    Entry c run (none, result) := ⟨meets, nofun⟩

/-- An arithmetic method fits its entry. -/
lemma entry_arithmetic (op : Number → Number → Option Number) :
    Entry number (arithmetic name op) (some number, number) :=
  ⟨meets_arithmetic name op, fun _ h => by
    cases h
    exact refuses_ofNumbers (fun a b => fitting (op a b)) fun _ _ => rfl⟩

/-- A division fits its entry. -/
lemma entry_division (op : Number → Number → Option Number) :
    Entry number (division name op) (some number, number) :=
  ⟨meets_division name op, fun _ h => by
    cases h
    exact refuses_ofNumbers (fun a b => if b.val = 0 then .error .divisionByZero
      else fitting (op a b)) fun _ _ => rfl⟩

/-- A comparison fits its entry. -/
lemma entry_comparison (holds : Number → Number → Bool) :
    Entry number (comparison name holds) (some number, boolean) :=
  ⟨meets_comparison name holds, fun _ h => by
    cases h
    exact refuses_ofNumbers (fun a b => .ok (.boolean (holds a b))) fun _ _ => rfl⟩

/-- A method of one number fits its entry. -/
lemma entry_unary (op : Number → Option Number) :
    Entry number (unary name op) (none, number) := entry_free (meets_unary name op)

/-- The appending of texts fits its entry. -/
lemma entry_append : Entry text append (some text, text) :=
  ⟨meets_append, fun _ h => by
    cases h
    exact refuses_append⟩

/-- The methods of a class and their signatures stand side by side. -/
abbrev SideBySide (c : NativeClass) (table : List (Selector × NativeMethod))
    (types : List (Selector × Option NativeClass × NativeClass)) : Prop :=
  List.Forall₂ (fun x y => x.1 = y.1 ∧ Entry c x.2 y.2) table types

/-- The methods that all values share are described in their order. -/
lemma sideBySide_shared (c : NativeClass) : SideBySide c sharedMethods sharedSignatures :=
  .cons ⟨rfl, entry_free (meets_toText c)⟩ (.cons ⟨rfl, entry_free (meets_equal c)⟩
    (.cons ⟨rfl, entry_free (meets_unequal c)⟩ .nil))

/-- The methods of each native class are described in their order. -/
lemma sideBySide_methods (c : NativeClass) : SideBySide c c.methods c.signatures := by
  cases c with
  | number =>
    exact .cons ⟨rfl, entry_arithmetic _⟩ (.cons ⟨rfl, entry_arithmetic _⟩
      (.cons ⟨rfl, entry_arithmetic _⟩ (.cons ⟨rfl, entry_division _⟩
        (.cons ⟨rfl, entry_division _⟩ (.cons ⟨rfl, entry_comparison _⟩
          (.cons ⟨rfl, entry_comparison _⟩ (.cons ⟨rfl, entry_comparison _⟩
            (.cons ⟨rfl, entry_comparison _⟩ (.cons ⟨rfl, entry_unary _⟩
              (.cons ⟨rfl, entry_unary _⟩ (sideBySide_shared number)))))))))))
  | text =>
    exact .cons ⟨rfl, entry_append⟩
      (.cons ⟨rfl, entry_free meets_count⟩ (sideBySide_shared text))
  | boolean => exact .cons ⟨rfl, entry_free meets_negate⟩ (sideBySide_shared boolean)
  | null => exact sideBySide_shared null

end

/-- A class has a method exactly where it has a signature, and the two agree. -/
lemma find?_signatures (c : NativeClass) (s : Selector) :
    Option.Rel (Entry c) (c.find? s) (c.signatures.lookup s) :=
  lookup_forall₂ (sideBySide_methods c) s

end NativeClass

/-! ### Types -/

/-- A signature describes an operand and a result: the result has the label of its
class, an operand that is asked for has the label of its class, and no other operand
has a label. -/
structure Signature.Describes (b : Builtins) (sig : Signature)
    (types : Option NativeClass × NativeClass) : Prop where
  result : types.2.label? b = some sig.result
  operand : ∀ t ∈ sig.params.getD [], ∀ c : NativeClass, c.label? b = some t ↔ types.1 = some c
  asked : ∀ c ∈ types.1, ∃ t, sig.params = some [t]

/-- The methods of the class that a label stands around. -/
def TypeGraph.shape? (g : TypeGraph) (label : TypeId) : Option Shape :=
  match g.node? label with
  | some (.labeled _ inner) =>
    match g.node? inner with
    | some (.cls shape) => some shape
    | _ => none
  | _ => none

/-- A shape is made of methods with different selectors. -/
lemma Shape.find?_ofList {methods : List (Selector × Signature)}
    (once : (methods.map Prod.fst).Nodup) (s : Selector) :
    (Shape.ofList methods).find? s = methods.lookup s := by
  suffices all : ∀ start : Shape,
      (methods.foldl (fun s m => Shape.insert s m.1 m.2) start).find? s =
        (methods.lookup s).or (start.find? s) by
    rw [ofList, all]
    exact Option.or_none
  induction methods with
  | nil => exact fun _ => rfl
  | cons m methods ih =>
    intro start
    obtain ⟨fresh, once⟩ := List.nodup_cons.1 once
    rw [List.foldl_cons, ih once, List.lookup_cons]
    by_cases same : m.1 = s
    · have later : methods.lookup s = none :=
        List.lookup_eq_none_iff.2 fun x hx => by
          simpa using fun e : s = x.1 => fresh (same ▸ e ▸ List.mem_map_of_mem hx)
      subst same
      rw [later, Option.none_or, insert, find?, findByKey?_insertByKey_self Prod.fst (m.1, m.2)]
      simp
    · rw [insert, find?, findByKey?_insertByKey_of_ne Prod.fst (m.1, m.2) start same,
        beq_false_of_ne (Ne.symm same), ← find?]

namespace Builtins

variable {b : Builtins}

/-- A method with an operand of one class is described by the labels of operand and result. -/
lemma describes_binary {operand result : NativeClass} {l r : TypeId}
    (hl : operand.label? b = some l) (hr : result.label? b = some r)
    (apart : ∀ c : NativeClass, c.label? b = some l → c = operand) :
    Signature.Describes b ⟨some [l], r⟩ (some operand, result) where
  result := hr
  operand t ht c := by
    rw [List.mem_singleton.1 ht]
    exact ⟨fun h => congrArg some (apart c h).symm, fun h => Option.some.inj h ▸ hl⟩
  asked _ _ := ⟨l, rfl⟩

/-- A method without an operand is described by the label of its result. -/
lemma describes_getter {result : NativeClass} {r : TypeId} (hr : result.label? b = some r) :
    Signature.Describes b ⟨none, r⟩ (none, result) where
  result := hr
  operand _ ht := absurd ht List.not_mem_nil
  asked _ h := nomatch h

/-- A method that takes any operand is described by a type that is no label. -/
lemma describes_any {result : NativeClass} {l r : TypeId} (hr : result.label? b = some r)
    (free : ∀ c : NativeClass, c.label? b ≠ some l) :
    Signature.Describes b ⟨some [l], r⟩ (none, result) where
  result := hr
  operand t ht c := by
    rw [List.mem_singleton.1 ht]
    exact ⟨fun h => absurd h (free c), nofun⟩
  asked _ h := nomatch h

/-- Types of methods and the classes of their operands and results stand side by side. -/
abbrev SideBySide (b : Builtins) (methods : List (Selector × Signature))
    (types : List (Selector × Option NativeClass × NativeClass)) : Prop :=
  List.Forall₂ (fun x y => x.1 = y.1 ∧ x.2.Describes b y.2) methods types

/-- The types of the shared methods stand in the order of their entries. -/
lemma sideBySide_shared {equal unequal : TypeId} (he : ∀ c : NativeClass, c.label? b ≠ some equal)
    (hu : ∀ c : NativeClass, c.label? b ≠ some unequal) :
    SideBySide b (b.sharedMethods equal unequal) NativeClass.sharedSignatures :=
  .cons ⟨rfl, describes_getter rfl⟩ (.cons ⟨rfl, describes_any rfl he⟩
    (.cons ⟨rfl, describes_any rfl hu⟩ .nil))

/-- The methods of a class whose comparisons have operands of the given types. -/
def methodsOf (b : Builtins) (equal unequal : TypeId) : NativeClass → List (Selector × Signature)
  | .number => b.numberMethods ++ b.sharedMethods equal unequal
  | .text => b.textMethods ++ b.sharedMethods equal unequal
  | .boolean => b.booleanMethods ++ b.sharedMethods equal unequal
  | .null => b.sharedMethods equal unequal

/-- A method has as many parameters as its selector says. -/
lemma arity_methodsOf (b : Builtins) (equal unequal : TypeId) (c : NativeClass) :
    ∀ m ∈ b.methodsOf equal unequal c, m.1.arity = m.2.params.map List.length := by
  cases c <;> simp [methodsOf, numberMethods, textMethods, booleanMethods, sharedMethods, binary,
    getter, Selector.method, Selector.getter]

/-- Different built-in types have different labels. -/
def Apart (b : Builtins) : Prop :=
  ∀ (c d : NativeClass) (l : TypeId), c.label? b = some l → d.label? b = some l → c = d

/-- The types of each native class stand in the order of its entries. -/
lemma sideBySide_methods (apart : b.Apart) {equal unequal : TypeId}
    (he : ∀ c : NativeClass, c.label? b ≠ some equal)
    (hu : ∀ c : NativeClass, c.label? b ≠ some unequal) (c : NativeClass) :
    SideBySide b (b.methodsOf equal unequal c) c.signatures := by
  have ofNumber {result : NativeClass} {r : TypeId} (hr : result.label? b = some r) :
      Signature.Describes b ⟨some [b.number], r⟩ (some .number, result) :=
    describes_binary rfl hr fun d h => apart d .number _ h rfl
  have ofText : Signature.Describes b ⟨some [b.text], b.text⟩ (some .text, .text) :=
    describes_binary rfl rfl fun d h => apart d .text _ h rfl
  cases c with
  | number =>
    exact .cons ⟨rfl, ofNumber rfl⟩ (.cons ⟨rfl, ofNumber rfl⟩ (.cons ⟨rfl, ofNumber rfl⟩
      (.cons ⟨rfl, ofNumber rfl⟩ (.cons ⟨rfl, ofNumber rfl⟩ (.cons ⟨rfl, ofNumber rfl⟩
        (.cons ⟨rfl, ofNumber rfl⟩ (.cons ⟨rfl, ofNumber rfl⟩ (.cons ⟨rfl, ofNumber rfl⟩
          (.cons ⟨rfl, describes_getter rfl⟩ (.cons ⟨rfl, describes_getter rfl⟩
            (sideBySide_shared he hu)))))))))))
  | text =>
    exact .cons ⟨rfl, ofText⟩ (.cons ⟨rfl, describes_getter rfl⟩ (sideBySide_shared he hu))
  | boolean => exact .cons ⟨rfl, describes_getter rfl⟩ (sideBySide_shared he hu)
  | null => exact sideBySide_shared he hu

/-- The built-in types are the next nodes of a graph. -/
lemma node?_install (g : TypeGraph) (i : Nat) :
    (install g).2.node? (g.size + i) = (nodes g.size)[i]? := by
  change (g.nodes ++ (nodes g.size).toArray)[g.nodes.size + i]? = _
  rw [Array.getElem?_append_right (Nat.le_add_right _ _), Nat.add_sub_cancel_left,
    List.getElem?_toArray]

/-- Where the label of a class lies among the installed types. -/
def labelOffset? : NativeClass → Option Nat
  | .number => some 3
  | .text => some 4
  | .boolean => some 5
  | .null => none

/-- The label of a native class is one of the next nodes. -/
lemma label?_install (g : TypeGraph) (c : NativeClass) :
    c.label? (install g).1 = (labelOffset? c).map (g.size + ·) := by
  cases c <;> rfl

/-- The labels of native classes differ. -/
lemma apart_install (g : TypeGraph) : (install g).1.Apart := by
  intro c d l hc hd
  rw [label?_install, Option.map_eq_some_iff] at hc hd
  obtain ⟨i, hi, rfl⟩ := hc
  obtain ⟨j, hj, same⟩ := hd
  rw [← Nat.add_left_cancel same] at hi
  revert hi hj
  cases c <;> cases d <;> simp [labelOffset?] <;> omega

/-- The operands of comparisons are no labels. -/
lemma label?_ne_install (g : TypeGraph) {i : Nat} (hi : 6 ≤ i) (c : NativeClass) :
    c.label? (install g).1 ≠ some (g.size + i) := by
  intro h
  rw [label?_install, Option.map_eq_some_iff] at h
  obtain ⟨j, hj, same⟩ := h
  rw [Nat.add_left_cancel same] at hj
  revert hj
  cases c <;> simp [labelOffset?] <;> omega

/-- The label of a class that is installed in a type graph stands around the class of
its methods. -/
lemma shape?_install (g : TypeGraph) {c : NativeClass} {l : TypeId}
    (hl : c.label? (install g).1 = some l) :
    ∃ i j, 6 ≤ i ∧ 6 ≤ j ∧ (install g).2.shape? l =
      some (Shape.ofList ((install g).1.methodsOf (g.size + i) (g.size + j) c)) := by
  have inner (i : Nat) {name : String} {k : Nat} {shape : Shape} (hlabel : l = g.size + i)
      (label : (nodes g.size)[i]? = some (.labeled name (g.size + k)))
      (cls : (nodes g.size)[k]? = some (.cls shape)) : (install g).2.shape? l = some shape := by
    rw [TypeGraph.shape?, hlabel, node?_install, label]
    simp only [node?_install, cls]
  cases c with
  | number => exact ⟨6, 7, by decide, by decide, inner 3 (k := 0) (Option.some.inj hl).symm rfl rfl⟩
  | text => exact ⟨8, 9, by decide, by decide, inner 4 (k := 1) (Option.some.inj hl).symm rfl rfl⟩
  | boolean =>
    exact ⟨10, 11, by decide, by decide, inner 5 (k := 2) (Option.some.inj hl).symm rfl rfl⟩
  | null => cases hl

/-- The labels that are installed in a type graph describe the methods of plain values:
there is a method for a selector exactly if there is a type for it, and the two agree. -/
theorem describes_install (g : TypeGraph) {c : NativeClass} {l : TypeId}
    (hl : c.label? (install g).1 = some l) :
    ∃ shape, (install g).2.shape? l = some shape ∧ ∀ s : Selector,
      (c.find? s = none ∧ shape.find? s = none) ∨ ∃ run sig types,
        c.find? s = some run ∧ shape.find? s = some sig ∧ NativeClass.Entry c run types ∧
          sig.Describes (install g).1 types ∧ s.arity = sig.params.map List.length := by
  obtain ⟨i, j, hi, hj, hshape⟩ := shape?_install g hl
  have types := sideBySide_methods (apart_install g) (label?_ne_install g hi)
    (label?_ne_install g hj) c
  have keys : ((install g).1.methodsOf (g.size + i) (g.size + j) c).map Prod.fst =
      c.signatures.map Prod.fst :=
    List.forall₂_eq_eq_eq ▸ List.forall₂_map_left_iff.2 (List.forall₂_map_right_iff.2
      (types.imp fun _ _ h => h.1))
  have once : (c.signatures.map Prod.fst).Nodup := by cases c <;> decide
  refine ⟨_, hshape, fun s => ?_⟩
  rw [Shape.find?_ofList (keys ▸ once)]
  have methods := NativeClass.find?_signatures c s
  have described := lookup_forall₂ types s
  have arity := arity_methodsOf (install g).1 (g.size + i) (g.size + j) c
  generalize (install g).1.methodsOf (g.size + i) (g.size + j) c = table at described arity ⊢
  generalize c.signatures.lookup s = o at methods described
  generalize c.find? s = found at methods
  cases methods with
  | none =>
    refine .inl ⟨rfl, ?_⟩
    generalize table.lookup s = sig at described
    cases described
    rfl
  | some entry =>
    cases hsig : table.lookup s with
    | none =>
      rw [hsig] at described
      cases described
    | some sig =>
      rw [hsig] at described
      cases described with
      | some describes =>
        exact .inr ⟨_, _, _, rfl, rfl, entry, describes, arity _ (mem_of_lookup hsig)⟩

end Builtins

/-! ### Calls -/

/-- A value is of the class that a label stands for. -/
def Value.HasLabel (b : Builtins) (v : Value) (label : TypeId) : Prop :=
  ∃ c : NativeClass, NativeClass.of? v = some c ∧ c.label? b = some label

/-- What a call to a plain value comes to is what a shape says about the method: without
a type for the selector nothing is run, arguments that suit their labels lead to a value
of the label of the result or else to arithmetic without a result, and an argument that
does not suit its label is refused. -/
structure Shape.Foretells {σ : Type} (b : Builtins) (shape : Shape) (method : Selector)
    (receiver : Value) (arguments : List Value) (line : Line) (m : Machine σ)
    (o : Outcome σ Value) : Prop where
  missing : o = .failed ⟨line, .notImplemented receiver.className method⟩ m ↔
    shape.find? method = none
  suited : ∀ sig, shape.find? method = some sig →
    (∀ x ∈ arguments.zip (sig.params.getD []), ∀ c : NativeClass, c.label? b = some x.2 →
      NativeClass.of? x.1 = some c) →
    (∃ v, o = .done v m ∧ v.HasLabel b sig.result) ∨
      o = .failed ⟨line, .overflow⟩ m ∨ o = .failed ⟨line, .divisionByZero⟩ m
  refused : ∀ sig, shape.find? method = some sig →
    ∀ x ∈ arguments.zip (sig.params.getD []), ∀ c : NativeClass, c.label? b = some x.2 →
      NativeClass.of? x.1 ≠ some c →
        ∃ cause ∈ c.operandFailure?, o = .failed ⟨line, cause⟩ m

section Calls

variable {σ : Type} {b : Builtins} {shape : Shape} {c : NativeClass} {receiver : Value}
  {method : Selector}

/-- A call to a plain value looks for the method in the table of its class. -/
lemma call_native (host : Host σ) (fuel : Nat) (own : NativeClass.of? receiver = some c)
    (name : String) (arguments : Option (List Value)) (line : Line) :
    call host (fuel + 1) receiver name arguments line =
      match c.find? ⟨name, arguments.map List.length⟩ with
      | some run => Run.ofExcept line (run receiver (arguments.getD []))
      | none => Run.fail line
          (.notImplemented receiver.className ⟨name, arguments.map List.length⟩) := by
  cases receiver with
  | cls _ | obj _ | host _ => cases own
  | null | boolean _ | number _ | text _ =>
    cases own
    simp only [call]
    rfl

/-- Without a method there is nothing to run. -/
lemma Shape.foretells_missing (none : shape.find? method = none) (arguments : List Value)
    (line : Line) (m : Machine σ) :
    shape.Foretells b method receiver arguments line m
      (Run.fail line (.notImplemented receiver.className method) m) where
  missing := ⟨fun _ => none, fun _ => rfl⟩
  suited _ h := by
    rw [none] at h
    cases h
  refused _ h := by
    rw [none] at h
    cases h

/-- A method whose signature describes it does as the signature says, given as many
arguments as the signature has parameters. -/
lemma Shape.foretells_entry {run : NativeMethod} {sig : Signature}
    {types : Option NativeClass × NativeClass} (own : NativeClass.of? receiver = some c)
    (found : shape.find? method = some sig) (entry : NativeClass.Entry c run types)
    (describes : sig.Describes b types) {arguments : List Value}
    (arity : arguments.length = (sig.params.getD []).length) (line : Line) (m : Machine σ) :
    shape.Foretells b method receiver arguments line m
      (Run.ofExcept line (run receiver arguments) m) := by
  -- if the method asks for an operand there is one, of the class that the label stands for
  have operand {k : NativeClass} (asked : types.1 = some k)
      (suits : ∀ x ∈ arguments.zip (sig.params.getD []), ∀ c : NativeClass,
        c.label? b = some x.2 → NativeClass.of? x.1 = some c) :
      ∃ v, arguments = [v] ∧ NativeClass.of? v = some k := by
    obtain ⟨t, params⟩ := describes.asked k asked
    rw [params] at arity suits
    obtain ⟨v, rfl⟩ := List.length_eq_one_iff.1 arity
    have label : k.label? b = some t := (describes.operand t (by simp [params]) k).2 asked
    exact ⟨v, rfl, suits (v, t) (List.mem_singleton_self _) k label⟩
  refine ⟨?_, fun sig' found' suits => ?_, fun sig' found' x hx k label other => ?_⟩
  · rw [found]
    -- the arity is right, so the method does not report it as wrong
    refine ⟨fun failed => ?_, nofun⟩
    cases h : run receiver arguments with
    | ok v =>
      rw [h] at failed
      cases failed
    | error cause =>
      rw [h] at failed
      cases failed
      rcases entry.meets.error receiver arguments _ own h with e | e | ⟨-, e, -⟩ | ⟨-, e, -⟩ <;>
        cases e
  · rw [found] at found'
    -- it may fail for its arithmetic alone, since its operand has the right class
    cases found'
    cases h : run receiver arguments with
    | ok v =>
      exact .inl ⟨v, rfl, types.2, entry.meets.ok receiver arguments v own h, describes.result⟩
    | error cause =>
      rcases entry.meets.error receiver arguments cause own h with
        rfl | rfl | ⟨asked, -, wrong⟩ | ⟨asked, -, wrong⟩
      · exact .inr (.inl rfl)
      · exact .inr (.inr rfl)
      all_goals
        obtain ⟨v, rfl, hv⟩ := operand asked suits
        exact absurd hv (wrong v [] rfl)
  · rw [found] at found'
    -- an operand of another class is refused
    cases found'
    have asked : types.1 = some k :=
      (describes.operand x.2 (List.of_mem_zip hx).2 k).1 label
    obtain ⟨cause, hcause, refuses⟩ := entry.refuses k asked
    obtain ⟨t, params⟩ := describes.asked k asked
    rw [params] at arity hx
    obtain ⟨v, rfl⟩ := List.length_eq_one_iff.1 arity
    rw [Option.getD_some, List.zip_cons_cons, List.zip_nil_left, List.mem_singleton] at hx
    subst hx
    refine ⟨cause, hcause, ?_⟩
    rw [refuses receiver v [] own other]
    rfl

/-- The types that are installed for numbers, text and booleans describe what calls to
such values do, for every selector and all arguments. No call comes upon a built-in method
with a receiver of another class, unless a method of the host says so. -/
theorem natives_described (host : Host σ) (g : TypeGraph) :
    (∀ (c : NativeClass) (l : TypeId), c.label? (Builtins.install g).1 = some l →
      ∃ shape, (Builtins.install g).2.shape? l = some shape ∧
        ∀ (fuel : Nat) (receiver : Value) (name : String) (arguments : Option (List Value))
          (line : Line) (m : Machine σ), NativeClass.of? receiver = some c →
            shape.Foretells (Builtins.install g).1 ⟨name, arguments.map List.length⟩ receiver
              (arguments.getD []) line m
              (call host (fuel + 1) receiver name arguments line m)) ∧
      ∀ (fuel : Nat) (receiver : Value) (name : String) (arguments : Option (List Value))
        (line : Line) (m m' : Machine σ) (err : RuntimeError),
        call host fuel receiver name arguments line m = .failed err m' →
          (∀ method, err.cause ≠ .foreignReceiver method) ∨
            ∃ o method, host.FailsWith o method err.cause := by
  refine ⟨fun c l hl => ?_, fun fuel receiver name arguments line m m' err failed => ?_⟩
  · obtain ⟨shape, hshape, agree⟩ := Builtins.describes_install g hl
    refine ⟨shape, hshape, fun fuel receiver name arguments line m own => ?_⟩
    rw [call_native host fuel own]
    rcases agree ⟨name, arguments.map List.length⟩ with
      ⟨noMethod, noType⟩ | ⟨run, sig, types, found, typed, entry, describes, arity⟩
    · rw [noMethod]
      exact Shape.foretells_missing noType _ line m
    · rw [found]
      refine Shape.foretells_entry own typed entry describes ?_ line m
      cases arguments <;> cases params : sig.params <;> simp_all
  · rcases Task.arises_of_failed host fuel (.call receiver name arguments line) m err m' failed with
      ⟨-, other⟩ | said
    · exact .inl other
    · exact .inr said

/-- A text is no operand of an addition of numbers, whose type says so. -/
theorem natives_described_addsText :
    ∃ shape, (Builtins.install .empty).2.shape? 3 = some shape ∧
      shape.find? (.method "+" 1) = some ⟨some [3], 3⟩ ∧
      call Host.empty 1 (.number ⟨1, by decide, by decide⟩) "+" (some [.text "a"]) 7
          ⟨.empty, ()⟩ = .failed ⟨7, .rightOperandNumber⟩ ⟨.empty, ()⟩ := by
  obtain ⟨shape, hshape, foretells⟩ :=
    (natives_described (Host.empty : Host Unit) .empty).1 .number 3 rfl
  have typed : shape.find? (.method "+" 1) = some ⟨some [3], 3⟩ := by
    cases hshape
    decide
  have calls := foretells 0 (.number ⟨1, by decide, by decide⟩) "+" (some [.text "a"]) 7
    ⟨.empty, ()⟩ rfl
  obtain ⟨cause, hcause, failed⟩ := calls.refused _ typed (.text "a", 3)
    (List.mem_singleton_self _) .number rfl nofun
  cases hcause
  exact ⟨shape, hshape, typed, failed⟩

end Calls

end Ember
