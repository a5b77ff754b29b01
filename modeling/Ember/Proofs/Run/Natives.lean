/-
What the methods of plain values do with a receiver of their own class.

* `NativeMethod.Meets`: a method answers with a value of one class, and fails for
  no other reasons than overflow, a division by zero and an operand of the wrong
  class;
* `NativeClass.signatures`: the classes of the operands and the results of all
  methods;
* `NativeClass.meets_of_find?`: every method meets its signature.
-/
import Mathlib
import Ember.Native

namespace Ember

/-- A method of the receivers of one class: the class of its operand, if it asks
for one, and the class of its results. -/
structure NativeMethod.Meets (run : NativeMethod) (c : NativeClass) (operand : Option NativeClass)
    (result : NativeClass) : Prop where
  ok : ∀ receiver arguments v, NativeClass.of? receiver = some c →
    run receiver arguments = .ok v → NativeClass.of? v = some result
  error : ∀ receiver arguments cause, NativeClass.of? receiver = some c →
    run receiver arguments = .error cause → cause = .overflow ∨ cause = .divisionByZero ∨
      operand = some .number ∧ cause = .rightOperandNumber ∧
        (∀ v rest, arguments = v :: rest → NativeClass.of? v ≠ some .number) ∨
      operand = some .text ∧ cause = .rightOperandText ∧
        (∀ v rest, arguments = v :: rest → NativeClass.of? v ≠ some .text)

namespace NativeMethod

/-! ### Operands -/

/-- The receiver of a method of numbers is a number. -/
lemma numberReceiver_of {v : Value} (h : NativeClass.of? v = some .number) (name : String) :
    ∃ n, numberReceiver name v = .ok n := by
  cases v <;> first | exact ⟨_, rfl⟩ | exact nomatch h

/-- The receiver of a method of texts is a text. -/
lemma textReceiver_of {v : Value} (h : NativeClass.of? v = some .text) (name : String) :
    ∃ s, textReceiver name v = .ok s := by
  cases v <;> first | exact ⟨_, rfl⟩ | exact nomatch h

/-- The first argument is a number, or this is what is wrong with it. -/
lemma numberOperand_spec (arguments : List Value) :
    (∃ n, numberOperand arguments = .ok n) ∨
      numberOperand arguments = .error .rightOperandNumber ∧
        ∀ v rest, arguments = v :: rest → NativeClass.of? v ≠ some .number := by
  match arguments with
  | [] => exact .inr ⟨rfl, fun _ _ h => nomatch h⟩
  | .number n :: _ => exact .inl ⟨n, rfl⟩
  | .null :: _ | .boolean _ :: _ | .text _ :: _ | .cls _ :: _ | .obj _ :: _ | .host _ :: _ =>
    refine .inr ⟨rfl, fun v rest h => ?_⟩
    cases h
    exact nofun

/-- A right operand is a text, or is refused for not being one. -/
lemma textOperand_spec (arguments : List Value) :
    (∃ s, textOperand arguments = .ok s) ∨
      textOperand arguments = .error .rightOperandText ∧
        ∀ v rest, arguments = v :: rest → NativeClass.of? v ≠ some .text := by
  match arguments with
  | [] => exact .inr ⟨rfl, fun _ _ h => nomatch h⟩
  | .text s :: _ => exact .inl ⟨s, rfl⟩
  | .null :: _ | .boolean _ :: _ | .number _ :: _ | .cls _ :: _ | .obj _ :: _ | .host _ :: _ =>
    refine .inr ⟨rfl, fun v rest h => ?_⟩
    cases h
    exact nofun

/-- A result that does not fit overflows. -/
lemma fitting_spec (n : Option Number) :
    (∃ v, fitting n = .ok v ∧ NativeClass.of? v = some .number) ∨ fitting n = .error .overflow := by
  cases n with
  | none => exact .inr rfl
  | some n => exact .inl ⟨_, rfl, rfl⟩

/-! ### Kinds of method -/

/-- A method that needs a number on both sides. -/
lemma meets_ofNumbers {run : NativeMethod} {name : String} {result : NativeClass}
    (op : Number → Number → Except Failure Value)
    (eq : ∀ receiver arguments, run receiver arguments = (do
      let left ← numberReceiver name receiver
      let right ← numberOperand arguments
      op left right))
    (h : ∀ a b, (∃ v, op a b = .ok v ∧ NativeClass.of? v = some result) ∨
      op a b = .error .overflow ∨ op a b = .error .divisionByZero) :
    run.Meets .number (some .number) result := by
  have outcome {receiver : Value} (arguments : List Value)
      (own : NativeClass.of? receiver = some .number) :
      (∃ a b, run receiver arguments = op a b) ∨
        run receiver arguments = .error .rightOperandNumber ∧
          ∀ v rest, arguments = v :: rest → NativeClass.of? v ≠ some .number := by
    obtain ⟨a, ha⟩ := numberReceiver_of own name
    rw [eq, ha]
    rcases numberOperand_spec arguments with ⟨b, hb⟩ | ⟨hb, wrong⟩
    · rw [hb]
      exact .inl ⟨a, b, rfl⟩
    · rw [hb]
      exact .inr ⟨rfl, wrong⟩
  refine ⟨fun receiver arguments v own ok => ?_, fun receiver arguments cause own failed => ?_⟩
  · rcases outcome arguments own with ⟨a, b, run⟩ | ⟨run, -⟩
    · rw [run] at ok
      rcases h a b with ⟨w, hw, kind⟩ | hw | hw <;> rw [hw] at ok <;> cases ok
      exact kind
    · rw [run] at ok
      exact nomatch ok
  · rcases outcome arguments own with ⟨a, b, run⟩ | ⟨run, wrong⟩
    · rw [run] at failed
      rcases h a b with ⟨w, hw, -⟩ | hw | hw <;> rw [hw] at failed <;> cases failed
      · exact .inl rfl
      · exact .inr (.inl rfl)
    · rw [run] at failed
      cases failed
      exact .inr (.inr (.inl ⟨rfl, rfl, wrong⟩))

/-- Arithmetic takes two numbers to a number. -/
lemma meets_arithmetic (name : String) (op : Number → Number → Option Number) :
    (arithmetic name op).Meets .number (some .number) .number :=
  meets_ofNumbers (fun a b => fitting (op a b)) (fun _ _ => rfl) fun a b =>
    (fitting_spec (op a b)).imp_right .inl

/-- Division takes two numbers to a number, unless by zero. -/
lemma meets_division (name : String) (op : Number → Number → Option Number) :
    (division name op).Meets .number (some .number) .number := by
  refine meets_ofNumbers (fun a b => if b.val = 0 then .error .divisionByZero
    else fitting (op a b)) (fun _ _ => rfl) fun a b => ?_
  split
  · exact .inr (.inr rfl)
  · exact (fitting_spec (op a b)).imp_right .inl

/-- A comparison takes two numbers to a boolean. -/
lemma meets_comparison (name : String) (holds : Number → Number → Bool) :
    (comparison name holds).Meets .number (some .number) .boolean :=
  meets_ofNumbers (fun a b => .ok (.boolean (holds a b))) (fun _ _ => rfl) fun _ _ =>
    .inl ⟨_, rfl, rfl⟩

/-- A method of one number gives a number. -/
lemma meets_unary (name : String) (op : Number → Option Number) :
    (unary name op).Meets .number none .number := by
  have outcome {receiver : Value} (arguments : List Value)
      (own : NativeClass.of? receiver = some .number) :
      ∃ n, unary name op receiver arguments = fitting n := by
    obtain ⟨a, ha⟩ := numberReceiver_of own name
    refine ⟨op a, ?_⟩
    rw [unary, ha]
    rfl
  refine ⟨fun receiver arguments v own ok => ?_, fun receiver arguments cause own failed => ?_⟩
  · obtain ⟨n, run⟩ := outcome arguments own
    rw [run] at ok
    rcases fitting_spec n with ⟨w, hw, kind⟩ | hw <;> rw [hw] at ok <;> cases ok
    exact kind
  · obtain ⟨n, run⟩ := outcome arguments own
    rw [run] at failed
    rcases fitting_spec n with ⟨w, hw, -⟩ | hw <;> rw [hw] at failed <;> cases failed
    exact .inl rfl

/-- Appending takes two texts to a text. -/
lemma meets_append : append.Meets .text (some .text) .text := by
  have outcome {receiver : Value} (arguments : List Value)
      (own : NativeClass.of? receiver = some .text) :
      (∃ s, append receiver arguments = .ok (.text s)) ∨
        append receiver arguments = .error .rightOperandText ∧
          ∀ v rest, arguments = v :: rest → NativeClass.of? v ≠ some .text := by
    obtain ⟨a, ha⟩ := textReceiver_of own "+"
    rw [append, ha]
    rcases textOperand_spec arguments with ⟨b, hb⟩ | ⟨hb, wrong⟩
    · rw [hb]
      exact .inl ⟨_, rfl⟩
    · rw [hb]
      exact .inr ⟨rfl, wrong⟩
  refine ⟨fun receiver arguments v own ok => ?_, fun receiver arguments cause own failed => ?_⟩
  · rcases outcome arguments own with ⟨s, run⟩ | ⟨run, -⟩ <;> rw [run] at ok <;> cases ok
    rfl
  · rcases outcome arguments own with ⟨s, run⟩ | ⟨run, wrong⟩ <;> rw [run] at failed <;>
      cases failed
    exact .inr (.inr (.inr ⟨rfl, rfl, wrong⟩))

/-- Counting takes a text to a number. -/
lemma meets_count : count.Meets .text none .number := by
  have outcome {receiver : Value} (arguments : List Value)
      (own : NativeClass.of? receiver = some .text) :
      ∃ n, count receiver arguments = fitting n := by
    obtain ⟨s, hs⟩ := textReceiver_of own "count"
    refine ⟨Number.ofInt? s.length, ?_⟩
    rw [count, hs]
    rfl
  refine ⟨fun receiver arguments v own ok => ?_, fun receiver arguments cause own failed => ?_⟩
  · obtain ⟨n, run⟩ := outcome arguments own
    rw [run] at ok
    rcases fitting_spec n with ⟨w, hw, kind⟩ | hw <;> rw [hw] at ok <;> cases ok
    exact kind
  · obtain ⟨n, run⟩ := outcome arguments own
    rw [run] at failed
    rcases fitting_spec n with ⟨w, hw, -⟩ | hw <;> rw [hw] at failed <;> cases failed
    exact .inl rfl

/-- A method that always succeeds with receivers of its class. -/
lemma meets_ofTotal {run : NativeMethod} {c result : NativeClass}
    (h : ∀ receiver arguments, NativeClass.of? receiver = some c →
      ∃ v, run receiver arguments = .ok v ∧ NativeClass.of? v = some result) :
    run.Meets c none result := by
  refine ⟨fun receiver arguments v own ok => ?_, fun receiver arguments cause own failed => ?_⟩
  · obtain ⟨w, run, kind⟩ := h receiver arguments own
    rw [run] at ok
    cases ok
    exact kind
  · obtain ⟨w, run, -⟩ := h receiver arguments own
    rw [run] at failed
    exact nomatch failed

/-- Negation takes a boolean to a boolean. -/
lemma meets_negate : negate.Meets .boolean none .boolean := by
  refine meets_ofTotal fun receiver arguments own => ?_
  cases receiver with
  | boolean b => exact ⟨_, rfl, rfl⟩
  | null | number _ | text _ | cls _ | obj _ | host _ => exact nomatch own

/-- Every value has a text. -/
lemma meets_toText (c : NativeClass) : toText.Meets c none .text :=
  meets_ofTotal fun _ _ _ => ⟨_, rfl, rfl⟩

/-- Every two values are equal or not. -/
lemma meets_equal (c : NativeClass) : equal.Meets c none .boolean :=
  meets_ofTotal fun _ _ _ => ⟨_, rfl, rfl⟩

/-- Every two values are unequal or not. -/
lemma meets_unequal (c : NativeClass) : unequal.Meets c none .boolean :=
  meets_ofTotal fun _ _ _ => ⟨_, rfl, rfl⟩

end NativeMethod

/-! ### Method tables -/

namespace NativeClass

/-- A method that asks for an operand of one class. -/
def binary (operand result : NativeClass) (name : String) :
    Selector × Option NativeClass × NativeClass := (.method name 1, some operand, result)

/-- A method without parameters. -/
def getter (result : NativeClass) (name : String) :
    Selector × Option NativeClass × NativeClass := (.getter name, none, result)

/-- The classes of the operands and results of the methods that every plain value
has. -/
def sharedSignatures : List (Selector × Option NativeClass × NativeClass) :=
  [getter text "toString", (.method "==" 1, none, boolean), (.method "!=" 1, none, boolean)]

/-- The classes of the operands and results of all methods. -/
def signatures : NativeClass → List (Selector × Option NativeClass × NativeClass)
  | number => ["+", "-", "*", "/", "%"].map (binary number number) ++
      ["<", "<=", ">", ">="].map (binary number boolean) ++ ["-", "abs"].map (getter number) ++
      sharedSignatures
  | text => [binary text text "+", getter number "count"] ++ sharedSignatures
  | boolean => [getter boolean "!"] ++ sharedSignatures
  | null => sharedSignatures

/-- A table of methods that agree with their signatures one by one. -/
inductive Agree (c : NativeClass) : List (Selector × NativeMethod) →
    List (Selector × Option NativeClass × NativeClass) → Prop where
  | nil : Agree c [] []
  | cons {s : Selector} {run : NativeMethod} {operand : Option NativeClass} {result : NativeClass}
      {table : List (Selector × NativeMethod)}
      {types : List (Selector × Option NativeClass × NativeClass)}
      (meets : run.Meets c operand result) (rest : Agree c table types) :
      Agree c ((s, run) :: table) ((s, operand, result) :: types)

open NativeMethod in
/-- The methods that all values share are those of their signatures. -/
lemma agree_shared (c : NativeClass) : Agree c sharedMethods sharedSignatures :=
  .cons (meets_toText c) (.cons (meets_equal c) (.cons (meets_unequal c) .nil))

open NativeMethod in
/-- The methods of a class agree with their signatures. -/
lemma agree_methods (c : NativeClass) : Agree c c.methods c.signatures := by
  cases c with
  | number =>
    exact .cons (meets_arithmetic ..) (.cons (meets_arithmetic ..) (.cons (meets_arithmetic ..)
      (.cons (meets_division ..) (.cons (meets_division ..) (.cons (meets_comparison ..)
        (.cons (meets_comparison ..) (.cons (meets_comparison ..) (.cons (meets_comparison ..)
          (.cons (meets_unary ..) (.cons (meets_unary ..) (agree_shared .number)))))))))))
  | text => exact .cons meets_append (.cons meets_count (agree_shared .text))
  | boolean => exact .cons meets_negate (agree_shared .boolean)
  | null => exact agree_shared .null

/-- A table has a method for a selector exactly if there is a signature, which the
method meets. -/
lemma Agree.lookup {c : NativeClass} {table : List (Selector × NativeMethod)}
    {types : List (Selector × Option NativeClass × NativeClass)} (agree : Agree c table types)
    (s : Selector) :
    (table.lookup s = none ∧ types.lookup s = none) ∨ ∃ run operand result,
      table.lookup s = some run ∧ types.lookup s = some (operand, result) ∧
        run.Meets c operand result := by
  induction agree with
  | nil => exact .inl ⟨rfl, rfl⟩
  | @cons t run operand result table types meets rest ih =>
    rw [List.lookup_cons, List.lookup_cons]
    cases s == t with
    | true => exact .inr ⟨run, operand, result, rfl, rfl, meets⟩
    | false => exact ih

/-- Every method meets its signature. -/
theorem meets_of_find? {c : NativeClass} {s : Selector} {run : NativeMethod}
    (found : c.find? s = some run) :
    ∃ operand result, c.signatures.lookup s = some (operand, result) ∧
      run.Meets c operand result := by
  rcases (agree_methods c).lookup s with ⟨none, -⟩ | ⟨run', operand, result, found', types, meets⟩
  · rw [find?, none] at found
    exact nomatch found
  · rw [find?, found'] at found
    cases found
    exact ⟨operand, result, types, meets⟩

end NativeClass

end Ember
