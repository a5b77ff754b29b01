/-
The numbers of the language: integers of 64 bits, sign included. Every
operation is the exact operation on integers, and is refused when its result
does not fit.

* `Number`: an integer with the proof that it fits, `Number.ofInt?` the check;
* `Number.add?`, `Number.sub?`, `Number.mul?`: exact or refused;
* `Number.div?`, `Number.rem?`: division toward zero and its remainder, both
  refused together when the quotient does not fit;
* `Number.neg?`, `Number.abs?`: refused at the least number only.
-/

namespace Ember

/-- An integer that fits in 64 bits with its sign. -/
structure Number where
  val : Int
  least_le : -9223372036854775808 ≤ val
  le_greatest : val ≤ 9223372036854775807
deriving DecidableEq

namespace Number

/-- The number with a given value, if that value fits. -/
def ofInt? (i : Int) : Option Number :=
  if h : -9223372036854775808 ≤ i ∧ i ≤ 9223372036854775807 then some ⟨i, h.1, h.2⟩ else none

/-- Numbers are written in decimal. -/
def text (a : Number) : String := toString a.val

/-- A number is that of its own value. -/
theorem ofInt?_val (a : Number) : ofInt? a.val = some a := by
  rw [ofInt?, dif_pos ⟨a.least_le, a.le_greatest⟩]

/-- The integers without a number are those out of bounds. -/
theorem ofInt?_eq_none_iff {i : Int} :
    ofInt? i = none ↔ i < -9223372036854775808 ∨ 9223372036854775807 < i := by
  rw [ofInt?]
  split
  · simp only [reduceCtorEq, false_iff]
    omega
  · simp only [true_iff]
    omega

/-! ### Arithmetic -/

/-- The sum. -/
def add? (a b : Number) : Option Number := ofInt? (a.val + b.val)

/-- The difference. -/
def sub? (a b : Number) : Option Number := ofInt? (a.val - b.val)

/-- The product. -/
def mul? (a b : Number) : Option Number := ofInt? (a.val * b.val)

/-- The quotient rounded toward zero. -/
def div? (a b : Number) : Option Number := ofInt? (a.val.tdiv b.val)

/-- The remainder of the division toward zero, where that division has a result. -/
def rem? (a b : Number) : Option Number :=
  (a.div? b).bind fun _ => ofInt? (a.val.tmod b.val)

/-- The opposite number. -/
def neg? (a : Number) : Option Number := ofInt? (-a.val)

/-- The distance from zero. -/
def abs? (a : Number) : Option Number := ofInt? a.val.natAbs

/-! ### Comparison -/

instance : LT Number := ⟨fun a b => a.val < b.val⟩

instance : LE Number := ⟨fun a b => a.val ≤ b.val⟩

instance (a b : Number) : Decidable (a < b) := inferInstanceAs (Decidable (a.val < b.val))

instance (a b : Number) : Decidable (a ≤ b) := inferInstanceAs (Decidable (a.val ≤ b.val))

end Number

end Ember
