/-
Arithmetic on numbers is exact or refused.

* `Value.Gives`, `Number.Answers`: what a call of a value comes to wherever it is made;
* `Number.Fits`, `Number.IsLeast`: the integers that are numbers, and the number whose
  opposite is none;
* `Number.IsQuotient`, `Number.IsRemainder`: division toward zero, by magnitudes and signs;
* `Number.Exact`, `Number.Divided`, `Number.Turned`: an answer is a given integer as long
  as it fits; a division is refused for two reasons only; a change of sign is refused at
  the least number only;
* `Program.Expr.Yields`: an expression comes to one and the same answer everywhere;
* `arithmetic_exact`: the main theorem, which also puts quotient and remainder together
  again.
-/
import Mathlib
import Ember.Proofs.Run.Describing

namespace Ember

open Program

/-! ### Numbers -/

namespace Number

/-- An integer fits in 64 bits with its sign. -/
def Fits (i : Int) : Prop := -2 ^ 63 ≤ i ∧ i < 2 ^ 63

/-- The least number, the only one whose opposite is no number. -/
def IsLeast (a : Number) : Prop := a.val = -2 ^ 63

/-- The quotient of two numbers, rounded toward zero: that of their magnitudes, with the
sign that the two signs make. -/
def IsQuotient (a b q : Number) : Prop :=
  q.val = a.val.sign * b.val.sign * (a.val.natAbs / b.val.natAbs : ℕ)

/-- A remainder lies below the divisor in magnitude, and is zero or has the sign of the
dividend. -/
def IsRemainder (a b r : Number) : Prop :=
  |r.val| < |b.val| ∧ (r.val = 0 ∨ r.val.sign = a.val.sign)

variable {a b : Number}

/-- A number is within bounds. -/
lemma fits (a : Number) : Fits a.val := by
  have least := a.least_le
  have greatest := a.le_greatest
  constructor <;> omega

/-- An integer within bounds is a number. -/
lemma ofInt?_of_fits {i : Int} (h : Fits i) : ∃ n : Number, ofInt? i = some n ∧ n.val = i := by
  obtain ⟨least, greatest⟩ := h
  exact ⟨⟨i, by omega, by omega⟩, dif_pos ⟨by omega, by omega⟩, rfl⟩

/-- An integer beyond bounds is no number. -/
lemma ofInt?_of_not_fits {i : Int} (h : ¬Fits i) : ofInt? i = none := by
  rw [ofInt?_eq_none_iff]
  simp only [Fits, not_and, not_lt] at h
  omega

/-- A quotient is no greater in magnitude than the dividend. Only the opposite of the
least number does not fit. -/
lemma fits_tdiv : Fits (a.val.tdiv b.val) ↔ ¬(a.IsLeast ∧ b.val = -1) := by
  have magnitude : (a.val.tdiv b.val).natAbs = a.val.natAbs / b.val.natAbs :=
    Int.natAbs_tdiv a.val b.val
  obtain ⟨least, greatest⟩ := a.fits
  rw [IsLeast]
  constructor
  · rintro ⟨-, small⟩ ⟨ha, hb⟩
    rw [ha, hb] at small
    exact absurd small (by decide)
  · intro other
    by_cases opposite : b.val = -1
    · rw [opposite, Int.tdiv_neg, Int.tdiv_one]
      constructor <;> omega
    · by_cases unit : b.val.natAbs ≤ 1
      · have bound : a.val.natAbs / b.val.natAbs ≤ a.val.natAbs := Nat.div_le_self _ _
        rcases (show b.val = 0 ∨ b.val = 1 by omega) with zero | one
        · rw [zero, Int.tdiv_zero]
          constructor <;> decide
        · rw [one, Int.tdiv_one]
          exact a.fits
      · have half : a.val.natAbs / b.val.natAbs ≤ a.val.natAbs / 2 :=
          Nat.div_le_div_left (by omega) (by decide)
        constructor <;> omega

/-- A remainder is smaller in magnitude than some number, so it fits. -/
lemma fits_tmod (hb : b.val ≠ 0) : Fits (a.val.tmod b.val) := by
  have magnitude : (a.val.tmod b.val).natAbs = a.val.natAbs % b.val.natAbs :=
    Int.natAbs_tmod a.val b.val
  have small : a.val.natAbs % b.val.natAbs < b.val.natAbs := Nat.mod_lt _ (by omega)
  obtain ⟨least, greatest⟩ := b.fits
  constructor <;> omega

/-- A number that is the quotient toward zero divides by magnitudes and signs. -/
lemma isQuotient_of_val {q : Number} (h : q.val = a.val.tdiv b.val) : a.IsQuotient b q := by
  rw [IsQuotient, h]
  conv_lhs => rw [← Int.sign_mul_natAbs a.val, ← Int.sign_mul_natAbs b.val]
  rcases Int.sign_trichotomy a.val with ha | ha | ha <;>
    rcases Int.sign_trichotomy b.val with hb | hb | hb <;>
      simp [ha, hb, Int.tdiv_eq_ediv_of_nonneg]

/-- A number that leaves what the quotient toward zero leaves is the remainder. -/
lemma isRemainder_of_val {r : Number} (hb : b.val ≠ 0) (h : r.val = a.val.tmod b.val) :
    a.IsRemainder b r := by
  rw [IsRemainder, h]
  constructor
  · rw [Int.abs_eq_natAbs, Int.abs_eq_natAbs, Int.natAbs_tmod]
    exact_mod_cast Nat.mod_lt _ (Int.natAbs_pos.2 hb)
  · rw [Int.sign_tmod, ← Int.dvd_iff_tmod_eq_zero]
    split
    · next divides => exact .inl divides
    · exact .inr rfl

/-! ### Answers -/

/-- An answer is a given integer if that fits, and is refused otherwise. -/
structure Exact (i : Int) (o : Except Failure Value) : Prop where
  number : ∀ n : Number, o = .ok (.number n) ↔ n.val = i
  overflow : o = .error .overflow ↔ ¬Fits i

/-- A division of two numbers has an answer unless the divisor is zero or the quotient
would be the opposite of the least number. -/
structure Divided (a b : Number) (P : Number → Prop) (o : Except Failure Value) : Prop where
  byZero : o = .error .divisionByZero ↔ b.val = 0
  overflow : o = .error .overflow ↔ a.IsLeast ∧ b.val = -1
  otherwise : b.val ≠ 0 → ¬(a.IsLeast ∧ b.val = -1) → ∃ n, o = .ok (.number n) ∧ P n

/-- A change of the sign of a number has an answer unless it is the least number. -/
structure Turned (a : Number) (P : Number → Prop) (o : Except Failure Value) : Prop where
  overflow : o = .error .overflow ↔ a.IsLeast
  otherwise : ¬a.IsLeast → ∃ n, o = .ok (.number n) ∧ P n

/-- An integer is answered if it fits, and refused if not. -/
lemma exact_fitting (i : Int) : Exact i (NativeMethod.fitting (ofInt? i)) := by
  by_cases h : Fits i
  · obtain ⟨n, some, rfl⟩ := ofInt?_of_fits h
    rw [some]
    refine ⟨fun k => ⟨fun same => ?_, fun same => ?_⟩, nofun, fun other => absurd h other⟩
    · cases same
      rfl
    · have back := ofInt?_val k
      rw [same, some] at back
      cases back
      rfl
  · rw [ofInt?_of_not_fits h]
    exact ⟨fun k => ⟨nofun, fun same => absurd (same ▸ k.fits) h⟩, fun _ => h, fun _ => rfl⟩

/-- What a method that divides answers, as long as its operation has an answer for all
divisors but zero, the one case aside. -/
lemma divided_of_fitting {result : Option Number} {P : Number → Prop}
    (refused : b.val ≠ 0 → a.IsLeast → b.val = -1 → result = none)
    (answered : b.val ≠ 0 → ¬(a.IsLeast ∧ b.val = -1) → ∃ n, result = some n ∧ P n) :
    Divided a b P (if b.val = 0 then .error .divisionByZero else NativeMethod.fitting result) := by
  by_cases zero : b.val = 0
  · rw [if_pos zero]
    exact ⟨⟨fun _ => zero, fun _ => rfl⟩, ⟨nofun, fun h => by omega⟩, fun h => absurd zero h⟩
  · rw [if_neg zero]
    by_cases least : a.IsLeast ∧ b.val = -1
    · rw [refused zero least.1 least.2]
      exact ⟨⟨nofun, fun h => absurd h zero⟩, ⟨fun _ => least, fun _ => rfl⟩,
        fun _ h => absurd least h⟩
    · obtain ⟨n, some, hn⟩ := answered zero least
      rw [some]
      exact ⟨⟨nofun, fun h => absurd h zero⟩, ⟨nofun, fun h => absurd h least⟩,
        fun _ _ => ⟨n, rfl, hn⟩⟩

/-- A change of sign may promise less. -/
lemma Turned.mono {P Q : Number → Prop} {o : Except Failure Value} (h : Turned a P o)
    (weaker : ∀ n, P n → Q n) : Turned a Q o :=
  ⟨h.overflow, fun other =>
    have ⟨n, eq, hn⟩ := h.otherwise other
    ⟨n, eq, weaker n hn⟩⟩

/-- A division whose quotient does not fit is refused. -/
lemma div?_of_isLeast (least : a.IsLeast) (hb : b.val = -1) : a.div? b = none :=
  ofInt?_of_not_fits fun fits => fits_tdiv.1 fits ⟨least, hb⟩

/-- A quotient and a remainder make up the dividend, and no step on the way overflows:
product and remainder lie between zero and the dividend. -/
lemma exists_div_rem (hb : b.val ≠ 0) (other : ¬(a.IsLeast ∧ b.val = -1)) :
    ∃ q p r : Number, a.div? b = some q ∧ q.mul? b = some p ∧ a.rem? b = some r ∧
      p.add? r = some a ∧ q.val = a.val.tdiv b.val ∧ r.val = a.val.tmod b.val := by
  obtain ⟨q, hq, quotient⟩ := ofInt?_of_fits (fits_tdiv.2 other)
  obtain ⟨r, hr, remainder⟩ := ofInt?_of_fits (fits_tmod (a := a) hb)
  have whole : q.val * b.val + r.val = a.val := by
    rw [quotient, remainder]
    exact Int.tdiv_mul_add_tmod a.val b.val
  have inside : Fits (q.val * b.val) := by
    have small : |r.val| ≤ |a.val| := by
      rw [remainder, Int.abs_eq_natAbs, Int.abs_eq_natAbs, Int.natAbs_tmod]
      exact_mod_cast Nat.mod_le _ _
    obtain ⟨-, zero | sign⟩ := isRemainder_of_val hb remainder
    · rw [zero, add_zero] at whole
      exact whole ▸ a.fits
    · have between : 0 ≤ a.val ∧ 0 ≤ r.val ∨ a.val ≤ 0 ∧ r.val ≤ 0 := by
        rcases lt_trichotomy a.val 0 with ha | ha | ha
        · rw [Int.sign_eq_neg_one_of_neg ha, Int.sign_eq_neg_one_iff_neg] at sign
          omega
        · rw [ha, Int.sign_zero, Int.sign_eq_zero_iff_zero] at sign
          omega
        · rw [Int.sign_eq_one_of_pos ha, Int.sign_eq_one_iff_pos] at sign
          omega
      obtain ⟨least, greatest⟩ := a.fits
      rw [abs_le] at small
      constructor <;> cases abs_cases a.val <;> omega
  obtain ⟨p, hp, product⟩ := ofInt?_of_fits inside
  refine ⟨q, p, r, hq, hp, ?_, ?_, quotient, remainder⟩
  · rw [rem?, div?, hq]
    exact hr
  · rw [add?, product, whole]
    exact a.ofInt?_val

end Number

/-! ### Calls of values -/

/-- A call of a value comes to a certain answer or failure on every host, line and
machine, and changes nothing. -/
def Value.Gives (v : Value) (name : String) (arguments : Option (List Value))
    (o : Except Failure Value) : Prop :=
  ∀ (σ : Type) (host : Host σ) (fuel : Nat) (line : Line) (m : Machine σ),
    call host (fuel + 1) v name arguments line m = Run.ofExcept line o m

namespace Number

variable {a b : Number}

/-- A number answers to a method, given another number or nothing, in a certain way. -/
def Answers (a : Number) (name : String) (operand : Option Number)
    (P : Except Failure Value → Prop) : Prop :=
  ∃ o, (Value.number a).Gives name (operand.map fun b => [.number b]) o ∧ P o

/-- A call of a number runs the method that is found in the table of numbers. -/
lemma gives_of_find? {name : String} {arguments : Option (List Value)} {run : NativeMethod}
    {o : Except Failure Value}
    (found : NativeClass.number.find? ⟨name, arguments.map List.length⟩ = some run)
    (answer : run (.number a) (arguments.getD []) = o) :
    (Value.number a).Gives name arguments o := by
  intro σ host fuel line m
  rw [call_native host fuel rfl, found, ← answer]

/-- The sum of two numbers is what addition gives. -/
lemma gives_add (a b : Number) :
    (Value.number a).Gives "+" (some [.number b]) (NativeMethod.fitting (a.add? b)) :=
  gives_of_find? rfl rfl

/-- The difference of two numbers is what subtraction gives. -/
lemma gives_sub (a b : Number) :
    (Value.number a).Gives "-" (some [.number b]) (NativeMethod.fitting (a.sub? b)) :=
  gives_of_find? rfl rfl

/-- The product of two numbers is what multiplication gives. -/
lemma gives_mul (a b : Number) :
    (Value.number a).Gives "*" (some [.number b]) (NativeMethod.fitting (a.mul? b)) :=
  gives_of_find? rfl rfl

/-- The quotient of two numbers is what division gives, unless by zero. -/
lemma gives_div (a b : Number) : (Value.number a).Gives "/" (some [.number b])
    (if b.val = 0 then .error .divisionByZero else NativeMethod.fitting (a.div? b)) :=
  gives_of_find? rfl rfl

/-- The remainder of two numbers is what is left, unless by zero. -/
lemma gives_rem (a b : Number) : (Value.number a).Gives "%" (some [.number b])
    (if b.val = 0 then .error .divisionByZero else NativeMethod.fitting (a.rem? b)) :=
  gives_of_find? rfl rfl

/-- The opposite of a number is what negation gives. -/
lemma gives_neg (a : Number) :
    (Value.number a).Gives "-" none (NativeMethod.fitting a.neg?) :=
  gives_of_find? rfl rfl

/-- The magnitude of a number is what `abs` gives. -/
lemma gives_abs (a : Number) :
    (Value.number a).Gives "abs" none (NativeMethod.fitting a.abs?) :=
  gives_of_find? rfl rfl

/-- A result that is refused exactly for the least number. -/
lemma turned_fitting {i : Int} {P : Number → Prop} (refused : ¬Fits i ↔ a.IsLeast)
    (h : ∀ n : Number, n.val = i → P n) : Turned a P (NativeMethod.fitting (ofInt? i)) := by
  have exact_ := exact_fitting i
  refine ⟨exact_.overflow.trans refused, fun other => ?_⟩
  obtain ⟨n, some, same⟩ := ofInt?_of_fits (not_not.1 (refused.not.2 other))
  exact ⟨n, by rw [some]; rfl, h n same⟩

/-- The opposite of a number is a number, the least one aside. -/
lemma fits_neg (a : Number) : ¬Fits (-a.val) ↔ a.IsLeast := by
  obtain ⟨least, greatest⟩ := a.fits
  rw [Fits, IsLeast]
  omega

/-- Negation is refused at the least number alone. -/
lemma turned_neg (a : Number) : Turned a (fun n => n.val = -a.val) (NativeMethod.fitting a.neg?) :=
  turned_fitting a.fits_neg fun _ same => same

/-- The magnitude is refused at the least number alone. -/
lemma turned_abs (a : Number) :
    Turned a (fun n => n.val = |a.val|) (NativeMethod.fitting a.abs?) := by
  have fits : ¬Fits a.val.natAbs ↔ a.IsLeast := by
    obtain ⟨least, greatest⟩ := a.fits
    rw [Fits, IsLeast]
    omega
  exact turned_fitting fits fun n same => same.trans (Int.abs_eq_natAbs a.val).symm

/-- The opposite of the opposite is the number itself. -/
lemma neg?_of_val {n : Number} (h : n.val = -a.val) : n.neg? = some a := by
  rw [neg?, h, neg_neg]
  exact a.ofInt?_val

/-- A number and its opposite are at one distance from zero. -/
lemma abs?_of_val {n k : Number} (hn : n.val = -a.val) (hk : k.val = |a.val|) :
    n.abs? = some k := by
  rw [abs?, hn, Int.natAbs_neg, ← Int.abs_eq_natAbs, ← hk]
  exact k.ofInt?_val

end Number

/-! ### Expressions -/

/-- An expression comes to one and the same answer or failure on a line, whatever the
host, the environment and the machine, and changes nothing. The depth is the fuel that
this takes. -/
def Program.Expr.Yields (expr : Expr) (depth : Nat) (line : Line) (o : Except Failure Value) :
    Prop :=
  ∀ (σ : Type) (host : Host σ) (fuel : Nat) (e : Environment) (m : Machine σ),
    depth ≤ fuel → eval host fuel expr e m = Run.ofExcept line o m

namespace Program.Expr

variable {receiver argument : Expr} {name : String} {line : Line} {v w : Value}
  {o : Except Failure Value} {depth : Nat}

/-- A literal comes to its value. -/
lemma yields_literal (value : Literal) (line : Line) (depth : Nat) :
    (literal value line).Yields (depth + 1) line (.ok (.ofLiteral value)) := by
  intro σ host fuel e m enough
  obtain ⟨fuel, rfl⟩ := Nat.exists_eq_add_of_le' (Nat.le_of_add_left_le enough)
  rw [eval]
  rfl

/-- A call yields what its receiver gives when it is given what the argument yields. -/
lemma Yields.call (hr : receiver.Yields (depth + 2) line (.ok v))
    (ha : argument.Yields (depth + 1) line (.ok w)) (gives : v.Gives name (some [w]) o) :
    (Expr.call receiver name (some [argument]) line).Yields (depth + 3) line o := by
  intro σ host fuel e m enough
  obtain ⟨fuel, rfl⟩ := Nat.exists_eq_add_of_le' enough
  have first : eval host (fuel + depth + 2) receiver e m = .done v m :=
    hr σ host _ e m (by omega)
  have second : evalAll host (fuel + depth + 2) [argument] e m = .done [w] m := by
    rw [evalAll]
    simp only [bind, Run.bind, ha σ host (fuel + depth + 1) e m (by omega), Run.ofExcept, pure,
      Run.pure]
    rw [evalAll]
    rfl
  change eval host (fuel + depth + 2 + 1) _ e m = _
  rw [eval]
  simp only [bind, Run.bind, first, second]
  exact gives σ host (fuel + depth + 1) line m

/-- A call whose receiver fails has failed. -/
lemma Yields.call_failed {cause : Failure} (hr : receiver.Yields depth line (.error cause))
    (arguments : Option (List Expr)) :
    (Expr.call receiver name arguments line).Yields (depth + 1) line (.error cause) := by
  intro σ host fuel e m enough
  obtain ⟨fuel, rfl⟩ := Nat.exists_eq_add_of_le' (Nat.le_of_add_left_le enough)
  rw [eval]
  simp only [bind, Run.bind, hr σ host fuel e m (by omega)]
  rfl

end Program.Expr

/-! ### Quotients and remainders put together again -/

/-- The quotient of two numbers times the divisor, plus the remainder. -/
def recombined (a b : Number) (line : Line) : Expr :=
  let dividend := Expr.literal (.number a) line
  let divisor := Expr.literal (.number b) line
  .call (.call (.call dividend "/" (some [divisor]) line) "*" (some [divisor]) line) "+"
    (some [.call dividend "%" (some [divisor]) line]) line

/-- Putting quotient and remainder together fails only where the division does, and
gives the dividend back. -/
lemma yields_recombined (a b : Number) (line : Line) :
    ∃ o, (recombined a b line).Yields 5 line o ∧ Number.Divided a b (fun n => n = a) o := by
  classical
  let result : Option Number := if a.IsLeast ∧ b.val = -1 then none else some a
  have divided : Number.Divided a b (fun n => n = a)
      (if b.val = 0 then .error .divisionByZero else NativeMethod.fitting result) :=
    Number.divided_of_fitting (fun _ least hb => if_pos ⟨least, hb⟩)
      fun _ other => ⟨a, if_neg other, rfl⟩
  refine ⟨_, ?_, divided⟩
  have literal (n : Number) (depth : Nat) :
      (Expr.literal (.number n) line).Yields (depth + 1) line (.ok (.number n)) :=
    Expr.yields_literal (.number n) line depth
  have quotient := (literal a 1).call (literal b 0) (a.gives_div b)
  have remainder := (literal a 1).call (literal b 0) (a.gives_rem b)
  by_cases zero : b.val = 0
  · rw [if_pos zero] at quotient ⊢
    exact (quotient.call_failed _).call_failed _
  · rw [if_neg zero] at quotient remainder ⊢
    by_cases least : a.IsLeast ∧ b.val = -1
    · rw [Number.div?_of_isLeast least.1 least.2] at quotient
      rw [show result = none from if_pos least]
      exact (quotient.call_failed _).call_failed _
    · obtain ⟨q, p, r, hq, hp, hr, ha, -, -⟩ := Number.exists_div_rem zero least
      have product := q.gives_mul b
      have sum := p.gives_add r
      rw [hq] at quotient
      rw [hr] at remainder
      rw [hp] at product
      rw [ha] at sum
      rw [show result = some a from if_neg least]
      exact (quotient.call (literal b 1) product).call remainder sum

/-- Sums, differences and products of numbers are exact or refused. A division is refused
for a zero divisor and where the quotient would be the opposite of the least number;
otherwise it rounds toward zero, and quotient and remainder make up the dividend again,
with no step refused on the way. The opposite and the distance from zero are refused at
the least number only. -/
theorem arithmetic_exact (a b : Number) (line : Line) :
    a.Answers "+" (some b) (Number.Exact (a.val + b.val)) ∧
      a.Answers "-" (some b) (Number.Exact (a.val - b.val)) ∧
      a.Answers "*" (some b) (Number.Exact (a.val * b.val)) ∧
      a.Answers "/" (some b) (Number.Divided a b (a.IsQuotient b)) ∧
      a.Answers "%" (some b) (Number.Divided a b (a.IsRemainder b)) ∧
      (∃ o, (recombined a b line).Yields 5 line o ∧ Number.Divided a b (fun n => n = a) o) ∧
      a.Answers "-" none (Number.Turned a fun n =>
        n.val = -a.val ∧ n.Answers "-" none fun o => o = .ok (.number a)) ∧
      a.Answers "abs" none (Number.Turned a fun k =>
        k.val = |a.val| ∧ 0 ≤ k.val ∧ a.Answers "-" none fun o =>
          ∃ n, o = .ok (.number n) ∧ n.Answers "abs" none fun o => o = .ok (.number k)) := by
  -- the remainder is computed by way of the quotient, and refused with it
  have refused (_ : b.val ≠ 0) (least : a.IsLeast) (hb : b.val = -1) : a.rem? b = none := by
    rw [Number.rem?, Number.div?_of_isLeast least hb]
    rfl
  refine ⟨⟨_, a.gives_add b, Number.exact_fitting _⟩, ⟨_, a.gives_sub b, Number.exact_fitting _⟩,
    ⟨_, a.gives_mul b, Number.exact_fitting _⟩, ⟨_, a.gives_div b, ?_⟩, ⟨_, a.gives_rem b, ?_⟩,
    yields_recombined a b line, ⟨_, a.gives_neg, ?_⟩, ⟨_, a.gives_abs, ?_⟩⟩
  · refine Number.divided_of_fitting (fun _ => Number.div?_of_isLeast) fun zero other => ?_
    obtain ⟨q, -, -, hq, -, -, -, quotient, -⟩ := Number.exists_div_rem zero other
    exact ⟨q, hq, Number.isQuotient_of_val quotient⟩
  · refine Number.divided_of_fitting refused fun zero other => ?_
    obtain ⟨-, -, r, -, -, hr, -, -, remainder⟩ := Number.exists_div_rem zero other
    exact ⟨r, hr, Number.isRemainder_of_val zero remainder⟩
  · refine a.turned_neg.mono fun n opposite => ⟨opposite, _, n.gives_neg, ?_⟩
    rw [Number.neg?_of_val opposite]
    rfl
  -- a number and its opposite are equally far from zero
  · have turned := a.turned_abs
    refine ⟨turned.overflow, fun other => ?_⟩
    obtain ⟨k, hk, distance⟩ := turned.otherwise other
    obtain ⟨n, hn, opposite⟩ := a.turned_neg.otherwise other
    refine ⟨k, hk, distance, distance ▸ abs_nonneg a.val, _, a.gives_neg, n, hn, _,
      n.gives_abs, ?_⟩
    rw [Number.abs?_of_val opposite distance]
    rfl

end Ember
