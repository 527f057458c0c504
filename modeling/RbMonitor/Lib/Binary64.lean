import Mathlib.Algebra.Field.Rat
import Mathlib.Algebra.Order.Ring.Rat
import Mathlib.Data.Nat.Log
import Mathlib.Tactic.Positivity
import Mathlib.Tactic.Ring

/-!
This module contains IEEE 754 binary64 numbers as C's `double` uses them: every finite number is an
integer multiple of `2^-1074`, the smallest subnormal, and all operations round an exact quotient of
natural numbers in that unit to nearest, ties to even. A NaN has a sign, which C leaves open and which
is here that of x86-64, and no payload.
-/

namespace Binary64

/-- Number of units in 1. -/
def one : Nat := 2 ^ 1074

/-- The largest finite magnitude. -/
def maxMag : Nat := (2 ^ 53 - 1) * 2 ^ 2045

/-- Binary digits of a magnitude below the 53 that are kept. -/
def excess (mag : Nat) : Nat :=
  mag.log2 + 1 - 53

/-- The magnitudes of finite numbers: at most 53 significant bits, and not too large. -/
def Fits (mag : Nat) : Prop :=
  mag % 2 ^ excess mag = 0 ∧ mag ≤ maxMag

instance : Decidable (Fits mag) :=
  inferInstanceAs (Decidable (_ ∧ _))

structure Finite where
  neg : Bool
  mag : Nat
  fits : Fits mag
deriving DecidableEq

end Binary64

inductive Binary64 where
  | nan (neg : Bool)
  | inf (neg : Bool)
  | finite (x : Binary64.Finite)
deriving DecidableEq

namespace Binary64

/-- Quotient rounded to nearest, ties to even. -/
def roundQuot (num den : Nat) : Nat :=
  let q := num / den
  let r := num % den
  if 2 * r < den then q
  else if den < 2 * r then q + 1
  else q + q % 2

/-- `num / den` units rounded to 53 significant bits. -/
def roundMag (num den : Nat) : Nat :=
  let s := excess (num / den)
  roundQuot num (den * 2 ^ s) * 2 ^ s

def ofMag (neg : Bool) (mag : Nat) : Binary64 :=
  if h : Fits mag then .finite ⟨neg, mag, h⟩ else .inf neg

/-- The number nearest to `± num / den`. -/
def ofRatio (neg : Bool) (num den : Nat) : Binary64 :=
  ofMag neg (roundMag (num * one) den)

def ofInt (n : Int) : Binary64 :=
  ofRatio (n < 0) n.natAbs 1

instance : OfNat Binary64 n where
  ofNat := ofInt n

theorem one_pos : 0 < one := by
  unfold one
  positivity

/-- The exact value, in units. -/
def Finite.units (x : Finite) : Int :=
  if x.neg then -x.mag else x.mag

def Finite.toRat (x : Finite) : ℚ :=
  x.units / one

def neg : Binary64 → Binary64
  | .nan s => .nan !s
  | .inf s => .inf !s
  | .finite x => .finite { x with neg := !x.neg }

instance : Neg Binary64 where
  neg := neg

def add : Binary64 → Binary64 → Binary64
  | .nan a, _ => .nan a
  | _, .nan b => .nan b
  | .inf a, .inf b => if a = b then .inf a else .nan true
  | .inf a, .finite _ => .inf a
  | .finite _, .inf b => .inf b
  | .finite x, .finite y =>
    let sum := x.units + y.units
    let neg := if sum = 0 then x.neg && y.neg else decide (sum < 0)
    ofMag neg (roundMag sum.natAbs 1)

instance : Add Binary64 where
  add := add

def div : Binary64 → Binary64 → Binary64
  | .nan a, _ => .nan a
  | _, .nan b => .nan b
  | .inf _, .inf _ => .nan true
  | .inf a, .finite y => .inf (a ^^ y.neg)
  | .finite x, .inf b => ofMag (x.neg ^^ b) 0
  | .finite x, .finite y =>
    if y.mag = 0 then
      if x.mag = 0 then .nan true else .inf (x.neg ^^ y.neg)
    else
      ofRatio (x.neg ^^ y.neg) x.mag y.mag

instance : Div Binary64 where
  div := div

/-- `isnormal`: neither zero, nor subnormal, nor infinite, nor a NaN. -/
def isNormal : Binary64 → Bool
  | .finite x => 2 ^ 52 ≤ x.mag
  | _ => false

def isFinite : Binary64 → Bool
  | .finite _ => true
  | _ => false

/-- The integer part. -/
def toInt : Binary64 → Option Int
  | .finite x => some (if x.neg then -(x.mag / one : Nat) else (x.mag / one : Nat))
  | _ => none

/-- The cast to `int64_t`. C defines it where the integer part fits; elsewhere this is what x86-64
gives. -/
def toInt64 (x : Binary64) : Int :=
  match x.toInt with
  | some n => if -2 ^ 63 ≤ n ∧ n < 2 ^ 63 then n else -2 ^ 63
  | none => -2 ^ 63

/-- The order of C's `<=`: a NaN is in no order. -/
def le : Binary64 → Binary64 → Prop
  | .nan _, _ | _, .nan _ => False
  | .inf true, _ | _, .inf false => True
  | .inf false, _ | _, .inf true => False
  | .finite x, .finite y => x.units ≤ y.units

instance : LE Binary64 where
  le := le

theorem roundQuot_le (num den : Nat) : roundQuot num den ≤ num / den + 1 := by
  unfold roundQuot
  dsimp
  split
  . omega
  . split
    . omega
    . omega

theorem le_roundQuot (num den : Nat) : num / den ≤ roundQuot num den := by
  unfold roundQuot
  dsimp
  split
  . omega
  . split
    . omega
    . omega

theorem roundQuot_mul_right (n : Nat) {den : Nat} (h : 0 < den) : roundQuot (n * den) den = n := by
  unfold roundQuot
  simp [Nat.mul_div_cancel _ h, h]

theorem two_mul_roundQuot_sub_le (num : Nat) {den : Nat} (h : 0 < den)
    : 2 * |(roundQuot num den : Int) * den - num| ≤ den := by
  have hlt := Nat.mod_lt num h
  have hnum : (num : Int) = (num / den : Nat) * den + (num % den : Nat) := by
    have hdiv := Nat.div_add_mod num den
    rw [Nat.mul_comm] at hdiv
    exact_mod_cast hdiv.symm
  unfold roundQuot
  dsimp only
  generalize num / den = q at *
  generalize num % den = r at *
  have hdown : (q : Int) * den - num = -r := by
    rw [hnum]
    ring
  have hup : ((q + 1 : Nat) : Int) * den - num = den - r := by
    rw [hnum]
    push_cast
    ring
  split
  . rw [hdown, abs_neg, abs_of_nonneg (by omega)]
    omega
  . split
    . rw [hup, abs_of_nonneg (by omega)]
      omega
    . cases Nat.mod_two_eq_zero_or_one q with
      | inl heven =>
        rw [heven, Nat.add_zero, hdown, abs_neg, abs_of_nonneg (by omega)]
        omega
      | inr hodd =>
        rw [hodd, hup, abs_of_nonneg (by omega)]
        omega

theorem excess_le_of_lt {mag k : Nat} (h : mag < 2 ^ (53 + k)) : excess mag ≤ k := by
  unfold excess
  cases Nat.eq_zero_or_pos mag with
  | inl hzero =>
    subst hzero
    simp
  | inr hpos =>
    have : mag.log2 < 53 + k := (Nat.log2_lt (by omega)).mpr h
    omega

theorem mul_pow_mod_excess {q : Nat} (hq : q ≤ 2 ^ 53) (s : Nat)
    : (q * 2 ^ s) % 2 ^ excess (q * 2 ^ s) = 0 := by
  apply Nat.mod_eq_zero_of_dvd
  cases Nat.lt_or_eq_of_le hq with
  | inl hlt =>
    have hle : excess (q * 2 ^ s) ≤ s := by
      apply excess_le_of_lt
      rw [Nat.pow_add]
      exact Nat.mul_lt_mul_of_pos_right hlt (Nat.two_pow_pos s)
    exact Nat.dvd_trans (Nat.pow_dvd_pow 2 hle) (Nat.dvd_mul_left _ _)
  | inr heq =>
    rw [heq, ← Nat.pow_add]
    apply Nat.pow_dvd_pow
    unfold excess
    rw [Nat.log2_two_pow]
    omega

theorem roundMag_eq_self {mag : Nat} (h : Fits mag) : roundMag mag 1 = mag := by
  unfold roundMag
  simp only [Nat.div_one, Nat.one_mul]
  have hdvd : 2 ^ excess mag ∣ mag := Nat.dvd_of_mod_eq_zero h.1
  rcases hdvd with ⟨q, hq⟩
  have : roundQuot mag (2 ^ excess mag) = q := by
    rw [Nat.mul_comm] at hq
    calc
      roundQuot mag (2 ^ excess mag) = roundQuot (q * 2 ^ excess mag) (2 ^ excess mag) := by
        rw [← hq]
      _ = q := roundQuot_mul_right q (Nat.two_pow_pos _)
  rw [this, Nat.mul_comm]
  exact hq.symm

theorem mul_pow_le {n a b : Nat} (h : n ≤ 2 ^ 53) (hlt : a < b)
    : n * 2 ^ a ≤ (2 ^ 53 - 1) * 2 ^ b := by
  have hpow : 2 * 2 ^ a ≤ 2 ^ b := by
    rw [← pow_succ']
    exact Nat.pow_le_pow_right (by omega) hlt
  calc
    n * 2 ^ a ≤ ((2 ^ 53 - 1) * 2) * 2 ^ a := Nat.mul_le_mul_right _ (by omega)
    _ = (2 ^ 53 - 1) * (2 * 2 ^ a) := Nat.mul_assoc _ 2 _
    _ ≤ (2 ^ 53 - 1) * 2 ^ b := Nat.mul_le_mul_left _ hpow

theorem fits_mul_one {n : Nat} (h : n ≤ 2 ^ 53) : Fits (n * one) :=
  ⟨mul_pow_mod_excess h 1074, mul_pow_le h (by decide)⟩

theorem ofInt_eq_finite {n : Int} (h : n.natAbs ≤ 2 ^ 53)
    : ofInt n = .finite ⟨n < 0, n.natAbs * one, fits_mul_one h⟩ := by
  unfold ofInt ofRatio ofMag
  simp only [roundMag_eq_self (fits_mul_one h), fits_mul_one h, ↓reduceDIte]

theorem units_ofInt (n : Int) (h : Fits (n.natAbs * one))
    : Finite.units ⟨n < 0, n.natAbs * one, h⟩ = n * one := by
  unfold Finite.units
  push_cast
  split
  . next hneg =>
    have hlt : n < 0 := by simpa using hneg
    rw [abs_of_neg hlt, neg_mul, neg_neg]
  . next hneg =>
    have hle : 0 ≤ n := by simpa using hneg
    rw [abs_of_nonneg hle]

theorem ofInt_le_ofInt {m n : Int} (hm : m.natAbs ≤ 2 ^ 53) (hn : n.natAbs ≤ 2 ^ 53) (h : m ≤ n)
    : ofInt m ≤ ofInt n := by
  rw [ofInt_eq_finite hm, ofInt_eq_finite hn]
  change Finite.units _ ≤ Finite.units _
  rw [units_ofInt, units_ofInt]
  exact mul_le_mul_of_nonneg_right h (Int.natCast_nonneg one)

end Binary64
