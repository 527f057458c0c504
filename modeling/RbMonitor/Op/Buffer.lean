import Mathlib.Algebra.Order.Field.Basic
import Mathlib.Tactic.Linarith
import RbMonitor.Lib.DecimalText
import RbMonitor.Op.Lemmas

/-!
This module contains which results of an operation fit the buffer that their text is printed to.
-/

namespace RbMonitor

open CString

/-- Above `-10 ^ 55` and below `10 ^ 56`, if it is finite. -/
def WithinLimit (number : Binary64) : Prop :=
  ∀ x, number = .finite x → -(10 ^ 55 : ℚ) < x.toRat ∧ x.toRat < 10 ^ 56

theorem toRat_of_neg {x : Binary64.Finite} (h : x.neg = true)
    : x.toRat = -(x.mag / Binary64.one : ℚ) := by
  unfold Binary64.Finite.toRat Binary64.Finite.units
  rw [if_pos h, Int.cast_neg, Int.cast_natCast, neg_div]

theorem toRat_of_not_neg {x : Binary64.Finite} (h : x.neg = false)
    : x.toRat = x.mag / Binary64.one := by
  unfold Binary64.Finite.toRat Binary64.Finite.units
  rw [h, if_neg Bool.false_ne_true, Int.cast_natCast]

theorem mag_div_lt_iff (x : Binary64.Finite) (e : Nat)
    : (x.mag / Binary64.one : ℚ) < 10 ^ e ↔ x.mag < 10 ^ e * Binary64.one := by
  have hpos : (0 : ℚ) < Binary64.one := Nat.cast_pos.mpr Binary64.one_pos
  rw [div_lt_iff₀ hpos]
  exact_mod_cast Iff.rfl

theorem length_printLf_lt_iff_withinLimit (x : Binary64.Finite)
    : (printLf (.finite x)).length < VAL_BUF_SIZE ↔ WithinLimit (.finite x) := by
  have hlimit : WithinLimit (.finite x) ↔ -(10 ^ 55 : ℚ) < x.toRat ∧ x.toRat < 10 ^ 56 := by
    constructor
    . intro h
      exact h x rfl
    . intro h y hy
      cases hy
      exact h
  have hnonneg : (0 : ℚ) ≤ x.mag / Binary64.one := by positivity
  rw [hlimit, length_printLf_lt_iff x (by decide)]
  cases hneg : x.neg with
  | false =>
    rw [toRat_of_not_neg hneg, mag_div_lt_iff]
    have hlow : -(10 ^ 55 : ℚ) < x.mag / Binary64.one := by linarith
    have hdigits : VAL_BUF_SIZE - 8 - (if false = true then 1 else 0) = 56 := rfl
    rw [hdigits]
    exact (and_iff_right hlow).symm
  | true =>
    rw [toRat_of_neg hneg, neg_lt_neg_iff, mag_div_lt_iff]
    have hhigh : -(x.mag / Binary64.one : ℚ) < 10 ^ 56 := by linarith
    have hdigits : VAL_BUF_SIZE - 8 - (if true = true then 1 else 0) = 55 := rfl
    rw [hdigits]
    exact (and_iff_left hhigh).symm

/-- The result of an operation fits its buffer exactly when it is not accepted or lies between
`-10 ^ 55` and `10 ^ 56`. -/
theorem resultFits_iff (lib : Matheval) (vars : LibmathevalVars) (monitor : Monitor)
    : ResultFits lib vars monitor
        ↔
      ((vars.evaluate lib monitor.cmdArg).isNormal →
        WithinLimit (vars.evaluate lib monitor.cmdArg)) := by
  unfold ResultFits
  dsimp only
  cases vars.evaluate lib monitor.cmdArg with
  | nan neg => simp [Binary64.isNormal]
  | inf neg => simp [Binary64.isNormal]
  | finite x => rw [Nat.add_one_le_iff, length_printLf_lt_iff_withinLimit]

/-- The operands of a sum: a command that prints a number of 60 digits, and one that prints 1. -/
def hugeVars : LibmathevalVars where
  names := [some "load_1".toList, some "load_5".toList]
  values := [(systemSolveResponse (some "1e60\n".toList)).2, (systemSolveResponse (some "1\n".toList)).2]
  count := 2

theorem not_resultFits_huge
    : ¬ ResultFits .sums hugeVars
        { type := .op, name := "load".toList, cmdArg := "load_1+load_5".toList } := by
  unfold ResultFits
  decide +kernel

end RbMonitor
