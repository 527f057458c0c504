import RbMonitor.Lib.StrtodReach

/-!
This module contains the decimal texts of numbers: how long they are, and what `strtod` makes of
those of integers.
-/

namespace Binary64

theorem pow_dvd_of_fits {mag k : Nat} (h : Fits mag) (hlarge : 2 ^ (53 + k) ≤ mag)
    : 2 ^ k ∣ mag := by
  have hne : mag ≠ 0 := by
    have := Nat.two_pow_pos (53 + k)
    omega
  have hexcess : k ≤ excess mag := by
    rw [← Nat.le_log2 hne] at hlarge
    unfold excess
    omega
  exact Nat.dvd_trans (Nat.pow_dvd_pow 2 hexcess) (Nat.dvd_of_mod_eq_zero h.1)

theorem one_dvd_of_fits {mag : Nat} (h : Fits mag) (hlarge : 2 ^ 53 * one ≤ mag) : one ∣ mag := by
  unfold one at *
  rw [← pow_add] at hlarge
  exact pow_dvd_of_fits h hlarge

theorem roundQuot_micros_lt_iff {mag : Nat} (h : Fits mag) {e : Nat} (he : 16 ≤ e)
    : roundQuot (mag * 10 ^ 6) one / 10 ^ 6 < 10 ^ e ↔ mag < 10 ^ e * one := by
  rw [Nat.div_lt_iff_lt_mul (by omega)]
  constructor
  . intro hlt
    have hle := le_roundQuot (mag * 10 ^ 6) one
    have hquot : mag * 10 ^ 6 / one < 10 ^ e * 10 ^ 6 := Nat.lt_of_le_of_lt hle hlt
    rw [Nat.div_lt_iff_lt_mul one_pos, Nat.mul_right_comm (10 ^ e) (10 ^ 6) one] at hquot
    exact Nat.lt_of_mul_lt_mul_right hquot
  . intro hlt
    cases Nat.lt_or_ge mag (2 ^ 53 * one) with
    | inl hsmall =>
      have hle := roundQuot_le (mag * 10 ^ 6) one
      have hquot : mag * 10 ^ 6 / one < 2 ^ 53 * 10 ^ 6 := by
        rw [Nat.div_lt_iff_lt_mul one_pos, Nat.mul_right_comm (2 ^ 53) (10 ^ 6) one]
        exact Nat.mul_lt_mul_of_pos_right hsmall (Nat.pow_pos (by decide))
      have hpow : 10 ^ 16 * 10 ^ 6 ≤ 10 ^ e * 10 ^ 6 :=
        Nat.mul_le_mul_right _ (Nat.pow_le_pow_right (by decide) he)
      clear hlt hsmall h
      omega
    | inr hlarge =>
      have hmag : mag / one * one = mag := Nat.div_mul_cancel (one_dvd_of_fits h hlarge)
      have hround : roundQuot (mag * 10 ^ 6) one = mag / one * 10 ^ 6 := by
        rw [← roundQuot_mul_right (mag / one * 10 ^ 6) one_pos,
          Nat.mul_right_comm (mag / one) (10 ^ 6) one, hmag]
      rw [hround]
      apply Nat.mul_lt_mul_of_pos_right _ (Nat.pow_pos (by decide))
      rw [Nat.div_lt_iff_lt_mul one_pos]
      exact hlt

end Binary64

namespace CString

theorem length_printNat_le_iff {n k : Nat} (hk : 0 < k) : (printNat n).length ≤ k ↔ n < 10 ^ k :=
  Nat.length_toDigits_le_iff (by omega) hk

/-- The number in units of the last of six decimals. -/
def roundedMillionths (x : Binary64.Finite) : Nat :=
  Binary64.roundQuot (x.mag * 10 ^ 6) Binary64.one

/-- The text with a sign or not and a number of millionths. -/
def lfText (neg : Bool) (millionths : Nat) : CStr :=
  (if neg then ['-'] else []) ++ printNat (millionths / 10 ^ 6) ++ '.' :: sixDigits millionths

theorem printLf_eq_lfText (x : Binary64.Finite)
    : printLf (.finite x) = lfText x.neg (roundedMillionths x) := rfl

theorem length_lfText (neg : Bool) (millionths : Nat)
    : (lfText neg millionths).length
        =
      (if neg then 1 else 0) + (printNat (millionths / 10 ^ 6)).length + 7 := by
  unfold lfText
  cases neg with
  | false => simp [sixDigits]
  | true =>
    simp [sixDigits]
    omega

theorem length_printLf_lt_iff (x : Binary64.Finite) {size : Nat} (hsize : 25 ≤ size)
    : (printLf (.finite x)).length < size
        ↔ x.mag < 10 ^ (size - 8 - if x.neg then 1 else 0) * Binary64.one := by
  have he : 16 ≤ size - 8 - if x.neg then 1 else 0 := by
    split <;> omega
  rw [printLf_eq_lfText, length_lfText, ← Binary64.roundQuot_micros_lt_iff x.fits he,
    ← length_printNat_le_iff (by omega)]
  unfold roundedMillionths
  split <;> omega

theorem printNat_ne_nil (n : Nat) : printNat n ≠ [] :=
  Nat.toDigits_ne_nil

theorem printNat_injective {m n : Nat} (h : printNat m = printNat n) : m = n := by
  rw [← natOfDigits_printNat m, ← natOfDigits_printNat n, h]

theorem printInt_ne_nil (n : Int) : printInt n ≠ [] := by
  unfold printInt
  split
  . exact List.cons_ne_nil _ _
  . exact printNat_ne_nil _

theorem printInt_natCast (n : Nat) : printInt n = printNat n := by
  have : ¬ (n : Int) < 0 := by omega
  simp [printInt, this]

theorem toLower_of_isDigit {c : Char} (h : c.isDigit) : c.toLower = c := by
  unfold Char.toLower
  rw [dif_neg]
  intro hupper
  simp only [Char.isDigit, Bool.and_eq_true, decide_eq_true_eq, UInt32.le_iff_toNat_le] at h
  simp only [ge_iff_le, UInt32.le_iff_toNat_le] at hupper
  exact absurd (Nat.le_trans hupper.1 h.2) (by decide)

theorem stripWord_of_isDigit {w c : Char} {word s : CStr} (hw : w.isDigit = false) (hc : c.isDigit)
    : stripWord (w :: word) (c :: s) = none := by
  have hne : c ≠ w := by
    intro heq
    rw [heq, hw] at hc
    cases hc
  simp [stripWord, toLower_of_isDigit hc, hne]

section

variable {digits : CStr} (hne : digits ≠ []) (hdigits : ∀ c ∈ digits, c.isDigit) (neg : Bool)

include hne hdigits

theorem strtodWord_of_isDigit : strtodWord neg digits = none := by
  cases digits with
  | nil => exact absurd rfl hne
  | cons c digits =>
    have hc := hdigits c List.mem_cons_self
    unfold strtodWord
    rw [stripWord_of_isDigit (by decide) hc, stripWord_of_isDigit (by decide) hc]

theorem strtodHex_of_isDigit : strtodHex neg digits = none := by
  have hword : stripWord ['0', 'x'] digits = none := by
    match digits with
    | [] => exact absurd rfl hne
    | [c] => simp [stripWord]
    | c :: d :: digits =>
      have hd := hdigits d (List.mem_cons_of_mem _ List.mem_cons_self)
      rw [stripWord, stripWord_of_isDigit (by decide) hd, ite_self]
  unfold strtodHex
  rw [hword]

theorem strtodDecimal_of_isDigit
    : strtodDecimal neg digits = some (.ofScaled neg (natOfDigits digits) 10 0 []) := by
  have hdrop : digits.dropWhile Char.isDigit = [] := List.dropWhile_eq_nil_iff.mpr hdigits
  have htake : digits.takeWhile Char.isDigit = digits := List.takeWhile_eq_self_iff.mpr hdigits
  have hscan : scanDigits Char.isDigit digits = (digits, [], []) := by
    unfold scanDigits
    rw [hdrop, htake]
  unfold strtodDecimal
  simp [hscan, hne, scanExponent]

theorem number_of_isDigit : number neg digits = some (.ofScaled neg (natOfDigits digits) 10 0 []) := by
  unfold number
  rw [strtodWord_of_isDigit hne hdigits, strtodHex_of_isDigit hne hdigits,
    strtodDecimal_of_isDigit hne hdigits]
  rfl

end

theorem isSpace_of_isDigit {c : Char} (h : c.isDigit) : isSpace c = false := by
  simp only [Char.isDigit, Bool.and_eq_true, decide_eq_true_eq] at h
  have hspace : c ≠ ' ' := by
    intro heq
    rw [heq] at h
    exact absurd h.1 (by decide)
  have hcr : ¬ c ≤ '\r' := by
    intro hle
    exact absurd (UInt32.le_trans h.1 hle) (by decide)
  simp [isSpace, hspace, hcr]

theorem stripSign_of_isDigit {c : Char} (h : c.isDigit) (s : CStr)
    : stripSign (c :: s) = (false, c :: s) := by
  unfold stripSign
  split
  . next heq =>
    cases heq
    cases h
  . next heq =>
    cases heq
    cases h
  . rfl

theorem stripSign_printInt (n : Int)
    : stripSign ((printInt n).dropWhile isSpace) = (decide (n < 0), printNat n.natAbs) := by
  unfold printInt
  split
  . next hneg => simp [stripSign, isSpace, hneg]
  . next hneg =>
    cases hdigits : printNat n.natAbs with
    | nil => exact absurd hdigits (printNat_ne_nil _)
    | cons c digits =>
      have hc : c.isDigit := isDigit_of_mem_printNat (hdigits ▸ List.mem_cons_self)
      rw [List.dropWhile_cons_of_neg (by simp [isSpace_of_isDigit hc]), stripSign_of_isDigit hc]
      simp [hneg]

theorem ofScaled_zero {n : Int} (h : n.natAbs ≤ 2 ^ 53)
    : Strtod.ofScaled (n < 0) n.natAbs 10 0 [] = ⟨Binary64.ofInt n, [], false⟩ := by
  have hfinite : (Binary64.ofInt n).isFinite := by
    rw [Binary64.ofInt_eq_finite h]
    rfl
  have hexact : Binary64.roundMag (n.natAbs * Binary64.one) 1 = n.natAbs * Binary64.one :=
    Binary64.roundMag_eq_self (Binary64.fits_mul_one h)
  have hunder : underflows n.natAbs 1 = false := by
    simp [underflows, hexact]
  have hvalue : Binary64.ofRatio (n < 0) n.natAbs 1 = Binary64.ofInt n := rfl
  simp [Strtod.ofScaled, hvalue, hfinite, hunder]

theorem strtod_printInt {n : Int} (h : n.natAbs ≤ 2 ^ 53)
    : strtod (printInt n) = ⟨Binary64.ofInt n, [], false⟩ := by
  have hdigits : ∀ c ∈ printNat n.natAbs, c.isDigit := fun c => isDigit_of_mem_printNat
  rw [strtod_eq, stripSign_printInt, number_of_isDigit (printNat_ne_nil _) hdigits,
    Option.getD_some, natOfDigits_printNat]
  exact ofScaled_zero h

end CString
