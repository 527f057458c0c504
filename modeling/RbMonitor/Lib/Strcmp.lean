import Mathlib.Data.List.ReduceOption
import Mathlib.Data.Nat.Digits.Defs
import Mathlib.Order.Bounds.Basic
import Mathlib.Order.Compare
import RbMonitor.Lib.CString

/-!
This module contains the comparison of C strings, that of numbers which are written with leading
zeros, and searches that only compare.
-/

/-- The best of some elements, where there may be gaps. -/
def bestOf {α : Type} (better : α → Option α → Prop) [∀ a best, Decidable (better a best)]
    (elms : List (Option α)) (best : Option α) : Option α :=
  elms.foldl
    (fun best elm =>
      match elm with
      | none => best
      | some a => if better a best then some a else best)
    best

theorem bestOf_map {α β : Type} (f : α → β) (better : α → Option α → Prop)
    (better' : β → Option β → Prop) [∀ a best, Decidable (better a best)]
    [∀ b best, Decidable (better' b best)] (good : α → Prop)
    (hbetter : ∀ a best, good a → (∀ b ∈ best, good b) →
      (better' (f a) (best.map f) ↔ better a best))
    {elms : List (Option α)} (helms : ∀ a, some a ∈ elms → good a) (best : Option α)
    (hbest : ∀ b ∈ best, good b)
    : bestOf better' (elms.map (Option.map f)) (best.map f)
      = (elms.reduceOption.foldl (fun best a => if better a best then some a else best) best).map f := by
  unfold bestOf
  induction elms generalizing best with
  | nil => rfl
  | cons elm elms ih =>
    have hrest : ∀ a, some a ∈ elms → good a := fun a ha => helms a (List.mem_cons_of_mem elm ha)
    cases elm with
    | none => exact ih hrest best hbest
    | some a =>
      have ha := helms a List.mem_cons_self
      simp only [List.map_cons, Option.map_some, List.foldl_cons, List.reduceOption_cons_of_some]
      by_cases h : better a best
      . rw [if_pos h, if_pos ((hbetter a best ha hbest).mpr h)]
        have hgood : ∀ b ∈ some a, good b := by
          intro b hb
          cases hb
          exact ha
        exact ih hrest (some a) hgood
      . rw [if_neg h, if_neg (mt (hbetter a best ha hbest).mp h)]
        exact ih hrest best hbest

theorem isGreatest_of_isCofinalFor {α : Type} [PartialOrder α] {s t : Set α} {a : α}
    (h : IsGreatest s a) (hst : IsCofinalFor s t) (hts : IsCofinalFor t s)
    : IsGreatest t a := by
  refine ⟨?_, upperBounds_mono_of_isCofinalFor hts h.2⟩
  rcases hst h.1 with ⟨b, hb, hab⟩
  rcases hts hb with ⟨c, hc, hbc⟩
  have heq : a = b := le_antisymm hab (hbc.trans (h.2 hc))
  rw [heq]
  exact hb

theorem foldl_better_eq_some_iff {α : Type} [LinearOrder α] {p : α → Prop}
    {better : α → Option α → Prop} [∀ a best, Decidable (better a best)]
    (hbetter : ∀ a best, better a best ↔ p a ∧ ∀ b ∈ best, b < a) {elms : List α}
    {best : Option α} {b : α}
    : elms.foldl (fun best a => if better a best then some a else best) best = some b
        ↔ IsGreatest {a | a ∈ elms ∧ p a ∨ best = some a} b := by
  induction elms generalizing best with
  | nil =>
    cases best with
    | none => simp [IsGreatest]
    | some m =>
      have hset : {a | a ∈ ([] : List α) ∧ p a ∨ some m = some a} = {m} := by
        ext a
        simp [eq_comm]
      rw [List.foldl_nil, hset]
      constructor
      . intro h
        cases h
        exact isGreatest_singleton
      . intro h
        exact congrArg some h.1.symm
  | cons a elms ih =>
    rw [List.foldl_cons, ih]
    have hback : IsCofinalFor
        {c | c ∈ elms ∧ p c ∨ (if better a best then some a else best) = some c}
        {c | c ∈ a :: elms ∧ p c ∨ best = some c} := by
      apply IsCofinalFor.of_subset
      intro c hc
      cases hc with
      | inl hc => exact .inl ⟨List.mem_cons_of_mem a hc.1, hc.2⟩
      | inr hc =>
        split at hc
        . next hab =>
          cases hc
          exact .inl ⟨List.mem_cons_self, ((hbetter a best).mp hab).1⟩
        . exact .inr hc
    have hforth : IsCofinalFor {c | c ∈ a :: elms ∧ p c ∨ best = some c}
        {c | c ∈ elms ∧ p c ∨ (if better a best then some a else best) = some c} := by
      by_cases hab : better a best
      . rw [if_pos hab]
        rw [hbetter] at hab
        intro c hc
        rcases hc with ⟨hc, hc'⟩ | hc
        . cases List.mem_cons.mp hc with
          | inl heq => exact ⟨a, .inr rfl, le_of_eq heq⟩
          | inr hc => exact ⟨c, .inl ⟨hc, hc'⟩, le_refl c⟩
        . exact ⟨a, .inr rfl, le_of_lt (hab.2 c hc)⟩
      . rw [if_neg hab]
        rw [hbetter] at hab
        intro c hc
        rcases hc with ⟨hc, hc'⟩ | hc
        . cases List.mem_cons.mp hc with
          | inl heq =>
            subst heq
            simp only [hc', true_and, not_forall, not_lt] at hab
            rcases hab with ⟨m, hm, hle⟩
            exact ⟨m, .inr hm, hle⟩
          | inr hc => exact ⟨c, .inl ⟨hc, hc'⟩, le_refl c⟩
        . exact ⟨c, .inr hc, le_refl c⟩
    constructor
    . intro h
      exact isGreatest_of_isCofinalFor h hback hforth
    . intro h
      exact isGreatest_of_isCofinalFor h hforth hback

namespace CString

/-- `strcmp`. -/
def strcmp : CStr → CStr → Ordering
  | [], [] => .eq
  | [], _ :: _ => .lt
  | _ :: _, [] => .gt
  | a :: as, b :: bs => (compare a.toNat b.toNat).then (strcmp as bs)

/-- `strrchr`: the last occurrence, as the suffix that starts there. -/
def strrchr (s : CStr) (c : Char) : Option CStr :=
  match s with
  | [] => none
  | x :: xs =>
    match strrchr xs c with
    | some r => some r
    | none => if x = c then some (x :: xs) else none

/-- `snprintf` of a string to a buffer of `size` bytes. -/
def snprintfStr (size : Nat) (s : CStr) : CStr :=
  s.take (size - 1)

/-- `%0*d` of a natural number. -/
def zeroPadded (width n : Nat) : CStr :=
  List.replicate (width - (printNat n).length) '0' ++ printNat n

@[simp]
theorem strcmp_append_left (s a b : CStr) : strcmp (s ++ a) (s ++ b) = strcmp a b := by
  induction s with
  | nil => rfl
  | cons c s ih => simp [strcmp, ih]

theorem strrchr_eq_none {s : CStr} {c : Char} (h : c ∉ s) : strrchr s c = none := by
  induction s with
  | nil => rfl
  | cons x xs ih =>
    rw [List.mem_cons, not_or] at h
    rw [strrchr, ih h.2]
    simp [Ne.symm h.1]

theorem strrchr_append {s : CStr} {c : Char} (h : c ∉ s) (before : CStr)
    : strrchr (before ++ c :: s) c = some (c :: s) := by
  induction before with
  | nil => simp [strrchr, strrchr_eq_none h]
  | cons x xs ih => simp [strrchr, ih]

theorem snprintfStr_of_lt {size : Nat} {s : CStr} (h : s.length < size) : snprintfStr size s = s := by
  apply List.take_of_length_le
  omega

/-! ### Numbers -/

theorem natOfDigits_append_singleton (ds : List Char) (c : Char)
    : natOfDigits (ds ++ [c]) = 10 * natOfDigits ds + digitVal c := by
  simp [natOfDigits]

theorem natOfDigits_cons (c : Char) (ds : List Char)
    : natOfDigits (c :: ds) = digitVal c * 10 ^ ds.length + natOfDigits ds := by
  induction ds using List.reverseRecOn with
  | nil => simp [natOfDigits]
  | append_singleton ds d ih =>
    rw [← List.cons_append, natOfDigits_append_singleton, natOfDigits_append_singleton, ih,
      List.length_append, List.length_singleton, pow_succ]
    ring

theorem toNat_eq_of_isDigit {c : Char} (h : c.isDigit)
    : c.toNat = digitVal c + 48 ∧ digitVal c < 10 := by
  simp only [Char.isDigit, Bool.and_eq_true, decide_eq_true_eq, ge_iff_le, UInt32.le_iff_toNat_le] at h
  have hlow : 48 ≤ c.toNat := h.1
  have hhigh : c.toNat ≤ 57 := h.2
  have hzero : '0'.toNat = 48 := rfl
  unfold digitVal
  omega

theorem natOfDigits_lt {ds : List Char} (h : ∀ c ∈ ds, c.isDigit)
    : natOfDigits ds < 10 ^ ds.length := by
  induction ds with
  | nil => simp [natOfDigits]
  | cons c ds ih =>
    rw [List.forall_mem_cons] at h
    have hc := (toNat_eq_of_isDigit h.1).2
    have hds := ih h.2
    rw [natOfDigits_cons, List.length_cons, pow_succ]
    nlinarith

theorem compare_add_mul {a b x y n : Nat} (hx : x < n) (hy : y < n)
    : compare (a * n + x) (b * n + y) = (compare a b).then (compare x y) := by
  rcases Nat.lt_trichotomy a b with hlt | heq | hgt
  . have hmul : (a + 1) * n ≤ b * n := Nat.mul_le_mul_right n hlt
    rw [Nat.succ_mul] at hmul
    rw [compare_lt_iff_lt.mpr hlt, compare_lt_iff_lt.mpr (by omega)]
    rfl
  . subst heq
    rw [compare_eq_iff_eq.mpr (rfl : a = a)]
    simp only [Ordering.then]
    rcases Nat.lt_trichotomy x y with hlt | heq | hgt
    . rw [compare_lt_iff_lt.mpr hlt, compare_lt_iff_lt.mpr (by omega)]
    . rw [heq, compare_eq_iff_eq.mpr rfl, compare_eq_iff_eq.mpr rfl]
    . rw [compare_gt_iff_gt.mpr hgt, compare_gt_iff_gt.mpr (by omega)]
  . have hmul : (b + 1) * n ≤ a * n := Nat.mul_le_mul_right n hgt
    rw [Nat.succ_mul] at hmul
    rw [compare_gt_iff_gt.mpr hgt, compare_gt_iff_gt.mpr (by omega)]
    rfl

theorem strcmp_digits {as bs : List Char} (has : ∀ c ∈ as, c.isDigit) (hbs : ∀ c ∈ bs, c.isDigit)
    (hlen : as.length = bs.length)
    : strcmp as bs = compare (natOfDigits as) (natOfDigits bs) := by
  induction as generalizing bs with
  | nil =>
    cases List.eq_nil_of_length_eq_zero hlen.symm
    rfl
  | cons a as ih =>
    cases bs with
    | nil => cases hlen
    | cons b bs =>
      rw [List.forall_mem_cons] at has hbs
      rw [List.length_cons, List.length_cons, Nat.add_right_cancel_iff] at hlen
      have hlt := natOfDigits_lt has.2
      rw [hlen] at hlt
      rw [strcmp, ih has.2 hbs.2 hlen, natOfDigits_cons, natOfDigits_cons, hlen,
        compare_add_mul hlt (natOfDigits_lt hbs.2)]
      rcases toNat_eq_of_isDigit has.1 with ⟨ha, ha10⟩
      rcases toNat_eq_of_isDigit hbs.1 with ⟨hb, hb10⟩
      have hcompare := @compare_add_mul 1 1 (digitVal a) (digitVal b) 48 (by omega) (by omega)
      rw [ha, hb, Nat.add_comm _ 48, Nat.add_comm _ 48]
      exact congrArg (·.then (compare (natOfDigits as) (natOfDigits bs))) hcompare

theorem isDigit_of_mem_zeroPadded {width n : Nat} {c : Char} (h : c ∈ zeroPadded width n)
    : c.isDigit := by
  rw [zeroPadded, List.mem_append, List.mem_replicate] at h
  cases h with
  | inl hzero =>
    rw [hzero.2]
    rfl
  | inr hdigit => exact isDigit_of_mem_printNat hdigit

theorem natOfDigits_zeroPadded (width n : Nat) : natOfDigits (zeroPadded width n) = n := by
  unfold zeroPadded
  induction width - (printNat n).length with
  | zero => exact natOfDigits_printNat n
  | succ k ih =>
    rw [List.replicate_succ, List.cons_append, natOfDigits_cons, ih]
    simp [digitVal]

theorem length_zeroPadded {width n : Nat} (hwidth : 0 < width) (hn : n < 10 ^ width)
    : (zeroPadded width n).length = width := by
  have hle : (printNat n).length ≤ width := (Nat.length_toDigits_le_iff (by omega) hwidth).mpr hn
  rw [zeroPadded, List.length_append, List.length_replicate]
  omega

theorem strcmp_zeroPadded {width m n : Nat} (hwidth : 0 < width) (hm : m < 10 ^ width)
    (hn : n < 10 ^ width)
    : strcmp (zeroPadded width m) (zeroPadded width n) = compare m n := by
  rw [strcmp_digits (fun _ => isDigit_of_mem_zeroPadded) (fun _ => isDigit_of_mem_zeroPadded),
    natOfDigits_zeroPadded, natOfDigits_zeroPadded]
  rw [length_zeroPadded hwidth hm, length_zeroPadded hwidth hn]

end CString
