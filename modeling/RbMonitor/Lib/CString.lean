import Mathlib.Data.List.DropRight

/-!
This module contains C strings. A string is the list of its bytes before the terminator, each byte
written as the character with its code. A `char *` into a string is the suffix it points to.
-/

abbrev CStr := List Char

namespace CString

/-- The string that a reader of `bytes` sees: a NUL ends it. -/
def ofBytes (bytes : List Char) : CStr :=
  bytes.takeWhile (· ≠ '\x00')

/-- `isspace` in the C locale. -/
def isSpace (c : Char) : Bool :=
  c = ' ' || ('\t' ≤ c && c ≤ '\r')

def digitVal (c : Char) : Nat :=
  c.toNat - '0'.toNat

def natOfDigits (ds : List Char) : Nat :=
  ds.foldl (fun n c => 10 * n + digitVal c) 0

/-- First occurrence of `needle`, as the suffix of `haystack` that starts there. -/
def strstr (haystack needle : CStr) : Option CStr :=
  if needle.isPrefixOf haystack then
    some haystack
  else
    match haystack with
    | [] => none
    | _ :: rest => strstr rest needle

/-- `%lu` of a natural number. -/
def printNat (n : Nat) : CStr :=
  Nat.toDigits 10 n

/-- `%ld` of an integer. -/
def printInt (n : Int) : CStr :=
  if n < 0 then '-' :: printNat n.natAbs else printNat n.natAbs

theorem strstr_eq (haystack needle : CStr)
    : strstr haystack needle =
        if needle.isPrefixOf haystack then some haystack
        else haystack.tail?.bind (strstr · needle) := by
  cases haystack with
  | nil => rw [strstr]; rfl
  | cons c rest => rw [strstr]; rfl

theorem strstr_of_isPrefixOf {haystack needle : CStr} (h : needle.isPrefixOf haystack)
    : strstr haystack needle = some haystack := by
  rw [strstr_eq]
  simp [h]

@[simp]
theorem strstr_nil_right (haystack : CStr) : strstr haystack [] = some haystack := by
  apply strstr_of_isPrefixOf
  simp

theorem strstr_eq_some {haystack needle s : CStr} (h : strstr haystack needle = some s)
    : needle <+: s ∧ s <:+ haystack := by
  induction haystack with
  | nil =>
    rw [strstr] at h
    split at h
    . next hp =>
      simp only [Option.some.injEq] at h
      subst h
      exact ⟨by simpa using hp, List.suffix_rfl⟩
    . simp at h
  | cons c rest ih =>
    rw [strstr] at h
    split at h
    . next hp =>
      simp only [Option.some.injEq] at h
      subst h
      exact ⟨by simpa using hp, List.suffix_rfl⟩
    . have := ih h
      exact ⟨this.1, this.2.trans (List.suffix_cons c rest)⟩

theorem strstr_eq_none_iff {haystack needle : CStr}
    : strstr haystack needle = none ↔ ∀ s, s <:+ haystack → ¬ needle <+: s := by
  induction haystack with
  | nil =>
    rw [strstr]
    simp
  | cons c rest ih =>
    rw [strstr]
    split
    . next hp =>
      simp only [reduceCtorEq, false_iff]
      intro h
      exact h _ List.suffix_rfl (by simpa using hp)
    . next hp =>
      rw [ih]
      constructor
      . intro h s hs
        cases List.suffix_cons_iff.mp hs with
        | inl heq =>
          subst heq
          simpa using hp
        | inr hs => exact h s hs
      . intro h s hs
        exact h s (hs.trans (List.suffix_cons c rest))

theorem isDigit_of_mem_printNat {n : Nat} {c : Char} (h : c ∈ printNat n) : c.isDigit :=
  Nat.isDigit_of_mem_toDigits (by decide) (by decide) h

theorem natOfDigits_printNat (n : Nat) : natOfDigits (printNat n) = n :=
  Nat.ofDigitChars_ten_toDigits

end CString
