import Mathlib.Algebra.Order.Field.Basic
import Mathlib.Data.List.TakeWhile
import Mathlib.Tactic.FieldSimp
import Mathlib.Tactic.Linarith
import Mathlib.Tactic.NormNum
import RbMonitor.Lib.Strtod

/-!
This module contains the decoder of JSON texts, as lists of bytes.
-/

namespace JsonText

open CString

/-- The number `mantissa * 10 ^ exp`. -/
structure Decimal where
  mantissa : Int
  exp : Int
deriving DecidableEq

def Decimal.toRat (d : Decimal) : ℚ :=
  d.mantissa * 10 ^ d.exp

inductive Value where
  | null
  | bool (b : Bool)
  | number (d : Decimal)
  | string (s : CStr)
  | array (elms : List Value)
  | object (members : List (CStr × Value))

def isSpace (c : Char) : Bool :=
  c = ' ' || c = '\t' || c = '\n' || c = '\r'

def skipSpace (s : CStr) : CStr :=
  s.dropWhile isSpace

def hexVal (c : Char) : Option Nat :=
  if c.isDigit then
    some (digitVal c)
  else if 'a' ≤ c.toLower ∧ c.toLower ≤ 'f' then
    some (c.toLower.toNat - 'a'.toNat + 10)
  else
    none

/-- The bytes of a code point below `2 ^ 16`. -/
def utf8 (n : Nat) : CStr :=
  if n < 0x80 then
    [Char.ofNat n]
  else if n < 0x800 then
    [Char.ofNat (0xc0 + n / 0x40), Char.ofNat (0x80 + n % 0x40)]
  else
    [Char.ofNat (0xe0 + n / 0x1000), Char.ofNat (0x80 + n / 0x40 % 0x40),
      Char.ofNat (0x80 + n % 0x40)]

def unescape : Char → Option Char
  | '"' => some '"'
  | '\\' => some '\\'
  | '/' => some '/'
  | 'b' => some '\x08'
  | 'f' => some '\x0c'
  | 'n' => some '\n'
  | 'r' => some '\r'
  | 't' => some '\t'
  | _ => none

/-- A string after its opening quote, and what follows the closing one. Every `\u` escape is taken by
itself. -/
def parseString : CStr → Option (CStr × CStr)
  | [] => none
  | '"' :: rest => some ([], rest)
  | '\\' :: 'u' :: a :: b :: c :: d :: rest => do
    let n := 16 * (16 * (16 * (← hexVal a) + (← hexVal b)) + (← hexVal c)) + (← hexVal d)
    let (s, rest) ← parseString rest
    return (utf8 n ++ s, rest)
  | '\\' :: e :: rest => do
    let c ← unescape e
    let (s, rest) ← parseString rest
    return (c :: s, rest)
  | c :: rest => do
    if c < ' ' ∨ c = '\\' then
      none
    else
      let (s, rest) ← parseString rest
      return (c :: s, rest)

def parseInt (s : CStr) : Option (List Char × CStr) :=
  match s.takeWhile Char.isDigit with
  | [] | '0' :: _ :: _ => none
  | digits => some (digits, s.dropWhile Char.isDigit)

def parseFrac : CStr → Option (List Char × CStr)
  | '.' :: s =>
    match s.takeWhile Char.isDigit with
    | [] => none
    | digits => some (digits, s.dropWhile Char.isDigit)
  | s => some ([], s)

def parseExpDigits (neg : Bool) (s : CStr) : Option (Int × CStr) :=
  match s.takeWhile Char.isDigit with
  | [] => none
  | digits =>
    let n : Int := natOfDigits digits
    some (if neg then -n else n, s.dropWhile Char.isDigit)

def parseExpSign : CStr → Option (Int × CStr)
  | '-' :: s => parseExpDigits true s
  | '+' :: s => parseExpDigits false s
  | s => parseExpDigits false s

def parseExp : CStr → Option (Int × CStr)
  | 'e' :: s | 'E' :: s => parseExpSign s
  | s => some (0, s)

def parseUnsigned (neg : Bool) (s : CStr) : Option (Decimal × CStr) := do
  let (int, s) ← parseInt s
  let (frac, s) ← parseFrac s
  let (exp, s) ← parseExp s
  let mantissa : Int := natOfDigits (int ++ frac)
  return (⟨if neg then -mantissa else mantissa, exp - frac.length⟩, s)

def parseNumber : CStr → Option (Decimal × CStr)
  | '-' :: s => parseUnsigned true s
  | s => parseUnsigned false s

def parseScalar : CStr → Option (Value × CStr)
  | 'n' :: 'u' :: 'l' :: 'l' :: s => some (.null, s)
  | 't' :: 'r' :: 'u' :: 'e' :: s => some (.bool true, s)
  | 'f' :: 'a' :: 'l' :: 's' :: 'e' :: s => some (.bool false, s)
  | '"' :: s => (parseString s).map fun (str, s) => (.string str, s)
  | s => (parseNumber s).map fun (d, s) => (.number d, s)

mutual

/-- A value at the start of `s`, with `fuel` at least the number of values in it. -/
def parseValue (fuel : Nat) (s : CStr) : Option (Value × CStr) :=
  match fuel with
  | 0 => none
  | fuel + 1 =>
    match s with
    | '\x7b' :: s =>
      match skipSpace s with
      | '\x7d' :: s => some (.object [], s)
      | s => (parseMembers fuel s).map fun (members, s) => (.object members, s)
    | '[' :: s =>
      match skipSpace s with
      | ']' :: s => some (.array [], s)
      | s => (parseElms fuel s).map fun (elms, s) => (.array elms, s)
    | s => parseScalar s

def parseMembers (fuel : Nat) (s : CStr) : Option (List (CStr × Value) × CStr) :=
  match fuel with
  | 0 => none
  | fuel + 1 =>
    match s with
    | '"' :: s =>
      match parseString s with
      | none => none
      | some (key, s) =>
        match skipSpace s with
        | ':' :: s =>
          match parseValue fuel (skipSpace s) with
          | none => none
          | some (val, s) =>
            match skipSpace s with
            | '\x7d' :: s => some ([(key, val)], s)
            | ',' :: s =>
              (parseMembers fuel (skipSpace s)).map fun (members, s) => ((key, val) :: members, s)
            | _ => none
        | _ => none
    | _ => none

def parseElms (fuel : Nat) (s : CStr) : Option (List Value × CStr) :=
  match fuel with
  | 0 => none
  | fuel + 1 =>
    match parseValue fuel s with
    | none => none
    | some (val, s) =>
      match skipSpace s with
      | ']' :: s => some ([val], s)
      | ',' :: s => (parseElms fuel (skipSpace s)).map fun (elms, s) => (val :: elms, s)
      | _ => none

end

/-- The value of a JSON text; `none` if it is not well formed. -/
def decode (s : CStr) : Option Value :=
  match parseValue (2 * s.length + 1) (skipSpace s) with
  | none => none
  | some (val, rest) => if skipSpace rest = [] then some val else none

/-- Nothing in the string needs an escape. -/
def Plain (s : CStr) : Prop :=
  ∀ c ∈ s, c ≠ '"' ∧ c ≠ '\\' ∧ ¬c < ' '

instance (s : CStr) : Decidable (Plain s) :=
  List.decidableBAll _ s

/-- What may follow a member of an object. -/
def Delimited (s : CStr) : Prop :=
  ∀ c ∈ s.head?, c = ',' ∨ c = '\x7d'

theorem delimited_nil : Delimited [] := by
  simp [Delimited]

theorem delimited_cons {c : Char} {s : CStr} (h : c = ',' ∨ c = '\x7d') : Delimited (c :: s) := by
  simpa [Delimited] using h

theorem Plain.append {s t : CStr} (hs : Plain s) (ht : Plain t) : Plain (s ++ t) := by
  intro c hc
  cases List.mem_append.mp hc with
  | inl h => exact hs c h
  | inr h => exact ht c h

theorem parseString_plain {s : CStr} (h : Plain s) (rest : CStr)
    : parseString (s ++ '"' :: rest) = some (s, rest) := by
  induction s with
  | nil => simp [parseString]
  | cons c s ih =>
    have hs : Plain s := fun x hx => h x (List.mem_cons_of_mem c hx)
    rcases h c List.mem_cons_self with ⟨hquote, hbackslash, hcontrol⟩
    rw [List.cons_append, parseString.eq_5]
    . simp [hcontrol, hbackslash, ih hs]
    . exact hquote
    . intro a b c d e heq
      exact absurd heq hbackslash
    . intro a b heq
      exact absurd heq hbackslash

section

variable {rest : CStr} {p : Char → Bool}

theorem takeWhile_append (h : ∀ c ∈ rest.head?, p c = false) (s : CStr)
    : (s ++ rest).takeWhile p = s.takeWhile p := by
  induction s with
  | nil =>
    cases rest with
    | nil => rfl
    | cons c rest => simp [h c rfl]
  | cons c s ih => simp [List.takeWhile_cons, ih]

theorem dropWhile_append (h : ∀ c ∈ rest.head?, p c = false) (s : CStr)
    : (s ++ rest).dropWhile p = s.dropWhile p ++ rest := by
  induction s with
  | nil =>
    cases rest with
    | nil => rfl
    | cons c rest => simp [h c rfl]
  | cons c s ih =>
    simp only [List.cons_append, List.dropWhile_cons, ih]
    split
    . rfl
    . rfl

theorem Delimited.not_digit (h : Delimited rest) : ∀ c ∈ rest.head?, c.isDigit = false := by
  intro c hc
  cases h c hc with
  | inl heq => simp [heq]
  | inr heq => simp [heq]

theorem parseInt_append (h : Delimited rest) {s t : CStr} {digits : List Char}
    (hs : parseInt s = some (digits, t))
    : parseInt (s ++ rest) = some (digits, t ++ rest) := by
  unfold parseInt at hs ⊢
  rw [takeWhile_append h.not_digit, dropWhile_append h.not_digit]
  split at hs
  . cases hs
  . cases hs
  . cases hs
    rfl

theorem Delimited.eq_cons_of_append (h : Delimited rest) {c : Char} {s t : CStr}
    (hc : c ≠ ',' ∧ c ≠ '\x7d') (heq : s ++ rest = c :: t)
    : ∃ s', s = c :: s' := by
  cases s with
  | nil =>
    have hhead : c ∈ rest.head? := by
      rw [List.nil_append] at heq
      rw [heq]
      rfl
    cases h c hhead with
    | inl hcomma => exact absurd hcomma hc.1
    | inr hbrace => exact absurd hbrace hc.2
  | cons d s' =>
    cases heq
    exact ⟨s', rfl⟩

theorem parseFrac_append (h : Delimited rest) {s t : CStr} {digits : List Char}
    (hs : parseFrac s = some (digits, t))
    : parseFrac (s ++ rest) = some (digits, t ++ rest) := by
  unfold parseFrac at hs
  split at hs
  . next s =>
    rw [List.cons_append]
    simp only [parseFrac]
    rw [takeWhile_append h.not_digit, dropWhile_append h.not_digit]
    split at hs
    . cases hs
    . cases hs
      rfl
  . next hdot =>
    cases hs
    unfold parseFrac
    split
    . next s' heq =>
      rcases h.eq_cons_of_append (by decide) heq with ⟨s'', hs''⟩
      exact absurd hs'' (hdot s'')
    . rfl

theorem parseExpDigits_append (h : Delimited rest) {neg : Bool} {s t : CStr} {exp : Int}
    (hs : parseExpDigits neg s = some (exp, t))
    : parseExpDigits neg (s ++ rest) = some (exp, t ++ rest) := by
  unfold parseExpDigits at hs ⊢
  rw [takeWhile_append h.not_digit, dropWhile_append h.not_digit]
  split at hs
  . cases hs
  . cases hs
    rfl

theorem parseExpSign_append (h : Delimited rest) {s t : CStr} {exp : Int}
    (hs : parseExpSign s = some (exp, t))
    : parseExpSign (s ++ rest) = some (exp, t ++ rest) := by
  unfold parseExpSign at hs
  split at hs
  . exact parseExpDigits_append h hs
  . exact parseExpDigits_append h hs
  . next hminus hplus =>
    unfold parseExpSign
    split
    . next s' heq =>
      rcases h.eq_cons_of_append (by decide) heq with ⟨s'', hs''⟩
      exact absurd hs'' (hminus s'')
    . next s' heq =>
      rcases h.eq_cons_of_append (by decide) heq with ⟨s'', hs''⟩
      exact absurd hs'' (hplus s'')
    . exact parseExpDigits_append h hs

theorem parseExp_append (h : Delimited rest) {s t : CStr} {exp : Int}
    (hs : parseExp s = some (exp, t))
    : parseExp (s ++ rest) = some (exp, t ++ rest) := by
  unfold parseExp at hs
  split at hs
  . exact parseExpSign_append h hs
  . exact parseExpSign_append h hs
  . next hlower hupper =>
    cases hs
    unfold parseExp
    split
    . next s' heq =>
      rcases h.eq_cons_of_append (by decide) heq with ⟨s'', hs''⟩
      exact absurd hs'' (hlower s'')
    . next s' heq =>
      rcases h.eq_cons_of_append (by decide) heq with ⟨s'', hs''⟩
      exact absurd hs'' (hupper s'')
    . rfl

theorem parseUnsigned_append (h : Delimited rest) {neg : Bool} {s t : CStr} {d : Decimal}
    (hs : parseUnsigned neg s = some (d, t))
    : parseUnsigned neg (s ++ rest) = some (d, t ++ rest) := by
  simp only [parseUnsigned, Option.bind_eq_bind, Option.bind_eq_some_iff, Option.pure_def,
    Option.some.injEq, Prod.mk.injEq, Prod.exists] at hs
  rcases hs with ⟨int, s₁, hint, frac, s₂, hfrac, exp, s₃, hexp, hd, ht⟩
  subst hd ht
  simp [parseUnsigned, parseInt_append h hint, parseFrac_append h hfrac, parseExp_append h hexp]

theorem parseNumber_append (h : Delimited rest) {s t : CStr} {d : Decimal}
    (hs : parseNumber s = some (d, t))
    : parseNumber (s ++ rest) = some (d, t ++ rest) := by
  unfold parseNumber at hs
  split at hs
  . exact parseUnsigned_append h hs
  . next hminus =>
    unfold parseNumber
    split
    . next s' heq =>
      rcases h.eq_cons_of_append (by decide) heq with ⟨s'', hs''⟩
      exact absurd hs'' (hminus s'')
    . exact parseUnsigned_append h hs

theorem head_of_parseNumber {c : Char} {s t : CStr} {d : Decimal}
    (h : parseNumber (c :: s) = some (d, t))
    : c = '-' ∨ c.isDigit := by
  unfold parseNumber at h
  split at h
  . next heq =>
    cases heq
    exact .inl rfl
  . right
    simp only [parseUnsigned, Option.bind_eq_bind, Option.bind_eq_some_iff, Prod.exists] at h
    rcases h with ⟨int, s₁, hint, _⟩
    unfold parseInt at hint
    cases hdigit : c.isDigit with
    | true => rfl
    | false => simp [hdigit] at hint

end

section

theorem head_printNat {n : Nat} (hn : 0 < n) : (printNat n).head? ≠ some '0' := by
  induction n using Nat.strongRecOn with
  | ind n ih =>
    unfold printNat
    cases Nat.lt_or_ge n 10 with
    | inl hlt =>
      rw [Nat.toDigits_of_lt_base hlt]
      simpa using Nat.ne_of_gt hn
    | inr hge =>
      rw [Nat.toDigits_of_base_le (by decide) hge]
      have hne : Nat.toDigits 10 (n / 10) ≠ [] := Nat.toDigits_ne_nil
      rw [List.head?_append_of_ne_nil _ hne]
      exact ih (n / 10) (by omega) (by omega)

theorem printNat_ne_zero_cons (n : Nat) (c : Char) (s : CStr) : printNat n ≠ '0' :: c :: s := by
  intro h
  cases Nat.eq_zero_or_pos n with
  | inl hzero =>
    subst hzero
    simp [printNat] at h
  | inr hpos =>
    apply head_printNat hpos
    rw [h]
    rfl

theorem parseInt_printNat (n : Nat) {t : CStr} (ht : ∀ c ∈ t.head?, c.isDigit = false)
    : parseInt (printNat n ++ t) = some (printNat n, t) := by
  have hself : (printNat n).takeWhile Char.isDigit = printNat n := by
    apply List.takeWhile_eq_self_iff.mpr
    exact fun c hc => isDigit_of_mem_printNat hc
  have hnil : (printNat n).dropWhile Char.isDigit = [] := by
    apply List.dropWhile_eq_nil_iff.mpr
    exact fun c hc => isDigit_of_mem_printNat hc
  unfold parseInt
  rw [takeWhile_append ht, dropWhile_append ht, hself, hnil]
  split
  . next h => exact absurd h Nat.toDigits_ne_nil
  . next h => exact absurd h (printNat_ne_zero_cons n _ _)
  . rfl

theorem parseUnsigned_printNat (neg : Bool) (n : Nat)
    : parseUnsigned neg (printNat n) = some (⟨if neg then -n else n, 0⟩, []) := by
  have hint : parseInt (printNat n) = some (printNat n, []) := by
    simpa using parseInt_printNat n (t := []) (by simp)
  simp [parseUnsigned, hint, parseFrac, parseExp, natOfDigits_printNat]

theorem natOfDigits_append (xs ys : List Char)
    : natOfDigits (xs ++ ys) = natOfDigits xs * 10 ^ ys.length + natOfDigits ys := by
  have happend : natOfDigits (xs ++ ys) = Nat.ofDigitChars 10 ys (natOfDigits xs) :=
    Nat.ofDigitChars_append 0
  rw [happend, Nat.ofDigitChars_eq_ofDigitChars_zero, Nat.mul_comm]
  rfl

theorem isDigit_of_mem_sixDigits {n : Nat} {c : Char} (h : c ∈ sixDigits n) : c.isDigit := by
  rcases List.mem_map.mp h with ⟨d, hd, heq⟩
  rw [← heq, Nat.isDigit_digitChar]
  simp only [List.mem_cons, List.not_mem_nil, or_false] at hd
  simp only [decide_eq_true_eq]
  omega

theorem natOfDigits_sixDigits (n : Nat) : natOfDigits (sixDigits n) = n % 10 ^ 6 := by
  have hdigit : ∀ k, digitVal (k % 10).digitChar = k % 10 := by
    intro k
    exact Nat.toNat_digitChar_sub_48_of_lt_ten (Nat.mod_lt k (by decide))
  simp only [natOfDigits, sixDigits, List.map_cons, List.map_nil, List.foldl_cons, List.foldl_nil,
    hdigit]
  omega

theorem parseFrac_sixDigits (n : Nat) : parseFrac ('.' :: sixDigits n) = some (sixDigits n, []) := by
  have hself : (sixDigits n).takeWhile Char.isDigit = sixDigits n := by
    apply List.takeWhile_eq_self_iff.mpr
    exact fun c hc => isDigit_of_mem_sixDigits hc
  have hnil : (sixDigits n).dropWhile Char.isDigit = [] := by
    apply List.dropWhile_eq_nil_iff.mpr
    exact fun c hc => isDigit_of_mem_sixDigits hc
  unfold parseFrac
  simp only [hself, hnil]
  split
  . next h => simp [sixDigits] at h
  . rfl

theorem parseUnsigned_sixDigits (neg : Bool) (micros : Nat)
    : parseUnsigned neg (printNat (micros / 10 ^ 6) ++ '.' :: sixDigits micros) =
        some (⟨if neg then -micros else micros, -6⟩, []) := by
  have hint := parseInt_printNat (micros / 10 ^ 6) (t := '.' :: sixDigits micros) (by simp)
  have hmicros : natOfDigits (printNat (micros / 10 ^ 6) ++ sixDigits micros) = micros := by
    rw [natOfDigits_append, natOfDigits_printNat, natOfDigits_sixDigits]
    simp only [sixDigits, List.length_map, List.length_cons, List.length_nil]
    omega
  simp only [parseUnsigned, hint, parseFrac_sixDigits, parseExp, Option.bind_eq_bind,
    Option.bind_some, hmicros]
  simp [sixDigits]

end

theorem parseNumber_of_isDigit {c : Char} (h : c.isDigit) (s : CStr)
    : parseNumber (c :: s) = parseUnsigned false (c :: s) := by
  unfold parseNumber
  split
  . next heq =>
    cases heq
    cases h
  . rfl

theorem parseNumber_printNat_append {n : Nat} {s : CStr}
    : parseNumber (printNat n ++ s) = parseUnsigned false (printNat n ++ s) := by
  cases hn : printNat n with
  | nil => exact absurd hn Nat.toDigits_ne_nil
  | cons c digits =>
    apply parseNumber_of_isDigit
    apply isDigit_of_mem_printNat (n := n)
    rw [hn]
    exact List.mem_cons_self

theorem parseNumber_printNat (n : Nat) : parseNumber (printNat n) = some (⟨n, 0⟩, []) := by
  rw [← List.append_nil (printNat n), parseNumber_printNat_append, List.append_nil,
    parseUnsigned_printNat]
  rfl

theorem parseNumber_printInt (n : Int) : parseNumber (printInt n) = some (⟨n, 0⟩, []) := by
  unfold printInt
  split
  . have habs : -(n.natAbs : Int) = n := by omega
    rw [parseNumber, parseUnsigned_printNat]
    simp only [↓reduceIte, habs]
  . have habs : (n.natAbs : Int) = n := by omega
    rw [parseNumber_printNat, habs]

/-- What `%lf` prints for a finite number, in millionths. -/
def micros (x : Binary64.Finite) : Int :=
  let n : Int := Binary64.roundQuot (x.mag * 10 ^ 6) Binary64.one
  if x.neg then -n else n

theorem parseNumber_sixDigits (neg : Bool) (n : Nat)
    : parseNumber ((if neg then ['-'] else []) ++ (printNat (n / 10 ^ 6) ++ '.' :: sixDigits n)) =
        some (⟨if neg then -n else n, -6⟩, []) := by
  cases neg with
  | true =>
    simp only [↓reduceIte, List.cons_append, List.nil_append]
    rw [parseNumber, parseUnsigned_sixDigits]
    simp only [↓reduceIte]
  | false =>
    simp only [Bool.false_eq_true, ↓reduceIte, List.nil_append]
    rw [parseNumber_printNat_append, parseUnsigned_sixDigits]
    simp only [Bool.false_eq_true, ↓reduceIte]

theorem printLf_finite (x : Binary64.Finite)
    : printLf (.finite x) =
        (if x.neg then ['-'] else []) ++
          (printNat (Binary64.roundQuot (x.mag * 10 ^ 6) Binary64.one / 10 ^ 6) ++
            '.' :: sixDigits (Binary64.roundQuot (x.mag * 10 ^ 6) Binary64.one)) := by
  simp only [printLf, List.append_assoc]

theorem micros_eq (x : Binary64.Finite)
    : micros x =
        if x.neg then -(Binary64.roundQuot (x.mag * 10 ^ 6) Binary64.one : Int)
        else Binary64.roundQuot (x.mag * 10 ^ 6) Binary64.one := by
  rfl

theorem parseNumber_printLf (x : Binary64.Finite)
    : parseNumber (printLf (.finite x)) = some (⟨micros x, -6⟩, []) := by
  rw [printLf_finite, parseNumber_sixDigits, micros_eq]

theorem abs_toRat_sub_le {m u : Int} {den : Nat} (hden : 0 < den)
    (h : 2 * |m * den - u * 10 ^ 6| ≤ (den : Int))
    : |(⟨m, -6⟩ : Decimal).toRat - u / den| ≤ 1 / 2 / 10 ^ 6 := by
  have hpos : (0 : ℚ) < den := by exact_mod_cast hden
  have hquot : (⟨m, -6⟩ : Decimal).toRat - u / den
      = ((m * den - u * 10 ^ 6 : Int) : ℚ) / (10 ^ 6 * den) := by
    simp only [Decimal.toRat, zpow_neg]
    push_cast
    field_simp
    norm_num
    ring
  have hcast : 2 * |((m * den - u * 10 ^ 6 : Int) : ℚ)| ≤ den := by
    exact_mod_cast h
  rw [hquot, abs_div, abs_of_pos (by positivity : (0 : ℚ) < 10 ^ 6 * den),
    div_le_iff₀ (by positivity)]
  generalize |((m * den - u * 10 ^ 6 : Int) : ℚ)| = a at hcast ⊢
  calc
    a ≤ den / 2 := by linarith
    _ = 1 / 2 / 10 ^ 6 * (10 ^ 6 * den) := by ring

theorem abs_micros_sub_le (x : Binary64.Finite)
    : |(⟨micros x, -6⟩ : Decimal).toRat - x.toRat| ≤ 1 / 2 / 10 ^ 6 := by
  have hone := Binary64.one_pos
  have hround := Binary64.two_mul_roundQuot_sub_le (x.mag * 10 ^ 6) hone
  unfold Binary64.Finite.toRat
  apply abs_toRat_sub_le hone
  rw [micros_eq]
  unfold Binary64.Finite.units
  generalize Binary64.roundQuot (x.mag * 10 ^ 6) Binary64.one = n at hround ⊢
  generalize Binary64.one = den at hround ⊢
  push_cast at hround
  cases x.neg with
  | true =>
    have hneg : -(n : Int) * den - -(x.mag : Int) * 10 ^ 6 = -(n * den - x.mag * 10 ^ 6) := by ring
    simp only [↓reduceIte]
    rw [hneg, abs_neg]
    exact hround
  | false =>
    simpa using hround

/-- The text is read as the value wherever a member may end after it. -/
def Reads (text : CStr) (val : Value) : Prop :=
  ∀ rest, Delimited rest → ∀ fuel,
    parseValue (fuel + 1) (skipSpace (text ++ rest)) = some (val, rest)

theorem skipSpace_cons {c : Char} (h : isSpace c = false) (s : CStr)
    : skipSpace (c :: s) = c :: s := by
  simp [skipSpace, h]

theorem Delimited.skipSpace_eq {s : CStr} (h : Delimited s) : skipSpace s = s := by
  cases s with
  | nil => rfl
  | cons c s =>
    apply skipSpace_cons
    cases h c rfl with
    | inl heq =>
      subst heq
      decide
    | inr heq =>
      subst heq
      decide

theorem reads_null : Reads "null".toList .null := by
  intro rest _ fuel
  rfl

theorem reads_true : Reads "true".toList (.bool true) := by
  intro rest _ fuel
  rfl

theorem reads_false : Reads "false".toList (.bool false) := by
  intro rest _ fuel
  rfl

theorem reads_string {s : CStr} (h : Plain s) : Reads ('"' :: (s ++ ['"'])) (.string s) := by
  intro rest _ fuel
  rw [List.cons_append, List.append_assoc, skipSpace_cons (by decide)]
  have hparse := parseString_plain h rest
  simp [parseValue, parseScalar, hparse]

theorem parseValue_of_number {c : Char} (h : c = '-' ∨ c.isDigit) (s : CStr) (fuel : Nat)
    : parseValue (fuel + 1) (c :: s) =
        (parseNumber (c :: s)).map fun (d, s) => (.number d, s) := by
  unfold parseValue
  split
  . next heq =>
    cases heq
    exact absurd h (by decide)
  . next heq =>
    cases heq
    exact absurd h (by decide)
  . unfold parseScalar
    split
    . next heq =>
      cases heq
      exact absurd h (by decide)
    . next heq =>
      cases heq
      exact absurd h (by decide)
    . next heq =>
      cases heq
      exact absurd h (by decide)
    . next heq =>
      cases heq
      exact absurd h (by decide)
    . rfl

theorem isSpace_of_number {c : Char} (h : c = '-' ∨ c.isDigit) : isSpace c = false := by
  cases hspace : isSpace c with
  | false => rfl
  | true =>
    simp only [isSpace, Bool.or_eq_true, decide_eq_true_eq] at hspace
    rcases hspace with ((heq | heq) | heq) | heq
    . subst heq
      exact absurd h (by decide)
    . subst heq
      exact absurd h (by decide)
    . subst heq
      exact absurd h (by decide)
    . subst heq
      exact absurd h (by decide)

theorem reads_number {s : CStr} {d : Decimal} (h : parseNumber s = some (d, []))
    : Reads s (.number d) := by
  intro rest hrest fuel
  have happend := parseNumber_append hrest h
  cases s with
  | nil => cases h
  | cons c s =>
    have hc := head_of_parseNumber h
    rw [List.cons_append] at happend ⊢
    rw [skipSpace_cons (isSpace_of_number hc), parseValue_of_number hc, happend]
    rfl

theorem decode_of_reads {s : CStr} {val : Value} (h : Reads s val) : decode s = some val := by
  have hread := h [] delimited_nil (2 * s.length)
  rw [List.append_nil] at hread
  unfold decode
  rw [hread]
  rfl

/-- A member of an object as it is printed without any space. -/
structure Member where
  key : CStr
  text : CStr
  val : Value

def Member.print (m : Member) : CStr :=
  '"' :: (m.key ++ '"' :: ':' :: m.text)

structure Member.Ok (m : Member) : Prop where
  key : Plain m.key
  text : Reads m.text m.val

theorem parseMembers_member {m : Member} (h : m.Ok) (fuel : Nat)
    : ∀ rest : CStr, Delimited rest → parseMembers (fuel + 2) (m.print ++ rest) =
        match rest with
        | '\x7d' :: s => some ([(m.key, m.val)], s)
        | ',' :: s =>
          (parseMembers (fuel + 1) (skipSpace s)).map fun (members, s) =>
            ((m.key, m.val) :: members, s)
        | _ => none := by
  intro rest hrest
  have hstring := parseString_plain h.key (':' :: (m.text ++ rest))
  have hvalue := h.text rest hrest fuel
  have hprint : m.print ++ rest = '"' :: (m.key ++ '"' :: (':' :: (m.text ++ rest))) := by
    simp [Member.print]
  rw [hprint, parseMembers]
  simp only [hstring, skipSpace_cons (show isSpace ':' = false by decide), hvalue,
    hrest.skipSpace_eq]

theorem skipSpace_print (m : Member) (rest : CStr)
    : skipSpace (m.print ++ rest) = m.print ++ rest := by
  unfold Member.print
  rw [List.cons_append]
  exact skipSpace_cons (by decide) _

theorem parseMembers_print {m : Member} {ms : List Member} (h : ∀ m' ∈ m :: ms, m'.Ok)
    (rest : CStr) (fuel : Nat)
    : parseMembers (ms.length + fuel + 2)
        (m.print ++ (ms.flatMap (',' :: ·.print) ++ '\x7d' :: rest)) =
        some ((m :: ms).map fun m' => (m'.key, m'.val), rest) := by
  induction ms generalizing m with
  | nil =>
    rw [List.flatMap_nil, List.nil_append,
      parseMembers_member (h m List.mem_cons_self) _ _ (delimited_cons (.inr rfl))]
    rfl
  | cons m₂ ms ih =>
    have hm₂ : ∀ m' ∈ m₂ :: ms, m'.Ok := fun m' hm' => h m' (List.mem_cons_of_mem m hm')
    rw [List.flatMap_cons, List.cons_append, List.cons_append,
      parseMembers_member (h m List.mem_cons_self) _ _ (delimited_cons (.inl rfl))]
    have hfuel : (m₂ :: ms).length + fuel + 1 = ms.length + fuel + 2 := by
      rw [List.length_cons]
      omega
    simp only [List.append_assoc, skipSpace_print, hfuel, ih hm₂]
    rfl

theorem length_le_flatMap_print (ms : List Member)
    : ms.length ≤ (ms.flatMap (',' :: ·.print)).length := by
  induction ms with
  | nil => simp
  | cons m ms ih =>
    rw [List.flatMap_cons, List.length_append, List.length_cons, List.length_cons]
    omega

theorem decode_print {m : Member} {ms : List Member} (h : ∀ m' ∈ m :: ms, m'.Ok)
    : decode ('\x7b' :: (m.print ++ (ms.flatMap (',' :: ·.print) ++ ['\x7d']))) =
        some (.object ((m :: ms).map fun m' => (m'.key, m'.val))) := by
  have hlength := length_le_flatMap_print ms
  have hmembers := parseMembers_print h []
  generalize hs : m.print ++ (ms.flatMap (',' :: ·.print) ++ ['\x7d']) = s at hmembers ⊢
  have hle : ms.length + 2 ≤ 2 * ('\x7b' :: s).length := by
    rw [← hs]
    simp only [List.length_cons, List.length_append]
    omega
  rcases Nat.exists_eq_add_of_le hle with ⟨fuel, hfuel⟩
  have hparse : parseMembers (2 * ('\x7b' :: s).length) s =
      some ((m :: ms).map fun m' => (m'.key, m'.val), []) := by
    rw [hfuel, Nat.add_right_comm]
    exact hmembers fuel
  have hspace : skipSpace s = s := by
    rw [← hs, skipSpace_print]
  have hvalue : parseValue (2 * ('\x7b' :: s).length + 1) ('\x7b' :: s) =
      some (.object ((m :: ms).map fun m' => (m'.key, m'.val)), []) := by
    rw [parseValue]
    simp only [hspace]
    split
    . rw [Member.print, List.cons_append] at hs
      cases hs
    . rw [hparse]
      rfl
  unfold decode
  rw [skipSpace_cons (by decide), hvalue]
  rfl

end JsonText
