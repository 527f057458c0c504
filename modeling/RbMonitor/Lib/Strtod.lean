import RbMonitor.Lib.CString
import RbMonitor.Lib.Binary64

/-!
This module contains the conversions between C strings and numbers: `strtod`, the `%tu` of `sscanf`
and the `%lf` of `printf`, in the C locale.
-/

namespace CString

/-- Drop the letters of `word` from the front of `s`, in either case. -/
def stripWord (word s : CStr) : Option CStr :=
  match word, s with
  | [], s => some s
  | _ :: _, [] => none
  | w :: word, c :: s => if c.toLower = w then stripWord word s else none

def stripSign (s : CStr) : Bool × CStr :=
  match s with
  | '-' :: rest => (true, rest)
  | '+' :: rest => (false, rest)
  | rest => (false, rest)

/-- The digits before and after an optional point, and what follows them. -/
def scanDigits (isDig : Char → Bool) (s : CStr) : List Char × List Char × CStr :=
  let rest := s.dropWhile isDig
  match rest with
  | '.' :: rest' => (s.takeWhile isDig, rest'.takeWhile isDig, rest'.dropWhile isDig)
  | _ => (s.takeWhile isDig, [], rest)

/-- An exponent after `mark`; without a digit in it there is none. -/
def scanExponent (mark : Char) (s : CStr) : Int × CStr :=
  match s with
  | [] => (0, s)
  | c :: rest =>
    let (neg, digits) := stripSign rest
    if c.toLower = mark ∧ digits.takeWhile Char.isDigit ≠ [] then
      let n : Int := natOfDigits (digits.takeWhile Char.isDigit)
      (if neg then -n else n, digits.dropWhile Char.isDigit)
    else
      (0, s)

def isHexDigit (c : Char) : Bool :=
  c.isDigit || ('a' ≤ c.toLower && c.toLower ≤ 'f')

def hexDigitVal (c : Char) : Nat :=
  if c.isDigit then digitVal c else c.toLower.toNat - 'a'.toNat + 10

def natOfHexDigits (ds : List Char) : Nat :=
  ds.foldl (fun n c => 16 * n + hexDigitVal c) 0

structure Strtod where
  value : Binary64
  /-- Where `endptr` points. -/
  rest : CStr
  /-- Whether `errno` is set to `ERANGE`. -/
  erange : Bool
deriving DecidableEq

/-- Rounding lost something of a number too small for full precision. -/
def underflows (num den : Nat) : Bool :=
  Binary64.roundMag (num * Binary64.one) den * den ≠ num * Binary64.one
    ∧ 4 * (num * Binary64.one) < (2 ^ 54 - 1) * den

def Strtod.ofScaled (neg : Bool) (digits base : Nat) (exp : Int) (rest : CStr) : Strtod :=
  let num := digits * base ^ exp.toNat
  let den := base ^ (-exp).toNat
  let value := Binary64.ofRatio neg num den
  ⟨value, rest, !value.isFinite || underflows num den⟩

def strtodWord (neg : Bool) (s : CStr) : Option Strtod :=
  match stripWord ['i', 'n', 'f'] s with
  | some rest =>
    some ⟨.inf neg, (stripWord ['i', 'n', 'i', 't', 'y'] rest).getD rest, false⟩
  | none =>
    match stripWord ['n', 'a', 'n'] s with
    | some rest =>
      match rest with
      | '(' :: chars =>
        match chars.dropWhile (fun c => c.isAlphanum || c = '_') with
        | ')' :: rest' => some ⟨.nan neg, rest', false⟩
        | _ => some ⟨.nan neg, rest, false⟩
      | _ => some ⟨.nan neg, rest, false⟩
    | none => none

def strtodHex (neg : Bool) (s : CStr) : Option Strtod :=
  match stripWord ['0', 'x'] s with
  | none => none
  | some digits =>
    let (int, frac, rest) := scanDigits isHexDigit digits
    if int ++ frac = [] then
      none
    else
      let (exp, rest) := scanExponent 'p' rest
      some (.ofScaled neg (natOfHexDigits (int ++ frac)) 2 (exp - 4 * frac.length) rest)

def strtodDecimal (neg : Bool) (s : CStr) : Option Strtod :=
  let (int, frac, rest) := scanDigits Char.isDigit s
  if int ++ frac = [] then
    none
  else
    let (exp, rest) := scanExponent 'e' rest
    some (.ofScaled neg (natOfDigits (int ++ frac)) 10 (exp - frac.length) rest)

/-- `strtod`. Without a conversion `endptr` is the string itself and the value is zero. -/
def strtod (s : CStr) : Strtod :=
  let (neg, t) := stripSign (s.dropWhile isSpace)
  strtodWord neg t <|> strtodHex neg t <|> strtodDecimal neg t |>.getD ⟨0, s, false⟩

/-- Whether `strtod` finds a number at the start of the string. -/
def startsWithNumber (s : CStr) : Bool :=
  (strtod s).rest ≠ s

/-- `sscanf(s, "%tu", &n)`, the result read as a signed 64 bit integer; `none` leaves `n` alone. -/
def scanTu (s : CStr) : Option Int :=
  let (neg, digits) := stripSign (s.dropWhile isSpace)
  let ds := digits.takeWhile Char.isDigit
  if ds = [] then
    none
  else
    let n := natOfDigits ds
    let unsigned : Int := if 2 ^ 64 ≤ n then 2 ^ 64 - 1 else if neg then -n else n
    some (unsigned.bmod (2 ^ 64))

/-- The last six decimal digits. -/
def sixDigits (n : Nat) : CStr :=
  [n / 100000 % 10, n / 10000 % 10, n / 1000 % 10, n / 100 % 10, n / 10 % 10, n % 10].map
    Nat.digitChar

/-- `%lf`: six decimals of the exact value, rounded to nearest. -/
def printLf : Binary64 → CStr
  | .nan neg => (if neg then ['-'] else []) ++ ['n', 'a', 'n']
  | .inf neg => (if neg then ['-'] else []) ++ ['i', 'n', 'f']
  | .finite x =>
    let micros := Binary64.roundQuot (x.mag * 10 ^ 6) Binary64.one
    (if x.neg then ['-'] else []) ++ printNat (micros / 10 ^ 6) ++ '.' :: sixDigits micros

example : (strtod " -1.5e1;2".toList).value = -15 := by decide +kernel

end CString
