import Ensemble.Number.Double
import Ensemble.Text.Numeral

/-!
# Numbers in TOML

An integer is written in base ten, with an optional sign and no leading zeros, or without a sign
in base sixteen, eight or two after `0x`, `0o` or `0b`; it has 64 bits, one of them for the sign.
A float has a fraction or an exponent, or is `inf` or `nan`. An underscore may stand between two
digits.

Each reader takes the number at the front of a text and yields the text after it.
-/

namespace Ensemble.Toml

/-- Read on in a run of digits. -/
def moreDigits? (isDigit : Char → Bool) : List Char → Option (List Char × List Char)
  | [] => some ([], [])
  | '_' :: c :: rest =>
    if isDigit c then (moreDigits? isDigit rest).map fun (ds, rest) => (c :: ds, rest) else none
  | ['_'] => none
  | c :: rest =>
    if isDigit c then (moreDigits? isDigit rest).map fun (ds, rest) => (c :: ds, rest)
    else some ([], c :: rest)

/-- Read a run of at least one digit. -/
def digitRun? (isDigit : Char → Bool) : List Char → Option (List Char × List Char)
  | [] => none
  | c :: rest =>
    if isDigit c then (moreDigits? isDigit rest).map fun (ds, rest) => (c :: ds, rest) else none

/-- Split off a sign; the flag says whether it is a minus. -/
def splitSign : List Char → Bool × List Char
  | '+' :: rest => (false, rest)
  | '-' :: rest => (true, rest)
  | text => (false, text)

/-- Read the digits before a point: one zero, or digits that begin with another one. -/
def wholeDigits? : List Char → Option (List Char × List Char)
  | '0' :: rest => some (['0'], rest)
  | text => digitRun? Char.isDigit text

/-! ## Integers -/

/-- Whether 64 bits hold an integer. -/
def fitsWord (n : Int) : Bool := Int64.minValue.toInt ≤ n && n ≤ Int64.maxValue.toInt

/-- Read an integer without a sign in the given base. -/
def basedInteger? (base : Nat) (text : List Char) : Option (Int × List Char) :=
  match digitRun? (fun c => (Numeral.digitValue? base c).isSome) text with
  | none => none
  | some (digits, rest) =>
    match Numeral.read? base digits with
    | some n => if fitsWord n then some (n, rest) else none
    | none => none

/-- Read an integer. -/
def integer? : List Char → Option (Int × List Char)
  | '0' :: 'x' :: rest => basedInteger? 16 rest
  | '0' :: 'o' :: rest => basedInteger? 8 rest
  | '0' :: 'b' :: rest => basedInteger? 2 rest
  | text =>
    let (negative, text) := splitSign text
    match wholeDigits? text with
    | none => none
    | some (digits, rest) =>
      match Numeral.read? 10 digits with
      | none => none
      | some n =>
        let value : Int := if negative then -n else n
        if fitsWord value then some (value, rest) else none

/-! ## Floats -/

/-- Read an exponent after its letter. -/
def exponentDigits? (text : List Char) : Option (Int × List Char) :=
  let (negative, text) := splitSign text
  match digitRun? Char.isDigit text with
  | none => none
  | some (digits, rest) =>
    (Numeral.read? 10 digits).map fun n => (if negative then -(n : Int) else n, rest)

/-- Read an exponent, if there is one. -/
def exponent? : List Char → Option (Option Int × List Char)
  | 'e' :: rest => (exponentDigits? rest).map fun (n, rest) => (some n, rest)
  | 'E' :: rest => (exponentDigits? rest).map fun (n, rest) => (some n, rest)
  | text => some (none, text)

/-- Read a fraction, if there is one. -/
def fraction? : List Char → Option (Option (List Char) × List Char)
  | '.' :: rest => (digitRun? Char.isDigit rest).map fun (ds, rest) => (some ds, rest)
  | text => some (none, text)

/-- Read the name of a number that has no digits. -/
def specialFloat? : List Char → Option (List Char)
  | 'i' :: 'n' :: 'f' :: rest => some rest
  | 'n' :: 'a' :: 'n' :: rest => some rest
  | _ => none

/-- Read a float of digits; one that is too large is refused, but not one that is too small. -/
def decimalFloat? (negative : Bool) (text : List Char) : Option (List Char) := do
  let (whole, text) ← wholeDigits? text
  let (fraction, text) ← fraction? text
  let (exponent, text) ← exponent? text
  if fraction.isNone && exponent.isNone then none
  else
    let decimals := fraction.getD []
    let digits ← Numeral.read? 10 (whole ++ decimals)
    -- Minus infinity is admitted, plus infinity is not.
    if !negative && Double.overflows digits (exponent.getD 0 - decimals.length) then none
    else some text

/-- Read a float. -/
def float? (text : List Char) : Option (List Char) :=
  let (negative, text) := splitSign text
  match specialFloat? text with
  | some rest => some rest
  | none => decimalFloat? negative text

end Ensemble.Toml
