import Ensemble.Json.Basic
import Ensemble.Text.Numeral

/-!
# Reading JSON

The grammar of RFC 8259, for one value with blanks around it. A string is read in two steps: first
its units, where an escape of four hexadecimal digits is a unit of its own, then the text of the
units, in which two surrogates next to each other are one character.
-/

namespace Ensemble.Json

/-- Whether a character may stand between tokens. -/
def isBlank (c : Char) : Bool := c == ' ' || c == '\n' || c == '\t' || c == '\r'

/-- The text after its leading blanks. -/
def skipBlanks (text : List Char) : List Char := text.dropWhile isBlank

/-! ## Numbers -/

/-- Split off the leading decimal digits. -/
def digits (text : List Char) : List Char × List Char :=
  (text.takeWhile Char.isDigit, text.dropWhile Char.isDigit)

/-- Read the fraction of a number, if one begins; the flag says whether there was one. -/
def fraction? (text : List Char) : Option (Bool × List Char) :=
  match text with
  | '.' :: rest =>
    match digits rest with
    | ([], _) => none
    | (_, rest) => some (true, rest)
  | _ => some (false, text)

/-- The text after an optional sign. -/
def skipSign : List Char → List Char
  | '+' :: rest => rest
  | '-' :: rest => rest
  | text => text

/-- Read the exponent of a number, if one begins; the flag says whether there was one. -/
def exponent? (text : List Char) : Option (Bool × List Char) :=
  match text with
  | c :: rest =>
    if c == 'e' || c == 'E' then
      match digits (skipSign rest) with
      | ([], _) => none
      | (_, rest) => some (true, rest)
    else some (false, text)
  | [] => some (false, [])

/-- The integer digits of a number: one zero, or digits that begin with another one. -/
def integerDigits? (text : List Char) : Option (List Char × List Char) :=
  match text with
  | '0' :: rest => some (['0'], rest)
  | _ =>
    match digits text with
    | ([], _) => none
    | found => some found

/-- Read a number without its sign. -/
def magnitude? (negative : Bool) (text : List Char) : Option (Json × List Char) := do
  let (whole, text) ← integerDigits? text
  let (fractional, text) ← fraction? text
  let (exponential, text) ← exponent? text
  let value ← Numeral.read? 10 whole
  -- A negative zero is no integer.
  if fractional || exponential || (negative && value == 0) then some (.real, text)
  else some (.integer (if negative then -value else value), text)

/-! ## Strings -/

/-- A unit of a string: a character, or one half of a surrogate pair. -/
inductive Unit16 where
  | char (c : Char)
  | surrogate (value : Nat)

/-- The unit of a number below 65536. -/
def unitOf (n : Nat) : Unit16 :=
  if 0xD800 ≤ n ∧ n < 0xE000 then .surrogate n else .char (Char.ofNat n)

/-- Read one escape after its backslash. -/
def escape? : List Char → Option (Unit16 × List Char)
  | '"' :: rest => some (.char '"', rest)
  | '\\' :: rest => some (.char '\\', rest)
  | '/' :: rest => some (.char '/', rest)
  | 'b' :: rest => some (.char '\x08', rest)
  | 'f' :: rest => some (.char '\x0c', rest)
  | 'n' :: rest => some (.char '\n', rest)
  | 'r' :: rest => some (.char '\r', rest)
  | 't' :: rest => some (.char '\t', rest)
  | 'u' :: a :: b :: c :: d :: rest =>
    (Numeral.read? 16 [a, b, c, d]).map fun n => (unitOf n, rest)
  | _ => none

/-- Read the units of a string up to its closing quote. -/
def units? : Nat → List Char → Option (List Unit16 × List Char)
  | 0, _ => none
  | _ + 1, [] => none
  | _ + 1, '"' :: rest => some ([], rest)
  | fuel + 1, '\\' :: rest =>
    match escape? rest with
    | none => none
    | some (u, rest) => (units? fuel rest).map fun (us, rest) => (u :: us, rest)
  | fuel + 1, c :: rest =>
    if c.toNat < 0x20 then none
    else (units? fuel rest).map fun (us, rest) => (.char c :: us, rest)

/-- The text of units, if every surrogate has its other half next to it. -/
def textOf : List Unit16 → Option (List Char)
  | [] => some []
  | .char c :: rest => (textOf rest).map (c :: ·)
  | .surrogate high :: .surrogate low :: rest =>
    -- The high half comes first; together they are one character.
    if high < 0xDC00 ∧ 0xDC00 ≤ low then
      (textOf rest).map (Char.ofNat (0x10000 + (high - 0xD800) * 0x400 + (low - 0xDC00)) :: ·)
    else none
  | .surrogate _ :: _ => none

/-- Read a string after its opening quote. -/
def stringBody? (text : List Char) : Option (Option (List Char) × List Char) :=
  (units? (text.length + 1) text).map fun (us, rest) => (textOf us, rest)

/-! ## Values -/

mutual

/-- Read one value, blanks before it included; `fuel` bounds the nesting and the items. -/
def value? : Nat → List Char → Option (Json × List Char)
  | 0, _ => none
  | fuel + 1, text =>
    match skipBlanks text with
    | 'n' :: 'u' :: 'l' :: 'l' :: rest => some (.null, rest)
    | 't' :: 'r' :: 'u' :: 'e' :: rest => some (.bool true, rest)
    | 'f' :: 'a' :: 'l' :: 's' :: 'e' :: rest => some (.bool false, rest)
    | '"' :: rest => (stringBody? rest).map fun (text, rest) => (.string text, rest)
    | '[' :: rest =>
      match skipBlanks rest with
      | ']' :: rest => some (.array [], rest)
      | rest => (items? fuel rest).map fun (items, rest) => (.array items, rest)
    | '\x7b' :: rest =>
      match skipBlanks rest with
      | '\x7d' :: rest => some (.object [], rest)
      | rest => (members? fuel rest).map fun (members, rest) => (.object members, rest)
    | '-' :: rest => magnitude? true rest
    | rest => magnitude? false rest

/-- Read the items of an array up to its closing bracket; there is at least one. -/
def items? : Nat → List Char → Option (List Json × List Char)
  | 0, _ => none
  | fuel + 1, text =>
    match value? fuel text with
    | none => none
    | some (first, rest) =>
      match skipBlanks rest with
      | ']' :: rest => some ([first], rest)
      | ',' :: rest => (items? fuel rest).map fun (others, rest) => (first :: others, rest)
      | _ => none

/-- Read the members of an object up to its closing brace; there is at least one. -/
def members? : Nat → List Char → Option (List (Option (List Char) × Json) × List Char)
  | 0, _ => none
  | fuel + 1, text =>
    match skipBlanks text with
    | '"' :: rest =>
      match stringBody? rest with
      | none => none
      | some (name, rest) =>
        match skipBlanks rest with
        | ':' :: rest =>
          match value? fuel rest with
          | none => none
          | some (value, rest) =>
            match skipBlanks rest with
            | '\x7d' :: rest => some ([(name, value)], rest)
            | ',' :: rest =>
              (members? fuel rest).map fun (others, rest) => ((name, value) :: others, rest)
            | _ => none
        | _ => none
    | _ => none

end

/-- Read a text that holds one value and nothing else. Every step inward or onward consumes a
character, so the length of the text bounds them. -/
def parse? (text : List Char) : Option Json :=
  match value? (2 * text.length + 2) text with
  | some (value, rest) => if (skipBlanks rest).isEmpty then some value else none
  | none => none

end Ensemble.Json
