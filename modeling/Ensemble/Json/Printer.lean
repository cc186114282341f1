/-!
# Writing JSON

Pieces of text are put together without blanks. In a string a quote, a backslash and the control
characters are escaped, the five that have a letter of their own by that letter.
-/

namespace Ensemble.Json

/-- The written form of a character within a string. -/
def escapeChar (c : Char) : List Char :=
  if c = '\x22' then ['\\', '\x22']
  else if c = '\\' then ['\\', '\\']
  else if c = '\x08' then ['\\', 'b']
  else if c = '\x0c' then ['\\', 'f']
  else if c = '\n' then ['\\', 'n']
  else if c = '\r' then ['\\', 'r']
  else if c = '\t' then ['\\', 't']
  else if c.toNat < 0x20 then
    ['\\', 'u', '0', '0', Nat.digitChar (c.toNat / 16), Nat.digitChar (c.toNat % 16)]
  else [c]

/-- The written form of a string. -/
def quote (text : List Char) : List Char := '\x22' :: text.flatMap escapeChar ++ ['\x22']

/-- The written form of a number without a sign. -/
def writeNat (n : Nat) : List Char := Nat.toDigits 10 n

/-- The written form of an integer. -/
def writeInt (n : Int) : List Char :=
  if n < 0 then '-' :: writeNat n.natAbs else writeNat n.natAbs

/-- The written form of a truth value. -/
def writeBool (b : Bool) : List Char := if b then "true".toList else "false".toList

/-- An array of written items. -/
def writeArray (items : List (List Char)) : List Char := '[' :: [','].intercalate items ++ [']']

/-- An object of written members, in their order. -/
def writeObject (members : List (String × List Char)) : List Char :=
  let written := members.map fun (name, value) => quote name.toList ++ ':' :: value
  '\x7b' :: [','].intercalate written ++ ['\x7d']

end Ensemble.Json
