/-!
# JSON values

A value as it is read from a text. Two kinds of value keep only as much as a reader of tables needs
to refuse them: a number with a fraction, an exponent or a negative zero is `real`, and a string
whose escapes name half of a surrogate pair has no text. Members of an object stand in the order of
the text, repeated names included.
-/

namespace Ensemble

/-- A JSON value. -/
inductive Json where
  | null
  | bool (value : Bool)
  | integer (value : Int)
  /-- A number that is not written as an integer. -/
  | real
  /-- A string; its text is missing if half of a surrogate pair stands alone in it. -/
  | string (text : Option (List Char))
  | array (items : List Json)
  | object (members : List (Option (List Char) × Json))

namespace Json

/-- The text of a string value. -/
def text? : Json → Option (List Char)
  | .string text => text
  | _ => none

/-- A number that fits in sixteen bits. -/
def word16? : Json → Option UInt16
  | .integer n => if 0 ≤ n ∧ n < 65536 then some (UInt16.ofNat n.toNat) else none
  | _ => none

/-- The value of the one member with a name; a repeated name has none. -/
def member? (members : List (Option (List Char) × Json)) (name : String) : Option Json :=
  match members.filter (·.1 == some name.toList) with
  | [(_, value)] => some value
  | _ => none

/-- The fields of a record with the given names: an object with each name once and any further
names, or an array with exactly as many items. -/
def fields? (names : List String) : Json → Option (List Json)
  | .array items => if items.length = names.length then some items else none
  | .object members =>
    if members.all (·.1.isSome) then names.mapM (member? members) else none
  | _ => none

end Json

end Ensemble
