import Ensemble.Toml.Basic
import Ensemble.Toml.Date
import Ensemble.Toml.Number
import Ensemble.Toml.Quoted

/-!
# Keys and values in TOML

A key is one name or several with points between them, each bare or in quotes. A value is a
string, a number, a truth value, a date or time, an array over any number of lines, or a table in
braces on one line. Arrays and tables in braces nest at most `maxDepth` deep, and a key has at
most as many names.

Each reader takes what stands at the front of a text and yields it with the text after it.
-/

namespace Ensemble.Toml

/-- How deep values nest at most. -/
def maxDepth : Nat := 79

/-! ## Keys -/

/-- Whether a character may stand in a bare name. -/
def isBareChar (c : Char) : Bool := c.isAlphanum || c == '-' || c == '_'

/-- Read one name. -/
def name? : List Char → Option (Name × List Char)
  | '\x22' :: rest => basic? rest
  | '\x27' :: rest => literal? rest
  | text =>
    match text.takeWhile isBareChar with
    | [] => none
    | name => some (name, text.dropWhile isBareChar)

/-- Read the names of a key, with blanks around each; `fuel` bounds their number. -/
def names? : Nat → List Char → Option (List Name × List Char)
  | 0, _ => none
  | fuel + 1, text =>
    match name? (skipBlanks text) with
    | none => none
    | some (name, rest) =>
      match skipBlanks rest with
      | '.' :: rest => (names? fuel rest).map fun (names, rest) => (name :: names, rest)
      | rest => some ([name], rest)

/-- The key of names; it has at least one of them and at most `maxDepth`. -/
def Key.ofNames? (names : List Name) : Option Key :=
  match names.getLast? with
  | some name => if names.length ≤ maxDepth then some ⟨names.dropLast, name⟩ else none
  | none => none

/-- Read a key, blanks around it included. -/
def key? (text : List Char) : Option (Key × List Char) :=
  match names? (text.length + 1) text with
  | some (names, rest) => (Key.ofNames? names).map fun key => (key, rest)
  | none => none

/-! ## Values -/

/-- The text after a comment, which ends before a character that may not stand in a line. -/
def skipComment : List Char → List Char
  | '#' :: rest => rest.dropWhile isLineChar
  | text => text

/-- The text after its leading blanks, line breaks and comments; `fuel` bounds their number. -/
def skipSpaceWithin : Nat → List Char → List Char
  | 0, text => text
  | fuel + 1, text =>
    let rest := skipComment (skipBlanks text)
    match lineBreak? rest with
    | some rest => skipSpaceWithin fuel rest
    | none => rest

/-- The text after its leading blanks, line breaks and comments. -/
def skipSpace (text : List Char) : List Char := skipSpaceWithin (text.length + 1) text

/-- Read a value that is one word: a truth value, a number, a date or a time. -/
def word? (text : List Char) : Option (Item × List Char) :=
  match text with
  | 't' :: 'r' :: 'u' :: 'e' :: rest => some (.boolean true, rest)
  | 'f' :: 'a' :: 'l' :: 's' :: 'e' :: rest => some (.boolean false, rest)
  | _ =>
    -- A date begins like an integer, and an integer like a float, so the longer forms come first.
    match datetime? text with
    | some rest => some (.datetime, rest)
    | none =>
      match float? text with
      | some rest => some (.float, rest)
      | none => (integer? text).map fun (n, rest) => (.integer n, rest)

mutual

/-- Read a value; `fuel` bounds the steps, and `depth` says how much deeper values may nest. -/
def valueWithin? : Nat → Nat → List Char → Option (Item × List Char)
  | 0, _, _ => none
  | fuel + 1, depth, text =>
    match text with
    | '\x22' :: _ => (string? text).map fun (text, rest) => (.string text, rest)
    | '\x27' :: _ => (string? text).map fun (text, rest) => (.string text, rest)
    | '[' :: rest =>
      match depth with
      | 0 => none
      | depth + 1 => (items? fuel depth rest).map fun (items, rest) => (.array items, rest)
    | '\x7b' :: rest =>
      match depth with
      | 0 => none
      | depth + 1 =>
        match skipBlanks rest with
        | '\x7d' :: rest => some (.table .closed [], rest)
        | rest =>
          match members? fuel depth rest with
          | none => none
          | some (members, rest) =>
            (Entries.assignAll? [] members).map fun entries => (.table .closed entries, rest)
    | _ => word? text

/-- Read the items of an array up to its closing bracket; a comma may stand behind the last. -/
def items? : Nat → Nat → List Char → Option (List Item × List Char)
  | 0, _, _ => none
  | fuel + 1, depth, text =>
    match skipSpace text with
    | ']' :: rest => some ([], rest)
    | text =>
      match valueWithin? fuel depth text with
      | none => none
      | some (item, rest) =>
        match skipSpace rest with
        | ']' :: rest => some ([item], rest)
        | ',' :: rest => (items? fuel depth rest).map fun (items, rest) => (item :: items, rest)
        | _ => none

/-- Read the members of a table in braces up to its closing brace; there is at least one. -/
def members? : Nat → Nat → List Char → Option (List (Key × Item) × List Char)
  | 0, _, _ => none
  | fuel + 1, depth, text =>
    match key? text with
    | some (key, '=' :: rest) =>
      match valueWithin? fuel depth (skipBlanks rest) with
      | none => none
      | some (value, rest) =>
        match skipBlanks rest with
        | '\x7d' :: rest => some ([(key, value)], rest)
        | ',' :: rest =>
          (members? fuel depth rest).map fun (members, rest) => ((key, value) :: members, rest)
        | _ => none
    | _ => none

end

/-- Read a value. Every step inward or onward consumes a character, so the length of the text bounds
them. -/
def value? (text : List Char) : Option (Item × List Char) :=
  valueWithin? (2 * text.length + 2) maxDepth text

end Ensemble.Toml
