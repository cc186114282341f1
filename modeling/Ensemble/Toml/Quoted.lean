import Ensemble.Text.Numeral

/-!
# Strings in TOML

A string stands in double quotes, where a backslash begins an escape, or in single quotes, where
nothing does. In three quotes of either kind it may hold line breaks: one right after the opening
quotes is dropped, and every one that is kept is a line feed. Up to two quotes may stand before the
closing ones. A backslash at the end of a line swallows the blanks and line breaks after it.

Each reader takes the string at the front of a text and yields its text and the text after it.
-/

namespace Ensemble.Toml

/-- Whether a character may stand in a line as itself: any but control characters, of which the tab
is allowed. -/
def isLineChar (c : Char) : Bool := c == '\t' || (0x20 ≤ c.toNat && c.toNat ≠ 0x7F)

/-- Whether a character is a blank within a line. -/
def isBlank (c : Char) : Bool := c == ' ' || c == '\t'

/-- The text after its leading blanks. -/
def skipBlanks (text : List Char) : List Char := text.dropWhile isBlank

/-- The text after a line break at its front. -/
def lineBreak? : List Char → Option (List Char)
  | '\n' :: rest => some rest
  | '\r' :: '\n' :: rest => some rest
  | _ => none

/-! ## Escapes -/

/-- The character of a number that is written in hexadecimal digits. -/
def charOf? (digits : List Char) : Option Char :=
  match Numeral.read? 16 digits with
  | some n => if n < 0xD800 ∨ (0xE000 ≤ n ∧ n < 0x110000) then some (Char.ofNat n) else none
  | none => none

/-- Read an escape after its backslash. -/
def escape? : List Char → Option (Char × List Char)
  | 'b' :: rest => some ('\x08', rest)
  | 't' :: rest => some ('\t', rest)
  | 'n' :: rest => some ('\n', rest)
  | 'f' :: rest => some ('\x0c', rest)
  | 'r' :: rest => some ('\r', rest)
  | '\x22' :: rest => some ('\x22', rest)
  | '\\' :: rest => some ('\\', rest)
  | 'u' :: rest =>
    if 4 ≤ rest.length then (charOf? (rest.take 4)).map fun c => (c, rest.drop 4) else none
  | 'U' :: rest =>
    if 8 ≤ rest.length then (charOf? (rest.take 8)).map fun c => (c, rest.drop 8) else none
  | _ => none

/-! ## Strings of one line -/

/-- Read on in a string in double quotes; `fuel` bounds its characters. -/
def basicWithin? : Nat → List Char → Option (List Char × List Char)
  | 0, _ => none
  | _ + 1, [] => none
  | _ + 1, '\x22' :: rest => some ([], rest)
  | fuel + 1, '\\' :: rest =>
    match escape? rest with
    | none => none
    | some (c, rest) => (basicWithin? fuel rest).map fun (cs, rest) => (c :: cs, rest)
  | fuel + 1, c :: rest =>
    if isLineChar c then (basicWithin? fuel rest).map fun (cs, rest) => (c :: cs, rest) else none

/-- Read a string in double quotes after the opening one. -/
def basic? (text : List Char) : Option (List Char × List Char) :=
  basicWithin? (text.length + 1) text

/-- Read a string in single quotes after the opening one. -/
def literal? : List Char → Option (List Char × List Char)
  | [] => none
  | c :: rest =>
    if c = '\x27' then some ([], rest)
    else if isLineChar c then (literal? rest).map fun (cs, rest) => (c :: cs, rest)
    else none

/-! ## Strings of several lines -/

/-- Quotes at the front of a text within a string of several lines. -/
inductive Quotes where
  /-- One or two of them, which belong to the string. -/
  | inner (count : Nat)
  /-- The closing ones, and before them those that belong to the string. -/
  | closing (count : Nat)

/-- What a run of quotes means, if there is one. -/
def quotes? (quote : Char) (text : List Char) : Option Quotes :=
  match (text.takeWhile (· == quote)).length with
  | 0 => none
  | 1 => some (.inner 1)
  | 2 => some (.inner 2)
  -- The closing quotes are the last three of at most five.
  | n + 3 => some (.closing (min n 2))

/-- The text after a backslash if only blanks follow it in its line: the blanks and line breaks are
dropped. -/
def continuedLine? (text : List Char) : Option (List Char) :=
  (lineBreak? (skipBlanks text)).map skipBreaks
where
  /-- The text after its leading blanks and line breaks. -/
  skipBreaks : List Char → List Char
    | '\r' :: '\n' :: rest => skipBreaks rest
    | c :: rest => if isBlank c || c == '\n' then skipBreaks rest else c :: rest
    | [] => []

/-- Read on in a string of several lines; the flag says whether a backslash begins an escape. -/
def linesWithin? (quote : Char) (escapes : Bool) : Nat → List Char → Option (List Char × List Char)
  | 0, _ => none
  | fuel + 1, text =>
    match quotes? quote text with
    | some (.closing count) => some (List.replicate count quote, text.drop (count + 3))
    | some (.inner count) =>
      (linesWithin? quote escapes fuel (text.drop count)).map fun (cs, rest) =>
        (List.replicate count quote ++ cs, rest)
    | none =>
      match lineBreak? text with
      | some rest =>
        (linesWithin? quote escapes fuel rest).map fun (cs, rest) => ('\n' :: cs, rest)
      | none =>
        match text with
        | [] => none
        | c :: rest =>
          if escapes && c == '\\' then
            match continuedLine? rest with
            | some rest => linesWithin? quote escapes fuel rest
            | none =>
              match escape? rest with
              | some (c, rest) =>
                (linesWithin? quote escapes fuel rest).map fun (cs, rest) => (c :: cs, rest)
              | none => none
          else if isLineChar c then
            (linesWithin? quote escapes fuel rest).map fun (cs, rest) => (c :: cs, rest)
          else none

/-- Read a string of several lines after its three opening quotes. -/
def lines? (quote : Char) (escapes : Bool) (text : List Char) : Option (List Char × List Char) :=
  let text := (lineBreak? text).getD text
  linesWithin? quote escapes (text.length + 1) text

/-- Read a string of any kind. -/
def string? : List Char → Option (List Char × List Char)
  | '\x22' :: '\x22' :: '\x22' :: rest => lines? '\x22' true rest
  | '\x22' :: rest => basic? rest
  | '\x27' :: '\x27' :: '\x27' :: rest => lines? '\x27' false rest
  | '\x27' :: rest => literal? rest
  | _ => none

end Ensemble.Toml
