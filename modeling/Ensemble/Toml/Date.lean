import Ensemble.Text.Numeral

/-!
# Dates and times in TOML

A date is `year-month-day`, a time `hour:minute:second` with an optional fraction, and a moment is
a date, a time, or both with a `T` or a blank between them and an optional offset behind. A date
names a day that its month has; a minute may have a sixtieth second.

Each reader takes what stands at the front of a text and yields the text after it.
-/

namespace Ensemble.Toml

/-- Read exactly `count` decimal digits. -/
def fixedDigits? (count : Nat) (text : List Char) : Option (Nat × List Char) :=
  let digits := text.take count
  if digits.length = count then (Numeral.read? 10 digits).map fun n => (n, text.drop count)
  else none

/-- Read two digits of a number in a range. -/
def twoDigits? (low high : Nat) (text : List Char) : Option (Nat × List Char) :=
  match fixedDigits? 2 text with
  | some (n, rest) => if low ≤ n ∧ n ≤ high then some (n, rest) else none
  | none => none

/-- The text after a character that has to stand at its front. -/
def expect? (c : Char) : List Char → Option (List Char)
  | [] => none
  | d :: rest => if d = c then some rest else none

/-- Whether a year has a leap day. -/
def isLeapYear (year : Nat) : Bool := year % 4 = 0 && (year % 100 ≠ 0 || year % 400 = 0)

/-- How many days a month has. -/
def daysInMonth (year month : Nat) : Nat :=
  if month = 2 then (if isLeapYear year then 29 else 28)
  else if month = 4 ∨ month = 6 ∨ month = 9 ∨ month = 11 then 30
  else 31

/-- Read a date. -/
def date? (text : List Char) : Option (List Char) := do
  let (year, text) ← fixedDigits? 4 text
  let text ← expect? '-' text
  let (month, text) ← twoDigits? 1 12 text
  let text ← expect? '-' text
  let (_, text) ← twoDigits? 1 (daysInMonth year month) text
  some text

/-- The text after a fraction of a second, if there is one. -/
def skipFraction : List Char → List Char
  | '.' :: c :: rest => if c.isDigit then rest.dropWhile Char.isDigit else '.' :: c :: rest
  | text => text

/-- Read a time of day. -/
def time? (text : List Char) : Option (List Char) := do
  let (_, text) ← twoDigits? 0 23 text
  let text ← expect? ':' text
  let (_, text) ← twoDigits? 0 59 text
  let text ← expect? ':' text
  let (_, text) ← twoDigits? 0 60 text
  some (skipFraction text)

/-- Read hours and minutes of an offset. -/
def offsetDigits? (text : List Char) : Option (List Char) := do
  let (_, text) ← twoDigits? 0 23 text
  let text ← expect? ':' text
  let (_, text) ← twoDigits? 0 59 text
  some text

/-- The text after an offset, if there is one. -/
def skipOffset : List Char → List Char
  | 'Z' :: rest => rest
  | 'z' :: rest => rest
  | '+' :: rest => (offsetDigits? rest).getD ('+' :: rest)
  | '-' :: rest => (offsetDigits? rest).getD ('-' :: rest)
  | text => text

/-- The text after a time and an offset behind a date, if there are any. -/
def skipTime : List Char → List Char
  | [] => []
  | c :: rest =>
    if c = 'T' ∨ c = 't' ∨ c = ' ' then
      match time? rest with
      | some rest => skipOffset rest
      | none => c :: rest
    else c :: rest

/-- Read a date with or without a time, or a time. -/
def datetime? (text : List Char) : Option (List Char) :=
  match date? text with
  | some rest => some (skipTime rest)
  | none => time? text

end Ensemble.Toml
