/-!
# The written form of a duration

A duration of whole milliseconds is written in seconds from one second on, and in milliseconds
below. Seconds have as many decimal places as they need. No time at all is `0ns`.
-/

namespace Ensemble.Duration

/-- A fraction of a thousandth parts as decimal places, without zeros at the end. -/
def places (thousandths : Nat) : List Char :=
  let digits := [thousandths / 100, thousandths / 10 % 10, thousandths % 10].map Nat.digitChar
  (digits.reverse.dropWhile (· == '0')).reverse

/-- The written form of a number of milliseconds. -/
def render (ms : Nat) : String :=
  if ms = 0 then "0ns"
  else if ms < 1000 then s!"{ms}ms"
  else
    match places (ms % 1000) with
    | [] => s!"{ms / 1000}s"
    | ds => s!"{ms / 1000}.{String.ofList ds}s"

end Ensemble.Duration
