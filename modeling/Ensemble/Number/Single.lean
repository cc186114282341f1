/-!
# Numbers of single precision

A binary floating-point number with a significand of 24 bits is given by its bit pattern. `ofRatio`
is the pattern of the number nearest to a quotient below one, a tie going to the even significand.
-/

namespace Ensemble.Single

/-- The pattern of one. -/
def one : Nat := 0x3F800000

/-- The whole number nearest to `num / den`, the even one on a tie. -/
def roundHalfEven (num den : Nat) : Nat :=
  let q := num / den
  let r := num % den
  if 2 * r < den ∨ 2 * r = den ∧ q % 2 = 0 then q else q + 1

/-- By how many bits the quotient has to be shifted so that it has 24 bits before the point. -/
def shift (num den : Nat) : Nat :=
  let k := 23 + den.log2 - num.log2
  -- The logarithms are rounded down, so the shift may be one too small.
  if den <<< 23 ≤ num <<< k then k else k + 1

/-- The pattern of the number nearest to `num / den`, where `0 < num < den` and the quotient is not
below the smallest normal number. A significand that is rounded up to the next power of two
carries into the exponent. -/
def ofSmallRatio (num den : Nat) : Nat :=
  let k := shift num den
  ((150 - k) <<< 23) + (roundHalfEven (num <<< k) den - (1 <<< 23))

/-- The pattern of `num / den`, capped to the range from zero to one. -/
def ofRatio (num den : Nat) : Nat :=
  if num = 0 ∨ den = 0 then 0
  else if den ≤ num then one
  else ofSmallRatio num den

end Ensemble.Single
