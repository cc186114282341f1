/-!
# Decimals beyond the largest double

A decimal is rounded to the nearest number of double precision. The largest of these is
`2 ^ 1024 - 2 ^ 971`, and the next one would be `2 ^ 1024`; from the middle between the two on, a
decimal rounds to infinity.
-/

namespace Ensemble.Double

/-- The least decimal that rounds to infinity. -/
def infinityFrom : Nat := (1 <<< 1024) - (1 <<< 970)

/-- Whether `digits * 10 ^ exponent` rounds to infinity. The number of its digits decides most cases
without a power of ten. -/
def overflows (digits : Nat) (exponent : Int) : Bool :=
  let width : Int := (Nat.toDigits 10 digits).length + exponent
  if digits = 0 || width < 309 then false
  else if 309 < width then true
  else if 0 ≤ exponent then infinityFrom ≤ digits * Nat.pow 10 exponent.toNat
  else infinityFrom * Nat.pow 10 (-exponent).toNat ≤ digits

end Ensemble.Double
