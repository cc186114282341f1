import Ensemble.Text.Numeral
import Ensemble.Text.Utf8

/-!
# Bytes in hexadecimal

Each byte is written as two digits in lower case, the high one first, and read from digits of either
case.
-/

namespace Ensemble.Hex

/-- The two digits of each byte. -/
def render (bytes : Bytes) : List Char :=
  bytes.flatMap fun b => [Nat.digitChar (b.toNat / 16), Nat.digitChar (b.toNat % 16)]

/-- The bytes of pairs of digits. -/
def parse? : List Char → Option Bytes
  | [] => some []
  | [_] => none
  | high :: low :: rest =>
    match Numeral.digitValue? 16 high, Numeral.digitValue? 16 low, parse? rest with
    | some h, some l, some bytes => some (UInt8.ofNat (h * 16 + l) :: bytes)
    | _, _, _ => none

end Ensemble.Hex
