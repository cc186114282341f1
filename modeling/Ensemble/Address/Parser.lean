import Ensemble.Address.Basic
import Ensemble.Text.Numeral
import Ensemble.Text.Split

/-!
# Reading addresses

The grammar of written addresses, accepted in full and nothing beside it.

* Version 4: exactly four decimal octets joined by dots, each of at most three digits, at most 255
  and without a leading zero.
* Version 6: groups of one to four hexadecimal digits in either case joined by colons. The last two
  groups may be written as an address of version 4. There are eight groups, or fewer with one `::`
  that stands for at least one zero group; before the `::` no dotted form may stand.
* An endpoint: an address and a port, the address in square brackets if it is of version 6. The port
  may have leading zeros.
-/

namespace Ensemble

namespace Ipv4

/-- Read one octet of a dotted address. -/
def octet? (text : List Char) : Option UInt8 :=
  if text.length ≤ 3 ∧ (text.head? ≠ some '0' ∨ text.length = 1) then
    match Numeral.read? 10 text with
    | some n => if n < 256 then some (UInt8.ofNat n) else none
    | none => none
  else none

/-- Read a dotted address. -/
def parse? (text : List Char) : Option Ipv4 :=
  match (Text.splitOn '.' text).mapM octet? with
  | some [a, b, c, d] => some ⟨a, b, c, d⟩
  | _ => none

/-- The two groups that hold the octets in an address of version 6. -/
def groups (x : Ipv4) : List UInt16 :=
  [UInt16.ofNat (x.a.toNat * 256 + x.b.toNat), UInt16.ofNat (x.c.toNat * 256 + x.d.toNat)]

end Ipv4

namespace Ipv6

/-- Read one group. -/
def group? (text : List Char) : Option UInt16 :=
  if text.length ≤ 4 then (Numeral.read? 16 text).map UInt16.ofNat else none

/-- Read the pieces of a text of groups, the last of which may be dotted and then counts as two. -/
def pieces? : List (List Char) → Option (List UInt16)
  | [] => some []
  | [last] =>
    match Ipv4.parse? last with
    | some x => some x.groups
    | none => (group? last).map ([·])
  | piece :: rest =>
    match group? piece with
    | some g => (pieces? rest).map (g :: ·)
    | none => none

/-- Read groups joined by colons, where the empty text has none. -/
def groups? (text : List Char) : Option (List UInt16) :=
  if text.isEmpty then some [] else pieces? (Text.splitOn ':' text)

/-- Read groups joined by colons of which none is dotted. -/
def plainGroups? (text : List Char) : Option (List UInt16) :=
  if text.isEmpty then some [] else (Text.splitOn ':' text).mapM group?

/-- Cut a text at its first `::`; the second part is missing if there is none. -/
def splitGap : List Char → List Char × Option (List Char)
  | [] => ([], none)
  | ':' :: ':' :: rest => ([], some rest)
  | c :: rest => (c :: (splitGap rest).1, (splitGap rest).2)

/-- An address from a list of groups, if there are eight. -/
def ofGroups? (groups : List UInt16) : Option Ipv6 :=
  if h : groups.length = 8 then some ⟨groups, h⟩ else none

/-- The groups around a gap, with the gap filled by zeros; at least one has to be missing. -/
def fill (front back : List UInt16) : List UInt16 :=
  if front.length + back.length ≤ 7 then
    front ++ List.replicate (8 - (front.length + back.length)) 0 ++ back
  else []

/-- Read an address of version 6. -/
def parse? (text : List Char) : Option Ipv6 :=
  match splitGap text with
  -- Without a gap all groups are written out.
  | (whole, none) => (groups? whole).bind ofGroups?
  | (front, some back) =>
    match plainGroups? front, groups? back with
    | some front, some back => ofGroups? (fill front back)
    | _, _ => none

end Ipv6

/-- Read an address of either version. -/
def IpAddress.parse? (text : List Char) : Option IpAddress :=
  match Ipv4.parse? text with
  | some x => some (.v4 x)
  | none => (Ipv6.parse? text).map .v6

/-- Read a port number, which may have leading zeros. -/
def port? (text : List Char) : Option UInt16 :=
  match Numeral.read? 10 text with
  | some n => if n < 65536 then some (UInt16.ofNat n) else none
  | none => none

/-- Read an endpoint. -/
def Endpoint.parse? (text : List Char) : Option Endpoint :=
  match text with
  | '[' :: rest =>
    match Text.splitOn ']' rest with
    | [address, ':' :: port] =>
      match Ipv6.parse? address, port? port with
      | some x, some p => some ⟨.v6 x, p⟩
      | _, _ => none
    | _ => none
  | _ =>
    match Text.splitOn ':' text with
    | [address, port] =>
      match Ipv4.parse? address, port? port with
      | some x, some p => some ⟨.v4 x, p⟩
      | _, _ => none
    | _ => none

end Ensemble
