import Ensemble.Address.Basic

/-!
# The written form of addresses

An address of version 4 is four decimal octets joined by dots. An address of version 6 is eight
groups in lower-case hexadecimal joined by colons, with two shortenings: the longest run of at
least two zero groups, the first of them on a tie, is written `::`, and an address that embeds one
of version 4 (`::ffff:0:0` with the octets in the last two groups) ends in dotted form.
-/

namespace Ensemble

/-- Four decimal octets joined by dots. -/
def Ipv4.render (x : Ipv4) : List Char :=
  ['.'].intercalate (x.octets.map fun o => Nat.toDigits 10 o.toNat)

namespace Ipv6

/-- The address of version 4 that two groups embed. -/
def embedded (high low : UInt16) : Ipv4 :=
  ⟨(high >>> 8).toUInt8, high.toUInt8, (low >>> 8).toUInt8, low.toUInt8⟩

/-- How many groups in a row are zero from the `i`-th on. -/
def zeroRun (groups : List UInt16) (i : Nat) : Nat :=
  ((groups.drop i).takeWhile (· == 0)).length

/-- The place where the longest run of zero groups begins, the first one on a tie. -/
def longestZeroRun (groups : List UInt16) : Nat :=
  (List.range groups.length).foldl
    (fun best i => if zeroRun groups best < zeroRun groups i then i else best) 0

/-- Groups in hexadecimal joined by colons. -/
def renderGroups (groups : List UInt16) : List Char :=
  [':'].intercalate (groups.map fun g => Nat.toDigits 16 g.toNat)

/-- Groups with their longest run of zeros shortened, if it holds at least two. -/
def renderCompressed (groups : List UInt16) : List Char :=
  let start := longestZeroRun groups
  let count := zeroRun groups start
  if 2 ≤ count then
    renderGroups (groups.take start) ++ ':' :: ':' :: renderGroups (groups.drop (start + count))
  else renderGroups groups

/-- The written form, in which an embedded address of version 4 keeps its dots. -/
def render (x : Ipv6) : List Char :=
  match x.groups with
  | [0, 0, 0, 0, 0, 0xffff, high, low] => "::ffff:".toList ++ (embedded high low).render
  | groups => renderCompressed groups

end Ipv6

/-- The written form of an address. -/
def IpAddress.render : IpAddress → List Char
  | .v4 x => x.render
  | .v6 x => x.render

/-- The written form of an endpoint: address and port joined by a colon, an address of version 6 in
square brackets. -/
def Endpoint.render (e : Endpoint) : List Char :=
  match e.address with
  | .v4 x => x.render ++ ':' :: Nat.toDigits 10 e.port.toNat
  | .v6 x => '[' :: x.render ++ ']' :: ':' :: Nat.toDigits 10 e.port.toNat

instance : ToString IpAddress := ⟨fun x => String.ofList x.render⟩

instance : ToString Endpoint := ⟨fun e => String.ofList e.render⟩

end Ensemble
