import Ensemble.Address.Parser
import Ensemble.Address.Printer

/-!
# Resolving a numeric address

The address that a configuration or a command line names is resolved without asking for names. The
strict form of an endpoint comes first, in which an address of version 6 may carry the number of a
zone. Where it does not fit, the text is cut at its last colon, and the part before it may be an
address of version 6 without brackets, with a zone or without, or one of version 4 of one to four
numbers in decimal, octal (`0…`) or hexadecimal (`0x…`), the last of which fills all octets that are
left.
-/

namespace Ensemble

/-- An endpoint, and the zone of an address of version 6; zero is no zone. -/
structure Located where
  endpoint : Endpoint
  zone : Nat
  deriving DecidableEq, Repr

/-- The written form, with the zone after a percent sign. -/
def Located.render (l : Located) : List Char :=
  match l.endpoint.address with
  | .v6 x =>
    if l.zone = 0 then l.endpoint.render
    else '[' :: x.render ++ '%' :: Nat.toDigits 10 l.zone ++ ']' :: ':' ::
      Nat.toDigits 10 l.endpoint.port.toNat
  | .v4 _ => l.endpoint.render

/-- Read an address of version 6 with the number of a zone behind a percent sign. -/
def Ipv6.parseZoned? (text : List Char) : Option (Ipv6 × Nat) :=
  match Text.splitOn '%' text with
  | [address, zone] =>
    match Ipv6.parse? address, Numeral.read? 10 zone with
    | some x, some z => if z < UInt32.size then some (x, z) else none
    | _, _ => none
  | _ => none

/-- Read an endpoint of version 6 that names a zone. -/
def Located.zoned? (text : List Char) : Option Located :=
  match text with
  | '[' :: rest =>
    match Text.splitOn ']' rest with
    | [inner, ':' :: port] =>
      match Ipv6.parseZoned? inner, port? port with
      | some (x, z), some p => some ⟨⟨.v6 x, p⟩, z⟩
      | _, _ => none
    | _ => none
  | _ => none

namespace Ipv4

/-- Read one number of a short address, whose first characters tell its base. -/
def number? : List Char → Option Nat
  | '0' :: 'x' :: digits => Numeral.read? 16 digits
  | '0' :: 'X' :: digits => Numeral.read? 16 digits
  | '0' :: digits => Numeral.read? 8 ('0' :: digits)
  | digits => Numeral.read? 10 digits

/-- The address of a number below `2 ^ 32`. -/
def ofNat (n : Nat) : Ipv4 :=
  ⟨UInt8.ofNat (n >>> 24), UInt8.ofNat (n >>> 16), UInt8.ofNat (n >>> 8), UInt8.ofNat n⟩

/-- Put numbers together: each but the last is one octet, the last one fills the rest. -/
def join? (filled : Nat) (acc : Nat) : List Nat → Option Nat
  | [] => none
  | [last] =>
    -- What is left of the four octets, however many they are.
    let room := 1 <<< (32 - 8 * filled)
    if filled < 4 ∧ last < room then some (acc * room + last) else none
  | n :: rest => if n < 256 then join? (filled + 1) (acc * 256 + n) rest else none

/-- Read an address of one to four numbers. -/
def parseShort? (text : List Char) : Option Ipv4 :=
  match (Text.splitOn '.' text).mapM number? with
  | some numbers => (join? 0 0 numbers).map ofNat
  | none => none

end Ipv4

/-- The parts of a text before and after its last colon. -/
def splitLastColon? (text : List Char) : Option (List Char × List Char) :=
  match (text.reverse.dropWhile (· != ':')) with
  | [] => none
  | _ :: front => some (front.reverse, (text.reverse.takeWhile (· != ':')).reverse)

/-- Read a port number that may have a plus sign. -/
def signedPort? : List Char → Option UInt16
  | '+' :: digits => port? digits
  | digits => port? digits

/-- Read a numeric address that stands alone, and its zone. -/
def IpAddress.parseHost? (text : List Char) : Option (IpAddress × Nat) :=
  match Ipv4.parseShort? text, Ipv6.parse? text with
  | some x, _ => some (.v4 x, 0)
  | none, some x => some (.v6 x, 0)
  | none, none => (Ipv6.parseZoned? text).map fun (x, z) => (.v6 x, z)

/-- The endpoint that a text names. -/
def Located.resolve? (text : List Char) : Option Located :=
  match Endpoint.parse? text with
  | some e => some ⟨e, 0⟩
  | none =>
    match Located.zoned? text with
    | some l => some l
    | none =>
      -- The lenient form: no brackets, and short addresses of version 4.
      match splitLastColon? text with
      | none => none
      | some (host, port) =>
        match IpAddress.parseHost? host, signedPort? port with
        | some (a, z), some p => some ⟨⟨a, p⟩, z⟩
        | _, _ => none

/-- The wording where an address names no endpoint. -/
def unresolvedMessage (text : String) : String := s!"Adresse '{text}' nicht aufloesbar"

end Ensemble
