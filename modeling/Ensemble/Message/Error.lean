/-!
# What can be wrong with a message

`DecodeError` says why bytes are no message, and `EncodeError` why a message has no bytes; each has
one wording, `message`.
-/

namespace Ensemble

/-- A field whose bytes stand for no value. -/
inductive InvalidValue where
  | control (code : UInt8)
  | phase (code : UInt8)
  | flag (code : UInt8)
  | queueLength (count : UInt8)
  | peerCount (count : UInt8)
  /-- The bytes of an address are not UTF-8. -/
  | addressEncoding
  /-- The text of an address is in no address's form. -/
  | address (text : List Char)
  deriving DecidableEq, Repr

/-- Why bytes are no message. -/
inductive DecodeError where
  | empty
  | unknownKind (code : UInt8)
  /-- A field of `needed` bytes begins where only `available` are left. -/
  | truncated (needed available : Nat)
  | invalid (value : InvalidValue)
  /-- The message is followed by further bytes. -/
  | surplus (count : Nat)
  deriving DecidableEq, Repr

/-- Why a message has no bytes. -/
inductive EncodeError where
  | tooLarge (size limit : Nat)
  | tooManyPeers (count : Nat)
  | queueTooLong (count : Nat)
  | textTooLong (size : Nat)
  deriving DecidableEq, Repr

/-- The wording of an invalid value. -/
def InvalidValue.message : InvalidValue → String
  | .control code => s!"Steuerbefehl {code}"
  | .phase code => s!"Bully-Phase {code}"
  | .flag code => s!"Bool-Byte {code}"
  | .queueLength count => s!"Warteschlangenlaenge {count}"
  | .peerCount count => s!"Peer-Anzahl {count}"
  | .addressEncoding => "Adresse ist kein UTF-8"
  | .address text => "Adresse '" ++ String.ofList text ++ "'"

/-- The wording of a decoding error. -/
def DecodeError.message : DecodeError → String
  | .empty => "Leerer Puffer"
  | .unknownKind code => s!"Unbekannter Nachrichtentyp: {code}"
  | .truncated needed available =>
    s!"Nachricht abgeschnitten: {needed} Bytes benoetigt, {available} vorhanden"
  | .invalid value => "Ungueltiger Wert: " ++ value.message
  | .surplus count => s!"{count} ueberzaehlige Bytes nach der Nachricht"

/-- The wording of an encoding error. -/
def EncodeError.message : EncodeError → String
  | .tooLarge size limit => s!"Nachricht zu gross: {size} Bytes (Maximum: {limit} Bytes)"
  | .tooManyPeers count => s!"Zu viele Peers: {count}"
  | .queueTooLong count => s!"Warteschlange zu lang: {count}"
  | .textTooLong size => s!"Zeichenkette zu lang: {size} Bytes"

end Ensemble
