import Ensemble.Address.Parser
import Ensemble.Json.Parser
import Ensemble.Json.Printer
import Ensemble.Peer.Table

/-!
# Membership tables as JSON

A table is an object with the hint and the list of peers, a peer an object with its address, its
port and its id. Reading also takes a record that is written as an array of its fields in order, and
ignores names that no record has. The hint is kept as it stands and not computed anew.
-/

namespace Ensemble

/-- The text of a peer. -/
def Peer.renderJson (p : Peer) : List Char :=
  Json.writeObject [
    ("adresse", Json.quote p.address.render),
    ("port", Json.writeNat p.port.toNat),
    ("id", Json.writeNat p.id.number.toNat)]

/-- The text of a table. -/
def PeerTable.renderJson (t : PeerTable) : List Char :=
  Json.writeObject [
    ("koordinator_hinweis", Json.writeNat t.hint.number.toNat),
    ("peers", Json.writeArray (t.peers.map Peer.renderJson))]

/-- The peer that a value describes. -/
def Peer.ofJson? (value : Json) : Option Peer :=
  match value.fields? ["adresse", "port", "id"] with
  | some [address, port, id] => do
    let text ← address.text?
    let address ← IpAddress.parse? text
    let port ← port.word16?
    let id ← id.word16?
    some ⟨address, port, ⟨id⟩⟩
  | _ => none

/-- The table that a value describes. -/
def PeerTable.ofJson? (value : Json) : Option PeerTable :=
  match value.fields? ["koordinator_hinweis", "peers"] with
  | some [hint, .array peers] => do
    let hint ← hint.word16?
    let peers ← peers.mapM Peer.ofJson?
    some ⟨⟨hint⟩, peers⟩
  | _ => none

/-- Read the text of a table. -/
def PeerTable.parseJson? (text : List Char) : Option PeerTable :=
  (Json.parse? text).bind PeerTable.ofJson?

end Ensemble
