import Ensemble.Peer.Json
import Ensemble.Proofs.Address.RoundTrip
import Ensemble.Proofs.Json.RoundTrip

/-!
# Membership tables survive JSON

The value of a table says which fields there are and of what kind: an id is a plain number, an
address is a string with its text. The text of a table is a written form of that value, so it is
read as the value; and from the value the table is put together again, with its hint as it stood.

* `PeerTable.isText_renderJson` — the text of a table is a written form of its value.
* `PeerTable.ofJson?_toJson` — the value of a table describes the table.
* `table_json_round_trip` — so reading gives the table back.
-/

namespace Ensemble

/-- The value of a peer: an object with its three fields. -/
def Peer.toJson (p : Peer) : Json :=
  .object [
    (some "adresse".toList, .string (some p.address.render)),
    (some "port".toList, .integer p.port.toNat),
    (some "id".toList, .integer p.id.number.toNat)]

/-- The value of a table: an object with the hint, as a number, and the list of peers. -/
def PeerTable.toJson (t : PeerTable) : Json :=
  .object [
    (some "koordinator_hinweis".toList, .integer t.hint.number.toNat),
    (some "peers".toList, .array (t.peers.map Peer.toJson))]

/-! ## Writing -/

/-- What is written for a peer is a text of its value. -/
theorem Peer.isText_renderJson (p : Peer) : Json.IsText p.renderJson p.toJson :=
  Json.isText_writeObject
    (.cons ⟨rfl, Json.isText_quote _⟩
      (.cons ⟨rfl, Json.isText_writeNat _⟩ (.cons ⟨rfl, Json.isText_writeNat _⟩ .nil)))

/-- The text of a table is a written form of its value. -/
theorem PeerTable.isText_renderJson (t : PeerTable) : Json.IsText t.renderJson t.toJson := by
  have hpeers : List.Forall₂ Json.IsText (t.peers.map Peer.renderJson) (t.peers.map Peer.toJson) := by
    rw [List.forall₂_map_left_iff, List.forall₂_map_right_iff, List.forall₂_same]
    exact fun p _ => p.isText_renderJson
  exact Json.isText_writeObject
    (.cons ⟨rfl, Json.isText_writeNat _⟩ (.cons ⟨rfl, Json.isText_writeArray hpeers⟩ .nil))

/-! ## Reading -/

/-- A word of 16 bits is read back from its number. -/
theorem Json.word16?_toNat (n : UInt16) : (Json.integer n.toNat).word16? = some n := by
  have hn : n.toNat < 65536 := n.toNat_lt
  rw [word16?, if_pos (by omega), Int.toNat_natCast, UInt16.ofNat_toNat]

/-- The value of a peer describes the peer. -/
theorem Peer.ofJson?_toJson (p : Peer) : Peer.ofJson? p.toJson = some p := by
  have hfields : p.toJson.fields? ["adresse", "port", "id"] =
      some [.string (some p.address.render), .integer p.port.toNat,
        .integer p.id.number.toNat] := rfl
  rw [Peer.ofJson?, hfields]
  simp only [Json.text?, Option.bind_eq_bind, Option.bind_some, IpAddress.parse?_render,
    Json.word16?_toNat]

/-- The value of a table describes the table. -/
theorem PeerTable.ofJson?_toJson (t : PeerTable) : PeerTable.ofJson? t.toJson = some t := by
  have hfields : t.toJson.fields? ["koordinator_hinweis", "peers"] =
      some [.integer t.hint.number.toNat, .array (t.peers.map Peer.toJson)] := rfl
  rw [PeerTable.ofJson?, hfields]
  simp only [Option.bind_eq_bind, Option.bind_some, Json.word16?_toNat,
    mapM_map_of_leftInverse Peer.ofJson?_toJson]

/-- A table survives JSON. Its text holds exactly the declared fields, ids as plain numbers and
addresses as their texts; read back it is the same table, however many peers it has, of whichever
version their addresses are, and whatever its hint. So the hint is the one that was stored, also if
it is not the id of the coordinator, and the coordinator is the same. -/
theorem table_json_round_trip (t : PeerTable) :
    Json.parse? t.renderJson = some t.toJson ∧
      PeerTable.parseJson? t.renderJson = some t ∧
      ∀ t', PeerTable.parseJson? t.renderJson = some t' →
        t'.hint = t.hint ∧ t'.coordinator = t.coordinator := by
  have hvalue := t.isText_renderJson.parse?_eq
  have htable : PeerTable.parseJson? t.renderJson = some t := by
    rw [PeerTable.parseJson?, hvalue, Option.bind_some, t.ofJson?_toJson]
  refine ⟨hvalue, htable, fun t' ht' => ?_⟩
  obtain rfl : t = t' := Option.some.inj (htable.symm.trans ht')
  exact ⟨rfl, rfl⟩

/-- A hint that nobody has is written as it stands. -/
example :
    (⟨⟨9⟩, [⟨.v6 ⟨[0, 0, 0, 0, 0, 0, 0, 1], rfl⟩, 80, ⟨7⟩⟩]⟩ : PeerTable).renderJson =
      "\x7b\"koordinator_hinweis\":9,\"peers\":".toList ++
        "[\x7b\"adresse\":\"::1\",\"port\":80,\"id\":7\x7d]\x7d".toList := by
  decide +kernel

end Ensemble
