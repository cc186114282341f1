import Ensemble.Address.Printer

/-!
# Peers

A `Peer` is one member of the group: the endpoint on which it listens and the id that the membership
service gave it. Peers are compared by id, then address, then port, and this order `Peer.Below`
separates different peers, so that colliding ids never leave the choice of a highest peer open.

* `Peer.below_or_below` — of two peers one stands below the other.
* `Peer.eq_of_below_of_below` — two peers that stand below each other are the same peer.
-/

namespace Ensemble

/-- The largest number of peers that a table in a message may hold. -/
def maxPeers : Nat := 16

/-- The id of a member, drawn by the membership service. -/
structure PeerId where
  number : UInt16
  deriving DecidableEq, Repr

instance : Inhabited PeerId := ⟨⟨0⟩⟩

instance : ToString PeerId := ⟨fun id => s!"peer:{id.number.toNat}"⟩

/-- A member of the group: the endpoint on which it listens, and its id. -/
structure Peer where
  address : IpAddress
  port : UInt16
  id : PeerId
  deriving DecidableEq, Repr

namespace Peer

/-- The peer that listens at `e`. -/
def ofEndpoint (e : Endpoint) (id : PeerId) : Peer := ⟨e.address, e.port, id⟩

/-- Where the peer listens. -/
def endpoint (p : Peer) : Endpoint := ⟨p.address, p.port⟩

/-- The written form, in which an address of version 6 has no brackets. -/
def render (p : Peer) : String :=
  s!"{p.address}:{p.port.toNat} ({p.id})"

instance : ToString Peer := ⟨render⟩

/-- The order of peers: by id, then by address, then by port. -/
def Below (p q : Peer) : Prop :=
  p.id.number.toNat < q.id.number.toNat ∨
    p.id.number.toNat = q.id.number.toNat ∧
      (p.address.rank < q.address.rank ∨
        p.address.rank = q.address.rank ∧ p.port.toNat ≤ q.port.toNat)

instance (p q : Peer) : Decidable (Below p q) := by
  unfold Below
  infer_instance

@[simp] theorem endpoint_ofEndpoint (e : Endpoint) (id : PeerId) :
    (ofEndpoint e id).endpoint = e := rfl

theorem below_refl (p : Peer) : Below p p := by simp [Below]

theorem below_trans {p q r : Peer} (hpq : Below p q) (hqr : Below q r) : Below p r := by
  unfold Below at *
  omega

/-- Of two peers one stands below the other. -/
theorem below_or_below (p q : Peer) : Below p q ∨ Below q p := by
  unfold Below
  omega

/-- Two peers that stand below each other are the same peer. -/
theorem eq_of_below_of_below {p q : Peer} (hpq : Below p q) (hqp : Below q p) : p = q := by
  obtain ⟨a, x, ⟨i⟩⟩ := p
  obtain ⟨b, y, ⟨j⟩⟩ := q
  unfold Below at *
  simp only at hpq hqp
  have hi : i = j := UInt16.toNat_inj.mp (by omega)
  have ha : a = b := IpAddress.rank_injective (by omega)
  have hx : x = y := UInt16.toNat_inj.mp (by omega)
  rw [hi, ha, hx]

end Peer

end Ensemble
