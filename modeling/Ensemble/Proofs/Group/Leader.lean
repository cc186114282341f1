import Ensemble.Proofs.Cluster.Agreement
import Ensemble.Proofs.Group.Member
import Ensemble.Proofs.Peer.Key

/-!
# Who leads depends only on who is in the table

The coordinator is the member with the highest key, so the order of a table and repetitions in it
do not matter, and neither do colliding ids. Nodes that hold the same members therefore leave their
control operations to the same peer, and the node that has this peer's id passes them on.

* `highest_eq_some_iff` — the highest peer is the member with no member above it.
* `Node.ledBy_of_coordinator` — what the coordinator of a node's table makes the node do.
* `coordinator_of_members` — tables with the same members have the same coordinator.
-/

namespace Ensemble

variable {ps qs : List Peer} {c : Peer}

/-- The highest peer is the member whose key no other member's key exceeds. -/
theorem highest_eq_some_iff : highest ps = some c ↔ c ∈ ps ∧ ∀ p ∈ ps, p.key ≤ c.key := by
  constructor
  · intro h
    refine ⟨mem_of_highest_eq_some h, fun p hp => ?_⟩
    exact (p.below_iff_key_le c).mp (below_of_highest_eq_some h hp)
  · rintro ⟨hmem, habove⟩
    obtain ⟨b, hb⟩ : ∃ b, highest ps = some b := by
      refine Option.ne_none_iff_exists'.mp fun hnone => ?_
      exact List.ne_nil_of_mem hmem (highest_eq_none_iff.mp hnone)
    -- Two members that stand below each other are the same peer.
    have hbc : b.Below c := (b.below_iff_key_le c).mpr (habove b (mem_of_highest_eq_some hb))
    have hcb : c.Below b := below_of_highest_eq_some hb hmem
    rw [hb, Peer.eq_of_below_of_below hbc hcb]

/-- Lists with the same members have the same highest peer. -/
theorem highest_congr (h : ∀ p, p ∈ ps ↔ p ∈ qs) : highest ps = highest qs := by
  refine Option.ext fun c => ?_
  rw [highest_eq_some_iff, highest_eq_some_iff, h c]
  exact and_congr_right fun _ => forall_congr' fun p => imp_congr_left (h p)

/-- A table that states its own coordinator states the id of the highest peer. -/
theorem hint_ofPeers (h : highest ps = some c) : (PeerTable.ofPeers ps).hint = c.id := by
  rw [PeerTable.ofPeers, h]
  rfl

namespace Node

/-- The node follows the peer, or, under the peer's id, leads in its place. -/
structure LedBy (n : Node) (leader : Peer) : Prop where
  isCoordinator_iff : n.view.isCoordinator = true ↔ n.view.ownId = some leader.id
  /-- Under another id it forwards what is asked of it to the leader alone, and does nothing. -/
  forwards : ∀ id op, n.view.ownId = some id → id ≠ leader.id →
    n.control op = (n, parcelsTo [leader] (.control op))
  /-- It does what others ask of it, and reports to the leader alone. -/
  reports : ∀ id op, n.view.ownId = some id → id ≠ leader.id →
    n.onControl op = (n.applyOp op, parcelsTo [leader] (.sendStatus (n.applyOp op).status))
  /-- Under the leader's id it does what is asked of it, by whomever, and relays it to others. -/
  relays : ∀ op, n.view.ownId = some leader.id →
    n.control op = (n.applyOp op, parcelsTo n.view.others (.control op)) ∧
      n.onControl op = (n.applyOp op, parcelsTo n.view.others (.control op))

variable {n : Node} {leader : Peer} {id : PeerId}

/-- A node with an id holds its table under this id. -/
theorem holds_of_coordinator (h : n.view.coordinator = some leader) (hid : n.view.ownId = some id) :
    n.Holds id n.view.table leader where
  view_eq := by
    rw [View.adopt, ← hid]
  coordinator_eq := h

/-- The coordinator of its table is the peer by whom a node is led. -/
theorem ledBy_of_coordinator (h : n.view.coordinator = some leader) : n.LedBy leader where
  isCoordinator_iff := by
    rw [View.isCoordinator]
    cases hid : n.view.ownId with
    | none => simp
    | some id => simp [PeerTable.isCoordinator_iff h id]
  forwards id op hid hne := (holds_of_coordinator h hid).control_follower hne op
  reports id op hid hne := (holds_of_coordinator h hid).onControl_follower hne op
  relays op hid := by
    have hholds := holds_of_coordinator h hid
    rw [hholds.others_eq]
    exact ⟨hholds.control_leader op, hholds.onControl_leader op⟩

end Node

/-- Tables with the same members, in whatever order and however often, have the same coordinator:
none if there is no member, and otherwise the member with the highest key. Both tables, when their
sender computes the hint, state its id, and every node to which either is brought is led by it. -/
theorem coordinator_of_members (t t' : PeerTable) (h : ∀ p, p ∈ t.peers ↔ p ∈ t'.peers) :
    t.coordinator = t'.coordinator ∧
      (t.coordinator = none ↔ t.peers = []) ∧
      (∀ c, t.coordinator = some c ↔ c ∈ t.peers ∧ ∀ p ∈ t.peers, p.key ≤ c.key) ∧
      ∀ c, t.coordinator = some c →
        (PeerTable.ofPeers t.peers).hint = c.id ∧ (PeerTable.ofPeers t'.peers).hint = c.id ∧
          ∀ (n : Node) (parcel : Parcel) (sender : Endpoint),
            parcel.Brings t.peers ∨ parcel.Brings t'.peers →
              (n.receive parcel.bytes sender).node.LedBy c := by
  have hsame : highest t.peers = highest t'.peers := highest_congr h
  refine ⟨hsame, highest_eq_none_iff, fun c => highest_eq_some_iff, fun c hc => ?_⟩
  have hc' : highest t'.peers = some c := hsame ▸ hc
  refine ⟨hint_ofPeers hc, hint_ofPeers hc', fun n parcel sender hbrings => ?_⟩
  refine Node.ledBy_of_coordinator ?_
  rw [View.coordinator, PeerTable.coordinator]
  rcases hbrings with hbrings | hbrings
  · rw [hbrings.peers_receive n sender]
    exact hc
  · rw [hbrings.peers_receive n sender]
    exact hc'

/-- Three members of both versions, two of them with one id. -/
def collidingTable : PeerTable :=
  ⟨⟨0⟩, [⟨.v4 ⟨255, 0, 0, 1⟩, 43210, ⟨7⟩⟩, ⟨.v6 ⟨[0, 0, 0, 0, 0, 0, 0, 1], rfl⟩, 80, ⟨7⟩⟩,
    ⟨.v4 ⟨10, 0, 0, 3⟩, 43210, ⟨3⟩⟩]⟩

/-- The same members in another order, one of them twice. -/
def shuffledTable : PeerTable :=
  ⟨⟨3⟩, [⟨.v4 ⟨10, 0, 0, 3⟩, 43210, ⟨3⟩⟩, ⟨.v6 ⟨[0, 0, 0, 0, 0, 0, 0, 1], rfl⟩, 80, ⟨7⟩⟩,
    ⟨.v4 ⟨255, 0, 0, 1⟩, 43210, ⟨7⟩⟩, ⟨.v4 ⟨10, 0, 0, 3⟩, 43210, ⟨3⟩⟩]⟩

/-- The same members in another order, among them two with one id, have the same coordinator. -/
theorem coordinator_of_members_shuffled :
    (∀ p, p ∈ collidingTable.peers ↔ p ∈ shuffledTable.peers) ∧
      collidingTable.coordinator = some ⟨.v6 ⟨[0, 0, 0, 0, 0, 0, 0, 1], rfl⟩, 80, ⟨7⟩⟩ ∧
      shuffledTable.coordinator = some ⟨.v6 ⟨[0, 0, 0, 0, 0, 0, 0, 1], rfl⟩, 80, ⟨7⟩⟩ ∧
      ∃ parcel : Parcel, parcel.Brings shuffledTable.peers ∧
        ∀ (n : Node) (sender : Endpoint), (n.receive parcel.bytes sender).node.LedBy
          ⟨.v6 ⟨[0, 0, 0, 0, 0, 0, 0, 1], rfl⟩, 80, ⟨7⟩⟩ := by
  have hmembers : ∀ p, p ∈ collidingTable.peers ↔ p ∈ shuffledTable.peers := by
    intro p
    simp only [collidingTable, shuffledTable, List.mem_cons, List.not_mem_nil, or_false]
    tauto
  obtain ⟨hsame, -, -, hled⟩ := coordinator_of_members collidingTable shuffledTable hmembers
  have hleader : collidingTable.coordinator =
      some ⟨.v6 ⟨[0, 0, 0, 0, 0, 0, 0, 1], rfl⟩, 80, ⟨7⟩⟩ := by decide
  obtain ⟨bytes, -, hdecode, -⟩ :=
    exists_parcelsTo (m := .clientListUpdate shuffledTable.peers)
      (show shuffledTable.peers.length ≤ maxPeers by decide)
  have hbrings : Parcel.Brings ⟨⟨.v4 ⟨10, 0, 0, 3⟩, 43210⟩, bytes⟩ shuffledTable.peers :=
    ⟨_, hdecode, rfl⟩
  exact ⟨hmembers, hleader, hsame ▸ hleader, _, hbrings,
    fun n sender => (hled _ hleader).2.2 n _ sender (.inr hbrings)⟩

end Ensemble
