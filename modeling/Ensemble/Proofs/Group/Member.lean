import Ensemble.Node.Handler
import Ensemble.Proofs.Message.Parcel
import Ensemble.Proofs.Playback.Queue

/-!
# What a member does that holds a table

A node `Holds` a table under an id. Each command and each message has one effect on the
coordinator's node, which acts and tells all others, and another on a node that follows it, which
tells the coordinator alone.

* `Node.Holds.control_leader`, `Node.Holds.control_follower` — commands given at the node.
* `Node.Holds.onControl_leader`, `Node.Holds.onControl_follower` — control operations of others.
* `Node.Holds.onStatus_leader`, `Node.Holds.onStatus_follower` — statuses of others.
-/

namespace Ensemble

namespace Node

/-- The node holds the table under the id, and `leader` is the table's coordinator. -/
structure Holds (n : Node) (id : PeerId) (t : PeerTable) (leader : Peer) : Prop where
  view_eq : n.view = View.adopt id t
  coordinator_eq : t.coordinator = some leader

variable {n : Node} {id : PeerId} {t : PeerTable} {leader : Peer}

namespace Holds

/-- A member derives the leader of its table. -/
theorem view_coordinator (h : n.Holds id t leader) : n.view.coordinator = some leader := by
  rw [h.view_eq]
  exact h.coordinator_eq

/-- The node leads if it has the coordinator's id. -/
theorem isCoordinator_leader (h : n.Holds leader.id t leader) : n.view.isCoordinator = true := by
  rw [h.view_eq]
  exact (PeerTable.isCoordinator_iff h.coordinator_eq leader.id).mpr rfl

/-- A follower knows that it does not lead. -/
theorem isCoordinator_follower (h : n.Holds id t leader) (hne : id ≠ leader.id) :
    n.view.isCoordinator = false := by
  rw [h.view_eq, ← Bool.not_eq_true]
  exact fun hleads => hne ((PeerTable.isCoordinator_iff h.coordinator_eq id).mp hleads)

/-- For a member the others are all but itself. -/
theorem others_eq (h : n.Holds id t leader) : n.view.others = t.except id := by
  rw [h.view_eq]
  rfl

/-- The node still holds the table after an operation on its player. -/
theorem applyOp (h : n.Holds id t leader) (op : ControlOp) :
    (n.applyOp op).Holds id t leader := ⟨h.view_eq, h.coordinator_eq⟩

/-! ## Commands given at the node -/

/-- The leader applies a control operation of its own and tells the others. -/
theorem control_leader (h : n.Holds leader.id t leader) (op : ControlOp) :
    n.control op = (n.applyOp op, parcelsTo (t.except leader.id) (.control op)) := by
  have hid : n.view.ownId = some leader.id := by rw [h.view_eq]; rfl
  simp only [control, hid, h.view_coordinator, if_true, h.others_eq]

/-- A follower leaves a control operation of its own to the leader. -/
theorem control_follower (h : n.Holds id t leader) (hne : id ≠ leader.id) (op : ControlOp) :
    n.control op = (n, parcelsTo [leader] (.control op)) := by
  have hid : n.view.ownId = some id := by rw [h.view_eq]; rfl
  simp only [control, hid, h.view_coordinator, if_neg (Ne.symm hne)]

/-! ## Messages of others -/

/-- The leader applies what it is asked for and tells the others. -/
theorem onControl_leader (h : n.Holds leader.id t leader) (op : ControlOp) :
    n.onControl op = (n.applyOp op, parcelsTo (t.except leader.id) (.control op)) := by
  have h' := h.applyOp op
  rw [onControl, if_pos h'.isCoordinator_leader, h'.others_eq]

/-- A follower applies what it is told and reports its status to the leader. -/
theorem onControl_follower (h : n.Holds id t leader) (hne : id ≠ leader.id) (op : ControlOp) :
    n.onControl op =
      (n.applyOp op, parcelsTo [leader] (.sendStatus (n.applyOp op).status)) := by
  have h' := h.applyOp op
  have hfollows : ¬ (n.applyOp op).view.isCoordinator = true := by
    rw [h'.isCoordinator_follower hne]
    exact Bool.false_ne_true
  rw [onControl, if_neg hfollows, h'.view_coordinator]

/-- The leader says nothing to a status that agrees with its own. -/
theorem onStatus_leader_of_agrees (h : n.Holds leader.id t leader) {s : PlaybackStatus}
    (hagrees : n.status.agrees s n.config.tolerance = true) (sender : Endpoint) :
    n.onStatus s sender = (n, []) := by
  rw [onStatus, if_pos h.isCoordinator_leader, if_pos hagrees]

/-- To any other status it answers with its own, and tells it to all. -/
theorem onStatus_leader_of_not_agrees (h : n.Holds leader.id t leader) {s : PlaybackStatus}
    (hdiffers : ¬ n.status.agrees s n.config.tolerance = true) (sender : Endpoint) :
    n.onStatus s sender = (n, parcelsTo (t.except leader.id) (.sendStatus n.status)) := by
  rw [onStatus, if_pos h.isCoordinator_leader, if_neg hdiffers, h.others_eq]

/-- Without the gate a follower takes over every status. -/
theorem onStatus_follower (h : n.Holds id t leader) (hne : id ≠ leader.id)
    (hgate : n.config.coordinatorOnly = false) (s : PlaybackStatus) (sender : Endpoint) :
    n.onStatus s sender = ({ n with player := n.player.setStatus s }, []) := by
  have hfollows : ¬ n.view.isCoordinator = true := by
    rw [h.isCoordinator_follower hne]
    exact Bool.false_ne_true
  have htrusts : n.trusts sender = true := by rw [trusts, hgate]; rfl
  rw [onStatus, if_neg hfollows, if_pos htrusts]

end Holds

/-! ## Bytes -/

/-- Bytes that are a control operation are handled as one, and not answered. -/
theorem receive_control {bytes : Bytes} {op : ControlOp}
    (h : Message.decode bytes = .ok (.control op)) (sender : Endpoint) :
    n.receive bytes sender = silently (n.onControl op) := by
  simp only [receive, h, handle]

/-- So are bytes that are a status. -/
theorem receive_status {bytes : Bytes} {s : PlaybackStatus}
    (h : Message.decode bytes = .ok (.sendStatus s)) (sender : Endpoint) :
    n.receive bytes sender = silently (n.onStatus s sender) := by
  simp only [receive, h, handle]

end Node

/-! ## Queues -/

/-- No control operation makes a queue too long. -/
theorem Player.Bounded.apply {p : Player} (h : p.Bounded) (op : ControlOp) :
    (op.apply p).Bounded := by
  cases op with
  | start => exact h.setPaused false
  | stop => exact h.setPaused true
  | skip => exact h.skip

/-- The status of a bounded player can be sent and taken over without loss. -/
theorem Player.Bounded.withinBounds {p : Player} (h : p.Bounded) :
    (Message.sendStatus p.status).WithinBounds := h

/-- A status that fits in a message is taken over as it is. -/
theorem Player.Bounded.status_setStatus {p : Player} (h : p.Bounded) (q : Player) :
    (q.setStatus p.status).status = p.status := by
  have htake : p.queue.take maxQueue = p.queue := List.take_of_length_le h
  rw [Player.status_setStatus]
  show { p.status with queue := p.queue.take maxQueue } = p.status
  rw [htake]
  rfl

end Ensemble
