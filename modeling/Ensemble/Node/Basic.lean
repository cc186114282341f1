import Ensemble.Message.Parcel
import Ensemble.Playback.Player

/-!
# Nodes

A `Node` is a member's own state: its configuration, its `View` of the group (the id it was given
and the table it last received), and its player. Whatever a node sends goes out as `Parcel`s, in
the order in which they were put in the outbox.

The coordinator is derived from the table at every question. A local operation takes effect here
only if this node is the coordinator or knows of none; otherwise it goes to the coordinator.
-/

namespace Ensemble

/-- How a node is set up. -/
structure NodeConfig where
  /-- Where the node listens; the service learns it when the node registers. -/
  listenPort : UInt16
  /-- The time limit for outgoing exchanges, in milliseconds. -/
  timeLimit : Nat
  /-- By how many seconds two statuses may differ and still agree. -/
  tolerance : UInt32
  /-- Take over a status only from the coordinator. -/
  coordinatorOnly : Bool
  deriving DecidableEq, Repr

/-- A node's view of the group. -/
structure View where
  /-- The node's id, once it has received a table of its own. -/
  ownId : Option PeerId
  table : PeerTable
  deriving DecidableEq, Repr

/-- A member of the group. -/
structure Node where
  config : NodeConfig
  view : View
  player : Player
  deriving DecidableEq, Repr

namespace View

/-- The view before any registration. -/
def empty : View := ⟨none, PeerTable.empty⟩

/-- Take over a table and the id that came with it. -/
def adopt (ownId : PeerId) (table : PeerTable) : View := ⟨some ownId, table⟩

/-- Take over peers; the id and the hint stay. -/
def replacePeers (v : View) (peers : List Peer) : View :=
  { v with table := { v.table with peers } }

/-- The member that all others follow. -/
def coordinator (v : View) : Option Peer := v.table.coordinator

/-- Whether this node is the coordinator. -/
def isCoordinator (v : View) : Bool :=
  match v.ownId with
  | some id => v.table.isCoordinator id
  | none => false

/-- The peers other than this node; all of them if it has no id. -/
def others (v : View) : List Peer :=
  match v.ownId with
  | some id => v.table.except id
  | none => v.table.peers

end View

/-- Apply a control operation to a player. -/
def ControlOp.apply : ControlOp → Player → Player
  | .start, p => p.setPaused false
  | .stop, p => p.setPaused true
  | .skip, p => p.skip

namespace Node

/-- A node that has not registered. -/
def start (config : NodeConfig) (player : Player) : Node := ⟨config, View.empty, player⟩

/-- What the node shares about its player. -/
def status (n : Node) : PlaybackStatus := n.player.status

/-- Apply a control operation here. -/
def applyOp (n : Node) (op : ControlOp) : Node := { n with player := op.apply n.player }

/-- Forget the id and the table. -/
def forget (n : Node) : Node := { n with view := View.empty }

/-! ## Local operations -/

/-- A control operation that is given at this node. -/
def control (n : Node) (op : ControlOp) : Node × List Parcel :=
  match n.view.ownId with
  | none => (n.applyOp op, [])
  | some id =>
    match n.view.coordinator with
    -- A table without peers has nobody to follow.
    | none => (n.applyOp op, [])
    | some leader =>
      if leader.id = id then (n.applyOp op, parcelsTo n.view.others (.control op))
      else (n, parcelsTo [leader] (.control op))

/-- Pause if the player plays, go on if it is paused. -/
def togglePause (n : Node) : Node × List Parcel :=
  n.control (if n.player.paused then .start else .stop)

/-- Jump to the next song. -/
def skip (n : Node) : Node × List Parcel := n.control .skip

/-- Append a song here and at all others, whether there is room for it here or not. -/
def enqueue (n : Node) (song : SongId) : Node × List Parcel :=
  ({ n with player := n.player.enqueue song }, parcelsTo n.view.others (.changeSong song true))

/-- Whether the queue has room for a song. -/
def accepts (n : Node) : Bool := decide (n.player.queue.length < maxQueue)

end Node

end Ensemble
