import Ensemble.Message.Decode
import Ensemble.Node.Basic
import Ensemble.Transport.Exchange

/-!
# What a node does with a message

A control operation takes effect at once. The coordinator then passes it on to all others; every
other node states its status to the coordinator, which compares it with its own and, if the two do
not agree, sends its own to all others. Only a question for the status is answered.
-/

namespace Ensemble.Node

/-- What became of a message: the node afterwards, the answer to the sender, and what was sent. -/
structure Reaction where
  node : Node
  answer : Answer
  sent : List Parcel

/-- A reaction without an answer. -/
def silently (result : Node × List Parcel) : Reaction := ⟨result.1, Answer.none, result.2⟩

/-- A control operation from another member. -/
def onControl (n : Node) (op : ControlOp) : Node × List Parcel :=
  let n := n.applyOp op
  if n.view.isCoordinator then (n, parcelsTo n.view.others (.control op))
  else
    -- The status is stated after the operation, for the coordinator to compare.
    match n.view.coordinator with
    | some leader => (n, parcelsTo [leader] (.sendStatus n.status))
    | none => (n, [])

/-- Whether a status from `sender` may be taken over. -/
def trusts (n : Node) (sender : Endpoint) : Bool :=
  !n.config.coordinatorOnly ||
    match n.view.coordinator with
    | some leader => leader.address == sender.address
    | none => false

/-- The status of another member. -/
def onStatus (n : Node) (status : PlaybackStatus) (sender : Endpoint) : Node × List Parcel :=
  if n.view.isCoordinator then
    if n.status.agrees status n.config.tolerance then (n, [])
    else (n, parcelsTo n.view.others (.sendStatus n.status))
  else if n.trusts sender then ({ n with player := n.player.setStatus status }, [])
  else (n, [])

/-- The answer to a question for the status. -/
def statusAnswer (n : Node) : Answer :=
  match (Message.sendStatus n.status).encode with
  | .ok bytes => ⟨true, bytes⟩
  | .error _ => Answer.none

/-- What a node does with a message. -/
def handle (n : Node) (m : Message) (sender : Endpoint) : Reaction :=
  match m with
  | .control op => silently (n.onControl op)
  | .changeSong song enqueue =>
    silently (if enqueue then { n with player := n.player.enqueue song } else n, [])
  | .queryStatus => ⟨n, n.statusAnswer, []⟩
  | .sendStatus status => silently (n.onStatus status sender)
  | .clientList ownId table => silently ({ n with view := View.adopt ownId table }, [])
  | .clientListUpdate peers => silently ({ n with view := n.view.replacePeers peers }, [])
  | .connect _ | .disconnect _ | .election _ => silently (n, [])

/-- What a node does with received bytes; bytes that are no message have no effect. -/
def receive (n : Node) (bytes : Bytes) (sender : Endpoint) : Reaction :=
  match Message.decode bytes with
  | .ok m => n.handle m sender
  | .error _ => silently (n, [])

/-- The handler of a session with `sender`; the state is the node and what it has sent so far. -/
def sessionHandler (sender : Endpoint) : Handler (Node × List Parcel) := fun (n, sent) bytes =>
  let reaction := n.receive bytes sender
  ((reaction.node, sent ++ reaction.sent), reaction.answer)

end Ensemble.Node
