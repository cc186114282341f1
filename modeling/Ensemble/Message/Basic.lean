import Ensemble.Peer.Table
import Ensemble.Playback.Status

/-!
# The messages of the cluster

The closed sum of everything that members and the membership service say to each other. Each message
has a `MessageKind`, whose code is the first byte of its wire form.
-/

namespace Ensemble

/-- A command to the player of every member. -/
inductive ControlOp where
  | start
  | stop
  | skip
  deriving DecidableEq, Repr

/-- The phases of an election; the kind is reserved, and no member ever sends one. -/
inductive ElectionPhase where
  | election
  | answer
  | victory
  deriving DecidableEq, Repr

/-- What kind of message it is. -/
inductive MessageKind where
  | control
  | changeSong
  | disconnect
  | connect
  | queryStatus
  | sendStatus
  | election
  | clientList
  | clientListUpdate
  deriving DecidableEq, Repr

/-- One message. -/
inductive Message where
  /-- Apply an operation to the player. -/
  | control (op : ControlOp)
  /-- Append a song to the queue, if the flag is set. -/
  | changeSong (song : SongId) (enqueue : Bool)
  /-- Leave the group; the port names the entry together with the sender's address. -/
  | disconnect (listenPort : UInt16)
  /-- Join the group, listening on the given port. -/
  | connect (listenPort : UInt16)
  /-- Ask for the status. -/
  | queryStatus
  /-- State one's status. -/
  | sendStatus (status : PlaybackStatus)
  /-- Take part in an election. -/
  | election (phase : ElectionPhase)
  /-- The receiver's id, and the whole table. -/
  | clientList (ownId : PeerId) (table : PeerTable)
  /-- New peers for the receiver's table; its id and hint stay. -/
  | clientListUpdate (peers : List Peer)
  deriving DecidableEq, Repr

/-! ## Codes -/

/-- The byte of a control operation. -/
def ControlOp.code : ControlOp → UInt8
  | .start => 1
  | .stop => 2
  | .skip => 3

/-- The control operation of a byte. -/
def ControlOp.ofCode? : UInt8 → Option ControlOp
  | 1 => some .start
  | 2 => some .stop
  | 3 => some .skip
  | _ => none

/-- The written name of a control operation. -/
def ControlOp.name : ControlOp → String
  | .start => "START"
  | .stop => "STOP"
  | .skip => "SKIP"

/-- The byte of an election phase. -/
def ElectionPhase.code : ElectionPhase → UInt8
  | .election => 1
  | .answer => 2
  | .victory => 3

/-- The election phase of a byte. -/
def ElectionPhase.ofCode? : UInt8 → Option ElectionPhase
  | 1 => some .election
  | 2 => some .answer
  | 3 => some .victory
  | _ => none

/-- The written name of an election phase. -/
def ElectionPhase.name : ElectionPhase → String
  | .election => "Election"
  | .answer => "Answer"
  | .victory => "Victory"

/-- The first byte of every message of a kind. -/
def MessageKind.code : MessageKind → UInt8
  | .control => 0
  | .changeSong => 1
  | .disconnect => 2
  | .connect => 3
  | .queryStatus => 4
  | .sendStatus => 5
  | .election => 6
  | .clientList => 7
  | .clientListUpdate => 8

/-- The kind of message that a first byte announces. -/
def MessageKind.ofCode? : UInt8 → Option MessageKind
  | 0 => some .control
  | 1 => some .changeSong
  | 2 => some .disconnect
  | 3 => some .connect
  | 4 => some .queryStatus
  | 5 => some .sendStatus
  | 6 => some .election
  | 7 => some .clientList
  | 8 => some .clientListUpdate
  | _ => none

/-- The written name of a kind. -/
def MessageKind.name : MessageKind → String
  | .control => "ControlMusic"
  | .changeSong => "ChangeSong"
  | .disconnect => "Disconnect"
  | .connect => "Connect"
  | .queryStatus => "QueryStatus"
  | .sendStatus => "SendStatus"
  | .election => "Bully"
  | .clientList => "ConnectorList"
  | .clientListUpdate => "ConnectorListUpdate"

/-- The kind of a message. -/
def Message.kind : Message → MessageKind
  | .control _ => .control
  | .changeSong _ _ => .changeSong
  | .disconnect _ => .disconnect
  | .connect _ => .connect
  | .queryStatus => .queryStatus
  | .sendStatus _ => .sendStatus
  | .election _ => .election
  | .clientList _ _ => .clientList
  | .clientListUpdate _ => .clientListUpdate

@[simp] theorem MessageKind.ofCode?_code (kind : MessageKind) : ofCode? kind.code = some kind := by
  cases kind <;> rfl

end Ensemble
