import Ensemble.Address.Parser
import Ensemble.Message.Encode

/-!
# Reading a message

The fields of a message are read in their order on the wire. The first one that is cut short or
stands for no value decides the error, and bytes after the last field are refused at the end.
-/

namespace Ensemble

/-- A reader takes a value from the front of its bytes and leaves the rest. -/
abbrev Reader := StateT Bytes (Except DecodeError)

namespace Reader

/-- Refuse a value. -/
def refuse {α : Type} (value : InvalidValue) : Reader α := fun _ => .error (.invalid value)

/-- One byte. -/
def byte : Reader UInt8
  | b :: rest => .ok (b, rest)
  | [] => .error (.truncated 1 0)

/-- A word of two bytes. -/
def word16 : Reader UInt16
  | a :: b :: rest => .ok (UInt16.ofNat (a.toNat * 256 + b.toNat), rest)
  | bytes => .error (.truncated 2 bytes.length)

/-- A word of four bytes. -/
def word32 : Reader UInt32
  | a :: b :: c :: d :: rest =>
    .ok (UInt32.ofNat (((a.toNat * 256 + b.toNat) * 256 + c.toNat) * 256 + d.toNat), rest)
  | bytes => .error (.truncated 4 bytes.length)

/-- A number of bytes. -/
def take (n : Nat) : Reader Bytes := fun bytes =>
  if bytes.length < n then .error (.truncated n bytes.length)
  else .ok (bytes.take n, bytes.drop n)

/-- A number of values, one after the other. -/
def many {α : Type} (item : Reader α) : Nat → Reader (List α)
  | 0 => pure []
  | n + 1 => do
    let first ← item
    let others ← many item n
    pure (first :: others)

/-- A flag. -/
def flag : Reader Bool := do
  match ← byte with
  | 0 => pure false
  | 1 => pure true
  | other => refuse (.flag other)

/-- The number of a song. -/
def song : Reader SongId := do
  let w ← word32
  pure w.toInt32

/-- A member's id. -/
def peerId : Reader PeerId := do
  let w ← word16
  pure ⟨w⟩

/-- A control operation. -/
def control : Reader ControlOp := do
  let code ← byte
  match ControlOp.ofCode? code with
  | some op => pure op
  | none => refuse (.control code)

/-- An election phase. -/
def phase : Reader ElectionPhase := do
  let code ← byte
  match ElectionPhase.ofCode? code with
  | some phase => pure phase
  | none => refuse (.phase code)

/-- A status. -/
def status : Reader PlaybackStatus := do
  let current ← song
  let elapsed ← word32
  let paused ← flag
  let count ← byte
  -- The count is refused before any song is read.
  if maxQueue < count.toNat then refuse (.queueLength count)
  else
    let queue ← many song count.toNat
    pure ⟨current, elapsed, paused, queue⟩

/-- An address, written as text. -/
def address : Reader IpAddress := do
  let length ← byte
  let bytes ← take length.toNat
  match Utf8.decode? bytes with
  | none => refuse .addressEncoding
  | some text =>
    match IpAddress.parse? text with
    | none => refuse (.address text)
    | some a => pure a

/-- A peer. -/
def peer : Reader Peer := do
  let address ← address
  let port ← word16
  let id ← peerId
  pure ⟨address, port, id⟩

/-- A list of peers. -/
def peers : Reader (List Peer) := do
  let count ← byte
  if maxPeers < count.toNat then refuse (.peerCount count)
  else many peer count.toNat

/-- The fields of a message of a kind. -/
def message : MessageKind → Reader Message
  | .control => do
    let op ← control
    pure (.control op)
  | .changeSong => do
    let song ← song
    let enqueue ← flag
    pure (.changeSong song enqueue)
  | .disconnect => do
    let listenPort ← word16
    pure (.disconnect listenPort)
  | .connect => do
    let listenPort ← word16
    pure (.connect listenPort)
  | .queryStatus => pure .queryStatus
  | .sendStatus => do
    let status ← status
    pure (.sendStatus status)
  | .election => do
    let phase ← phase
    pure (.election phase)
  | .clientList => do
    let ownId ← peerId
    let hint ← peerId
    let peers ← peers
    pure (.clientList ownId ⟨hint, peers⟩)
  | .clientListUpdate => do
    let peers ← peers
    pure (.clientListUpdate peers)

end Reader

/-- Read exactly one message. -/
def Message.decode : Bytes → Except DecodeError Message
  | [] => .error .empty
  | code :: fields =>
    match MessageKind.ofCode? code with
    | none => .error (.unknownKind code)
    | some kind =>
      match Reader.message kind fields with
      | .error e => .error e
      | .ok (m, []) => .ok m
      | .ok (_, rest) => .error (.surplus rest.length)

end Ensemble
