import Ensemble.Message.Basic
import Ensemble.Message.Error
import Ensemble.Text.Utf8

/-!
# The wire form of a message

A message is the byte of its kind, followed by its fields. Numbers are big-endian, a flag is one
byte, and a text or a list is preceded by one byte with its length. Addresses travel as text.

```text
Peer              length u8, address | port u16 | id u16
SendStatus        song i32 | elapsed u32 | paused u8 | count u8 | count × song i32
ConnectorList     own id u16 | hint u16 | count u8 | count × Peer
```

`Message.encode` gives the bytes of a message as a whole. `Message.appendTo` writes them field by
field at the end of a buffer, and cuts the buffer back to its old length if one of the fields has no
bytes.
-/

namespace Ensemble

/-- The size of the buffer that one exchange reads or writes. -/
def maxMessageSize : Nat := 1024

namespace Wire

/-- The two bytes of a word. -/
def word16 (w : UInt16) : Bytes := [(w >>> 8).toUInt8, w.toUInt8]

/-- The four bytes of a word. -/
def word32 (w : UInt32) : Bytes :=
  [(w >>> 24).toUInt8, (w >>> 16).toUInt8, (w >>> 8).toUInt8, w.toUInt8]

/-- The byte of a flag. -/
def flag (b : Bool) : UInt8 := if b then 1 else 0

/-- The four bytes of a song's number. -/
def song (s : SongId) : Bytes := word32 s.toUInt32

/-- The fields of a status. -/
def status (s : PlaybackStatus) : Except EncodeError Bytes :=
  if maxQueue < s.queue.length then .error (.queueTooLong s.queue.length)
  else .ok (song s.song ++ word32 s.elapsed ++
    flag s.paused :: UInt8.ofNat s.queue.length :: s.queue.flatMap song)

/-- The fields of one peer, its address as a text of at most 255 bytes. -/
def peer (p : Peer) : Except EncodeError Bytes :=
  let text := Utf8.encode p.address.render
  if 255 < text.length then .error (.textTooLong text.length)
  else .ok (UInt8.ofNat text.length :: text ++ word16 p.port ++ word16 p.id.number)

/-- The fields of peers in order. -/
def peerFields : List Peer → Except EncodeError Bytes
  | [] => .ok []
  | p :: rest =>
    match peer p with
    | .error e => .error e
    | .ok first =>
      match peerFields rest with
      | .error e => .error e
      | .ok others => .ok (first ++ others)

/-- A list of at most `maxPeers` peers. -/
def peers (ps : List Peer) : Except EncodeError Bytes :=
  if maxPeers < ps.length then .error (.tooManyPeers ps.length)
  else (peerFields ps).map (UInt8.ofNat ps.length :: ·)

/-- The fields of a message after the byte of its kind. -/
def fields : Message → Except EncodeError Bytes
  | .control op => .ok [op.code]
  | .changeSong s enqueue => .ok (song s ++ [flag enqueue])
  | .disconnect listenPort => .ok (word16 listenPort)
  | .connect listenPort => .ok (word16 listenPort)
  | .queryStatus => .ok []
  | .sendStatus s => status s
  | .election phase => .ok [phase.code]
  | .clientList ownId table =>
    (peers table.peers).map fun list => word16 ownId.number ++ word16 table.hint.number ++ list
  | .clientListUpdate ps => peers ps

end Wire

/-- The bytes of a message. -/
def Message.encode (m : Message) : Except EncodeError Bytes :=
  match Wire.fields m with
  | .error e => .error e
  | .ok fields =>
    let bytes := m.kind.code :: fields
    if bytes.length ≤ maxMessageSize then .ok bytes
    else .error (.tooLarge bytes.length maxMessageSize)

/-! ## Writing into a buffer -/

/-- A writer adds to the end of a buffer. What it added before an error is still there after it. -/
abbrev Writer := ExceptT EncodeError (StateM Bytes)

namespace Writer

/-- Add bytes. -/
def put (bytes : Bytes) : Writer Unit := modify (· ++ bytes)

/-- Add the fields of a status. -/
def status (s : PlaybackStatus) : Writer Unit :=
  if maxQueue < s.queue.length then throw (.queueTooLong s.queue.length)
  else do
    put (Wire.song s.song)
    put (Wire.word32 s.elapsed)
    put [Wire.flag s.paused]
    put [UInt8.ofNat s.queue.length]
    s.queue.forM fun song => put (Wire.song song)

/-- Add the fields of one peer. -/
def peer (p : Peer) : Writer Unit :=
  let text := Utf8.encode p.address.render
  if 255 < text.length then throw (.textTooLong text.length)
  else do
    put [UInt8.ofNat text.length]
    put text
    put (Wire.word16 p.port)
    put (Wire.word16 p.id.number)

/-- Add a list of peers. -/
def peers (ps : List Peer) : Writer Unit :=
  if maxPeers < ps.length then throw (.tooManyPeers ps.length)
  else do
    put [UInt8.ofNat ps.length]
    ps.forM peer

/-- Add the fields of a message. -/
def fields : Message → Writer Unit
  | .control op => put [op.code]
  | .changeSong s enqueue => do
    put (Wire.song s)
    put [Wire.flag enqueue]
  | .disconnect listenPort => put (Wire.word16 listenPort)
  | .connect listenPort => put (Wire.word16 listenPort)
  | .queryStatus => pure ()
  | .sendStatus s => status s
  | .election phase => put [phase.code]
  | .clientList ownId table => do
    put (Wire.word16 ownId.number)
    put (Wire.word16 table.hint.number)
    peers table.peers
  | .clientListUpdate ps => peers ps

/-- Add the byte of its kind and the fields of a message. -/
def message (m : Message) : Writer Unit := do
  put [m.kind.code]
  fields m

end Writer

/-- Append the bytes of a message to a buffer. The first component is the buffer afterwards, cut
back to its old length after an error; the second is the error, if there is one. -/
def Message.appendTo (buffer : Bytes) (m : Message) : Bytes × Option EncodeError :=
  let (result, written) := (Writer.message m).run.run buffer
  let size := written.length - buffer.length
  match result with
  | .ok () =>
    if size ≤ maxMessageSize then (written, none)
    else (written.take buffer.length, some (.tooLarge size maxMessageSize))
  | .error e => (written.take buffer.length, some e)

end Ensemble
