import Ensemble.Node.Basic
import Ensemble.Number.Single

/-!
# What a node shows

A `Display` is everything that a surface needs to show a node: the song and how far it has come,
what waits, and the node's place in the group. `Display.render` is its one line of text.
-/

namespace Ensemble

/-- A snapshot of a node for showing. -/
structure Display where
  song : SongId
  elapsed : UInt32
  duration : Option UInt32
  paused : Bool
  waiting : Bool
  queue : List SongId
  peers : List Peer
  ownId : Option PeerId
  coordinator : Option PeerId
  deriving DecidableEq, Repr

/-- The snapshot of a node. -/
def Node.display (n : Node) : Display where
  song := n.player.song
  elapsed := n.player.elapsed
  duration := n.player.song.duration?
  paused := n.player.paused
  waiting := n.player.waiting
  queue := n.player.queue
  peers := n.view.table.peers
  ownId := n.view.ownId
  coordinator := n.view.coordinator.map (·.id)

namespace Display

/-- Seconds as minutes and seconds, each of at least two digits. -/
def clock (seconds : Nat) : String :=
  let two := fun n : Nat => if n < 10 then s!"0{n}" else toString n
  two (seconds / 60) ++ ":" ++ two (seconds % 60)

/-- The bit pattern, in single precision, of how much of the song has passed. -/
def progress (d : Display) : Nat :=
  match d.duration with
  | some duration => Single.ofRatio d.elapsed.toNat duration.toNat
  | none => 0

/-- What the player does. -/
def activity (d : Display) : String :=
  if d.waiting then "wartet" else if d.paused then "pausiert" else "spielt"

/-- The node's place in the group. -/
def role (d : Display) : String :=
  match d.ownId, d.coordinator with
  | some id, some leader =>
    if id = leader then s!"{id} (Koordinator)" else s!"{id}, Koordinator {leader}"
  | _, _ => "nicht registriert"

/-- The line of text. -/
def render (d : Display) : String :=
  let time :=
    match d.duration with
    | some duration => clock d.elapsed.toNat ++ "/" ++ clock duration.toNat
    | none => clock d.elapsed.toNat
  let queue := ", ".intercalate (d.queue.map SongId.render)
  s!"[{d.activity}] {d.song.title} {time} | Warteschlange: [{queue}] | Peers: {d.peers.length}" ++
    s!" | {d.role}"

end Display

end Ensemble
