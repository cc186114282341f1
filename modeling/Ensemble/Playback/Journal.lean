import Ensemble.Journal.Event
import Ensemble.Playback.Timer

/-!
# What a player notes

The events of the player's operations and of the passes of its timer, each from the state before.
-/

namespace Ensemble

namespace Player

/-- A song begins because it was the next one in the queue. -/
def newSong : Event := .info "Neuer Song"

/-- The events of pausing or going on. -/
def setPausedEvents (p : Player) (paused : Bool) : List Event :=
  if (p.setPaused? paused).isSome then [.info "Pause gesetzt"] else []

/-- The events of jumping to the next song. -/
def skipEvents (p : Player) : List Event :=
  if p.next?.isSome then [newSong] else [.debug "Warteschlange leer, skip ignoriert"]

/-- The events of appending a song. -/
def enqueueEvents (p : Player) : List Event :=
  if p.queue.length < maxQueue then [.debug "Song eingereiht"]
  else [.debug "Warteschlange voll, Song verworfen"]

/-- The events of the end of a song. -/
def endSongEvents (p : Player) : List Event :=
  if p.next?.isSome then [newSong] else [.info "Warteschlange leer, warte auf neuen Song"]

end Player

namespace Deck

/-- The events of one pass of the timer. -/
def passEvents (tick now : Nat) (d : Deck) : List Event :=
  if d.stopped || d.player.paused then []
  else if d.player.waiting then
    if d.player.next?.isSome then [Player.newSong] else []
  else
    match SongId.duration? d.player.song with
    | none => .debug "Unbekannter Song, wird uebersprungen" :: d.player.endSongEvents
    | some duration =>
      if now < d.due tick now then []
      else if duration < d.player.countSecond.elapsed then d.player.endSongEvents
      else []

/-- The events of at most `fuel` passes. -/
def settleEventsWithin (tick now : Nat) : Nat → Deck → List Event
  | 0, _ => []
  | fuel + 1, d =>
    d.passEvents tick now ++
      match d.pass tick now with
      | (_, some _) => []
      | (d, none) => settleEventsWithin tick now fuel d

/-- The events of the timer until it rests. -/
def settleEvents (tick now : Nat) (d : Deck) : List Event :=
  settleEventsWithin tick now d.passBound d

/-- The events of waking up at each due time up to `target`, at most `fuel` times. -/
def advanceEventsWithin (tick target : Nat) : Nat → Deck → List Event
  | 0, _ => []
  | fuel + 1, d =>
    match d.wakeTime? with
    | some due =>
      if due ≤ target then
        d.settleEvents tick due ++ advanceEventsWithin tick target fuel (d.settle tick due)
      else []
    | none => []

/-- The events of `ms` milliseconds that go by from `now` on. -/
def advanceEvents (tick now ms : Nat) (d : Deck) : List Event :=
  advanceEventsWithin tick (now + ms) (ms + 1) d

end Deck

end Ensemble
