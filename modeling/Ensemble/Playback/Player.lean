import Ensemble.Playback.Catalogue

/-!
# The player

A `Player` is the state that every command and the timer share. Its `epoch` counts the changes that
make a running second worthless: a change of song, a written status or position, and the end of a
pause. An operation named with a question mark yields nothing where it has no effect.

* `Player.next?` moves to the head of the queue.
* `Player.enqueue?` appends a song while there is room.
* `Player.setStatus` takes over what another member shared.
-/

namespace Ensemble

/-- The state of a player. -/
structure Player where
  song : SongId
  /-- The seconds of the current song that have passed. -/
  elapsed : UInt32
  paused : Bool
  queue : List SongId
  /-- Counts the changes that make a running second worthless. -/
  epoch : Nat
  /-- The current song has ended and the queue was empty. -/
  waiting : Bool
  deriving DecidableEq, Repr

namespace Player

/-- A player at the beginning of a song. -/
def start (song : SongId) : Player :=
  { song, elapsed := 0, paused := false, queue := [], epoch := 0, waiting := false }

/-- What the player shares. -/
def status (p : Player) : PlaybackStatus := ⟨p.song, p.elapsed, p.paused, p.queue⟩

/-- The head of the queue becomes the current song. -/
def next? (p : Player) : Option Player :=
  match p.queue with
  | [] => none
  | song :: rest =>
    some { p with song, elapsed := 0, queue := rest, epoch := p.epoch + 1, waiting := false }

/-- Jump to the next song, if one is queued. -/
def skip (p : Player) : Player := p.next?.getD p

/-- Append a song to the queue, unless it is full. -/
def enqueue? (p : Player) (song : SongId) : Option Player :=
  if p.queue.length < maxQueue then some { p with queue := p.queue ++ [song] } else none

/-- Append a song to the queue; a full queue drops it. -/
def enqueue (p : Player) (song : SongId) : Player := (p.enqueue? song).getD p

/-- Pause or go on; only the end of a pause opens a new epoch. -/
def togglePause (p : Player) : Player :=
  if p.paused then { p with paused := false, epoch := p.epoch + 1 } else { p with paused := true }

/-- Pause or go on, whichever is asked for, if that is a change. -/
def setPaused? (p : Player) (paused : Bool) : Option Player :=
  if p.paused = paused then none else some p.togglePause

/-- Pause or go on, whichever is asked for. -/
def setPaused (p : Player) (paused : Bool) : Player := (p.setPaused? paused).getD p

/-- Set the seconds that have passed. -/
def setElapsed (p : Player) (seconds : UInt32) : Player :=
  { p with elapsed := seconds, epoch := p.epoch + 1 }

/-- Take over a shared status, of a queue too long only its front. -/
def setStatus (p : Player) (s : PlaybackStatus) : Player :=
  { song := s.song, elapsed := s.elapsed, paused := s.paused, queue := s.queue.take maxQueue,
    epoch := p.epoch + 1, waiting := false }

/-- The current song is over: the next one begins, or the player waits for one. -/
def endSong (p : Player) : Player := p.next?.getD { p with waiting := true }

/-- One second more; the count stops at the largest one. -/
def countSecond (p : Player) : Player :=
  { p with elapsed := if p.elapsed = 0xFFFFFFFF then p.elapsed else p.elapsed + 1 }

/-! ## What the operations do to the shared status -/

@[simp] theorem status_setStatus (p : Player) (s : PlaybackStatus) :
    (p.setStatus s).status = { s with queue := s.queue.take maxQueue } := rfl

theorem next?_eq_none_iff (p : Player) : p.next? = none ↔ p.queue = [] := by
  cases h : p.queue <;> simp [next?, h]

theorem enqueue?_eq_none_iff (p : Player) (song : SongId) :
    p.enqueue? song = none ↔ maxQueue ≤ p.queue.length := by
  unfold enqueue?
  split <;> simp <;> omega

end Player

end Ensemble
