import Ensemble.Playback.Player

/-!
# The timer of a player

A `Deck` is a player together with its timer. At one instant the timer makes passes until it
rests: `Deck.pass` is one of them and `Deck.settle` all of them. A second counts once the tick
that began in the current epoch is due; a tick of another epoch is forgotten and a new one begins.

Time is counted in milliseconds. `Deck.advance` lets it go by from one due time to the next, so that
every pass is made on time, and `Deck.jump` lets it go by at once.

The number of passes is bounded by `Deck.passBound`, which the library computes from the queue.
-/

namespace Ensemble

/-- A running second: the epoch in which it began, and when it is over. -/
structure Tick where
  epoch : Nat
  due : Nat
  deriving DecidableEq, Repr

/-- What a timer waits for. -/
inductive Rest where
  /-- The timer has ended for good. -/
  | stopped
  /-- The end of the pause. -/
  | paused
  /-- A song in the queue. -/
  | needsSong
  /-- The end of the running second. -/
  | until (due : Nat)
  deriving DecidableEq, Repr

/-- A player and its timer. -/
structure Deck where
  player : Player
  /-- The running second, if the timer has begun one. -/
  pending : Option Tick
  stopped : Bool
  deriving DecidableEq, Repr

namespace Deck

/-- The due time of the running second, or of one that begins now. -/
def due (tick now : Nat) (d : Deck) : Nat :=
  match d.pending with
  | some t => if t.epoch = d.player.epoch then t.due else now + tick
  | none => now + tick

/-- One more second has passed; a song that is over ends. -/
def countTick (duration : UInt32) (p : Player) : Player :=
  let p := p.countSecond
  if duration < p.elapsed then { p with elapsed := duration }.endSong else p

/-- One pass of the timer at the instant `now`: the deck after it, and what the timer waits for if
it does not go on. -/
def pass (tick now : Nat) (d : Deck) : Deck × Option Rest :=
  if d.stopped then (d, some .stopped)
  -- A pause forgets the running second, so that a whole one begins after it.
  else if d.player.paused then ({ d with pending := none }, some .paused)
  else if d.player.waiting then
    match d.player.next? with
    | none => (d, some .needsSong)
    | some p => ({ d with player := p }, none)
  else
    match SongId.duration? d.player.song with
    -- A song outside the catalogue is over at once.
    | none => ({ d with player := d.player.endSong }, none)
    | some duration =>
      let due := d.due tick now
      if now < due then
        ({ d with pending := some ⟨d.player.epoch, due⟩ }, some (.until due))
      else
        -- The next second begins where this one was due, not when it was counted.
        ({ d with
            player := countTick duration d.player
            pending := some ⟨d.player.epoch, due + tick⟩ }, none)

/-- How many passes the timer makes at most at one instant. -/
def passBound (d : Deck) : Nat := (d.player.queue.length + 1) * (longestDuration + 3)

/-- At most `fuel` passes, fewer if the timer rests before. -/
def settleWithin (tick now : Nat) : Nat → Deck → Deck
  | 0, d => d
  | fuel + 1, d =>
    match d.pass tick now with
    | (d, some _) => d
    | (d, none) => settleWithin tick now fuel d

/-- The timer runs at one instant until it rests. -/
def settle (tick now : Nat) (d : Deck) : Deck := settleWithin tick now d.passBound d

/-- When a resting timer wakes up by itself. -/
def wakeTime? (d : Deck) : Option Nat :=
  if d.stopped || d.player.paused || d.player.waiting then none else d.pending.map (·.due)

/-- Wake up at each due time up to `target`, at most `fuel` times. -/
def advanceWithin (tick target : Nat) : Nat → Deck → Deck
  | 0, d => d
  | fuel + 1, d =>
    match d.wakeTime? with
    | some due => if due ≤ target then advanceWithin tick target fuel (d.settle tick due) else d
    | none => d

/-- Let `ms` milliseconds go by from `now` on, with every pass made on time. Each due time lies at
least one millisecond after the one before. -/
def advance (tick now ms : Nat) (d : Deck) : Deck :=
  advanceWithin tick (now + ms) (ms + 1) d

/-- Let `ms` milliseconds go by from `now` on at once; the timer then runs with the new time. -/
def jump (tick now ms : Nat) (d : Deck) : Deck := d.settle tick (now + ms)

/-- A command changes the player, then the timer runs until it rests. -/
def apply (tick now : Nat) (f : Player → Player) (d : Deck) : Deck :=
  { d with player := f d.player }.settle tick now

/-- The deck of a player that begins with `song` at the instant `now`. -/
def start (tick now : Nat) (song : SongId) : Deck :=
  { player := Player.start song, pending := none, stopped := false : Deck }.settle tick now

end Deck

end Ensemble
