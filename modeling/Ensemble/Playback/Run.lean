import Ensemble.Playback.Timer

/-!
# Runs of a player

A `PlayerStep` is one thing that can happen to a player from outside: a command, the end of its
timer, or time that goes by. `Session.step` lets one happen; after each the timer has run until it
rests.
-/

namespace Ensemble

/-- Something that happens to a player. -/
inductive PlayerStep where
  | togglePause
  | setPaused (paused : Bool)
  | readPaused
  | skip
  /-- Append a song a number of times. -/
  | enqueue (song : SongId) (times : Nat)
  | setElapsed (seconds : UInt32)
  | setStatus (status : PlaybackStatus)
  /-- The timer ends for good. -/
  | stop
  /-- Time goes by, with every pass of the timer on time. -/
  | advance (ms : Nat)
  /-- Time goes by at once. -/
  | jump (ms : Nat)
  deriving DecidableEq, Repr

/-- What a step answers. -/
inductive StepAnswer where
  | none
  | flag (value : Bool)
  | count (value : Nat)
  deriving DecidableEq, Repr

/-- A player at an instant; `tick` is the length of a second in milliseconds. -/
structure PlayerSession where
  tick : Nat
  now : Nat
  deck : Deck
  deriving DecidableEq, Repr

namespace PlayerSession

/-- A player that begins with `song` at time zero. -/
def start (tick : Nat) (song : SongId) : PlayerSession := ⟨tick, 0, Deck.start tick 0 song⟩

/-- Append a song a number of times; the count says how often it was accepted. -/
def enqueueTimes (song : SongId) : Nat → Player → Player × Nat
  | 0, p => (p, 0)
  | n + 1, p =>
    match p.enqueue? song with
    | some p =>
      let (p, count) := enqueueTimes song n p
      (p, count + 1)
    | Option.none => enqueueTimes song n p

/-- A command changes the player, then the timer runs. -/
def command (f : Player → Player) (s : PlayerSession) : PlayerSession :=
  { s with deck := s.deck.apply s.tick s.now f }

/-- Let one thing happen. -/
def step (s : PlayerSession) : PlayerStep → PlayerSession × StepAnswer
  | .togglePause =>
    (s.command Player.togglePause, .flag s.deck.player.togglePause.paused)
  | .setPaused paused =>
    (s.command (·.setPaused paused), .flag (s.deck.player.setPaused? paused).isSome)
  | .readPaused => (s, .flag s.deck.player.paused)
  | .skip => (s.command Player.skip, .flag s.deck.player.next?.isSome)
  | .enqueue song times =>
    (s.command fun p => (enqueueTimes song times p).1,
      .count (enqueueTimes song times s.deck.player).2)
  | .setElapsed seconds => (s.command (·.setElapsed seconds), .none)
  | .setStatus status => (s.command (·.setStatus status), .none)
  | .stop => ({ s with deck := { s.deck with stopped := true } }, .none)
  | .advance ms => ({ s with now := s.now + ms, deck := s.deck.advance s.tick s.now ms }, .none)
  | .jump ms => ({ s with now := s.now + ms, deck := s.deck.jump s.tick s.now ms }, .none)

/-- Let things happen one after the other. -/
def run (s : PlayerSession) (steps : List PlayerStep) : PlayerSession :=
  steps.foldl (fun s a => (s.step a).1) s

end PlayerSession

end Ensemble
