/-!
# The playback status

What a member shares about its player: the current song, how many seconds of it have passed, whether
it is paused, and the songs that follow. Two statuses *agree* within a tolerance if they differ in
nothing but the seconds passed, and in those by no more than the tolerance.
-/

namespace Ensemble

/-- The number of a song; a number need not be one of the catalogue. -/
abbrev SongId := Int32

/-- The largest number of songs that wait in a queue. -/
def maxQueue : Nat := 128

/-- What a member shares about its player. -/
structure PlaybackStatus where
  song : SongId
  elapsed : UInt32
  paused : Bool
  queue : List SongId
  deriving DecidableEq, Repr, Inhabited

/-- Whether two statuses differ in at most `tolerance` seconds of the time passed and in nothing
else. -/
def PlaybackStatus.agrees (s t : PlaybackStatus) (tolerance : UInt32) : Bool :=
  s.song == t.song && s.paused == t.paused && s.queue == t.queue &&
    decide (s.elapsed.toNat - t.elapsed.toNat ≤ tolerance.toNat ∧
      t.elapsed.toNat - s.elapsed.toNat ≤ tolerance.toNat)

/-- The decimal form of a song's number. -/
def SongId.render (song : SongId) : String := toString song.toInt

/-- A status agrees with itself. -/
theorem PlaybackStatus.agrees_self (s : PlaybackStatus) (tolerance : UInt32) :
    s.agrees s tolerance = true := by
  simp [agrees]

end Ensemble
