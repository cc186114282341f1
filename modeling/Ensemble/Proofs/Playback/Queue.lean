import Ensemble.Playback.Run

/-!
# Queues stay within their bound

A player is `Bounded` if its queue holds no more songs than the largest number that may wait. No
command and no pass of the timer breaks the bound, so every `Reachable` player is bounded.

* `Player.Reachable.bounded` — every player that a session comes to is bounded.
-/

namespace Ensemble

namespace Player

/-- The queue holds at most `maxQueue` songs. -/
def Bounded (p : Player) : Prop := p.queue.length ≤ maxQueue

/-- A session of a player that begins with some song comes to this player. -/
def Reachable (p : Player) : Prop :=
  ∃ tick song steps, ((PlayerSession.start tick song).run steps).deck.player = p

theorem bounded_start (song : SongId) : (start song).Bounded := Nat.zero_le _

/-- The next song takes one from the queue. -/
theorem Bounded.next? {p q : Player} (h : p.Bounded) (hq : p.next? = some q) : q.Bounded := by
  rw [Player.next?] at hq
  split at hq
  · cases hq
  · rename_i song rest hqueue
    cases hq
    rw [Bounded, hqueue, List.length_cons] at h
    exact Nat.le_of_succ_le h

/-- To skip shortens the queue, if it does anything. -/
theorem Bounded.skip {p : Player} (h : p.Bounded) : p.skip.Bounded := by
  rw [Player.skip]
  cases hq : p.next? with
  | none => exact h
  | some q => exact h.next? hq

/-- The end of a song shortens the queue, if it does anything. -/
theorem Bounded.endSong {p : Player} (h : p.Bounded) : p.endSong.Bounded := by
  rw [Player.endSong]
  cases hq : p.next? with
  | none => exact h
  | some q => exact h.next? hq

/-- A song is only taken into a queue that has room. -/
theorem Bounded.enqueue? {p q : Player} {song : SongId} (hq : p.enqueue? song = some q) :
    q.Bounded := by
  rw [Player.enqueue?] at hq
  split at hq
  · rename_i hroom
    cases hq
    rw [Bounded, List.length_append, List.length_singleton]
    exact hroom
  · cases hq

/-- Whether a song is taken or not, the queue fits. -/
theorem Bounded.enqueue {p : Player} (h : p.Bounded) (song : SongId) :
    (p.enqueue song).Bounded := by
  rw [Player.enqueue]
  cases hq : p.enqueue? song with
  | none => exact h
  | some q => exact Bounded.enqueue? hq

@[simp] theorem queue_togglePause (p : Player) : p.togglePause.queue = p.queue := by
  rw [togglePause]
  split <;> rfl

@[simp] theorem queue_setPaused (p : Player) (paused : Bool) :
    (p.setPaused paused).queue = p.queue := by
  rw [setPaused, setPaused?]
  split
  · rfl
  · exact p.queue_togglePause

theorem Bounded.setPaused {p : Player} (h : p.Bounded) (paused : Bool) :
    (p.setPaused paused).Bounded := by
  rwa [Bounded, queue_setPaused]

/-- Of a queue too long only the front is taken over. -/
theorem bounded_setStatus (p : Player) (s : PlaybackStatus) : (p.setStatus s).Bounded :=
  List.length_take_le maxQueue s.queue

end Player

/-! ## The timer -/

namespace Deck

theorem bounded_countTick {duration : UInt32} {p : Player} (h : p.Bounded) :
    (countTick duration p).Bounded := by
  simp only [countTick]
  split
  · exact Player.Bounded.endSong h
  · exact h

/-- No pass of the timer makes the queue longer. -/
theorem bounded_pass (tick now : Nat) {d : Deck} (h : d.player.Bounded) :
    (d.pass tick now).1.player.Bounded := by
  rw [pass]
  split
  · exact h
  split
  · exact h
  split
  · -- Waiting: the next song begins, if there is one.
    cases hq : d.player.next? with
    | none => exact h
    | some q => exact h.next? hq
  split
  · exact h.endSong
  · simp only
    split
    · exact h
    · exact bounded_countTick h

/-- Any number of passes keeps the queue within its bound. -/
theorem bounded_settleWithin {tick now fuel : Nat} {d : Deck} (h : d.player.Bounded) :
    (settleWithin tick now fuel d).player.Bounded := by
  induction fuel generalizing d with
  | zero => exact h
  | succ fuel ih =>
    have hpass := bounded_pass tick now h
    rw [settleWithin]
    cases hd : d.pass tick now with
    | mk d' rest =>
      rw [hd] at hpass
      cases rest with
      | none => exact ih hpass
      | some _ => exact hpass

/-- The passing of time keeps the queue within its bound. -/
theorem bounded_advanceWithin {tick target fuel : Nat} {d : Deck} (h : d.player.Bounded) :
    (advanceWithin tick target fuel d).player.Bounded := by
  induction fuel generalizing d with
  | zero => exact h
  | succ fuel ih =>
    rw [advanceWithin]
    split
    · split
      · exact ih (bounded_settleWithin h)
      · exact h
    · exact h

/-- What is done to the player keeps the queue within its bound if it does so by itself. -/
theorem bounded_apply {tick now : Nat} {f : Player → Player} {d : Deck}
    (h : (f d.player).Bounded) : (d.apply tick now f).player.Bounded :=
  bounded_settleWithin (d := { d with player := f d.player }) h

end Deck

/-! ## Sessions -/

namespace PlayerSession

/-- A song that is enqueued several times is taken as often as there is room. -/
theorem bounded_enqueueTimes {song : SongId} {times : Nat} {p : Player} (h : p.Bounded) :
    (enqueueTimes song times p).1.Bounded := by
  induction times generalizing p with
  | zero => exact h
  | succ times ih =>
    rw [enqueueTimes]
    cases hq : p.enqueue? song with
    | none => exact ih h
    | some q => exact ih (Player.Bounded.enqueue? hq)

/-- A session begins with a queue within its bound. -/
theorem bounded_start (tick : Nat) (song : SongId) :
    (start tick song).deck.player.Bounded :=
  Deck.bounded_settleWithin (Player.bounded_start song)

/-- Every step keeps the queue within its bound. -/
theorem bounded_step {s : PlayerSession} (h : s.deck.player.Bounded) (a : PlayerStep) :
    (s.step a).1.deck.player.Bounded := by
  cases a with
  | togglePause =>
    refine Deck.bounded_apply ?_
    rwa [Player.Bounded, Player.queue_togglePause]
  | setPaused paused => exact Deck.bounded_apply (h.setPaused paused)
  | readPaused => exact h
  | skip => exact Deck.bounded_apply h.skip
  | enqueue song times => exact Deck.bounded_apply (bounded_enqueueTimes h)
  | setElapsed seconds => exact Deck.bounded_apply h
  | setStatus status => exact Deck.bounded_apply (Player.bounded_setStatus _ status)
  | stop => exact h
  | advance ms => exact Deck.bounded_advanceWithin h
  | jump ms => exact Deck.bounded_settleWithin h

/-- The queue is within its bound in every run. -/
theorem bounded_run {s : PlayerSession} (h : s.deck.player.Bounded) (steps : List PlayerStep) :
    (s.run steps).deck.player.Bounded := by
  induction steps generalizing s with
  | nil => exact h
  | cons a rest ih => exact ih (bounded_step h a)

end PlayerSession

/-- Every player that a session comes to is bounded. -/
theorem Player.Reachable.bounded {p : Player} (h : p.Reachable) : p.Bounded := by
  obtain ⟨tick, song, steps, rfl⟩ := h
  exact PlayerSession.bounded_run (PlayerSession.bounded_start tick song) steps

end Ensemble
