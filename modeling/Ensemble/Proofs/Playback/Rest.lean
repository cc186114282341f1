import Ensemble.Playback.Timer
import Mathlib.Order.Nat

/-!
# The timer comes to rest

`Deck.Passes` lists what one pass of the timer can do. A pass that does not come to rest lowers the
player's `work`, which is less than the bound of the passes at one instant, so the timer always
stops at a pass that does. Where it rests it has no due second left: it wakes up later than now.

* `Deck.passes` — every pass is one of those listed.
* `Deck.settle_eq_of_pass` — the timer stops at a pass that comes to rest.
* `Deck.rests_settle`, `Deck.rests_advance` — so no second is due after it ran.
-/

namespace Ensemble

/-! ## The next song -/

namespace Player

variable {p q : Player}

/-- The next song is the first of the queue, from its beginning, in a new epoch. -/
theorem next?_eq_some_iff : p.next? = some q ↔
    ∃ song rest, p.queue = song :: rest ∧
      q = { p with song, elapsed := 0, queue := rest, epoch := p.epoch + 1, waiting := false } := by
  rw [next?]
  cases p.queue with
  | nil => simp
  | cons song rest =>
    constructor
    · intro h
      exact ⟨song, rest, rfl, (Option.some.inj h).symm⟩
    · rintro ⟨_, _, hqueue, rfl⟩
      cases hqueue
      rfl

/-- The next song opens an epoch. -/
theorem epoch_lt_of_next? (h : p.next? = some q) : p.epoch < q.epoch := by
  obtain ⟨song, rest, -, rfl⟩ := next?_eq_some_iff.mp h
  exact Nat.lt_succ_self _

/-- The next song begins anew, whatever has passed of this one. -/
theorem next?_setElapsed (p : Player) (elapsed : UInt32) :
    { p with elapsed }.next? = p.next? := by
  cases h : p.queue <;> simp [next?, h]

/-- At the end of a song the next one begins. -/
theorem endSong_eq_of_next? (h : p.next? = some q) : p.endSong = q := by simp [endSong, h]

/-- At the end of the last song the player waits. -/
theorem endSong_of_queue_eq_nil (h : p.queue = []) : p.endSong = { p with waiting := true } := by
  simp [endSong, (next?_eq_none_iff p).mpr h]

/-- The seconds count up to the largest number. -/
theorem toNat_elapsed_countSecond (p : Player) :
    p.countSecond.elapsed.toNat = min (p.elapsed.toNat + 1) 0xFFFFFFFF := by
  have := p.elapsed.toNat_lt
  rw [countSecond]
  split
  · rename_i h
    rw [h]
    rfl
  · rename_i h
    have hne : p.elapsed.toNat ≠ 0xFFFFFFFF := fun e => h (UInt32.toNat_inj.mp e)
    rw [UInt32.toNat_add, UInt32.toNat_one]
    omega

end Player

namespace Deck

/-- What becomes of a player when a second of a song is counted. -/
inductive Counted (duration : UInt32) (p : Player) : Player → Prop
  | within (h : p.countSecond.elapsed ≤ duration) : Counted duration p p.countSecond
  | follows {q : Player} (h : duration < p.countSecond.elapsed) (hnext : p.next? = some q) :
      Counted duration p q
  | last (h : duration < p.countSecond.elapsed) (hqueue : p.queue = []) :
      Counted duration p { p with elapsed := duration, waiting := true }

/-- To count a second is one of the three things listed. -/
theorem counted (duration : UInt32) (p : Player) : Counted duration p (countTick duration p) := by
  rw [countTick]
  split
  · rename_i h
    change Counted duration p { p with elapsed := duration }.endSong
    -- Past its end: the next song follows, or this was the last.
    cases hnext : p.next? with
    | some q =>
      rw [Player.endSong_eq_of_next? ((p.next?_setElapsed duration).trans hnext)]
      exact .follows h hnext
    | none =>
      have hqueue := (Player.next?_eq_none_iff p).mp hnext
      rw [Player.endSong_of_queue_eq_nil (p := { p with elapsed := duration }) hqueue]
      exact .last h hqueue
  · rename_i h
    exact .within (UInt32.not_lt.mp h)

/-! ## What a pass does -/

/-- The timer has not ended, and the player is not paused. -/
structure Goes (d : Deck) : Prop where
  running : d.stopped = false
  unpaused : d.player.paused = false

/-- What one pass of the timer at the instant `now` does. -/
inductive Passes (tick now : Nat) (d : Deck) : Deck × Option Rest → Prop
  | stopped (h : d.stopped = true) : Passes tick now d (d, some .stopped)
  | paused (h : d.player.paused = true) :
      Passes tick now d ({ d with pending := none }, some .paused)
  | needsSong (hgoes : d.Goes) (hwaiting : d.player.waiting = true) (hqueue : d.player.queue = []) :
      Passes tick now d (d, some .needsSong)
  /-- The song that the player waited for begins. -/
  | begins {p : Player} (hgoes : d.Goes) (hwaiting : d.player.waiting = true)
      (hnext : d.player.next? = some p) : Passes tick now d ({ d with player := p }, none)
  /-- A song outside the catalogue is over. -/
  | unknown (hgoes : d.Goes) (hwaiting : d.player.waiting = false)
      (hsong : SongId.duration? d.player.song = none) :
      Passes tick now d ({ d with player := d.player.endSong }, none)
  | waits {duration : UInt32} (hgoes : d.Goes) (hwaiting : d.player.waiting = false)
      (hsong : SongId.duration? d.player.song = some duration) (hdue : now < d.due tick now) :
      Passes tick now d
        ({ d with pending := some ⟨d.player.epoch, d.due tick now⟩ },
          some (.until (d.due tick now)))
  | counts {duration : UInt32} (hgoes : d.Goes) (hwaiting : d.player.waiting = false)
      (hsong : SongId.duration? d.player.song = some duration) (hdue : d.due tick now ≤ now) :
      Passes tick now d
        ({ d with
            player := countTick duration d.player
            pending := some ⟨d.player.epoch, d.due tick now + tick⟩ }, none)

/-- Every pass is one of those listed. -/
theorem passes (tick now : Nat) (d : Deck) : d.Passes tick now (d.pass tick now) := by
  rw [pass]
  split
  · exact .stopped ‹_›
  split
  · exact .paused ‹_›
  -- From here on the timer goes.
  rename_i hstopped hpaused
  have hgoes : d.Goes := ⟨by simpa using hstopped, by simpa using hpaused⟩
  split
  · cases hnext : d.player.next? with
    | none => exact .needsSong hgoes ‹_› ((Player.next?_eq_none_iff _).mp hnext)
    | some p => exact .begins hgoes ‹_› hnext
  rename_i hwaiting
  have hwaiting : d.player.waiting = false := by simpa using hwaiting
  split
  · exact .unknown hgoes hwaiting ‹_›
  · dsimp only
    split
    · exact .waits hgoes hwaiting ‹_› ‹_›
    · exact .counts hgoes hwaiting ‹_› (Nat.not_lt.mp ‹_›)

/-! ## The work that is left -/

end Deck

/-- An upper bound of the passes until the timer rests, if every second is due at once. -/
def Player.work (p : Player) : Nat :=
  p.queue.length * (longestDuration + 3) +
    if p.waiting then 1 else longestDuration - p.elapsed.toNat + 2

namespace Player

variable {p q : Player}

/-- The work of a player that waits: the songs of its queue, and a pass to begin the
first of them. -/
theorem work_waiting (h : p.waiting = true) :
    p.work = p.queue.length * (longestDuration + 3) + 1 := by simp [work, h]

/-- The work of a player that plays: the songs of its queue, and the rest of its own. -/
theorem work_playing (h : p.waiting = false) :
    p.work = p.queue.length * (longestDuration + 3) + (longestDuration - p.elapsed.toNat + 2) := by
  simp [work, h]

/-- A song that begins leaves one pass less than there were with it in the queue. -/
theorem work_next? (h : p.next? = some q) :
    q.work + 1 = p.queue.length * (longestDuration + 3) := by
  obtain ⟨song, rest, hqueue, rfl⟩ := next?_eq_some_iff.mp h
  have hzero : UInt32.toNat 0 = 0 := rfl
  rw [work_playing rfl, hqueue, List.length_cons, Nat.succ_mul]
  dsimp only
  omega

/-- The end of a song leaves less to do. -/
theorem work_endSong_lt (h : p.waiting = false) : p.endSong.work < p.work := by
  rw [work_playing h]
  cases hnext : p.next? with
  | some q =>
    rw [endSong_eq_of_next? hnext]
    have := work_next? hnext
    omega
  | none =>
    rw [endSong_of_queue_eq_nil ((next?_eq_none_iff p).mp hnext), work_waiting rfl]
    dsimp only
    omega

end Player

namespace Deck

variable {tick now : Nat} {d e : Deck}

/-- To count a second leaves less to do. -/
theorem work_countTick_lt {duration : UInt32} {p : Player} (hwaiting : p.waiting = false)
    (hlong : duration.toNat ≤ longestDuration) : (countTick duration p).work < p.work := by
  have hcount := counted duration p
  generalize countTick duration p = q at hcount ⊢
  rw [Player.work_playing hwaiting]
  cases hcount with
  | within h =>
    have hle : p.countSecond.elapsed.toNat ≤ longestDuration :=
      (UInt32.le_iff_toNat_le.mp h).trans hlong
    rw [Player.toNat_elapsed_countSecond] at hle
    rw [Player.work_playing (p := p.countSecond) hwaiting, Player.toNat_elapsed_countSecond]
    -- Within a song the count has not come to its largest number.
    have hsaturates : longestDuration < 0xFFFFFFFF := by decide
    dsimp only [Player.countSecond]
    omega
  | follows _ hnext =>
    have := Player.work_next? hnext
    omega
  | last _ hqueue =>
    rw [Player.work_waiting rfl]
    dsimp only
    omega

/-- A pass that does not come to rest leaves less work. -/
theorem work_pass_lt (h : d.pass tick now = (e, none)) : e.player.work < d.player.work := by
  have hpass := passes tick now d
  rw [h] at hpass
  cases hpass with
  | begins _ hwaiting hnext =>
    have := Player.work_next? hnext
    rw [Player.work_waiting hwaiting]
    dsimp only
    omega
  | unknown _ hwaiting => exact Player.work_endSong_lt hwaiting
  | counts _ hwaiting hsong => exact work_countTick_lt hwaiting (toNat_le_longestDuration hsong)

/-- There is less to do than the passes at one instant can do. -/
theorem work_lt_passBound (d : Deck) : d.player.work < d.passBound := by
  rw [Player.work, passBound, Nat.succ_mul]
  split <;> omega

/-! ## Where the timer rests -/

/-- With fuel for the work the timer stops at a pass that comes to rest. -/
theorem settleWithin_eq_of_pass {fuel : Nat} (h : d.player.work < fuel) :
    ∃ last rest, Deck.pass tick now last = (settleWithin tick now fuel d, some rest) := by
  induction fuel generalizing d with
  | zero => exact absurd h (Nat.not_lt_zero _)
  | succ fuel ih =>
    rw [settleWithin]
    rcases hpass : d.pass tick now with ⟨e, _ | rest⟩
    · exact ih ((work_pass_lt hpass).trans_le (Nat.le_of_lt_succ h))
    · exact ⟨d, rest, hpass⟩

/-- The timer stops at a pass that comes to rest. -/
theorem settle_eq_of_pass (tick now : Nat) (d : Deck) :
    ∃ last rest, Deck.pass tick now last = (d.settle tick now, some rest) :=
  settleWithin_eq_of_pass d.work_lt_passBound

/-- The timer has nothing to do at an instant: if it wakes up by itself, it does so later. -/
def Rests (now : Nat) (d : Deck) : Prop := ∀ due, d.wakeTime? = some due → now < due

/-- The timer wakes up for the running second, while it goes and a song is played. -/
theorem wakeTime?_eq_some_iff {due : Nat} : d.wakeTime? = some due ↔
    d.Goes ∧ d.player.waiting = false ∧ ∃ t, d.pending = some t ∧ t.due = due := by
  rw [wakeTime?]
  split
  · rename_i h
    simp only [Bool.or_eq_true] at h
    constructor
    · simp
    · rintro ⟨⟨hstopped, hpaused⟩, hwaiting, -⟩
      simp [hstopped, hpaused, hwaiting] at h
  · rename_i h
    simp only [Bool.or_eq_true, not_or, Bool.not_eq_true] at h
    obtain ⟨⟨hstopped, hpaused⟩, hwaiting⟩ := h
    simp [Goes.mk hstopped hpaused, hwaiting]

/-- A timer that came to rest wakes up later. -/
theorem rests_of_pass {rest : Rest} (h : d.pass tick now = (e, some rest)) : e.Rests now := by
  have hpass := passes tick now d
  rw [h] at hpass
  intro due hdue
  obtain ⟨hgoes, hplaying, t, ht, rfl⟩ := wakeTime?_eq_some_iff.mp hdue
  cases hpass with
  | stopped hstopped => exact absurd hstopped (by simp [hgoes.running])
  | paused hpaused => cases ht
  | needsSong _ hwaiting => exact absurd hwaiting (by simp [hplaying])
  | waits _ _ _ hlater =>
    cases ht
    exact hlater

/-- Whatever the timer found, it leaves no second that is due. -/
theorem rests_settle (tick now : Nat) (d : Deck) : (d.settle tick now).Rests now := by
  obtain ⟨last, rest, h⟩ := settle_eq_of_pass tick now d
  exact rests_of_pass h

/-- Each wake is later than the one before, so that there are at most as many as there is time. -/
theorem rests_advanceWithin {now target fuel : Nat} (h : d.Rests now) (hnow : now ≤ target)
    (hfuel : target < now + fuel) : (advanceWithin tick target fuel d).Rests target := by
  -- Induction on the fuel: every wake is at least a millisecond later than the one before.
  induction fuel generalizing now d with
  | zero => omega
  | succ fuel ih =>
    rw [advanceWithin]
    split
    · rename_i due hdue
      have hlater := h due hdue
      split
      · rename_i hle
        exact ih (rests_settle tick due d) hle (by omega)
      · rename_i hgt
        intro due' hdue'
        rw [hdue, Option.some.injEq] at hdue'
        omega
    · rename_i hnone
      intro due hdue
      rw [hnone] at hdue
      cases hdue

/-- However long time goes by, no second is left that is due. -/
theorem rests_advance (h : d.Rests now) (ms : Nat) : (d.advance tick now ms).Rests (now + ms) :=
  rests_advanceWithin h (Nat.le_add_right _ _) (by omega)

end Deck

end Ensemble
