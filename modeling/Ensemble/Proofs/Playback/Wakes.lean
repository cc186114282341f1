import Ensemble.Proofs.Playback.Loop
import Mathlib.Algebra.Ring.Nat

/-!
# When the timer wakes up makes no difference

Time that goes by is cut into pieces by whatever wakes the timer up. The pieces lead to the same as
the whole: `Deck.Advances` says where the timer comes to by an instant, wake after wake, and it
forgets how often it was looked at on the way. A command that has no effect finds a timer at rest,
which has nothing to do then.

A timer that wakes up late makes its passes late. As long as the song goes on they find the same
seconds due as on time, because each second begins where the one before was due. That ends with the
song: the first second of the next one begins when the timer is looked at.

* `Deck.Advances.trans`, `Deck.Advances.unique` — pieces of time lead to the same as the whole.
* `PlayerSession.run_of_onlyWaits` — so does every way to wait.
* `Deck.Ticks.pass_cases` — a second counts the same on time and late.
* `Deck.settle_eq_advance` — a late timer catches up, while the song goes on.
* `wakes_keep_seconds` — both, for every player that a session comes to.
-/

namespace Ensemble

namespace Deck

variable {tick now later target fuel : Nat} {d e f : Deck}

/-! ## At rest -/

/-- A timer that has come to rest stays there. -/
theorem settle_settle (tick now : Nat) (d : Deck) :
    (d.settle tick now).settle tick now = d.settle tick now := by
  obtain ⟨rest, h⟩ := exists_restsAs_settle tick now d
  exact h.settle_eq

/-- A timer at rest has nothing to do until a second is due. -/
theorem settle_of_rests (h : d.settle tick now = d) (hrests : d.Rests later) :
    d.settle tick later = d := by
  obtain ⟨rest, hrest⟩ := exists_restsAs_settle tick now d
  rw [h] at hrest
  exact (hrest.later hrests).settle_eq

/-- Where the timer stays as it is no second is due. -/
theorem rests_of_settle (h : d.settle tick now = d) : d.Rests now := h ▸ rests_settle tick now d

/-- A timer that wakes up for nothing may rest until any time. -/
theorem rests_of_wakeTime?_none (hwake : d.wakeTime? = none) : d.Rests target :=
  fun due hdue => by simp [hwake] at hdue

/-- Until it wakes up the timer rests. -/
theorem rests_of_lt {due : Nat} (hwake : d.wakeTime? = some due) (hlt : target < due) :
    d.Rests target := by
  intro due' hdue'
  rwa [← Option.some.inj (hwake.symm.trans hdue')]

/-! ## Time that goes by -/

/-- The timer wakes up at each due time up to `target`, and then rests. -/
inductive Advances (tick target : Nat) : Deck → Deck → Prop
  | rests {d : Deck} (h : d.Rests target) : Advances tick target d d
  | wakes {d e : Deck} {due : Nat} (hwake : d.wakeTime? = some due) (hdue : due ≤ target)
      (hrest : Advances tick target (d.settle tick due) e) : Advances tick target d e

/-- Each wake is later than the one before, so that the fuel is enough for all of them. -/
theorem advances_advanceWithin (h : d.Rests now) (hnow : now ≤ target)
    (hfuel : target < now + fuel) : Advances tick target d (advanceWithin tick target fuel d) := by
  -- Induction on the fuel: one wake for each second that is due until then.
  induction fuel generalizing now d with
  | zero => omega
  | succ fuel ih =>
    rw [advanceWithin]
    cases hwake : d.wakeTime? with
    | none => exact .rests (rests_of_wakeTime?_none hwake)
    | some due =>
      have hlater := h due hwake
      dsimp only
      split
      · rename_i hle
        exact .wakes hwake hle (ih (rests_settle tick due d) hle (by omega))
      · rename_i hgt
        exact .rests (rests_of_lt hwake (Nat.not_le.mp hgt))

/-- The passing of time is a row of wakes. -/
theorem advances_advance (h : d.Rests now) (ms : Nat) :
    Advances tick (now + ms) d (d.advance tick now ms) :=
  advances_advanceWithin h (Nat.le_add_right _ _) (by omega)

namespace Advances

/-- A row of wakes leads to one deck only. -/
theorem unique (h : Advances tick target d e) (h' : Advances tick target d f) : e = f := by
  induction h with
  | rests hrests =>
    cases h' with
    | rests => rfl
    | wakes hwake hdue => exact absurd (hrests _ hwake) (Nat.not_lt.mpr hdue)
  | wakes hwake hdue _ ih =>
    cases h' with
    | rests hrests => exact absurd (hrests _ hwake) (Nat.not_lt.mpr hdue)
    | wakes hwake' _ hrest' =>
      cases hwake.symm.trans hwake'
      exact ih hrest'

/-- Where the timer came to by an instant it goes on from. -/
theorem trans (h : Advances tick target d e) (htarget : target ≤ later)
    (h' : Advances tick later e f) : Advances tick later d f := by
  induction h with
  | rests => exact h'
  | wakes hwake hdue _ ih => exact .wakes hwake (hdue.trans htarget) (ih h')

/-- After a row of wakes no second is due. -/
theorem rests_end (h : Advances tick target d e) : e.Rests target := by
  induction h with
  | rests h => exact h
  | wakes _ _ _ ih => exact ih

/-- After a row of wakes the timer stays where it is. -/
theorem settle_eq (h : Advances tick target d e) (hd : d.settle tick now = d) :
    e.settle tick target = e := by
  induction h generalizing now with
  | rests hrests => exact settle_of_rests hd hrests
  | @wakes d _ due _ _ _ ih => exact ih (settle_settle tick due d)

end Advances

/-- No time changes nothing. -/
theorem advance_zero (h : d.Rests now) : d.advance tick now 0 = d :=
  (advances_advance h 0).unique (.rests h)

/-- Time may be cut into two pieces. -/
theorem advance_add (h : d.Rests now) (a b : Nat) :
    (d.advance tick now a).advance tick (now + a) b = d.advance tick now (a + b) := by
  have hfirst : Advances tick (now + a) d (d.advance tick now a) := advances_advance h a
  have hsecond : Advances tick (now + a + b) (d.advance tick now a) _ :=
    advances_advance hfirst.rests_end b
  have hboth := hfirst.trans (Nat.le_add_right _ b) hsecond
  rw [Nat.add_assoc] at hboth
  exact hboth.unique (advances_advance h (a + b))

end Deck

/-! ## Ways to wait -/

/-- Time that goes by with every pass of the timer on time, or a command that has no effect. -/
def PlayerStep.Waits (p : Player) : PlayerStep → Prop
  | .advance _ | .readPaused => True
  | .setPaused paused => p.paused = paused
  | .skip => p.queue = []
  | .enqueue _ _ => maxQueue ≤ p.queue.length
  | .togglePause | .setElapsed _ | .setStatus _ | .stop | .jump _ => False

instance (p : Player) : (a : PlayerStep) → Decidable (a.Waits p)
  | .advance _ | .readPaused => isTrue trivial
  | .setPaused paused => inferInstanceAs (Decidable (p.paused = paused))
  | .skip => inferInstanceAs (Decidable (p.queue = []))
  | .enqueue _ _ => inferInstanceAs (Decidable (maxQueue ≤ p.queue.length))
  | .togglePause | .setElapsed _ | .setStatus _ | .stop | .jump _ => isFalse id

namespace PlayerSession

variable {s : PlayerSession} {a : PlayerStep}

/-- Nothing happens but that time goes by, and commands that have no effect when they are given. -/
def OnlyWaits (s : PlayerSession) : List PlayerStep → Prop
  | [] => True
  | a :: rest => a.Waits s.deck.player ∧ (s.step a).1.OnlyWaits rest

instance decidableOnlyWaits : ∀ (s : PlayerSession) (steps : List PlayerStep),
    Decidable (s.OnlyWaits steps)
  | _, [] => inferInstanceAs (Decidable True)
  | s, a :: rest =>
    have := decidableOnlyWaits (s.step a).1 rest
    inferInstanceAs (Decidable (a.Waits s.deck.player ∧ (s.step a).1.OnlyWaits rest))

/-- The timer has nothing left to do. -/
def Settled (s : PlayerSession) : Prop := s.deck.settle s.tick s.now = s.deck

/-- A session that has settled has no second due. -/
theorem Settled.rests (h : s.Settled) : s.deck.Rests s.now := Deck.rests_of_settle h

/-- A session begins settled. -/
theorem settled_start (tick : Nat) (song : SongId) : (start tick song).Settled :=
  Deck.settle_settle _ _ _

/-- Every step leaves the session settled. -/
theorem Settled.step (h : s.Settled) (a : PlayerStep) : (s.step a).1.Settled := by
  cases a with
  | readPaused => exact h
  | stop =>
    have hstopped : Deck.RestsAs s.now { s.deck with stopped := true } .stopped := .stopped rfl
    exact hstopped.settle_eq
  | advance ms => exact (Deck.advances_advance h.rests ms).settle_eq h
  | jump | togglePause | setPaused | skip | enqueue | setElapsed | setStatus =>
    exact Deck.settle_settle _ _ _

/-- Every run leaves the session settled. -/
theorem Settled.run (h : s.Settled) (steps : List PlayerStep) : (s.run steps).Settled := by
  induction steps generalizing s with
  | nil => exact h
  | cons a rest ih => exact ih (h.step a)

/-- A full queue takes no song, however often it is tried. -/
theorem enqueueTimes_of_full (song : SongId) (times : Nat) {p : Player}
    (h : maxQueue ≤ p.queue.length) : enqueueTimes song times p = (p, 0) := by
  induction times with
  | zero => rfl
  | succ times ih =>
    rw [enqueueTimes, (Player.enqueue?_eq_none_iff p song).mpr h]
    exact ih

/-- A command that changes nothing does not set the timer going. -/
theorem command_eq_self (h : s.Settled) {f : Player → Player}
    (hf : f s.deck.player = s.deck.player) : s.command f = s := by
  rw [command, Deck.apply, hf, h]

/-- To wait no time is to do nothing. -/
theorem step_advance_zero (h : s.Settled) : (s.step (.advance 0)).1 = s := by
  rw [step, Deck.advance_zero h.rests]
  rfl

/-- To wait twice is to wait for both times together. -/
theorem step_advance_add (h : s.Settled) (ms later : Nat) :
    ((s.step (.advance ms)).1.step (.advance later)).1 = (s.step (.advance (ms + later))).1 := by
  simp only [step, Deck.advance_add h.rests, Nat.add_assoc]

/-- A step that waits only lets time go by. -/
theorem step_of_waits (h : s.Settled) (ha : a.Waits s.deck.player) :
    (s.step a).1 = (s.step (.advance a.ms)).1 := by
  cases a with
  | advance => rfl
  | readPaused => exact (step_advance_zero h).symm
  -- The pause is already as it is to be set.
  | setPaused paused =>
    refine (command_eq_self h ?_).trans (step_advance_zero h).symm
    have hsame : s.deck.player.paused = paused := ha
    rw [Player.setPaused, Player.setPaused?, if_pos hsame, Option.getD_none]
  | skip =>
    refine (command_eq_self h ?_).trans (step_advance_zero h).symm
    rw [Player.skip, (Player.next?_eq_none_iff _).mpr ha, Option.getD_none]
  | enqueue song times =>
    refine (command_eq_self h ?_).trans (step_advance_zero h).symm
    rw [enqueueTimes_of_full song times ha]
  | togglePause | setElapsed | setStatus | stop | jump => exact ha.elim

/-- Every way to wait leads to the same as time that goes by in one piece. -/
theorem run_of_onlyWaits (h : s.Settled) {steps : List PlayerStep} (hsteps : s.OnlyWaits steps) :
    s.run steps = (s.step (.advance (steps.map PlayerStep.ms).sum)).1 := by
  induction steps generalizing s with
  | nil => exact (step_advance_zero h).symm
  | cons a rest ih =>
    obtain ⟨ha, hrest⟩ := hsteps
    calc s.run (a :: rest) = (s.step a).1.run rest := rfl
      _ = ((s.step a).1.step (.advance (rest.map PlayerStep.ms).sum)).1 := ih (h.step a) hrest
      _ = ((s.step (.advance a.ms)).1.step (.advance (rest.map PlayerStep.ms).sum)).1 := by
        rw [step_of_waits h ha]
      _ = (s.step (.advance ((a :: rest).map PlayerStep.ms).sum)).1 := by
        rw [step_advance_add h, List.map_cons, List.sum_cons]

end PlayerSession

/-! ## Late wakes -/

/-- In the pass the song neither ends nor changes: none begins, and the player does not come to wait
for one. -/
structure Pass.GoesOn (tick : Nat) (x : Pass) : Prop where
  begun_eq : x.begun tick = []
  waiting_eq : (x.left tick).player.waiting = x.found.player.waiting

instance (tick : Nat) (x : Pass) : Decidable (x.GoesOn tick) :=
  decidable_of_iff (x.begun tick = [] ∧ (x.left tick).player.waiting = x.found.player.waiting)
    ⟨fun h => ⟨h.1, h.2⟩, fun h => ⟨h.begun_eq, h.waiting_eq⟩⟩

namespace Deck

variable {tick now later target fuel : Nat} {d : Deck}

/-- A second of a song of the catalogue runs. -/
structure Ticks (d : Deck) : Prop where
  goes : d.Goes
  playing : d.player.waiting = false
  song : ∃ duration, d.player.song.duration? = some duration
  current : ∃ due, d.pending = some ⟨d.player.epoch, due⟩

/-- Where the timer rests and wakes up by itself, a second of the song runs. -/
theorem ticks_of_wakeTime? {due : Nat} (h : d.settle tick now = d)
    (hwake : d.wakeTime? = some due) : d.Ticks := by
  obtain ⟨hgoes, hplaying, t, hpending, -⟩ := wakeTime?_eq_some_iff.mp hwake
  obtain ⟨rest, hrest⟩ := exists_restsAs_settle tick now d
  rw [h] at hrest
  cases hrest with
  | stopped hstopped => exact absurd hstopped (by simp [hgoes.running])
  | paused _ hpaused => exact absurd hpaused (by simp [hgoes.unpaused])
  | needsSong _ hwaiting => exact absurd hwaiting (by simp [hplaying])
  | onSecond _ _ hsong hpending => exact ⟨hgoes, hplaying, ⟨_, hsong⟩, ⟨_, hpending⟩⟩

namespace Ticks

/-- A second that is due counts the same whenever it is counted. -/
theorem pass_of_due {due : Nat} {duration : UInt32} (h : d.Ticks)
    (hsong : d.player.song.duration? = some duration)
    (hpending : d.pending = some ⟨d.player.epoch, due⟩) (hdue : due ≤ now) :
    d.pass tick now =
      ({ d with player := countTick duration d.player,
                pending := some ⟨d.player.epoch, due + tick⟩ }, none) := by
  rw [pass, if_neg (by simp [h.goes.running]), if_neg (by simp [h.goes.unpaused]),
    if_neg (by simp [h.playing]), hsong]
  dsimp only
  rw [due_of_current hpending, if_neg (Nat.not_lt.mpr hdue)]

/-- While the song goes on a pass finds that no second is due, or counts one as any later pass
would. -/
theorem pass_cases (h : d.Ticks) (hgoes : Pass.GoesOn tick ⟨now, d⟩) :
    (∃ rest, d.pass tick now = (d, some rest)) ∨
      ∃ e : Deck, e.Ticks ∧ ∀ later, now ≤ later → d.pass tick later = (e, none) := by
  obtain ⟨duration, hsong⟩ := h.song
  obtain ⟨due, hpending⟩ := h.current
  -- Not due yet, or due: a second that is due is counted the same at any later time.
  obtain hlater | hdue := Nat.lt_or_ge now due
  · have hrests : d.RestsAs now (.until due) := .onSecond h.goes h.playing hsong hpending hlater
    exact .inl ⟨_, hrests.pass_eq⟩
  · have hpass : ∀ later, now ≤ later → d.pass tick later = _ := fun later hnow =>
      h.pass_of_due hsong hpending (hdue.trans hnow)
    refine .inr ⟨_, ?_, hpass⟩
    obtain ⟨hbegun, hwaits⟩ := hgoes
    rw [Pass.begun, Pass.left, hpass now le_rfl] at hbegun
    rw [Pass.left, hpass now le_rfl] at hwaits
    have hcounted := counted duration d.player
    generalize countTick duration d.player = q at hcounted hbegun hwaits ⊢
    cases hcounted with
    | within => exact ⟨⟨h.goes.running, h.goes.unpaused⟩, h.playing, ⟨_, hsong⟩, ⟨_, rfl⟩⟩
    | follows _ hnext =>
      rw [if_neg (Player.epoch_lt_of_next? hnext).ne'] at hbegun
      cases hbegun
    | last => exact absurd hwaits (by simp [h.playing])

/-- Passes in which the song goes on may as well be made later. -/
theorem settle_settleWithin (h : d.Ticks) (hnow : now ≤ later)
    (hgoes : ∀ x ∈ trailWithin tick now fuel d, x.GoesOn tick) :
    (settleWithin tick now fuel d).settle tick later = d.settle tick later := by
  induction fuel generalizing d with
  | zero => rfl
  | succ fuel ih =>
    rw [trailWithin] at hgoes
    rw [settleWithin]
    obtain ⟨rest, hpass⟩ | ⟨e, he, hpass⟩ := h.pass_cases (hgoes _ List.mem_cons_self)
    · rw [hpass]
    · rw [hpass now le_rfl] at hgoes ⊢
      rw [settle_of_pass (hpass later hnow)]
      exact ih he fun x hx => hgoes x (List.mem_cons_of_mem _ hx)

end Ticks

/-- While the song goes on one late wake does what all the wakes in time would have done. -/
theorem settle_eq_advanceWithin (h : d.settle tick now = d) (hnow : now ≤ target)
    (hfuel : target < now + fuel)
    (hgoes : ∀ x ∈ advanceTrailWithin tick target fuel d, x.GoesOn tick) :
    d.settle tick target = advanceWithin tick target fuel d := by
  -- Induction on the wakes: the passes of the first may be made later, together with the rest.
  induction fuel generalizing now d with
  | zero => omega
  | succ fuel ih =>
    rw [advanceTrailWithin] at hgoes
    rw [advanceWithin]
    cases hwake : d.wakeTime? with
    | none => exact settle_of_rests h (rests_of_wakeTime?_none hwake)
    | some due =>
      have hlater := rests_of_settle h due hwake
      rw [hwake] at hgoes
      dsimp only at hgoes ⊢
      split
      · rename_i hle
        rw [if_pos hle] at hgoes
        have hearly := (ticks_of_wakeTime? h hwake).settle_settleWithin hle fun x hx =>
          hgoes x (List.mem_append_left _ hx)
        rw [← hearly]
        exact ih (settle_settle tick due d) hle (by omega) fun x hx =>
          hgoes x (List.mem_append_right _ hx)
      · rename_i hgt
        exact settle_of_rests h (rests_of_lt hwake (Nat.not_le.mp hgt))

/-- While the song goes on, a timer that wakes up late catches up with one that is on time. -/
theorem settle_eq_advance {ms : Nat} (h : d.settle tick now = d)
    (hgoes : ∀ x ∈ d.advanceTrail tick now ms, x.GoesOn tick) :
    d.settle tick (now + ms) = d.advance tick now ms :=
  settle_eq_advanceWithin h (Nat.le_add_right _ _) (by omega) hgoes

end Deck

/-- Wakes neither lose nor shift a second. From every player that a session comes to, all ways in
which time can go by, cut into pieces at whatever instants and with commands without effect between
them, lead to the same as the time in one piece. And if in that time the song neither ends nor
changes, a timer that wakes up only at its end comes to the same as one that is on time. -/
theorem wakes_keep_seconds (tick : Nat) (song : SongId) (steps : List PlayerStep) (ms : Nat) :
    let s := (PlayerSession.start tick song).run steps
    (∀ more : List PlayerStep, s.OnlyWaits more → (more.map PlayerStep.ms).sum = ms →
      s.run more = (s.step (.advance ms)).1) ∧
    ((∀ x ∈ s.trail (.advance ms), x.GoesOn s.tick) →
      (s.step (.jump ms)).1 = (s.step (.advance ms)).1) := by
  intro s
  have hsettled : s.Settled := (PlayerSession.settled_start tick song).run steps
  refine ⟨?_, ?_⟩
  · rintro more hmore rfl
    exact PlayerSession.run_of_onlyWaits hsettled hmore
  · intro hgoes
    simp only [PlayerSession.step, Deck.jump, Deck.settle_eq_advance hsettled hgoes]

/-- Three seconds in the middle of a song of 42 seconds, in one piece, in pieces that end within a
second, and with one late wake: two seconds are counted before and five afterwards. -/
theorem wakes_keep_seconds_of_three :
    let s := (PlayerSession.start 1000 3).run [.advance 2500]
    let more := [.advance 300, .setPaused false, .advance 1900, .skip, .advance 800]
    s.deck.player.elapsed = 2 ∧ (s.run more).deck.player.elapsed = 5 ∧
      s.OnlyWaits more ∧ (more.map PlayerStep.ms).sum = 3000 ∧
      s.run more = (s.step (.advance 3000)).1 ∧
      (∀ x ∈ s.trail (.advance 3000), x.GoesOn s.tick) ∧
      (s.step (.jump 3000)).1 = (s.step (.advance 3000)).1 := by
  intro s more
  have hkeeps := wakes_keep_seconds 1000 3 [.advance 2500] 3000
  have hmore : s.OnlyWaits more := by decide +kernel
  have hgoes : ∀ x ∈ s.trail (.advance 3000), x.GoesOn s.tick := by decide +kernel
  exact ⟨by decide +kernel, by decide +kernel, hmore, rfl, hkeeps.1 more hmore rfl, hgoes,
    hkeeps.2 hgoes⟩

end Ensemble
