import Ensemble.Playback.Run
import Ensemble.Proofs.Playback.Rest

/-!
# The trail of the timer

The trail of a step is the list of the passes that the timer makes in it, each with the instant at
which it is made and the deck that it finds. What passes of the timer preserve is proved once, along
`Deck.Runs`: passes at instants that never go back, in whatever number.

* `Deck.runs_settle`, `Deck.runs_advance` — the trails lead to where the timer rests.
* `PlayerSession.runs_step` — every step of a session is its command and then its trail.
* `PlayerSession.rests_step` — after every step no second is due.
-/

namespace Ensemble

/-! ## Trails -/

/-- A pass of the timer: when it is made, and the deck that it finds. -/
structure Pass where
  now : Nat
  found : Deck

/-- The deck that a pass leaves. -/
def Pass.left (tick : Nat) (x : Pass) : Deck := (x.found.pass tick x.now).1

/-- The songs that begin with a pass: one if the pass opens an epoch, and none otherwise. -/
def Pass.begun (tick : Nat) (x : Pass) : List SongId :=
  if (x.left tick).player.epoch = x.found.player.epoch then [] else [(x.left tick).player.song]

namespace Deck

/-- The passes of `settleWithin`. -/
def trailWithin (tick now : Nat) : Nat → Deck → List Pass
  | 0, _ => []
  | fuel + 1, d =>
    ⟨now, d⟩ ::
      match d.pass tick now with
      | (_, some _) => []
      | (d, none) => trailWithin tick now fuel d

/-- The passes of the timer at one instant. -/
def trail (tick now : Nat) (d : Deck) : List Pass := trailWithin tick now d.passBound d

/-- The passes of `advanceWithin`. -/
def advanceTrailWithin (tick target : Nat) : Nat → Deck → List Pass
  | 0, _ => []
  | fuel + 1, d =>
    match d.wakeTime? with
    | some due =>
      if due ≤ target then
        d.trail tick due ++ advanceTrailWithin tick target fuel (d.settle tick due)
      else []
    | none => []

/-- The passes of the timer while `ms` milliseconds go by from `now` on. -/
def advanceTrail (tick now ms : Nat) (d : Deck) : List Pass :=
  advanceTrailWithin tick (now + ms) (ms + 1) d

/-- The passes with which the deck of a player begins. -/
def startTrail (tick now : Nat) (song : SongId) : List Pass :=
  { player := Player.start song, pending := none, stopped := false : Deck }.trail tick now

/-- Passes of the timer at instants that never go back lead from one deck to another. -/
inductive Runs (tick : Nat) : Nat → Deck → List Pass → Nat → Deck → Prop
  | waits {before later : Nat} {d : Deck} (h : before ≤ later) : Runs tick before d [] later d
  | pass {before now later : Nat} {d e : Deck} {rest : List Pass} (h : before ≤ now)
      (hrest : Runs tick now (d.pass tick now).1 rest later e) :
      Runs tick before d (⟨now, d⟩ :: rest) later e

namespace Runs

variable {tick before now later : Nat} {d e f : Deck} {xs ys : List Pass}

/-- Passes that lead from where others have led go on with them. -/
theorem append (h : Runs tick before d xs now e) (h' : Runs tick now e ys later f) :
    Runs tick before d (xs ++ ys) later f := by
  induction h with
  | waits h =>
    cases h' with
    | waits h' => exact .waits (h.trans h')
    | pass hnow hrest => exact .pass (h.trans hnow) hrest
  | pass h _ ih => exact .pass h (ih h')

end Runs

variable {tick before now : Nat} {d : Deck}

/-- The passes at one instant lead to where the timer comes to rest. -/
theorem runs_settleWithin {fuel : Nat} (h : before ≤ now) :
    Runs tick before d (trailWithin tick now fuel d) now (settleWithin tick now fuel d) := by
  induction fuel generalizing before d with
  | zero => exact .waits h
  | succ fuel ih =>
    rw [trailWithin, settleWithin]
    refine .pass h ?_
    rcases d.pass tick now with ⟨e, _ | rest⟩
    · exact ih le_rfl
    · exact .waits le_rfl

/-- The trail at one instant leads to where the timer rests. -/
theorem runs_settle (h : before ≤ now) :
    Runs tick before d (d.trail tick now) now (d.settle tick now) := runs_settleWithin h

/-- A timer that rests wakes up later, so that its wakes never go back. -/
theorem runs_advanceWithin {target fuel : Nat} (h : d.Rests now) (hnow : now ≤ target) :
    Runs tick now d (advanceTrailWithin tick target fuel d) target
      (advanceWithin tick target fuel d) := by
  induction fuel generalizing now d with
  | zero => exact .waits hnow
  | succ fuel ih =>
    rw [advanceTrailWithin, advanceWithin]
    cases hwake : d.wakeTime? with
    | none => exact .waits hnow
    | some due =>
      dsimp only
      split
      · rename_i hle
        exact (runs_settle (h due hwake).le).append (ih (rests_settle tick due d) hle)
      · exact .waits hnow

/-- The trail of passing time leads to where the timer rests in the end. -/
theorem runs_advance (h : d.Rests now) (ms : Nat) :
    Runs tick now d (d.advanceTrail tick now ms) (now + ms) (d.advance tick now ms) :=
  runs_advanceWithin h (Nat.le_add_right _ _)

/-- While the player is paused time goes by without any pass. -/
theorem advance_of_paused (tick now ms : Nat) (h : d.player.paused = true) :
    d.advance tick now ms = d ∧ d.advanceTrail tick now ms = [] := by
  have hwake : d.wakeTime? = none := by simp [wakeTime?, h]
  simp [advance, advanceWithin, advanceTrail, advanceTrailWithin, hwake]

end Deck

/-! ## What a pass does to the song -/

/-- The second player plays the same song as the first, with the same songs waiting. -/
structure Player.SameSong (p q : Player) : Prop where
  song_eq : q.song = p.song
  queue_eq : q.queue = p.queue
  epoch_eq : q.epoch = p.epoch
  paused_eq : q.paused = p.paused

namespace Player

theorem SameSong.refl (p : Player) : p.SameSong p := ⟨rfl, rfl, rfl, rfl⟩

/-- At its end the song is followed by the next, or it stays the same. -/
theorem endSong_cases (p : Player) : p.next? = some p.endSong ∨ p.SameSong p.endSong := by
  cases hnext : p.next? with
  | some q => exact .inl (by rw [endSong_eq_of_next? hnext])
  | none =>
    rw [endSong_of_queue_eq_nil ((next?_eq_none_iff p).mp hnext)]
    exact .inr ⟨rfl, rfl, rfl, rfl⟩

end Player

namespace Deck

/-- A pass lets the next song begin, or leaves the song and the queue alone. -/
theorem pass_cases (tick now : Nat) (d : Deck) :
    d.player.next? = some (d.pass tick now).1.player ∨
      d.player.SameSong (d.pass tick now).1.player := by
  have hpass := passes tick now d
  generalize d.pass tick now = r at hpass ⊢
  -- Only the end of a song goes to the next one, or a song that the player was waiting for.
  cases hpass with
  | stopped | paused | needsSong | waits => exact .inr (.refl _)
  | begins _ _ hnext => exact .inl hnext
  | unknown => exact d.player.endSong_cases
  | @counts duration =>
    have hcounted := counted duration d.player
    dsimp only
    generalize countTick duration d.player = q at hcounted ⊢
    cases hcounted with
    | within => exact .inr ⟨rfl, rfl, rfl, rfl⟩
    | follows _ hnext => exact .inl hnext
    | last => exact .inr ⟨rfl, rfl, rfl, rfl⟩

/-- The timer neither begins nor ends a pause. -/
theorem paused_pass (tick now : Nat) (d : Deck) :
    (d.pass tick now).1.player.paused = d.player.paused := by
  obtain hnext | hsame := d.pass_cases tick now
  · obtain ⟨song, rest, -, heq⟩ := Player.next?_eq_some_iff.mp hnext
    rw [heq]
  · exact hsame.paused_eq

/-- No pass pauses the player or makes it go on. -/
theorem Runs.paused_eq {tick before later : Nat} {d e : Deck} {xs : List Pass}
    (h : Runs tick before d xs later e) : e.player.paused = d.player.paused := by
  induction h with
  | waits => rfl
  | pass _ _ ih => exact ih.trans (paused_pass tick _ _)

end Deck

namespace Pass

variable {tick : Nat} {x : Pass}

/-- A pass that goes to the next song begins it. -/
theorem begun_of_next? (h : x.found.player.next? = some (x.left tick).player) :
    x.begun tick = [(x.left tick).player.song] :=
  if_neg (Player.epoch_lt_of_next? h).ne'

/-- A pass that stays with the song begins none. -/
theorem begun_of_sameSong (h : x.found.player.SameSong (x.left tick).player) :
    x.begun tick = [] := if_pos h.epoch_eq

end Pass

/-! ## Sessions -/

/-- What a step does to the deck by itself, before the timer runs. -/
def PlayerStep.command (d : Deck) : PlayerStep → Deck
  | .togglePause => { d with player := d.player.togglePause }
  | .setPaused paused => { d with player := d.player.setPaused paused }
  | .skip => { d with player := d.player.skip }
  | .enqueue song times => { d with player := (PlayerSession.enqueueTimes song times d.player).1 }
  | .setElapsed seconds => { d with player := d.player.setElapsed seconds }
  | .setStatus status => { d with player := d.player.setStatus status }
  | .stop => { d with stopped := true }
  | .readPaused | .advance _ | .jump _ => d

/-- How long a step lasts. -/
def PlayerStep.ms : PlayerStep → Nat
  | .advance ms | .jump ms => ms
  | _ => 0

namespace PlayerSession

/-- The passes of the timer in a step. -/
def trail (s : PlayerSession) : PlayerStep → List Pass
  | .readPaused | .stop => []
  | .advance ms => s.deck.advanceTrail s.tick s.now ms
  | .jump ms => s.deck.trail s.tick (s.now + ms)
  | a => (a.command s.deck).trail s.tick s.now

/-- Only the queue grows, by the songs that were accepted. -/
theorem enqueueTimes_fst (song : SongId) (times : Nat) (p : Player) :
    (enqueueTimes song times p).1 =
      { p with queue := p.queue ++ List.replicate (enqueueTimes song times p).2 song } := by
  -- Induction on the attempts: each appends the song or leaves the queue.
  induction times generalizing p with
  | zero => simp [enqueueTimes]
  | succ times ih =>
    rw [enqueueTimes]
    cases hq : p.enqueue? song with
    | none => exact ih p
    | some q =>
      have hqueue : q = { p with queue := p.queue ++ [song] } := by
        rw [Player.enqueue?] at hq
        split at hq
        · exact (Option.some.inj hq).symm
        · cases hq
      subst hqueue
      simp only [ih, List.append_assoc, List.singleton_append, ← List.replicate_succ]

@[simp] theorem tick_step (s : PlayerSession) (a : PlayerStep) : (s.step a).1.tick = s.tick := by
  cases a <;> rfl

@[simp] theorem tick_run (s : PlayerSession) (steps : List PlayerStep) :
    (s.run steps).tick = s.tick := by
  induction steps generalizing s with
  | nil => rfl
  | cons a rest ih => exact (ih _).trans (s.tick_step a)

/-- A step takes as long as it says. -/
theorem now_step (s : PlayerSession) (a : PlayerStep) : (s.step a).1.now = s.now + a.ms := by
  cases a <;> rfl

/-- After every step the timer has nothing to do. -/
theorem rests_step {s : PlayerSession} (h : s.deck.Rests s.now) (a : PlayerStep) :
    (s.step a).1.deck.Rests (s.step a).1.now := by
  cases a with
  | readPaused => exact h
  | stop => exact fun due hdue => by simp [step, Deck.wakeTime?] at hdue
  | advance ms => exact Deck.rests_advance h ms
  | jump | togglePause | setPaused | skip | enqueue | setElapsed | setStatus =>
    exact Deck.rests_settle _ _ _

/-- Between the steps no second is due. -/
theorem rests_run {s : PlayerSession} (h : s.deck.Rests s.now) (steps : List PlayerStep) :
    (s.run steps).deck.Rests (s.run steps).now := by
  induction steps generalizing s with
  | nil => exact h
  | cons a rest ih => exact ih (rests_step h a)

/-- A session begins with no second due. -/
theorem rests_start (tick : Nat) (song : SongId) :
    (start tick song).deck.Rests (start tick song).now := Deck.rests_settle _ _ _

/-- When the timer may make its first pass in a step: a paused player lets the time of the step go
by before. -/
def resumes (s : PlayerSession) (a : PlayerStep) : Nat :=
  s.now + if s.deck.player.paused then a.ms else 0

/-- The timer does not go back in time. -/
theorem le_resumes (s : PlayerSession) (a : PlayerStep) : s.now ≤ s.resumes a :=
  Nat.le_add_right _ _

/-- Every step is its command, and then the passes of its trail. -/
theorem runs_step {s : PlayerSession} (h : s.deck.Rests s.now) (a : PlayerStep) :
    Deck.Runs s.tick (s.resumes a) (a.command s.deck) (s.trail a)
      (s.step a).1.now (s.step a).1.deck := by
  have hresumes : s.resumes a ≤ s.now + a.ms := by
    rw [resumes]
    split <;> omega
  cases a with
  | readPaused | stop => exact .waits hresumes
  | togglePause | setPaused | skip | enqueue | setElapsed | setStatus =>
    exact Deck.runs_settle hresumes
  | jump ms => exact Deck.runs_settle hresumes
  | advance ms =>
    simp only [trail, step, PlayerStep.command]
    -- In a pause the timer makes no pass.
    cases hpaused : s.deck.player.paused with
    | true =>
      obtain ⟨hdeck, htrail⟩ := Deck.advance_of_paused s.tick s.now ms hpaused
      rw [hdeck, htrail]
      exact .waits hresumes
    | false =>
      rw [resumes, hpaused]
      exact Deck.runs_advance h ms

end PlayerSession

end Ensemble
