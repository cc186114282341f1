import Ensemble.Proofs.Playback.Trail

/-!
# The loop of the timer

`Deck.Loops` is the loop that the timer runs through at one instant, without any bound: it makes
passes until one comes to rest. Each pass but the last leaves less work, so the loop always ends,
and the work that there is at the beginning bounds its passes, however late the timer is and however
many seconds are due. `Deck.settle`, which is given fuel for as many passes, is this loop.

Where the loop ends nothing is left to do: a further pass finds the same and changes nothing.

* `Deck.exists_loops`, `Deck.Loops.le_work` — the loop ends, within the work that there is.
* `Deck.Loops.settle_eq` — `Deck.settle` leads to its end.
* `Deck.restsAs_of_pass`, `Deck.RestsAs.pass_eq` — what a deck at rest looks like.
* `Deck.Reached` — every deck that commands, passes and time can come to.
* `PlayerSession.reached_run_start` — among them is whatever a session comes to.
* `timer_comes_to_rest` — how soon the timer rests, and for what it waits then.
-/

namespace Ensemble

namespace Deck

variable {tick now fuel n : Nat} {d e : Deck} {rest : Rest}

/-! ## The loop -/

/-- The timer makes `n` passes at the instant `now`, of which only the last comes to rest. -/
inductive Loops (tick now : Nat) : Nat → Deck → Deck → Rest → Prop
  | rests {d e : Deck} {rest : Rest} (h : d.pass tick now = (e, some rest)) :
      Loops tick now 1 d e rest
  | goesOn {n : Nat} {d d' e : Deck} {rest : Rest} (h : d.pass tick now = (d', none))
      (hrest : Loops tick now n d' e rest) : Loops tick now (n + 1) d e rest

/-- The loop ends from every deck. -/
theorem exists_loops (tick now : Nat) (d : Deck) : ∃ n e rest, Loops tick now n d e rest := by
  -- Each pass that goes on leaves less work.
  induction hwork : d.player.work using Nat.strongRecOn generalizing d with
  | ind work ih =>
    rcases hpass : d.pass tick now with ⟨d', _ | rest⟩
    · obtain ⟨n, e, rest, hloops⟩ := ih _ (hwork ▸ work_pass_lt hpass) d' rfl
      exact ⟨n + 1, e, rest, .goesOn hpass hloops⟩
    · exact ⟨1, d', rest, .rests hpass⟩

namespace Loops

/-- There are at most as many passes as there is work to do, and one more that comes to rest. -/
theorem le_work (h : Loops tick now n d e rest) : n ≤ d.player.work + 1 := by
  induction h with
  | rests => exact Nat.le_add_left _ _
  | goesOn hpass _ ih =>
    have := work_pass_lt hpass
    omega

/-- The bound of the passes at one instant is never reached by passes that have work to do. -/
theorem le_passBound (h : Loops tick now n d e rest) : n ≤ d.passBound :=
  h.le_work.trans (Nat.succ_le_of_lt d.work_lt_passBound)

/-- With enough fuel the timer ends where the loop ends. -/
theorem settleWithin_eq (h : Loops tick now n d e rest) (hfuel : n ≤ fuel) :
    settleWithin tick now fuel d = e := by
  induction h generalizing fuel with
  | rests hpass =>
    obtain ⟨fuel, rfl⟩ := Nat.exists_eq_add_of_le' hfuel
    rw [settleWithin, hpass]
  | goesOn hpass _ ih =>
    obtain ⟨fuel, rfl⟩ := Nat.exists_eq_add_of_le' ((Nat.le_add_left 1 _).trans hfuel)
    rw [settleWithin, hpass]
    exact ih (Nat.le_of_succ_le_succ hfuel)

/-- The fuel of `settle` is enough for the whole loop. -/
theorem settle_eq (h : Loops tick now n d e rest) : d.settle tick now = e :=
  h.settleWithin_eq h.le_passBound

/-- A loop ends with a pass that comes to rest. -/
theorem exists_pass (h : Loops tick now n d e rest) :
    ∃ last : Deck, last.pass tick now = (e, some rest) := by
  induction h with
  | rests hpass => exact ⟨_, hpass⟩
  | goesOn _ _ ih => exact ih

end Loops

/-- A pass that goes on makes no difference to where the timer comes to rest. -/
theorem settle_of_pass (h : d.pass tick now = (e, none)) :
    d.settle tick now = e.settle tick now := by
  obtain ⟨n, f, rest, hloops⟩ := exists_loops tick now e
  exact (Loops.goesOn h hloops).settle_eq.trans hloops.settle_eq.symm

/-- Where the first pass comes to rest there is no other. -/
theorem settle_of_pass_rest (h : d.pass tick now = (e, some rest)) : d.settle tick now = e :=
  (Loops.rests h).settle_eq

/-! ## At rest -/

/-- What a deck looks like in which the timer rests at the instant `now`. -/
inductive RestsAs (now : Nat) (d : Deck) : Rest → Prop
  | stopped (h : d.stopped = true) : RestsAs now d .stopped
  | paused (hrunning : d.stopped = false) (hpaused : d.player.paused = true)
      (hpending : d.pending = none) : RestsAs now d .paused
  | needsSong (hgoes : d.Goes) (hwaiting : d.player.waiting = true)
      (hqueue : d.player.queue = []) : RestsAs now d .needsSong
  | onSecond {due : Nat} {duration : UInt32} (hgoes : d.Goes) (hplaying : d.player.waiting = false)
      (hsong : d.player.song.duration? = some duration)
      (hpending : d.pending = some ⟨d.player.epoch, due⟩) (hlater : now < due) :
      RestsAs now d (.until due)

/-- A pass that comes to rest leaves a deck that looks like it. -/
theorem restsAs_of_pass (h : d.pass tick now = (e, some rest)) : e.RestsAs now rest := by
  cases hstopped : d.stopped with
  | true =>
    rw [pass, if_pos hstopped] at h
    cases h
    exact .stopped hstopped
  | false =>
    have hpass := passes tick now d
    rw [h] at hpass
    cases hpass with
    | stopped hended => exact .stopped hended
    | paused hpaused => exact .paused hstopped hpaused rfl
    | needsSong hgoes hwaiting hqueue => exact .needsSong hgoes hwaiting hqueue
    | waits hgoes hplaying hsong hlater =>
      exact .onSecond ⟨hgoes.running, hgoes.unpaused⟩ hplaying hsong rfl hlater

/-- The timer comes to rest where nothing is left to do. -/
theorem exists_restsAs_settle (tick now : Nat) (d : Deck) :
    ∃ rest, (d.settle tick now).RestsAs now rest := by
  obtain ⟨last, rest, h⟩ := settle_eq_of_pass tick now d
  exact ⟨rest, restsAs_of_pass h⟩

/-- The running second of the current epoch is due when it was. -/
theorem due_of_current {due : Nat} (h : d.pending = some ⟨d.player.epoch, due⟩) :
    d.due tick now = due := by
  rw [Deck.due, h]
  exact if_pos rfl

namespace RestsAs

/-- A further pass finds the same, and changes nothing. -/
theorem pass_eq (h : d.RestsAs now rest) : d.pass tick now = (d, some rest) := by
  cases h with
  | stopped hstopped => rw [pass, if_pos hstopped]
  | paused hrunning hpaused hpending =>
    rw [pass, if_neg (by simp [hrunning]), if_pos hpaused, ← hpending]
  | needsSong hgoes hwaiting hqueue =>
    rw [pass, if_neg (by simp [hgoes.running]), if_neg (by simp [hgoes.unpaused]), if_pos hwaiting,
      (Player.next?_eq_none_iff _).mpr hqueue]
  | @onSecond due _ hgoes hplaying hsong hpending hlater =>
    have hdue : d.due tick now = due := due_of_current hpending
    rw [pass, if_neg (by simp [hgoes.running]), if_neg (by simp [hgoes.unpaused]),
      if_neg (by simp [hplaying]), hsong]
    dsimp only
    rw [hdue, if_pos hlater, ← hpending]

/-- A deck at rest stays as it is. -/
theorem settle_eq (h : d.RestsAs now rest) : d.settle tick now = d :=
  settle_of_pass_rest h.pass_eq

/-- Until a second is due the timer rests on. -/
theorem later {later : Nat} (h : d.RestsAs now rest) (hrests : d.Rests later) :
    d.RestsAs later rest := by
  cases h with
  | stopped hstopped => exact .stopped hstopped
  | paused hrunning hpaused hpending => exact .paused hrunning hpaused hpending
  | needsSong hgoes hwaiting hqueue => exact .needsSong hgoes hwaiting hqueue
  | onSecond hgoes hplaying hsong hpending =>
    refine .onSecond hgoes hplaying hsong hpending (hrests _ ?_)
    exact wakeTime?_eq_some_iff.mpr ⟨hgoes, hplaying, _, hpending, rfl⟩

/-- A timer that goes rests on a song of the catalogue, or waits because no song is queued. -/
theorem of_goes (h : d.RestsAs now rest) (hgoes : d.Goes) :
    (d.player.waiting = true → d.player.queue = []) ∧
      (d.player.waiting = false → ∃ duration, d.player.song.duration? = some duration) := by
  cases h with
  | stopped hstopped => exact absurd hstopped (by simp [hgoes.running])
  | paused _ hpaused => exact absurd hpaused (by simp [hgoes.unpaused])
  | needsSong _ hwaiting hqueue => exact ⟨fun _ => hqueue, by simp [hwaiting]⟩
  | onSecond _ hplaying hsong => exact ⟨by simp [hplaying], fun _ => ⟨_, hsong⟩⟩

end RestsAs

/-! ## No second is longer than a tick -/

/-- The running second, of whatever epoch, is over within a tick from now. -/
def Timely (tick now : Nat) (d : Deck) : Prop := ∀ t, d.pending = some t → t.due ≤ now + tick

namespace Timely

/-- As time goes by, no running second becomes too long. -/
theorem later {later : Nat} (h : d.Timely tick now) (hnow : now ≤ later) : d.Timely tick later :=
  fun t ht => (h t ht).trans (Nat.add_le_add_right hnow tick)

/-- What is due next is due within a tick. -/
theorem due_le (h : d.Timely tick now) : d.due tick now ≤ now + tick := by
  rw [Deck.due]
  cases hpending : d.pending with
  | none => exact le_rfl
  | some t =>
    dsimp only
    split
    · exact h t hpending
    · exact le_rfl

/-- A pass begins no second that is longer than a tick. -/
theorem pass (h : d.Timely tick now) : (d.pass tick now).1.Timely tick now := by
  have hpass := passes tick now d
  generalize d.pass tick now = r at hpass ⊢
  cases hpass with
  | stopped | needsSong | begins | unknown => exact h
  | paused => rintro t ⟨⟩
  | waits =>
    rintro t ⟨⟩
    exact h.due_le
  | counts _ _ _ hover =>
    rintro t ⟨⟩
    exact Nat.add_le_add_right hover tick

/-- All the passes at one instant begin no second that is longer than a tick. -/
theorem loops (h : d.Timely tick now) (hloops : Loops tick now n d e rest) :
    e.Timely tick now := by
  induction hloops with
  | rests hpass =>
    have := h.pass
    rwa [hpass] at this
  | goesOn hpass _ ih =>
    have := h.pass
    rw [hpass] at this
    exact ih this

end Timely

/-! ## What can be reached -/

/-- The decks that a player with its timer can come to, with the instants: the player begins a song,
and then commands are given, the timer makes passes and time goes by, in any order. The timer may
wake up whenever it likes, and be as late as it likes. -/
inductive Reached (tick : Nat) : Nat → Deck → Prop
  | start (song : SongId) : Reached tick 0 ⟨Player.start song, none, false⟩
  | command {now : Nat} {d : Deck} (h : Reached tick now d) (a : PlayerStep) :
      Reached tick now (a.command d)
  | pass {now : Nat} {d : Deck} (h : Reached tick now d) : Reached tick now (d.pass tick now).1
  | wait {now later : Nat} {d : Deck} (h : Reached tick now d) (hnow : now ≤ later) :
      Reached tick later d

/-- No command touches the running second. -/
theorem pending_command (a : PlayerStep) (d : Deck) : (a.command d).pending = d.pending := by
  cases a <;> rfl

/-- No deck that can be reached has a second that is longer than a tick. -/
theorem Reached.timely (h : d.Reached tick now) : d.Timely tick now := by
  induction h with
  | start => rintro t ⟨⟩
  | command _ a ih =>
    rw [Timely, pending_command]
    exact ih
  | pass _ ih => exact ih.pass
  | wait _ hnow ih => exact ih.later hnow

/-- Where passes of the timer lead can be reached. -/
theorem Runs.reached {before later : Nat} {xs : List Pass} (h : Runs tick before d xs later e)
    (hd : d.Reached tick before) : e.Reached tick later := by
  induction h with
  | waits hnow => exact hd.wait hnow
  | pass hnow _ ih => exact ih (hd.wait hnow).pass

end Deck

namespace PlayerSession

/-- A player begins in a deck that can be reached. -/
theorem reached_start (tick : Nat) (song : SongId) : (start tick song).deck.Reached tick 0 :=
  (Deck.runs_settle le_rfl).reached (.start song)

/-- A step leads to a deck that can be reached. -/
theorem reached_step {s : PlayerSession} (h : s.deck.Reached s.tick s.now)
    (hrests : s.deck.Rests s.now) (a : PlayerStep) :
    (s.step a).1.deck.Reached s.tick (s.step a).1.now :=
  (runs_step hrests a).reached ((h.command a).wait (s.le_resumes a))

/-- A run leads to a deck that can be reached. -/
theorem reached_run {s : PlayerSession} (h : s.deck.Reached s.tick s.now)
    (hrests : s.deck.Rests s.now) (steps : List PlayerStep) :
    (s.run steps).deck.Reached s.tick (s.run steps).now := by
  induction steps generalizing s with
  | nil => exact h
  | cons a rest ih =>
    have hstep := ih (s.tick_step a ▸ reached_step h hrests a) (rests_step hrests a)
    rwa [tick_step] at hstep

/-- Whatever a session comes to is reached. -/
theorem reached_run_start (tick : Nat) (song : SongId) (steps : List PlayerStep) :
    ((start tick song).run steps).deck.Reached tick ((start tick song).run steps).now :=
  reached_run (reached_start tick song) (rests_start tick song) steps

end PlayerSession

/-- The timer always comes to rest. From whatever a player with its timer can come to, and however
long the timer was not looked at since, its loop ends after a number of passes that the queue alone
bounds. It ends because the timer has ended for good, or the player is paused, or waits for a song
of which none is queued, or plays a song of the catalogue, with a second that is over later than now
but within a tick. So a player that goes never stays on a song outside the catalogue, and never lets
a song wait in the queue while it waits for one. -/
theorem timer_comes_to_rest {tick before now : Nat} {d : Deck} (h : d.Reached tick before)
    (hnow : before ≤ now) :
    ∃ n e rest, n ≤ (d.player.queue.length + 1) * (longestDuration + 3) ∧
      Deck.Loops tick now n d e rest ∧ d.settle tick now = e ∧ e.RestsAs now rest ∧
      (∀ due, rest = .until due → due ≤ now + tick) ∧
      (e.Goes → (e.player.waiting = true → e.player.queue = []) ∧
        (e.player.waiting = false → ∃ duration, e.player.song.duration? = some duration)) := by
  obtain ⟨n, e, rest, hloops⟩ := Deck.exists_loops tick now d
  obtain ⟨last, hlast⟩ := hloops.exists_pass
  have hrests := Deck.restsAs_of_pass hlast
  have htimely : e.Timely tick now := (h.wait hnow).timely.loops hloops
  refine ⟨n, e, rest, hloops.le_passBound, hloops, hloops.settle_eq, hrests, ?_, hrests.of_goes⟩
  rintro due rfl
  cases hrests with
  | onSecond _ _ _ hpending => exact htimely _ hpending

/-- A song outside the catalogue is given the largest position, two more such songs and the longest
one of the catalogue are queued, and then the timer is not looked at for a day. -/
def leftForADay : Deck :=
  [PlayerStep.setPaused true, .setElapsed 0xFFFFFFFF, .enqueue 99 2, .enqueue 5 1,
    .setPaused false].foldl (fun d a => a.command d) ⟨Player.start 42, none, false⟩

/-- The longest song begins only when the timer is looked at, so it has a whole second to run. -/
theorem timer_comes_to_rest_leftForADay :
    leftForADay.Reached 1000 0 ∧ 0 ≤ 86400000 ∧
      (∃ n rest, n ≤ 392 ∧
        Deck.Loops 1000 86400000 n leftForADay (leftForADay.settle 1000 86400000) rest) ∧
      (leftForADay.settle 1000 86400000).RestsAs 86400000 (.until 86401000) := by
  have hreached : leftForADay.Reached 1000 0 :=
    (((((Deck.Reached.start 42).command (.setPaused true)).command (.setElapsed 0xFFFFFFFF)).command
      (.enqueue 99 2)).command (.enqueue 5 1)).command (.setPaused false)
  have hnow : 0 ≤ 86400000 := Nat.zero_le _
  obtain ⟨n, e, rest, hbound, hloops, rfl, hrests, -⟩ := timer_comes_to_rest hreached hnow
  refine ⟨hreached, hnow, ⟨n, rest, hbound, hloops⟩, ?_⟩
  have hend : leftForADay.settle 1000 86400000 =
      ⟨⟨5, 0, false, [], 5, false⟩, some ⟨5, 86401000⟩, false⟩ := by decide +kernel
  rw [hend]
  exact .onSecond ⟨rfl, rfl⟩ rfl rfl rfl (by decide)

end Ensemble
