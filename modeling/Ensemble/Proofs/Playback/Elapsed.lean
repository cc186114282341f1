import Ensemble.Proofs.Playback.Loop
import Ensemble.Proofs.Playback.Order
import Ensemble.Proofs.Playback.Seconds

/-!
# The position stays within the song

The position in a song is written from outside without any check, counted on by the timer, and set
back when a song begins. A record notes all of this while commands are given and the timer makes
passes, in any order. Whatever the record, the position is within the song, or it is exactly what
was written last, with nothing counted and no song begun since.

* `Player.Placed` — where a player is in its song, by its record.
* `Player.Placed.command`, `Player.Placed.pass` — commands and passes of the timer keep that.
* `Deck.toNat_elapsed_pass_of_countsSecond` — seconds are counted as if numbers had no bound.
* `elapsed_within_song` — so every player is placed that anything can lead to.
-/

namespace Ensemble

/-! ## The record -/

/-- Something that happens to the position in a song. -/
inductive Note where
  /-- The position was written, alone or with a whole status. -/
  | wrote (elapsed : UInt32)
  /-- The timer counted a second. -/
  | counted
  /-- A song became the current one. -/
  | began (song : SongId)
  /-- The current song was over while none was queued. -/
  | ended (song : SongId)
  deriving DecidableEq, Repr

/-- The position that the command of a step writes. -/
def PlayerStep.written : PlayerStep → List Note
  | .setElapsed seconds => [.wrote seconds]
  | .setStatus status => [.wrote status.elapsed]
  | _ => []

/-- What the command of a step adds to the record. -/
def PlayerStep.notes (p : Player) (a : PlayerStep) : List Note :=
  (a.begun p).map .began ++ a.written

/-- What a pass of the timer adds to the record. -/
def Pass.notes (tick : Nat) (x : Pass) : List Note :=
  (if x.found.countsSecond tick x.now then [.counted] else []) ++ (x.begun tick).map .began ++
    if !x.found.player.waiting && (x.left tick).player.waiting then [.ended x.found.player.song]
    else []

/-- The decks that a player with its timer can come to, with the instants and the record: commands
are given, the timer makes passes and time goes by, in any order and however late. -/
inductive Deck.Recorded (tick : Nat) : Nat → List Note → Deck → Prop
  | start (song : SongId) : Recorded tick 0 [.began song] ⟨Player.start song, none, false⟩
  | command {now : Nat} {log : List Note} {d : Deck} (h : Recorded tick now log d)
      (a : PlayerStep) : Recorded tick now (log ++ a.notes d.player) (a.command d)
  | pass {now : Nat} {log : List Note} {d : Deck} (h : Recorded tick now log d) :
      Recorded tick now (log ++ Pass.notes tick ⟨now, d⟩) (d.pass tick now).1
  | wait {now later : Nat} {log : List Note} {d : Deck} (h : Recorded tick now log d)
      (hnow : now ≤ later) : Recorded tick later log d

/-- The position was the last one to be written, and since then no second was counted and no song
began. -/
def LastWritten (log : List Note) (elapsed : UInt32) : Prop :=
  ∃ before after, log = before ++ .wrote elapsed :: after ∧ ∀ n ∈ after, ∃ song, n = .ended song

/-- Where a player is in its song. -/
structure Player.Placed (log : List Note) (p : Player) : Prop where
  /-- In a song of the catalogue it is not beyond the end, unless the position was written so. -/
  within : ∀ duration, p.song.duration? = some duration →
    p.elapsed ≤ duration ∨ LastWritten log p.elapsed
  /-- Of a song outside the catalogue nothing passes. -/
  outside : p.song.duration? = none → p.elapsed = 0 ∨ LastWritten log p.elapsed
  /-- A player that waits is at the end of its song, unless the position was written since. -/
  waits : p.waiting = true → ∃ before after, log = before ++ .ended p.song :: after ∧
    (∀ n ∈ after, ∃ elapsed, n = .wrote elapsed) ∧
    (after = [] → ∀ duration, p.song.duration? = some duration → p.elapsed = duration)

/-- What was written last is what is there. -/
theorem LastWritten.concat_wrote (log : List Note) (elapsed : UInt32) :
    LastWritten (log ++ [.wrote elapsed]) elapsed :=
  ⟨log, [], rfl, by simp⟩

/-- The end of a song writes no position. -/
theorem LastWritten.concat_ended {log : List Note} {elapsed : UInt32}
    (h : LastWritten log elapsed) (song : SongId) : LastWritten (log ++ [.ended song]) elapsed := by
  obtain ⟨before, after, rfl, hafter⟩ := h
  refine ⟨before, after ++ [.ended song], by simp, ?_⟩
  simpa [or_imp, forall_and] using hafter

namespace Player.Placed

variable {log : List Note} {p q : Player}

/-- What leaves the song, the position and the waiting alone has no part in it. -/
theorem congr (h : p.Placed log) (hsong : q.song = p.song) (helapsed : q.elapsed = p.elapsed)
    (hwaiting : q.waiting = p.waiting) : q.Placed log := by
  obtain ⟨hwithin, houtside, hwaits⟩ := h
  constructor
  · rwa [hsong, helapsed]
  · rwa [hsong, helapsed]
  · rwa [hsong, helapsed, hwaiting]

/-- A song begins at its beginning. -/
theorem next? (hnext : p.next? = some q) (log : List Note) : q.Placed log := by
  obtain ⟨song, rest, -, rfl⟩ := next?_eq_some_iff.mp hnext
  constructor
  · exact fun duration _ => .inl UInt32.zero_le
  · exact fun _ => .inl rfl
  · exact fun hwaiting => absurd hwaiting Bool.false_ne_true

/-- A written position is the last one written. -/
theorem setElapsed (h : p.Placed log) (seconds : UInt32) :
    (p.setElapsed seconds).Placed (log ++ [.wrote seconds]) := by
  have hlast : LastWritten (log ++ [.wrote seconds]) (p.setElapsed seconds).elapsed :=
    .concat_wrote log seconds
  refine ⟨fun _ _ => .inr hlast, fun _ => .inr hlast, fun hwaiting => ?_⟩
  obtain ⟨before, after, rfl, hafter, -⟩ := h.waits hwaiting
  refine ⟨before, after ++ [.wrote seconds], by simp [Player.setElapsed], ?_, by simp⟩
  simpa [or_imp, forall_and] using hafter

/-- So is one that comes with a status. -/
theorem setStatus (p : Player) (s : PlaybackStatus) (log : List Note) :
    (p.setStatus s).Placed (log ++ [.wrote s.elapsed]) := by
  have hlast : LastWritten (log ++ [.wrote s.elapsed]) (p.setStatus s).elapsed :=
    .concat_wrote log s.elapsed
  exact ⟨fun _ _ => .inr hlast, fun _ => .inr hlast,
    fun hwaiting => absurd hwaiting Bool.false_ne_true⟩

/-- Up to the end of a song that plays it does not matter what was written. -/
theorem of_le {duration : UInt32} (hsong : p.song.duration? = some duration)
    (hle : p.elapsed ≤ duration) (hwaiting : p.waiting = false) (log : List Note) :
    p.Placed log := by
  refine ⟨fun _ hduration => ?_, fun hunknown => ?_, fun hwaits => ?_⟩
  · rw [hsong] at hduration
    cases hduration
    exact .inl hle
  · simp [hsong] at hunknown
  · simp [hwaiting] at hwaits

/-- The last song is over at its end. -/
theorem endLast {duration : UInt32} (hsong : p.song.duration? = some duration) (log : List Note) :
    ({ p with elapsed := duration, waiting := true } : Player).Placed
      (log ++ [.ended p.song]) := by
  have hend : ∀ other, p.song.duration? = some other → duration = other := by simp [hsong]
  refine ⟨fun _ h => .inl (hend _ h ▸ UInt32.le_refl _), fun hunknown => ?_, fun _ => ?_⟩
  · simp [hsong] at hunknown
  · exact ⟨log, [], rfl, by simp, fun _ => hend⟩

/-- A song outside the catalogue is over where it is. -/
theorem endUnknown (h : p.Placed log) (hsong : p.song.duration? = none) :
    ({ p with waiting := true } : Player).Placed (log ++ [.ended p.song]) := by
  refine ⟨fun _ hduration => ?_, fun _ => ?_, fun _ => ⟨log, [], rfl, by simp, ?_⟩⟩
  · simp [hsong] at hduration
  · exact (h.outside hsong).imp_right fun hlast => hlast.concat_ended p.song
  · simp [hsong]

/-! ## Commands -/

/-- To toggle the pause does not move within the song. -/
theorem togglePause (h : p.Placed log) : p.togglePause.Placed log := by
  rw [Player.togglePause]
  split
  · exact h.congr rfl rfl rfl
  · exact h.congr rfl rfl rfl

/-- To pause or to go on does not move within the song. -/
theorem setPaused (h : p.Placed log) (paused : Bool) : (p.setPaused paused).Placed log := by
  rw [Player.setPaused, Player.setPaused?]
  split
  · exact h
  · exact h.togglePause

/-- After every command the position is where its notes say. -/
theorem command {d : Deck} (h : d.player.Placed log) (a : PlayerStep) :
    (a.command d).player.Placed (log ++ a.notes d.player) := by
  cases a <;> simp only [PlayerStep.notes, PlayerStep.begun, PlayerStep.written, PlayerStep.command,
    List.map_nil, List.nil_append, List.append_nil]
  case togglePause => exact h.togglePause
  case setPaused paused => exact h.setPaused paused
  case skip =>
    rw [skip]
    cases hnext : d.player.next? with
    | none => simpa using h
    | some q => exact next? hnext _
  -- The queue is no part of the position.
  case enqueue song times =>
    rw [PlayerSession.enqueueTimes_fst]
    exact h.congr rfl rfl rfl
  case setElapsed seconds => exact h.setElapsed seconds
  -- A status writes a position and begins a song.
  case setStatus status =>
    rw [← List.append_assoc]
    exact setStatus _ status _
  case readPaused | stop | advance | jump => exact h

end Player.Placed

/-! ## Passes of the timer -/

namespace Deck

variable {tick now : Nat} {d : Deck} {log : List Note}

/-- A pass that begins no song notes the second that it counts, and the end if there is no song to
follow. -/
theorem notes_of_sameSong (h : d.player.SameSong (d.pass tick now).1.player) :
    Pass.notes tick ⟨now, d⟩ =
      (if d.countsSecond tick now then [.counted] else []) ++
        if !d.player.waiting && (d.pass tick now).1.player.waiting then [.ended d.player.song]
        else [] := by
  have hbegun : Pass.begun tick ⟨now, d⟩ = [] := Pass.begun_of_sameSong h
  simp [Pass.notes, Pass.left, hbegun]

/-- A pass that lets no song begin leaves the player in its song, or at the end of it. -/
theorem placed_pass_of_sameSong (h : d.player.Placed log)
    (hsame : d.player.SameSong (d.pass tick now).1.player) :
    (d.pass tick now).1.player.Placed (log ++ Pass.notes tick ⟨now, d⟩) := by
  rw [notes_of_sameSong hsame]
  have hepoch := hsame.epoch_eq
  have hpass := passes tick now d
  generalize d.pass tick now = r at hpass hepoch ⊢
  -- One case per kind of pass; those that would begin a song open an epoch, which this one does
  -- not.
  cases hpass with
  | stopped hstopped => simpa [countsSecond, hstopped] using h
  | paused hpaused => simpa [countsSecond, hpaused] using h
  | needsSong _ hwaiting => simpa [countsSecond, hwaiting] using h
  | begins _ _ hnext => exact absurd hepoch (Player.epoch_lt_of_next? hnext).ne'
  | unknown _ hwaiting hsong =>
    have hcounts : d.countsSecond tick now = false := by simp [countsSecond, hsong]
    cases hnext : d.player.next? with
    | some q =>
      rw [Player.endSong_eq_of_next? hnext] at hepoch
      exact absurd hepoch (Player.epoch_lt_of_next? hnext).ne'
    | none =>
      have hqueue := (Player.next?_eq_none_iff _).mp hnext
      simpa [hcounts, hwaiting, Player.endSong_of_queue_eq_nil hqueue] using h.endUnknown hsong
  | waits _ hwaiting _ hlater =>
    have hcounts : d.countsSecond tick now = false := by simp [countsSecond, hlater]
    simpa [hcounts, hwaiting] using h
  | @counts duration hgoes hwaiting hsong hdue =>
    have hcounts : d.countsSecond tick now = true :=
      countsSecond_iff.mpr ⟨hgoes, hwaiting, by simp [hsong], hdue⟩
    have hcounted := counted duration d.player
    dsimp only at hepoch ⊢
    generalize countTick duration d.player = q at hcounted hepoch ⊢
    cases hcounted with
    | within hle => exact .of_le (p := d.player.countSecond) hsong hle hwaiting _
    | follows _ hnext => exact absurd hepoch (Player.epoch_lt_of_next? hnext).ne'
    | last =>
      have hlast := Player.Placed.endLast hsong (log ++ [.counted])
      rw [List.append_assoc] at hlast
      simpa [hcounts, hwaiting] using hlast

end Deck

/-- A pass of the timer keeps the player placed. -/
theorem Player.Placed.pass {tick now : Nat} {log : List Note} {d : Deck} (h : d.player.Placed log) :
    (d.pass tick now).1.player.Placed (log ++ Pass.notes tick ⟨now, d⟩) := by
  obtain hnext | hsame := d.pass_cases tick now
  · exact .next? hnext _
  · exact Deck.placed_pass_of_sameSong h hsame

/-! ## The arithmetic -/

namespace Deck

variable {tick now : Nat} {d : Deck}

/-- A second is counted as if numbers had no bound: in a song of the catalogue the count has come
to its end long before it comes to the largest number. -/
theorem toNat_elapsed_countTick {id : SongId} {duration : UInt32}
    (hsong : id.duration? = some duration) (p : Player) :
    (countTick duration p).elapsed.toNat =
      if p.elapsed.toNat + 1 ≤ duration.toNat then p.elapsed.toNat + 1
      else if p.queue = [] then duration.toNat else 0 := by
  -- No song of the catalogue is so long that the count could stop at the largest number.
  have hshort : duration.toNat < 0xFFFFFFFF :=
    (toNat_le_longestDuration hsong).trans_lt (by decide)
  have hcount := p.toNat_elapsed_countSecond
  have hcounted := counted duration p
  generalize countTick duration p = q at hcounted ⊢
  cases hcounted with
  | within hle =>
    rw [UInt32.le_iff_toNat_le] at hle
    rw [if_pos (by omega)]
    omega
  | follows hover hnext =>
    obtain ⟨song, rest, hqueue, rfl⟩ := Player.next?_eq_some_iff.mp hnext
    rw [UInt32.lt_iff_toNat_lt] at hover
    rw [if_neg (by omega), if_neg (by simp [hqueue])]
    rfl
  | last hover hqueue =>
    rw [UInt32.lt_iff_toNat_lt] at hover
    rw [if_neg (by omega), if_pos hqueue]

/-- A pass that counts a second moves on by one, or to the end of the song, or to the beginning of
the next. -/
theorem toNat_elapsed_pass_of_countsSecond {duration : UInt32}
    (hcounts : d.countsSecond tick now = true)
    (hsong : d.player.song.duration? = some duration) :
    (d.pass tick now).1.player.elapsed.toNat =
      if d.player.elapsed.toNat + 1 ≤ duration.toNat then d.player.elapsed.toNat + 1
      else if d.player.queue = [] then duration.toNat else 0 := by
  obtain ⟨hgoes, hplaying, -, hdue⟩ := countsSecond_iff.mp hcounts
  rw [← toNat_elapsed_countTick hsong, pass, if_neg (by simp [hgoes.running]),
    if_neg (by simp [hgoes.unpaused]), if_neg (by simp [hplaying]), hsong]
  dsimp only
  rw [if_neg (Nat.not_lt.mpr hdue)]

/-- A pass that counts no second leaves the position where it is, unless a song begins. -/
theorem elapsed_pass_of_not_countsSecond (hcounts : d.countsSecond tick now = false) :
    (d.pass tick now).1.player.elapsed = d.player.elapsed ∨
      d.player.next? = some (d.pass tick now).1.player := by
  have hpass := passes tick now d
  generalize d.pass tick now = r at hpass ⊢
  cases hpass with
  | stopped | paused | needsSong | waits => exact .inl rfl
  | begins _ _ hnext => exact .inr hnext
  | unknown =>
    cases hnext : d.player.next? with
    | some q => exact .inr (by rw [Player.endSong_eq_of_next? hnext])
    | none =>
      rw [Player.endSong_of_queue_eq_nil ((Player.next?_eq_none_iff _).mp hnext)]
      exact .inl rfl
  | counts hgoes hwaiting hsong hdue =>
    have hcounted : d.countsSecond tick now = true :=
      countsSecond_iff.mpr ⟨hgoes, hwaiting, by simp [hsong], hdue⟩
    exact absurd (hcounted.symm.trans hcounts) (by decide)

/-! ## What can be reached -/

namespace Recorded

variable {log : List Note} {e : Deck}

/-- In a deck that is recorded the position is where the record says. -/
theorem placed (h : d.Recorded tick now log) : d.player.Placed log := by
  induction h with
  | start song =>
    exact ⟨fun _ _ => .inl UInt32.zero_le, fun _ => .inl rfl,
      fun hwaits => absurd hwaits Bool.false_ne_true⟩
  | command _ a ih => exact ih.command a
  | pass _ ih => exact ih.pass
  | wait _ _ ih => exact ih

/-- Passes of the timer write the record on. -/
theorem runs {before later : Nat} {xs : List Pass} (hruns : Runs tick before d xs later e)
    (h : d.Recorded tick before log) :
    e.Recorded tick later (log ++ xs.flatMap (Pass.notes tick)) := by
  induction hruns generalizing log with
  | waits hlater =>
    rw [List.flatMap_nil, List.append_nil]
    exact h.wait hlater
  | pass hnow _ ih =>
    rw [List.flatMap_cons, ← List.append_assoc]
    exact ih (h.wait hnow).pass

end Recorded

/-- The record leaves out no deck, and adds none. -/
theorem reached_iff_exists_recorded : d.Reached tick now ↔ ∃ log, d.Recorded tick now log := by
  constructor
  · intro h
    -- Both are built from the same steps, one with notes and one without.
    induction h with
    | start song => exact ⟨_, .start song⟩
    | command _ a ih =>
      obtain ⟨log, h⟩ := ih
      exact ⟨_, h.command a⟩
    | pass _ ih =>
      obtain ⟨log, h⟩ := ih
      exact ⟨_, h.pass⟩
    | wait _ hnow ih =>
      obtain ⟨log, h⟩ := ih
      exact ⟨log, h.wait hnow⟩
  · rintro ⟨log, h⟩
    induction h with
    | start song => exact .start song
    | command _ a ih => exact ih.command a
    | pass _ ih => exact ih.pass
    | wait _ hnow ih => exact ih.wait hnow

end Deck

/-! ## Sessions -/

namespace PlayerSession

/-- What a step adds to the record. -/
def notes (s : PlayerSession) (a : PlayerStep) : List Note :=
  a.notes s.deck.player ++ (s.trail a).flatMap (Pass.notes s.tick)

/-- What steps one after the other add to the record. -/
def record : PlayerSession → List PlayerStep → List Note
  | _, [] => []
  | s, a :: rest => s.notes a ++ (s.step a).1.record rest

/-- The record of a run from the beginning of the first song on. -/
def chronicle (tick : Nat) (song : SongId) (steps : List PlayerStep) : List Note :=
  .began song :: (Deck.startTrail tick 0 song).flatMap (Pass.notes tick) ++
    (start tick song).record steps

variable {s : PlayerSession} {log : List Note}

/-- A step writes the record on. -/
theorem recorded_step (h : s.deck.Recorded s.tick s.now log) (hrests : s.deck.Rests s.now)
    (a : PlayerStep) :
    (s.step a).1.deck.Recorded s.tick (s.step a).1.now (log ++ s.notes a) := by
  rw [notes, ← List.append_assoc]
  exact .runs (runs_step hrests a) ((h.command a).wait (s.le_resumes a))

/-- A run writes the record on. -/
theorem recorded_run (h : s.deck.Recorded s.tick s.now log) (hrests : s.deck.Rests s.now)
    (steps : List PlayerStep) :
    (s.run steps).deck.Recorded s.tick (s.run steps).now (log ++ s.record steps) := by
  induction steps generalizing s log with
  | nil =>
    rw [record, List.append_nil]
    exact h
  | cons a rest ih =>
    rw [record, ← List.append_assoc]
    have hstep := ih (s.tick_step a ▸ recorded_step h hrests a) (rests_step hrests a)
    rwa [tick_step] at hstep

/-- Every run is recorded from the first song on. -/
theorem recorded_run_start (tick : Nat) (song : SongId) (steps : List PlayerStep) :
    ((start tick song).run steps).deck.Recorded tick ((start tick song).run steps).now
      (chronicle tick song steps) :=
  recorded_run (.runs (Deck.runs_settle le_rfl) (.start song)) (rests_start tick song) steps

end PlayerSession

/-- The position stays within the song. Whatever commands are given, and however the passes of the
timer fall between them: in a song of the catalogue the position is at most the duration, and in
another song it is zero, unless it is the position that was written last, with no second counted
and no song begun since. A player that waits after the end of a song of the catalogue is exactly at
that end, unless a position was written since. No second that is counted overflows: the count after
it is the one there would be if numbers had no bound, whatever was written before, and no other
pass moves the position but to the beginning of the next song. Every run of a session comes with its
record. -/
theorem elapsed_within_song (tick : Nat) :
    (∀ (now : Nat) (d : Deck), d.Reached tick now ↔ ∃ log, d.Recorded tick now log) ∧
      (∀ (now : Nat) (log : List Note) (d : Deck), d.Recorded tick now log →
        d.player.Placed log) ∧
      (∀ (song : SongId) (steps : List PlayerStep),
        let s := (PlayerSession.start tick song).run steps
        s.deck.Recorded tick s.now (PlayerSession.chronicle tick song steps)) ∧
      ∀ (now : Nat) (d : Deck),
        let p := d.player
        let q := (d.pass tick now).1.player
        (d.countsSecond tick now = true → ∀ duration, p.song.duration? = some duration →
          q.elapsed.toNat =
            if p.elapsed.toNat + 1 ≤ duration.toNat then p.elapsed.toNat + 1
            else if p.queue = [] then duration.toNat else 0) ∧
        (d.countsSecond tick now = false → q.elapsed = p.elapsed ∨ p.next? = some q) :=
  ⟨fun _ _ => Deck.reached_iff_exists_recorded, fun _ _ _ => Deck.Recorded.placed,
    PlayerSession.recorded_run_start tick, fun _ _ =>
      ⟨fun hcounts _ => Deck.toNat_elapsed_pass_of_countsSecond hcounts,
        Deck.elapsed_pass_of_not_countsSecond⟩⟩

/-- The largest position is written into a song of three seconds. The next second ends the song. -/
example :
    PlayerSession.chronicle 1000 7 [.advance 1000, .setElapsed 0xFFFFFFFF, .advance 1000] =
        [.began 7, .counted, .wrote 0xFFFFFFFF, .counted, .ended 7] ∧
      ((PlayerSession.start 1000 7).run
          [.advance 1000, .setElapsed 0xFFFFFFFF, .advance 1000]).deck.player.elapsed = 3 := by
  decide

end Ensemble
