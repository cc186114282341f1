import Ensemble.Proofs.Playback.Trail
import Mathlib.Algebra.Ring.Nat

/-!
# What plays when

A player that is left alone after some songs were queued plays them one after the other. A song of
the catalogue lasts one tick longer than its duration, for the tick that ends it is counted too, and
any other song lasts no time. So the song that plays at an instant, and how far it has come, follow
from the sum of what the songs before it last.

`Deck.OnSchedule` says this of a deck at any moment between two passes of the timer. It is kept by
every pass, and by the time that goes by up to the next due second.

* `Deck.OnSchedule.pass` — no pass of the timer leaves the schedule.
* `Deck.OnSchedule.advance` — nor does the time that goes by, with every pass on time.
* `uninterrupted_playback` — what plays at every instant.
-/

namespace Ensemble

/-- How many milliseconds a song lasts. -/
def SongId.span (tick : Nat) (song : SongId) : Nat :=
  match song.duration? with
  | some duration => (duration.toNat + 1) * tick
  | none => 0

/-- How many milliseconds songs last that follow one another. -/
def SongId.total (tick : Nat) (songs : List SongId) : Nat := (songs.map (SongId.span tick)).sum

/-- The instant at which the song at a place of the list begins, if the first one begins at zero. -/
def SongId.beginning (tick : Nat) (songs : List SongId) (place : Nat) : Nat :=
  SongId.total tick (songs.take place)

namespace SongId

variable {tick : Nat} {song : SongId} {songs : List SongId}

/-- A song lasts a second longer than its duration, as the last second is counted too. -/
theorem span_of_duration? {duration : UInt32} (h : song.duration? = some duration) :
    song.span tick = (duration.toNat + 1) * tick := by rw [span, h]

/-- A song outside the catalogue is over at once. -/
theorem span_of_unknown (h : song.duration? = none) : song.span tick = 0 := by rw [span, h]

/-- Songs that follow others last as long as both together. -/
theorem total_append (tick : Nat) (before after : List SongId) :
    total tick (before ++ after) = total tick before + total tick after := by
  rw [total, List.map_append, List.sum_append, total, total]

@[simp] theorem total_singleton (tick : Nat) (song : SongId) : total tick [song] = song.span tick :=
  Nat.add_zero _

/-- A song begins when those before it are over. -/
theorem beginning_of_split (tick : Nat) {before after : List SongId}
    (h : songs = before ++ after) : beginning tick songs before.length = total tick before := by
  rw [beginning, h, List.take_left]

/-- What would follow the last song would begin at the end of them all. -/
theorem beginning_length (tick : Nat) (songs : List SongId) :
    beginning tick songs songs.length = total tick songs := by
  rw [beginning, List.take_length]

/-- The first of the songs do not last longer than all of them. -/
theorem total_take_le (tick : Nat) (songs : List SongId) (place : Nat) :
    total tick (songs.take place) ≤ total tick songs := by
  conv_rhs => rw [← List.take_append_drop place songs, total_append]
  exact Nat.le_add_right _ _

/-- No song begins before one that stands in front of it. -/
theorem beginning_mono (tick : Nat) (songs : List SongId) {i j : Nat} (h : i ≤ j) :
    beginning tick songs i ≤ beginning tick songs j := by
  have hle := total_take_le tick (songs.take j) i
  rwa [List.take_take, Nat.min_eq_left h] at hle

/-- At no instant does more than one song play. -/
theorem eq_of_beginning_le {i j t : Nat} (hi : beginning tick songs i ≤ t)
    (hi' : t < beginning tick songs (i + 1)) (hj : beginning tick songs j ≤ t)
    (hj' : t < beginning tick songs (j + 1)) : i = j := by
  rcases Nat.lt_trichotomy i j with hlt | heq | hlt
  · exact absurd ((beginning_mono tick songs hlt).trans hj) (Nat.not_le.mpr hi')
  · exact heq
  · exact absurd ((beginning_mono tick songs hlt).trans hi) (Nat.not_le.mpr hj')

end SongId

namespace Deck

variable {tick now : Nat} {songs played : List SongId} {d : Deck}

/-- A second that began in the current epoch keeps its due time. -/
theorem due_of_pending {t : Tick} (h : d.pending = some t) (hepoch : t.epoch = d.player.epoch) :
    d.due tick now = t.due := by
  rw [due, h]
  exact if_pos hepoch

/-- A second of an epoch that is over is forgotten. -/
theorem due_of_epoch_lt (h : ∀ t, d.pending = some t → t.epoch < d.player.epoch) :
    d.due tick now = now + tick := by
  rw [due]
  cases hpending : d.pending with
  | none => rfl
  | some t => exact if_neg (h t hpending).ne

/-! ## The schedule -/

/-- The deck plays the songs one after the other, the first of them since time zero. Those that were
played have ended, and the current one began at once. -/
structure Plays (tick : Nat) (songs played : List SongId) (now : Nat) (d : Deck) : Prop where
  goes : d.Goes
  playing : d.player.waiting = false
  songs_eq : songs = played ++ d.player.song :: d.player.queue
  epoch_le : ∀ t, d.pending = some t → t.epoch ≤ d.player.epoch
  since : SongId.total tick played + d.player.elapsed.toNat * tick ≤ now
  due_eq : d.due tick now = SongId.total tick played + (d.player.elapsed.toNat + 1) * tick
  le_due : now ≤ d.due tick now
  /-- A song of the catalogue is not over yet. -/
  elapsed_le : ∀ duration, d.player.song.duration? = some duration → d.player.elapsed ≤ duration
  /-- Any other song is over at the instant at which it begins. -/
  unknown : d.player.song.duration? = none →
    d.player.elapsed = 0 ∧ now = SongId.total tick played

/-- The deck has played songs up to the end, and waits for the next one. A song that is queued is
queued at that very end. -/
structure Idles (tick : Nat) (songs played : List SongId) (now : Nat) (d : Deck) : Prop where
  goes : d.Goes
  waiting : d.player.waiting = true
  songs_eq : songs = played ++ d.player.queue
  last_eq : played.getLast? = some d.player.song
  elapsed_eq : d.player.elapsed = d.player.song.duration?.getD 0
  epoch_le : ∀ t, d.pending = some t → t.epoch ≤ d.player.epoch
  ended : SongId.total tick played ≤ now
  punctual : d.player.queue = [] ∨ now = SongId.total tick played

/-- The deck plays the songs one after the other, or has played them all. -/
def OnSchedule (tick : Nat) (songs : List SongId) (now : Nat) (d : Deck) : Prop :=
  ∃ played, d.Plays tick songs played now ∨ d.Idles tick songs played now

/-! ## What a pass does -/

/-- The next song begins at the instant at which those before it have ended. -/
theorem plays_next {p : Player} {pending : Option Tick} (hgoes : d.Goes)
    (hnext : d.player.next? = some p) (hsongs : songs = played ++ d.player.queue)
    (hepochs : ∀ t, pending = some t → t.epoch ≤ d.player.epoch)
    (hnow : now = SongId.total tick played) :
    Plays tick songs played now { d with player := p, pending } := by
  obtain ⟨song, rest, hqueue, rfl⟩ := Player.next?_eq_some_iff.mp hnext
  have hlater : ∀ t, pending = some t → t.epoch < d.player.epoch + 1 :=
    fun t ht => Nat.lt_succ_of_le (hepochs t ht)
  refine ⟨⟨hgoes.running, hgoes.unpaused⟩, rfl, ?_, fun t ht => (hlater t ht).le, ?_, ?_, ?_,
    fun duration _ => UInt32.zero_le, fun _ => ⟨rfl, hnow⟩⟩
  · rw [hsongs, hqueue]
  · simp [hnow]
  · rw [due_of_epoch_lt hlater, hnow]
    simp
  · rw [due_of_epoch_lt hlater]
    exact Nat.le_add_right _ _

/-- The current song has ended: the next one begins, or there is none. -/
theorem onSchedule_of_ended {p : Player} {pending : Option Tick} (h : d.Plays tick songs played now)
    (hepochs : ∀ t, pending = some t → t.epoch ≤ d.player.epoch)
    (hnow : now = SongId.total tick (played ++ [d.player.song]))
    (hends : d.player.next? = some p ∨ d.player.queue = [] ∧
      p = { d.player with elapsed := d.player.song.duration?.getD 0, waiting := true }) :
    OnSchedule tick songs now { d with player := p, pending } := by
  have hsongs := h.songs_eq
  rw [List.append_cons] at hsongs
  refine ⟨played ++ [d.player.song], ?_⟩
  rcases hends with hnext | ⟨hqueue, rfl⟩
  · exact .inl (plays_next h.goes hnext hsongs hepochs hnow)
  · exact .inr ⟨⟨h.goes.running, h.goes.unpaused⟩, rfl, hsongs, List.getLast?_concat, rfl, hepochs,
      hnow.ge, .inr hnow⟩

namespace Plays

/-- A song outside the catalogue is over at once. -/
theorem endSong (h : d.Plays tick songs played now) (hsong : d.player.song.duration? = none) :
    OnSchedule tick songs now { d with player := d.player.endSong } := by
  obtain ⟨helapsed, hnow⟩ := h.unknown hsong
  refine onSchedule_of_ended h h.epoch_le ?_ ?_
  · rw [SongId.total_append, SongId.total_singleton, SongId.span_of_unknown hsong]
    exact hnow
  · cases hnext : d.player.next? with
    | some q => exact .inl (by rw [Player.endSong_eq_of_next? hnext])
    | none =>
      have hqueue := (Player.next?_eq_none_iff _).mp hnext
      have hzero : d.player.song.duration?.getD 0 = d.player.elapsed := by
        rw [hsong, helapsed]
        rfl
      rw [Player.endSong_of_queue_eq_nil hqueue, hzero]
      exact .inr ⟨hqueue, rfl⟩

/-- The running second is noted. -/
theorem wait (h : d.Plays tick songs played now) :
    Plays tick songs played now { d with pending := some ⟨d.player.epoch, d.due tick now⟩ } := by
  have hsame : Deck.due tick now { d with pending := some ⟨d.player.epoch, d.due tick now⟩ } =
      d.due tick now := due_of_pending (t := ⟨_, _⟩) rfl rfl
  refine ⟨⟨h.goes.running, h.goes.unpaused⟩, h.playing, h.songs_eq, ?_, h.since,
    hsame.trans h.due_eq, h.le_due.trans_eq hsame.symm, h.elapsed_le, h.unknown⟩
  rintro t ⟨⟩
  exact le_rfl

variable {duration : UInt32}

/-- Within a song of the catalogue the seconds are far from the largest number. -/
theorem toNat_countSecond (h : d.Plays tick songs played now)
    (hsong : d.player.song.duration? = some duration) :
    d.player.countSecond.elapsed.toNat = d.player.elapsed.toNat + 1 := by
  have hsmall : d.player.elapsed.toNat ≤ longestDuration :=
    (UInt32.le_iff_toNat_le.mp (h.elapsed_le duration hsong)).trans (toNat_le_longestDuration hsong)
  have hsaturates : longestDuration < 0xFFFFFFFF := by decide
  rw [Player.toNat_elapsed_countSecond]
  omega

/-- A song is over exactly when all its seconds and one more were counted. -/
theorem eq_total_of_lt (h : d.Plays tick songs played now)
    (hsong : d.player.song.duration? = some duration) (hdue : d.due tick now = now)
    (hlt : duration < d.player.countSecond.elapsed) :
    now = SongId.total tick (played ++ [d.player.song]) := by
  have hle := UInt32.le_iff_toNat_le.mp (h.elapsed_le duration hsong)
  have hgt := UInt32.lt_iff_toNat_lt.mp hlt
  rw [h.toNat_countSecond hsong] at hgt
  have hall : d.player.elapsed.toNat = duration.toNat := by omega
  rw [SongId.total_append, SongId.total_singleton, SongId.span_of_duration? hsong, ← hall]
  exact hdue.symm.trans h.due_eq

/-- A second is counted when it is due, and the song goes on or ends. -/
theorem count (h : d.Plays tick songs played now)
    (hsong : d.player.song.duration? = some duration) (hdue : d.due tick now = now) :
    OnSchedule tick songs now { d with
      player := countTick duration d.player
      pending := some ⟨d.player.epoch, now + tick⟩ } := by
  have hepochs : ∀ t, some (Tick.mk d.player.epoch (now + tick)) = some t →
      t.epoch ≤ d.player.epoch := by
    rintro t ⟨⟩
    exact le_rfl
  have hcounted := counted duration d.player
  generalize countTick duration d.player = q at hcounted ⊢
  cases hcounted with
  -- The song goes on: its next second is due a tick from now.
  | within hle =>
    have hcount := h.toNat_countSecond hsong
    have hnow : now = SongId.total tick played + (d.player.elapsed.toNat + 1) * tick :=
      hdue.symm.trans h.due_eq
    have hdue' : Deck.due tick now { d with
        player := d.player.countSecond
        pending := some ⟨d.player.epoch, now + tick⟩ } = now + tick :=
      due_of_pending (t := ⟨_, _⟩) rfl rfl
    refine ⟨played, .inl ⟨⟨h.goes.running, h.goes.unpaused⟩, h.playing, h.songs_eq, hepochs, ?_, ?_,
      ?_, ?_, ?_⟩⟩
    · show _ + d.player.countSecond.elapsed.toNat * tick ≤ now
      rw [hcount]
      exact hnow.ge
    · show _ = _ + (d.player.countSecond.elapsed.toNat + 1) * tick
      rw [hdue', hcount, Nat.succ_mul (d.player.elapsed.toNat + 1), ← Nat.add_assoc, ← hnow]
    · rw [hdue']
      exact Nat.le_add_right _ _
    · intro duration' hsong'
      obtain rfl := Option.some.inj (hsong.symm.trans hsong')
      exact hle
    · intro hunknown
      cases hsong.symm.trans hunknown
  -- The song is over just now, as long as it lasts.
  | follows hlt hnext =>
    exact onSchedule_of_ended h hepochs (h.eq_total_of_lt hsong hdue hlt) (.inl hnext)
  | last hlt hqueue =>
    refine onSchedule_of_ended h hepochs (h.eq_total_of_lt hsong hdue hlt) (.inr ⟨hqueue, ?_⟩)
    rw [hsong]
    rfl

end Plays

namespace OnSchedule

/-- On schedule nothing is paused or stopped. -/
theorem goes (h : d.OnSchedule tick songs now) : d.Goes := by
  obtain ⟨played, hplays | hidles⟩ := h
  · exact hplays.goes
  · exact hidles.goes

/-- On schedule a player that does not wait plays. -/
theorem plays (h : d.OnSchedule tick songs now) (hplaying : d.player.waiting = false) :
    ∃ played, d.Plays tick songs played now := by
  obtain ⟨played, hplays | hidles⟩ := h
  · exact ⟨played, hplays⟩
  · exact absurd hidles.waiting (by simp [hplaying])

/-- On schedule a player that waits has come to the end. -/
theorem idles (h : d.OnSchedule tick songs now) (hwaiting : d.player.waiting = true) :
    ∃ played, d.Idles tick songs played now := by
  obtain ⟨played, hplays | hidles⟩ := h
  · exact absurd hwaiting (by simp [hplays.playing])
  · exact ⟨played, hidles⟩

/-- No pass of the timer leaves the schedule. -/
theorem pass (h : d.OnSchedule tick songs now) : (d.pass tick now).1.OnSchedule tick songs now := by
  have hpass := passes tick now d
  generalize d.pass tick now = r at hpass ⊢
  cases hpass with
  | stopped | needsSong => exact h
  | paused hpaused => exact absurd hpaused (by simp [h.goes.unpaused])
  | begins hgoes hwaiting hnext =>
    obtain ⟨played, hidles⟩ := h.idles hwaiting
    refine ⟨played, .inl (plays_next hgoes hnext hidles.songs_eq hidles.epoch_le ?_)⟩
    refine hidles.punctual.resolve_left fun hnil => ?_
    rw [(Player.next?_eq_none_iff _).mpr hnil] at hnext
    cases hnext
  | unknown hgoes hplaying hsong =>
    obtain ⟨played, hplays⟩ := h.plays hplaying
    exact hplays.endSong hsong
  | waits hgoes hplaying hsong hlater =>
    obtain ⟨played, hplays⟩ := h.plays hplaying
    exact ⟨played, .inl hplays.wait⟩
  -- The second is counted just when it is due, never later.
  | counts hgoes hplaying hsong hpast =>
    obtain ⟨played, hplays⟩ := h.plays hplaying
    have hdue : d.due tick now = now := hpast.antisymm hplays.le_due
    rw [hdue]
    exact hplays.count hsong hdue

/-- Any number of passes at one instant keeps to the schedule. -/
theorem settleWithin {fuel : Nat} (h : d.OnSchedule tick songs now) :
    (settleWithin tick now fuel d).OnSchedule tick songs now := by
  induction fuel generalizing d with
  | zero => exact h
  | succ fuel ih =>
    have hpass := h.pass
    rw [Deck.settleWithin]
    rcases hd : d.pass tick now with ⟨e, _ | rest⟩
    · rw [hd] at hpass
      exact ih hpass
    · rwa [hd] at hpass

/-- The timer comes to rest on the schedule. -/
theorem settle (h : d.OnSchedule tick songs now) :
    (d.settle tick now).OnSchedule tick songs now := h.settleWithin

end OnSchedule

/-! ## From one due second to the next -/

/-- The timer waits for a song of which none is queued, or for the end of a second of a song of the
catalogue. -/
def Awaits (d : Deck) : Prop :=
  if d.player.waiting then d.player.queue = []
  else (∃ due, d.pending = some ⟨d.player.epoch, due⟩) ∧ ∃ duration,
    d.player.song.duration? = some duration

/-- A deck that plays and rests wakes up at the end of its running second. -/
theorem Plays.wakes (h : d.Plays tick songs played now) (hawaits : d.Awaits) :
    d.wakeTime? = some (d.due tick now) ∧ (∀ t, d.due tick t = d.due tick now) ∧
      ∃ duration, d.player.song.duration? = some duration := by
  rw [Awaits, if_neg (by simp [h.playing])] at hawaits
  obtain ⟨⟨due, hpending⟩, hsong⟩ := hawaits
  have hdue : ∀ t, d.due tick t = due := fun t => due_of_pending hpending rfl
  refine ⟨?_, fun t => (hdue t).trans (hdue now).symm, hsong⟩
  rw [hdue]
  exact wakeTime?_eq_some_iff.mpr ⟨h.goes, h.playing, _, hpending, rfl⟩

/-- Who waits for a song has none in the queue. -/
theorem Idles.queue_eq_nil (h : d.Idles tick songs played now) (hawaits : d.Awaits) :
    d.player.queue = [] := by
  rwa [Awaits, if_pos h.waiting] at hawaits

/-- A pass that comes to rest leaves the timer waiting for something. -/
theorem awaits_of_pass {e : Deck} {rest : Rest} (h : d.pass tick now = (e, some rest))
    (hgoes : e.Goes) : e.Awaits := by
  have hpass := passes tick now d
  rw [h] at hpass
  cases hpass with
  | stopped hstopped => exact absurd hstopped (by simp [hgoes.running])
  | paused hpaused =>
    have hunpaused : d.player.paused = false := hgoes.unpaused
    exact absurd hpaused (by simp [hunpaused])
  | needsSong _ hwaiting hqueue => rwa [Awaits, if_pos hwaiting]
  | @waits duration _ hplaying hsong =>
    rw [Awaits, if_neg (by simp [hplaying])]
    exact ⟨⟨_, rfl⟩, duration, hsong⟩

/-- When the timer comes to rest it waits for something. -/
theorem awaits_settle (hgoes : (d.settle tick now).Goes) : (d.settle tick now).Awaits := by
  obtain ⟨last, rest, h⟩ := settle_eq_of_pass tick now d
  exact awaits_of_pass h hgoes

namespace OnSchedule

/-- A resting deck stays on the schedule up to its next due second. -/
theorem later {later : Nat} (h : d.OnSchedule tick songs now) (hawaits : d.Awaits)
    (hnow : now ≤ later) (hwake : ∀ due, d.wakeTime? = some due → later ≤ due) :
    d.OnSchedule tick songs later := by
  obtain ⟨played, hplays | hidles⟩ := h
  · obtain ⟨hwakes, hdue, duration, hsong⟩ := hplays.wakes hawaits
    refine ⟨played, .inl { hplays with
      since := hplays.since.trans hnow, due_eq := ?_, le_due := ?_, unknown := ?_ }⟩
    · rw [hdue]
      exact hplays.due_eq
    · rw [hdue]
      exact hwake _ hwakes
    · intro hunknown
      cases hsong.symm.trans hunknown
  · have hqueue := hidles.queue_eq_nil hawaits
    exact ⟨played, .inr { hidles with ended := hidles.ended.trans hnow, punctual := .inl hqueue }⟩

/-- From one due second to the next the schedule is kept. -/
theorem advanceWithin {target fuel : Nat} (h : d.OnSchedule tick songs now) (hawaits : d.Awaits)
    (hrests : d.Rests now) (hnow : now ≤ target) (hfuel : target < now + fuel) :
    (advanceWithin tick target fuel d).OnSchedule tick songs target ∧
      (Deck.advanceWithin tick target fuel d).Awaits := by
  -- Induction on the wakes up to the target.
  induction fuel generalizing now d with
  | zero => omega
  | succ fuel ih =>
    rw [Deck.advanceWithin]
    cases hwake : d.wakeTime? with
    | none => exact ⟨h.later hawaits hnow (by simp [hwake]), hawaits⟩
    | some due =>
      have hlater := hrests due hwake
      dsimp only
      split
      · rename_i hle
        have hdue : d.OnSchedule tick songs due :=
          h.later hawaits hlater.le fun due' h' => (Option.some.inj (hwake.symm.trans h')).le
        have hsettle := hdue.settle
        exact ih hsettle (awaits_settle hsettle.goes) (rests_settle tick due d) hle (by omega)
      · rename_i hgt
        refine ⟨h.later hawaits hnow fun due' h' => ?_, hawaits⟩
        obtain rfl := Option.some.inj (hwake.symm.trans h')
        omega

/-- Time that goes by with every pass on time does not leave the schedule. -/
theorem advance (h : d.OnSchedule tick songs now) (hawaits : d.Awaits) (hrests : d.Rests now)
    (ms : Nat) : (d.advance tick now ms).OnSchedule tick songs (now + ms) ∧
      (d.advance tick now ms).Awaits :=
  h.advanceWithin hawaits hrests (Nat.le_add_right _ _) (by omega)

/-- The first song begins at time zero. -/
theorem start (tick : Nat) (song : SongId) :
    OnSchedule tick [song] 0 ⟨Player.start song, none, false⟩ := by
  refine ⟨[], .inl ⟨⟨rfl, rfl⟩, rfl, rfl, by simp, ?_, ?_, ?_, fun _ _ => UInt32.zero_le,
    fun _ => ⟨rfl, rfl⟩⟩⟩
  · simp [Player.start, SongId.total]
  · simp [Player.start, SongId.total, Deck.due]
  · exact Nat.zero_le _

/-- The current song is not in the queue. -/
theorem length_queue_lt (h : d.OnSchedule tick songs now) :
    d.player.queue.length < songs.length := by
  obtain ⟨played, hplays | hidles⟩ := h
  · rw [hplays.songs_eq, List.length_append, List.length_cons]
    omega
  · have hpos : 0 < played.length :=
      List.length_pos_of_mem (List.mem_of_getLast? hidles.last_eq)
    rw [hidles.songs_eq, List.length_append]
    omega

/-- At time zero the schedule can still be lengthened. -/
theorem append (h : d.OnSchedule tick songs 0) (song : SongId) :
    OnSchedule tick (songs ++ [song]) 0
      { d with player := { d.player with queue := d.player.queue ++ [song] } } := by
  obtain ⟨played, hplays | hidles⟩ := h
  · refine ⟨played, .inl { hplays with goes := ⟨?_, ?_⟩, songs_eq := ?_ }⟩
    · exact hplays.goes.running
    · exact hplays.goes.unpaused
    · rw [hplays.songs_eq, List.append_assoc, List.cons_append]
  · refine ⟨played, .inr { hidles with goes := ⟨?_, ?_⟩, songs_eq := ?_, punctual := .inr ?_ }⟩
    · exact hidles.goes.running
    · exact hidles.goes.unpaused
    · rw [hidles.songs_eq, List.append_assoc]
    · exact (Nat.le_zero.mp hidles.ended).symm

end OnSchedule

/-! ## What a resting deck shows -/

/-- A resting deck plays the last song that has begun. -/
theorem Plays.shows (h : d.Plays tick songs played now) (hawaits : d.Awaits)
    (hrests : d.Rests now) : songs[played.length]? = some d.player.song ∧
      d.player.queue = songs.drop (played.length + 1) ∧
      SongId.beginning tick songs played.length + d.player.elapsed.toNat * tick ≤ now ∧
      now < SongId.beginning tick songs played.length + (d.player.elapsed.toNat + 1) * tick ∧
      now < SongId.beginning tick songs (played.length + 1) := by
  obtain ⟨hwakes, -, duration, hsong⟩ := h.wakes hawaits
  have hlt : now < d.due tick now := hrests _ hwakes
  have hnext := SongId.beginning_of_split tick (h.songs_eq.trans (List.append_cons _ _ _))
  rw [List.length_append, List.length_singleton, SongId.total_append, SongId.total_singleton,
    SongId.span_of_duration? hsong] at hnext
  rw [h.due_eq] at hlt
  rw [SongId.beginning_of_split tick h.songs_eq, hnext]
  refine ⟨?_, ?_, h.since, hlt, hlt.trans_le ?_⟩
  · rw [h.songs_eq, List.getElem?_append_right le_rfl, Nat.sub_self]
    rfl
  · rw [h.songs_eq, List.append_cons, List.drop_left' (by simp)]
  · refine Nat.add_le_add_left (Nat.mul_le_mul_right tick (Nat.succ_le_succ ?_)) _
    exact UInt32.le_iff_toNat_le.mp (h.elapsed_le duration hsong)

/-- A resting deck that waits has played all songs. -/
theorem Idles.shows (h : d.Idles tick songs played now) (hawaits : d.Awaits) :
    songs.getLast? = some d.player.song ∧ d.player.queue = [] ∧
      SongId.beginning tick songs songs.length ≤ now := by
  have hqueue := h.queue_eq_nil hawaits
  have hsongs : songs = played := by rw [h.songs_eq, hqueue, List.append_nil]
  rw [SongId.beginning_length, hsongs]
  exact ⟨h.last_eq, hqueue, h.ended⟩

end Deck

/-! ## Sessions -/

namespace PlayerSession

/-- The session plays the songs on schedule, and its timer rests. -/
structure Performs (songs : List SongId) (s : PlayerSession) : Prop where
  onSchedule : s.deck.OnSchedule s.tick songs s.now
  awaits : s.deck.Awaits
  rests : s.deck.Rests s.now

namespace Performs

variable {tick now : Nat} {s : PlayerSession} {songs : List SongId}

/-- Whatever is on schedule stays so when the timer comes to rest. -/
theorem of_settle {d : Deck} (h : d.OnSchedule tick songs now) :
    Performs songs ⟨tick, now, d.settle tick now⟩ :=
  ⟨h.settle, Deck.awaits_settle h.settle.goes, Deck.rests_settle tick now d⟩

/-- A session begins with one song on schedule. -/
theorem start (tick : Nat) (song : SongId) : Performs [song] (start tick song) :=
  of_settle (.start tick song)

/-- A song that is queued at time zero is the last one. -/
theorem enqueue (h : s.Performs songs) (hnow : s.now = 0) (hroom : songs.length ≤ maxQueue)
    (song : SongId) : (s.step (.enqueue song 1)).1.Performs (songs ++ [song]) := by
  have hqueue : s.deck.player.queue.length < maxQueue := h.onSchedule.length_queue_lt.trans_le hroom
  have hzero := h.onSchedule
  rw [hnow] at hzero
  have happend := hzero.append song
  rw [← hnow] at happend
  have hplayer : (enqueueTimes song 1 s.deck.player).1 =
      { s.deck.player with queue := s.deck.player.queue ++ [song] } := by
    simp only [enqueueTimes, Player.enqueue?, if_pos hqueue]
  rw [← hplayer] at happend
  exact of_settle happend

/-- All songs that are queued at time zero are played in their order. -/
theorem enqueueAll (h : s.Performs songs) (hnow : s.now = 0) (queued : List SongId)
    (hroom : songs.length + queued.length ≤ maxQueue + 1) :
    (s.run (queued.map (.enqueue · 1))).Performs (songs ++ queued) ∧
      (s.run (queued.map (.enqueue · 1))).now = 0 := by
  induction queued generalizing s songs with
  | nil =>
    rw [List.append_nil]
    exact ⟨h, hnow⟩
  | cons song rest ih =>
    rw [List.length_cons] at hroom
    rw [List.append_cons]
    refine ih (s := (s.step (.enqueue song 1)).1) (h.enqueue hnow (by omega) song) hnow ?_
    rw [List.length_append, List.length_singleton]
    omega

/-- As time goes by the songs are played on schedule. -/
theorem advance (h : s.Performs songs) (ms : Nat) : (s.step (.advance ms)).1.Performs songs := by
  obtain ⟨honSchedule, hawaits⟩ := h.onSchedule.advance h.awaits h.rests ms
  exact ⟨honSchedule, hawaits, Deck.rests_advance h.rests ms⟩

/-- However time is cut into pieces, the songs are played on schedule and no time is lost. -/
theorem advanceAll (h : s.Performs songs) (waits : List Nat) :
    (s.run (waits.map .advance)).Performs songs ∧
      (s.run (waits.map .advance)).now = s.now + waits.sum := by
  induction waits generalizing s with
  | nil => exact ⟨h, rfl⟩
  | cons ms rest ih =>
    rw [List.sum_cons, ← Nat.add_assoc]
    exact ih (h.advance ms)

/-- From the instant at which a song begins until the next one would, it plays. -/
theorem shows (h : s.Performs songs) {j : Nat} (hj : j < songs.length)
    (hsince : SongId.beginning s.tick songs j ≤ s.now)
    (htill : s.now < SongId.beginning s.tick songs (j + 1)) :
    s.deck.player.song = songs[j] ∧
      s.deck.player.elapsed.toNat = (s.now - SongId.beginning s.tick songs j) / s.tick ∧
      s.deck.player.queue = songs.drop (j + 1) ∧ s.deck.player.waiting = false := by
  obtain ⟨played, hplays | hidles⟩ := h.onSchedule
  · obtain ⟨hsong, hqueue, hbegan, hsecond, hends⟩ := hplays.shows h.awaits h.rests
    obtain rfl : played.length = j :=
      SongId.eq_of_beginning_le ((Nat.le_add_right _ _).trans hbegan) hends hsince htill
    refine ⟨?_, ?_, hqueue, hplays.playing⟩
    · rw [List.getElem?_eq_getElem hj, Option.some.injEq] at hsong
      exact hsong.symm
    · exact (Nat.div_eq_of_lt_le (by omega) (by omega)).symm
  · -- After the last song there is none to begin.
    obtain ⟨-, -, hover⟩ := hidles.shows h.awaits
    have hlast := SongId.beginning_mono s.tick songs (Nat.succ_le_of_lt hj)
    exact absurd (hlast.trans hover) (Nat.not_le.mpr htill)

/-- From the end of the last song on, the session waits for a song. -/
theorem shows_end (h : s.Performs songs)
    (hover : SongId.beginning s.tick songs songs.length ≤ s.now) :
    songs.getLast? = some s.deck.player.song ∧
      s.deck.player.elapsed = s.deck.player.song.duration?.getD 0 ∧
      s.deck.player.queue = [] ∧ s.deck.player.waiting = true := by
  obtain ⟨played, hplays | hidles⟩ := h.onSchedule
  · obtain ⟨hsong, -, -, -, hends⟩ := hplays.shows h.awaits h.rests
    obtain ⟨hlt, -⟩ := List.getElem?_eq_some_iff.mp hsong
    have hlast := SongId.beginning_mono s.tick songs (Nat.succ_le_of_lt hlt)
    exact absurd (hlast.trans hover) (Nat.not_le.mpr hends)
  · obtain ⟨hlast, hqueue, -⟩ := hidles.shows h.awaits
    exact ⟨hlast, hidles.elapsed_eq, hqueue, hidles.waiting⟩

end Performs

end PlayerSession

/-- Up to 128 songs are queued at time zero behind the first one, and then time goes by with nothing
else. A song plays from the instant at which it begins to the instant at which the next one would,
with one second passed for each whole tick, and the songs behind it wait. From the end of the last
song on, the player shows it with all its seconds and waits for a song. -/
theorem uninterrupted_playback (tick : Nat) (song : SongId) (queued : List SongId)
    (hroom : queued.length ≤ 128) (waits : List Nat) :
    let songs := song :: queued
    let begins := SongId.beginning tick songs
    let s := ((PlayerSession.start tick song).run (queued.map (.enqueue · 1))).run
      (waits.map .advance)
    let player := s.deck.player
    let t := waits.sum
    s.now = t ∧ player.paused = false ∧
      (∀ j (hj : j < songs.length), begins j ≤ t → t < begins (j + 1) →
        player.song = songs[j] ∧ player.elapsed.toNat = (t - begins j) / tick ∧
          player.queue = songs.drop (j + 1) ∧ player.waiting = false) ∧
      (begins songs.length ≤ t →
        player.song = songs.getLast (List.cons_ne_nil _ _) ∧
          player.elapsed = player.song.duration?.getD 0 ∧
          player.queue = [] ∧ player.waiting = true) := by
  intro songs begins s player t
  -- All songs are queued at time zero, and then nothing but time goes by.
  obtain ⟨hqueued, hzero⟩ := (PlayerSession.Performs.start tick song).enqueueAll rfl queued
    (by rw [List.length_singleton, maxQueue]; omega)
  obtain ⟨hperforms, hsum⟩ := hqueued.advanceAll waits
  have hperforms : s.Performs songs := hperforms
  have hnow : s.now = t := by rw [hsum, hzero, Nat.zero_add]
  have htick' : s.tick = tick := by simp [s, PlayerSession.start]
  refine ⟨hnow, hperforms.onSchedule.goes.unpaused, fun j hj hsince htill => ?_, fun hover => ?_⟩
  · have hshows := hperforms.shows hj
    rw [hnow, htick'] at hshows
    exact hshows hsince htill
  · have hshows := hperforms.shows_end
    rw [hnow, htick'] at hshows
    obtain ⟨hlast, hrest⟩ := hshows hover
    rw [List.getLast?_eq_some_getLast (List.cons_ne_nil _ _), Option.some.injEq] at hlast
    exact ⟨hlast.symm, hrest⟩

/-- The first and the third song are outside the catalogue. At the very instant at which the second
one ends, the fourth one plays. -/
theorem uninterrupted_playback_handover :
    let s := ((PlayerSession.start 1000 99).run ([7, 42, 5, 1].map (.enqueue · 1))).run
      ([1500, 0, 2500].map .advance)
    [7, 42, 5, 1].length ≤ 128 ∧ s.now = 4000 ∧ s.deck.player.song = 5 ∧
      s.deck.player.elapsed.toNat = 0 ∧ s.deck.player.queue = [1] ∧
      s.deck.player.waiting = false := by
  have hroom : [7, 42, 5, 1].length ≤ 128 := by decide
  obtain ⟨hnow, -, hplays, -⟩ := uninterrupted_playback 1000 99 [7, 42, 5, 1] hroom [1500, 0, 2500]
  obtain ⟨hsong, helapsed, hqueue, hplaying⟩ :=
    hplays 3 (by decide) (by decide) (by decide)
  exact ⟨hroom, hnow, hsong, helapsed, hqueue, hplaying⟩

end Ensemble
