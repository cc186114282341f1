import Ensemble.Proofs.Playback.Trail
import Mathlib.Algebra.BigOperators.Group.List.Basic
import Mathlib.Algebra.Ring.Nat
import Mathlib.Data.List.Induction
import Mathlib.Data.List.Pairwise

/-!
# Playback never runs ahead of the clock

The timeline of a run lists stretches of the clock in the order in which the run notes them: each
second that the timer counts, from its beginning until it was due; each time that goes by in a
pause; and, as a moment, each event that cuts a running second short. These stretches follow one
another. So no counted second has a cut inside, none overlaps another or a pause, and all of them
together fit into the time that went by without a pause.

* `Deck.Keeps` — the running second of a deck begins after everything on the timeline.
* `Deck.Keeps.runs` — passes of the timer keep that, early or late.
* `seconds_within_playing` — the seconds that a run counts last no longer than it played.
-/

namespace Ensemble

/-! ## Timelines -/

/-- What a stretch of the timeline stands for. -/
inductive Mark where
  /-- A second that was counted. -/
  | second
  /-- Time that went by in a pause. -/
  | pause
  /-- The moment of an event that cuts a running second short. -/
  | cut
  deriving DecidableEq, Repr

/-- A stretch of the clock. -/
structure Stretch where
  mark : Mark
  since : Nat
  till : Nat
  deriving DecidableEq, Repr

namespace Stretch

/-- A cut at an instant. -/
def cut (now : Nat) : Stretch := ⟨.cut, now, now⟩

/-- The first stretch is over when the second begins. -/
def Precedes (x y : Stretch) : Prop := x.till ≤ y.since

/-- The time that the stretch lies in a pause. -/
def paused (x : Stretch) : Nat := if x.mark = .pause then x.till - x.since else 0

/-- A stretch has room for the second or the pause that it stands for. -/
theorem countP_mul_add_paused_le {tick : Nat} {x : Stretch}
    (hwhole : x.mark = .second → x.till = x.since + tick) :
    [x].countP (·.mark = .second) * tick + x.paused ≤ x.till - x.since := by
  rw [List.countP_singleton, paused]
  cases hmark : x.mark with
  | second =>
    have hlength := hwhole hmark
    simp only [decide_true, if_true, Nat.one_mul, reduceCtorEq, if_false, Nat.add_zero]
    omega
  | pause => simp
  | cut => simp

end Stretch

/-- What holds of the timeline when the clock shows `clock`. -/
structure Timeline (tick clock : Nat) (log : List Stretch) : Prop where
  ordered : log.Pairwise Stretch.Precedes
  past : ∀ x ∈ log, x.till ≤ clock
  forward : ∀ x ∈ log, x.since ≤ x.till
  /-- Only whole seconds are counted. -/
  whole : ∀ x ∈ log, x.mark = .second → x.till = x.since + tick

namespace Timeline

variable {tick clock now : Nat} {log : List Stretch} {x : Stretch}

/-- Of an empty timeline everything holds. -/
theorem nil (tick clock : Nat) : Timeline tick clock [] := by
  constructor <;> simp

/-- A timeline stays one as the clock goes on. -/
theorem later (h : Timeline tick clock log) (hnow : clock ≤ now) : Timeline tick now log :=
  { h with past := fun x hx => (h.past x hx).trans hnow }

/-- A stretch is added that begins after all the others. -/
theorem concat (h : Timeline tick clock log) (hclock : clock ≤ now)
    (hafter : ∀ y ∈ log, y.till ≤ x.since) (hforward : x.since ≤ x.till) (hpast : x.till ≤ now)
    (hwhole : x.mark = .second → x.till = x.since + tick) : Timeline tick now (log ++ [x]) := by
  refine ⟨?_, ?_, ?_, ?_⟩
  · rw [List.pairwise_append]
    refine ⟨h.ordered, List.pairwise_singleton _ _, ?_⟩
    simpa [Stretch.Precedes] using hafter
  · simpa [or_imp, forall_and] using ⟨(h.later hclock).past, hpast⟩
  · simpa [or_imp, forall_and] using ⟨h.forward, hforward⟩
  · simpa [or_imp, forall_and] using ⟨h.whole, hwhole⟩

/-- A timeline may be cut now. -/
theorem cut (h : Timeline tick clock log) (hnow : clock ≤ now) :
    Timeline tick now (log ++ [.cut now]) :=
  h.concat hnow (h.later hnow).past le_rfl le_rfl (by simp [Stretch.cut])

/-- Of two stretches one is over when the other begins. -/
theorem precedes_or (h : Timeline tick clock log) {y : Stretch} (hx : x ∈ log) (hy : y ∈ log)
    (hne : x ≠ y) : x.Precedes y ∨ y.Precedes x := by
  have : Std.Symm fun x y : Stretch => x.Precedes y ∨ y.Precedes x := ⟨fun _ _ => Or.symm⟩
  have heither : log.Pairwise fun x y => x.Precedes y ∨ y.Precedes x := h.ordered.imp Or.inl
  exact heither.forall hx hy hne

/-- The seconds and the pauses fit into the time until now, for no two of them overlap. -/
theorem countP_mul_add_le (h : Timeline tick clock log) :
    log.countP (·.mark = .second) * tick + (log.map Stretch.paused).sum ≤ clock := by
  induction log using List.reverseRecOn generalizing clock with
  | nil => simp
  | append_singleton log x ih =>
    -- When the last stretch begins all the others are over.
    have hbefore : Timeline tick x.since log := by
      obtain ⟨hordered, -, hall⟩ := List.pairwise_append.mp h.ordered
      refine ⟨hordered, ?_, ?_, ?_⟩
      · exact fun y hy => hall y hy x (List.mem_singleton_self x)
      · exact fun y hy => h.forward y (List.mem_append_left _ hy)
      · exact fun y hy => h.whole y (List.mem_append_left _ hy)
    have hx : x ∈ log ++ [x] := List.mem_concat_self
    have hsum := ih hbefore
    have hlast := Stretch.countP_mul_add_paused_le (h.whole x hx)
    have hforward := h.forward x hx
    have hpast := h.past x hx
    rw [List.countP_append, List.map_append, List.sum_append, Nat.add_mul, List.map_singleton,
      List.sum_singleton]
    omega

end Timeline

/-! ## What the timer notes -/

/-- A pass at the instant `now` counts a second: the timer goes, a song of the catalogue is played
and its running second is over. -/
def Deck.countsSecond (tick now : Nat) (d : Deck) : Bool :=
  !d.stopped && !d.player.paused && !d.player.waiting &&
    (SongId.duration? d.player.song).isSome && decide (d.due tick now ≤ now)

/-- The second that a pass at the instant `now` counts, if it counts one. -/
def Deck.seconds (tick now : Nat) (d : Deck) : List Stretch :=
  if d.countsSecond tick now then [⟨.second, d.due tick now - tick, d.due tick now⟩] else []

/-- What a pass adds to the timeline: the second that it counts, and the beginning of a song. -/
def Pass.stretches (tick : Nat) (x : Pass) : List Stretch :=
  x.found.seconds tick x.now ++ (x.begun tick).map fun _ => .cut x.now

namespace Player

/-- A song begins at its beginning. -/
theorem not_elapsed_lt_of_next? {p q : Player} (h : p.next? = some q) : ¬p.elapsed < q.elapsed := by
  obtain ⟨song, rest, -, rfl⟩ := next?_eq_some_iff.mp h
  exact UInt32.not_lt_zero

/-- The end of a song never moves its position forwards. -/
theorem not_elapsed_lt_endSong (p : Player) : ¬p.elapsed < p.endSong.elapsed := by
  cases hnext : p.next? with
  | some q =>
    rw [endSong_eq_of_next? hnext]
    exact not_elapsed_lt_of_next? hnext
  | none =>
    rw [endSong_of_queue_eq_nil ((next?_eq_none_iff p).mp hnext)]
    exact UInt32.lt_irrefl _

/-- To toggle the pause does not go back to an earlier epoch. -/
theorem epoch_le_togglePause (p : Player) : p.epoch ≤ p.togglePause.epoch := by
  rw [togglePause]
  split
  · exact Nat.le_succ _
  · exact le_rfl

/-- The end of a pause opens a new epoch. -/
theorem epoch_lt_togglePause {p : Player} (h : p.togglePause.paused = false) :
    p.epoch < p.togglePause.epoch := by
  rw [togglePause] at h ⊢
  split
  · exact Nat.lt_succ_self _
  · rename_i hpaused
    rw [if_neg hpaused] at h
    cases h

end Player

namespace Deck

variable {tick clock now : Nat} {log : List Stretch} {d e : Deck}

/-- A second is counted while a song of the catalogue is played, when it is over. -/
theorem countsSecond_iff : d.countsSecond tick now = true ↔
    d.Goes ∧ d.player.waiting = false ∧ (SongId.duration? d.player.song).isSome = true ∧
      d.due tick now ≤ now := by
  simp only [countsSecond, Bool.and_eq_true, Bool.not_eq_true', decide_eq_true_eq]
  constructor
  · rintro ⟨⟨⟨⟨hstopped, hpaused⟩, hwaiting⟩, hsong⟩, hdue⟩
    exact ⟨⟨hstopped, hpaused⟩, hwaiting, hsong, hdue⟩
  · rintro ⟨⟨hstopped, hpaused⟩, hwaiting, hsong, hdue⟩
    exact ⟨⟨⟨⟨hstopped, hpaused⟩, hwaiting⟩, hsong⟩, hdue⟩

/-- What a deck keeps of its timeline. The running second counts only while the timer goes and in
the epoch in which it began; as long as it does, all of the timeline lies before it. -/
structure Keeps (tick clock : Nat) (log : List Stretch) (d : Deck) : Prop where
  timeline : Timeline tick clock log
  epoch_le : ∀ t, d.pending = some t → t.epoch ≤ d.player.epoch
  running : ∀ t, d.pending = some t → t.epoch = d.player.epoch → d.Goes →
    ∃ since, t.due = since + tick ∧ ∀ x ∈ log, x.till ≤ since

namespace Keeps

/-- What a deck keeps it keeps as the clock goes on. -/
theorem later (h : d.Keeps tick clock log) (hnow : clock ≤ now) : d.Keeps tick now log :=
  { h with timeline := h.timeline.later hnow }

/-- The running second lasts on while the epoch does. -/
theorem congr (h : d.Keeps tick clock log) (hpending : e.pending = d.pending)
    (hepoch : e.player.epoch = d.player.epoch) (hgoes : e.Goes → d.Goes) :
    e.Keeps tick clock log where
  timeline := h.timeline
  epoch_le := by
    rw [hpending, hepoch]
    exact h.epoch_le
  running t ht hcurrent hgo := h.running t (hpending ▸ ht) (hepoch ▸ hcurrent) (hgoes hgo)

/-- A new epoch gives the running second up, and so does whatever keeps the timer from going. -/
theorem giveUp (h : d.Keeps tick clock log) {later : List Stretch} (hlog : Timeline tick now later)
    (hpending : e.pending = d.pending) (hepoch : d.player.epoch ≤ e.player.epoch)
    (hnew : e.Goes → d.player.epoch < e.player.epoch) : e.Keeps tick now later where
  timeline := hlog
  epoch_le t ht := (h.epoch_le t (hpending ▸ ht)).trans hepoch
  running t ht hcurrent hgo := by
    have hold := h.epoch_le t (hpending ▸ ht)
    have hlt := hnew hgo
    omega

/-- The running second, or one that begins now, begins after everything on the timeline. -/
theorem due_eq (h : d.Keeps tick clock log) (hnow : clock ≤ now) (hgoes : d.Goes) :
    ∃ since, d.due tick now = since + tick ∧ ∀ x ∈ log, x.till ≤ since := by
  have hfresh : ∃ since, now + tick = since + tick ∧ ∀ x ∈ log, x.till ≤ since :=
    ⟨now, rfl, (h.timeline.later hnow).past⟩
  rw [due]
  cases ht : d.pending with
  | none => exact hfresh
  | some t =>
    dsimp only
    split
    · exact h.running t ht ‹_› hgoes
    · exact hfresh

/-- The second that a pass counts comes after everything on the timeline. -/
theorem timeline_pass (h : d.Keeps tick clock log) (hnow : clock ≤ now) :
    Timeline tick now (log ++ d.seconds tick now) := by
  rw [seconds]
  split
  · rename_i hcounts
    obtain ⟨hgoes, -, -, hover⟩ := countsSecond_iff.mp hcounts
    obtain ⟨since, hdue, hafter⟩ := h.due_eq hnow hgoes
    have hsince : d.due tick now - tick = since := by omega
    rw [hsince]
    refine h.timeline.concat hnow hafter ?_ hover fun _ => hdue
    dsimp only
    omega
  · rw [List.append_nil]
    exact h.timeline.later hnow

/-- A pass leaves no second of an epoch to come. -/
theorem epoch_le_pass (h : d.Keeps tick clock log) {t : Tick}
    (ht : (d.pass tick now).1.pending = some t) : t.epoch ≤ d.player.epoch := by
  have hpass := passes tick now d
  generalize d.pass tick now = r at hpass ht
  cases hpass with
  | stopped | needsSong | begins | unknown => exact h.epoch_le t ht
  | paused => cases ht
  | waits | counts =>
    cases ht
    exact le_rfl

/-- The second that runs after a pass begins after the one that the pass counts. -/
theorem running_pass (h : d.Keeps tick clock log) (hnow : clock ≤ now) {t : Tick}
    (ht : (d.pass tick now).1.pending = some t)
    (hsame : d.player.SameSong (d.pass tick now).1.player)
    (hcurrent : t.epoch = d.player.epoch) (hgoes : (d.pass tick now).1.Goes) :
    ∃ since, t.due = since + tick ∧ ∀ x ∈ log ++ d.seconds tick now, x.till ≤ since := by
  have hpass := passes tick now d
  generalize d.pass tick now = r at hpass ht hsame hgoes
  -- One case per kind of pass; only one that counts adds to the timeline.
  cases hpass with
  | stopped hstopped => exact absurd (hstopped.symm.trans hgoes.running) (by decide)
  | paused => cases ht
  | needsSong hgo hwaiting | begins hgo hwaiting =>
    have hnone : d.seconds tick now = [] := by simp [seconds, countsSecond, hwaiting]
    rw [hnone, List.append_nil]
    exact h.running t ht hcurrent hgo
  | unknown hgo _ hsong =>
    have hnone : d.seconds tick now = [] := by simp [seconds, countsSecond, hsong]
    rw [hnone, List.append_nil]
    exact h.running t ht hcurrent hgo
  | waits hgo _ _ hlater =>
    have hnone : d.seconds tick now = [] := by simp [seconds, countsSecond, hlater]
    cases ht
    rw [hnone, List.append_nil]
    exact h.due_eq hnow hgo
  -- The next second runs from where this one ended.
  | counts hgo hwaiting hsong hover =>
    have hcounts : d.countsSecond tick now = true :=
      countsSecond_iff.mpr ⟨hgo, hwaiting, by simp [hsong], hover⟩
    cases ht
    obtain ⟨since, hdue, hafter⟩ := h.due_eq hnow hgo
    refine ⟨d.due tick now, rfl, ?_⟩
    rw [seconds, if_pos hcounts]
    simp only [List.mem_append, List.mem_singleton]
    rintro x (hx | rfl)
    · have := hafter x hx
      omega
    · exact le_rfl

/-- A pass notes the second that it counts, and the timeline is kept. -/
theorem pass (h : d.Keeps tick clock log) (hnow : clock ≤ now) :
    (d.pass tick now).1.Keeps tick now (log ++ Pass.stretches tick ⟨now, d⟩) := by
  have hseconds := h.timeline_pass hnow
  rw [Pass.stretches, ← List.append_assoc]
  obtain hnext | hsame := d.pass_cases tick now
  -- A song that begins opens an epoch, to which no second belongs that began before.
  · have hepoch := Player.epoch_lt_of_next? hnext
    rw [Pass.begun_of_next? (x := ⟨now, d⟩) hnext]
    refine ⟨hseconds.cut le_rfl, fun t ht => (h.epoch_le_pass ht).trans hepoch.le, ?_⟩
    intro t ht hcurrent
    have hold := h.epoch_le_pass ht
    omega
  · rw [Pass.begun_of_sameSong (x := ⟨now, d⟩) hsame, List.map_nil, List.append_nil]
    refine ⟨hseconds, ?_, ?_⟩
    · rw [hsame.epoch_eq]
      exact fun t ht => h.epoch_le_pass ht
    · intro t ht hcurrent hgoes
      exact h.running_pass hnow ht hsame (hsame.epoch_eq ▸ hcurrent) hgoes

/-- Passes of the timer count whole seconds, one after the other, however late they come. -/
theorem runs {before later : Nat} {xs : List Pass} (h : d.Keeps tick before log)
    (hruns : Runs tick before d xs later e) :
    e.Keeps tick later (log ++ xs.flatMap (Pass.stretches tick)) := by
  induction hruns generalizing log with
  | waits hlater =>
    rw [List.flatMap_nil, List.append_nil]
    exact h.later hlater
  | pass hnow _ ih =>
    rw [List.flatMap_cons, ← List.append_assoc]
    exact ih (h.pass hnow)

end Keeps

/-- A second that is counted moves the position in the song on by one, if at all. -/
theorem elapsed_countTick_of_lt {duration : UInt32} {p : Player}
    (h : p.elapsed < (countTick duration p).elapsed) :
    (countTick duration p).elapsed = p.elapsed + 1 := by
  have hcounted := counted duration p
  generalize countTick duration p = q at hcounted h ⊢
  cases hcounted with
  | within =>
    -- The count is not at its largest number, since it has grown.
    rw [Player.countSecond] at h ⊢
    split
    · rename_i hmax
      rw [if_pos hmax] at h
      exact absurd h (UInt32.lt_irrefl _)
    · rfl
  | follows _ hnext => exact absurd h (Player.not_elapsed_lt_of_next? hnext)
  | last hover =>
    have hcount := p.toNat_elapsed_countSecond
    rw [UInt32.lt_iff_toNat_lt] at h hover
    dsimp only at h
    omega

/-- Only a second that is counted moves the position in the song on, and by one. -/
theorem elapsed_pass_of_lt (h : d.player.elapsed < (d.pass tick now).1.player.elapsed) :
    d.countsSecond tick now = true ∧
      (d.pass tick now).1.player.elapsed = d.player.elapsed + 1 := by
  have hpass := passes tick now d
  generalize d.pass tick now = r at hpass h ⊢
  cases hpass with
  | stopped | paused | needsSong | waits => exact absurd h (UInt32.lt_irrefl _)
  | begins _ _ hnext => exact absurd h (Player.not_elapsed_lt_of_next? hnext)
  | unknown => exact absurd h d.player.not_elapsed_lt_endSong
  | counts hgo hwaiting hsong hover =>
    exact ⟨countsSecond_iff.mpr ⟨hgo, hwaiting, by simp [hsong], hover⟩, elapsed_countTick_of_lt h⟩

end Deck

/-! ## Sessions -/

namespace PlayerSession

/-- What the command of a step adds to the timeline. -/
def prelude (s : PlayerSession) : PlayerStep → List Stretch
  | .togglePause | .setElapsed _ | .setStatus _ => [.cut s.now]
  | .setPaused paused => if (s.deck.player.setPaused? paused).isSome then [.cut s.now] else []
  | .skip => if s.deck.player.next?.isSome then [.cut s.now] else []
  | .advance ms | .jump ms =>
    if s.deck.player.paused then [⟨.pause, s.now, s.now + ms⟩] else []
  | .readPaused | .enqueue _ _ | .stop => []

/-- What a step adds to the timeline. -/
def stretches (s : PlayerSession) (a : PlayerStep) : List Stretch :=
  s.prelude a ++ (s.trail a).flatMap (Pass.stretches s.tick)

/-- What steps one after the other add to the timeline. -/
def log : PlayerSession → List PlayerStep → List Stretch
  | _, [] => []
  | s, a :: rest => s.stretches a ++ (s.step a).1.log rest

/-- The time that goes by without a pause. -/
def playing : PlayerSession → List PlayerStep → Nat
  | _, [] => 0
  | s, a :: rest => (if s.deck.player.paused then 0 else a.ms) + (s.step a).1.playing rest

/-- The timeline of a run from the beginning of the first song on. -/
def timeline (tick : Nat) (song : SongId) (steps : List PlayerStep) : List Stretch :=
  (Deck.startTrail tick 0 song).flatMap (Pass.stretches tick) ++ (start tick song).log steps

variable {s : PlayerSession} {entries : List Stretch}

/-- In a pause time goes by as one stretch of it. -/
theorem keeps_pause (h : s.deck.Keeps s.tick s.now entries) (hpaused : s.deck.player.paused = true)
    (ms : Nat) :
    s.deck.Keeps s.tick (s.now + ms) (entries ++ [⟨.pause, s.now, s.now + ms⟩]) := by
  have hpause : Timeline s.tick (s.now + ms) (entries ++ [⟨.pause, s.now, s.now + ms⟩]) :=
    h.timeline.concat (Nat.le_add_right _ _) h.timeline.past (Nat.le_add_right _ _) le_rfl (by simp)
  exact h.giveUp hpause rfl le_rfl
    fun hgoes => absurd (hpaused.symm.trans hgoes.unpaused) (by decide)

/-- The command of a step gives the running second up, or leaves it alone. -/
theorem keeps_command (h : s.deck.Keeps s.tick s.now entries) (a : PlayerStep) :
    (a.command s.deck).Keeps s.tick (s.resumes a) (entries ++ s.prelude a) := by
  have hsame := h.later (s.le_resumes a)
  -- A command that moves the song or pauses it cuts the timeline now.
  have hcut : Timeline s.tick (s.resumes a) (entries ++ [.cut s.now]) :=
    (h.timeline.cut le_rfl).later (s.le_resumes a)
  cases a with
  | togglePause =>
    exact h.giveUp hcut rfl (Player.epoch_le_togglePause _)
      fun hgoes => Player.epoch_lt_togglePause hgoes.unpaused
  | setPaused paused =>
    simp only [prelude, PlayerStep.command, Player.setPaused, Player.setPaused?]
    split
    · rw [Option.isSome_none, if_neg Bool.false_ne_true, List.append_nil]
      exact hsame
    · rw [Option.isSome_some, if_pos rfl]
      exact h.giveUp hcut rfl (Player.epoch_le_togglePause _)
        fun hgoes => Player.epoch_lt_togglePause hgoes.unpaused
  | skip =>
    simp only [prelude, PlayerStep.command, Player.skip]
    cases hnext : s.deck.player.next? with
    | none =>
      rw [Option.isSome_none, if_neg Bool.false_ne_true, List.append_nil]
      exact hsame
    | some q =>
      have hepoch := Player.epoch_lt_of_next? hnext
      rw [Option.isSome_some, if_pos rfl]
      exact h.giveUp hcut rfl hepoch.le fun _ => hepoch
  | setElapsed => exact h.giveUp hcut rfl (Nat.le_succ _) fun _ => Nat.lt_succ_self _
  | setStatus => exact h.giveUp hcut rfl (Nat.le_succ _) fun _ => Nat.lt_succ_self _
  | readPaused =>
    rw [prelude, List.append_nil]
    exact hsame
  | enqueue song times =>
    rw [prelude, List.append_nil, PlayerStep.command, enqueueTimes_fst]
    exact hsame.congr rfl rfl fun hgoes => ⟨hgoes.running, hgoes.unpaused⟩
  | stop =>
    rw [prelude, List.append_nil]
    refine h.giveUp hsame.timeline rfl le_rfl fun hgoes => ?_
    exact absurd hgoes.running (by simp [PlayerStep.command])
  | advance ms | jump ms =>
    rw [prelude, resumes, PlayerStep.command]
    split
    · exact keeps_pause h ‹_› ms
    · rw [List.append_nil]
      exact h

/-- Every step keeps the timeline that it writes on. -/
theorem keeps_step (h : s.deck.Keeps s.tick s.now entries) (hrests : s.deck.Rests s.now)
    (a : PlayerStep) :
    (s.step a).1.deck.Keeps s.tick (s.step a).1.now (entries ++ s.stretches a) := by
  rw [stretches, ← List.append_assoc]
  exact (keeps_command h a).runs (runs_step hrests a)

/-- Every run keeps the timeline that it writes on. -/
theorem keeps_run (h : s.deck.Keeps s.tick s.now entries) (hrests : s.deck.Rests s.now)
    (steps : List PlayerStep) :
    (s.run steps).deck.Keeps s.tick (s.run steps).now (entries ++ s.log steps) := by
  induction steps generalizing s entries with
  | nil =>
    rw [log, List.append_nil]
    exact h
  | cons a rest ih =>
    rw [log, ← List.append_assoc]
    have hstep := ih (s.tick_step a ▸ keeps_step h hrests a) (rests_step hrests a)
    rwa [tick_step] at hstep

/-- A session begins with the timeline of its first passes. -/
theorem keeps_start (tick : Nat) (song : SongId) :
    (start tick song).deck.Keeps tick 0
      ((Deck.startTrail tick 0 song).flatMap (Pass.stretches tick)) := by
  have hnew : Deck.Keeps tick 0 [] ⟨Player.start song, none, false⟩ :=
    ⟨.nil tick 0, by simp, by simp⟩
  exact hnew.runs (Deck.runs_settle le_rfl)

/-! ## How much time a run plays -/

/-- The timer itself never pauses. -/
theorem paused_of_mem_trail {tick : Nat} {xs : List Pass} {y : Stretch}
    (hy : y ∈ xs.flatMap (Pass.stretches tick)) : y.paused = 0 := by
  obtain ⟨x, -, hy⟩ := List.mem_flatMap.mp hy
  rw [Pass.stretches, List.mem_append, List.mem_map] at hy
  obtain hy | ⟨song, -, rfl⟩ := hy
  · rw [Deck.seconds] at hy
    split at hy
    · rw [List.mem_singleton] at hy
      subst hy
      rfl
    · cases hy
  · rfl

/-- Before its passes a step adds the time of a pause, if there is one. -/
theorem sum_paused_prelude (s : PlayerSession) (a : PlayerStep) :
    ((s.prelude a).map Stretch.paused).sum = if s.deck.player.paused then a.ms else 0 := by
  cases a with
  | advance ms | jump ms =>
    rw [prelude]
    split <;> simp [Stretch.paused, PlayerStep.ms]
  | setPaused | skip =>
    rw [prelude]
    split <;> simp [Stretch.paused, Stretch.cut, PlayerStep.ms]
  | togglePause | setElapsed | setStatus | readPaused | enqueue | stop =>
    simp [prelude, Stretch.paused, Stretch.cut, PlayerStep.ms]

/-- The passes of the timer add no pause. -/
theorem sum_paused_trail (tick : Nat) (xs : List Pass) :
    ((xs.flatMap (Pass.stretches tick)).map Stretch.paused).sum = 0 := by
  refine List.sum_eq_zero fun n hn => ?_
  obtain ⟨y, hy, rfl⟩ := List.mem_map.mp hn
  exact paused_of_mem_trail hy

/-- A step adds a pause exactly as long as itself, or none. -/
theorem sum_paused_stretches (s : PlayerSession) (a : PlayerStep) :
    ((s.stretches a).map Stretch.paused).sum = if s.deck.player.paused then a.ms else 0 := by
  rw [stretches, List.map_append, List.sum_append, sum_paused_trail, Nat.add_zero,
    sum_paused_prelude]

/-- What the clock shows is the time that went by in pauses and the time that went by without. -/
theorem now_run (s : PlayerSession) (steps : List PlayerStep) :
    (s.run steps).now = s.now + s.playing steps + ((s.log steps).map Stretch.paused).sum := by
  induction steps generalizing s with
  | nil => rfl
  | cons a rest ih =>
    change ((s.step a).1.run rest).now = _
    rw [ih, now_step, playing, log, List.map_append, List.sum_append, sum_paused_stretches]
    split <;> omega

/-- The clock is made of the time without a pause and the pauses of the timeline. -/
theorem now_run_start (tick : Nat) (song : SongId) (steps : List PlayerStep) :
    ((start tick song).run steps).now =
      (start tick song).playing steps + ((timeline tick song steps).map Stretch.paused).sum := by
  have hzero : (start tick song).now = 0 := rfl
  rw [now_run, hzero, Nat.zero_add, timeline, List.map_append, List.sum_append, sum_paused_trail,
    Nat.zero_add]

end PlayerSession

/-- Playback never runs ahead of the clock: the seconds that the timer counts in a run last, all
together, at most as long as the time that went by without a pause. The seconds, pauses and cuts of
the run follow one another. So no two seconds overlap, and none has in it a pause, a change of the
song, or a written position or status. Only a pass that counts a second moves the position in a song
on. The trail of a step, on which its seconds are noted, has all the passes that lead from the
command to the end of the step, and none of them begins or ends a pause. -/
theorem seconds_within_playing (tick : Nat) (song : SongId) (steps : List PlayerStep) :
    let timeline := PlayerSession.timeline tick song steps
    let s := (PlayerSession.start tick song).run steps
    timeline.countP (·.mark = .second) * tick ≤ (PlayerSession.start tick song).playing steps ∧
      timeline.Pairwise Stretch.Precedes ∧
      (∀ x ∈ timeline, x.mark = .second → x.till = x.since + tick ∧
        ∀ y ∈ timeline, y.mark = .cut → y.till ≤ x.since ∨ x.till ≤ y.since) ∧
      (∀ (now : Nat) (d : Deck), d.player.elapsed < (d.pass tick now).1.player.elapsed →
        d.countsSecond tick now = true ∧
          (d.pass tick now).1.player.elapsed = d.player.elapsed + 1) ∧
      ∀ a : PlayerStep,
        Deck.Runs tick (s.resumes a) (a.command s.deck) (s.trail a)
          (s.step a).1.now (s.step a).1.deck ∧
        (s.step a).1.deck.player.paused = (a.command s.deck).player.paused := by
  intro timeline s
  have hrests := PlayerSession.rests_start tick song
  have hkeeps : Timeline tick s.now timeline :=
    (PlayerSession.keeps_run (PlayerSession.keeps_start tick song) hrests steps).timeline
  refine ⟨?_, hkeeps.ordered, ?_, fun now d => Deck.elapsed_pass_of_lt, fun a => ?_⟩
  · have hfit := hkeeps.countP_mul_add_le
    rw [PlayerSession.now_run_start] at hfit
    exact Nat.le_of_add_le_add_right hfit
  · intro x hx hsecond
    refine ⟨hkeeps.whole x hx hsecond, fun y hy hcut => ?_⟩
    -- A second is no cut.
    have hne : x ≠ y := by
      rintro rfl
      rw [hsecond] at hcut
      cases hcut
    exact (hkeeps.precedes_or hx hy hne).symm
  · have htick : s.tick = tick := PlayerSession.tick_run _ steps
    have hruns := PlayerSession.runs_step (PlayerSession.rests_run hrests steps) a
    exact ⟨htick ▸ hruns, hruns.paused_eq⟩

/-- Half a second is cut short by a pause, and two seconds are caught up at once. -/
example :
    PlayerSession.timeline 1000 7
        [.advance 1500, .togglePause, .advance 700, .togglePause, .jump 2300] =
      [⟨.second, 0, 1000⟩, ⟨.cut, 1500, 1500⟩, ⟨.pause, 1500, 2200⟩, ⟨.cut, 2200, 2200⟩,
        ⟨.second, 2200, 3200⟩, ⟨.second, 3200, 4200⟩] := by
  decide

end Ensemble
