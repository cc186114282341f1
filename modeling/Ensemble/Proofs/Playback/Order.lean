import Ensemble.Proofs.Playback.Queue
import Ensemble.Proofs.Playback.Trail

/-!
# Songs are played in the order in which they were accepted

A `Recital` is a session with a record of what was played. The line is what stood at the base point,
the first song or the last status that was written, followed by the songs accepted since. What has
been played and what still waits is always the whole line, in its order, with nothing lost and
nothing played twice.

* `Player.Continues` — what was played, and then the queue, is the line.
* `Player.Continues.runs` — passes of the timer keep that, however many songs end in them.
* `played_in_order` — so does every run of a session.
-/

namespace Ensemble

namespace Player

@[simp] theorem song_togglePause (p : Player) : p.togglePause.song = p.song := by
  rw [togglePause]
  split <;> rfl

@[simp] theorem song_setPaused (p : Player) (paused : Bool) :
    (p.setPaused paused).song = p.song := by
  rw [setPaused, setPaused?]
  split
  · rfl
  · exact p.song_togglePause

end Player

/-! ## The line -/

/-- What was played and then the queue is the line, and the song played last is the current one. -/
structure Player.Continues (played line : List SongId) (p : Player) : Prop where
  line_eq : played ++ p.queue = line
  last_eq : played.getLast? = some p.song

namespace Player.Continues

variable {played line : List SongId} {p q : Player}

/-- The next song of the line begins. -/
theorem next? (h : p.Continues played line) (hnext : p.next? = some q) :
    q.Continues (played ++ [q.song]) line := by
  obtain ⟨song, rest, hqueue, rfl⟩ := next?_eq_some_iff.mp hnext
  refine ⟨?_, List.getLast?_concat⟩
  rw [← h.line_eq, hqueue, List.append_assoc, List.singleton_append]

/-- Only the song and the queue matter for what was played and what is to come. -/
theorem congr (h : p.Continues played line) (hsong : q.song = p.song) (hqueue : q.queue = p.queue) :
    q.Continues played line := by
  refine ⟨?_, ?_⟩
  · rw [hqueue]
    exact h.line_eq
  · rw [hsong]
    exact h.last_eq

/-- Songs that are accepted stand at the end of the line. -/
theorem append (h : p.Continues played line) {songs : List SongId} (hsong : q.song = p.song)
    (hqueue : q.queue = p.queue ++ songs) : q.Continues played (line ++ songs) := by
  refine ⟨?_, ?_⟩
  · rw [hqueue, ← List.append_assoc, h.line_eq]
  · rw [hsong]
    exact h.last_eq

/-- A pass of the timer plays the next song of the line, if any. -/
theorem pass {tick : Nat} {x : Pass} (h : x.found.player.Continues played line) :
    (x.left tick).player.Continues (played ++ x.begun tick) line := by
  obtain hnext | hsame := x.found.pass_cases tick x.now
  · rw [Pass.begun_of_next? hnext]
    exact h.next? hnext
  · rw [Pass.begun_of_sameSong hsame, List.append_nil]
    exact h.congr hsame.song_eq hsame.queue_eq

/-- So do passes of the timer, however many songs end in them. -/
theorem runs {tick before later : Nat} {d e : Deck} {xs : List Pass}
    (h : d.player.Continues played line) (hruns : Deck.Runs tick before d xs later e) :
    e.player.Continues (played ++ xs.flatMap (Pass.begun tick)) line := by
  induction hruns generalizing played with
  | waits =>
    rw [List.flatMap_nil, List.append_nil]
    exact h
  | @pass _ now _ d _ _ _ _ ih =>
    rw [List.flatMap_cons, ← List.append_assoc]
    exact ih (pass (x := ⟨now, d⟩) h)

end Player.Continues

/-! ## What a step adds -/

/-- The songs that begin with the command of a step. -/
def PlayerStep.begun (p : Player) : PlayerStep → List SongId
  | .skip => (p.next?.map (·.song)).toList
  | .setStatus status => [status.song]
  | _ => []

/-- The songs that a step has appended to the queue, by its answer. -/
def PlayerStep.accepted : PlayerStep → StepAnswer → List SongId
  | .enqueue song _, .count n => List.replicate n song
  | _, _ => []

/-- The line that a step makes a base point of. -/
def PlayerStep.base? : PlayerStep → Option (List SongId)
  | .setStatus status => some (status.song :: status.queue.take maxQueue)
  | _ => none

namespace Player.Continues

variable {played line : List SongId}

/-- Where a step makes no base point, its command plays on and lengthens the line. -/
theorem command {s : PlayerSession} {a : PlayerStep} (h : s.deck.player.Continues played line)
    (hbase : a.base? = none) :
    (a.command s.deck).player.Continues (played ++ a.begun s.deck.player)
      (line ++ a.accepted (s.step a).2) := by
  cases a <;> simp only [PlayerStep.command, PlayerStep.begun, PlayerStep.accepted, List.append_nil]
  case setStatus => cases hbase
  case skip =>
    rw [skip]
    cases hnext : s.deck.player.next? with
    | none => simpa using h
    | some q => exact h.next? hnext
  case enqueue song times =>
    rw [PlayerSession.enqueueTimes_fst]
    exact h.append rfl rfl
  case togglePause => exact h.congr (song_togglePause _) (queue_togglePause _)
  case setPaused paused => exact h.congr (song_setPaused _ _) (queue_setPaused _ _)
  case readPaused | setElapsed | stop | advance | jump => exact h.congr rfl rfl

end Player.Continues

/-! ## Recitals -/

/-- A session, with a record of what was played since its last base point. -/
structure Recital where
  session : PlayerSession
  /-- The songs that have been current, in order. -/
  played : List SongId
  /-- What stood at the base point: the current song, and the queue behind it. -/
  base : List SongId
  /-- The songs that were accepted since. -/
  accepted : List SongId

namespace Recital

/-- The first song is a base point. -/
def start (tick : Nat) (song : SongId) : Recital where
  session := .start tick song
  played := song :: (Deck.startTrail tick 0 song).flatMap (Pass.begun tick)
  base := [song]
  accepted := []

/-- Let one thing happen, and note the songs that begin with its command and in its trail. -/
def step (r : Recital) (a : PlayerStep) : Recital :=
  let (session, answer) := r.session.step a
  let begun := a.begun r.session.deck.player ++
    (r.session.trail a).flatMap (Pass.begun r.session.tick)
  match a.base? with
  | some base => { session, played := begun, base, accepted := [] }
  | none =>
    { session, played := r.played ++ begun, base := r.base,
      accepted := r.accepted ++ a.accepted answer }

/-- Let things happen one after the other. -/
def run (r : Recital) (steps : List PlayerStep) : Recital := steps.foldl step r

/-- A recital goes along with its session. -/
@[simp] theorem session_step (r : Recital) (a : PlayerStep) :
    (r.step a).session = (r.session.step a).1 := by
  rw [step]
  cases a.base? <;> rfl

/-- The record does not change what happens. -/
@[simp] theorem session_run (r : Recital) (steps : List PlayerStep) :
    (r.run steps).session = r.session.run steps := by
  induction steps generalizing r with
  | nil => rfl
  | cons a rest ih =>
    change ((r.step a).run rest).session = (r.session.step a).1.run rest
    rw [ih, session_step]

/-- The player continues what was played, and no second is due. -/
structure Holds (r : Recital) : Prop where
  rests : r.session.deck.Rests r.session.now
  continues : r.session.deck.player.Continues r.played (r.base ++ r.accepted)

/-- In the beginning the first song has been played, and it is all there is to play. -/
theorem holds_start (tick : Nat) (song : SongId) : (start tick song).Holds := by
  refine ⟨PlayerSession.rests_start tick song, ?_⟩
  have hstart : (Player.start song).Continues [song] [song] := ⟨rfl, rfl⟩
  exact hstart.runs (d := ⟨Player.start song, none, false⟩) (Deck.runs_settle le_rfl)

/-- A step plays on in the line, or begins a new line with the status that it sets. -/
theorem Holds.step {r : Recital} (h : r.Holds) (a : PlayerStep) : (r.step a).Holds := by
  have hruns := PlayerSession.runs_step h.rests a
  refine ⟨?_, ?_⟩
  · rw [session_step]
    exact PlayerSession.rests_step h.rests a
  rw [session_step, Recital.step]
  cases hbase : a.base? with
  -- The command keeps the line, and so do the passes after it.
  | none =>
    have hcommand := h.continues.command hbase
    simp only [← List.append_assoc]
    exact hcommand.runs hruns
  | some base =>
    cases a with
    -- A status from elsewhere begins a line of its own.
    | setStatus status =>
      cases hbase
      have hbegins : (r.session.deck.player.setStatus status).Continues [status.song]
          (status.song :: status.queue.take maxQueue) := ⟨rfl, rfl⟩
      rw [List.append_nil]
      exact hbegins.runs hruns
    | _ => cases hbase

/-- Every run plays on in the line. -/
theorem Holds.run {r : Recital} (h : r.Holds) (steps : List PlayerStep) : (r.run steps).Holds := by
  induction steps generalizing r with
  | nil => exact h
  | cons a rest ih => exact ih (h.step a)

end Recital

/-- Songs are played in the order in which they were accepted, with nothing lost and nothing played
twice: in every run, the songs that have been current since the last base point, and then the queue,
are what stood at the base point, and then the songs accepted since. The song played last is the
current one. In a run of additions one is rejected only by a queue that is exactly full. -/
theorem played_in_order (tick : Nat) (song : SongId) (steps : List PlayerStep) :
    let r := (Recital.start tick song).run steps
    let player := ((PlayerSession.start tick song).run steps).deck.player
    r.session = (PlayerSession.start tick song).run steps ∧
      r.played ++ player.queue = r.base ++ r.accepted ∧
      r.played.getLast? = some player.song ∧
      ∀ (added : SongId) (before : Nat),
        let found := (PlayerSession.enqueueTimes added before player).1
        found.enqueue? added = none → found.queue.length = maxQueue := by
  intro r player
  have hsession : r.session = (PlayerSession.start tick song).run steps :=
    Recital.session_run _ steps
  have hcontinues : player.Continues r.played (r.base ++ r.accepted) := by
    have h := ((Recital.holds_start tick song).run steps).continues
    rwa [Recital.session_run] at h
  refine ⟨hsession, hcontinues.line_eq, hcontinues.last_eq, ?_⟩
  intro added before found hrejected
  have hbounded : player.Bounded :=
    PlayerSession.bounded_run (PlayerSession.bounded_start tick song) steps
  -- A song is refused by a full queue only, and a queue is never more than full.
  have hfound : found.Bounded := PlayerSession.bounded_enqueueTimes hbounded
  exact Nat.le_antisymm hfound ((Player.enqueue?_eq_none_iff found added).mp hrejected)

/-- Songs outside the catalogue are run through at once, and are played all the same. -/
example :
    let r := (Recital.start 1000 99).run [.enqueue 42 2, .enqueue 7 1, .advance 2500, .enqueue 1 1]
    r.played = [99, 42, 42, 7] ∧ r.session.deck.player.queue = [1] := by
  decide

end Ensemble
