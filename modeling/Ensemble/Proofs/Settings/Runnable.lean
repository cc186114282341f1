import Ensemble.Program.Run
import Ensemble.Proofs.Membership.Sweeper

/-!
# Which settings can be run

Once a file can be read only its log is checked. The numbers are taken as they are: a period may be
zero, with which no interval begins, and more places may be asked for than a server can have. None
of this stops the process. Without its interval the sweeper or a knocker is missing for good, and
without its server the process goes on and fails at its end.

* `Settings.load_eq_ok_iff` — which files are accepted.
* `Settings.Runnable` — everything that the settings set up can begin.
* `Process.serving_run?` — whether a server came up stays as it was at the start.
* `loaded_settings_fare` — what becomes of an accepted file, by three of its numbers.
-/

namespace Ensemble

/-! ## What is checked -/

/-- The log can be kept as its settings say exactly if they name a level and a format. -/
theorem LogSettings.error?_eq_none_iff {s : LogSettings} :
    s.error? = none ↔ (LogLevel.ofName? s.level).isSome ∧ (LogFormat.ofName? s.format).isSome := by
  rw [error?]
  cases LogLevel.ofName? s.level <;> cases LogFormat.ofName? s.format <;> simp

namespace Settings

/-- The settings that stand in a file, checked or not. -/
def read? : Option Bytes → Option Settings
  | none => some {}
  | some bytes => (Utf8.decode? bytes).bind fun text => (Toml.parse? text).bind ofDocument?

/-- What can be read is accepted exactly if its log can be kept. -/
theorem load_eq_ok_iff {file : Option Bytes} {s : Settings} :
    load file = .ok s ↔ read? file = some s ∧ s.log.error? = none := by
  cases file with
  | none =>
    simp only [load, read?, Except.ok.injEq, Option.some.injEq]
    refine ⟨fun h => ⟨h, ?_⟩, And.left⟩
    rw [← h]
    rfl
  | some bytes =>
    rw [load, read?]
    -- Three things can be wrong with a file: its bytes, its text, its values.
    rcases Utf8.decode? bytes with _ | text
    · simp
    · rw [Option.bind_some]
      simp only [ofText]
      rcases (Toml.parse? text).bind ofDocument? with _ | s'
      · simp
      · simp only [Option.some.injEq]
        split
        · rename_i e he
          refine iff_of_false (by simp) ?_
          rintro ⟨rfl, hnone⟩
          rw [hnone] at he
          cases he
        · rename_i hnone
          simp only [Except.ok.injEq]
          exact ⟨fun h => ⟨h, h ▸ hnone⟩, And.left⟩

/-- Everything that the settings set up can begin: the log, the server, the sweeper, and the
knockers at whatever time. -/
structure Runnable (s : Settings) : Prop where
  level : (LogLevel.ofName? s.log.level).isSome
  format : (LogFormat.ofName? s.log.format).isSome
  server : s.sessions?.isSome
  sweeper : ∀ now, (Interval.start? s.serviceConfig.sweepInterval now).isSome
  knockers : ∀ now, (Interval.start? s.serviceConfig.knockInterval now).isSome

end Settings

/-- An interval can be started exactly if its period is not zero. -/
theorem Interval.isSome_start?_iff {period now : Nat} :
    (start? period now).isSome ↔ 0 < period := by
  rw [start?]
  split
  · rename_i hzero
    exact iff_of_false Bool.false_ne_true (by omega)
  · rename_i hpos
    exact iff_of_true rfl (Nat.pos_of_ne_zero hpos)

namespace Settings

variable {s : Settings}

/-- There can be sessions exactly if their number is not too large to be counted. -/
theorem isSome_sessions?_iff : s.sessions?.isSome ↔ s.network.maxSessions ≤ Sessions.maxPlaces := by
  rw [sessions?, Sessions.start?]
  split
  · rename_i hwithin
    exact iff_of_true rfl hwithin
  · rename_i hbeyond
    exact iff_of_false Bool.false_ne_true hbeyond

/-- Accepted settings can be run exactly if three of their numbers are within their bounds. -/
theorem runnable_iff (h : s.log.error? = none) :
    s.Runnable ↔ s.network.maxSessions ≤ Sessions.maxPlaces ∧ 0 < s.service.sweepInterval ∧
      0 < s.service.knockInterval := by
  obtain ⟨hlevel, hformat⟩ := LogSettings.error?_eq_none_iff.mp h
  constructor
  · exact fun hrun => ⟨isSome_sessions?_iff.mp hrun.server,
      Interval.isSome_start?_iff.mp (hrun.sweeper 0), Interval.isSome_start?_iff.mp (hrun.knockers 0)⟩
  · exact fun ⟨hplaces, hsweep, hknock⟩ => ⟨hlevel, hformat, isSome_sessions?_iff.mpr hplaces,
      fun _ => Interval.isSome_start?_iff.mpr hsweep, fun _ => Interval.isSome_start?_iff.mpr hknock⟩

end Settings

/-! ## The server -/

namespace NodeProcess

variable (w : Surroundings) (p : NodeProcess)

/-- A line that is typed does not end the serving of sessions. -/
theorem serving_typeLine (line : List Char) : (p.typeLine w line).1.serving = p.serving := by
  rw [typeLine]
  split <;> rfl

/-- The end of the input does not either. -/
theorem serving_finish (ending : Ending) : (p.finish w ending).serving = p.serving := by
  show ((p.note [endingEvent ending]).deregisterLast w).serving = p.serving
  rw [deregisterLast]
  split <;> rfl

end NodeProcess

namespace Process

variable {w : Surroundings} {p p' : Process}

/-- Nothing that happens ends the serving of sessions. -/
theorem serving_take (w : Surroundings) (p : Process) (h : Happening) :
    (p.take w h).1.serving = p.serving := by
  cases p with
  | service p => cases h <;> rfl
  | node p =>
    cases h with
    | interrupt => exact p.serving_finish w .interrupt
    | inputEnds => rfl
    -- The line may have been the last one.
    | line text =>
      have htype := p.serving_typeLine w text
      simp only [take]
      split
      · rename_i p' heq
        rw [heq] at htype
        exact htype
      · rename_i p' heq
        rw [heq] at htype
        exact (p'.serving_finish w .quit).trans htype

/-- Whether the server came up stays as it was at the start. -/
theorem serving_run? {happenings : List Happening} (h : p.run? w happenings = some p') :
    p'.serving = p.serving := by
  induction happenings generalizing p with
  | nil => cases h
  | cons a rest ih =>
    have htake := p.serving_take w a
    rw [run?] at h
    split at h
    · rename_i q heq
      rw [heq] at htake
      exact (ih h).trans htake
    · rename_i q heq
      rw [heq] at htake
      cases h
      exact htake

/-- The server comes up exactly if it can have the places that the settings ask for. -/
theorem serving_start {l : Launch} (h : start w l = .ok p) :
    p.serving = l.settings.sessions?.isSome := by
  rw [start] at h
  split at h
  · split at h
    · cases h
    · cases h
      rfl
  · split at h
    · cases h
    · split at h
      · cases h
      · cases h
        rfl

/-- A process that ends has failed exactly if its server has not come up. -/
theorem code_eq_zero_iff {l : Launch} {happenings : List Happening} (hstart : start w l = .ok p)
    (hrun : p.run? w happenings = some p') :
    (Outcome.ended l p').code = 0 ↔ l.settings.network.maxSessions ≤ Sessions.maxPlaces := by
  rw [← Settings.isSome_sessions?_iff, ← serving_start hstart, ← serving_run? hrun, Outcome.ended]
  cases p'.serving <;> simp

end Process

/-! ## What becomes of the settings -/

/-- What becomes of a process with certain settings. -/
structure Settings.Fares (s : Settings) : Prop where
  runnable_iff : s.Runnable ↔ s.network.maxSessions ≤ Sessions.maxPlaces ∧
    0 < s.service.sweepInterval ∧ 0 < s.service.knockInterval
  /-- In either mode, whatever the command line replaces: a process that starts and ends has failed
  exactly if there were to be too many sessions. -/
  served_iff : ∀ {w : Surroundings} {l : Launch} {p p' : Process} {happenings : List Happening},
    l.settings = l.mode.override s → Process.start w l = .ok p → p.run? w happenings = some p' →
      ((Outcome.ended l p').code = 0 ↔ s.network.maxSessions ≤ Sessions.maxPlaces)
  /-- With a time between two sweeps, whoever is silent for longer than it and the
  timeout is gone. -/
  swept : 0 < s.service.sweepInterval → ∀ events,
    let r := (RunningService.start s.serviceConfig).meetAll events
    ∀ x ∈ r.service.registry.entries,
      r.now < x.heartbeat + s.service.heartbeatTimeout + s.service.sweepInterval
  /-- Without it nobody is ever removed by time. -/
  unswept : s.service.sweepInterval = 0 → ∀ events granule ms,
    let r := (RunningService.start s.serviceConfig).meetAll events
    r.advance granule ms = ({ r with now := r.now + ms }, [])
  /-- With a time between two knocks, each registered endpoint is knocked at by one loop. -/
  knocked : 0 < s.service.knockInterval → ∀ steps, (∀ a ∈ steps, a.Attended) → ∀ e,
    let r := (Rounds.start s.serviceConfig).run steps
    r.watch.liveTasks e = (r.session.service.registry.token? e).toList
  /-- Without it there is no loop for anybody. -/
  unknocked : s.service.knockInterval = 0 → ∀ steps,
    ((Rounds.start s.serviceConfig).run steps).loops = []

/-- An accepted file names a level and a format of the log. It can be run exactly if it does not ask
for more places than a server can have, nor for sweeps or knocks with no time between them. If it
does, it is accepted all the same: the process runs without its server and fails at its end, nobody
is ever swept, or nobody is ever knocked at. -/
theorem loaded_settings_fare {file : Option Bytes} {s : Settings}
    (h : Settings.load file = .ok s) :
    (LogLevel.ofName? s.log.level).isSome ∧ (LogFormat.ofName? s.log.format).isSome ∧ s.Fares := by
  obtain ⟨-, hlog⟩ := Settings.load_eq_ok_iff.mp h
  obtain ⟨hlevel, hformat⟩ := LogSettings.error?_eq_none_iff.mp hlog
  have hsound := Rounds.sound_start s.serviceConfig
  refine ⟨hlevel, hformat, Settings.runnable_iff hlog, fun hsettings hstart hrun => ?served,
    fun hperiod events => ?swept, fun hperiod events => ?unswept,
    fun hperiod steps hsteps e => ?knocked, fun hperiod => ?unknocked⟩
  case served =>
    rw [Process.code_eq_zero_iff hstart hrun, hsettings]
    cases Launch.mode _ <;> rfl
  case swept =>
    have hsettled : ((RunningService.start s.serviceConfig).meetAll events).Settled s.serviceConfig :=
      RunningService.settled_meetAll (RunningService.settled_start hperiod) hperiod events
    exact fun x hx => hsettled.lt_heartbeat_add hx
  case unswept =>
    have hnone : (RunningService.start s.serviceConfig).sweeper = none := if_pos hperiod
    exact RunningService.advance_of_sweeper_eq_none
      (RunningService.sweeper_meetAll_eq_none hnone events)
  case knocked =>
    have hstart : (Rounds.start s.serviceConfig).watch.Supervises :=
      Watch.supervises_start s.serviceConfig
    exact (Rounds.supervises_run hstart hsound hperiod hsteps).filter_live_eq e
  case unknocked => exact Rounds.loops_run_eq_nil rfl hsound hperiod

/-- A file with the largest number of places and the shortest periods. -/
def eagerFile : Bytes := Utf8.encode (
  "[netzwerk]\nmax_sitzungen = 2305843009213693951\n" ++
  "[connector]\nklopf_intervall_ms = 1\nbereinigungs_intervall_ms = 1\n").toList

/-- At its bounds a file can be run. -/
theorem loaded_settings_fare_eager : ∃ s, Settings.load (some eagerFile) = .ok s ∧ s.Runnable := by
  have hload : Settings.load (some eagerFile) = .ok {
      network := { maxSessions := 2305843009213693951 }
      service := { knockInterval := 1, sweepInterval := 1 } } :=
    Settings.load_eq_ok_iff.mpr ⟨by decide +kernel, by decide +kernel⟩
  obtain ⟨-, -, hfares⟩ := loaded_settings_fare hload
  exact ⟨_, hload, hfares.runnable_iff.mpr (by decide)⟩

/-- A file with no time between two knocks. -/
def restlessFile : Bytes := Utf8.encode "[connector]\nklopf_intervall_ms = 0\n".toList

/-- A file with no time between two sweeps. -/
def ceaselessFile : Bytes := Utf8.encode "[connector]\nbereinigungs_intervall_ms = 0\n".toList

/-- A file with one place too many. -/
def crowdedFile : Bytes := Utf8.encode "[netzwerk]\nmax_sitzungen = 2305843009213693952\n".toList

/-- Files that cannot be run are accepted. -/
theorem accepted_not_runnable :
    (∃ s, Settings.load (some restlessFile) = .ok s ∧ ¬ s.Runnable) ∧
      (∃ s, Settings.load (some ceaselessFile) = .ok s ∧ ¬ s.Runnable) ∧
        ∃ s, Settings.load (some crowdedFile) = .ok s ∧ ¬ s.Runnable := by
  refine ⟨⟨{ service := { knockInterval := 0 } }, ?_, fun h => ?_⟩,
    ⟨{ service := { sweepInterval := 0 } }, ?_, fun h => ?_⟩,
    ⟨{ network := { maxSessions := 2305843009213693952 } }, ?_, fun h => ?_⟩⟩
  · exact Settings.load_eq_ok_iff.mpr ⟨by decide +kernel, by decide +kernel⟩
  · exact absurd (h.knockers 0) (by decide)
  · exact Settings.load_eq_ok_iff.mpr ⟨by decide +kernel, by decide +kernel⟩
  · exact absurd (h.sweeper 0) (by decide)
  · exact Settings.load_eq_ok_iff.mpr ⟨by decide +kernel, by decide +kernel⟩
  · exact absurd h.server (by decide)

end Ensemble
