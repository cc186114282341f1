import Ensemble.Address.Resolve
import Ensemble.Journal.Filter
import Ensemble.Program.Arguments
import Ensemble.Settings

/-!
# Preparing a run

A `Launch` is all that is settled before anything runs: the mode, the settings with what the command
line replaces, and the log. `Surroundings` are what a process finds around it; every answer of the
operating system comes from there.

The level and the format of the log that the environment names come before those of the settings.
-/

namespace Ensemble

/-- What a path leads to. -/
inductive FileContent where
  | missing
  | bytes (content : Bytes)
  | unreadable (cause : SystemError)
  deriving DecidableEq, Repr

/-- What a process finds around it. -/
structure Surroundings where
  /-- The value of a variable of the environment. -/
  environment : String → Option String
  file : String → FileContent
  /-- Whether a log can be written to a path. -/
  writable : String → Bool
  /-- The port at which a server then listens. -/
  bind : Located → Except SystemError UInt16
  /-- How the other side of an exchange behaves. -/
  remote : Endpoint → Remote

/-- Why a process cannot run. -/
inductive Failure where
  | unreadable (path : String) (cause : SystemError)
  | settings (path : String) (cause : SettingsError)
  | log (path : String)
  | address (text : String)
  | bind (address : Located) (cause : SystemError)
  deriving DecidableEq, Repr

/-- The wording of a failure. -/
def Failure.message : Failure → String
  | .unreadable path cause => s!"Konfigurationsdatei '{path}' nicht lesbar: {cause.message}"
  | .settings path cause => cause.message path
  | .log path => s!"Log-Datei {path} nicht zu oeffnen"
  | .address text => unresolvedMessage text
  | .bind place cause =>
    s!"Bind auf {String.ofList place.render} fehlgeschlagen: {cause.message}"

/-- The file that holds the settings if none is named. -/
def defaultSettingsFile : String := "gleichklang.toml"

/-- The settings with what a mode replaces. -/
def Mode.override (s : Settings) : Mode → Settings
  | .service port =>
    { s with network := { s.network with servicePort := port.getD s.network.servicePort } }
  | .node target port =>
    { s with
      network := { s.network with nodePort := port.getD s.network.nodePort }
      node := { s.node with service := target.getD s.node.service } }

/-- What is settled before anything runs. -/
structure Launch where
  mode : Mode
  settings : Settings
  filter : LogFilter
  /-- Whether the log is written as JSON. -/
  json : Bool

namespace Launch

/-- The settings in a file. -/
def readSettings (w : Surroundings) (path : String) : Except Failure Settings :=
  let loaded (content : Option Bytes) : Except Failure Settings :=
    match Settings.load content with
    | .ok s => .ok s
    | .error e => .error (.settings path e)
  match w.file path with
  | .missing => loaded none
  | .bytes content => loaded (some content)
  | .unreadable cause => .error (.unreadable path cause)

/-- Which events the log holds. -/
def filterOf (w : Surroundings) (s : Settings) : LogFilter :=
  -- A filter that cannot be read is passed over.
  match (w.environment "GK_LOG_LEVEL").bind fun text => LogFilter.parse? text.toList with
  | some filter => filter
  | none => LogFilter.ofLevel ((LogLevel.ofName? s.log.level).getD .info)

/-- Settle everything for a mode, with the settings in a file. -/
def prepare (w : Surroundings) (path : String) (mode : Mode) : Except Failure Launch :=
  match readSettings w path with
  | .error e => .error e
  | .ok s =>
    let s := mode.override s
    let format := (w.environment "GK_LOG_FORMAT").getD s.log.format
    let launch : Launch := ⟨mode, s, filterOf w s, format == "json"⟩
    match s.log.file with
    | none => .ok launch
    | some file => if w.writable file then .ok launch else .error (.log file)

end Launch

/-- Resolve an address and listen there. -/
def Surroundings.listen (w : Surroundings) (text : String) : Except Failure UInt16 :=
  match Located.resolve? text.toList with
  | none => .error (.address text)
  | some address =>
    match w.bind address with
    | .ok port => .ok port
    | .error cause => .error (.bind address cause)

end Ensemble
