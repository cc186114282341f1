import Ensemble.Logging
import Ensemble.Membership.Service
import Ensemble.Node.Basic
import Ensemble.Text.Utf8
import Ensemble.Toml.Document
import Ensemble.Transport.Sessions

/-!
# Settings

The settings of a process are read from a TOML document with one table per section. Every section
and every field has a default, and a name that means nothing is ignored. A section that is written
as an array gives its fields in their order. All times are whole milliseconds unless a name says
otherwise.

`Settings.load` reads the file; the level and the format of the log are checked last, once all types
and ranges are right.
-/

namespace Ensemble

/-- Where the servers listen, and the limits of their connections. -/
structure NetworkSettings where
  bindHost : String := "0.0.0.0"
  /-- The port of the membership service. -/
  servicePort : UInt16 := 1738
  /-- The port on which a node listens. -/
  nodePort : UInt16 := 43210
  /-- The time limit for outgoing exchanges. -/
  timeLimit : Nat := 1000
  /-- How many sessions may be open at once. -/
  maxSessions : Nat := 64
  /-- For how long a session may be silent. -/
  idleLimit : Nat := 5000
  deriving DecidableEq, Repr

/-- How the membership service works. -/
structure ServiceSettings where
  knockInterval : Nat := 1000
  heartbeatTimeout : Nat := 3000
  sweepInterval : Nat := 2000
  maxPeers : Nat := Ensemble.maxPeers
  deriving DecidableEq, Repr

/-- How a node works. -/
structure NodeSettings where
  /-- The address of the membership service. -/
  service : String := "127.0.0.1:1738"
  /-- By how many seconds two statuses may differ and still agree. -/
  tolerance : UInt32 := 1
  /-- Take over a status only from the coordinator. -/
  coordinatorOnly : Bool := false
  /-- The seconds between two lines about the node in the log; none are written if it is zero. -/
  displayInterval : Nat := 5
  deriving DecidableEq, Repr

/-- How the player begins. -/
structure PlayerSettings where
  startSong : SongId := 1
  /-- The length of a second. -/
  tick : Nat := 1000
  deriving DecidableEq, Repr

/-- Where the log goes and what it holds. -/
structure LogSettings where
  level : String := "info"
  format : String := "text"
  /-- The file to write to, instead of the standard output. -/
  file : Option String := none
  deriving DecidableEq, Repr

/-- The settings of a process. -/
structure Settings where
  network : NetworkSettings := {}
  service : ServiceSettings := {}
  node : NodeSettings := {}
  player : PlayerSettings := {}
  log : LogSettings := {}
  deriving DecidableEq, Repr

/-- Why a log cannot be kept as the settings say. -/
inductive LogError where
  | level (name : String)
  | format (name : String)
  deriving DecidableEq, Repr

/-- The wording of an error in the settings of the log. -/
def LogError.message : LogError → String
  | .level name => s!"[logging] level '{name}' ungueltig (trace, debug, info, warn, error)"
  | .format name => s!"[logging] format '{name}' ungueltig (text, json)"

/-- Why a file gives no settings. -/
inductive SettingsError where
  /-- The file is no text. -/
  | unreadable
  /-- The text is no TOML document, or an item has the wrong type or is out of range. -/
  | document
  | log (cause : LogError)
  deriving DecidableEq, Repr

/-- The wording of an error in the file at `path`. -/
def SettingsError.message (path : String) : SettingsError → String
  | .unreadable =>
    s!"Konfigurationsdatei '{path}' nicht lesbar: stream did not contain valid UTF-8"
  | .document => s!"Konfigurationsfehler in '{path}': TOML parse error"
  | .log cause => s!"Konfigurationsfehler in '{path}': {cause.message}"

/-! ## Fields -/

namespace Toml.Item

/-- The text of a string. -/
def text? : Item → Option String
  | .string text => some (String.ofList text)
  | _ => none

/-- A truth value. -/
def flag? : Item → Option Bool
  | .boolean value => some value
  | _ => none

/-- An integer from `low` to `high`. -/
def between? (low high : Int) : Item → Option Int
  | .integer n => if low ≤ n ∧ n ≤ high then some n else none
  | _ => none

/-- An integer that is not negative. -/
def natural? : Item → Option Nat
  | .integer n => if 0 ≤ n then some n.toNat else none
  | _ => none

/-- An integer that fits in sixteen bits. -/
def word16? (item : Item) : Option UInt16 :=
  (item.between? 0 65535).map fun n => UInt16.ofNat n.toNat

/-- An integer that fits in 32 bits. -/
def word32? (item : Item) : Option UInt32 :=
  (item.between? 0 4294967295).map fun n => UInt32.ofNat n.toNat

/-- An integer that fits in 32 bits, one of them for the sign. -/
def int32? (item : Item) : Option Int32 :=
  (item.between? (-2147483648) 2147483647).map Int32.ofInt

end Toml.Item

/-- What a section says about its fields. -/
inductive FieldSource where
  /-- The fields stand by their names. -/
  | named (entries : Toml.Entries)
  /-- The fields stand in their order. -/
  | ordered (items : List Toml.Item)

namespace FieldSource

/-- The fields of an item; a date has none. -/
def ofItem? : Toml.Item → Option FieldSource
  | .table _ entries => some (.named entries)
  -- Items beyond the last field are passed over.
  | .array items => some (.ordered items)
  | .tables elements => some (.ordered (elements.map (.table .headed)))
  | .datetime => some (.named [])
  | _ => none

/-- The item of the field that has a place and a name. -/
def find? (place : Nat) (name : String) : FieldSource → Option Toml.Item
  | .named entries => entries.find? name.toList
  | .ordered items => items[place]?

/-- Read a field, which has a value of its own if it is missing. -/
def read {α : Type} (s : FieldSource) (place : Nat) (name : String)
    (reader : Toml.Item → Option α) (missing : α) : Option α :=
  match s.find? place name with
  | some item => reader item
  | none => some missing

end FieldSource

/-! ## Sections -/

/-- Read the section about the network. -/
def NetworkSettings.read? (s : FieldSource) : Option NetworkSettings := do
  let d : NetworkSettings := {}
  some {
    bindHost := ← s.read 0 "bind_adresse" (·.text?) d.bindHost
    servicePort := ← s.read 1 "connector_port" (·.word16?) d.servicePort
    nodePort := ← s.read 2 "listener_port" (·.word16?) d.nodePort
    timeLimit := ← s.read 3 "verbindungs_zeitlimit_ms" (·.natural?) d.timeLimit
    maxSessions := ← s.read 4 "max_sitzungen" (·.natural?) d.maxSessions
    idleLimit := ← s.read 5 "leerlauf_zeitlimit_ms" (·.natural?) d.idleLimit }

/-- Read the section about the membership service. -/
def ServiceSettings.read? (s : FieldSource) : Option ServiceSettings := do
  let d : ServiceSettings := {}
  some {
    knockInterval := ← s.read 0 "klopf_intervall_ms" (·.natural?) d.knockInterval
    heartbeatTimeout := ← s.read 1 "herzschlag_timeout_ms" (·.natural?) d.heartbeatTimeout
    sweepInterval := ← s.read 2 "bereinigungs_intervall_ms" (·.natural?) d.sweepInterval
    maxPeers := ← s.read 3 "max_peers" (·.natural?) d.maxPeers }

/-- Read the section about a node. -/
def NodeSettings.read? (s : FieldSource) : Option NodeSettings := do
  let d : NodeSettings := {}
  some {
    service := ← s.read 0 "connector" (·.text?) d.service
    tolerance := ← s.read 1 "elapsed_toleranz_sek" (·.word32?) d.tolerance
    coordinatorOnly := ← s.read 2 "status_nur_vom_koordinator" (·.flag?) d.coordinatorOnly
    displayInterval := ← s.read 3 "anzeige_intervall_sek" (·.natural?) d.displayInterval }

/-- Read the section about the player. -/
def PlayerSettings.read? (s : FieldSource) : Option PlayerSettings := do
  let d : PlayerSettings := {}
  some {
    startSong := ← s.read 0 "start_song" (·.int32?) d.startSong
    tick := ← s.read 1 "tick_ms" (·.natural?) d.tick }

/-- Read the section about the log. -/
def LogSettings.read? (s : FieldSource) : Option LogSettings := do
  let d : LogSettings := {}
  some {
    level := ← s.read 0 "level" (·.text?) d.level
    format := ← s.read 1 "format" (·.text?) d.format
    file := ← s.read 2 "datei" (fun item => item.text?.map some) d.file }

/-- The first of the names in the settings of the log that names nothing. -/
def LogSettings.error? (s : LogSettings) : Option LogError :=
  if (LogLevel.ofName? s.level).isNone then some (.level s.level)
  else if (LogFormat.ofName? s.format).isNone then some (.format s.format)
  else none

namespace Settings

/-- The settings of a document. -/
def ofDocument? (entries : Toml.Entries) : Option Settings := do
  let part {α : Type} (name : String) (reader : FieldSource → Option α) (missing : α) : Option α :=
    (FieldSource.named entries).read 0 name
      (fun item => (FieldSource.ofItem? item).bind reader) missing
  some {
    network := ← part "netzwerk" NetworkSettings.read? {}
    service := ← part "connector" ServiceSettings.read? {}
    node := ← part "listener" NodeSettings.read? {}
    player := ← part "player" PlayerSettings.read? {}
    log := ← part "logging" LogSettings.read? {} }

/-- The settings of a text. -/
def ofText (text : List Char) : Except SettingsError Settings :=
  match (Toml.parse? text).bind ofDocument? with
  | none => .error .document
  | some s =>
    match s.log.error? with
    | some e => .error (.log e)
    | none => .ok s

/-- Load the settings from the bytes of a file; without a file all of them are the defaults. -/
def load : Option Bytes → Except SettingsError Settings
  | none => .ok {}
  | some bytes =>
    match Utf8.decode? bytes with
    | none => .error .unreadable
    | some text => ofText text

/-! ## What the parts of a process are told -/

/-- Where the membership service listens. -/
def serviceAddress (s : Settings) : String :=
  s!"{s.network.bindHost}:{s.network.servicePort.toNat}"

/-- Where a node listens. -/
def nodeAddress (s : Settings) : String :=
  s!"{s.network.bindHost}:{s.network.nodePort.toNat}"

/-- How the membership service is set up. -/
def serviceConfig (s : Settings) : ServiceConfig where
  knockInterval := s.service.knockInterval
  heartbeatTimeout := s.service.heartbeatTimeout
  sweepInterval := s.service.sweepInterval
  timeLimit := s.network.timeLimit
  maxPeers := s.service.maxPeers

/-- The sessions of the server that either of them runs, unless there are to be too many. -/
def sessions? (s : Settings) : Option Sessions :=
  Sessions.start? s.network.maxSessions s.network.idleLimit

/-- How a node is set up that listens at `port`. -/
def nodeConfig (s : Settings) (port : UInt16) : NodeConfig where
  listenPort := port
  timeLimit := s.network.timeLimit
  tolerance := s.node.tolerance
  coordinatorOnly := s.node.coordinatorOnly

end Settings

end Ensemble
