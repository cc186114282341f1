import Ensemble.Membership.Running
import Ensemble.Program.NodeProcess

/-!
# Running the program

`Program.run?` takes a command line and what happens afterwards, and yields what the process has
done when it ends: its exit code, what it printed, and what its log holds. A process that nothing
ends has no outcome.

The exit code is 0 after a run, 1 if something failed on the way to it, and 2 for a command line
that makes no sense.
-/

namespace Ensemble

/-- Something that happens to a process from outside. -/
inductive Happening where
  /-- A line on the standard input. -/
  | line (text : List Char)
  /-- The end of the standard input. -/
  | inputEnds
  | interrupt
  deriving DecidableEq, Repr

namespace Happening

/-- A line without a carriage return at its end. -/
def lineOf (text : List Char) : Happening :=
  .line (if text.getLast? = some '\r' then text.dropLast else text)

/-- The lines of an input and its end; the last line may lack its line feed. -/
def ofInput (text : List Char) : List Happening :=
  let rows := Text.splitOn '\n' text
  -- A line feed at the very end begins no further line.
  (if rows.getLast? = some [] then rows.dropLast else rows).map lineOf ++ [.inputEnds]

end Happening

/-- The membership service as a process. -/
structure ServiceProcess where
  service : RunningService
  /-- Whether the server of the service has come up. -/
  serving : Bool
  log : List Event

namespace ServiceProcess

/-- The service begins. Its server does not come up if the settings ask for too many places. -/
def start (s : Settings) : ServiceProcess :=
  let serving := s.sessions?.isSome
  ⟨RunningService.start s.serviceConfig, serving,
    .info "Connector laeuft" :: if serving then [.info "Session-Server gestartet"] else []⟩

/-- What the log says about the end of the service; a sweeper without a period has failed. -/
def stopped (p : ServiceProcess) : List Event :=
  let sweeper : Event :=
    if p.service.sweeper.isSome then .debug "Bereinigung beendet"
    else .error "Bereinigungs-Task abgebrochen"
  NodeProcess.serverStopped ++ [sweeper, .info "Connector gestoppt"]

/-- The service ends. -/
def finish (p : ServiceProcess) : ServiceProcess :=
  let stopped := if p.serving then p.stopped else []
  { p with
    service := p.service.shutdown
    log := p.log ++ .info "Shutdown-Signal empfangen, Connector wird beendet" :: stopped }

end ServiceProcess

/-- What is running. -/
inductive Process where
  | service (process : ServiceProcess)
  | node (process : NodeProcess)

namespace Process

/-- Start what a launch asks for. -/
def start (w : Surroundings) (l : Launch) : Except Failure Process :=
  match l.mode with
  | .service _ =>
    match w.listen l.settings.serviceAddress with
    | .error e => .error e
    | .ok _ => .ok (.service (ServiceProcess.start l.settings))
  | .node _ _ =>
    match Located.resolve? l.settings.node.service.toList with
    | none => .error (.address l.settings.node.service)
    | some target =>
      match w.listen l.settings.nodeAddress with
      | .error e => .error e
      | .ok port => .ok (.node (NodeProcess.start w l.settings target port))

/-- Let one thing happen; the flag says whether the process goes on. -/
def take (w : Surroundings) : Process → Happening → Process × Bool
  | .service p, .interrupt => (.service p.finish, false)
  | .service p, _ => (.service p, true)
  | .node p, .interrupt => (.node (p.finish w .interrupt), false)
  | .node p, .inputEnds => (.node (p.note [.debug "stdin geschlossen"]), true)
  | .node p, .line text =>
    match p.typeLine w text with
    | (p, true) => (.node p, true)
    | (p, false) => (.node (p.finish w .quit), false)

/-- Let things happen until the process ends, if it does. -/
def run? (w : Surroundings) : Process → List Happening → Option Process
  | _, [] => none
  | p, h :: rest =>
    match p.take w h with
    | (p, true) => run? w p rest
    | (p, false) => some p

/-- Time goes by. -/
def advance (p : Process) (ms : Nat) : Process :=
  match p with
  | .service s => .service { s with service := (s.service.advancePiece ms).1 }
  | .node n => .node (n.advance ms)

/-- The printed lines. -/
def printed : Process → List String
  | .service _ => []
  | .node p => p.printed

/-- Whether the server has come up. -/
def serving : Process → Bool
  | .service p => p.serving
  | .node p => p.serving

/-- What was noted. -/
def log : Process → List Event
  | .service p => p.log
  | .node p => p.log

/-- The requests that the membership service has read. -/
def requests : Process → List Bytes
  | .service _ => []
  | .node p => p.requests

end Process

/-- What a process has done. -/
structure Outcome where
  code : Nat
  /-- What stands on the standard output, log lines apart. -/
  output : String
  /-- What stands on the standard error output. -/
  complaint : Option String
  requests : List Bytes
  /-- What was settled before the run, if that went well; it says where the log is. -/
  launch : Option Launch
  /-- The events that the log holds. -/
  log : List Event

/-- The first event of every run. -/
def begun : Event := .info "Gleichklang wird initialisiert"

namespace Outcome

/-- The outcome of printing alone. -/
def printing (text : String) : Outcome := ⟨0, text, none, [], none, []⟩

/-- The outcome of a command line that makes no sense. -/
def misuse (e : UsageError) : Outcome := ⟨2, "", some e.message, [], none, []⟩

/-- The outcome of a failure, after which the log holds some events. -/
def failed (e : Failure) (launch : Option Launch) (log : List Event) : Outcome :=
  ⟨1, "", some ("Error: " ++ e.message), [], launch, log⟩

/-- The outcome of a process that has ended; without a server it has failed, but runs to its end. -/
def ended (launch : Launch) (p : Process) : Outcome :=
  ⟨if p.serving then 0 else 1, String.join (p.printed.map (· ++ "\n")), none, p.requests,
    some launch, launch.filter.keep (begun :: p.log)⟩

end Outcome

namespace Program

/-- The file with the settings: the one that the command line names, or else the environment. -/
def settingsFile (w : Surroundings) (named : Option String) : Except UsageError String :=
  match named, w.environment "GK_CONFIG" with
  | some path, _ => .ok path
  | none, some path => Arguments.path "--config" path
  | none, none => .ok defaultSettingsFile

/-- Start a mode with the settings in a file; where that fails there is an outcome already. -/
def startMode (w : Surroundings) (path : String) (mode : Mode) :
    Except Outcome (Launch × Process) :=
  match Launch.prepare w path mode with
  | .error e => .error (Outcome.failed e none [])
  | .ok launch =>
    match Process.start w launch with
    | .error e => .error (Outcome.failed e (some launch) (launch.filter.keep [begun]))
    | .ok process => .ok (launch, process)

/-- Start what a command line asks for. -/
def start (w : Surroundings) (words : List String) : Except Outcome (Launch × Process) :=
  match Arguments.parse words with
  | .error e => .error (Outcome.misuse e)
  | .ok (.help topic) =>
    .error (Outcome.printing (topic.text ((w.environment "GK_CONFIG").getD "")))
  | .ok .version => .error (Outcome.printing versionText)
  | .ok (.run named mode) =>
    match settingsFile w named with
    | .error e => .error (Outcome.misuse e)
    | .ok path => startMode w path mode

/-- Run the program. -/
def run? (w : Surroundings) (words : List String) (happenings : List Happening) : Option Outcome :=
  match start w words with
  | .error outcome => some outcome
  | .ok (launch, process) => (process.run? w happenings).map (Outcome.ended launch)

end Program

end Ensemble
