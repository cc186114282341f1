import Ensemble.Node.Journal
import Ensemble.Program.Launch

/-!
# A node with a console

A `NodeProcess` is a node with its timer, the service that it registers with, and what it has
printed, noted and asked so far. It registers once at its beginning; if that fails it plays alone,
and only the command `register` tries again. When it leaves it deregisters if it is registered.
-/

namespace Ensemble

/-- A node that is controlled from a console. -/
structure NodeProcess where
  station : Station
  /-- Where the membership service is reached. -/
  service : Located
  /-- Whether the server of the node has come up. -/
  serving : Bool
  /-- The printed lines. -/
  printed : List String
  log : List Event
  /-- The requests that the membership service has read. -/
  requests : List Bytes

/-- What ends a process. -/
inductive Ending where
  /-- The command `quit`. -/
  | quit
  /-- A signal. -/
  | interrupt
  deriving DecidableEq, Repr

namespace NodeProcess

/-- Print a line. -/
def print (p : NodeProcess) (line : String) : NodeProcess :=
  { p with printed := p.printed ++ [line] }

/-- Note events. -/
def note (p : NodeProcess) (events : List Event) : NodeProcess := { p with log := p.log ++ events }

/-- The name of the membership service in messages. -/
def target (p : NodeProcess) : String := String.ofList p.service.render

/-- How the membership service behaves. -/
def remote (w : Surroundings) (p : NodeProcess) : Remote := w.remote p.service.endpoint

/-- The node has become another one while some milliseconds went by; then the timer runs. -/
def become (p : NodeProcess) (node : Node) (elapsed : Nat) : NodeProcess :=
  let woken := { p.station with node, now := p.station.now + elapsed }
  { p.note (woken.deck.settleEvents woken.tick woken.now) with station := woken.settle }

/-- An exchange with the membership service has come to an end. -/
def afterContact (p : NodeProcess) (contact : Node.Contact) (events : List Event) : NodeProcess :=
  let p := { p with requests := p.requests ++ contact.request.toList }
  (p.note events).become contact.node contact.elapsed

/-- What the log says if the registration at the beginning fails. -/
def registrationFailed : Event :=
  .warn "Registrierung fehlgeschlagen, Knoten spielt lokal (mit 'register' erneut versuchen)"

/-- Register at the beginning. -/
def registerFirst (w : Surroundings) (p : NodeProcess) : NodeProcess :=
  let contact := p.station.node.register (p.remote w)
  let failed := if contact.error.isSome then [registrationFailed] else []
  p.afterContact contact (Node.registerEvents contact ++ failed)

/-- A node that listens at `port` and registers with `service`. Its server does not come up if the
settings ask for too many places. -/
def start (w : Surroundings) (s : Settings) (service : Located) (port : UInt16) : NodeProcess :=
  let song := s.player.startSong
  let serving := s.sessions?.isSome
  let deck : Deck := ⟨Player.start song, none, false⟩
  let begun : NodeProcess := {
    station := Station.start (s.nodeConfig port) s.player.tick song
    service
    serving
    printed := []
    log := .info "MusicPlayer gestartet" :: deck.settleEvents s.player.tick 0 ++
      .info "Knoten laeuft" :: (if serving then [.info "Session-Server gestartet"] else [])
    requests := [] }
  (begun.registerFirst w).print Command.helpText

/-- Carry out a command. -/
def carryOut (w : Surroundings) (p : NodeProcess) (command : Command) : NodeProcess :=
  let node := p.station.node
  let effect := Console.execute p.target (p.remote w) node command
  let deliveries := effect.sent.flatMap fun parcel =>
    deliveryEvents node.config.timeLimit parcel.bytes (w.remote parcel.target)
  let p := (p.note (node.commandEvents (p.remote w) command ++ deliveries)).become effect.node
    effect.elapsed
  { p with
    printed := p.printed ++ effect.printed
    requests := p.requests ++ effect.request.toList }

/-- A line is typed; an empty one is passed over. The flag says whether the console goes on. -/
def typeLine (w : Surroundings) (p : NodeProcess) (line : List Char) : NodeProcess × Bool :=
  match Command.parse line with
  | .ok .quit => (p, false)
  | .ok command => (p.carryOut w command, true)
  | .error .empty => (p, true)
  | .error e => (p.print e.message, true)

/-- Time goes by. -/
def advance (p : NodeProcess) (ms : Nat) : NodeProcess :=
  let s := p.station
  { p.note (s.deck.advanceEvents s.tick s.now ms) with
    station := (s.playerStep (.advance ms)).1 }

/-- What the log says about the end of a server. -/
def serverStopped : List Event :=
  [.info "Session-Server: Shutdown-Signal empfangen", .info "Session-Server gestoppt"]

/-- What the log says about the end. -/
def endingEvent : Ending → Event
  | .quit => .info "Konsole beendet"
  | .interrupt => .info "Shutdown-Signal empfangen, Knoten wird beendet"

/-- Deregister, if the node is registered. -/
def deregisterLast (w : Surroundings) (p : NodeProcess) : NodeProcess :=
  if p.station.node.view.ownId.isNone then p
  else
    let contact := p.station.node.deregister (p.remote w)
    let failed := if contact.error.isSome then [.warn "Abmeldung fehlgeschlagen"] else []
    p.afterContact contact (Node.deregisterEvents contact ++ failed)

/-- The end of the process. -/
def finish (w : Surroundings) (p : NodeProcess) (ending : Ending) : NodeProcess :=
  let p := (p.note [endingEvent ending]).deregisterLast w
  let stopped := if p.serving then serverStopped else []
  let p := p.note (stopped ++ [.info "MusicPlayer gestoppt"])
  { p with station := (p.station.playerStep .stop).1 }

end NodeProcess

end Ensemble
