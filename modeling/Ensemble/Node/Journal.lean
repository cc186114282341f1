import Ensemble.Console.Command
import Ensemble.Node.Station
import Ensemble.Playback.Journal

/-!
# What a node notes

The events of a node's local operations and of its exchanges, each from the state before or from
what the exchange came to.
-/

namespace Ensemble

/-- The events of applying a control operation to a player. -/
def ControlOp.events : ControlOp → Player → List Event
  | .start, p => p.setPausedEvents false
  | .stop, p => p.setPausedEvents true
  | .skip, p => p.skipEvents

namespace Node

/-- Whether a control operation goes to another node that is the coordinator. -/
def forwards (n : Node) : Bool :=
  match n.view.ownId, n.view.coordinator with
  | some id, some leader => leader.id != id
  | _, _ => false

/-- The events of a control operation that is given at this node. -/
def controlEvents (n : Node) (op : ControlOp) : List Event :=
  if n.forwards then [.debug "Steuerbefehl an Koordinator"] else op.events n.player

/-- The events of an exchange that was not over in time. -/
def timeoutEvents (contact : Contact) : List Event :=
  match contact.error with
  | some (.transport (.timeout _)) =>
    if contact.request.isNone then [.debug "Verbindungsaufbau: Zeitlimit"]
    else [.debug "Antwort: Zeitlimit"]
  | _ => []

/-- The events of a registration. -/
def registerEvents (contact : Contact) : List Event :=
  match contact.error with
  | none => [.info "Beim Connector registriert"]
  | some (.transport (.timeout _)) =>
    timeoutEvents contact ++
      (if contact.request.isNone then [.warn "Registrierung: Zeitlimit"] else [])
  | some _ => []

/-- The events of leaving the group. -/
def deregisterEvents (contact : Contact) : List Event :=
  match contact.error with
  | none => [.info "Beim Connector abgemeldet"]
  | some _ => timeoutEvents contact

/-- The events of a command. -/
def commandEvents (n : Node) (remote : Remote) : Command → List Event
  | .togglePause => n.controlEvents (if n.player.paused then .start else .stop)
  | .start => n.controlEvents .start
  | .stop => n.controlEvents .stop
  | .skip => n.controlEvents .skip
  | .add _ => n.player.enqueueEvents
  | .register => registerEvents (n.register remote)
  | .status => []
  | .help => []
  | .quit => []

end Node

/-- The events of sending bytes to a target that behaves as `remote`. -/
def deliveryEvents (limit : Nat) (bytes : Bytes) (remote : Remote) : List Event :=
  let exchange := Exchange.post bytes limit remote
  match exchange.error with
  | none => []
  | some (.timeout _) =>
    (if exchange.request.isNone then
      [.debug "Verbindungsaufbau: Zeitlimit", .debug "Zustellung: Zeitlimit"]
    else [.debug "Antwort: Zeitlimit"]) ++ [.debug "Zustellung fehlgeschlagen"]
  | some (.unreachable _) => [.debug "Zustellung fehlgeschlagen"]

end Ensemble
