import Ensemble.Node.Handler

/-!
# Joining and leaving the group

A node registers by an exchange with the membership service. Only a reply that is the node's own
table changes anything, and then it is taken over as it is; every other end of the exchange leaves
the node as it was and is a `NodeError`. Leaving forgets the id and the table whatever the service
says.
-/

namespace Ensemble

/-- Why a node could not register or leave. -/
inductive NodeError where
  | transport (cause : TransportError)
  | noAnswer
  | unexpected (kind : MessageKind)
  | decode (cause : DecodeError)
  | encode (cause : EncodeError)
  deriving DecidableEq, Repr

/-- The wording of an error in an exchange with `target`. -/
def NodeError.message (target : String) : NodeError → String
  | .transport cause => "Transportfehler: " ++ cause.message target
  | .noAnswer => "Keine Antwort vom Connector"
  | .unexpected kind => "Unerwartete Antwort vom Typ " ++ kind.name
  | .decode cause => "Antwort nicht dekodierbar: " ++ cause.message
  | .encode cause => "Nachricht nicht kodierbar: " ++ cause.message

namespace Node

/-- What an exchange with the service did to a node. -/
structure Contact where
  node : Node
  error : Option NodeError
  /-- What the service read, if a connection came about. -/
  request : Option Bytes
  /-- The milliseconds that went by. -/
  elapsed : Nat

/-- The handler of an exchange: the first call writes the request, a second one keeps the reply. -/
def requestHandler (request : Bytes) : Handler (Option (Except DecodeError Message)) :=
  fun reply received =>
    if received.isEmpty then (reply, ⟨true, request⟩)
    else (some (Message.decode received), Answer.none)

/-- Send a message to the service and keep what it replies. -/
def ask (n : Node) (request : Bytes) (remote : Remote) :
    Exchange (Option (Except DecodeError Message)) :=
  Exchange.run (requestHandler request) n.config.timeLimit none remote

/-- Register with the service. -/
def register (n : Node) (remote : Remote) : Contact :=
  match (Message.connect n.config.listenPort).encode with
  | .error e => ⟨n, some (.encode e), none, 0⟩
  | .ok request =>
    let exchange := n.ask request remote
    let contact := fun (node : Node) (error : Option NodeError) =>
      Contact.mk node error exchange.request exchange.elapsed
    match exchange.error, exchange.state with
    | some e, _ => contact n (some (.transport e))
    | none, none => contact n (some .noAnswer)
    | none, some (.error e) => contact n (some (.decode e))
    | none, some (.ok (.clientList ownId table)) =>
      contact { n with view := View.adopt ownId table } none
    | none, some (.ok m) => contact n (some (.unexpected m.kind))

/-- Leave the group. -/
def deregister (n : Node) (remote : Remote) : Contact :=
  match (Message.disconnect n.config.listenPort).encode with
  | .error e => ⟨n.forget, some (.encode e), none, 0⟩
  | .ok request =>
    let exchange := n.ask request remote
    ⟨n.forget, exchange.error.map .transport, exchange.request, exchange.elapsed⟩

end Node

end Ensemble
