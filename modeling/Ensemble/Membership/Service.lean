import Ensemble.Membership.Knockers
import Ensemble.Message.Decode
import Ensemble.Message.Parcel
import Ensemble.Transport.Exchange

/-!
# The membership service

The `Service` keeps the registry and tells every member about each change of it. A peer that
connects is answered with its own id and the table, and the table goes to all; a peer that
disconnects, or that is found silent by a sweep, is removed, and the table goes to all that
remain. A status is a sign of life of its sender's address. Every other message is ignored.
-/

namespace Ensemble

/-- How the service is set up; all times are in milliseconds. -/
structure ServiceConfig where
  /-- The time between two knocks at one peer. -/
  knockInterval : Nat
  /-- For how long a peer may be silent. -/
  heartbeatTimeout : Nat
  /-- The time between two sweeps. -/
  sweepInterval : Nat
  /-- The time limit for outgoing exchanges. -/
  timeLimit : Nat
  maxPeers : Nat
  deriving DecidableEq, Repr

/-- The membership service. -/
structure Service where
  config : ServiceConfig
  registry : Registry
  knockers : Knockers
  deriving DecidableEq, Repr

/-- What the service learns about the moment in which a message is handled: the time, whether a
scheduler is running on which a task can be started, and the ids that are drawn. -/
structure Moment where
  now : Nat
  running : Bool
  draw : Nat → PeerId

namespace Service

/-- What became of a message: the service afterwards, the answer to the sender, and
what was sent. -/
structure Reaction where
  service : Service
  answer : Answer
  sent : List Parcel

/-- The service before any registration. -/
def start (config : ServiceConfig) : Service :=
  ⟨config, Registry.empty config.maxPeers, Knockers.empty⟩

/-- The answer to a peer that is registered with `own`. -/
def welcome (own : PeerId) (table : PeerTable) : Answer :=
  match (Message.clientList own table).encode with
  | .ok bytes => ⟨true, bytes⟩
  | .error _ => Answer.none

/-- A peer that listens at `e` connects. -/
def onConnect (s : Service) (moment : Moment) (e : Endpoint) : Reaction :=
  match s.registry.register moment.now moment.draw e with
  | (registry, outcome, _) =>
    match outcome.peer? with
    -- The table is full: the peer is left without an answer.
    | none => ⟨s, Answer.none, []⟩
    | some own =>
      let (knockers, _) := s.knockers.ensure registry moment.running e
      ⟨{ s with registry, knockers }, welcome own.id registry.table, broadcast registry.peers⟩

/-- A peer that listens at `e` disconnects. -/
def onDisconnect (s : Service) (e : Endpoint) : Service × List Parcel :=
  match s.registry.remove e with
  | (registry, some _) => ({ s with registry }, broadcast registry.peers)
  | (_, none) => (s, [])

/-- What the service does with a message. -/
def handle (s : Service) (moment : Moment) (m : Message) (sender : Endpoint) : Reaction :=
  match m with
  | .connect listenPort => s.onConnect moment ⟨sender.address, listenPort⟩
  | .disconnect listenPort =>
    let (s, sent) := s.onDisconnect ⟨sender.address, listenPort⟩
    ⟨s, Answer.none, sent⟩
  | .sendStatus _ =>
    let (registry, _) := s.registry.heartbeatFrom moment.now sender.address
    ⟨{ s with registry }, Answer.none, []⟩
  | _ => ⟨s, Answer.none, []⟩

/-- What the service does with received bytes; bytes that are no message have no effect. -/
def receive (s : Service) (moment : Moment) (bytes : Bytes) (sender : Endpoint) : Reaction :=
  match Message.decode bytes with
  | .ok m => s.handle moment m sender
  | .error _ => ⟨s, Answer.none, []⟩

/-- The handler of a session with `sender`; the state is the service and what it has sent so far. -/
def sessionHandler (moment : Moment) (sender : Endpoint) : Handler (Service × List Parcel) :=
  fun (s, sent) bytes =>
    let reaction := s.receive moment bytes sender
    ((reaction.service, sent ++ reaction.sent), reaction.answer)

/-- Remove the silent peers at the time `now`; the number says how many there were. -/
def sweep (s : Service) (now : Nat) : Service × Nat × List Parcel :=
  match s.registry.sweep now s.config.heartbeatTimeout with
  | (_, []) => (s, 0, [])
  | (registry, gone) => ({ s with registry }, gone.length, broadcast registry.peers)

/-- Stop knocking for good; entries that are added later get no knocker either. -/
def close (s : Service) : Service :=
  let registry := s.registry.cancelRoot
  let (knockers, tokens) := s.knockers.stopAll registry.tokens
  { s with registry := { registry with tokens }, knockers }

/-- How many knockers are live. -/
def knockerCount (s : Service) : Nat := s.knockers.count s.registry.tokens

/-- Whether the knocker of an endpoint is live. -/
def isKnocking (s : Service) (e : Endpoint) : Bool := s.knockers.isLive s.registry.tokens e

end Service

end Ensemble
