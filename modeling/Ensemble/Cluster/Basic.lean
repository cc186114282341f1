import Ensemble.Membership.Service
import Ensemble.Node.Station

/-!
# Clusters

A `Cluster` is one membership service, several members, and the letters on their way. All outboxes
feed one queue; `Cluster.deliver` takes its first letter to the member with that endpoint, whose
own letters go to the end. A letter to a member that is cut off is lost, but such a member can
still send.

`Cluster.drain` delivers until no letter is left, up to `maxDeliveries`.
-/

namespace Ensemble

/-- A parcel with its sender. -/
structure Letter where
  source : Endpoint
  parcel : Parcel
  deriving DecidableEq, Repr

/-- A node in the cluster, the endpoint at which it is reached, and whether it is. -/
structure Member where
  endpoint : Endpoint
  station : Station
  connected : Bool
  deriving DecidableEq, Repr

/-- One membership service and the members of its group. -/
structure Cluster where
  service : Service
  members : List Member
  inFlight : List Letter
  now : Nat
  deriving DecidableEq, Repr

/-- What became of a letter. -/
structure Delivery where
  letter : Letter
  delivered : Bool
  deriving DecidableEq, Repr

namespace Cluster

/-- Where the service sends from. -/
def serviceEndpoint : Endpoint := ⟨.v4 ⟨10, 255, 0, 1⟩, 1738⟩

/-- How many letters are delivered at most after one step. -/
def maxDeliveries : Nat := 400

/-- The service before any registration, and members that have not registered. -/
def start (config : ServiceConfig) (members : List Member) : Cluster :=
  ⟨Service.start config, members, [], 0⟩

/-- Letters to send, put at the end of the queue. -/
def send (c : Cluster) (source : Endpoint) (parcels : List Parcel) : Cluster :=
  { c with inFlight := c.inFlight ++ parcels.map (⟨source, ·⟩) }

/-- Replace the station of the `n`-th member. -/
def setStation (c : Cluster) (n : Nat) (s : Station) : Cluster :=
  { c with members := c.members.modify n fun m => { m with station := s } }

/-- The place of the connected member with an endpoint. -/
def place? (c : Cluster) (e : Endpoint) : Option Nat :=
  c.members.findIdx? fun m => m.connected && m.endpoint == e

/-- Something happens at the `n`-th member. -/
def actAt (c : Cluster) (n : Nat) (step : StationStep) : Cluster × Option StationAnswer :=
  match c.members[n]? with
  | none => (c, none)
  | some m =>
    let (station, answer, sent) := m.station.step "<connector>" step
    ((c.setStation n station).send m.endpoint sent, some answer)

/-- Deliver one letter; a reply to it is dropped. -/
def deliver (c : Cluster) (l : Letter) : Cluster × Delivery :=
  match c.place? l.parcel.target with
  | none => (c, ⟨l, false⟩)
  | some n => ((c.actAt n (.receive l.source l.parcel.bytes)).1, ⟨l, true⟩)

/-- Deliver letters from the front of the queue, at most `fuel` of them. -/
def drainWithin : Nat → Cluster → Cluster × List Delivery
  | 0, c => (c, [])
  | fuel + 1, c =>
    match c.inFlight with
    | [] => (c, [])
    | l :: rest =>
      -- What the delivery causes goes to the end of the queue.
      let (c, d) := { c with inFlight := rest }.deliver l
      let (c, ds) := drainWithin fuel c
      (c, d :: ds)

/-- Deliver until no letter is left. The flag says whether letters were left over, which are then
thrown away. -/
def drain (c : Cluster) : Cluster × List Delivery × Bool :=
  let (c, ds) := drainWithin maxDeliveries c
  ({ c with inFlight := [] }, ds, !c.inFlight.isEmpty)

end Cluster

end Ensemble
