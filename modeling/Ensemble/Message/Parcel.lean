import Ensemble.Message.Encode

/-!
# Parcels

Whatever a member or the service sends without waiting for a reply goes out as a `Parcel`: the
bytes of one message, and the endpoint they are for. A message is encoded once for all its
receivers.
-/

namespace Ensemble

/-- Bytes on their way to an endpoint. -/
structure Parcel where
  target : Endpoint
  bytes : Bytes
  deriving DecidableEq, Repr

/-- One message to each of a list of peers. A message without bytes goes to nobody. -/
def parcelsTo (peers : List Peer) (m : Message) : List Parcel :=
  match m.encode with
  | .ok bytes => peers.map fun p => ⟨p.endpoint, bytes⟩
  | .error _ => []

/-- The table that is sent to all its peers. -/
def broadcast (peers : List Peer) : List Parcel := parcelsTo peers (.clientListUpdate peers)

end Ensemble
