import Ensemble.Membership.Token
import Ensemble.Peer.Table

/-!
# The registry of peers

The `Registry` is the membership service's own table. Its entries stand in the order of their
registrations and are told apart by their endpoints; each has the time of its last heartbeat and the
token of the task that knocks at the peer. Whatever removes an entry cancels its token.

* `Registry.register` adds an entry, or finds the one that is there, or finds the table full.
* `Registry.sweep` removes the entries that were silent for longer than a timeout.
-/

namespace Ensemble

/-- One registered peer. -/
structure RegistryEntry where
  peer : Peer
  /-- When the peer last gave a sign of life. -/
  heartbeat : Nat
  token : Token
  deriving DecidableEq, Repr

/-- The outcome of a registration. -/
inductive Registration where
  | new (peer : Peer)
  | known (peer : Peer)
  | full
  deriving DecidableEq, Repr

/-- The peer that is registered afterwards. -/
def Registration.peer? : Registration → Option Peer
  | .new p => some p
  | .known p => some p
  | .full => none

/-- The membership service's own table. -/
structure Registry where
  limit : Nat
  entries : List RegistryEntry
  tokens : TokenPool
  deriving DecidableEq, Repr

/-- How many ids are drawn at most before a collision is accepted. -/
def maxDraws : Nat := 8

namespace Registry

/-- The empty registry. It never holds more peers than a message can. -/
def empty (limit : Nat) : Registry := ⟨min limit maxPeers, [], TokenPool.empty⟩

/-- The peers in the order of their registrations. -/
def peers (r : Registry) : List Peer := r.entries.map (·.peer)

/-- The table as it is sent out. -/
def table (r : Registry) : PeerTable := PeerTable.ofPeers r.peers

/-- The entry of an endpoint. -/
def find? (r : Registry) (e : Endpoint) : Option RegistryEntry :=
  r.entries.find? (·.peer.endpoint == e)

/-- The token of an endpoint's entry. -/
def token? (r : Registry) (e : Endpoint) : Option Token := (r.find? e).map (·.token)

/-- The first drawn id that is not held, or after `left` more draws whichever comes; with it the
number of draws that were made. -/
def drawId (held : List PeerId) (draw : Nat → PeerId) : Nat → Nat → PeerId × Nat
  | 0, i => (draw i, i + 1)
  | left + 1, i => if held.contains (draw i) then drawId held draw left (i + 1) else (draw i, i + 1)

/-- Register an endpoint at the time `now`, with ids from the sequence `draw`. The number is that of
the draws. -/
def register (r : Registry) (now : Nat) (draw : Nat → PeerId) (e : Endpoint) :
    Registry × Registration × Nat :=
  match r.find? e with
  -- Neither a full table nor the time of the last heartbeat matters here.
  | some entry => (r, .known entry.peer, 0)
  | none =>
    if r.limit ≤ r.entries.length then (r, .full, 0)
    else
      let (id, draws) := drawId (r.peers.map (·.id)) draw (maxDraws - 1) 0
      let peer := Peer.ofEndpoint e id
      let (tokens, token) := r.tokens.issue
      ({ r with entries := r.entries ++ [⟨peer, now, token⟩], tokens }, .new peer, draws)

/-- Remove the entry of an endpoint. -/
def remove (r : Registry) (e : Endpoint) : Registry × Option Peer :=
  match r.find? e with
  | none => (r, none)
  | some entry =>
    ({ r with
        entries := r.entries.eraseP (·.peer.endpoint == e)
        tokens := r.tokens.cancel entry.token }, some entry.peer)

/-- Note a sign of life of every entry that `p` picks. -/
def refresh (r : Registry) (now : Nat) (p : RegistryEntry → Bool) : Registry :=
  { r with entries := r.entries.map fun x => if p x then { x with heartbeat := now } else x }

/-- Note a sign of life of an endpoint; the flag says whether it is registered. -/
def heartbeat (r : Registry) (now : Nat) (e : Endpoint) : Registry × Bool :=
  (r.refresh now (·.peer.endpoint == e), (r.find? e).isSome)

/-- Note a sign of life of all endpoints with an address; the number says how many there are. -/
def heartbeatFrom (r : Registry) (now : Nat) (a : IpAddress) : Registry × Nat :=
  (r.refresh now (·.peer.address == a), r.entries.countP (·.peer.address == a))

/-- Whether an entry was silent for longer than `timeout` at the time `now`. -/
def expired (now timeout : Nat) (x : RegistryEntry) : Bool := decide (timeout < now - x.heartbeat)

/-- Remove the entries that were silent for longer than `timeout`. -/
def sweep (r : Registry) (now timeout : Nat) : Registry × List Peer :=
  let gone := r.entries.filter (expired now timeout)
  ({ r with
      entries := r.entries.filter fun x => !expired now timeout x
      tokens := r.tokens.cancelAll (gone.map (·.token)) }, gone.map (·.peer))

/-- Cancel the root of all tokens. -/
def cancelRoot (r : Registry) : Registry := { r with tokens := r.tokens.cancelRoot }

end Registry

end Ensemble
