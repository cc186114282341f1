import Ensemble.Transport.Session

/-!
# The sessions of a server

The number of open sessions is bounded. A session takes one of the server's places when its
connection is accepted and gives it back when it ends; a connection that finds no place free is
closed at once. A session that receives nothing for a while ends.

* `Sessions.places_expire` — ending idle sessions frees exactly their places.
-/

namespace Ensemble

/-- An open session of a client. -/
structure Session where
  client : Nat
  /-- When the session last received data, or was opened. -/
  lastData : Nat
  buffers : Buffers
  deriving DecidableEq, Repr

/-- The sessions of a server, and the time. -/
structure Sessions where
  /-- For how many milliseconds a session may receive nothing. -/
  idle : Nat
  now : Nat
  /-- Whether the server still accepts connections. -/
  accepting : Bool
  /-- How many places are free. -/
  free : Nat
  active : List Session
  deriving DecidableEq, Repr

namespace Sessions

/-- How many places a server can have. -/
def maxPlaces : Nat := (1 <<< 61) - 1

/-- A server with `limit` places and no sessions at time zero. More than `maxPlaces` are refused. -/
def start? (limit idle : Nat) : Option Sessions :=
  if limit ≤ maxPlaces then some ⟨idle, 0, true, limit, []⟩ else none

/-- End the sessions that `p` picks; each of them gives its place back. -/
def endAll (s : Sessions) (p : Session → Bool) : Sessions :=
  { s with free := s.free + s.active.countP p, active := s.active.filter (!p ·) }

/-- Whether a session received nothing for too long. -/
def isIdle (s : Sessions) (x : Session) : Bool := decide (x.lastData + s.idle ≤ s.now)

/-- The sessions that received nothing for too long end. -/
def expire (s : Sessions) : Sessions := s.endAll s.isIdle

/-- A client connects; without a free place its connection is closed at once. -/
def accept (s : Sessions) (client : Nat) : Sessions :=
  if s.accepting ∧ 0 < s.free then
    -- With an idle time of zero the new session ends at once.
    { s with
      free := s.free - 1
      active := s.active ++ [⟨client, s.now, Buffers.empty⟩] : Sessions }.expire
  else s

/-- The session of a client ends, because the client closes it or the connection breaks. -/
def close (s : Sessions) (client : Nat) : Sessions := s.endAll (·.client == client)

/-- Time goes by. -/
def advance (s : Sessions) (ms : Nat) : Sessions := { s with now := s.now + ms }.expire

/-- The signal to shut down, or a signal that is none; open sessions go on either way. -/
def signal (s : Sessions) (shutdown : Bool) : Sessions :=
  if shutdown then { s with accepting := false } else s

/-- The session of a client has received data and handled it. -/
def touch (s : Sessions) (client : Nat) (buffers : Buffers) : Sessions :=
  { s with
    active := s.active.map fun x =>
      if x.client == client then { x with lastData := s.now, buffers } else x }

/-- What a client sees when it sends: the blocks that were handed over, and the replies. -/
structure Sent where
  blocks : List Bytes
  replies : Bytes

/-- A client sends data over its session; without a session nothing happens. -/
def send {σ : Type} (s : Sessions) (handler : Handler σ) (state : σ) (client : Nat)
    (bytes : Bytes) : Sessions × σ × Option Sent :=
  match s.active.find? (·.client == client) with
  | some x =>
    let talk := serve handler.appending state x.buffers ((blocks bytes).map .block)
    let s := if talk.calls.isEmpty then s else s.touch client talk.buffers
    (s, talk.state, some ⟨talk.calls.map (·.1), talk.written⟩)
  | none => (s, state, none)

/-- Ending sessions frees exactly their places. -/
theorem places_endAll (s : Sessions) (p : Session → Bool) :
    (s.endAll p).free + (s.endAll p).active.length = s.free + s.active.length := by
  have := s.active.length_eq_countP_add_countP p
  simp only [endAll, ← List.countP_eq_length_filter]
  simp only [Bool.not_eq_true, Bool.decide_eq_false] at this
  omega

/-- Ending idle sessions frees exactly their places. -/
theorem places_expire (s : Sessions) :
    s.expire.free + s.expire.active.length = s.free + s.active.length :=
  s.places_endAll _

end Sessions

end Ensemble
