import Ensemble.Membership.Interval
import Ensemble.Membership.Service
import Ensemble.Transport.Session

/-!
# The running service

A `RunningService` is the service with its sweeper: at every due time it removes the silent peers,
until it is shut down. Time goes by in pieces, and the sweeper is looked at after each of them.
-/

namespace Ensemble

/-- The service, its sweeper, and the time. The sweeper is missing if its period is zero. -/
structure RunningService where
  service : Service
  sweeper : Option Interval
  now : Nat
  running : Bool
  deriving DecidableEq, Repr

namespace RunningService

/-- The service begins at time zero. -/
def start (config : ServiceConfig) : RunningService :=
  ⟨Service.start config, Interval.start? config.sweepInterval 0, 0, true⟩

/-- Sweep while the sweeper is due, at most `fuel` times. -/
def sweepWithin : Nat → RunningService → RunningService × List Parcel
  | 0, r => (r, [])
  | fuel + 1, r =>
    match r.sweeper.bind (·.fire? r.now) with
    | none => (r, [])
    | some next =>
      let (service, _, sent) := r.service.sweep r.now
      let (r, more) := sweepWithin fuel { r with service, sweeper := some next }
      (r, sent ++ more)

/-- How often the sweeper fires at most at one instant. -/
def sweepBound (r : RunningService) : Nat :=
  match r.sweeper with
  | some i => r.now - i.due + 1
  | none => 0

/-- One piece of time goes by. -/
def advancePiece (r : RunningService) (ms : Nat) : RunningService × List Parcel :=
  let r := { r with now := r.now + ms }
  -- After the shutdown time goes by without sweeps.
  if r.running then sweepWithin r.sweepBound r else (r, [])

/-- Time goes by in pieces. -/
def advance (r : RunningService) (granule ms : Nat) : RunningService × List Parcel :=
  (pieces granule ms).foldl
    (fun (r, sent) piece =>
      let (r, more) := r.advancePiece piece
      (r, sent ++ more)) (r, [])

/-- A client connects, sends bytes, and reads the replies to their end. -/
def exchange (r : RunningService) (draw : Nat → PeerId) (client : Endpoint) (bytes : Bytes) :
    RunningService × Bytes × List Parcel :=
  if r.running then
    let handler := Service.sessionHandler ⟨r.now, true, draw⟩ client
    let talk := converse handler (r.service, []) bytes
    ({ r with service := talk.state.1 }, talk.written, talk.state.2)
  else (r, [], [])

/-- The service is shut down: it neither sweeps nor knocks any more. -/
def shutdown (r : RunningService) : RunningService :=
  { r with service := r.service.close, running := false }

end RunningService

end Ensemble
