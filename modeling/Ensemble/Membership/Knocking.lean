import Ensemble.Membership.Interval
import Ensemble.Membership.Service

/-!
# Knocking in time

A `KnockTask` knocks at one peer in a fixed interval: it asks for the peer's status, and an answer
that is a status is a sign of life. A peer that does not answer holds its task until the time
limit is over. Time goes by in pieces, and every task is looked at after each of them.
-/

namespace Ensemble

/-- What is at the other end of a knock. -/
inductive Door where
  | answers (bytes : Bytes)
  | absent
  | silent
  deriving DecidableEq, Repr

/-- A peer to knock at, and what came to it. -/
structure KnockTarget where
  endpoint : Endpoint
  door : Door
  /-- How many knocks came. -/
  knocks : Nat
  /-- The last request that came. -/
  lastRequest : Option Bytes
  deriving DecidableEq, Repr

/-- The task that knocks at one peer. The interval is missing if its period is zero. -/
structure KnockTask where
  endpoint : Endpoint
  token : Token
  interval : Option Interval
  /-- Until when a silent peer holds the task. -/
  heldUntil : Option Nat
  deriving DecidableEq, Repr

/-- The registry, its knockers and their tasks, the peers, and the time. -/
structure Knocking where
  registry : Registry
  knockers : Knockers
  tasks : List KnockTask
  targets : List KnockTarget
  period : Nat
  limit : Nat
  now : Nat
  deriving DecidableEq, Repr

namespace Knocking

/-- How a peer behaves in an exchange. -/
def remote (limit : Nat) : Door → Remote
  | .answers bytes => .answers [bytes]
  | .absent => .refuses
  | .silent => .stalls [] limit

/-- The handler of a knock: the first call asks for the status, and the state afterwards says
whether the answer was one. -/
def knockHandler (request : Bytes) : Handler Bool := fun alive received =>
  if received.isEmpty then (alive, ⟨true, request⟩)
  else
    match Message.decode received with
    | .ok (.sendStatus _) => (true, Answer.none)
    | _ => (alive, Answer.none)

/-- Knock once at an endpoint: the state afterwards, and for how long the peer holds the task. -/
def knock (k : Knocking) (e : Endpoint) : Knocking × Nat :=
  match Message.queryStatus.encode, k.targets.find? (·.endpoint == e) with
  | .ok request, some target =>
    let exchange := Exchange.run (knockHandler request) k.limit false (remote k.limit target.door)
    let targets := k.targets.map fun t =>
      match t.endpoint == e, exchange.request with
      | true, some bytes => { t with knocks := t.knocks + 1, lastRequest := some bytes }
      | _, _ => t
    let registry := if exchange.state then (k.registry.heartbeat k.now e).1 else k.registry
    ({ k with targets, registry }, exchange.elapsed)
  | _, _ => (k, 0)

/-- Let one task run until it waits, at most `fuel` knocks; a task that is cancelled ends. -/
def runTask : Nat → Knocking → KnockTask → Knocking × Option KnockTask
  | 0, k, task => (k, some task)
  | fuel + 1, k, task =>
    if k.registry.tokens.isCancelled task.token then (k, none)
    else
      let held := match task.heldUntil with
        | some t => decide (k.now < t)
        | none => false
      if held then (k, some task)
      else
        -- While a task is held its interval goes on, so it may be due at once afterwards.
        match task.interval.bind (·.fire? k.now) with
        | none => (k, some { task with heldUntil := none })
        | some next =>
          let (k, elapsed) := k.knock task.endpoint
          let heldUntil := if elapsed = 0 then none else some (k.now + elapsed)
          runTask fuel k { task with interval := some next, heldUntil }

/-- How often a task knocks at most at one instant. -/
def taskBound (k : Knocking) (task : KnockTask) : Nat :=
  match task.interval with
  | some i => k.now - i.due + 2
  | none => 1

/-- Let all tasks run until they wait. -/
def runTasks (k : Knocking) : Knocking :=
  k.tasks.foldl
    (fun k task =>
      let (k, rest) := runTask (k.taskBound task) k task
      { k with tasks := k.tasks ++ rest.toList }) { k with tasks := [] }

/-- Time goes by in pieces. -/
def advance (k : Knocking) (granule ms : Nat) : Knocking :=
  (pieces granule ms).foldl (fun k piece => { k with now := k.now + piece }.runTasks) k

/-- No task, no entry, and the peers as they are. -/
def start (period limit : Nat) (targets : List KnockTarget) : Knocking :=
  ⟨Registry.empty maxPeers, Knockers.empty, [], targets, period, limit, 0⟩

/-- Start the task of an endpoint's entry, if it has none. -/
def ensure (k : Knocking) (e : Endpoint) : Knocking × Bool :=
  match k.knockers.ensure k.registry true e, k.registry.token? e with
  | (knockers, true), some token =>
    let task := KnockTask.mk e token (Interval.start? k.period k.now) none
    ({ k with knockers, tasks := k.tasks ++ [task] }, true)
  | _, _ => (k, false)

/-- Cancel all tasks. -/
def stopAll (k : Knocking) : Knocking :=
  let (knockers, tokens) := k.knockers.stopAll k.registry.tokens
  { k with knockers, registry := { k.registry with tokens } }.runTasks

end Knocking

end Ensemble
