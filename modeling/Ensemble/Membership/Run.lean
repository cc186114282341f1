import Ensemble.Membership.Service

/-!
# Runs of the registry and of the service

A `RegistryStep` is one thing that can happen to the registry and its knockers, and a
`ServiceStep` one that can happen to the whole service: bytes that arrive, a sweep, or time that
goes by. Both kinds of run keep a clock in milliseconds, which only `advance` moves.

* `ServiceSession.now_le_step` — no step turns the clock back.
-/

namespace Ensemble

/-! ## The registry -/

/-- Something that happens to the registry and its knockers. -/
inductive RegistryStep where
  | register (e : Endpoint) (draw : Nat → PeerId)
  | remove (e : Endpoint)
  | heartbeat (e : Endpoint)
  | heartbeatFrom (a : IpAddress)
  /-- Remove the peers that at a time were silent for longer than a timeout. -/
  | sweep (time timeout : Nat)
  | cancelRoot
  /-- Start the knocker of an entry, with or without a scheduler on which it can run. -/
  | ensure (running : Bool) (e : Endpoint)
  /-- Start a knocker under a token, or under a fresh one that belongs to no entry. -/
  | start (running : Bool) (e : Endpoint) (token : Option Token)
  | stopAll
  | advance (ms : Nat)

/-- What a step of the registry answers. -/
inductive RegistryAnswer where
  | none
  | flag (value : Bool)
  | count (value : Nat)
  | peer (value : Option Peer)
  | peers (values : List Peer)
  /-- The outcome of a registration, and the number of ids that were drawn. -/
  | registration (outcome : Registration) (draws : Nat)

/-- The registry and its knockers at an instant. -/
structure RegistrySession where
  registry : Registry
  knockers : Knockers
  now : Nat

namespace RegistrySession

/-- The empty registry at time zero. -/
def start (limit : Nat) : RegistrySession := ⟨Registry.empty limit, Knockers.empty, 0⟩

/-- Let one thing happen. -/
def step (s : RegistrySession) : RegistryStep → RegistrySession × RegistryAnswer
  | .register e draw =>
    let (registry, outcome, draws) := s.registry.register s.now draw e
    ({ s with registry }, .registration outcome draws)
  | .remove e =>
    let (registry, gone) := s.registry.remove e
    ({ s with registry }, .peer gone)
  | .heartbeat e =>
    let (registry, known) := s.registry.heartbeat s.now e
    ({ s with registry }, .flag known)
  | .heartbeatFrom a =>
    let (registry, count) := s.registry.heartbeatFrom s.now a
    ({ s with registry }, .count count)
  | .sweep time timeout =>
    let (registry, gone) := s.registry.sweep time timeout
    ({ s with registry }, .peers gone)
  | .cancelRoot => ({ s with registry := s.registry.cancelRoot }, .none)
  | .ensure running e =>
    let (knockers, started) := s.knockers.ensure s.registry running e
    ({ s with knockers }, .flag started)
  | .start running e token =>
    let (tokens, token) :=
      match token with
      | some t => (s.registry.tokens, t)
      | none => s.registry.tokens.issueFree
    let (knockers, started) := s.knockers.start tokens running e token
    ({ s with registry := { s.registry with tokens }, knockers }, .flag started)
  | .stopAll =>
    let (knockers, tokens) := s.knockers.stopAll s.registry.tokens
    ({ s with registry := { s.registry with tokens }, knockers }, .none)
  | .advance ms => ({ s with now := s.now + ms }, .none)

/-- Let things happen one after the other. -/
def run (s : RegistrySession) (steps : List RegistryStep) : RegistrySession :=
  steps.foldl (fun s a => (s.step a).1) s

end RegistrySession

/-! ## The service -/

/-- Something that happens to the service. -/
inductive ServiceStep where
  /-- Bytes arrive, with or without a scheduler on which a knocker can run. -/
  | receive (sender : Endpoint) (bytes : Bytes) (running : Bool) (draw : Nat → PeerId)
  /-- An endpoint is entered without a message of its own. -/
  | enter (e : Endpoint) (draw : Nat → PeerId)
  | sweep
  | advance (ms : Nat)
  /-- The cancelled task of an endpoint clears its note. -/
  | reap (e : Endpoint)
  | close

/-- What a step of the service answers. -/
inductive ServiceAnswer where
  | none
  | reply (answer : Answer)
  | registration (outcome : Registration) (draws : Nat)
  /-- How many peers a sweep removed. -/
  | count (value : Nat)

/-- The service at an instant. -/
structure ServiceSession where
  service : Service
  now : Nat

namespace ServiceSession

/-- The service before any registration, at time zero. -/
def start (config : ServiceConfig) : ServiceSession := ⟨Service.start config, 0⟩

/-- Let one thing happen. -/
def step (s : ServiceSession) : ServiceStep → ServiceSession × ServiceAnswer × List Parcel
  | .receive sender bytes running draw =>
    let reaction := s.service.receive ⟨s.now, running, draw⟩ bytes sender
    ({ s with service := reaction.service }, .reply reaction.answer, reaction.sent)
  | .enter e draw =>
    let (registry, outcome, draws) := s.service.registry.register s.now draw e
    ({ s with service := { s.service with registry } }, .registration outcome draws, [])
  | .sweep =>
    let (service, count, sent) := s.service.sweep s.now
    ({ s with service }, .count count, sent)
  | .advance ms => ({ s with now := s.now + ms }, .none, [])
  | .reap e =>
    let knockers := s.service.knockers.reap s.service.registry.tokens e
    ({ s with service := { s.service with knockers } }, .none, [])
  | .close => ({ s with service := s.service.close }, .none, [])

/-- Let things happen one after the other. -/
def run (s : ServiceSession) (steps : List ServiceStep) : ServiceSession :=
  steps.foldl (fun s a => (s.step a).1) s

/-- No step turns the clock back. -/
theorem now_le_step (s : ServiceSession) (a : ServiceStep) : s.now ≤ (s.step a).1.now := by
  cases a <;> simp [step]

end ServiceSession

end Ensemble
