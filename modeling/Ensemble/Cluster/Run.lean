import Ensemble.Cluster.Basic

/-!
# Runs of a cluster

A `ClusterStep` is one thing that happens to a cluster from outside. `Cluster.step` lets it happen,
and after it the letters it caused are delivered until none is left.
-/

namespace Ensemble

/-- Something that happens to a cluster; `n` is the place of a member. -/
inductive ClusterStep where
  /-- The member registers with the service, whose entry for it has the given id if it is new. -/
  | register (n : Nat) (id : PeerId)
  | deregister (n : Nat)
  /-- The member states its status to the service. -/
  | heartbeat (n : Nat)
  /-- The member states its status to the member at the place `m`. -/
  | stateStatus (n m : Nat)
  | sweep
  /-- Something happens at a member. -/
  | act (n : Nat) (step : StationStep)
  /-- Time goes by. -/
  | advance (ms : Nat)
  | disconnect (n : Nat)
  | connect (n : Nat)
  deriving DecidableEq, Repr

/-- What a step answers. -/
inductive ClusterAnswer where
  | none
  | flag (value : Bool)
  | count (value : Nat)
  | contact (error : Option NodeError)
  | station (answer : StationAnswer)

namespace Cluster

/-- The service handles a message of a member. -/
def tellService (c : Cluster) (source : Endpoint) (bytes : Bytes) (draw : Nat → PeerId) :
    Cluster × Answer :=
  let reaction := c.service.receive ⟨c.now, true, draw⟩ bytes source
  ({ c with service := reaction.service }.send serviceEndpoint reaction.sent, reaction.answer)

/-- A member's exchange with the service, whose request is `m`; `act` is what the member does with
the reply. -/
def contactService (c : Cluster) (n : Nat) (m : Member) (message : Message) (draw : Nat → PeerId)
    (act : Remote → StationStep) : Cluster × ClusterAnswer :=
  match message.encode with
  | .error _ => (c, .none)
  | .ok request =>
    let (c, answer) := c.tellService m.endpoint request draw
    match c.actAt n (act (.answers [answer.sent])) with
    | (c, some (.contact error _)) => (c, .contact error)
    | (c, _) => (c, .none)

/-- Whether the members are connected at the place `n`. -/
def setConnected (c : Cluster) (n : Nat) (connected : Bool) : Cluster :=
  { c with members := c.members.modify n fun m => { m with connected } }

/-- Let one thing happen, before any letter is delivered. -/
def perform (c : Cluster) : ClusterStep → Cluster × ClusterAnswer
  | .register n id =>
    match c.members[n]? with
    | none => (c, .none)
    | some m =>
      -- The entry is made first, so that the service finds it with the given id.
      let draw := fun _ : Nat => id
      let (registry, _) := c.service.registry.register c.now draw m.endpoint
      let c := { c with service := { c.service with registry } }
      c.contactService n m (.connect m.station.node.config.listenPort) draw .register
  | .deregister n =>
    match c.members[n]? with
    | none => (c, .none)
    | some m =>
      c.contactService n m (.disconnect m.station.node.config.listenPort) (fun _ => ⟨0⟩)
        .deregister
  | .heartbeat n =>
    match c.members[n]? with
    | none => (c, .none)
    | some m =>
      match (Message.sendStatus m.station.node.status).encode with
      | .error _ => (c, .none)
      | .ok bytes =>
        let (c, answer) := c.tellService m.endpoint bytes fun _ => ⟨0⟩
        (c, .flag answer.wanted)
  | .stateStatus n m =>
    match c.members[n]?, c.members[m]? with
    | some source, some target =>
      match (Message.sendStatus source.station.node.status).encode with
      | .error _ => (c, .none)
      | .ok bytes => (c.send source.endpoint [⟨target.endpoint, bytes⟩], .none)
    | _, _ => (c, .none)
  | .sweep =>
    let (service, count, sent) := c.service.sweep c.now
    ({ c with service }.send serviceEndpoint sent, .count count)
  | .act n step =>
    match c.actAt n step with
    | (c, some answer) => (c, .station answer)
    | (c, none) => (c, .none)
  | .advance ms =>
    let members := c.members.map fun m =>
      { m with station := (m.station.playerStep (.advance ms)).1 }
    ({ c with members, now := c.now + ms }, .none)
  | .disconnect n => (c.setConnected n false, .none)
  | .connect n => (c.setConnected n true, .none)

/-- What a step did: the cluster afterwards, the answer, the deliveries, and whether there were too
many of them. -/
structure Outcome where
  cluster : Cluster
  answer : ClusterAnswer
  deliveries : List Delivery
  cutOff : Bool

/-- Let one thing happen and deliver all letters that it caused. -/
def step (c : Cluster) (s : ClusterStep) : Outcome :=
  let (c, answer) := c.perform s
  let (c, deliveries, cutOff) := c.drain
  ⟨c, answer, deliveries, cutOff⟩

end Cluster

end Ensemble
