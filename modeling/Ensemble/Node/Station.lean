import Ensemble.Console.Execute
import Ensemble.Playback.Run
import Ensemble.Transport.Session

/-!
# Nodes in time

A `Station` is a node together with the timer of its player and a clock. A `StationStep` is one
thing that can happen to it; after each the timer has run until it rests. What a step sends, it
sends before the timer reacts.
-/

namespace Ensemble

/-- A node, the timer of its player, and the time. -/
structure Station where
  node : Node
  /-- The running second of the player, if one has begun. -/
  pending : Option Tick
  /-- Whether the timer has ended for good. -/
  stopped : Bool
  /-- The length of a second in milliseconds. -/
  tick : Nat
  now : Nat
  deriving DecidableEq, Repr

/-- Something that happens to a node. -/
inductive StationStep where
  | player (step : PlayerStep)
  | receive (sender : Endpoint) (bytes : Bytes)
  | togglePause
  | skip
  | enqueue (song : SongId)
  | control (op : ControlOp)
  | forget
  | register (remote : Remote)
  | deregister (remote : Remote)
  /-- A line at the console. -/
  | type (line : List Char) (remote : Remote)
  deriving DecidableEq, Repr

/-- What a step answers. -/
inductive StationAnswer where
  | player (answer : StepAnswer)
  | reply (answer : Answer)
  /-- The outcome of an exchange with the service, and what the service read. -/
  | contact (error : Option NodeError) (request : Option Bytes)
  /-- What the console printed, and whether it goes on. -/
  | console (printed : List String) (continues : Bool)
  | refused (error : CommandError)

namespace Station

/-- The player with its timer. -/
def deck (s : Station) : Deck := ⟨s.node.player, s.pending, s.stopped⟩

/-- The same node with another state of player and timer. -/
def withDeck (s : Station) (d : Deck) : Station :=
  { s with node := { s.node with player := d.player }, pending := d.pending, stopped := d.stopped }

/-- The player with its timer and the clock. -/
def session (s : Station) : PlayerSession := ⟨s.tick, s.now, s.deck⟩

/-- The timer runs until it rests. -/
def settle (s : Station) : Station := s.withDeck (s.deck.settle s.tick s.now)

/-- The node becomes another one and time goes by, then the timer runs. -/
def become (s : Station) (node : Node) (elapsed : Nat) : Station :=
  { s with node, now := s.now + elapsed }.settle

/-- A node that begins at time zero. -/
def start (config : NodeConfig) (tick : Nat) (song : SongId) : Station :=
  { node := Node.start config (Player.start song), pending := none, stopped := false, tick,
    now := 0 : Station }.settle

/-- Something happens to the player alone. -/
def playerStep (s : Station) (step : PlayerStep) : Station × StepAnswer :=
  let (session, answer) := s.session.step step
  ({ s.withDeck session.deck with now := session.now }, answer)

/-- Let one thing happen; `target` names the service in what the console prints. -/
def step (target : String) (s : Station) : StationStep → Station × StationAnswer × List Parcel
  | .player step =>
    let (s, answer) := s.playerStep step
    (s, .player answer, [])
  | .receive sender bytes =>
    let reaction := s.node.receive bytes sender
    (s.become reaction.node 0, .reply reaction.answer, reaction.sent)
  | .togglePause =>
    let (node, sent) := s.node.togglePause
    (s.become node 0, .player .none, sent)
  | .skip =>
    let (node, sent) := s.node.skip
    (s.become node 0, .player .none, sent)
  | .enqueue song =>
    let (node, sent) := s.node.enqueue song
    (s.become node 0, .player (.flag s.node.accepts), sent)
  | .control op =>
    let (node, sent) := s.node.control op
    (s.become node 0, .player .none, sent)
  | .forget => (s.become s.node.forget 0, .player .none, [])
  | .register remote =>
    let contact := s.node.register remote
    (s.become contact.node contact.elapsed, .contact contact.error contact.request, [])
  | .deregister remote =>
    let contact := s.node.deregister remote
    (s.become contact.node contact.elapsed, .contact contact.error contact.request, [])
  | .type line remote =>
    match Command.parse line with
    | .error e => (s.become s.node 0, .refused e, [])
    | .ok command =>
      let effect := Console.execute target remote s.node command
      (s.become effect.node effect.elapsed, .console effect.printed effect.continues, effect.sent)

/-- Let things happen one after the other. -/
def run (target : String) (s : Station) (steps : List StationStep) : Station :=
  steps.foldl (fun s a => (s.step target a).1) s

/-- A client connects, sends bytes, and reads the replies to their end. -/
def exchange (s : Station) (client : Endpoint) (bytes : Bytes) : Station × Bytes × List Parcel :=
  let talk := converse (Node.sessionHandler client) (s.node, []) bytes
  (s.become talk.state.1 0, talk.written, talk.state.2)

end Station

end Ensemble
