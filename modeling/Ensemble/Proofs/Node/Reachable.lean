import Ensemble.Node.Station
import Ensemble.Proofs.Group.Deed
import Ensemble.Proofs.Group.Member
import Mathlib.Logic.Relation

/-!
# Which nodes can come about

A node is `Reachable` if commands at its player, passes of its timer, local operations, messages and
exchanges with the service lead to it, in whatever order. The timer need not run after each of them,
so these are more nodes than those of the runs of a station.

* `Player.Moves` — what can happen to a player by itself.
* `Node.Reachable.bounded` — no reachable node has a queue that is too long.
* `Station.reachable_run` — every run of a station comes to a reachable node.
-/

namespace Ensemble

/-! ## Players -/

/-- A command at the player, or one pass of its timer. -/
inductive Player.Moves : Player → Player → Prop where
  | togglePause (p : Player) : Moves p p.togglePause
  | setPaused (p : Player) (paused : Bool) : Moves p (p.setPaused paused)
  | skip (p : Player) : Moves p p.skip
  | enqueue (p : Player) (song : SongId) : Moves p (p.enqueue song)
  | setElapsed (p : Player) (seconds : UInt32) : Moves p (p.setElapsed seconds)
  | setStatus (p : Player) (s : PlaybackStatus) : Moves p (p.setStatus s)
  | pass (d : Deck) (tick now : Nat) : Moves d.player (d.pass tick now).1.player

/-- Commands and passes of the timer, one after the other. -/
def Player.MovesTo : Player → Player → Prop := Relation.ReflTransGen Player.Moves

/-- No move makes the queue too long. -/
theorem Player.Moves.bounded {p q : Player} (h : p.Moves q) (hp : p.Bounded) : q.Bounded := by
  cases h with
  | togglePause =>
    rw [Bounded, queue_togglePause]
    exact hp
  | setPaused _ paused => exact hp.setPaused paused
  | skip => exact hp.skip
  | enqueue _ song => exact hp.enqueue song
  | setElapsed => exact hp
  | setStatus _ s => exact bounded_setStatus p s
  | pass d tick now => exact Deck.bounded_pass tick now hp

namespace Deck

/-- A run of the timer is passes of it. -/
theorem movesTo_settleWithin (tick now fuel : Nat) (d : Deck) :
    d.player.MovesTo (settleWithin tick now fuel d).player := by
  induction fuel generalizing d with
  | zero => exact .refl
  | succ fuel ih =>
    have hpass := Player.Moves.pass d tick now
    rw [settleWithin]
    rcases hd : d.pass tick now with ⟨d', _ | rest⟩
    · rw [hd] at hpass
      exact .head hpass (ih d')
    · rw [hd] at hpass
      exact .single hpass

/-- To settle is to move the player. -/
theorem movesTo_settle (tick now : Nat) (d : Deck) :
    d.player.MovesTo (d.settle tick now).player := movesTo_settleWithin tick now _ d

/-- The passing of time is to move the player. -/
theorem movesTo_advanceWithin (tick target fuel : Nat) (d : Deck) :
    d.player.MovesTo (advanceWithin tick target fuel d).player := by
  induction fuel generalizing d with
  | zero => exact .refl
  | succ fuel ih =>
    rw [advanceWithin]
    split
    · split
      · exact (d.movesTo_settle tick _).trans (ih _)
      · exact .refl
    · exact .refl

/-- A command is one move, or more, and then the timer runs. -/
theorem movesTo_apply {tick now : Nat} {f : Player → Player} {d : Deck}
    (h : d.player.MovesTo (f d.player)) : d.player.MovesTo (d.apply tick now f).player :=
  h.trans (movesTo_settle tick now { d with player := f d.player })

end Deck

namespace PlayerSession

/-- To enqueue a song several times is to move the player. -/
theorem movesTo_enqueueTimes (song : SongId) (times : Nat) (p : Player) :
    p.MovesTo (enqueueTimes song times p).1 := by
  induction times generalizing p with
  | zero => exact .refl
  | succ times ih =>
    rw [enqueueTimes]
    cases hq : p.enqueue? song with
    | none => exact ih p
    | some q =>
      have hmove : p.Moves q := by
        have henqueue := Player.Moves.enqueue p song
        rwa [Player.enqueue, hq] at henqueue
      exact .head hmove (ih q)

/-- Whatever happens to a player is moves of it. -/
theorem movesTo_step (s : PlayerSession) (a : PlayerStep) :
    s.deck.player.MovesTo (s.step a).1.deck.player := by
  cases a with
  | togglePause => exact Deck.movesTo_apply (.single (.togglePause _))
  | setPaused paused => exact Deck.movesTo_apply (.single (.setPaused _ paused))
  | readPaused | stop => exact .refl
  | skip => exact Deck.movesTo_apply (.single (.skip _))
  | enqueue song times => exact Deck.movesTo_apply (movesTo_enqueueTimes song times _)
  | setElapsed seconds => exact Deck.movesTo_apply (.single (.setElapsed _ seconds))
  | setStatus status => exact Deck.movesTo_apply (.single (.setStatus _ status))
  | advance ms => exact Deck.movesTo_advanceWithin _ _ _ _
  | jump ms => exact Deck.movesTo_settle _ _ _

end PlayerSession

/-! ## Nodes -/

/-- No deed makes the queue too long. -/
theorem Player.Bounded.applyAll {p : Player} (h : p.Bounded) (ds : List Deed) :
    (Deed.applyAll ds p).Bounded := by
  induction ds generalizing p with
  | nil => exact h
  | cons d rest ih =>
    refine ih (p := d.apply p) ?_
    cases d with
    | takeOver s => exact Player.bounded_setStatus p s
    | obey o =>
      cases o with
      | control op => exact h.apply op
      | enqueue song => exact h.enqueue song

namespace Node

/-- What can come of a node that begins with a song. -/
inductive Reachable : Node → Prop where
  | start (config : NodeConfig) (song : SongId) : Reachable (start config (Player.start song))
  | player {n : Node} {p : Player} (h : Reachable n) (hmove : n.player.Moves p) :
      Reachable { n with player := p }
  | control {n : Node} (h : Reachable n) (op : ControlOp) : Reachable (n.control op).1
  | enqueue {n : Node} (h : Reachable n) (song : SongId) : Reachable (n.enqueue song).1
  | receive {n : Node} (h : Reachable n) (bytes : Bytes) (sender : Endpoint) :
      Reachable (n.receive bytes sender).node
  | register {n : Node} (h : Reachable n) (remote : Remote) : Reachable (n.register remote).node
  | deregister {n : Node} (h : Reachable n) (remote : Remote) :
      Reachable (n.deregister remote).node
  | forget {n : Node} (h : Reachable n) : Reachable n.forget

/-- A registration leaves the player alone. -/
theorem player_register (n : Node) (remote : Remote) :
    (n.register remote).node.player = n.player := by
  rw [register]
  split
  · rfl
  · simp only
    split <;> rfl

/-- A deregistration does not touch the player. -/
theorem player_deregister (n : Node) (remote : Remote) :
    (n.deregister remote).node.player = n.player := by
  rw [deregister]
  split <;> rfl

/-- No reachable node has a queue that is too long. -/
theorem Reachable.bounded {n : Node} (h : n.Reachable) : n.player.Bounded := by
  -- Induction on how the node was reached: every step is a move of the player, or leaves it alone.
  induction h with
  | start _ song => exact Player.bounded_start song
  | player _ hmove ih => exact hmove.bounded ih
  | @control n _ op ih =>
    rw [n.player_control op]
    split
    · exact ih
    · exact ih.apply op
  | enqueue _ song ih => exact ih.enqueue song
  | @receive n _ bytes sender ih =>
    rw [n.player_receive bytes sender]
    exact ih.applyAll _
  | @register n _ remote ih =>
    rw [n.player_register remote]
    exact ih
  | @deregister n _ remote ih =>
    rw [n.player_deregister remote]
    exact ih
  | forget _ ih => exact ih

/-- However the player moves, the node stays reachable. -/
theorem Reachable.movesTo {n : Node} {p : Player} (h : n.Reachable) (hmoves : n.player.MovesTo p) :
    Reachable { n with player := p } := by
  induction hmoves with
  | refl => exact h
  | tail _ hmove ih => exact ih.player hmove

end Node

/-! ## Stations -/

namespace Station

variable {s : Station}

/-- The timer runs after a step. -/
theorem reachable_become {n : Node} (h : n.Reachable) (elapsed : Nat) :
    (s.become n elapsed).node.Reachable :=
  h.movesTo (Deck.movesTo_settle s.tick (s.now + elapsed) ⟨n.player, s.pending, s.stopped⟩)

/-- A station begins with a reachable node. -/
theorem reachable_start (config : NodeConfig) (tick : Nat) (song : SongId) :
    (start config tick song).node.Reachable :=
  (Node.Reachable.start config song).movesTo
    (Deck.movesTo_settle tick 0 ⟨Player.start song, none, false⟩)

/-- A line at the console is a local operation, or a registration, or nothing. -/
theorem reachable_execute {n : Node} (h : n.Reachable) (target : String) (remote : Remote)
    (command : Command) : (Console.execute target remote n command).node.Reachable := by
  cases command with
  | togglePause => exact h.control _
  | start => exact h.control .start
  | stop => exact h.control .stop
  | skip => exact h.control .skip
  | add song => exact h.enqueue song
  | register => exact h.register remote
  | status | help | quit => exact h

/-- Every step of a station leaves a reachable node. -/
theorem reachable_step (h : s.node.Reachable) (target : String) (a : StationStep) :
    (s.step target a).1.node.Reachable := by
  cases a with
  | player step => exact h.movesTo (s.session.movesTo_step step)
  | receive sender bytes => exact reachable_become (h.receive bytes sender) 0
  | togglePause => exact reachable_become (h.control _) 0
  | skip => exact reachable_become (h.control .skip) 0
  | enqueue song => exact reachable_become (h.enqueue song) 0
  | control op => exact reachable_become (h.control op) 0
  | forget => exact reachable_become h.forget 0
  | register remote => exact reachable_become (h.register remote) _
  | deregister remote => exact reachable_become (h.deregister remote) _
  | type line remote =>
    simp only [step]
    split
    · exact reachable_become h 0
    · exact reachable_become (reachable_execute h target remote _) _

/-- Every run of a station comes to a reachable node. -/
theorem reachable_run (h : s.node.Reachable) (target : String) (steps : List StationStep) :
    (s.run target steps).node.Reachable := by
  induction steps generalizing s with
  | nil => exact h
  | cons a rest ih => exact ih (reachable_step h target a)

end Station

end Ensemble
