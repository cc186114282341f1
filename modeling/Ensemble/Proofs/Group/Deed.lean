import Ensemble.Proofs.Group.Basic

/-!
# What is done to the players

A player of a group changes because its node obeys an order, which was given at the node or came in
a letter, or because the node takes over the status of another. `Group.deeds` lists what a run does
to one player. It is read off the steps, and nothing in the group depends on it.

* `Group.player_step`, `Group.player_run` — a player is what its deeds have made of it.
* `Deed.status_apply_congr` — players with one status still have one after the same deed.
-/

namespace Ensemble

/-- What a command asks of every player of the group. -/
inductive Order where
  | control (op : ControlOp)
  | enqueue (song : SongId)
  deriving DecidableEq, Repr

/-- Something that is done to a player. -/
inductive Deed where
  /-- The player obeys an order. -/
  | obey (o : Order)
  /-- The player takes over the status of another. -/
  | takeOver (status : PlaybackStatus)
  deriving DecidableEq, Repr

/-- The message that passes an order on. -/
def Order.message : Order → Message
  | .control op => .control op
  | .enqueue song => .changeSong song true

namespace Deed

/-- The player after the deed. -/
def apply : Deed → Player → Player
  | .obey (.control op), p => op.apply p
  | .obey (.enqueue song), p => p.enqueue song
  | .takeOver s, p => p.setStatus s

/-- The player after one deed after the other. -/
def applyAll (ds : List Deed) (p : Player) : Player := ds.foldl (fun q d => d.apply q) p

@[simp] theorem applyAll_nil (p : Player) : applyAll [] p = p := rfl

@[simp] theorem applyAll_singleton (d : Deed) (p : Player) : applyAll [d] p = d.apply p := rfl

/-- First the one deeds, then the others. -/
theorem applyAll_append (ds ds' : List Deed) (p : Player) :
    applyAll (ds ++ ds') p = applyAll ds' (applyAll ds p) := List.foldl_append

/-- No deed looks at more of a player than its status. -/
theorem status_apply_congr (d : Deed) {p q : Player} (h : p.status = q.status) :
    (d.apply p).status = (d.apply q).status := by
  -- Two players that show the same differ in epoch and waiting only, which no deed shows.
  obtain ⟨song, elapsed, paused, queue, _, _⟩ := p
  obtain ⟨song', elapsed', paused', queue', _, _⟩ := q
  obtain ⟨rfl, rfl, rfl, rfl⟩ := PlaybackStatus.mk.inj h
  cases d with
  | takeOver s => rfl
  | obey o =>
    cases o with
    | enqueue song =>
      by_cases hroom : queue.length < maxQueue
      · simp only [apply, Player.enqueue, Player.enqueue?, if_pos hroom]
        rfl
      · simp only [apply, Player.enqueue, Player.enqueue?, if_neg hroom]
        rfl
    | control op =>
      cases op with
      | start | stop => cases paused <;> rfl
      | skip => cases queue <;> rfl

/-- So players that show the same still show the same after any deeds. -/
theorem status_applyAll_congr (ds : List Deed) {p q : Player} (h : p.status = q.status) :
    (applyAll ds p).status = (applyAll ds q).status := by
  induction ds generalizing p q with
  | nil => exact h
  | cons d rest ih => exact ih (d.status_apply_congr h)

end Deed

/-! ## The deeds of a node -/

namespace Node

/-- What a message does to the node's player. -/
def deedsOn (n : Node) (m : Message) (sender : Endpoint) : List Deed :=
  match m with
  | .control op => [.obey (.control op)]
  | .changeSong song enqueue => if enqueue then [.obey (.enqueue song)] else []
  | .sendStatus s =>
    if n.view.isCoordinator then [] else if n.trusts sender then [.takeOver s] else []
  | _ => []

/-- What received bytes do to the node's player. -/
def deedsOnBytes (n : Node) (bytes : Bytes) (sender : Endpoint) : List Deed :=
  match Message.decode bytes with
  | .ok m => n.deedsOn m sender
  | .error _ => []

/-- The node leaves control operations to a coordinator other than itself. -/
def defers (n : Node) : Bool :=
  match n.view.ownId, n.view.coordinator with
  | some id, some leader => leader.id != id
  | _, _ => false

/-- A node that holds a table defers exactly if it has another id than the coordinator. -/
theorem Holds.defers_eq {n : Node} {id : PeerId} {t : PeerTable} {leader : Peer}
    (h : n.Holds id t leader) : n.defers = (leader.id != id) := by
  have hid : n.view.ownId = some id := by rw [h.view_eq]; rfl
  simp only [defers, hid, h.view_coordinator]

/-- A control operation is applied at once by a node that does not leave it to a coordinator. -/
theorem player_control (n : Node) (op : ControlOp) :
    (n.control op).1.player = if n.defers then n.player else op.apply n.player := by
  unfold control defers
  rcases n.view.ownId with _ | id
  · rfl
  · rcases n.view.coordinator with _ | leader
    · rfl
    · by_cases hid : leader.id = id
      · simp [hid, applyOp]
      · simp [hid]

/-- A message leaves the player as its deeds say. -/
theorem player_handle (n : Node) (m : Message) (sender : Endpoint) :
    (n.handle m sender).node.player = Deed.applyAll (n.deedsOn m sender) n.player := by
  cases m with
  | control op =>
    show (n.onControl op).1.player = op.apply n.player
    simp only [onControl]
    split
    · rfl
    · split <;> rfl
  | changeSong song enqueue => cases enqueue <;> rfl
  | sendStatus s =>
    show (n.onStatus s sender).1.player = _
    rw [onStatus, deedsOn]
    split
    · split <;> rfl
    · split <;> rfl
  -- Nothing else touches the player.
  | disconnect _ | connect _ | queryStatus | election _ | clientList _ _ | clientListUpdate _ => rfl

/-- The bytes of a message do to a player what the message does; bytes that are no message do
nothing. -/
theorem player_receive (n : Node) (bytes : Bytes) (sender : Endpoint) :
    (n.receive bytes sender).node.player =
      Deed.applyAll (n.deedsOnBytes bytes sender) n.player := by
  rcases h : Message.decode bytes with _ | m
  · simp only [receive, deedsOnBytes, h]
    rfl
  · simp only [receive, deedsOnBytes, h]
    exact n.player_handle m sender

end Node

namespace LocalCommand

/-- What the command asks for when it is given at the node. -/
def order (n : Node) : LocalCommand → Order
  | .control op => .control op
  | .togglePause => .control (if n.player.paused then .start else .stop)
  | .skip => .control .skip
  | .enqueue song => .enqueue song

/-- What the command does to the player of the node at which it is given. -/
def deeds (n : Node) (c : LocalCommand) : List Deed :=
  match c.order n with
  | .control op => if n.defers then [] else [.obey (.control op)]
  | .enqueue song => [.obey (.enqueue song)]

variable {n : Node} {c : LocalCommand}

/-- Whatever the command, a control operation is given as one. -/
theorem run_of_order_control {op : ControlOp} (h : c.order n = .control op) :
    c.run n = n.control op := by
  cases c with
  | enqueue song => cases h
  | control _ | togglePause | skip =>
    cases h
    rfl

/-- A song is queued in one way only. -/
theorem run_of_order_enqueue {song : SongId} (h : c.order n = .enqueue song) :
    c.run n = n.enqueue song := by
  cases c with
  | enqueue _ =>
    cases h
    rfl
  | control _ | togglePause | skip => cases h

/-- A node that leaves control to its coordinator does nothing yet. -/
theorem deeds_of_order_control {op : ControlOp} (h : c.order n = .control op) :
    c.deeds n = if n.defers then [] else [.obey (.control op)] := by
  rw [deeds, h]

/-- A song is queued at once. -/
theorem deeds_of_order_enqueue {song : SongId} (h : c.order n = .enqueue song) :
    c.deeds n = [.obey (.enqueue song)] := by
  rw [deeds, h]

/-- A command leaves the player as its deeds say. -/
theorem player_run (n : Node) (c : LocalCommand) :
    (c.run n).1.player = Deed.applyAll (c.deeds n) n.player := by
  rcases h : c.order n with op | song
  · rw [run_of_order_control h, deeds_of_order_control h, n.player_control op]
    split <;> rfl
  · rw [run_of_order_enqueue h, deeds_of_order_enqueue h]
    rfl

end LocalCommand

/-! ## The deeds of a run -/

namespace Group

/-- What the handling of a letter does to the player at `e`. -/
def deedsBy (g : Group) (e : Endpoint) (l : Letter) : List Deed :=
  if l.parcel.target = e ∧ g.Hosts e then
    (g.node e).deedsOnBytes l.parcel.bytes l.source
  else []

/-- What a step does to the player at `e`. -/
def deedsOf (g : Group) (e : Endpoint) : GroupStep → List Deed
  | .act e' c => if e' = e ∧ g.Hosts e then c.deeds (g.node e) else []
  | .deliver place =>
    match g.inFlight[place]? with
    | some l => g.deedsBy e l
    | none => []

/-- All that a run does to the player at `e`, in the order in which it is done. -/
def deeds (e : Endpoint) : Group → List GroupStep → List Deed
  | _, [] => []
  | g, a :: rest => g.deedsOf e a ++ (g.step a).deeds e rest

/-- A letter for a member does there what its bytes do. -/
theorem deedsBy_of_hosts {g : Group} {e : Endpoint} {l : Letter} (he : l.parcel.target = e)
    (hhosts : g.Hosts e) :
    g.deedsBy e l = (g.node e).deedsOnBytes l.parcel.bytes l.source := if_pos ⟨he, hhosts⟩

/-- A letter for somebody else does nothing. -/
theorem deedsBy_of_ne (g : Group) {e : Endpoint} {l : Letter} (he : l.parcel.target ≠ e) :
    g.deedsBy e l = [] := if_neg fun h => he h.1

/-- Nor does a letter for an endpoint that is not in the group. -/
theorem deedsBy_of_not_hosts {g : Group} {e : Endpoint} (l : Letter) (hhosts : ¬ g.Hosts e) :
    g.deedsBy e l = [] := if_neg fun h => hhosts h.2

/-- A delivery does what the letter at its place does. -/
theorem deedsOf_deliver_of_split {g : Group} {place : Nat} {l : Letter}
    {before after : List Letter} (hsplit : g.inFlight = before ++ l :: after)
    (hplace : before.length = place) (e : Endpoint) :
    g.deedsOf e (.deliver place) = g.deedsBy e l := by
  simp only [deedsOf, getElem?_of_split hsplit hplace]

/-- At a place that holds no letter nothing is delivered. -/
theorem deedsOf_deliver_of_le {g : Group} {place : Nat} (h : g.inFlight.length ≤ place)
    (e : Endpoint) : g.deedsOf e (.deliver place) = [] := by
  have hnone : g.inFlight[place]? = none := List.getElem?_eq_none h
  simp only [deedsOf, hnone]

/-- A letter does its deeds to the player of its receiver, and nothing to any other. -/
theorem player_receive (g : Group) (e : Endpoint) (l : Letter) :
    ((g.receive l).node e).player = Deed.applyAll (g.deedsBy e l) (g.node e).player := by
  rw [receive]
  by_cases he : l.parcel.target = e
  · rw [he]
    by_cases hhosts : g.Hosts e
    · rw [if_pos hhosts, deedsBy_of_hosts he hhosts, node_put_self]
      exact (g.node e).player_receive _ _
    · rw [if_neg hhosts, deedsBy_of_not_hosts l hhosts]
      rfl
  · rw [g.deedsBy_of_ne he]
    split
    · rw [node_put_of_ne _ _ _ _ (Ne.symm he)]
      rfl
    · rfl

/-- A step leaves every player as its deeds say. -/
theorem player_step (g : Group) (e : Endpoint) (a : GroupStep) :
    ((g.step a).node e).player = Deed.applyAll (g.deedsOf e a) (g.node e).player := by
  cases a with
  | act e' c =>
    simp only [step, deedsOf]
    by_cases he : e' = e
    · subst he
      by_cases hhosts : g.Hosts e'
      · rw [if_pos hhosts, if_pos ⟨rfl, hhosts⟩, node_put_self]
        exact c.player_run _
      · rw [if_neg hhosts, if_neg fun h => hhosts h.2]
        rfl
    · rw [if_neg fun h : e' = e ∧ g.Hosts e => he h.1]
      split
      · rw [node_put_of_ne _ _ _ _ (Ne.symm he)]
        rfl
      · rfl
  | deliver place =>
    -- A place that holds no letter delivers nothing.
    by_cases hplace : place < g.inFlight.length
    · obtain ⟨before, l, after, hsplit, hlength, -, hstep⟩ := g.step_deliver_of_lt hplace
      rw [hstep, deedsOf_deliver_of_split hsplit hlength]
      exact (g.take place l).player_receive e l
    · have hle : g.inFlight.length ≤ place := Nat.le_of_not_lt hplace
      rw [g.step_deliver_of_le hle, deedsOf_deliver_of_le hle, Deed.applyAll_nil]

/-- A run leaves every player as its deeds say. -/
theorem player_run (g : Group) (e : Endpoint) (steps : List GroupStep) :
    ((g.run steps).node e).player = Deed.applyAll (g.deeds e steps) (g.node e).player := by
  induction steps generalizing g with
  | nil => rfl
  | cons a rest ih =>
    show (((g.step a).run rest).node e).player = _
    rw [ih (g.step a), g.player_step e a, deeds, Deed.applyAll_append]

end Group

end Ensemble
