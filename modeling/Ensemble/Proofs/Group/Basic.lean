import Ensemble.Cluster.Basic
import Ensemble.Proofs.Group.Member
import Mathlib.Data.List.Nodup

/-!
# Groups

A `Group` is a number of nodes that hold one table, with one node at the endpoint of each of its
peers, the letters on their way, and those that were delivered. Letters can be delivered in any
order; what a delivery causes is sent at once, and replies are dropped. `Group.step` lets somebody
give a node a local command, or delivers one letter.

* `Group.step_deliver_of_lt`, `Group.step_deliver_of_le`, `Group.step_deliver_cases` — what a
  delivery takes out, and who handles it.
* `Group.channel_put_of_ne`, `Group.channel_eq_cons_take` — what becomes of the letters between two
  endpoints.
* `Group.Uniform` — every node has the id of its peer, and ids and endpoints are told apart.
-/

namespace Ensemble

/-- A command that is given at a node by hand. -/
inductive LocalCommand where
  | control (op : ControlOp)
  | togglePause
  | skip
  | enqueue (song : SongId)
  deriving DecidableEq, Repr

namespace LocalCommand

/-- What a node does with a local command, and what it sends. -/
def run (n : Node) : LocalCommand → Node × List Parcel
  | .control op => n.control op
  | .togglePause => n.togglePause
  | .skip => n.skip
  | .enqueue song => n.enqueue song

/-- The command is a control operation, not a song. -/
def IsControl : LocalCommand → Prop
  | .enqueue _ => False
  | _ => True

instance (c : LocalCommand) : Decidable c.IsControl :=
  match c with
  | .control _ | .togglePause | .skip => isTrue trivial
  | .enqueue _ => isFalse id

/-- Whatever is not a song is one of the control operations. -/
theorem exists_run_eq_control (n : Node) {c : LocalCommand} (h : c.IsControl) :
    ∃ op, c.run n = n.control op := by
  cases c with
  | control op => exact ⟨op, rfl⟩
  | togglePause => exact ⟨_, rfl⟩
  | skip => exact ⟨.skip, rfl⟩
  | enqueue song => exact h.elim

end LocalCommand

/-- Whether the letter goes from one endpoint to another. -/
def Letter.goes (source target : Endpoint) (l : Letter) : Bool :=
  l.source == source && l.parcel.target == target

/-- A letter belongs to the channel from its source to its target. -/
@[simp] theorem Letter.goes_iff {source target : Endpoint} {l : Letter} :
    l.goes source target = true ↔ l.source = source ∧ l.parcel.target = target := by
  rw [goes, Bool.and_eq_true, beq_iff_eq, beq_iff_eq]

/-- The letter's bytes are a message. -/
def Letter.Says (l : Letter) (m : Message) : Prop := Message.decode l.parcel.bytes = .ok m

/-- Nodes that hold one table, the letters on their way, and those that were delivered. -/
structure Group where
  table : PeerTable
  /-- The node at an endpoint; only the endpoints of the table matter. -/
  node : Endpoint → Node
  inFlight : List Letter
  delivered : List Letter

/-- Something that happens to a group. -/
inductive GroupStep where
  | act (e : Endpoint) (c : LocalCommand)
  /-- The letter at a place of those in flight is delivered. -/
  | deliver (place : Nat)

/-- The step gives no node a song. -/
def GroupStep.IsControl : GroupStep → Prop
  | .act _ c => c.IsControl
  | .deliver _ => True

instance (a : GroupStep) : Decidable a.IsControl :=
  match a with
  | .act _ c => inferInstanceAs (Decidable c.IsControl)
  | .deliver _ => isTrue trivial

namespace Group

/-- One of the nodes listens at the endpoint. -/
def Hosts (g : Group) (e : Endpoint) : Prop := ∃ p ∈ g.table.peers, p.endpoint = e

instance (g : Group) (e : Endpoint) : Decidable (g.Hosts e) :=
  inferInstanceAs (Decidable (∃ p ∈ g.table.peers, p.endpoint = e))

/-- The node at `e` has become `n`, and has sent some parcels. -/
def put (g : Group) (e : Endpoint) (n : Node) (sent : List Parcel) : Group :=
  { g with
    node := Function.update g.node e n
    inFlight := g.inFlight ++ sent.map fun p => ⟨e, p⟩ }

/-- The letter at a place is on its way no longer. -/
def take (g : Group) (place : Nat) (l : Letter) : Group :=
  { g with inFlight := g.inFlight.eraseIdx place, delivered := g.delivered ++ [l] }

/-- The node to which the letter is addressed handles it; without such a node it is lost. -/
def receive (g : Group) (l : Letter) : Group :=
  if g.Hosts l.parcel.target then
    let reaction := (g.node l.parcel.target).receive l.parcel.bytes l.source
    g.put l.parcel.target reaction.node reaction.sent
  else g

/-- Let one thing happen. -/
def step (g : Group) : GroupStep → Group
  | .act e c =>
    if g.Hosts e then g.put e (c.run (g.node e)).1 (c.run (g.node e)).2 else g
  | .deliver place =>
    match g.inFlight[place]? with
    | some l => (g.take place l).receive l
    | none => g

/-- Let things happen one after the other. -/
def run (g : Group) (steps : List GroupStep) : Group := steps.foldl step g

/-- The letters from one endpoint to another, in the order in which they were sent. -/
def channel (g : Group) (source target : Endpoint) : List Letter :=
  g.inFlight.filter (Letter.goes source target)

/-- A delivery of a letter of the source leaves behind no earlier letter of the source to the same
endpoint. -/
def InOrder (g : Group) (source : Endpoint) : GroupStep → Prop
  | .act _ _ => True
  | .deliver place => ∀ l ∈ g.inFlight[place]?, l.source = source →
    ∀ l' ∈ g.inFlight.take place, ¬ l'.goes source l.parcel.target = true

instance (g : Group) (source : Endpoint) (a : GroupStep) : Decidable (g.InOrder source a) :=
  match a with
  | .act _ _ => isTrue trivial
  | .deliver place => inferInstanceAs (Decidable (∀ l ∈ g.inFlight[place]?, l.source = source →
    ∀ l' ∈ g.inFlight.take place, ¬ l'.goes source l.parcel.target = true))

/-! ## What a step changes -/

section Put

variable (g : Group) (e : Endpoint) (n : Node) (sent : List Parcel)

@[simp] theorem table_put : (g.put e n sent).table = g.table := rfl

@[simp] theorem delivered_put : (g.put e n sent).delivered = g.delivered := rfl

/-- What a node sends is in flight behind all the rest. -/
@[simp] theorem inFlight_put :
    (g.put e n sent).inFlight = g.inFlight ++ sent.map fun p => ⟨e, p⟩ := rfl

/-- The node that acts is replaced by what it has become. -/
@[simp] theorem node_put_self : (g.put e n sent).node e = n := by
  simp only [put, Function.update_self]

/-- All other nodes stay as they are. -/
theorem node_put_of_ne {e' : Endpoint} (h : e' ≠ e) : (g.put e n sent).node e' = g.node e' := by
  simp only [put, Function.update_of_ne h]

/-- A node that has not changed and sends nothing leaves the group as it is. -/
theorem put_self : g.put e (g.node e) [] = g := by
  simp only [put, Function.update_eq_self, List.map_nil, List.append_nil]

end Put

@[simp] theorem table_take (g : Group) (place : Nat) (l : Letter) :
    (g.take place l).table = g.table := rfl

@[simp] theorem node_take (g : Group) (place : Nat) (l : Letter) :
    (g.take place l).node = g.node := rfl

/-- A delivery from a place that holds a letter takes out that letter. -/
theorem step_deliver_of_lt (g : Group) {place : Nat} (h : place < g.inFlight.length) :
    ∃ before l after, g.inFlight = before ++ l :: after ∧ before.length = place ∧
      (g.take place l).inFlight = before ++ after ∧
      g.step (.deliver place) = (g.take place l).receive l := by
  obtain ⟨before, l, after, hsplit, hlength, hget, herase⟩ := exists_split_of_lt h
  exact ⟨before, l, after, hsplit, hlength, herase, by simp only [step, hget]⟩

/-- A delivery from a place that holds no letter does nothing. -/
theorem step_deliver_of_le (g : Group) {place : Nat} (h : g.inFlight.length ≤ place) :
    g.step (.deliver place) = g := by
  have hnone : g.inFlight[place]? = none := List.getElem?_eq_none h
  simp only [step, hnone]

/-- A delivery finds no letter, or takes out the letter at its place. -/
theorem step_deliver_cases (g : Group) (place : Nat) :
    g.step (.deliver place) = g ∨
    ∃ before l after, g.inFlight = before ++ l :: after ∧ before.length = place ∧
      (g.take place l).inFlight = before ++ after ∧
      g.step (.deliver place) = (g.take place l).receive l := by
  by_cases h : place < g.inFlight.length
  · exact .inr (g.step_deliver_of_lt h)
  · exact .inl (g.step_deliver_of_le (Nat.le_of_not_lt h))

/-- A letter to one of the peers is handled by the peer's node. -/
theorem receive_of_mem {g : Group} {l : Letter} {q : Peer} (hq : q ∈ g.table.peers)
    (htarget : l.parcel.target = q.endpoint) :
    g.receive l =
      g.put q.endpoint ((g.node q.endpoint).receive l.parcel.bytes l.source).node
        ((g.node q.endpoint).receive l.parcel.bytes l.source).sent := by
  rw [receive, if_pos ⟨q, hq, htarget.symm⟩, htarget]

/-- The group stays the same throughout: no step changes the table. -/
@[simp] theorem table_step (g : Group) (a : GroupStep) : (g.step a).table = g.table := by
  cases a with
  | act e c =>
    rw [step]
    split <;> rfl
  | deliver place =>
    obtain hnone | ⟨_, l, _, -, -, -, hstep⟩ := g.step_deliver_cases place
    · rw [hnone]
    · rw [hstep, receive]
      split <;> rfl

/-- No run changes the table. -/
@[simp] theorem table_run (g : Group) (steps : List GroupStep) :
    (g.run steps).table = g.table := by
  induction steps generalizing g with
  | nil => rfl
  | cons a rest ih => exact (ih (g.step a)).trans (g.table_step a)

/-! ## Channels -/

/-- What a node sends leaves the channels of other sources alone. -/
theorem channel_put_of_ne (g : Group) {e source : Endpoint} (h : e ≠ source) (n : Node)
    (sent : List Parcel) (target : Endpoint) :
    (g.put e n sent).channel source target = g.channel source target := by
  have hnil : (sent.map fun p => (⟨e, p⟩ : Letter)).filter (Letter.goes source target) = [] := by
    simp [List.filter_eq_nil_iff, h]
  rw [channel, inFlight_put, List.filter_append, hnil, List.append_nil, channel]

/-- A letter that is taken out leaves every channel that it is not in alone. -/
theorem channel_take_of_ne {g : Group} {place : Nat} {l : Letter} {before after : List Letter}
    (hsplit : g.inFlight = before ++ l :: after)
    (htake : (g.take place l).inFlight = before ++ after) {source target : Endpoint}
    (hne : ¬ l.goes source target = true) :
    (g.take place l).channel source target = g.channel source target := by
  rw [channel, htake, channel, hsplit, List.filter_append, List.filter_append,
    List.filter_cons_of_neg hne]

/-- A letter that overtakes no earlier one is the first of its channel. -/
theorem channel_eq_cons_take {g : Group} {place : Nat} {l : Letter} {before after : List Letter}
    (hsplit : g.inFlight = before ++ l :: after)
    (htake : (g.take place l).inFlight = before ++ after) {source target : Endpoint}
    (hgoes : l.goes source target = true)
    (hfirst : ∀ l' ∈ before, ¬ l'.goes source target = true) :
    g.channel source target = l :: (g.take place l).channel source target := by
  have hbefore : before.filter (Letter.goes source target) = [] :=
    List.filter_eq_nil_iff.mpr hfirst
  rw [channel, hsplit, List.filter_append, hbefore, List.nil_append,
    List.filter_cons_of_pos hgoes, channel, htake, List.filter_append, hbefore, List.nil_append]

/-! ## Groups with a table that tells its peers apart -/

/-- Ids and endpoints tell the peers apart, and every node holds its peer's id and the table. -/
structure Uniform (g : Group) : Prop where
  ids_nodup : (g.table.peers.map (·.id)).Nodup
  endpoints_nodup : (g.table.peers.map Peer.endpoint).Nodup
  view_eq : ∀ p ∈ g.table.peers, (g.node p.endpoint).view = View.adopt p.id g.table

namespace Uniform

variable {g : Group} (h : g.Uniform)

include h

/-- A member is known by its id. -/
theorem eq_of_id_eq {p q : Peer} (hp : p ∈ g.table.peers) (hq : q ∈ g.table.peers)
    (heq : p.id = q.id) : p = q :=
  List.inj_on_of_nodup_map h.ids_nodup hp hq heq

/-- A member is known by its endpoint. -/
theorem eq_of_endpoint_eq {p q : Peer} (hp : p ∈ g.table.peers) (hq : q ∈ g.table.peers)
    (heq : p.endpoint = q.endpoint) : p = q :=
  List.inj_on_of_nodup_map h.endpoints_nodup hp hq heq

/-- Every member holds the table of the group under its own id. -/
theorem holds {leader p : Peer} (hleader : g.table.coordinator = some leader)
    (hp : p ∈ g.table.peers) : (g.node p.endpoint).Holds p.id g.table leader :=
  ⟨h.view_eq p hp, hleader⟩

/-- So does the leader. -/
theorem holds_leader {leader : Peer} (hleader : g.table.coordinator = some leader) :
    (g.node leader.endpoint).Holds leader.id g.table leader :=
  h.holds hleader (mem_of_highest_eq_some hleader)

/-- A follower has another id than the leader. -/
theorem id_ne_leader {leader p : Peer} (hleader : g.table.coordinator = some leader)
    (hp : p ∈ g.table.peers) (hne : p ≠ leader) : p.id ≠ leader.id :=
  fun heq => hne (h.eq_of_id_eq hp (mem_of_highest_eq_some hleader) heq)

/-- A follower is somewhere else than the leader. -/
theorem endpoint_ne_leader {leader p : Peer} (hleader : g.table.coordinator = some leader)
    (hp : p ∈ g.table.peers) (hne : p ≠ leader) : p.endpoint ≠ leader.endpoint :=
  fun heq => hne (h.eq_of_endpoint_eq hp (mem_of_highest_eq_some hleader) heq)

/-- A node that keeps its view leaves the group uniform. -/
theorem put {e : Endpoint} {n : Node} (hview : n.view = (g.node e).view) (sent : List Parcel) :
    (g.put e n sent).Uniform := by
  refine ⟨h.ids_nodup, h.endpoints_nodup, fun p hp => ?_⟩
  by_cases he : p.endpoint = e
  · rw [he, node_put_self, hview, ← he]
    exact h.view_eq p hp
  · rw [node_put_of_ne g e n sent he]
    exact h.view_eq p hp

/-- To take a letter out of the flight touches no node. -/
theorem take (place : Nat) (l : Letter) : (g.take place l).Uniform :=
  ⟨h.ids_nodup, h.endpoints_nodup, h.view_eq⟩

end Uniform

end Group

end Ensemble
