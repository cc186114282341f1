import Ensemble.Proofs.Group.Basic
import Mathlib.Algebra.Order.BigOperators.Group.List
import Mathlib.Algebra.Order.Ring.Nat
import Mathlib.Algebra.Group.Action.Defs

/-!
# Deliveries come to an end

A control operation makes the coordinator write to everybody, each of them answers with a status,
and a status that does not agree makes the coordinator write to everybody again. `Letter.cost` is
what a letter can cause at most, counted in deliveries. Whoever receives a letter sends letters
that cost less together, whatever the players are, so the cost of all letters in flight bounds
every run of deliveries.

* `Group.Calm.deliver` — a delivery lowers the cost of the letters in flight.
* `Group.Calm.length_add_load_le` — so does every run of deliveries, by at least its length.
* `deliveries_end` — no run of deliveries is infinite, and what a single letter can cause.
-/

namespace Ensemble

/-! ## What a letter costs -/

/-- The message is a table, which changes the view of its receiver. -/
def Message.IsTable : Message → Prop
  | .clientList _ _ | .clientListUpdate _ => True
  | _ => False

namespace Letter

/-- The letter brings its receiver a table. -/
def BringsTable (l : Letter) : Prop := ∃ m, l.Says m ∧ m.IsTable

/-- The letter goes to the coordinator of the table. -/
def ToLeader (t : PeerTable) (l : Letter) : Prop :=
  t.coordinator.map Peer.endpoint = some l.parcel.target

instance (t : PeerTable) (l : Letter) : Decidable (l.ToLeader t) :=
  inferInstanceAs (Decidable (_ = _))

/-- How many deliveries a letter can cause among nodes that hold the table, its own included. -/
def cost (t : PeerTable) (l : Letter) : Nat :=
  match Message.decode l.parcel.bytes with
  | .ok (.control _) =>
    if l.ToLeader t then t.peers.length * t.peers.length else t.peers.length + 1
  | .ok (.sendStatus _) => if l.ToLeader t then t.peers.length else 1
  | _ => 1

variable {t : PeerTable} {l : Letter}

/-- What a control operation costs depends on whether it goes to the leader, who tells everybody. -/
theorem cost_of_control {op : ControlOp} (h : l.Says (.control op)) :
    l.cost t =
      if l.ToLeader t then t.peers.length * t.peers.length else t.peers.length + 1 := by
  rw [Says] at h
  rw [cost, h]

/-- A status costs more than itself only at the leader, who may answer it to everybody. -/
theorem cost_of_status {s : PlaybackStatus} (h : l.Says (.sendStatus s)) :
    l.cost t = if l.ToLeader t then t.peers.length else 1 := by
  rw [Says] at h
  rw [cost, h]

/-- There is one leader, so a letter goes to it exactly if that is its target. -/
theorem toLeader_iff {leader : Peer} (h : t.coordinator = some leader) :
    l.ToLeader t ↔ l.parcel.target = leader.endpoint := by
  rw [ToLeader, h, Option.map_some, Option.some.injEq, eq_comm]

/-- Whoever is written to as the leader is one of the peers. -/
theorem ToLeader.length_pos (h : l.ToLeader t) : 0 < t.peers.length := by
  obtain ⟨leader, hleader, -⟩ := Option.map_eq_some_iff.mp h
  exact List.length_pos_of_mem (mem_of_highest_eq_some hleader)

/-- Every letter costs something, so every delivery makes the load smaller. -/
theorem cost_pos : 0 < l.cost t := by
  rw [cost]
  split
  · split
    · rename_i hleads
      exact Nat.mul_pos hleads.length_pos hleads.length_pos
    · exact Nat.succ_pos _
  · split
    · rename_i hleads
      exact hleads.length_pos
    · exact Nat.one_pos
  · exact Nat.one_pos

/-- If no letter that brings the message to one of the peers costs more than `c`, then all of them
together cost at most `c` for each peer. -/
theorem sum_cost_parcelsTo_le {peers : List Peer} {m : Message} {e : Endpoint} (c : Nat)
    (h : ∀ l : Letter, l.Says m → ∀ p ∈ peers, l.parcel.target = p.endpoint → l.cost t ≤ c) :
    ((parcelsTo peers m).map fun parcel => cost t ⟨e, parcel⟩).sum ≤ peers.length * c := by
  have hall : ∀ x ∈ (parcelsTo peers m).map fun parcel => cost t ⟨e, parcel⟩, x ≤ c := by
    intro x hx
    obtain ⟨parcel, hparcel, rfl⟩ := List.mem_map.mp hx
    obtain ⟨p, hp, htarget, hdecode⟩ := mem_parcelsTo hparcel
    exact h ⟨e, parcel⟩ hdecode p hp htarget
  refine (List.sum_le_card_nsmul _ c hall).trans ?_
  rw [smul_eq_mul, List.length_map]
  exact Nat.mul_le_mul_right c (length_parcelsTo_le peers m)

end Letter

/-! ## What a node sends and keeps -/

namespace Node

/-- Only a table changes the receiver's view. -/
theorem view_handle (n : Node) {m : Message} (hm : ¬ m.IsTable) (sender : Endpoint) :
    (n.handle m sender).node.view = n.view := by
  cases m with
  | control op =>
    show (n.onControl op).1.view = n.view
    simp only [onControl]
    split
    · rfl
    · split <;> rfl
  | changeSong song enqueue => cases enqueue <;> rfl
  | sendStatus s =>
    show (n.onStatus s sender).1.view = n.view
    rw [onStatus]
    split
    · split <;> rfl
    · split <;> rfl
  -- Only a table changes what a node knows of the group.
  | clientList ownId table => exact (hm trivial).elim
  | clientListUpdate peers => exact (hm trivial).elim
  | disconnect _ | connect _ | queryStatus | election _ => rfl

/-- What a node sends in reply to a message is never a table. -/
theorem not_isTable_of_mem_handle (n : Node) (m : Message) (sender : Endpoint) {parcel : Parcel}
    (h : parcel ∈ (n.handle m sender).sent) :
    ∃ m', Message.decode parcel.bytes = .ok m' ∧ ¬ m'.IsTable := by
  have hparcels : ∀ peers m', ¬ m'.IsTable → parcel ∈ parcelsTo peers m' →
      ∃ m', Message.decode parcel.bytes = .ok m' ∧ ¬ m'.IsTable := by
    intro peers m' hm' hmem
    obtain ⟨_, -, -, hdecode⟩ := mem_parcelsTo hmem
    exact ⟨m', hdecode, hm'⟩
  cases m with
  | control op =>
    change parcel ∈ (n.onControl op).2 at h
    simp only [onControl] at h
    split at h
    · exact hparcels _ (.control op) id h
    · split at h
      · exact hparcels _ (.sendStatus (n.applyOp op).status) id h
      · exact absurd h List.not_mem_nil
  | sendStatus s =>
    change parcel ∈ (n.onStatus s sender).2 at h
    rw [onStatus] at h
    split at h
    · split at h
      · exact absurd h List.not_mem_nil
      · exact hparcels _ (.sendStatus n.status) id h
    · split at h <;> exact absurd h List.not_mem_nil
  | changeSong _ _ | queryStatus | clientList _ _ | clientListUpdate _ | connect _ | disconnect _
  | election _ => exact absurd h List.not_mem_nil

/-- A follower sends nothing in reply to a status, whether it takes it over or not. -/
theorem Holds.onStatus_follower_sent {n : Node} {id : PeerId} {t : PeerTable} {leader : Peer}
    (h : n.Holds id t leader) (hne : id ≠ leader.id) (s : PlaybackStatus) (sender : Endpoint) :
    (n.onStatus s sender).2 = [] := by
  have hfollows : ¬ n.view.isCoordinator = true := by
    rw [h.isCoordinator_follower hne]
    exact Bool.false_ne_true
  rw [onStatus, if_neg hfollows]
  split <;> rfl

end Node

namespace Group

/-- The cost of all letters in flight. -/
def load (g : Group) : Nat := (g.inFlight.map (Letter.cost g.table)).sum

/-- A uniform group in which no table is on its way. -/
structure Calm (g : Group) : Prop extends g.Uniform where
  no_tables : ∀ l ∈ g.inFlight, ¬ l.BringsTable

/-- Letters are delivered one after the other, each from a place that holds one. -/
def Delivers : Group → List Nat → Prop
  | _, [] => True
  | g, place :: rest => place < g.inFlight.length ∧ (g.step (.deliver place)).Delivers rest

instance decidableDelivers : (g : Group) → (places : List Nat) → Decidable (g.Delivers places)
  | _, [] => isTrue trivial
  | g, place :: rest =>
    have := decidableDelivers (g.step (.deliver place)) rest
    inferInstanceAs (Decidable (_ ∧ (g.step (.deliver place)).Delivers rest))

/-! ## What a delivery costs -/

/-- What a node sends adds its cost to the load. -/
theorem load_put (g : Group) (e : Endpoint) (n : Node) (sent : List Parcel) :
    (g.put e n sent).load =
      g.load + (sent.map fun parcel => Letter.cost g.table ⟨e, parcel⟩).sum := by
  rw [load, load, table_put, inFlight_put, List.map_append, List.sum_append, List.map_map]
  rfl

/-- A letter that is taken out takes its cost with it. -/
theorem load_take {g : Group} {place : Nat} {l : Letter} {before after : List Letter}
    (hsplit : g.inFlight = before ++ l :: after)
    (htake : (g.take place l).inFlight = before ++ after) :
    g.load = (g.take place l).load + l.cost g.table := by
  rw [load, load, table_take, htake, hsplit, List.map_append, List.map_append, List.map_cons,
    List.sum_append, List.sum_append, List.sum_cons]
  omega

namespace Uniform

variable {g : Group} {leader q : Peer}

/-- The leader writes to fewer peers than there are. -/
theorem length_except_lt (hleader : g.table.coordinator = some leader) :
    (g.table.except leader.id).length < g.table.peers.length := by
  have hmem : leader ∈ g.table.peers := mem_of_highest_eq_some hleader
  exact List.length_filter_lt_length_iff_exists.mpr ⟨leader, hmem, by simp⟩

/-- What the leader sends to the others does not come back to it. -/
theorem not_toLeader_of_mem_except (h : g.Uniform) (hleader : g.table.coordinator = some leader)
    {l : Letter} {p : Peer} (hp : p ∈ g.table.except leader.id)
    (htarget : l.parcel.target = p.endpoint) : ¬ l.ToLeader g.table := by
  obtain ⟨hmem, hid⟩ := List.mem_filter.mp hp
  rw [Letter.toLeader_iff hleader, htarget]
  refine h.endpoint_ne_leader hleader hmem fun hsame => ?_
  rw [hsame] at hid
  simp at hid

/-- What the leader sends on a control operation costs less than the letter did: it writes to fewer
than `n` followers, and each of these letters costs `n + 1`. -/
theorem cost_onControl_leader_lt (h : g.Uniform) (hleader : g.table.coordinator = some leader)
    (op : ControlOp) :
    (((g.node leader.endpoint).onControl op).2.map fun parcel =>
      Letter.cost g.table ⟨leader.endpoint, parcel⟩).sum <
        g.table.peers.length * g.table.peers.length := by
  rw [(h.holds_leader hleader).onControl_leader]
  have hlt := length_except_lt hleader
  -- Each of the others is told once, and a letter to one of them costs at most one more than there
  -- are members.
  calc
    ((parcelsTo (g.table.except leader.id) (.control op)).map fun parcel =>
          Letter.cost g.table ⟨leader.endpoint, parcel⟩).sum
      ≤ (g.table.except leader.id).length * (g.table.peers.length + 1) :=
      Letter.sum_cost_parcelsTo_le _ fun l hmessage p hp htarget => by
        rw [Letter.cost_of_control hmessage,
          if_neg (h.not_toLeader_of_mem_except hleader hp htarget)]
    _ = (g.table.except leader.id).length * g.table.peers.length +
          (g.table.except leader.id).length := Nat.mul_succ _ _
    _ < (g.table.except leader.id).length * g.table.peers.length + g.table.peers.length :=
      Nat.add_lt_add_left hlt _
    _ = ((g.table.except leader.id).length + 1) * g.table.peers.length := (Nat.succ_mul _ _).symm
    _ ≤ g.table.peers.length * g.table.peers.length := Nat.mul_le_mul_right _ hlt

/-- A follower answers a control operation with its status. -/
theorem cost_onControl_follower_le (h : g.Uniform) (hleader : g.table.coordinator = some leader)
    (hq : q ∈ g.table.peers) (hne : q ≠ leader) (op : ControlOp) :
    (((g.node q.endpoint).onControl op).2.map fun parcel =>
      Letter.cost g.table ⟨q.endpoint, parcel⟩).sum ≤ g.table.peers.length := by
  rw [(h.holds hleader hq).onControl_follower (h.id_ne_leader hleader hq hne)]
  refine (Letter.sum_cost_parcelsTo_le g.table.peers.length
    fun l hmessage p hp htarget => ?_).trans ?_
  · obtain rfl := List.mem_singleton.mp hp
    rw [Letter.cost_of_status hmessage, if_pos ((Letter.toLeader_iff hleader).mpr htarget)]
  · rw [List.length_singleton, Nat.one_mul]

/-- The leader answers a status with its own to fewer than `n` followers, or not at all. -/
theorem cost_onStatus_leader_lt (h : g.Uniform) (hleader : g.table.coordinator = some leader)
    (s : PlaybackStatus) (sender : Endpoint) :
    (((g.node leader.endpoint).onStatus s sender).2.map fun parcel =>
      Letter.cost g.table ⟨leader.endpoint, parcel⟩).sum < g.table.peers.length := by
  have hlt := length_except_lt hleader
  have hholds := h.holds_leader hleader
  by_cases hagrees : (g.node leader.endpoint).status.agrees s
      (g.node leader.endpoint).config.tolerance = true
  · rw [hholds.onStatus_leader_of_agrees hagrees]
    exact Nat.zero_lt_of_lt hlt
  · rw [hholds.onStatus_leader_of_not_agrees hagrees]
    refine lt_of_le_of_lt (Letter.sum_cost_parcelsTo_le 1 fun l hmessage p hp htarget => ?_) ?_
    · rw [Letter.cost_of_status hmessage,
        if_neg (h.not_toLeader_of_mem_except hleader hp htarget)]
    · rwa [Nat.mul_one]

/-- Whoever receives a letter that is no table, what it sends costs less than the letter did. -/
theorem cost_handle_lt (h : g.Uniform) (hq : q ∈ g.table.peers) {l : Letter} {m : Message}
    (hmessage : l.Says m) (htarget : l.parcel.target = q.endpoint) :
    (((g.node q.endpoint).handle m l.source).sent.map fun parcel =>
      Letter.cost g.table ⟨q.endpoint, parcel⟩).sum < l.cost g.table := by
  obtain ⟨leader, hleader⟩ := PeerTable.exists_coordinator hq
  cases m with
  | control op =>
    rw [Letter.cost_of_control hmessage]
    -- The leader pays for the copies with the square, a follower for its report with what the
    -- report costs there.
    by_cases hne : q = leader
    · rw [if_pos ((Letter.toLeader_iff hleader).mpr (by rw [htarget, hne])), hne]
      exact h.cost_onControl_leader_lt hleader op
    · rw [if_neg fun hleads => h.endpoint_ne_leader hleader hq hne
        (htarget.symm.trans ((Letter.toLeader_iff hleader).mp hleads))]
      exact Nat.lt_succ_of_le (h.cost_onControl_follower_le hleader hq hne op)
  | sendStatus s =>
    by_cases hne : q = leader
    · rw [Letter.cost_of_status hmessage,
        if_pos ((Letter.toLeader_iff hleader).mpr (by rw [htarget, hne])), hne]
      exact h.cost_onStatus_leader_lt hleader s l.source
    · have hsent : ((g.node q.endpoint).handle (.sendStatus s) l.source).sent = [] :=
        (h.holds hleader hq).onStatus_follower_sent (h.id_ne_leader hleader hq hne) s l.source
      rw [hsent]
      exact Letter.cost_pos
  | changeSong _ _ | queryStatus | clientList _ _ | clientListUpdate _ | connect _ | disconnect _
  | election _ => exact Letter.cost_pos

end Uniform

/-! ## Runs of deliveries -/

/-- A letter that no longer is in flight is handled, and costs more than what is sent then. -/
theorem Uniform.load_receive_lt {g : Group} (h : g.Uniform) (l : Letter) :
    (g.receive l).load < g.load + l.cost g.table := by
  rw [receive]
  split
  · rename_i hhosts
    obtain ⟨q, hq, htarget⟩ := hhosts
    rw [load_put, ← htarget]
    refine Nat.add_lt_add_left ?_ _
    rw [Node.receive]
    split
    · rename_i m hmessage
      exact h.cost_handle_lt hq hmessage htarget.symm
    · exact Letter.cost_pos
  · exact Nat.lt_add_of_pos_right Letter.cost_pos

/-- A letter that is no table leaves the group uniform, and brings no table on its way. -/
theorem Calm.receive {g : Group} (h : g.Calm) {l : Letter} (hl : ¬ l.BringsTable) :
    (g.receive l).Calm := by
  rw [Group.receive]
  split
  · rw [Node.receive]
    split
    · rename_i m hmessage
      have hm : ¬ m.IsTable := fun hm => hl ⟨m, hmessage, hm⟩
      refine ⟨h.toUniform.put (Node.view_handle _ hm _) _, fun l' hl' => ?_⟩
      rw [inFlight_put, List.mem_append, List.mem_map] at hl'
      -- New letters are those that the receiver sends, and a member sends no table.
      rcases hl' with hold | ⟨parcel, hparcel, rfl⟩
      · exact h.no_tables l' hold
      · obtain ⟨m', hdecode, hm'⟩ := Node.not_isTable_of_mem_handle _ m _ hparcel
        rintro ⟨m'', hmessage', hm''⟩
        cases Except.ok.inj (hdecode.symm.trans hmessage')
        exact hm' hm''
    · refine ⟨h.toUniform.put rfl _, fun l' hl' => ?_⟩
      rcases List.mem_append.mp hl' with hold | hnew
      · exact h.no_tables l' hold
      · exact absurd hnew List.not_mem_nil
  · exact h

/-- A delivery leaves the group calm and lowers the cost of the letters in flight. -/
theorem Calm.deliver {g : Group} (h : g.Calm) {place : Nat} (hplace : place < g.inFlight.length) :
    (g.step (.deliver place)).Calm ∧ (g.step (.deliver place)).load < g.load := by
  obtain ⟨before, l, after, hsplit, -, htake, hstep⟩ := g.step_deliver_of_lt hplace
  have hl : l ∈ g.inFlight := hsplit ▸ List.mem_append_cons_self
  have hcalm : (g.take place l).Calm :=
    ⟨h.toUniform.take place l, fun l' hl' => h.no_tables l' (List.mem_of_mem_eraseIdx hl')⟩
  rw [hstep]
  refine ⟨hcalm.receive (h.no_tables l hl), ?_⟩
  rw [load_take hsplit htake]
  exact hcalm.toUniform.load_receive_lt l

/-- A run of deliveries is no longer than the cost of the letters that are delivered in it. -/
theorem Calm.length_add_load_le {g : Group} (h : g.Calm) {places : List Nat}
    (hdelivers : g.Delivers places) :
    places.length + (g.run (places.map .deliver)).load ≤ g.load := by
  induction places generalizing g with
  | nil => exact Nat.le_of_eq (Nat.zero_add _)
  | cons place rest ih =>
    obtain ⟨hplace, hrest⟩ := hdelivers
    obtain ⟨hcalm, hlt⟩ := h.deliver hplace
    have hle := ih hcalm hrest
    rw [List.length_cons]
    show rest.length + 1 + ((g.step (.deliver place)).run (rest.map .deliver)).load ≤ g.load
    omega

end Group

/-- Whatever the players are, and in whatever order letters other than tables are delivered: a run
of deliveries is no longer than the letters cost together, so none is infinite. A single control
operation causes at most `n * n` deliveries if it goes to the coordinator and at most `n + 1` if it
does not, and a status that goes to the coordinator causes at most `n`. -/
theorem deliveries_end (g : Group) (huniform : g.Uniform)
    (htables : ∀ l ∈ g.inFlight, ¬ l.BringsTable) :
    (∀ places, g.Delivers places → places.length ≤ (g.inFlight.map (Letter.cost g.table)).sum) ∧
      (¬ ∃ place : Nat → Nat, ∀ k, g.Delivers ((List.range k).map place)) ∧
      ∀ l, g.inFlight = [l] → ∀ places, g.Delivers places →
        (∀ op, l.Says (.control op) → l.ToLeader g.table →
          places.length ≤ g.table.peers.length * g.table.peers.length) ∧
        (∀ op, l.Says (.control op) → ¬ l.ToLeader g.table →
          places.length ≤ g.table.peers.length + 1) ∧
        (∀ s, l.Says (.sendStatus s) → l.ToLeader g.table →
          places.length ≤ g.table.peers.length) := by
  have hcalm : g.Calm := ⟨huniform, htables⟩
  have hbound : ∀ places, g.Delivers places → places.length ≤ g.load := by
    intro places hdelivers
    have := hcalm.length_add_load_le hdelivers
    omega
  refine ⟨hbound, ?_, fun l hflight places hdelivers => ?_⟩
  · -- Of a run without end the first pieces would be longer than any bound.
    rintro ⟨place, hdelivers⟩
    have hlong := hbound _ (hdelivers (g.load + 1))
    rw [List.length_map, List.length_range] at hlong
    exact Nat.not_succ_le_self _ hlong
  · have hle := hbound places hdelivers
    rw [Group.load, hflight, List.map_singleton, List.sum_singleton] at hle
    refine ⟨fun op hmessage hleads => ?_, fun op hmessage hleads => ?_, fun s hmessage hleads => ?_⟩
    · rwa [Letter.cost_of_control hmessage, if_pos hleads] at hle
    · rwa [Letter.cost_of_control hmessage, if_neg hleads] at hle
    · rwa [Letter.cost_of_status hmessage, if_pos hleads] at hle

/-- A table of three peers. -/
def scatteredTable : PeerTable :=
  PeerTable.ofPeers [⟨.v4 ⟨10, 0, 0, 1⟩, 43210, ⟨4⟩⟩, ⟨.v4 ⟨10, 0, 0, 2⟩, 43210, ⟨8⟩⟩,
    ⟨.v4 ⟨10, 0, 0, 3⟩, 43210, ⟨6⟩⟩]

/-- A node that holds the table and has just begun a song. -/
def scatteredNode (id : PeerId) (song : SongId) : Node :=
  ⟨⟨43210, 2000, 2, true⟩, View.adopt id scatteredTable, Player.start song⟩

/-- Three nodes that play three songs; somebody asks the coordinator for a pause. -/
def scattered : Group where
  table := scatteredTable
  node := fun e =>
    if e.address = .v4 ⟨10, 0, 0, 1⟩ then scatteredNode ⟨4⟩ 1
    else if e.address = .v4 ⟨10, 0, 0, 2⟩ then scatteredNode ⟨8⟩ 2
    else scatteredNode ⟨6⟩ 3
  inFlight := [⟨⟨.v4 ⟨10, 0, 0, 9⟩, 50000⟩, ⟨⟨.v4 ⟨10, 0, 0, 2⟩, 43210⟩, [0, 2]⟩⟩]
  delivered := []

/-- Both followers answer before a repair reaches them, and so the bound is reached. -/
theorem deliveries_end_scattered :
    scattered.Delivers (List.replicate 9 0) ∧
      (scattered.run ((List.replicate 9 0).map .deliver)).inFlight = [] ∧
      ∀ places, scattered.Delivers places → places.length ≤ 9 := by
  have huniform : scattered.Uniform := ⟨by decide, by decide, by decide⟩
  have htables : ∀ l ∈ scattered.inFlight, ¬ l.BringsTable := by
    intro l hl
    obtain rfl := List.mem_singleton.mp hl
    rintro ⟨m, hmessage, hm⟩
    obtain rfl : Message.control .stop = m := Except.ok.inj hmessage
    exact hm
  refine ⟨by decide +kernel, by decide +kernel, fun places hdelivers => ?_⟩
  obtain ⟨-, -, hsingle⟩ := deliveries_end scattered huniform htables
  exact (hsingle _ rfl places hdelivers).1 .stop rfl (by decide)

end Ensemble
