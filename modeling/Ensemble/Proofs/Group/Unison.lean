import Ensemble.Proofs.Group.Deed
import Ensemble.Proofs.Group.Deliveries
import Mathlib.Data.List.Count

/-!
# One command keeps the players in unison

In a group whose players all show the same, a command is given at one node, and the letters that it
causes are delivered in any order. Throughout, the number of letters in flight that bring a node the
order and the number of times it has obeyed add up to one. So nobody obeys twice, and once no letter
is in flight everybody has obeyed. A follower's report says what the coordinator then shows as well,
and the coordinator has nothing to repair.

* `Group.Steady` — what holds while the letters of a command are delivered.
* `Group.Asked` — a control operation is on its way to the coordinator.
* `Group.Spread` — the order is on its way to everybody who has not obeyed.
* `Group.Underway.deliver`, `Group.Underway.run` — no delivery and no run of deliveries breaks this.
* `one_command_unison` — everybody obeys once, nothing is repaired, and all show the same again.
-/

namespace Ensemble

/-! ## Orders and reports -/

/-- Every order has bytes, which are the same for all. -/
theorem Order.exists_parcelsTo (o : Order) :
    ∃ bytes, Message.decode bytes = .ok o.message ∧
      ∀ peers, parcelsTo peers o.message = peers.map fun p => ⟨p.endpoint, bytes⟩ := by
  have hbounds : o.message.WithinBounds := by
    cases o <;> trivial
  obtain ⟨bytes, -, hdecode, hparcels⟩ := Ensemble.exists_parcelsTo hbounds
  exact ⟨bytes, hdecode, hparcels⟩

/-- An order is no table. -/
theorem Order.not_isTable_message (o : Order) : ¬ o.message.IsTable := by
  cases o <;> exact id

/-- A letter with the bytes of an order is no status. -/
theorem Order.not_status_of_bytes {o : Order} {bytes : Bytes} {l : Letter}
    (hbytes : Message.decode bytes = .ok o.message) (hl : l.parcel.bytes = bytes)
    (s : PlaybackStatus) : ¬ l.Says (.sendStatus s) := by
  intro hmessage
  rw [Letter.Says, hl, hbytes] at hmessage
  have hsame : o.message = .sendStatus s := Except.ok.inj hmessage
  cases o <;> cases hsame

/-- Whatever has these bytes passes the order on. -/
theorem Node.deedsOnBytes_of_order {n : Node} {bytes : Bytes} {o : Order}
    (h : Message.decode bytes = .ok o.message) (sender : Endpoint) :
    n.deedsOnBytes bytes sender = [.obey o] := by
  rw [deedsOnBytes, h]
  cases o <;> rfl

/-- The letter states this status to the leader, and comes from somebody else. -/
def Letter.Reports (l : Letter) (leader : Peer) (s : PlaybackStatus) : Prop :=
  l.Says (.sendStatus s) ∧ l.parcel.target = leader.endpoint ∧ l.source ≠ leader.endpoint

namespace LocalCommand

/-- A command leaves the node's view alone. -/
theorem view_run (n : Node) (c : LocalCommand) : (c.run n).1.view = n.view := by
  rcases h : c.order n with op | song
  · rw [run_of_order_control h]
    unfold Node.control
    split
    · rfl
    · split
      · rfl
      · split <;> rfl
  · rw [run_of_order_enqueue h]
    rfl

/-- Whatever is sent on a command passes its order on. -/
theorem decode_of_mem_run {n : Node} {c : LocalCommand} {parcel : Parcel}
    (hmem : parcel ∈ (c.run n).2) : Message.decode parcel.bytes = .ok (c.order n).message := by
  have hparcels : ∀ peers, parcel ∈ parcelsTo peers (c.order n).message →
      Message.decode parcel.bytes = .ok (c.order n).message := by
    intro peers hparcel
    obtain ⟨_, -, -, hdecode⟩ := mem_parcelsTo hparcel
    exact hdecode
  rcases h : c.order n with op | song
  · rw [h] at hparcels
    rw [run_of_order_control h] at hmem
    unfold Node.control at hmem
    split at hmem
    · exact absurd hmem List.not_mem_nil
    · split at hmem
      · exact absurd hmem List.not_mem_nil
      · split at hmem <;> exact hparcels _ hmem
  · rw [h] at hparcels
    rw [run_of_order_enqueue h] at hmem
    exact hparcels _ hmem

end LocalCommand

namespace Group

/-! ## Counting the letters that bring an order -/

/-- How many letters in flight bring these bytes to the endpoint. -/
def pending (g : Group) (bytes : Bytes) (e : Endpoint) : Nat :=
  (g.inFlight.map Letter.parcel).count ⟨e, bytes⟩

/-- What a node sends adds its own copies to those in flight. -/
theorem pending_put (g : Group) (e : Endpoint) (n : Node) (sent : List Parcel) (bytes : Bytes)
    (e' : Endpoint) :
    (g.put e n sent).pending bytes e' = g.pending bytes e' + sent.count ⟨e', bytes⟩ := by
  have hsent : (sent.map fun p => (⟨e, p⟩ : Letter)).map Letter.parcel = sent := by
    rw [List.map_map]
    exact List.map_id sent
  rw [pending, inFlight_put, List.map_append, List.count_append, hsent, pending]

/-- A letter that is taken out is one copy less, if it brings these bytes. -/
theorem pending_take {g : Group} {place : Nat} {l : Letter} {before after : List Letter}
    (hsplit : g.inFlight = before ++ l :: after)
    (htake : (g.take place l).inFlight = before ++ after) (bytes : Bytes) (e : Endpoint) :
    g.pending bytes e =
      (g.take place l).pending bytes e + if l.parcel = ⟨e, bytes⟩ then 1 else 0 := by
  rw [pending, pending, htake, hsplit, List.map_append, List.map_append, List.map_cons,
    List.count_append, List.count_append, List.count_cons, Nat.add_assoc]
  simp only [beq_iff_eq]

/-- Handling a letter puts no copy of the bytes in flight, unless the receiver sends one. -/
theorem pending_receive {g : Group} {l : Letter} {bytes : Bytes}
    (h : ∀ q ∈ g.table.peers, l.parcel.target = q.endpoint →
      ∀ parcel ∈ ((g.node q.endpoint).receive l.parcel.bytes l.source).sent,
        parcel.bytes ≠ bytes) (e : Endpoint) :
    (g.receive l).pending bytes e = g.pending bytes e := by
  by_cases hhosts : g.Hosts l.parcel.target
  · obtain ⟨q, hq, htarget⟩ := hhosts
    rw [receive_of_mem hq htarget.symm, pending_put]
    refine Nat.add_eq_left.mpr (List.count_eq_zero.mpr fun hmem => ?_)
    exact h q hq htarget.symm _ hmem rfl
  · rw [receive, if_neg hhosts]

/-- What is sent to all peers but one reaches each of them once. -/
theorem Uniform.count_others {g : Group} (h : g.Uniform) {p q : Peer} (hp : p ∈ g.table.peers)
    (hq : q ∈ g.table.peers) (bytes : Bytes) :
    ((g.table.except q.id).map fun r => (⟨r.endpoint, bytes⟩ : Parcel)).count
      ⟨p.endpoint, bytes⟩ = if p = q then 0 else 1 := by
  by_cases hpq : p = q
  · rw [if_pos hpq]
    refine List.count_eq_zero.mpr fun hmem => ?_
    obtain ⟨r, hr, heq⟩ := List.mem_map.mp hmem
    obtain ⟨hrp, hid⟩ := List.mem_filter.mp hr
    have hrq : r = q := by
      rw [h.eq_of_endpoint_eq hrp hp (Parcel.mk.inj heq).1, hpq]
    rw [hrq] at hid
    simp at hid
  · rw [if_neg hpq]
    -- No two members have one endpoint, so no copy is sent twice.
    have hnodup : ((g.table.except q.id).map fun r => (⟨r.endpoint, bytes⟩ : Parcel)).Nodup := by
      refine (List.Nodup.of_map _ h.endpoints_nodup).filter _ |>.map_on fun r hr r' hr' heq => ?_
      exact h.eq_of_endpoint_eq (List.mem_of_mem_filter hr) (List.mem_of_mem_filter hr')
        (Parcel.mk.inj heq).1
    have hid : p.id ≠ q.id := fun heq => hpq (h.eq_of_id_eq hp hq heq)
    refine List.count_eq_one_of_mem hnodup (List.mem_map.mpr ⟨p, ?_, rfl⟩)
    exact List.mem_filter.mpr ⟨hp, bne_iff_ne.mpr hid⟩

/-! ## While the letters of a command are delivered -/

/-- A calm group whose players show what `model` shows after the same deeds, and in which no status
of the leader was delivered. `done e` is what was done to the player at `e` so far. -/
structure Steady (g : Group) (leader : Peer) (model : Player) (done : Endpoint → List Deed) : Prop
    extends g.Calm where
  coordinator_eq : g.table.coordinator = some leader
  status_eq : ∀ p ∈ g.table.peers,
    (g.node p.endpoint).status = (Deed.applyAll (done p.endpoint) model).status
  silent : ∀ l ∈ g.delivered, l.source = leader.endpoint → ∀ s, ¬ l.Says (.sendStatus s)

/-- A control operation is on its way from a follower to the leader, and nothing else is. -/
structure Asked (g : Group) (leader : Peer) (o : Order) (bytes : Bytes) (model : Player)
    (done : Endpoint → List Deed) : Prop extends g.Steady leader model done where
  control : ∃ op, o = .control op
  idle : ∀ p ∈ g.table.peers, done p.endpoint = []
  asks : ∃ e, e ≠ leader.endpoint ∧ g.inFlight = [⟨e, ⟨leader.endpoint, bytes⟩⟩]

/-- Everybody has obeyed once or will be told once; all other letters are reports to a leader that
has obeyed. Of a control operation the leader was the first to hear. -/
structure Spread (g : Group) (leader : Peer) (o : Order) (bytes : Bytes) (model : Player)
    (done : Endpoint → List Deed) : Prop extends g.Steady leader model done where
  obeyed : ∀ p ∈ g.table.peers, ∀ d ∈ done p.endpoint, d = .obey o
  once : ∀ p ∈ g.table.peers, g.pending bytes p.endpoint + (done p.endpoint).length = 1
  led : (∃ op, o = .control op) → done leader.endpoint ≠ []
  letters : ∀ l ∈ g.inFlight, l.parcel.bytes = bytes ∨
    l.Reports leader ((Deed.obey o).apply model).status ∧ done leader.endpoint ≠ []

/-- A command is being carried out. -/
def Underway (g : Group) (leader : Peer) (o : Order) (bytes : Bytes) (model : Player)
    (done : Endpoint → List Deed) : Prop :=
  g.Asked leader o bytes model done ∨ g.Spread leader o bytes model done

section

variable {g : Group} {leader : Peer} {o : Order} {bytes : Bytes} {model : Player}
  {done : Endpoint → List Deed}

namespace Steady

/-- Whatever happens, the players keep showing what the model shows after the same deeds. -/
theorem status_step (h : g.Steady leader model done) (a : GroupStep) {p : Peer}
    (hp : p ∈ g.table.peers) :
    ((g.step a).node p.endpoint).status =
      (Deed.applyAll (done p.endpoint ++ g.deedsOf p.endpoint a) model).status := by
  rw [Node.status, g.player_step, Deed.applyAll_append]
  exact Deed.status_applyAll_congr _ (h.status_eq p hp)

/-- A letter other than a status of the leader is delivered. -/
theorem deliver (h : g.Steady leader model done) {place : Nat} {l : Letter}
    {before after : List Letter} (hsplit : g.inFlight = before ++ l :: after)
    (hplace : before.length = place) (hstep : g.step (.deliver place) = (g.take place l).receive l)
    (hsilent : l.source = leader.endpoint → ∀ s, ¬ l.Says (.sendStatus s)) :
    (g.step (.deliver place)).Steady leader model
      fun e => done e ++ g.deedsOf e (.deliver place) := by
  have hlt : place < g.inFlight.length := by
    rw [hsplit, List.length_append, List.length_cons, hplace]
    omega
  have hdelivered : (g.step (.deliver place)).delivered = g.delivered ++ [l] := by
    rw [hstep, receive]
    split <;> rfl
  exact {
    toCalm := (h.toCalm.deliver hlt).1
    coordinator_eq := by
      rw [table_step]
      exact h.coordinator_eq
    status_eq := by
      intro p hp
      rw [table_step] at hp
      exact h.status_step _ hp
    silent := by
      intro l' hl'
      rw [hdelivered] at hl'
      rcases List.mem_append.mp hl' with hold | hnew
      · exact h.silent l' hold
      · obtain rfl := List.mem_singleton.mp hnew
        exact hsilent }

/-- Once the first node has obeyed and told the others, the order is spread. For a control
operation this node is the leader. -/
theorem spread (h : g.Steady leader model done) {g₀ : Group} {q : Peer} {n : Node}
    {sent : List Parcel} (hput : g = g₀.put q.endpoint n sent)
    (hsent : sent = (g₀.table.except q.id).map fun p => ⟨p.endpoint, bytes⟩)
    (hflight : g₀.inFlight = []) (hq : q ∈ g₀.table.peers)
    (hself : done q.endpoint = [.obey o])
    (hothers : ∀ p ∈ g₀.table.peers, p ≠ q → done p.endpoint = [])
    (hled : (∃ op, o = .control op) → q = leader) : g.Spread leader o bytes model done := by
  have htable : g.table = g₀.table := by
    rw [hput]
    rfl
  have hpending : ∀ p ∈ g.table.peers, g.pending bytes p.endpoint = if p = q then 0 else 1 := by
    intro p hp
    have hnone : g₀.pending bytes p.endpoint = 0 := by
      rw [pending, hflight]
      rfl
    have hcount := h.toUniform.count_others hp (htable ▸ hq) bytes
    rw [htable] at hcount
    rw [hput, hsent, pending_put, hnone, Nat.zero_add, hcount]
  exact {
    toSteady := h
    obeyed := by
      intro p hp d hd
      by_cases hpq : p = q
      · rw [hpq, hself] at hd
        exact List.mem_singleton.mp hd
      · rw [hothers p (htable ▸ hp) hpq] at hd
        exact absurd hd List.not_mem_nil
    once := by
      intro p hp
      rw [hpending p hp]
      by_cases hpq : p = q
      · rw [if_pos hpq, hpq, hself]
        rfl
      · rw [if_neg hpq, hothers p (htable ▸ hp) hpq]
        rfl
    led := by
      intro hcontrol
      rw [← hled hcontrol, hself]
      exact List.cons_ne_nil _ _
    letters := by
      intro l hl
      refine .inl ?_
      rw [hput, hsent, inFlight_put, hflight, List.nil_append, List.map_map] at hl
      obtain ⟨p, -, rfl⟩ := List.mem_map.mp hl
      rfl }

end Steady

/-! ## Deliveries -/

namespace Spread

variable {q : Peer} {l : Letter}

/-- Whoever has been through something has obeyed, and nothing more. -/
theorem done_eq (h : g.Spread leader o bytes model done) (hq : q ∈ g.table.peers)
    (hne : done q.endpoint ≠ []) : done q.endpoint = [.obey o] := by
  have honce := h.once q hq
  obtain ⟨d, rest, hdone⟩ := List.exists_cons_of_ne_nil hne
  have hd : d = .obey o := h.obeyed q hq d (by rw [hdone]; exact List.mem_cons_self)
  have hrest : rest = [] := by
    rw [hdone, List.length_cons] at honce
    exact List.eq_nil_of_length_eq_zero (by omega)
  rw [hdone, hd, hrest]

/-- Whoever is still to be told has been through nothing. -/
theorem done_eq_nil (h : g.Spread leader o bytes model done) (hq : q ∈ g.table.peers)
    (hl : l ∈ g.inFlight) (hparcel : l.parcel = ⟨q.endpoint, bytes⟩) : done q.endpoint = [] := by
  have honce := h.once q hq
  have hpos : 0 < g.pending bytes q.endpoint :=
    List.count_pos_iff.mpr (hparcel ▸ List.mem_map_of_mem hl)
  exact List.eq_nil_of_length_eq_zero (by omega)

/-- The leader shows what the reports say. -/
theorem status_leader (h : g.Spread leader o bytes model done)
    (hdone : done leader.endpoint ≠ []) :
    (g.node leader.endpoint).status = ((Deed.obey o).apply model).status := by
  have hmem : leader ∈ g.table.peers := mem_of_highest_eq_some h.coordinator_eq
  rw [h.status_eq leader hmem, h.done_eq hmem hdone, Deed.applyAll_singleton]

/-- A letter makes its receiver obey if it brings the order, and does nothing else to a player. -/
theorem deedsBy_eq (h : g.Spread leader o bytes model done)
    (hbytes : Message.decode bytes = .ok o.message) (hl : l ∈ g.inFlight)
    (hq : q ∈ g.table.peers) :
    g.deedsBy q.endpoint l = if l.parcel = ⟨q.endpoint, bytes⟩ then [.obey o] else [] := by
  by_cases htarget : l.parcel.target = q.endpoint
  · rw [deedsBy_of_hosts htarget ⟨q, hq, rfl⟩]
    rcases h.letters l hl with hsame | ⟨⟨hmessage, hleads, -⟩, -⟩
    · have hparcel : l.parcel = ⟨q.endpoint, bytes⟩ := by rw [← htarget, ← hsame]
      rw [if_pos hparcel, hsame]
      exact Node.deedsOnBytes_of_order hbytes l.source
    · -- A report reaches the leader, which takes no status over.
      have hparcel : l.parcel ≠ ⟨q.endpoint, bytes⟩ :=
        fun heq => Order.not_status_of_bytes hbytes (congrArg Parcel.bytes heq) _ hmessage
      have hcoordinator : (g.node q.endpoint).view.isCoordinator = true := by
        rw [← htarget, hleads]
        exact (h.toUniform.holds_leader h.coordinator_eq).isCoordinator_leader
      rw [if_neg hparcel, Node.deedsOnBytes, hmessage]
      exact if_pos hcoordinator
  · rw [g.deedsBy_of_ne htarget, if_neg fun heq => htarget (by rw [heq])]

/-- Whatever is sent on a letter is a report, and the leader has obeyed. -/
theorem reports_of_mem_receive (h : g.Spread leader o bytes model done)
    (hbytes : Message.decode bytes = .ok o.message) (hl : l ∈ g.inFlight)
    (hq : q ∈ g.table.peers) (htarget : l.parcel.target = q.endpoint) {parcel : Parcel}
    (hparcel : parcel ∈ ((g.node q.endpoint).receive l.parcel.bytes l.source).sent) :
    Letter.Reports ⟨q.endpoint, parcel⟩ leader ((Deed.obey o).apply model).status ∧
      done leader.endpoint ≠ [] := by
  rcases h.letters l hl with hsame | ⟨⟨hmessage, hleads, -⟩, hdone⟩
  · have hidle : done q.endpoint = [] := h.done_eq_nil hq hl (by rw [← htarget, ← hsame])
    rw [hsame] at hparcel
    -- A follower reports a control operation and says nothing to a new song.
    rcases o with op | song
    · have hdone : done leader.endpoint ≠ [] := h.led ⟨op, rfl⟩
      have hne : q ≠ leader := by
        rintro rfl
        exact hdone hidle
      rw [Node.receive_control hbytes, (h.toUniform.holds h.coordinator_eq hq).onControl_follower
        (h.toUniform.id_ne_leader h.coordinator_eq hq hne)] at hparcel
      obtain ⟨r, hr, hto, hdecode⟩ := mem_parcelsTo hparcel
      obtain rfl := List.mem_singleton.mp hr
      have hstatus : (g.node q.endpoint).player.status = model.status := by
        have heq := h.status_eq q hq
        rwa [hidle, Deed.applyAll_nil] at heq
      refine ⟨⟨?_, hto, h.toUniform.endpoint_ne_leader h.coordinator_eq hq hne⟩, hdone⟩
      rw [Letter.Says, ← (Deed.obey (.control op)).status_apply_congr hstatus]
      exact hdecode
    · simp only [Node.receive, hbytes] at hparcel
      exact absurd hparcel List.not_mem_nil
  · -- What is no order is a report; the leader shows the same and has nothing to repair.
    have hleader : q = leader := h.toUniform.eq_of_endpoint_eq hq
      (mem_of_highest_eq_some h.coordinator_eq) (htarget.symm.trans hleads)
    have hagrees : (g.node leader.endpoint).status.agrees ((Deed.obey o).apply model).status
        (g.node leader.endpoint).config.tolerance = true := by
      rw [h.status_leader hdone]
      exact PlaybackStatus.agrees_self _ _
    rw [hleader, Node.receive_status hmessage,
      (h.toUniform.holds_leader h.coordinator_eq).onStatus_leader_of_agrees hagrees] at hparcel
    exact absurd hparcel List.not_mem_nil

/-- Whatever is in flight after a delivery was so before, or is a report that the delivery has
caused. -/
theorem mem_inFlight_deliver (h : g.Spread leader o bytes model done)
    (hbytes : Message.decode bytes = .ok o.message) {place : Nat} {l l' : Letter}
    (hl : l ∈ g.inFlight) (hstep : g.step (.deliver place) = (g.take place l).receive l)
    (hl' : l' ∈ (g.step (.deliver place)).inFlight) :
    l' ∈ g.inFlight ∨
      l'.Reports leader ((Deed.obey o).apply model).status ∧ done leader.endpoint ≠ [] := by
  have hmem : l' ∈ (g.take place l).inFlight → l' ∈ g.inFlight := List.mem_of_mem_eraseIdx
  rw [hstep] at hl'
  by_cases hhosts : (g.take place l).Hosts l.parcel.target
  · obtain ⟨q, hq, htarget⟩ := hhosts
    rw [receive_of_mem hq htarget.symm, inFlight_put, List.mem_append, List.mem_map] at hl'
    rcases hl' with hold | ⟨parcel, hparcel, rfl⟩
    · exact .inl (hmem hold)
    · exact .inr (h.reports_of_mem_receive hbytes hl hq htarget.symm hparcel)
  · rw [receive, if_neg hhosts] at hl'
    exact .inl (hmem hl')

/-- Whoever is told obeys, and its report is right. -/
theorem deliver (h : g.Spread leader o bytes model done)
    (hbytes : Message.decode bytes = .ok o.message) {place : Nat}
    (hplace : place < g.inFlight.length) :
    (g.step (.deliver place)).Spread leader o bytes model
      fun e => done e ++ g.deedsOf e (.deliver place) := by
  obtain ⟨before, l, after, hsplit, hlength, htake, hstep⟩ := g.step_deliver_of_lt hplace
  have hl : l ∈ g.inFlight := hsplit ▸ List.mem_append_cons_self
  have hdeeds : ∀ p ∈ g.table.peers, g.deedsOf p.endpoint (.deliver place) =
      if l.parcel = ⟨p.endpoint, bytes⟩ then [.obey o] else [] := by
    intro p hp
    rw [deedsOf_deliver_of_split hsplit hlength, h.deedsBy_eq hbytes hl hp]
  have hpending : ∀ e, (g.step (.deliver place)).pending bytes e =
      (g.take place l).pending bytes e := by
    rw [hstep]
    refine pending_receive fun q hq htarget parcel hparcel hsame => ?_
    obtain ⟨⟨hmessage, -, -⟩, -⟩ := h.reports_of_mem_receive hbytes hl hq htarget hparcel
    exact Order.not_status_of_bytes hbytes hsame _ hmessage
  have hsilent : l.source = leader.endpoint → ∀ s, ¬ l.Says (.sendStatus s) := by
    rcases h.letters l hl with hsame | ⟨⟨-, -, hsource⟩, -⟩
    · exact fun _ => Order.not_status_of_bytes hbytes hsame
    · exact fun heq => absurd heq hsource
  have hled : done leader.endpoint ≠ [] →
      done leader.endpoint ++ g.deedsOf leader.endpoint (.deliver place) ≠ [] :=
    fun hne hnil => hne (List.append_eq_nil_iff.mp hnil).1
  exact {
    toSteady := h.toSteady.deliver hsplit hlength hstep hsilent
    obeyed := by
      intro p hp d hd
      rw [table_step] at hp
      rcases List.mem_append.mp hd with hold | hnew
      · exact h.obeyed p hp d hold
      · rw [hdeeds p hp] at hnew
        split at hnew
        · exact List.mem_singleton.mp hnew
        · exact absurd hnew List.not_mem_nil
    once := by
      intro p hp
      -- What is no longer in flight to the node has become its deed.
      rw [table_step] at hp
      have honce := h.once p hp
      rw [pending_take hsplit htake] at honce
      rw [hpending, List.length_append, hdeeds p hp]
      split at honce <;> rename_i hparcel
      · rw [if_pos hparcel, List.length_singleton]
        omega
      · rw [if_neg hparcel, List.length_nil]
        omega
    led := fun hcontrol => hled (h.led hcontrol)
    letters := by
      intro l' hl'
      rcases h.mem_inFlight_deliver hbytes hl hstep hl' with hold | ⟨hreports, hne⟩
      · exact (h.letters l' hold).imp_right (And.imp_right hled)
      · exact .inr ⟨hreports, hled hne⟩ }

end Spread

/-- The leader obeys and tells all others. -/
theorem Asked.deliver (h : g.Asked leader o bytes model done)
    (hbytes : Message.decode bytes = .ok o.message)
    (hparcels : ∀ peers, parcelsTo peers o.message = peers.map fun p => ⟨p.endpoint, bytes⟩)
    {place : Nat} (hplace : place < g.inFlight.length) :
    (g.step (.deliver place)).Spread leader o bytes model
      fun e => done e ++ g.deedsOf e (.deliver place) := by
  obtain ⟨op, rfl⟩ := h.control
  obtain ⟨e, hne, hflight⟩ := h.asks
  obtain ⟨before, l, after, hsplit, hlength, htake, hstep⟩ := g.step_deliver_of_lt hplace
  have hl : l ∈ g.inFlight := hsplit ▸ List.mem_append_cons_self
  obtain rfl : l = ⟨e, ⟨leader.endpoint, bytes⟩⟩ := by
    rw [hflight] at hl
    exact List.mem_singleton.mp hl
  have hrest : before ++ after = [] := by
    have hone := congrArg List.length (hflight.symm.trans hsplit)
    rw [List.length_singleton, List.length_append, List.length_cons] at hone
    refine List.eq_nil_of_length_eq_zero ?_
    rw [List.length_append]
    omega
  have hmem : leader ∈ g.table.peers := mem_of_highest_eq_some h.coordinator_eq
  -- The only letter there is asks the leader, which obeys first.
  have hput : g.step (.deliver place) =
      (g.take place ⟨e, ⟨leader.endpoint, bytes⟩⟩).put leader.endpoint
        ((g.node leader.endpoint).applyOp op)
        (parcelsTo (g.table.except leader.id) (.control op)) := by
    have hreceive := receive_of_mem (g := g.take place ⟨e, ⟨leader.endpoint, bytes⟩⟩)
      (l := ⟨e, ⟨leader.endpoint, bytes⟩⟩) hmem rfl
    rw [hstep, hreceive, node_take, Node.receive_control hbytes,
      (h.toUniform.holds_leader h.coordinator_eq).onControl_leader]
    rfl
  have hself : g.deedsBy leader.endpoint ⟨e, ⟨leader.endpoint, bytes⟩⟩ =
      [.obey (.control op)] := by
    have hhosts : g.Hosts leader.endpoint := ⟨leader, hmem, rfl⟩
    exact (if_pos ⟨rfl, hhosts⟩).trans (Node.deedsOnBytes_of_order hbytes e)
  refine (h.toSteady.deliver hsplit hlength hstep fun hsource => absurd hsource hne).spread hput
    (hparcels _) (htake.trans hrest) hmem ?_ (fun p hp hpl => ?_) fun _ => rfl
  · rw [h.idle leader hmem, deedsOf_deliver_of_split hsplit hlength, hself]
    rfl
  · have htarget : leader.endpoint ≠ p.endpoint :=
      (h.toUniform.endpoint_ne_leader h.coordinator_eq hp hpl).symm
    rw [h.idle p hp, deedsOf_deliver_of_split hsplit hlength, g.deedsBy_of_ne htarget]
    rfl

namespace Underway

/-- Either way the group is steady. -/
theorem toSteady (h : g.Underway leader o bytes model done) : g.Steady leader model done := by
  rcases h with hasked | hspread
  · exact hasked.toSteady
  · exact hspread.toSteady

/-- No delivery stops the command from being carried out. -/
theorem deliver (h : g.Underway leader o bytes model done)
    (hbytes : Message.decode bytes = .ok o.message)
    (hparcels : ∀ peers, parcelsTo peers o.message = peers.map fun p => ⟨p.endpoint, bytes⟩)
    (place : Nat) :
    (g.step (.deliver place)).Underway leader o bytes model
      fun e => done e ++ g.deedsOf e (.deliver place) := by
  by_cases hplace : place < g.inFlight.length
  · rcases h with hasked | hspread
    · exact .inr (hasked.deliver hbytes hparcels hplace)
    · exact .inr (hspread.deliver hbytes hplace)
  · have hle : g.inFlight.length ≤ place := Nat.le_of_not_lt hplace
    simp only [deedsOf_deliver_of_le hle, List.append_nil]
    rw [g.step_deliver_of_le hle]
    exact h

/-- No run of deliveries does. -/
theorem run (h : g.Underway leader o bytes model done)
    (hbytes : Message.decode bytes = .ok o.message)
    (hparcels : ∀ peers, parcelsTo peers o.message = peers.map fun p => ⟨p.endpoint, bytes⟩)
    (places : List Nat) :
    (g.run (places.map .deliver)).Underway leader o bytes model
      fun e => done e ++ g.deeds e (places.map .deliver) := by
  induction places generalizing g done with
  | nil =>
    simp only [List.map_nil, deeds, List.append_nil]
    exact h
  | cons place rest ih =>
    have hrest := ih (h.deliver hbytes hparcels place)
    simp only [List.append_assoc] at hrest
    exact hrest

/-- No letter of the leader, delivered or not, is a status. -/
theorem not_status (h : g.Underway leader o bytes model done)
    (hbytes : Message.decode bytes = .ok o.message) {l : Letter}
    (hl : l ∈ g.inFlight ++ g.delivered) (hsource : l.source = leader.endpoint)
    (s : PlaybackStatus) : ¬ l.Says (.sendStatus s) := by
  rcases List.mem_append.mp hl with hflight | hdelivered
  · rcases h with hasked | hspread
    · obtain ⟨e, hne, hletters⟩ := hasked.asks
      rw [hletters] at hflight
      obtain rfl := List.mem_singleton.mp hflight
      exact absurd hsource hne
    · rcases hspread.letters l hflight with hsame | ⟨⟨-, -, hne⟩, -⟩
      · exact Order.not_status_of_bytes hbytes hsame s
      · exact absurd hsource hne
  · exact h.toSteady.silent l hdelivered hsource s

/-- Once nothing is in flight, everybody has obeyed. -/
theorem done_eq (h : g.Underway leader o bytes model done) (hquiet : g.inFlight = []) {p : Peer}
    (hp : p ∈ g.table.peers) : done p.endpoint = [.obey o] := by
  rcases h with hasked | hspread
  · obtain ⟨e, -, hflight⟩ := hasked.asks
    rw [hquiet] at hflight
    cases hflight
  · have honce := hspread.once p hp
    rw [pending, hquiet, List.map_nil, List.count_nil, Nat.zero_add] at honce
    refine hspread.done_eq hp fun hnil => ?_
    rw [hnil] at honce
    cases honce

end Underway

/-! ## The command -/

section Act

variable {q : Peer} {c : LocalCommand}

/-- A command is run at the member where it is given, and what that sends is in flight. -/
theorem step_act_of_mem (hq : q ∈ g.table.peers) : g.step (.act q.endpoint c) =
    g.put q.endpoint (c.run (g.node q.endpoint)).1 (c.run (g.node q.endpoint)).2 :=
  if_pos ⟨q, hq, rfl⟩

/-- What happens where a command is given is what the command does there. -/
theorem deedsOf_act_self (hq : q ∈ g.table.peers) :
    g.deedsOf q.endpoint (.act q.endpoint c) = c.deeds (g.node q.endpoint) :=
  if_pos ⟨rfl, q, hq, rfl⟩

/-- To all others nothing has happened yet. -/
theorem deedsOf_act_of_ne (huniform : g.Uniform) (hq : q ∈ g.table.peers) {p : Peer}
    (hp : p ∈ g.table.peers) (hpq : p ≠ q) : g.deedsOf p.endpoint (.act q.endpoint c) = [] :=
  if_neg fun hsame => hpq (huniform.eq_of_endpoint_eq hp hq hsame.1.symm)

/-- In a group at rest every command is the beginning of something steady. -/
theorem steady_act (huniform : g.Uniform) (hleader : g.table.coordinator = some leader)
    (hstatus : ∀ p ∈ g.table.peers, (g.node p.endpoint).status = model.status)
    (hflight : g.inFlight = []) (hdelivered : g.delivered = []) (hq : q ∈ g.table.peers) :
    (g.step (.act q.endpoint c)).Steady leader model
      fun e => g.deedsOf e (.act q.endpoint c) := by
  have hstep := step_act_of_mem (c := c) hq
  exact {
    toUniform := by
      rw [hstep]
      exact huniform.put (c.view_run _) _
    no_tables := by
      intro l hl
      rw [hstep, inFlight_put, hflight, List.nil_append] at hl
      obtain ⟨parcel, hparcel, rfl⟩ := List.mem_map.mp hl
      rintro ⟨m, hmessage, hm⟩
      cases Except.ok.inj ((LocalCommand.decode_of_mem_run hparcel).symm.trans hmessage)
      exact Order.not_isTable_message _ hm
    coordinator_eq := by
      rw [table_step]
      exact hleader
    status_eq := by
      intro p hp
      rw [table_step] at hp
      rw [Node.status, g.player_step]
      exact Deed.status_applyAll_congr _ (hstatus p hp)
    silent := by
      intro l hl
      rw [hstep, delivered_put, hdelivered] at hl
      exact absurd hl List.not_mem_nil }

/-- The leader obeys a control operation of its own and tells the others; a follower asks the
leader. -/
theorem underway_control (huniform : g.Uniform) (hleader : g.table.coordinator = some leader)
    (hflight : g.inFlight = []) (hq : q ∈ g.table.peers)
    (hsteady : (g.step (.act q.endpoint c)).Steady leader model
      fun e => g.deedsOf e (.act q.endpoint c))
    {op : ControlOp} (ho : c.order (g.node q.endpoint) = .control op)
    (hparcels : ∀ peers, parcelsTo peers (.control op) = peers.map fun p => ⟨p.endpoint, bytes⟩) :
    (g.step (.act q.endpoint c)).Underway leader (.control op) bytes model
      fun e => g.deedsOf e (.act q.endpoint c) := by
  have hholds := huniform.holds hleader hq
  have hstep := step_act_of_mem (c := c) hq
  have hself := deedsOf_act_self (c := c) hq
  rw [LocalCommand.run_of_order_control ho] at hstep
  rw [LocalCommand.deeds_of_order_control ho, hholds.defers_eq] at hself
  -- Given at the leader the order is spread at once; otherwise the leader is asked first.
  by_cases hql : q = leader
  · subst hql
    rw [hholds.control_leader] at hstep
    refine .inr (hsteady.spread hstep (hparcels _) hflight hq ?_
      (fun p hp => deedsOf_act_of_ne huniform hq hp) fun _ => rfl)
    rw [hself, bne_self_eq_false]
    rfl
  · have hid : q.id ≠ leader.id := huniform.id_ne_leader hleader hq hql
    rw [hholds.control_follower hid] at hstep
    refine .inl ⟨hsteady, ⟨op, rfl⟩, fun p hp => ?_, q.endpoint,
      huniform.endpoint_ne_leader hleader hq hql, ?_⟩
    · by_cases hpq : p = q
      · rw [hpq, hself, if_pos (bne_iff_ne.mpr hid.symm)]
      · rw [table_step] at hp
        exact deedsOf_act_of_ne huniform hq hp hpq
    · have hsent : parcelsTo [leader] (.control op) = [⟨leader.endpoint, bytes⟩] :=
        hparcels [leader]
      rw [hstep, inFlight_put, hflight, hsent]
      rfl

/-- Whoever queues a song tells all the others. -/
theorem underway_enqueue (huniform : g.Uniform) (hleader : g.table.coordinator = some leader)
    (hflight : g.inFlight = []) (hq : q ∈ g.table.peers)
    (hsteady : (g.step (.act q.endpoint c)).Steady leader model
      fun e => g.deedsOf e (.act q.endpoint c))
    {song : SongId} (ho : c.order (g.node q.endpoint) = .enqueue song)
    (hparcels : ∀ peers,
      parcelsTo peers (Order.enqueue song).message = peers.map fun p => ⟨p.endpoint, bytes⟩) :
    (g.step (.act q.endpoint c)).Underway leader (.enqueue song) bytes model
      fun e => g.deedsOf e (.act q.endpoint c) := by
  have hstep := step_act_of_mem (c := c) hq
  have hself := deedsOf_act_self (c := c) hq
  rw [LocalCommand.run_of_order_enqueue ho] at hstep
  rw [LocalCommand.deeds_of_order_enqueue ho] at hself
  have hsent : ((g.node q.endpoint).enqueue song).2 =
      (g.table.except q.id).map fun p => ⟨p.endpoint, bytes⟩ := by
    rw [← (huniform.holds hleader hq).others_eq]
    exact hparcels _
  refine .inr (hsteady.spread hstep hsent hflight hq hself
    (fun p hp => deedsOf_act_of_ne huniform hq hp) ?_)
  rintro ⟨op, hop⟩
  cases hop

/-- Whatever command is given at whichever node, it is carried out. -/
theorem underway_act (huniform : g.Uniform) (hleader : g.table.coordinator = some leader)
    (hstatus : ∀ p ∈ g.table.peers, (g.node p.endpoint).status = model.status)
    (hflight : g.inFlight = []) (hdelivered : g.delivered = [])
    (hq : q ∈ g.table.peers) (ho : c.order (g.node q.endpoint) = o)
    (hparcels : ∀ peers, parcelsTo peers o.message = peers.map fun p => ⟨p.endpoint, bytes⟩) :
    (g.step (.act q.endpoint c)).Underway leader o bytes model
      fun e => g.deedsOf e (.act q.endpoint c) := by
  have hsteady := steady_act (c := c) huniform hleader hstatus hflight hdelivered hq
  cases o with
  | control op => exact underway_control huniform hleader hflight hq hsteady ho hparcels
  | enqueue song => exact underway_enqueue huniform hleader hflight hq hsteady ho hparcels

end Act

end

end Group

/-- In a uniform group whose players all show the same and in which nothing is on its way, a command
is given at one node, and the letters that it causes are delivered in any order. No run of
deliveries goes on for ever, and at no time has the coordinator sent a status. Once no letter is in
flight, every player has obeyed the command exactly once and been through nothing else, and all show
the same. -/
theorem one_command_unison (g : Group) (leader : Peer) (e : Endpoint) (c : LocalCommand)
    (huniform : g.Uniform) (hleader : g.table.coordinator = some leader)
    (hsame : ∀ p ∈ g.table.peers, ∀ q ∈ g.table.peers,
      (g.node p.endpoint).status = (g.node q.endpoint).status)
    (hflight : g.inFlight = []) (hdelivered : g.delivered = []) (hhosts : g.Hosts e) :
    (∃ bound, ∀ places, (g.step (.act e c)).Delivers places → places.length ≤ bound) ∧
      ∀ places : List Nat,
        (∀ l ∈ (g.run (.act e c :: places.map .deliver)).inFlight ++
            (g.run (.act e c :: places.map .deliver)).delivered,
          l.source = leader.endpoint → ∀ s, ¬ l.Says (.sendStatus s)) ∧
        ((g.run (.act e c :: places.map .deliver)).inFlight = [] →
          (∀ p ∈ g.table.peers,
            g.deeds p.endpoint (.act e c :: places.map .deliver) = [.obey (c.order (g.node e))] ∧
            ((g.run (.act e c :: places.map .deliver)).node p.endpoint).player =
              (Deed.obey (c.order (g.node e))).apply (g.node p.endpoint).player) ∧
          ∀ p ∈ g.table.peers, ∀ q ∈ g.table.peers,
            ((g.run (.act e c :: places.map .deliver)).node p.endpoint).status =
              ((g.run (.act e c :: places.map .deliver)).node q.endpoint).status) := by
  obtain ⟨q, hq, rfl⟩ := hhosts
  obtain ⟨bytes, hbytes, hparcels⟩ := (c.order (g.node q.endpoint)).exists_parcelsTo
  have hmodel : ∀ p ∈ g.table.peers,
      (g.node p.endpoint).status = (g.node q.endpoint).player.status :=
    fun p hp => hsame p hp q hq
  have hact : (g.step (.act q.endpoint c)).Underway leader (c.order (g.node q.endpoint)) bytes
      (g.node q.endpoint).player fun e => g.deedsOf e (.act q.endpoint c) :=
    Group.underway_act huniform hleader hmodel hflight hdelivered hq rfl hparcels
  refine ⟨⟨(g.step (.act q.endpoint c)).load, fun places hdelivers => ?_⟩, fun places => ?_⟩
  · have hle := hact.toSteady.toCalm.length_add_load_le hdelivers
    omega
  · have hrun : (g.run (.act q.endpoint c :: places.map .deliver)).Underway leader
        (c.order (g.node q.endpoint)) bytes (g.node q.endpoint).player
        fun e => g.deeds e (.act q.endpoint c :: places.map .deliver) :=
      hact.run hbytes hparcels places
    -- Once nothing is in flight the count of letters is zero, and that of deeds is one.
    refine ⟨fun l hl hsource s => hrun.not_status hbytes hl hsource s, fun hquiet => ?_⟩
    have hdone : ∀ p ∈ g.table.peers,
        g.deeds p.endpoint (.act q.endpoint c :: places.map .deliver) =
          [.obey (c.order (g.node q.endpoint))] := by
      intro p hp
      exact hrun.done_eq hquiet (by rwa [Group.table_run])
    have hplayer : ∀ p ∈ g.table.peers,
        ((g.run (.act q.endpoint c :: places.map .deliver)).node p.endpoint).player =
          (Deed.obey (c.order (g.node q.endpoint))).apply (g.node p.endpoint).player := by
      intro p hp
      rw [g.player_run, hdone p hp, Deed.applyAll_singleton]
    refine ⟨fun p hp => ⟨hdone p hp, hplayer p hp⟩, fun p hp r hr => ?_⟩
    rw [Node.status, hplayer p hp, Node.status, hplayer r hr]
    exact (Deed.obey _).status_apply_congr (hsame p hp r hr)

/-- A table of three peers. -/
def inTuneTable : PeerTable :=
  PeerTable.ofPeers [⟨.v4 ⟨10, 0, 0, 1⟩, 43210, ⟨2⟩⟩, ⟨.v4 ⟨10, 0, 0, 2⟩, 43210, ⟨7⟩⟩,
    ⟨.v4 ⟨10, 0, 0, 3⟩, 43210, ⟨4⟩⟩]

/-- A node that holds the table; its player has skipped some songs before. -/
def inTuneNode (id : PeerId) (epoch : Nat) : Node :=
  ⟨⟨43210, 2000, 2, true⟩, View.adopt id inTuneTable, { Player.start 1 with epoch }⟩

/-- Three nodes that play the same song, each with a past of its own. -/
def inTune : Group where
  table := inTuneTable
  node := fun e =>
    if e.address = .v4 ⟨10, 0, 0, 1⟩ then inTuneNode ⟨2⟩ 0
    else if e.address = .v4 ⟨10, 0, 0, 2⟩ then inTuneNode ⟨7⟩ 3
    else inTuneNode ⟨4⟩ 5
  inFlight := []
  delivered := []

/-- The first node asks for a pause. The coordinator hears of it, the third node is told before the
first one is, and its report overtakes the letter to the first. -/
theorem one_command_unison_inTune :
    (inTune.run (.act ⟨.v4 ⟨10, 0, 0, 1⟩, 43210⟩ .togglePause ::
        [0, 1, 1, 0, 0].map .deliver)).inFlight = [] ∧
      ∀ p ∈ inTune.table.peers,
        inTune.deeds p.endpoint (.act ⟨.v4 ⟨10, 0, 0, 1⟩, 43210⟩ .togglePause ::
          [0, 1, 1, 0, 0].map .deliver) = [.obey (.control .stop)] := by
  have hquiet : (inTune.run (.act ⟨.v4 ⟨10, 0, 0, 1⟩, 43210⟩ .togglePause ::
      [0, 1, 1, 0, 0].map .deliver)).inFlight = [] := by decide +kernel
  obtain ⟨-, hrun⟩ := one_command_unison inTune ⟨.v4 ⟨10, 0, 0, 2⟩, 43210, ⟨7⟩⟩
    ⟨.v4 ⟨10, 0, 0, 1⟩, 43210⟩ .togglePause ⟨by decide, by decide, by decide⟩ (by decide)
    (by decide) rfl rfl (by decide)
  exact ⟨hquiet, fun p hp => (((hrun [0, 1, 1, 0, 0]).2 hquiet).1 p hp).1⟩

end Ensemble
