import Ensemble.Proofs.Group.Basic
import Ensemble.Proofs.Group.Member

/-!
# Nodes that went apart come together

In a group where only control commands are given, and where the letters from the coordinator to one
node keep their order, every node that was reached by the coordinator agrees with it once no letter
is in flight. The invariant speaks of each follower's channel from the coordinator. If it ends with
a status, this is the coordinator's present status, since every change of the coordinator's player
puts a control operation behind it. If it is empty, the follower agrees with the coordinator, or its
own status is still on its way to the coordinator, who will compare it.

* `Group.Led` — what holds of the group throughout.
* `Group.Repaired` — the invariant of one follower.
* `Group.Repairing.step`, `Group.Repairing.run` — no step and no run breaks it.
* `repair_converges` — without letters in flight all nodes that were reached agree.
-/

namespace Ensemble

namespace Group

/-- A letter of the leader was delivered to the peer's node. -/
def Heard (g : Group) (leader p : Peer) : Prop :=
  ∃ l ∈ g.delivered, l.goes leader.endpoint p.endpoint = true

/-- The peer's status agrees with the leader's within the leader's tolerance. -/
def InStep (g : Group) (leader p : Peer) : Prop :=
  (g.node leader.endpoint).status.agrees (g.node p.endpoint).status
    (g.node leader.endpoint).config.tolerance = true

instance (g : Group) (leader p : Peer) : Decidable (g.Heard leader p) :=
  inferInstanceAs (Decidable (∃ l ∈ g.delivered, l.goes leader.endpoint p.endpoint = true))

instance (g : Group) (leader p : Peer) : Decidable (g.InStep leader p) :=
  inferInstanceAs (Decidable (_ = true))

/-! ## What holds throughout -/

/-- A uniform group with bounded players and open gates, in which every letter goes to or comes from
the leader and is a control operation or a status. -/
structure Led (g : Group) (leader : Peer) : Prop where
  uniform : g.Uniform
  coordinator_eq : g.table.coordinator = some leader
  ungated : ∀ p ∈ g.table.peers, (g.node p.endpoint).config.coordinatorOnly = false
  bounded : ∀ p ∈ g.table.peers, (g.node p.endpoint).player.Bounded
  routed : ∀ l ∈ g.inFlight, l.parcel.target = leader.endpoint ∨ l.source = leader.endpoint
  playback : ∀ l ∈ g.inFlight, (∃ op, l.Says (.control op)) ∨ ∃ s, l.Says (.sendStatus s)

namespace Led

variable {g : Group} {leader p : Peer} (h : g.Led leader)

include h

/-- The leader is a member. -/
theorem mem_leader : leader ∈ g.table.peers := mem_of_highest_eq_some h.coordinator_eq

/-- Every member knows the leader. -/
theorem holds (hp : p ∈ g.table.peers) :
    (g.node p.endpoint).Holds p.id g.table leader := h.uniform.holds h.coordinator_eq hp

/-- A follower has another id than the leader. -/
theorem id_ne (hp : p ∈ g.table.peers) (hne : p ≠ leader) : p.id ≠ leader.id :=
  h.uniform.id_ne_leader h.coordinator_eq hp hne

/-- A follower is somewhere else than the leader. -/
theorem endpoint_ne (hp : p ∈ g.table.peers) (hne : p ≠ leader) :
    p.endpoint ≠ leader.endpoint :=
  h.uniform.endpoint_ne_leader h.coordinator_eq hp hne

/-- Taking a letter out changes no node and adds no letter. -/
theorem take (place : Nat) (l : Letter) : (g.take place l).Led leader where
  uniform := h.uniform.take place l
  coordinator_eq := h.coordinator_eq
  ungated := h.ungated
  bounded := h.bounded
  routed := fun l' hl' => h.routed l' (List.mem_of_mem_eraseIdx hl')
  playback := fun l' hl' => h.playback l' (List.mem_of_mem_eraseIdx hl')

/-- A node that changes nothing but its player, and sends what a member sends. -/
theorem put {e : Endpoint} {n : Node} {sent : List Parcel}
    (hview : n.view = (g.node e).view) (hconfig : n.config = (g.node e).config)
    (hbounded : n.player.Bounded)
    (hrouted : ∀ parcel ∈ sent, parcel.target = leader.endpoint ∨ e = leader.endpoint)
    (hplayback : ∀ parcel ∈ sent, (∃ op, Letter.Says ⟨e, parcel⟩ (.control op)) ∨
      ∃ s, Letter.Says ⟨e, parcel⟩ (.sendStatus s)) :
    (g.put e n sent).Led leader := by
  have hletters : ∀ l ∈ (g.put e n sent).inFlight,
      l ∈ g.inFlight ∨ ∃ parcel ∈ sent, (⟨e, parcel⟩ : Letter) = l := by
    intro l hl
    rw [inFlight_put, List.mem_append, List.mem_map] at hl
    exact hl
  exact {
    uniform := h.uniform.put hview sent
    coordinator_eq := h.coordinator_eq
    ungated := by
      intro p hp
      by_cases he : p.endpoint = e
      · rw [he, node_put_self, hconfig, ← he]
        exact h.ungated p hp
      · rw [node_put_of_ne g e n sent he]
        exact h.ungated p hp
    bounded := by
      intro p hp
      by_cases he : p.endpoint = e
      · rw [he, node_put_self]
        exact hbounded
      · rw [node_put_of_ne g e n sent he]
        exact h.bounded p hp
    routed := by
      intro l hl
      rcases hletters l hl with hold | ⟨parcel, hparcel, rfl⟩
      · exact h.routed l hold
      · exact hrouted parcel hparcel
    playback := by
      intro l hl
      rcases hletters l hl with hold | ⟨parcel, hparcel, rfl⟩
      · exact h.playback l hold
      · exact hplayback parcel hparcel }

end Led

/-! ## One follower -/

/-- The channel to the follower ends with no status but the leader's present one; and once it is
empty, a follower that was reached agrees, or its status is on its way. -/
structure Repaired (g : Group) (leader p : Peer) : Prop where
  latest : ∀ l s, (g.channel leader.endpoint p.endpoint).getLast? = some l →
    l.Says (.sendStatus s) → s = (g.node leader.endpoint).status
  caughtUp : g.Heard leader p → g.channel leader.endpoint p.endpoint = [] →
    g.InStep leader p ∨
      ∃ l ∈ g.inFlight, l.source = p.endpoint ∧ l.Says (.sendStatus (g.node p.endpoint).status)

/-- Nothing that concerns the follower has changed, except perhaps that its status was compared. -/
theorem Repaired.of_same {g g' : Group} {leader p : Peer} (h : g.Repaired leader p)
    (hchannel : g'.channel leader.endpoint p.endpoint = g.channel leader.endpoint p.endpoint)
    (hleader : g'.node leader.endpoint = g.node leader.endpoint)
    (hnode : g'.node p.endpoint = g.node p.endpoint)
    (hheard : g'.Heard leader p → g.Heard leader p)
    (hletters : ∀ l ∈ g.inFlight, l.source = p.endpoint →
      l.Says (.sendStatus (g.node p.endpoint).status) → l ∈ g'.inFlight ∨ g.InStep leader p) :
    g'.Repaired leader p := by
  have hstep : g.InStep leader p → g'.InStep leader p := by
    rw [InStep, InStep, hleader, hnode]
    exact id
  refine ⟨fun l s hlast hmessage => ?_, fun hheard' hnil => ?_⟩
  · rw [hchannel] at hlast
    rw [hleader]
    exact h.latest l s hlast hmessage
  · rw [hchannel] at hnil
    rw [hnode]
    rcases h.caughtUp (hheard hheard') hnil with hagrees | ⟨l, hl, hsource, hmessage⟩
    · exact .inl (hstep hagrees)
    · -- The letter that will repair it may just have been delivered; then the leader has found the
      -- two in step.
      rcases hletters l hl hsource hmessage with hstill | hagrees
      · exact .inr ⟨l, hstill, hsource, hmessage⟩
      · exact .inl (hstep hagrees)

/-- What the leader tells all is the last letter to each follower. -/
theorem getLast?_channel_tellAll {g : Group} {leader p : Peer} (h : g.Led leader)
    (hp : p ∈ g.table.peers) (hne : p ≠ leader) (n : Node) (bytes : Bytes) :
    ((g.put leader.endpoint n ((g.table.except leader.id).map fun q =>
      ⟨q.endpoint, bytes⟩)).channel leader.endpoint p.endpoint).getLast? =
        some ⟨leader.endpoint, ⟨p.endpoint, bytes⟩⟩ := by
  have hother : p ∈ g.table.except leader.id :=
    List.mem_filter.mpr ⟨hp, bne_iff_ne.mpr (h.id_ne hp hne)⟩
  rw [channel, inFlight_put, List.filter_append, List.map_map]
  refine getLast?_append_of_forall_eq _ ?_ fun l hl => ?_
  · refine List.mem_filter.mpr ⟨List.mem_map.mpr ⟨p, hother, rfl⟩, ?_⟩
    exact Letter.goes_iff.mpr ⟨rfl, rfl⟩
  · obtain ⟨hl, hgoes⟩ := List.mem_filter.mp hl
    obtain ⟨q, -, rfl⟩ := List.mem_map.mp hl
    have htarget : q.endpoint = p.endpoint := (Letter.goes_iff.mp hgoes).2
    show (⟨leader.endpoint, ⟨q.endpoint, bytes⟩⟩ : Letter) = _
    rw [htarget]

/-! ## The whole group -/

/-- The invariant of a run: the group is led, and no follower is lost. -/
structure Repairing (g : Group) (leader : Peer) : Prop extends g.Led leader where
  repaired : ∀ p ∈ g.table.peers, p ≠ leader → g.Repaired leader p

/-- When the leader tells all a control operation, or its status as it then is, every follower's
channel has something that the follower still has to answer. -/
theorem Led.repairing_tellAll {g : Group} {leader : Peer} (h : g.Led leader) {n : Node}
    (hview : n.view = (g.node leader.endpoint).view)
    (hconfig : n.config = (g.node leader.endpoint).config) (hbounded : n.player.Bounded)
    {m : Message} (hm : (∃ op, m = .control op) ∨ m = .sendStatus n.status) :
    (g.put leader.endpoint n (parcelsTo (g.table.except leader.id) m)).Repairing leader := by
  have hbounds : m.WithinBounds := by
    rcases hm with ⟨op, rfl⟩ | rfl
    · trivial
    · exact hbounded.withinBounds
  obtain ⟨bytes, -, hdecode, hparcels⟩ := exists_parcelsTo hbounds
  rw [hparcels]
  refine ⟨h.put hview hconfig hbounded (fun _ _ => .inr rfl) fun parcel hparcel => ?_,
    fun p hp hne => ⟨fun l s hlast hmessage => ?_, fun _ hnil => ?_⟩⟩
  · obtain ⟨q, -, rfl⟩ := List.mem_map.mp hparcel
    rcases hm with ⟨op, rfl⟩ | rfl
    · exact .inl ⟨op, hdecode⟩
    · exact .inr ⟨n.status, hdecode⟩
  · -- What was told is last in every channel: a status is the leader's own, and a control operation
    -- is none.
    rw [getLast?_channel_tellAll h hp hne] at hlast
    obtain rfl := Option.some.inj hlast
    obtain rfl : m = .sendStatus s := Except.ok.inj (hdecode.symm.trans hmessage)
    rw [node_put_self]
    rcases hm with ⟨op, heq⟩ | heq
    · cases heq
    · cases heq
      rfl
  · have hlast := getLast?_channel_tellAll h hp hne n bytes
    rw [hnil] at hlast
    cases hlast

/-- A letter taken out concerns no follower to which it does not go, unless it is the follower's own
status, and then it has been found to agree. -/
theorem Repaired.take {g : Group} {leader p : Peer} (h : g.Repaired leader p) {place : Nat}
    {l : Letter} {before after : List Letter} (hsplit : g.inFlight = before ++ l :: after)
    (htake : (g.take place l).inFlight = before ++ after)
    (hgoes : ¬ l.goes leader.endpoint p.endpoint = true)
    (hcompared : l.source = p.endpoint → l.Says (.sendStatus (g.node p.endpoint).status) →
      g.InStep leader p) :
    (g.take place l).Repaired leader p := by
  refine h.of_same (channel_take_of_ne hsplit htake hgoes) rfl rfl ?_ ?_
  · rintro ⟨l', hl', hgoes'⟩
    rcases List.mem_append.mp hl' with hold | hnew
    · exact ⟨l', hold, hgoes'⟩
    · obtain rfl := List.mem_singleton.mp hnew
      exact (hgoes hgoes').elim
  · intro l' hl' hsource hmessage
    rw [hsplit, List.mem_append, List.mem_cons] at hl'
    rw [htake, List.mem_append]
    rcases hl' with hbefore | rfl | hafter
    · exact .inl (.inl hbefore)
    · exact .inr (hcompared hsource hmessage)
    · exact .inl (.inr hafter)

/-- A follower that changes its player and writes to the leader concerns no other follower. -/
theorem Led.repairing_put_follower {g : Group} {leader q : Peer} (h : g.Led leader)
    (hq : q ∈ g.table.peers) (hne : q ≠ leader) {n : Node} {sent : List Parcel}
    (hview : n.view = (g.node q.endpoint).view)
    (hconfig : n.config = (g.node q.endpoint).config) (hbounded : n.player.Bounded)
    (hrouted : ∀ parcel ∈ sent, parcel.target = leader.endpoint)
    (hplayback : ∀ parcel ∈ sent, (∃ op, Letter.Says ⟨q.endpoint, parcel⟩ (.control op)) ∨
      ∃ s, Letter.Says ⟨q.endpoint, parcel⟩ (.sendStatus s))
    (hothers : ∀ p ∈ g.table.peers, p ≠ leader → p ≠ q → g.Repaired leader p)
    (hself : (g.put q.endpoint n sent).Repaired leader q) :
    (g.put q.endpoint n sent).Repairing leader := by
  refine ⟨h.put hview hconfig hbounded (fun parcel hp => .inl (hrouted parcel hp)) hplayback,
    fun p hp hpl => ?_⟩
  by_cases hpq : p = q
  · rw [hpq]
    exact hself
  · have hendpoint : p.endpoint ≠ q.endpoint :=
      fun heq => hpq (h.uniform.eq_of_endpoint_eq hp hq heq)
    have hleader : q.endpoint ≠ leader.endpoint := h.endpoint_ne hq hne
    refine (hothers p hp hpl hpq).of_same (channel_put_of_ne g hleader n sent p.endpoint)
      (node_put_of_ne g _ n sent hleader.symm) (node_put_of_ne g _ n sent hendpoint) id ?_
    exact fun l hl _ _ => .inl (List.mem_append_left _ hl)

/-! ## Steps -/

/-- A control command given at the leader's node. -/
theorem Repairing.control_leader {g : Group} {leader : Peer} (h : g.Repairing leader)
    (op : ControlOp) :
    (g.put leader.endpoint ((g.node leader.endpoint).control op).1
      ((g.node leader.endpoint).control op).2).Repairing leader := by
  have hmem := h.mem_leader
  rw [(h.holds hmem).control_leader op]
  have hbounded : ((g.node leader.endpoint).applyOp op).player.Bounded :=
    (h.bounded leader hmem).apply op
  refine h.repairing_tellAll ?_ ?_ hbounded (.inl ⟨op, rfl⟩)
  · rfl
  · rfl

/-- A control command given at a follower goes to the leader and changes nothing. -/
theorem Repairing.control_follower {g : Group} {leader q : Peer} (h : g.Repairing leader)
    (hq : q ∈ g.table.peers) (hne : q ≠ leader) (op : ControlOp) :
    (g.put q.endpoint ((g.node q.endpoint).control op).1
      ((g.node q.endpoint).control op).2).Repairing leader := by
  rw [(h.holds hq).control_follower (h.id_ne hq hne) op]
  obtain ⟨bytes, -, hdecode, hparcels⟩ :=
    exists_parcelsTo (show (Message.control op).WithinBounds from trivial)
  rw [hparcels, List.map_singleton]
  have hleader : q.endpoint ≠ leader.endpoint := h.endpoint_ne hq hne
  -- Nothing but a letter to the leader is new.
  refine h.repairing_put_follower hq hne rfl rfl (h.bounded q hq) ?_ ?_
    (fun p hp hpl _ => h.repaired p hp hpl) ?_
  · intro parcel hparcel
    obtain rfl := List.mem_singleton.mp hparcel
    rfl
  · intro parcel hparcel
    obtain rfl := List.mem_singleton.mp hparcel
    exact .inl ⟨op, hdecode⟩
  · refine (h.repaired q hq hne).of_same (channel_put_of_ne g hleader _ _ q.endpoint)
      (node_put_of_ne g _ _ _ hleader.symm) (node_put_self g _ _ _) id ?_
    exact fun l hl _ _ => .inl (List.mem_append_left _ hl)

/-! ## Deliveries -/

section Delivery

variable {g : Group} {leader q : Peer} {place : Nat} {l : Letter} {before after : List Letter}

/-- The leader receives a control operation. -/
theorem Repairing.receive_control_leader (h : g.Repairing leader)
    (htarget : l.parcel.target = leader.endpoint) {op : ControlOp}
    (hmessage : l.Says (.control op)) : ((g.take place l).receive l).Repairing leader := by
  have hled : (g.take place l).Led leader := h.toLed.take place l
  have hhosts : (g.take place l).Hosts l.parcel.target := ⟨leader, h.mem_leader, htarget.symm⟩
  have hbounded : ((g.node leader.endpoint).applyOp op).player.Bounded :=
    (h.bounded leader h.mem_leader).apply op
  rw [receive, if_pos hhosts, htarget, node_take, Node.receive_control hmessage,
    (h.holds h.mem_leader).onControl_leader op]
  refine hled.repairing_tellAll ?_ ?_ hbounded (.inl ⟨op, rfl⟩)
  · rfl
  · rfl

/-- The leader receives a status. If it agrees, the letter may have been all that its sender had to
show, and now the sender is known to agree. Otherwise the leader repairs all. -/
theorem Repairing.receive_status_leader (h : g.Repairing leader)
    (hsplit : g.inFlight = before ++ l :: after)
    (htake : (g.take place l).inFlight = before ++ after)
    (htarget : l.parcel.target = leader.endpoint) {s : PlaybackStatus}
    (hmessage : l.Says (.sendStatus s)) : ((g.take place l).receive l).Repairing leader := by
  have hled : (g.take place l).Led leader := h.toLed.take place l
  have hhosts : (g.take place l).Hosts l.parcel.target := ⟨leader, h.mem_leader, htarget.symm⟩
  have hholds := h.holds h.mem_leader
  rw [receive, if_pos hhosts, htarget, node_take, Node.receive_status hmessage]
  by_cases hagrees : (g.node leader.endpoint).status.agrees s
      (g.node leader.endpoint).config.tolerance = true
  · rw [hholds.onStatus_leader_of_agrees hagrees]
    -- The leader is silent because they agree, which is what its follower had to reach.
    show ((g.take place l).put leader.endpoint (g.node leader.endpoint) []).Repairing leader
    rw [← node_take g place l, put_self]
    refine ⟨hled, fun p hp hne => ?_⟩
    refine (h.repaired p hp hne).take hsplit htake (fun hgoes => ?_) fun _ hmessage' => ?_
    · have hpl : leader.endpoint = p.endpoint :=
        htarget.symm.trans (Letter.goes_iff.mp hgoes).2
      exact h.endpoint_ne hp hne hpl.symm
    · cases Except.ok.inj (hmessage.symm.trans hmessage')
      exact hagrees
  · rw [hholds.onStatus_leader_of_not_agrees hagrees]
    refine hled.repairing_tellAll ?_ ?_ (h.bounded leader h.mem_leader) (.inr rfl)
    · rfl
    · rfl

/-- A letter to one follower concerns no other. -/
theorem Repairing.repaired_take (h : g.Repairing leader) (hq : q ∈ g.table.peers)
    (hsplit : g.inFlight = before ++ l :: after)
    (htake : (g.take place l).inFlight = before ++ after)
    (hgoes : l.goes leader.endpoint q.endpoint = true) {p : Peer} (hp : p ∈ g.table.peers)
    (hpl : p ≠ leader) (hpq : p ≠ q) : (g.take place l).Repaired leader p := by
  obtain ⟨hsource, htarget⟩ := Letter.goes_iff.mp hgoes
  refine (h.repaired p hp hpl).take hsplit htake (fun hgoes' => ?_) fun hsource' _ => ?_
  · have heq : q.endpoint = p.endpoint := htarget.symm.trans (Letter.goes_iff.mp hgoes').2
    exact hpq (h.uniform.eq_of_endpoint_eq hp hq heq.symm)
  · exact (h.endpoint_ne hp hpl (hsource'.symm.trans hsource)).elim

/-- Without its first letter a channel ends as it did, and the leader has not changed. -/
theorem Repairing.latest_put_take (h : g.Repairing leader) (hq : q ∈ g.table.peers)
    (hne : q ≠ leader) (hchannel : g.channel leader.endpoint q.endpoint =
      l :: (g.take place l).channel leader.endpoint q.endpoint) (n : Node) (sent : List Parcel)
    (l' : Letter) (s : PlaybackStatus)
    (hlast : (((g.take place l).put q.endpoint n sent).channel leader.endpoint
      q.endpoint).getLast? = some l') (hmessage : l'.Says (.sendStatus s)) :
    s = (((g.take place l).put q.endpoint n sent).node leader.endpoint).status := by
  have hleader : q.endpoint ≠ leader.endpoint := h.endpoint_ne hq hne
  rw [channel_put_of_ne _ hleader] at hlast
  rw [node_put_of_ne _ _ _ _ hleader.symm]
  refine (h.repaired q hq hne).latest l' s ?_ hmessage
  rw [hchannel, List.getLast?_cons, hlast]
  rfl

/-- A follower receives a control operation, and its new status is on its way to the leader. -/
theorem Repairing.receive_control_follower (h : g.Repairing leader) (hq : q ∈ g.table.peers)
    (hne : q ≠ leader) (hsplit : g.inFlight = before ++ l :: after)
    (htake : (g.take place l).inFlight = before ++ after)
    (hgoes : l.goes leader.endpoint q.endpoint = true)
    (hchannel : g.channel leader.endpoint q.endpoint =
      l :: (g.take place l).channel leader.endpoint q.endpoint) {op : ControlOp}
    (hmessage : l.Says (.control op)) : ((g.take place l).receive l).Repairing leader := by
  obtain ⟨-, htarget⟩ := Letter.goes_iff.mp hgoes
  have hhosts : (g.take place l).Hosts l.parcel.target := ⟨q, hq, htarget.symm⟩
  have hbounded : ((g.node q.endpoint).applyOp op).player.Bounded := (h.bounded q hq).apply op
  obtain ⟨bytes, -, hdecode, hparcels⟩ := exists_parcelsTo hbounded.withinBounds
  have hsent : parcelsTo [leader] (.sendStatus ((g.node q.endpoint).applyOp op).status) =
      [⟨leader.endpoint, bytes⟩] := hparcels [leader]
  rw [receive, if_pos hhosts, htarget, node_take, Node.receive_control hmessage,
    (h.holds hq).onControl_follower (h.id_ne hq hne), hsent]
  -- The report that it sends will be compared, so nothing else is asked of the follower now.
  refine (h.toLed.take place l).repairing_put_follower hq hne ?_ ?_ hbounded ?_ ?_
    (fun p hp hpl hpq => h.repaired_take hq hsplit htake hgoes hp hpl hpq)
    ⟨h.latest_put_take hq hne hchannel _ _, fun _ _ =>
      .inr ⟨⟨q.endpoint, ⟨leader.endpoint, bytes⟩⟩, ?_, rfl, ?_⟩⟩
  · rfl
  · rfl
  · intro parcel hparcel
    obtain rfl := List.mem_singleton.mp hparcel
    rfl
  · intro parcel hparcel
    obtain rfl := List.mem_singleton.mp hparcel
    exact .inr ⟨_, hdecode⟩
  · exact List.mem_append_right _ List.mem_cons_self
  · show Message.decode bytes = _
    rw [node_put_self]
    exact hdecode

/-- A follower receives a status and takes it over. If the letter was the last of its channel, this
is the leader's present status. -/
theorem Repairing.receive_status_follower (h : g.Repairing leader) (hq : q ∈ g.table.peers)
    (hne : q ≠ leader) (hsplit : g.inFlight = before ++ l :: after)
    (htake : (g.take place l).inFlight = before ++ after)
    (hgoes : l.goes leader.endpoint q.endpoint = true)
    (hchannel : g.channel leader.endpoint q.endpoint =
      l :: (g.take place l).channel leader.endpoint q.endpoint) {s : PlaybackStatus}
    (hmessage : l.Says (.sendStatus s)) : ((g.take place l).receive l).Repairing leader := by
  obtain ⟨-, htarget⟩ := Letter.goes_iff.mp hgoes
  have hhosts : (g.take place l).Hosts l.parcel.target := ⟨q, hq, htarget.symm⟩
  have hleader : q.endpoint ≠ leader.endpoint := h.endpoint_ne hq hne
  rw [receive, if_pos hhosts, htarget, node_take, Node.receive_status hmessage,
    (h.holds hq).onStatus_follower (h.id_ne hq hne) (h.ungated q hq)]
  refine (h.toLed.take place l).repairing_put_follower hq hne ?_ ?_
    (Player.bounded_setStatus _ s) ?_ ?_
    (fun p hp hpl hpq => h.repaired_take hq hsplit htake hgoes hp hpl hpq)
    ⟨h.latest_put_take hq hne hchannel _ _, fun _ hnil => .inl ?_⟩
  · rfl
  · rfl
  · exact fun parcel hparcel => absurd hparcel List.not_mem_nil
  · exact fun parcel hparcel => absurd hparcel List.not_mem_nil
  · rw [channel_put_of_ne _ hleader] at hnil
    -- If no other letter follows in the channel, this status was the leader's present one.
    have hs : s = (g.node leader.endpoint).status := by
      refine (h.repaired q hq hne).latest l s ?_ hmessage
      rw [hchannel, hnil]
      rfl
    have hsame : ((g.node q.endpoint).player.setStatus s).status =
        (g.node leader.endpoint).status := by
      rw [hs]
      exact (h.bounded leader h.mem_leader).status_setStatus _
    rw [InStep, node_put_of_ne _ _ _ _ hleader.symm, node_put_self, node_take]
    show (g.node leader.endpoint).status.agrees
      ((g.node q.endpoint).player.setStatus s).status _ = true
    rw [hsame]
    exact PlaybackStatus.agrees_self _ _

/-- A letter to an endpoint without a node is lost. -/
theorem Repairing.lose (h : g.Repairing leader) (hl : l ∈ g.inFlight)
    (hsplit : g.inFlight = before ++ l :: after)
    (htake : (g.take place l).inFlight = before ++ after) (hlost : ¬ g.Hosts l.parcel.target) :
    ((g.take place l).receive l).Repairing leader := by
  have hsource : l.source = leader.endpoint :=
    (h.routed l hl).resolve_left fun heq => hlost ⟨leader, h.mem_leader, heq.symm⟩
  have hlost' : ¬ (g.take place l).Hosts l.parcel.target := hlost
  rw [receive, if_neg hlost']
  refine ⟨h.toLed.take place l, fun p hp hne => ?_⟩
  refine (h.repaired p hp hne).take hsplit htake (fun hgoes => ?_) fun hsource' _ => ?_
  · exact hlost ⟨p, hp, (Letter.goes_iff.mp hgoes).2.symm⟩
  · exact (h.endpoint_ne hp hne (hsource'.symm.trans hsource)).elim

/-- Whoever receives a letter, nothing is lost as long as the leader's letters keep their order. -/
theorem Repairing.receive (h : g.Repairing leader) (hl : l ∈ g.inFlight)
    (hsplit : g.inFlight = before ++ l :: after)
    (htake : (g.take place l).inFlight = before ++ after)
    (hfirst : l.source = leader.endpoint →
      ∀ l' ∈ before, ¬ l'.goes leader.endpoint l.parcel.target = true) :
    ((g.take place l).receive l).Repairing leader := by
  by_cases hhosts : g.Hosts l.parcel.target
  · obtain ⟨q, hq, htarget⟩ := hhosts
    -- Whatever is in flight is a control operation or a status, to the leader or from it.
    by_cases hne : q = leader
    · have htarget' : l.parcel.target = leader.endpoint := by rw [← htarget, hne]
      rcases h.playback l hl with ⟨op, hmessage⟩ | ⟨s, hmessage⟩
      · exact h.receive_control_leader htarget' hmessage
      · exact h.receive_status_leader hsplit htake htarget' hmessage
    · have hsource : l.source = leader.endpoint :=
        (h.routed l hl).resolve_left fun heq => h.endpoint_ne hq hne (htarget.trans heq)
      have hgoes : l.goes leader.endpoint q.endpoint = true :=
        Letter.goes_iff.mpr ⟨hsource, htarget.symm⟩
      have hchannel := channel_eq_cons_take hsplit htake hgoes (by
        rw [htarget]
        exact hfirst hsource)
      rcases h.playback l hl with ⟨op, hmessage⟩ | ⟨s, hmessage⟩
      · exact h.receive_control_follower hq hne hsplit htake hgoes hchannel hmessage
      · exact h.receive_status_follower hq hne hsplit htake hgoes hchannel hmessage
  · exact h.lose hl hsplit htake hhosts

end Delivery

/-! ## Runs -/

/-- Nobody is given a song, and the letters of the source to each endpoint keep their order. -/
def Orderly (source : Endpoint) : Group → List GroupStep → Prop
  | _, [] => True
  | g, a :: rest => (a.IsControl ∧ g.InOrder source a) ∧ (g.step a).Orderly source rest

instance decidableOrderly (source : Endpoint) :
    (g : Group) → (steps : List GroupStep) → Decidable (g.Orderly source steps)
  | _, [] => isTrue trivial
  | g, a :: rest =>
    have := decidableOrderly source (g.step a) rest
    inferInstanceAs
      (Decidable ((a.IsControl ∧ g.InOrder source a) ∧ (g.step a).Orderly source rest))

/-- No step that keeps the order of the leader's letters breaks the invariant. -/
theorem Repairing.step {g : Group} {leader : Peer} (h : g.Repairing leader) {a : GroupStep}
    (hcontrol : a.IsControl) (horder : g.InOrder leader.endpoint a) :
    (g.step a).Repairing leader := by
  cases a with
  | act e c =>
    rw [Group.step]
    by_cases hhosts : g.Hosts e
    · rw [if_pos hhosts]
      obtain ⟨q, hq, rfl⟩ := hhosts
      obtain ⟨op, hop⟩ :=
        LocalCommand.exists_run_eq_control (g.node q.endpoint) hcontrol
      rw [hop]
      by_cases hne : q = leader
      · rw [hne]
        exact h.control_leader op
      · exact h.control_follower hq hne op
    · rw [if_neg hhosts]
      exact h
  | deliver place =>
    obtain hnone | ⟨before, l, after, hsplit, hplace, htake, hstep⟩ := g.step_deliver_cases place
    · rw [hnone]
      exact h
    · have hl : l ∈ g.inFlight := hsplit ▸ List.mem_append_cons_self
      rw [hstep]
      -- A letter of the leader is the first in its channel when it is delivered.
      refine h.receive hl hsplit htake fun hsource => ?_
      have hfirst := horder l (getElem?_of_split hsplit hplace) hsource
      rwa [take_of_split hsplit hplace] at hfirst

/-- No run that keeps the order of the leader's letters breaks the invariant. -/
theorem Repairing.run {g : Group} {leader : Peer} (h : g.Repairing leader)
    {steps : List GroupStep} (hsteps : g.Orderly leader.endpoint steps) :
    (g.run steps).Repairing leader := by
  induction steps generalizing g with
  | nil => exact h
  | cons a rest ih =>
    obtain ⟨⟨hcontrol, horder⟩, hrest⟩ := hsteps
    exact ih (h.step hcontrol horder) hrest

/-- A group of which no letter is in flight and nobody has heard anything. -/
theorem Led.repairing_of_start {g : Group} {leader : Peer} (h : g.Led leader)
    (hflight : g.inFlight = []) (hdelivered : g.delivered = []) : g.Repairing leader := by
  refine ⟨h, fun p _ _ => ⟨fun l s hlast _ => ?_, fun hheard _ => ?_⟩⟩
  · rw [channel, hflight] at hlast
    cases hlast
  · obtain ⟨l, hl, -⟩ := hheard
    rw [hdelivered] at hl
    cases hl

end Group

/-- Whatever the players of a uniform group with open gates were at the start, and however control
commands, relays, statuses and repairs overlap: when no letter is in flight, every node that a
letter of the coordinator has reached agrees with the coordinator. -/
theorem repair_converges (g : Group) (leader : Peer) (steps : List GroupStep)
    (huniform : g.Uniform) (hleader : g.table.coordinator = some leader)
    (hungated : ∀ p ∈ g.table.peers, (g.node p.endpoint).config.coordinatorOnly = false)
    (hplayers : ∀ p ∈ g.table.peers, (g.node p.endpoint).player.Reachable)
    (hflight : g.inFlight = []) (hdelivered : g.delivered = [])
    (hsteps : g.Orderly leader.endpoint steps) (hquiet : (g.run steps).inFlight = []) :
    ∀ p ∈ g.table.peers, p ≠ leader → (g.run steps).Heard leader p →
      (g.run steps).InStep leader p := by
  intro p hp hne hheard
  have hled : g.Led leader := by
    refine ⟨huniform, hleader, hungated, fun q hq => (hplayers q hq).bounded, ?_, ?_⟩
    · rw [hflight]
      exact fun l hl => absurd hl List.not_mem_nil
    · rw [hflight]
      exact fun l hl => absurd hl List.not_mem_nil
  have hrun : (g.run steps).Repairing leader :=
    (hled.repairing_of_start hflight hdelivered).run hsteps
  have htable : (g.run steps).table = g.table := Group.table_run g steps
  have hchannel : (g.run steps).channel leader.endpoint p.endpoint = [] := by
    rw [Group.channel, hquiet]
    rfl
  -- Nothing is in flight that could still repair it, so it is repaired.
  rcases (hrun.repaired p (by rwa [htable]) hne).caughtUp hheard hchannel with hagrees | hsent
  · exact hagrees
  · obtain ⟨l, hl, -⟩ := hsent
    rw [hquiet] at hl
    cases hl

/-- A table of three peers. -/
def driftedTable : PeerTable :=
  PeerTable.ofPeers [⟨.v4 ⟨10, 0, 0, 1⟩, 43210, ⟨9⟩⟩, ⟨.v4 ⟨10, 0, 0, 2⟩, 43210, ⟨5⟩⟩,
    ⟨.v4 ⟨10, 0, 0, 3⟩, 43210, ⟨3⟩⟩]

/-- A node that holds the table and has just begun a song. -/
def driftedNode (id : PeerId) (song : SongId) : Node :=
  ⟨⟨43210, 2000, 2, false⟩, View.adopt id driftedTable, Player.start song⟩

/-- Three nodes, of which the second plays another song than the others. -/
def drifted : Group where
  table := driftedTable
  node := fun e =>
    if e.address = .v4 ⟨10, 0, 0, 1⟩ then driftedNode ⟨9⟩ 1
    else if e.address = .v4 ⟨10, 0, 0, 2⟩ then driftedNode ⟨5⟩ 2
    else driftedNode ⟨3⟩ 1
  inFlight := []
  delivered := []

/-- The second node asks for a pause, the relays arrive in another order than they were sent, and
the coordinator repairs the second node before it hears of the third. -/
def repairOfSecond : List GroupStep :=
  [.act ⟨.v4 ⟨10, 0, 0, 2⟩, 43210⟩ (.control .stop), .deliver 0, .deliver 1, .deliver 0, .deliver 1,
    .deliver 0, .deliver 1, .deliver 0]

/-- The follower skips a song, the status with which it answers differs from the leader's, and the
leader's answer repairs that. -/
theorem repair_converges_drifted :
    ¬ drifted.InStep ⟨.v4 ⟨10, 0, 0, 1⟩, 43210, ⟨9⟩⟩ ⟨.v4 ⟨10, 0, 0, 2⟩, 43210, ⟨5⟩⟩ ∧
      drifted.Orderly ⟨.v4 ⟨10, 0, 0, 1⟩, 43210⟩ repairOfSecond ∧
      (drifted.run repairOfSecond).inFlight = [] ∧
      (drifted.run repairOfSecond).InStep ⟨.v4 ⟨10, 0, 0, 1⟩, 43210, ⟨9⟩⟩
        ⟨.v4 ⟨10, 0, 0, 2⟩, 43210, ⟨5⟩⟩ := by
  have hplayers : ∀ p ∈ drifted.table.peers, (drifted.node p.endpoint).player.Reachable := by
    have hstart : ∀ p ∈ drifted.table.peers, (drifted.node p.endpoint).player = Player.start 1 ∨
        (drifted.node p.endpoint).player = Player.start 2 := by decide
    intro p hp
    rcases hstart p hp with heq | heq
    · exact ⟨1000, 1, [], by rw [heq]; rfl⟩
    · exact ⟨1000, 2, [], by rw [heq]; rfl⟩
  have horderly : drifted.Orderly ⟨.v4 ⟨10, 0, 0, 1⟩, 43210⟩ repairOfSecond := by decide +kernel
  have hquiet : (drifted.run repairOfSecond).inFlight = [] := by decide +kernel
  refine ⟨by decide, horderly, hquiet, ?_⟩
  exact repair_converges drifted ⟨.v4 ⟨10, 0, 0, 1⟩, 43210, ⟨9⟩⟩ repairOfSecond
    ⟨by decide, by decide, by decide⟩ (by decide) (by decide) hplayers rfl rfl horderly hquiet
    ⟨.v4 ⟨10, 0, 0, 2⟩, 43210, ⟨5⟩⟩ (by decide) (by decide) (by decide +kernel)

end Ensemble
