import Ensemble.Proofs.Membership.Entries
import Ensemble.Proofs.Node.Registration

/-!
# Registering with the service, from end to end

A `Handshake` is one session of a node with the service: the node's CONNECT in bytes, what the
service makes of it, and the node with the reply. It ends in one of two ways. If the endpoint is
unknown and the table is full, the service stays silent and nothing changes on either side.
Otherwise the node holds the registry's table afterwards, under the id of the one entry of its
endpoint.

* `Handshake.refused`, `Handshake.welcomed_of_knows`, `Handshake.welcomed_of_room` — the cases.
* `ServiceSession.eq_of_stays` — an entry that stays is that of the same peer.
* `handshake_agrees` — either way both sides agree, and registering again changes nothing.
-/

namespace Ensemble

/-- A well-formed registry is within the bounds of a message: whoever is welcomed gets its table. -/
theorem Registry.WellFormed.exists_welcome {r : Registry} (h : r.WellFormed) (own : PeerId) :
    ∃ bytes, Service.welcome own r.table = ⟨true, bytes⟩ ∧
      Message.decode bytes = .ok (.clientList own r.table) := by
  have hbounds : (Message.clientList own r.table).WithinBounds :=
    Nat.le_trans h.length_le h.limit_le
  obtain ⟨bytes, hencode, -⟩ := Message.exists_encode hbounds
  exact ⟨bytes, by rw [Service.welcome, hencode], Message.decode_of_encode hencode⟩

/-- The hint of a registry's table is the id of its coordinator. -/
theorem Registry.hint_table {r : Registry} {p : Peer} (h : p ∈ r.peers) :
    ∃ leader, r.table.coordinator = some leader ∧ r.table.hint = leader.id := by
  obtain ⟨leader, hleader⟩ := PeerTable.exists_coordinator (t := r.table) h
  refine ⟨leader, hleader, ?_⟩
  change highest r.peers = some leader at hleader
  show ((highest r.peers).map (·.id)).getD ⟨0⟩ = leader.id
  rw [hleader]
  rfl

/-- A node registers: its bytes reach the service over one session, and the reply comes back. -/
structure Handshake where
  session : ServiceSession
  node : Node
  /-- Where the node's connection comes from. -/
  client : Endpoint
  running : Bool
  draw : Nat → PeerId

namespace Handshake

/-- The endpoint under which the node is registered. -/
def endpoint (h : Handshake) : Endpoint := ⟨h.client.address, h.node.config.listenPort⟩

/-- The session, as the service has it. -/
def talk (h : Handshake) : Conversation (Service × List Parcel) :=
  converse (Service.sessionHandler ⟨h.session.now, h.running, h.draw⟩ h.client)
    (h.session.service, []) h.node.connectBytes

/-- The service afterwards. -/
def after (h : Handshake) : ServiceSession := { h.session with service := h.talk.state.1 }

/-- What the service has sent to others. -/
def sent (h : Handshake) : List Parcel := h.talk.state.2

/-- What went back to the node. -/
def reply (h : Handshake) : Bytes := h.talk.written

/-- What the registry holds afterwards. -/
def registry (h : Handshake) : Registry := h.after.service.registry

/-- Nothing changes on either side. -/
structure Refused (h : Handshake) : Prop where
  reply_eq : h.reply = []
  after_eq : h.after = h.session
  sent_eq : h.sent = []
  register_eq : ∀ remote : Remote, remote.reply? = some h.reply →
    h.node.register remote = ⟨h.node, some .noAnswer, some h.node.connectBytes, 0⟩

/-- The node holds the registry's table, with the id `own`. -/
structure Joined (h : Handshake) (own : PeerId) (n : Node) : Prop where
  ownId_eq : n.view.ownId = some own
  peers_eq : n.view.table.peers = h.registry.peers
  coordinator_eq : n.view.coordinator = h.registry.table.coordinator

/-- The reply is the registry's table, with the id of the endpoint's entry, and the node takes it
over. -/
structure Welcomed (h : Handshake) (own : PeerId) (table : PeerTable) : Prop where
  decode_reply : Message.decode h.reply = .ok (.clientList own table)
  peers_eq : table.peers = h.registry.peers
  hint_eq : ∃ leader, table.coordinator = some leader ∧ table.hint = leader.id
  own_entry : ∃ p, p.id = own ∧ ∀ q, q ∈ h.registry.peers ∧ q.endpoint = h.endpoint ↔ q = p
  register_eq : ∀ remote : Remote, remote.reply? = some h.reply →
    h.node.register remote =
      ⟨{ h.node with view := View.adopt own table }, none, some h.node.connectBytes, 0⟩
  joined : ∀ remote : Remote, remote.reply? = some h.reply →
    h.Joined own (h.node.register remote).node

variable {h : Handshake}

/-- The session is one CONNECT. -/
theorem talk_eq (h : Handshake) :
    h.after = { h.session with
      service := (h.session.service.onConnect ⟨h.session.now, h.running, h.draw⟩
        h.endpoint).service } ∧
    h.sent = (h.session.service.onConnect ⟨h.session.now, h.running, h.draw⟩ h.endpoint).sent ∧
    h.reply =
      (h.session.service.onConnect ⟨h.session.now, h.running, h.draw⟩ h.endpoint).answer.sent := by
  have hdecode := h.node.decode_connectBytes
  obtain ⟨hstate, hwritten⟩ := converse_of_decode
    (Service.sessionHandler ⟨h.session.now, h.running, h.draw⟩ h.client) (h.session.service, [])
    hdecode
  simp only [after, sent, reply, talk, hstate, hwritten, Service.sessionHandler, Service.receive,
    hdecode, Service.handle, List.nil_append]
  exact ⟨rfl, rfl, rfl⟩

/-- The session is a step of the service. -/
theorem after_eq_step (h : Handshake) :
    h.after =
      (h.session.step (.receive h.client h.node.connectBytes h.running h.draw)).1 := by
  rw [h.talk_eq.1, ServiceSession.step_connect h.node.decode_connectBytes]
  rfl

/-- Without room for its endpoint the node is refused. -/
theorem refused (hnone : h.session.service.registry.find? h.endpoint = none)
    (hfull : h.session.service.registry.limit ≤ h.session.service.registry.entries.length) :
    h.Refused := by
  obtain ⟨hafter, hsent, hreply⟩ := h.talk_eq
  obtain ⟨x, hfind, -⟩ | ⟨-, -, heq⟩ | ⟨-, hroom, -⟩ :=
    h.session.service.onConnect_cases ⟨h.session.now, h.running, h.draw⟩ h.endpoint
  · rw [hnone] at hfind
    cases hfind
  · rw [heq] at hafter hsent hreply
    have hsilent : h.reply = [] := hreply
    exact ⟨hsilent, hafter, hsent, fun remote hremote => Node.register_of_nil (hsilent ▸ hremote)⟩
  · omega

/-- Whoever is answered with the table and the id of its entry is welcomed. -/
theorem welcomed_of_answer (hwell : h.registry.WellFormed) {x : RegistryEntry}
    (hfind : h.registry.find? h.endpoint = some x)
    (hanswer : h.reply = (Service.welcome x.peer.id h.registry.table).sent) :
    h.Welcomed x.peer.id h.registry.table := by
  obtain ⟨bytes, hwelcome, hdecode⟩ := hwell.exists_welcome x.peer.id
  rw [hwelcome] at hanswer
  change h.reply = bytes at hanswer
  rw [← hanswer] at hdecode
  -- The one entry with the own endpoint is the entry that was found.
  refine ⟨hdecode, rfl, Registry.hint_table (Registry.peer_mem_of_find? hfind),
    ⟨x.peer, rfl, fun q => ⟨?_, ?_⟩⟩,
    fun remote hremote => Node.register_of_clientList hremote hdecode, fun remote hremote => ?_⟩
  · rintro ⟨hq, he⟩
    exact List.inj_on_of_nodup_map hwell.nodup hq (Registry.peer_mem_of_find? hfind)
      (he.trans (Registry.mem_of_find? hfind).2.symm)
  · rintro rfl
    exact ⟨Registry.peer_mem_of_find? hfind, (Registry.mem_of_find? hfind).2⟩
  · rw [Node.register_of_clientList hremote hdecode]
    exact ⟨rfl, rfl, rfl⟩

/-- Who is registered already is welcomed under the id that it has, and nothing is entered. -/
theorem welcomed_of_knows (hwell : h.session.service.registry.WellFormed) {x : RegistryEntry}
    (hfind : h.session.service.registry.find? h.endpoint = some x) :
    h.registry = h.session.service.registry ∧ h.Welcomed x.peer.id h.registry.table := by
  obtain ⟨hafter, -, hreply⟩ := h.talk_eq
  obtain ⟨y, hfind', hregistry, hanswer, -⟩ | ⟨hnone, -⟩ | ⟨hnone, -⟩ :=
    h.session.service.onConnect_cases ⟨h.session.now, h.running, h.draw⟩ h.endpoint
  · obtain rfl : x = y := Option.some.inj (hfind.symm.trans hfind')
    have hsame : h.registry = h.session.service.registry := by
      rw [registry, hafter]
      exact hregistry
    refine ⟨hsame, welcomed_of_answer (hsame ▸ hwell) (hsame ▸ hfind) ?_⟩
    rw [hreply, hanswer, hsame]
  · rw [hnone] at hfind
    cases hfind
  · rw [hnone] at hfind
    cases hfind

/-- Where there is room a new endpoint is entered and welcomed. -/
theorem welcomed_of_room (hwell : h.session.service.registry.WellFormed)
    (hnone : h.session.service.registry.find? h.endpoint = none)
    (hroom : h.session.service.registry.entries.length < h.session.service.registry.limit) :
    ∃ own, h.Welcomed own h.registry.table := by
  obtain ⟨hafter, -, hreply⟩ := h.talk_eq
  obtain ⟨x, hfind, -⟩ | ⟨-, hfull, -⟩ | ⟨-, -, hregistry, -, hanswer, -⟩ :=
    h.session.service.onConnect_cases ⟨h.session.now, h.running, h.draw⟩ h.endpoint
  · rw [hnone] at hfind
    cases hfind
  · -- The registry is not full, by hypothesis.
    omega
  · have hentered : h.registry =
        (h.session.service.registry.register h.session.now h.draw h.endpoint).1 := by
      rw [registry, hafter]
      exact hregistry
    have hfind : h.registry.find? h.endpoint =
        some (h.session.service.registry.newEntry h.session.now h.draw h.endpoint) := by
      rw [hentered]
      exact Registry.find?_register hnone hroom h.session.now h.draw
    refine ⟨_, welcomed_of_answer (hentered ▸ hwell.register _ _ _) hfind ?_⟩
    rw [hreply, hanswer, hregistry, hentered]

end Handshake

/-! ## While an entry stays -/

namespace ServiceSession

variable {s : ServiceSession}

/-- While an endpoint stays registered, it is so as the same peer. -/
theorem eq_of_stays (h : s.service.registry.WellFormed) (hpast : s.service.registry.Past s.now)
    {x : RegistryEntry} (hx : x ∈ s.entries) {later : List ServiceStep}
    (hstays : ∀ first, first <+: later → (s.run first).Knows x.peer.endpoint) :
    ∃ y, (s.run later).service.registry.find? x.peer.endpoint = some y ∧ y.peer = x.peer := by
  -- Induction on the steps: the one entry at this endpoint lasts through each of them.
  induction later generalizing s x with
  | nil => exact ⟨x, h.find?_eq_some_iff.mpr ⟨hx, rfl⟩, rfl⟩
  | cons a rest ih =>
    have h' := wellFormed_step h a
    obtain ⟨y, hfind⟩ := knows_iff_find?.mp (hstays [a] (List.prefix_append [a] rest))
    obtain ⟨hy, he⟩ := Registry.mem_of_find? hfind
    obtain ⟨x', hx', hlasts⟩ | ⟨hunknown, -⟩ := mem_entries_step h hpast hy
    · have hsame : x' = x := Option.some.inj
        ((h.find?_eq_some_iff.mpr ⟨hx', hlasts.endpoint_eq.symm.trans he⟩).symm.trans
          (h.find?_eq_some_iff.mpr ⟨hx, rfl⟩))
      have hpeer : y.peer = x.peer := hsame ▸ hlasts.peer_eq
      have hrest : ∀ first, first <+: rest → ((s.step a).1.run first).Knows y.peer.endpoint := by
        intro first hfirst
        rw [he]
        exact hstays (a :: first) ((List.cons_prefix_cons).mpr ⟨rfl, hfirst⟩)
      obtain ⟨z, hz, hpeer'⟩ := ih h' (past_step h hpast a) hy hrest
      exact ⟨z, he ▸ hz, hpeer'.trans hpeer⟩
    · -- An entry that is new would mean the endpoint was unknown just before.
      rw [he] at hunknown
      exact absurd (hstays [] List.nil_prefix) hunknown

end ServiceSession

/-! ## The whole handshake -/

/-- Let a node register after any run of the service. If its endpoint is unknown and the table is
full, the service is silent and as it was, and the node learns that there was no answer. Otherwise
the reply is the registry's table, with the id of the one entry of the endpoint, and the node takes
it over. For as long as that entry stays, whoever registers for the endpoint gets the same id,
nothing is entered, and the table is the same if nobody came or went. -/
theorem handshake_agrees (config : ServiceConfig) (steps : List ServiceStep) (h : Handshake)
    (hsession : h.session = (ServiceSession.start config).run steps) :
    ((¬ h.session.Knows h.endpoint ∧ h.session.service.registry.limit ≤ h.session.peers.length) ∧
      h.Refused) ∨
    ¬ (¬ h.session.Knows h.endpoint ∧
        h.session.service.registry.limit ≤ h.session.peers.length) ∧
      ∃ own table, h.Welcomed own table ∧
        ∀ later : List ServiceStep,
          (∀ first, first <+: later → (h.after.run first).Knows h.endpoint) →
          ∀ h' : Handshake, h'.session = h.after.run later → h'.endpoint = h.endpoint →
            h'.registry = h'.session.service.registry ∧
              ∃ table', h'.Welcomed own table' ∧
                (h'.session.peers = h.after.peers → table' = table) := by
  have hempty : (Registry.empty config.maxPeers).WellFormed := Registry.wellFormed_empty _
  have hwell : h.session.service.registry.WellFormed :=
    hsession ▸ ServiceSession.wellFormed_run hempty steps
  have hpast : h.session.service.registry.Past h.session.now :=
    hsession ▸ ServiceSession.past_run hempty (fun _ hx => absurd hx List.not_mem_nil) steps
  have hwell' : h.registry.WellFormed := by
    rw [Handshake.registry, h.after_eq_step]
    exact ServiceSession.wellFormed_step hwell _
  have hpast' : h.registry.Past h.after.now := by
    rw [Handshake.registry, h.after_eq_step]
    exact ServiceSession.past_step hwell hpast _
  rw [ServiceSession.not_knows_iff, ServiceSession.peers, Registry.length_peers]
  -- A newcomer at a full registry is refused; everybody else is welcomed.
  by_cases hfull : h.session.service.registry.find? h.endpoint = none ∧
      h.session.service.registry.limit ≤ h.session.service.registry.entries.length
  · exact .inl ⟨hfull, Handshake.refused hfull.1 hfull.2⟩
  · refine .inr ⟨hfull, ?_⟩
    have hwelcomed : ∃ own, h.Welcomed own h.registry.table := by
      cases hfind : h.session.service.registry.find? h.endpoint with
      | some x => exact ⟨x.peer.id, (Handshake.welcomed_of_knows hwell hfind).2⟩
      | none =>
        rw [hfind] at hfull
        exact Handshake.welcomed_of_room hwell hfind (by simpa using hfull)
    obtain ⟨own, hwelcome⟩ := hwelcomed
    refine ⟨own, h.registry.table, hwelcome, fun later hstays h' hsession' hendpoint => ?_⟩
    -- The entry that was told of is still there later on, and with it the same answer.
    obtain ⟨p, hid, hentry⟩ := hwelcome.own_entry
    obtain ⟨hp, he⟩ := (hentry p).mpr rfl
    obtain ⟨x, hx, rfl⟩ := List.mem_map.mp hp
    rw [← he] at hstays
    obtain ⟨y, hfind, hpeer⟩ := ServiceSession.eq_of_stays hwell' hpast' hx hstays
    rw [he, ← hendpoint, ← hsession'] at hfind
    have hwell'' : h'.session.service.registry.WellFormed :=
      hsession' ▸ ServiceSession.wellFormed_run hwell' later
    obtain ⟨hsame, hwelcome'⟩ := Handshake.welcomed_of_knows hwell'' hfind
    rw [hpeer, hid] at hwelcome'
    refine ⟨hsame, _, hwelcome', fun hpeers => ?_⟩
    rw [hsame]
    exact congrArg PeerTable.ofPeers hpeers

/-- A peer is registered, and a node comes later. -/
def lateComer : Handshake where
  session := (ServiceSession.start ⟨1000, 3000, 1000, 2000, 2⟩).run
    [.receive ⟨.v4 ⟨10, 0, 0, 2⟩, 50000⟩ [3, 168, 202] true fun _ => ⟨7⟩, .advance 2000]
  node := Node.start ⟨43210, 2000, 1, false⟩ (Player.start 1)
  client := ⟨.v4 ⟨10, 0, 0, 1⟩, 50000⟩
  running := true
  draw := fun _ => ⟨9⟩

/-- The node comes back after a sweep, over another connection. -/
def comeback : Handshake :=
  { lateComer with
    session := lateComer.after.run [.sweep]
    client := ⟨.v4 ⟨10, 0, 0, 1⟩, 50001⟩
    draw := fun _ => ⟨3⟩ }

/-- A peer that comes back after a sweep is told of the id it had, and of the same table. -/
theorem handshake_agrees_comeback :
    ∃ own table, lateComer.Welcomed own table ∧ comeback.Welcomed own table ∧
      comeback.registry = comeback.session.service.registry := by
  have hroom : ¬ (¬ lateComer.session.Knows lateComer.endpoint ∧
      lateComer.session.service.registry.limit ≤ lateComer.session.peers.length) := by
    decide +kernel
  have hstays : ∀ first, first <+: [ServiceStep.sweep] →
      (lateComer.after.run first).Knows lateComer.endpoint := by
    intro first hfirst
    rcases List.prefix_cons_iff.mp hfirst with rfl | ⟨rest, rfl, hrest⟩
    · decide +kernel
    · rw [List.prefix_nil.mp hrest]
      decide +kernel
  obtain ⟨hfull, -⟩ | ⟨-, own, table, hwelcome, hagain⟩ :=
    handshake_agrees ⟨1000, 3000, 1000, 2000, 2⟩ _ lateComer rfl
  · exact absurd hfull hroom
  · obtain ⟨hsame, table', hwelcome', htable⟩ := hagain [.sweep] hstays comeback rfl rfl
    rw [htable (by decide +kernel)] at hwelcome'
    exact ⟨own, table, hwelcome, hwelcome', hsame⟩

end Ensemble
