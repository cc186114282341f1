import Ensemble.Proofs.Node.StatusTransfer

/-!
# What a message may do to a node

A message can change the player and the view of a node, put parcels in its outbox, and be answered.
Which of these it does depends on its kind, on whether the node leads, on the gate, and on whether
the statuses agree. `Node.Reacts` lists every case, so that each limit below is read off the list.

* `Node.Steers` — the messages that change the player, and what they make of it.
* `Node.Dispatches` — the messages that make the node send, to whom, and what.
* `Node.reacts` — every reaction is one of those listed.
* `reception_confined` — what received bytes do to a node that can come about, and what they leave.
-/

namespace Ensemble

namespace Node

/-! ## What may be changed, and what may be sent -/

/-- A message from `sender` makes the player another one. -/
inductive Steers (n : Node) (sender : Endpoint) : Message → Player → Prop
  | control (op : ControlOp) : Steers n sender (.control op) (op.apply n.player)
  | enqueue (song : SongId) : Steers n sender (.changeSong song true) (n.player.enqueue song)
  /-- Only a node that does not lead takes over a status, and with the gate on only one that comes
  from the address of the coordinator. -/
  | takeOver (s : PlaybackStatus) (hfollows : n.view.isCoordinator = false)
      (hgate : n.config.coordinatorOnly = true →
        ∃ leader, n.view.coordinator = some leader ∧ leader.address = sender.address) :
      Steers n sender (.sendStatus s) (n.player.setStatus s)

/-- A message makes the node send one message to each of a list of peers. -/
inductive Dispatches (n : Node) : Message → List Peer → Message → Prop
  | relay (op : ControlOp) (hleads : n.view.isCoordinator = true) :
      Dispatches n (.control op) n.view.others (.control op)
  | report (op : ControlOp) {leader : Peer} (hfollows : n.view.isCoordinator = false)
      (hleader : n.view.coordinator = some leader) :
      Dispatches n (.control op) [leader] (.sendStatus (op.apply n.player).status)
  | repair (s : PlaybackStatus) (hleads : n.view.isCoordinator = true)
      (hdiffers : n.status.agrees s n.config.tolerance = false) :
      Dispatches n (.sendStatus s) n.view.others (.sendStatus n.status)

/-- A message that does nothing at all to a node. -/
inductive Ignores (n : Node) (sender : Endpoint) : Message → Prop
  | changeSong (song : SongId) : Ignores n sender (.changeSong song false)
  | connect (port : UInt16) : Ignores n sender (.connect port)
  | disconnect (port : UInt16) : Ignores n sender (.disconnect port)
  | election (phase : ElectionPhase) : Ignores n sender (.election phase)
  | agreed (s : PlaybackStatus) (hleads : n.view.isCoordinator = true)
      (hagrees : n.status.agrees s n.config.tolerance = true) : Ignores n sender (.sendStatus s)
  | distrusted (s : PlaybackStatus) (hfollows : n.view.isCoordinator = false)
      (hgate : n.config.coordinatorOnly = true)
      (hstranger : ∀ leader, n.view.coordinator = some leader →
        leader.address ≠ sender.address) : Ignores n sender (.sendStatus s)

/-! ## What becomes of received bytes -/

/-- The reactions of a node to what bytes from `sender` decode to. -/
inductive Reacts (n : Node) (sender : Endpoint) : Except DecodeError Message → Reaction → Prop
  | undecodable (e : DecodeError) : Reacts n sender (.error e) (silently (n, []))
  | ignores {m : Message} (h : n.Ignores sender m) : Reacts n sender (.ok m) (silently (n, []))
  | relays (op : ControlOp) (hleads : n.view.isCoordinator = true) :
      Reacts n sender (.ok (.control op))
        (silently (n.applyOp op, parcelsTo n.view.others (.control op)))
  | reports (op : ControlOp) {leader : Peer} (hfollows : n.view.isCoordinator = false)
      (hleader : n.view.coordinator = some leader) :
      Reacts n sender (.ok (.control op))
        (silently (n.applyOp op, parcelsTo [leader] (.sendStatus (op.apply n.player).status)))
  | obeys (op : ControlOp) (hnobody : n.view.coordinator = none) :
      Reacts n sender (.ok (.control op)) (silently (n.applyOp op, []))
  | enqueues (song : SongId) : Reacts n sender (.ok (.changeSong song true))
      (silently ({ n with player := n.player.enqueue song }, []))
  | takesOver (s : PlaybackStatus)
      (h : n.Steers sender (.sendStatus s) (n.player.setStatus s)) :
      Reacts n sender (.ok (.sendStatus s))
        (silently ({ n with player := n.player.setStatus s }, []))
  | repairs (s : PlaybackStatus) (hleads : n.view.isCoordinator = true)
      (hdiffers : n.status.agrees s n.config.tolerance = false) :
      Reacts n sender (.ok (.sendStatus s))
        (silently (n, parcelsTo n.view.others (.sendStatus n.status)))
  | answers : Reacts n sender (.ok .queryStatus) ⟨n, n.statusAnswer, []⟩
  | adopts (own : PeerId) (table : PeerTable) : Reacts n sender (.ok (.clientList own table))
      (silently ({ n with view := View.adopt own table }, []))
  | replaces (peers : List Peer) : Reacts n sender (.ok (.clientListUpdate peers))
      (silently ({ n with view := n.view.replacePeers peers }, []))

/-- A control operation is passed on by the coordinator, and reported to it by everybody else. -/
theorem reacts_control (n : Node) (sender : Endpoint) (op : ControlOp) :
    n.Reacts sender (.ok (.control op)) (silently (n.onControl op)) := by
  have hview : (n.applyOp op).view = n.view := rfl
  rw [onControl]
  simp only [hview]
  cases hleads : n.view.isCoordinator with
  | true => exact .relays op hleads
  | false =>
    cases hleader : n.view.coordinator with
    | some leader => exact .reports op hleads hleader
    | none => exact .obeys op hleader

/-- With the gate on only the address of the coordinator is trusted, and without it every one. -/
theorem trusts_eq_true_iff {n : Node} {sender : Endpoint} : n.trusts sender = true ↔
    (n.config.coordinatorOnly = true →
      ∃ leader, n.view.coordinator = some leader ∧ leader.address = sender.address) := by
  rw [trusts]
  cases n.config.coordinatorOnly with
  | false => simp
  | true => cases n.view.coordinator <;> simp

/-- The coordinator compares a status with its own; everybody else takes it over, if it may. -/
theorem reacts_status (n : Node) (sender : Endpoint) (s : PlaybackStatus) :
    n.Reacts sender (.ok (.sendStatus s)) (silently (n.onStatus s sender)) := by
  rw [onStatus]
  -- The leader compares, and a follower takes over from whom it trusts.
  cases hleads : n.view.isCoordinator with
  | true =>
    cases hagrees : n.status.agrees s n.config.tolerance with
    | true => exact .ignores (.agreed s hleads hagrees)
    | false => exact .repairs s hleads hagrees
  | false =>
    cases htrusts : n.trusts sender with
    | true => exact .takesOver s (.takeOver s hleads (trusts_eq_true_iff.mp htrusts))
    | false =>
      have hdistrusts := mt trusts_eq_true_iff.mpr (Bool.eq_false_iff.mp htrusts)
      obtain ⟨hgate, hnobody⟩ := Classical.not_imp.mp hdistrusts
      exact .ignores (.distrusted s hleads hgate fun leader hleader haddress =>
        hnobody ⟨leader, hleader, haddress⟩)

/-- Every reaction is one of those listed. -/
theorem reacts (n : Node) (bytes : Bytes) (sender : Endpoint) :
    n.Reacts sender (Message.decode bytes) (n.receive bytes sender) := by
  rw [receive]
  cases Message.decode bytes with
  | error e => exact .undecodable e
  | ok m =>
    cases m with
    | control op => exact n.reacts_control sender op
    | changeSong song enqueue =>
      cases enqueue with
      | true => exact .enqueues song
      | false => exact .ignores (.changeSong song)
    | disconnect port => exact .ignores (.disconnect port)
    | connect port => exact .ignores (.connect port)
    | queryStatus => exact .answers
    | sendStatus s => exact n.reacts_status sender s
    | election phase => exact .ignores (.election phase)
    | clientList own table => exact .adopts own table
    | clientListUpdate peers => exact .replaces peers

/-! ## What a message does -/

variable {n : Node} {sender : Endpoint} {m out : Message} {p : Player} {peers : List Peer}

/-- What steers the player is what the handler makes of it. -/
theorem Steers.player_handle (h : n.Steers sender m p) : (n.handle m sender).node.player = p := by
  cases h with
  | control op => exact n.player_handle (.control op) sender
  | enqueue song => rfl
  | takeOver s hfollows hgate =>
    have htrusts := trusts_eq_true_iff.mpr hgate
    simp [handle, silently, onStatus, hfollows, htrusts]

/-- The coordinator takes over no status. -/
theorem Steers.follows {s : PlaybackStatus} (h : n.Steers sender (.sendStatus s) p) :
    n.view.isCoordinator = false := by
  cases h with
  | takeOver _ hfollows => exact hfollows

/-- With the gate on a status is taken over from the address of the coordinator. -/
theorem Steers.trusted {s : PlaybackStatus} (h : n.Steers sender (.sendStatus s) p)
    (hgate : n.config.coordinatorOnly = true) :
    ∃ leader, n.view.coordinator = some leader ∧ leader.address = sender.address := by
  cases h with
  | takeOver _ _ htrusted => exact htrusted hgate

/-- What is dispatched is what the handler sends. -/
theorem Dispatches.sent_handle (h : n.Dispatches m peers out) (sender : Endpoint) :
    (n.handle m sender).sent = parcelsTo peers out := by
  cases h with
  | relay op hleads => simp [handle, silently, onControl, applyOp, hleads]
  | report op hfollows hleader =>
    simp [handle, silently, onControl, applyOp, hfollows, hleader, status]
  | repair s hleads hdiffers => simp [handle, silently, onStatus, hleads, hdiffers]

/-- The node sends to peers of its own table only. -/
theorem Dispatches.mem_peers (h : n.Dispatches m peers out) :
    ∀ p ∈ peers, p ∈ n.view.table.peers := by
  have hothers : ∀ p ∈ n.view.others, p ∈ n.view.table.peers := fun p hp => by
    rw [View.others] at hp
    split at hp
    · exact List.mem_of_mem_filter hp
    · exact hp
  cases h with
  | relay | repair => exact hothers
  | report op hfollows hleader =>
    intro p hp
    rw [List.mem_singleton.mp hp]
    exact mem_of_highest_eq_some hleader

/-- What the node sends is never too long to be written, so it goes to all of the peers. -/
theorem Dispatches.exists_parcelsTo (h : n.Dispatches m peers out) (hn : n.player.Bounded) :
    ∃ bytes, Message.decode bytes = .ok out ∧
      parcelsTo peers out = peers.map fun p => ⟨p.endpoint, bytes⟩ := by
  have hwithin : out.WithinBounds := by
    cases h with
    | relay op => trivial
    | report op => exact (hn.apply op).withinBounds
    | repair => exact hn.withinBounds
  obtain ⟨bytes, -, hdecode, hparcels⟩ := Ensemble.exists_parcelsTo hwithin
  exact ⟨bytes, hdecode, hparcels peers⟩

/-! ## What nothing else does -/

namespace Reacts

variable {received : Except DecodeError Message} {r : Reaction}

/-- Bytes that are no message change nothing. -/
theorem eq_of_error {e : DecodeError} (h : n.Reacts sender (.error e) r) :
    r = ⟨n, Answer.none, []⟩ := by
  cases h
  rfl

/-- No message changes the settings. -/
theorem config_eq (h : n.Reacts sender received r) : r.node.config = n.config := by
  cases h <;> rfl

/-- Only a message that steers it changes the player. -/
theorem steers_of_player_ne (h : n.Reacts sender received r) (hne : r.node.player ≠ n.player) :
    ∃ m, received = .ok m ∧ n.Steers sender m r.node.player := by
  cases h with
  | relays op | reports op | obeys op => exact ⟨_, rfl, .control op⟩
  | enqueues song => exact ⟨_, rfl, .enqueue song⟩
  | takesOver s hsteers => exact ⟨_, rfl, hsteers⟩
  | undecodable | ignores | repairs | answers | adopts | replaces => exact absurd rfl hne

/-- Only a table with an own id changes the own id or the hint. -/
theorem clientList_of_ne (h : n.Reacts sender received r)
    (hne : r.node.view.ownId ≠ n.view.ownId ∨ r.node.view.table.hint ≠ n.view.table.hint) :
    ∃ own table, received = .ok (.clientList own table) := by
  cases h with
  | adopts own table => exact ⟨own, table, rfl⟩
  | undecodable | ignores | relays | reports | obeys | enqueues | takesOver | repairs | answers
  | replaces => exact hne.elim (absurd rfl) (absurd rfl)

/-- Only a table changes the peers. -/
theorem table_of_peers_ne (h : n.Reacts sender received r)
    (hne : r.node.view.table.peers ≠ n.view.table.peers) :
    (∃ own table, received = .ok (.clientList own table)) ∨
      ∃ peers, received = .ok (.clientListUpdate peers) := by
  cases h with
  | adopts own table => exact .inl ⟨own, table, rfl⟩
  | replaces peers => exact .inr ⟨peers, rfl⟩
  | undecodable | ignores | relays | reports | obeys | enqueues | takesOver | repairs
  | answers => exact absurd rfl hne

/-- Only a message that calls for it makes the node send something. -/
theorem dispatches_of_sent_ne (h : n.Reacts sender received r) (hne : r.sent ≠ []) :
    ∃ m peers out, received = .ok m ∧ n.Dispatches m peers out := by
  cases h with
  | relays op hleads => exact ⟨_, _, _, rfl, .relay op hleads⟩
  | reports op hfollows hleader => exact ⟨_, _, _, rfl, .report op hfollows hleader⟩
  | repairs s hleads hdiffers => exact ⟨_, _, _, rfl, .repair s hleads hdiffers⟩
  | undecodable | ignores | obeys | enqueues | takesOver | answers | adopts
  | replaces => exact absurd rfl hne

/-- Only a query is answered. -/
theorem answer_eq_none (h : n.Reacts sender received r) (hne : received ≠ .ok .queryStatus) :
    r.answer = Answer.none := by
  cases h with
  | answers => exact absurd rfl hne
  | undecodable | ignores | relays | reports | obeys | enqueues | takesOver | repairs | adopts
  | replaces => rfl

end Reacts

/-- What received bytes do to a node, and what they leave as it is. -/
structure Confined (n : Node) (sender : Endpoint) (received : Except DecodeError Message)
    (r : Reaction) : Prop where
  /-- Bytes that are no message do nothing. -/
  undecodable : ∀ e, received = .error e → r = ⟨n, ⟨false, []⟩, []⟩
  config_eq : r.node.config = n.config
  /-- The player, and with it the status, changes through the messages that steer it alone, and as
  they say. -/
  steered : ∀ m p, received = .ok m → n.Steers sender m p → r.node.player = p
  steers_of_ne : r.node.player ≠ n.player →
    ∃ m, received = .ok m ∧ n.Steers sender m r.node.player
  leader_player_eq : ∀ s, received = .ok (.sendStatus s) → n.view.isCoordinator = true →
    r.node.player = n.player
  /-- The id and the hint come with a table of the node's own, the peers with every table. -/
  adopted : ∀ own table, received = .ok (.clientList own table) → r.node.view = ⟨some own, table⟩
  clientList_of_ne : r.node.view.ownId ≠ n.view.ownId ∨
    r.node.view.table.hint ≠ n.view.table.hint → ∃ own table, received = .ok (.clientList own table)
  replaced : ∀ peers, received = .ok (.clientListUpdate peers) → r.node.view.table.peers = peers
  table_of_ne : r.node.view.table.peers ≠ n.view.table.peers →
    (∃ own table, received = .ok (.clientList own table)) ∨
      ∃ peers, received = .ok (.clientListUpdate peers)
  /-- What is sent goes to peers of the node's own table, in the same bytes to each. -/
  dispatched : ∀ m peers out, received = .ok m → n.Dispatches m peers out →
    (∀ p ∈ peers, p ∈ n.view.table.peers) ∧ ∃ bytes, Message.decode bytes = .ok out ∧
      r.sent = peers.map fun p => ⟨p.endpoint, bytes⟩
  dispatches_of_ne : r.sent ≠ [] →
    ∃ m peers out, received = .ok m ∧ n.Dispatches m peers out
  /-- Only a question for the status is answered, and always. -/
  answered : received = .ok .queryStatus → ∃ reply, r.answer = ⟨true, reply⟩ ∧
    Message.decode reply = .ok (.sendStatus n.status)
  unanswered : received ≠ .ok .queryStatus → r.answer = ⟨false, []⟩

/-- Each effect of a message is one of those that its kind allows. -/
theorem confined (hn : n.player.Bounded) (bytes : Bytes) (sender : Endpoint) :
    n.Confined sender (Message.decode bytes) (n.receive bytes sender) := by
  have hreacts := n.reacts bytes sender
  -- What decodes goes to the handler.
  have hreceive : ∀ m, Message.decode bytes = .ok m → n.receive bytes sender = n.handle m sender :=
    fun m h => by rw [receive, h]
  refine
    { undecodable := fun e h => (h ▸ hreacts).eq_of_error
      config_eq := hreacts.config_eq
      steered := fun m p h hsteers => by rw [hreceive m h, hsteers.player_handle]
      steers_of_ne := hreacts.steers_of_player_ne
      leader_player_eq := fun s h hleads => ?leader
      adopted := fun own table h => by rw [hreceive _ h]; rfl
      clientList_of_ne := hreacts.clientList_of_ne
      replaced := fun peers h => by rw [hreceive _ h]; rfl
      table_of_ne := hreacts.table_of_peers_ne
      dispatched := fun m peers out h hdispatches => ?dispatched
      dispatches_of_ne := hreacts.dispatches_of_sent_ne
      answered := fun h => ?answered
      unanswered := hreacts.answer_eq_none }
  case leader =>
    by_contra hne
    obtain ⟨m, hm, hsteers⟩ := hreacts.steers_of_player_ne hne
    cases hm.symm.trans h
    exact absurd (hleads.symm.trans hsteers.follows) (by decide)
  case dispatched =>
    obtain ⟨reply, hdecode, hparcels⟩ := hdispatches.exists_parcelsTo hn
    refine ⟨hdispatches.mem_peers, reply, hdecode, ?_⟩
    rw [hreceive m h, hdispatches.sent_handle, hparcels]
  case answered =>
    obtain ⟨reply, hanswer, hdecode⟩ := receive_query hn h sender
    exact ⟨reply, by rw [hanswer], hdecode⟩

end Node

/-- For every node that can come about, and so after every run of a station, and for whatever bytes
come from whomever: bytes that are no message do nothing. The player changes through a control
operation, through a song for the queue, and through a status, if the node does not lead and the
gate, if it is on, lets the sender pass. The id and the hint come with a table of the node's own,
the peers with every table. The node sends after a control operation, and as the coordinator after a
status that does not agree with its own, to peers of its table, the same message to each. Only a
question for the status is answered. In a session the outbox and the buffer for the reply get no
more than that. -/
theorem reception_confined {n : Node} (hn : n.Reachable) (bytes : Bytes) (sender : Endpoint) :
    let r := n.receive bytes sender
    n.Confined sender (Message.decode bytes) r ∧
      ∀ outbox buffer, (Node.sessionHandler sender).appending (n, outbox) bytes buffer =
        ((r.node, outbox ++ r.sent), ⟨r.answer.wanted, buffer ++ r.answer.bytes⟩) :=
  ⟨Node.confined hn.bounded bytes sender, fun _ _ => rfl⟩

/-- A node with the gate on that follows 10.0.0.2, although the hint names the node itself. -/
def gatedStation : Station :=
  (Station.start ⟨43210, 2000, 1, true⟩ 1000 1).run "10.255.0.1:1738"
    [.receive ⟨.v4 ⟨10, 255, 0, 1⟩, 1738⟩ (Message.clientList ⟨3⟩
      ⟨⟨3⟩, [⟨.v4 ⟨10, 0, 0, 1⟩, 43210, ⟨3⟩⟩, ⟨.v4 ⟨10, 0, 0, 2⟩, 43210, ⟨9⟩⟩]⟩).encoded]

/-- A paused status of song 4, as bytes. -/
def pausedBytes : Bytes := [5, 0, 0, 0, 4, 0, 0, 0, 17, 1, 1, 0, 0, 0, 2]

/-- A status from the address of the coordinator is taken over, whatever its port. From elsewhere it
does nothing. A control operation is reported to the coordinator. -/
theorem reception_confined_gated :
    (gatedStation.node.receive pausedBytes ⟨.v4 ⟨10, 0, 0, 2⟩, 50000⟩).node.status =
        ⟨4, 17, true, [2]⟩ ∧
      (gatedStation.node.receive pausedBytes ⟨.v4 ⟨10, 0, 0, 3⟩, 50000⟩).node.player =
        gatedStation.node.player ∧
      (gatedStation.node.receive [0, 2] ⟨.v4 ⟨10, 0, 0, 3⟩, 50000⟩).sent.map (·.target) =
        [⟨.v4 ⟨10, 0, 0, 2⟩, 43210⟩] := by
  have hreached : gatedStation.node.Reachable :=
    Station.reachable_run (Station.reachable_start _ _ _) _ _
  have hdecode : Message.decode pausedBytes = .ok (.sendStatus ⟨4, 17, true, [2]⟩) := by
    decide +kernel
  have hfollows : gatedStation.node.view.isCoordinator = false := by decide +kernel
  have hleader : gatedStation.node.view.coordinator =
      some ⟨.v4 ⟨10, 0, 0, 2⟩, 43210, ⟨9⟩⟩ := by decide +kernel
  have hgate : gatedStation.node.config.coordinatorOnly = true := by decide +kernel
  refine ⟨?_, ?_, ?_⟩
  · have hconfined := (reception_confined hreached pausedBytes ⟨.v4 ⟨10, 0, 0, 2⟩, 50000⟩).1
    rw [Node.status, hconfined.steered _ _ hdecode (.takeOver _ hfollows fun _ => ⟨_, hleader, rfl⟩)]
    rfl
  · -- A change would need the trust that this sender does not have.
    have hconfined := (reception_confined hreached pausedBytes ⟨.v4 ⟨10, 0, 0, 3⟩, 50000⟩).1
    by_contra hne
    obtain ⟨m, hm, hsteers⟩ := hconfined.steers_of_ne hne
    cases hm.symm.trans hdecode
    obtain ⟨leader, hleader', haddress⟩ := hsteers.trusted hgate
    cases hleader.symm.trans hleader'
    exact absurd haddress (by decide)
  · have hconfined := (reception_confined hreached [0, 2] ⟨.v4 ⟨10, 0, 0, 3⟩, 50000⟩).1
    obtain ⟨-, report, -, hsent⟩ := hconfined.dispatched (.control .stop) _ _ (by decide +kernel)
      (.report .stop hfollows hleader)
    rw [hsent]
    rfl

end Ensemble
