import Ensemble.Proofs.Group.Unison
import Ensemble.Proofs.Node.Registration

/-!
# A node that writes to itself

A node takes every peer for another one whose id is not its own. So a local operation writes to the
node itself exactly if its table names its endpoint under an id that it does not hold, and a song
that is appended here then comes back once for each of these peers.

This happens where the table has arrived and the id has not: the service tells the whole group of a
registration while its reply to the node is late or lost, and an update can still arrive at a node
that has left.

* `View.KnowsItself` — every peer at the node's endpoint has the node's id.
* `Node.exists_other_of_sent` — whatever a local operation sends goes to one of the others.
* `Node.queue_hear_enqueue` — the queue after a song has come back.
* `Station.next_view_step`, `Station.names_run` — where a view comes from, in one step and in a run.
* `enqueued_once_iff` — when a song is appended exactly once.
-/

namespace Ensemble

namespace View

variable {v : View} {here : Endpoint}

/-- Every peer at the endpoint has the id that the node holds. -/
def KnowsItself (v : View) (here : Endpoint) : Prop :=
  ∀ p ∈ v.table.peers, p.endpoint = here → v.ownId = some p.id

instance (v : View) (here : Endpoint) : Decidable (v.KnowsItself here) :=
  inferInstanceAs (Decidable (∀ p ∈ v.table.peers, p.endpoint = here → v.ownId = some p.id))

/-- How many of the others are at the endpoint. -/
def echoes (v : View) (here : Endpoint) : Nat := v.others.countP (·.endpoint == here)

/-- The others are the peers without the own id. -/
theorem mem_others {p : Peer} : p ∈ v.others ↔ p ∈ v.table.peers ∧ v.ownId ≠ some p.id := by
  rw [others]
  cases hid : v.ownId with
  | none => simp
  | some id =>
    simp only [PeerTable.except, List.mem_filter, bne_iff_ne, ne_eq, Option.some.injEq]
    exact and_congr_right fun _ => not_congr eq_comm

/-- A node knows itself exactly if none of the others is at its endpoint. -/
theorem knowsItself_iff : v.KnowsItself here ↔ ∀ p ∈ v.others, p.endpoint ≠ here := by
  constructor
  · intro h p hp hhere
    obtain ⟨hpeer, hother⟩ := mem_others.mp hp
    exact hother (h p hpeer hhere)
  · intro h p hp hhere
    by_contra hother
    exact h p (mem_others.mpr ⟨hp, hother⟩) hhere

/-- A view knows its own node exactly if nothing would come back to it. -/
theorem knowsItself_iff_echoes : v.KnowsItself here ↔ v.echoes here = 0 := by
  rw [knowsItself_iff, echoes, List.countP_eq_zero]
  simp only [beq_iff_eq, ne_eq]

end View

/-! ## What is sent -/

namespace Node

variable {n : Node} {here source : Endpoint} {song : SongId}

/-- Whatever a local operation sends goes to one of the others, also if it goes
to the coordinator. -/
theorem exists_other_of_sent {c : LocalCommand} {parcel : Parcel} (h : parcel ∈ (c.run n).2) :
    ∃ p ∈ n.view.others, parcel.target = p.endpoint := by
  have hothers : ∀ m, parcel ∈ parcelsTo n.view.others m →
      ∃ p ∈ n.view.others, parcel.target = p.endpoint := by
    intro m hmem
    obtain ⟨p, hp, htarget, -⟩ := mem_parcelsTo hmem
    exact ⟨p, hp, htarget⟩
  have hcontrol : ∀ op, parcel ∈ (n.control op).2 →
      ∃ p ∈ n.view.others, parcel.target = p.endpoint := by
    intro op hmem
    unfold control at hmem
    split at hmem
    · exact absurd hmem List.not_mem_nil
    · rename_i id hid
      split at hmem
      · exact absurd hmem List.not_mem_nil
      · rename_i leader hleader
        split at hmem
        · exact hothers (.control op) hmem
        · rename_i hfollows
          change parcel ∈ parcelsTo [leader] (.control op) at hmem
          obtain ⟨p, hp, htarget, -⟩ := mem_parcelsTo hmem
          -- A follower sends its control to the leader, which has another id.
          obtain rfl := List.mem_singleton.mp hp
          refine ⟨p, View.mem_others.mpr ⟨mem_of_highest_eq_some hleader, ?_⟩, htarget⟩
          rw [hid]
          exact fun heq => hfollows (Option.some.inj heq).symm
  cases c with
  | control op => exact hcontrol op h
  | togglePause => exact hcontrol _ h
  | skip => exact hcontrol .skip h
  | enqueue song => exact hothers (.changeSong song true) h

/-- A song is sent to each of the others in the same bytes. -/
theorem exists_sent_enqueue (n : Node) (song : SongId) :
    ∃ bytes, Message.decode bytes = .ok (.changeSong song true) ∧
      (n.enqueue song).2 = n.view.others.map fun p => ⟨p.endpoint, bytes⟩ := by
  obtain ⟨bytes, -, hdecode, hparcels⟩ := exists_parcelsTo (m := .changeSong song true) trivial
  exact ⟨bytes, hdecode, hparcels _⟩

/-- No local operation writes to the node exactly if the node knows itself. -/
theorem forall_target_ne_iff :
    (∀ c : LocalCommand, ∀ parcel ∈ (c.run n).2, parcel.target ≠ here) ↔
      n.view.KnowsItself here := by
  rw [View.knowsItself_iff]
  constructor
  · intro h p hp hhere
    obtain ⟨bytes, -, hsent⟩ := n.exists_sent_enqueue 0
    refine h (.enqueue 0) ⟨p.endpoint, bytes⟩ ?_ hhere
    show _ ∈ (n.enqueue 0).2
    rw [hsent]
    exact List.mem_map_of_mem hp
  · intro h c parcel hparcel
    obtain ⟨p, hp, htarget⟩ := exists_other_of_sent hparcel
    rw [htarget]
    exact h p hp

/-! ## What comes back -/

/-- The node handles those parcels that are for its own endpoint. -/
def hear (n : Node) (here source : Endpoint) (parcels : List Parcel) : Node :=
  (parcels.filter (·.target == here)).foldl (fun n p => (n.receive p.bytes source).node) n

/-- A song that is received is enqueued, and nothing is sent on. -/
theorem receive_song {bytes : Bytes} (h : Message.decode bytes = .ok (.changeSong song true)) :
    n.receive bytes source = silently ({ n with player := n.player.enqueue song }, []) := by
  simp only [receive, h, handle, if_true]

end Node

/-- A list that takes up as many copies as there is room for, in two goes or in one. -/
theorem append_replicate_room {α : Type} (x : α) (xs : List α) (a b bound : Nat) :
    xs ++ List.replicate (min a (bound - xs.length)) x ++
        List.replicate
          (min b (bound - (xs ++ List.replicate (min a (bound - xs.length)) x).length)) x =
      xs ++ List.replicate (min (a + b) (bound - xs.length)) x := by
  rw [List.append_assoc, ← List.replicate_add, List.length_append, List.length_replicate]
  congr 2
  omega

/-- To enqueue a song is to append it, if there is room. -/
theorem Player.queue_enqueue (p : Player) (song : SongId) :
    (p.enqueue song).queue =
      p.queue ++ List.replicate (min 1 (maxQueue - p.queue.length)) song := by
  rw [enqueue, enqueue?]
  split
  · rename_i hroom
    have hone : min 1 (maxQueue - p.queue.length) = 1 := by omega
    rw [hone]
    rfl
  · rename_i hfull
    have hzero : min 1 (maxQueue - p.queue.length) = 0 := by omega
    rw [hzero]
    exact (List.append_nil _).symm

namespace Node

variable {n : Node} {here source : Endpoint} {song : SongId}

/-- Parcels with a song leave it in the queue as often as there is room for it. -/
theorem queue_foldl_receive {parcels : List Parcel}
    (h : ∀ p ∈ parcels, Message.decode p.bytes = .ok (.changeSong song true)) :
    (parcels.foldl (fun n p => (n.receive p.bytes source).node) n).player.queue =
      n.player.queue ++
        List.replicate (min parcels.length (maxQueue - n.player.queue.length)) song := by
  induction parcels generalizing n with
  | nil => simp
  | cons p rest ih =>
    obtain ⟨hfirst, hrest⟩ := List.forall_mem_cons.mp h
    rw [List.foldl_cons, receive_song hfirst, ih hrest, List.length_cons, Nat.add_comm]
    simp only [silently, n.player.queue_enqueue song]
    exact append_replicate_room song n.player.queue 1 rest.length maxQueue

/-- A song that is appended here comes back once for each of the others at the node's endpoint. -/
theorem queue_hear_enqueue (n : Node) (here source : Endpoint) (song : SongId) :
    ((n.enqueue song).1.hear here source (n.enqueue song).2).player.queue =
      n.player.queue ++
        List.replicate (min (1 + n.view.echoes here) (maxQueue - n.player.queue.length)) song := by
  obtain ⟨bytes, hdecode, hsent⟩ := n.exists_sent_enqueue song
  have hsong : ∀ p ∈ (n.enqueue song).2.filter (·.target == here),
      Message.decode p.bytes = .ok (.changeSong song true) := by
    intro p hp
    rw [hsent] at hp
    obtain ⟨q, -, rfl⟩ := List.mem_map.mp (List.mem_filter.mp hp).1
    exact hdecode
  have hcount : ((n.enqueue song).2.filter (·.target == here)).length = n.view.echoes here := by
    rw [hsent, ← List.countP_eq_length_filter, List.countP_map]
    rfl
  rw [hear, queue_foldl_receive hsong, hcount]
  simp only [enqueue, n.player.queue_enqueue song]
  exact append_replicate_room song n.player.queue 1 _ maxQueue

end Node

/-! ## Where a view comes from -/

/-- The step brings the node the message, in a letter or in the reply of the service. -/
def StationStep.Brings (a : StationStep) (m : Message) : Prop :=
  match a with
  | .receive _ bytes => Message.decode bytes = .ok m
  | .register remote | .type _ remote =>
    ∃ reply, remote.reply? = some reply ∧ Message.decode reply = .ok m
  | _ => False

/-- What a step brings, a view takes over; otherwise it stays, or is given up. -/
inductive View.Next (v : View) (brings : Message → Prop) : View → Prop where
  | same : Next v brings v
  | empty : Next v brings View.empty
  | adopt {own : PeerId} {table : PeerTable} (h : brings (.clientList own table)) :
      Next v brings (.adopt own table)
  | replacePeers {peers : List Peer} (h : brings (.clientListUpdate peers)) :
      Next v brings (v.replacePeers peers)

/-- A message leaves the view alone or puts its table there. -/
theorem Node.next_view_receive (n : Node) (bytes : Bytes) (sender : Endpoint) :
    n.view.Next (fun m => Message.decode bytes = .ok m) (n.receive bytes sender).node.view := by
  rw [receive]
  cases hdecode : Message.decode bytes with
  | error e => exact .same
  | ok m =>
    cases m with
    | clientList own table => exact .adopt rfl
    | clientListUpdate peers => exact .replacePeers rfl
    | control _ | changeSong _ _ | disconnect _ | connect _ | queryStatus | sendStatus _
    | election _ =>
      rw [n.view_handle (by exact id) sender]
      exact .same

/-- A registration leaves the view alone or takes over the table of the answer. -/
theorem Node.next_view_register (n : Node) (remote : Remote) :
    n.view.Next (fun m => ∃ reply, remote.reply? = some reply ∧ Message.decode reply = .ok m)
      (n.register remote).node.view := by
  obtain hsame | ⟨reply, own, table, hreply, hdecode, hview⟩ := n.view_register_cases remote
  · rw [hsame]
    exact .same
  · rw [hview]
    exact .adopt ⟨reply, hreply, hdecode⟩

namespace Station

/-- A command at the console leaves the view alone, but for a registration. -/
theorem next_view_execute (target : String) (n : Node) (remote : Remote) (command : Command) :
    n.view.Next (fun m => ∃ reply, remote.reply? = some reply ∧ Message.decode reply = .ok m)
      (Console.execute target remote n command).node.view := by
  -- A command of the user leaves the view alone.
  have hlocal : ∀ c : LocalCommand, n.view.Next
      (fun m => ∃ reply, remote.reply? = some reply ∧ Message.decode reply = .ok m)
      (c.run n).1.view := by
    intro c
    rw [c.view_run]
    exact .same
  cases command with
  | togglePause => exact hlocal .togglePause
  | start => exact hlocal (.control .start)
  | stop => exact hlocal (.control .stop)
  | skip => exact hlocal .skip
  | add song => exact hlocal (.enqueue song)
  | register => exact n.next_view_register remote
  | status | help | quit => exact .same

/-- What a step does to the view. -/
theorem next_view_step (target : String) (s : Station) (a : StationStep) :
    s.node.view.Next a.Brings (s.step target a).1.node.view := by
  have hlocal : ∀ (c : LocalCommand) (brings : Message → Prop),
      s.node.view.Next brings (c.run s.node).1.view := by
    intro c brings
    rw [c.view_run]
    exact .same
  cases a with
  | player step => exact .same
  | receive sender bytes => exact s.node.next_view_receive bytes sender
  | togglePause => exact hlocal .togglePause _
  | skip => exact hlocal .skip _
  | enqueue song => exact hlocal (.enqueue song) _
  | control op => exact hlocal (.control op) _
  | forget => exact .empty
  | register remote => exact s.node.next_view_register remote
  | deregister remote => exact .empty
  | type line remote =>
    simp only [step]
    split
    · exact .same
    · exact next_view_execute target s.node remote _

end Station

/-! ## A node with one id -/

/-- Wherever the message names the endpoint's member, it gives it the id. -/
def Message.Names (here : Endpoint) (me : PeerId) : Message → Prop
  | .clientList own table => own = me ∧ ∀ p ∈ table.peers, p.endpoint = here → p.id = me
  | .clientListUpdate peers => ∀ p ∈ peers, p.endpoint = here → p.id = me
  | _ => True

namespace View

variable {v v' : View} {here : Endpoint} {me : PeerId}

/-- The node has been given no other id, and its table names it under no other one. -/
structure Names (v : View) (here : Endpoint) (me : PeerId) : Prop where
  id_eq : ∀ id ∈ v.ownId, id = me
  peer_id_eq : ∀ p ∈ v.table.peers, p.endpoint = here → p.id = me

/-- Nothing is said about an empty view. -/
theorem names_empty (here : Endpoint) (me : PeerId) : View.empty.Names here me :=
  ⟨nofun, nofun⟩

/-- A view that names the node by its id goes on doing so, if the messages do. -/
theorem Names.next {brings : Message → Prop} (h : v.Names here me) (hnext : v.Next brings v')
    (hbrings : ∀ m, brings m → m.Names here me) : v'.Names here me := by
  cases hnext with
  | same => exact h
  | empty => exact names_empty here me
  | adopt hbrought =>
    obtain ⟨hown, hpeers⟩ := hbrings _ hbrought
    exact ⟨fun id hid => (Option.some.inj hid).symm.trans hown, hpeers⟩
  | replacePeers hbrought => exact ⟨h.id_eq, hbrings _ hbrought⟩

/-- Such a node knows itself unless its table has arrived and the id has not. -/
theorem Names.knowsItself_iff (h : v.Names here me) :
    v.KnowsItself here ↔ v.ownId ≠ none ∨ ∀ p ∈ v.table.peers, p.endpoint ≠ here := by
  constructor
  · intro hknows
    refine or_iff_not_imp_left.mpr fun hnone p hp hhere => hnone ?_
    rw [hknows p hp hhere]
    exact Option.some_ne_none _
  · rintro (hid | hnowhere) p hp hhere
    · obtain ⟨id, hid⟩ := Option.ne_none_iff_exists'.mp hid
      rw [hid, h.id_eq id hid, h.peer_id_eq p hp hhere]
    · exact absurd hhere (hnowhere p hp)

end View

/-- A run that brings no other id keeps to it. -/
theorem Station.names_run {s : Station} {here : Endpoint} {me : PeerId}
    (h : s.node.view.Names here me) (target : String) {steps : List StationStep}
    (hsteps : ∀ a ∈ steps, ∀ m, a.Brings m → m.Names here me) :
    (s.run target steps).node.view.Names here me := by
  induction steps generalizing s with
  | nil => exact h
  | cons a rest ih =>
    obtain ⟨hfirst, hrest⟩ := List.forall_mem_cons.mp hsteps
    exact ih (h.next (s.next_view_step target a) hfirst) hrest

/-- After a run, of a node in whatever state, a song with room that is appended here, and handled
again wherever it was sent to the node's own endpoint, is in the queue once and once more for each
of the others at this endpoint, as far as there is room. So it is appended exactly once if and only
if the node knows itself, or had room for one song only, and no local operation writes to the node
if and only if it knows itself. If the node began without a table, be it new or one that has left,
and was told of one id for its endpoint, it knows itself if and only if it has been given the id, or
its table does not name it. -/
theorem enqueued_once_iff (target : String) (s : Station) (steps : List StationStep)
    (here source : Endpoint) (song : SongId) :
    let n := (s.run target steps).node
    let after := (n.enqueue song).1.hear here source (n.enqueue song).2
    (n.accepts = true →
      after.player.queue = n.player.queue ++
        List.replicate (min (1 + n.view.echoes here) (128 - n.player.queue.length)) song ∧
      (after.player.queue = n.player.queue ++ [song] ↔
        n.view.KnowsItself here ∨ n.player.queue.length = 127)) ∧
    ((∀ c : LocalCommand, ∀ parcel ∈ (c.run n).2, parcel.target ≠ here) ↔
      n.view.KnowsItself here) ∧
    ∀ me : PeerId, s.node.view = View.empty →
      (∀ a ∈ steps, ∀ m, a.Brings m → m.Names here me) →
        (n.view.KnowsItself here ↔
          n.view.ownId ≠ none ∨ ∀ p ∈ n.view.table.peers, p.endpoint ≠ here) := by
  intro n after
  refine ⟨fun hroom => ?_, Node.forall_target_ne_iff, fun me hstart hsteps => ?_⟩
  · have hlt : n.player.queue.length < 128 := of_decide_eq_true hroom
    have hqueue := n.queue_hear_enqueue here source song
    refine ⟨hqueue, ?_⟩
    -- Exactly one copy: none comes back, or none that comes back finds room.
    rw [hqueue, List.append_cancel_left_eq, View.knowsItself_iff_echoes, maxQueue,
      ← List.replicate_one, List.replicate_inj]
    simp only [or_true, and_true]
    omega
  · have hnames : s.node.view.Names here me := by
      rw [hstart]
      exact View.names_empty here me
    exact (Station.names_run hnames target hsteps).knowsItself_iff

/-- The endpoint of a node. -/
def echoEndpoint : Endpoint := ⟨.v4 ⟨10, 0, 0, 1⟩, 43210⟩

/-- The node and another one. -/
def echoPeers : List Peer := [.ofEndpoint echoEndpoint ⟨5⟩, ⟨.v4 ⟨10, 0, 0, 2⟩, 43210, ⟨9⟩⟩]

/-- The node's own table. -/
def echoTable : PeerTable := ⟨⟨9⟩, echoPeers⟩

/-- The service has added the node, but its reply does not come. The others are told. -/
def halfRegistered : List StationStep :=
  [.register (.stalls [] 3000),
   .receive ⟨.v4 ⟨10, 255, 0, 1⟩, 1738⟩ (Message.clientListUpdate echoPeers).encoded]

/-- The node registers again, and now the reply comes. -/
def laterRegistered : List StationStep :=
  halfRegistered ++ [.register (.answers [(Message.clientList ⟨5⟩ echoTable).encoded])]

/-- A node that has the table and the id has the song once. -/
theorem enqueued_once_iff_laterRegistered :
    let n := ((Station.start ⟨43210, 2000, 1, false⟩ 1000 1).run "10.255.0.1:1738"
      laterRegistered).node
    n.accepts = true ∧ n.view.KnowsItself echoEndpoint ∧
      ((n.enqueue 4).1.hear echoEndpoint echoEndpoint (n.enqueue 4).2).player.queue = [4] := by
  intro n
  obtain ⟨hsong, -, hrun⟩ := enqueued_once_iff "10.255.0.1:1738"
    (Station.start ⟨43210, 2000, 1, false⟩ 1000 1) laterRegistered echoEndpoint echoEndpoint 4
  have hroom : n.accepts = true := by decide +kernel
  have hpeers : ∀ p ∈ echoPeers, p.endpoint = echoEndpoint → p.id = ⟨5⟩ := by decide
  have hnames : ∀ a ∈ laterRegistered, ∀ m, a.Brings m → m.Names echoEndpoint ⟨5⟩ := by
    refine List.forall_mem_cons.mpr ⟨?_, List.forall_mem_cons.mpr ⟨?_, List.forall_mem_singleton.mpr
      ?_⟩⟩
    · rintro m ⟨_, hreply, -⟩
      cases hreply
    · intro m hdecode
      have hupdate : Message.decode (Message.clientListUpdate echoPeers).encoded = _ :=
        Message.decode_encoded (show 2 ≤ 16 by decide)
      obtain rfl := Except.ok.inj (hupdate.symm.trans hdecode)
      exact hpeers
    · rintro m ⟨reply, hreply, hdecode⟩
      have htable : Message.decode (Message.clientList ⟨5⟩ echoTable).encoded = _ :=
        Message.decode_encoded (show 2 ≤ 16 by decide)
      rw [Remote.reply?_answers, List.flatten_singleton, Option.some.injEq] at hreply
      obtain rfl := Except.ok.inj (htable.symm.trans (hreply ▸ hdecode))
      exact ⟨rfl, hpeers⟩
  -- Registered in the end, so it knows itself by its id.
  have hknows : n.view.KnowsItself echoEndpoint :=
    (hrun ⟨5⟩ rfl hnames).mpr (.inl (by decide +kernel))
  have hqueue : n.player.queue = [] := by decide +kernel
  refine ⟨hroom, hknows, ?_⟩
  rw [(hsong hroom).2.mpr (.inl hknows), hqueue]
  rfl

/-- A node that has only the table writes to itself, and has the song twice. -/
theorem not_enqueued_once_halfRegistered :
    let n := ((Station.start ⟨43210, 2000, 1, false⟩ 1000 1).run "10.255.0.1:1738"
      halfRegistered).node
    n.accepts = true ∧
      (n.enqueue 4).2.map (·.target) = [echoEndpoint, ⟨.v4 ⟨10, 0, 0, 2⟩, 43210⟩] ∧
      ((n.enqueue 4).1.hear echoEndpoint echoEndpoint (n.enqueue 4).2).player.queue = [4, 4] := by
  decide +kernel

end Ensemble
