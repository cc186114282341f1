import Ensemble.Node.Station
import Ensemble.Proofs.Message.Parcel
import Ensemble.Proofs.Node.Registration

/-!
# Nobody relies on the hint

A table states a coordinator's id, but who leads is derived from its peers. So two nodes that differ
in the stored hint alone do the same with whatever happens to them, and differ in the hint alone
afterwards. What happens to the two may itself differ in hints: a table that one of them receives,
or is given at its registration, may reach the other with another hint.

* `Node.control_withHint`, `Node.handle_withHint` — what a node with another hint does.
* `StationStep.SameButHint` — the same happens, up to the hints of tables.
* `Station.step_sameButHint`, `Station.run_sameButHint`, `Station.exchange_sameButHint` — one step,
  a run and a session.
* `coordinator_hint_ignored` — two runs side by side.
-/

namespace Ensemble

/-- The same view with another hint. -/
def View.withHint (v : View) (hint : PeerId) : View := { v with table := { v.table with hint } }

namespace Node

/-- The same node with another hint. -/
def withHint (n : Node) (hint : PeerId) : Node := { n with view := n.view.withHint hint }

/-- The same reaction, after which the node has another hint. -/
def Reaction.withHint (r : Reaction) (hint : PeerId) : Reaction :=
  { r with node := r.node.withHint hint }

/-- The same exchange with the service, after which the node has another hint. -/
def Contact.withHint (c : Contact) (hint : PeerId) : Contact :=
  { c with node := c.node.withHint hint }

variable (n : Node) (hint : PeerId)

@[simp] theorem config_withHint : (n.withHint hint).config = n.config := rfl

@[simp] theorem player_withHint : (n.withHint hint).player = n.player := rfl

@[simp] theorem status_withHint : (n.withHint hint).status = n.status := rfl

@[simp] theorem ownId_withHint : (n.withHint hint).view.ownId = n.view.ownId := rfl

/-- The coordinator is found without the hint. -/
@[simp] theorem coordinator_withHint :
    (n.withHint hint).view.coordinator = n.view.coordinator := rfl

@[simp] theorem isCoordinator_withHint :
    (n.withHint hint).view.isCoordinator = n.view.isCoordinator := rfl

@[simp] theorem others_withHint : (n.withHint hint).view.others = n.view.others := rfl

@[simp] theorem applyOp_withHint (op : ControlOp) :
    (n.withHint hint).applyOp op = (n.applyOp op).withHint hint := rfl

/-- Trust is given without a look at the hint. -/
theorem trusts_withHint (sender : Endpoint) :
    (n.withHint hint).trusts sender = n.trusts sender := rfl

/-! ## Operations -/

/-- A control of the own user goes the same way under any hint. -/
theorem control_withHint (op : ControlOp) :
    (n.withHint hint).control op = ((n.control op).1.withHint hint, (n.control op).2) := by
  simp only [control, ownId_withHint, coordinator_withHint, others_withHint, applyOp_withHint]
  cases n.view.ownId with
  | none => rfl
  | some id =>
    cases n.view.coordinator with
    | none => rfl
    | some leader =>
      by_cases hleads : leader.id = id
      · simp only [hleads, ↓reduceIte]
      · simp only [hleads, ↓reduceIte]

/-- A control that is received goes the same way under any hint. -/
theorem onControl_withHint (op : ControlOp) :
    (n.withHint hint).onControl op = ((n.onControl op).1.withHint hint, (n.onControl op).2) := by
  simp only [onControl, applyOp_withHint, isCoordinator_withHint, coordinator_withHint,
    others_withHint, status_withHint]
  by_cases hleads : (n.applyOp op).view.isCoordinator
  · simp only [hleads, ↓reduceIte]
  · simp only [hleads, Bool.false_eq_true, ↓reduceIte]
    cases (n.applyOp op).view.coordinator <;> rfl

/-- A status that is received is treated the same way under any hint. -/
theorem onStatus_withHint (status : PlaybackStatus) (sender : Endpoint) :
    (n.withHint hint).onStatus status sender =
      ((n.onStatus status sender).1.withHint hint, (n.onStatus status sender).2) := by
  simp only [onStatus, config_withHint, isCoordinator_withHint, others_withHint, status_withHint,
    trusts_withHint]
  by_cases hleads : n.view.isCoordinator
  · by_cases hagrees : n.status.agrees status n.config.tolerance
    · simp only [hleads, hagrees, ↓reduceIte]
    · simp only [hleads, hagrees, Bool.false_eq_true, ↓reduceIte]
  · by_cases htrusts : n.trusts sender
    · simp only [hleads, htrusts, Bool.false_eq_true, ↓reduceIte]
      rfl
    · simp only [hleads, htrusts, Bool.false_eq_true, ↓reduceIte]

/-- A message is handled without regard to the hint; only a table brings a hint of its own. -/
theorem handle_withHint (m : Message) (sender : Endpoint) :
    ∃ hint', (n.withHint hint).handle m sender = (n.handle m sender).withHint hint' := by
  cases m with
  | control op =>
    refine ⟨hint, ?_⟩
    rw [handle, onControl_withHint]
    rfl
  | sendStatus status =>
    refine ⟨hint, ?_⟩
    rw [handle, onStatus_withHint]
    rfl
  | changeSong song enqueue => exact ⟨hint, by cases enqueue <;> rfl⟩
  | clientList own table => exact ⟨table.hint, rfl⟩
  | clientListUpdate | queryStatus | connect | disconnect | election => exact ⟨hint, rfl⟩

/-- Whoever forgets the table forgets the hint. -/
theorem forget_withHint : (n.withHint hint).forget = n.forget := rfl

end Node

/-! ## Hints that differ on their way -/

/-- The same table for the same receiver, with one hint or another. -/
def Message.SameTable (bytes bytes' : Bytes) : Prop :=
  ∃ own peers hint hint', decode bytes = .ok (.clientList own ⟨hint, peers⟩) ∧
    decode bytes' = .ok (.clientList own ⟨hint', peers⟩)

/-- The same bytes up to the hint of a table. -/
def Message.SameButHint (bytes bytes' : Bytes) : Prop := bytes' = bytes ∨ SameTable bytes bytes'

/-- The same behaviour up to the hint of a table that is the reply. -/
def Remote.SameButHint (remote remote' : Remote) : Prop :=
  remote' = remote ∨ ∃ reply reply', remote.reply? = some reply ∧ remote'.reply? = some reply' ∧
    Message.SameTable reply reply'

/-- The same thing happens, up to the hints of the tables that come with it. -/
inductive StationStep.SameButHint : StationStep → StationStep → Prop where
  | same (a : StationStep) : SameButHint a a
  | receive (sender : Endpoint) {bytes bytes' : Bytes} (h : Message.SameButHint bytes bytes') :
      SameButHint (.receive sender bytes) (.receive sender bytes')
  | register {remote remote' : Remote} (h : remote.SameButHint remote') :
      SameButHint (.register remote) (.register remote')
  | deregister {remote remote' : Remote} (h : remote.SameButHint remote') :
      SameButHint (.deregister remote) (.deregister remote')
  | type (line : List Char) {remote remote' : Remote} (h : remote.SameButHint remote') :
      SameButHint (.type line remote) (.type line remote')

namespace Node

variable (n : Node) (hint : PeerId) {bytes bytes' : Bytes} {remote remote' : Remote}

/-- Messages that differ in the hint only have the same effect, but for the hint. -/
theorem receive_sameButHint (h : Message.SameButHint bytes bytes') (sender : Endpoint) :
    ∃ hint', (n.withHint hint).receive bytes' sender = (n.receive bytes sender).withHint hint' := by
  rcases h with rfl | ⟨own, peers, _, hint', hdecode, hdecode'⟩
  · rw [receive, receive]
    cases Message.decode bytes' with
    | ok m => exact n.handle_withHint hint m sender
    | error _ => exact ⟨hint, rfl⟩
  · rw [receive, receive, hdecode, hdecode']
    exact ⟨hint', rfl⟩

/-- A node asks without regard to the hint; only a table brings a hint of its own. -/
theorem register_withHint (remote : Remote) :
    ∃ hint', (n.withHint hint).register remote = (n.register remote).withHint hint' := by
  rw [register, register]
  simp only [config_withHint, ask]
  split
  · exact ⟨hint, rfl⟩
  · split
    · exact ⟨hint, rfl⟩
    · exact ⟨hint, rfl⟩
    · exact ⟨hint, rfl⟩
    · exact ⟨_, rfl⟩
    · exact ⟨hint, rfl⟩

/-- Answers that differ in the hint only have the same effect, but for the hint. -/
theorem register_sameButHint (h : remote.SameButHint remote') :
    ∃ hint', (n.withHint hint).register remote' = (n.register remote).withHint hint' := by
  rcases h with rfl | ⟨reply, reply', hreply, hreply', own, peers, _, hint', hdecode, hdecode'⟩
  · exact n.register_withHint hint _
  · rw [register_of_clientList hreply hdecode, register_of_clientList hreply' hdecode']
    exact ⟨hint', rfl⟩

/-- A node that leaves does not look at a table. -/
theorem deregister_sameButHint (h : remote.SameButHint remote') :
    (n.withHint hint).deregister remote' = n.deregister remote := by
  rcases h with rfl | ⟨reply, reply', hreply, hreply', own, peers, _, _, hdecode, hdecode'⟩
  · rfl
  · rw [deregister, deregister]
    simp only [config_withHint, forget_withHint, ask_of_reply? _ hreply, ask_of_reply? _ hreply',
      Exchange.finish_of_decode hdecode, Exchange.finish_of_decode hdecode']

end Node

/-! ## Commands and stations -/

/-- The same effect, after which the node has another hint. -/
def Console.Effect.withHint (e : Effect) (hint : PeerId) : Effect :=
  { e with node := e.node.withHint hint }

/-- A command asks the service by a registration, or not at all. -/
theorem Console.execute_sameButHint (target : String) (n : Node) (hint : PeerId)
    {remote remote' : Remote} (h : remote.SameButHint remote') (command : Command) :
    ∃ hint', execute target remote' (n.withHint hint) command =
      (execute target remote n command).withHint hint' := by
  cases command with
  | togglePause | start | stop | skip =>
    refine ⟨hint, ?_⟩
    simp only [execute, Node.togglePause, Node.skip, Node.control_withHint, Node.player_withHint]
    rfl
  | register =>
    obtain ⟨hint', hregister⟩ := n.register_sameButHint hint h
    refine ⟨hint', ?_⟩
    simp only [execute, hregister]
    rfl
  | add | status | help | quit => exact ⟨hint, rfl⟩

namespace Station

/-- The same station with another hint. -/
def withHint (s : Station) (hint : PeerId) : Station := { s with node := s.node.withHint hint }

variable (target : String) (s : Station) (hint : PeerId)

@[simp] theorem node_withHint : (s.withHint hint).node = s.node.withHint hint := rfl

section Steps

variable {remote remote' : Remote}

/-- A station receives messages that differ in the hint only in the same way. -/
theorem step_receive_sameButHint {bytes bytes' : Bytes} (h : Message.SameButHint bytes bytes')
    (sender : Endpoint) :
    ∃ hint', (s.withHint hint).step target (.receive sender bytes') =
      ((s.step target (.receive sender bytes)).1.withHint hint',
        (s.step target (.receive sender bytes)).2) := by
  obtain ⟨hint', hnode⟩ := s.node.receive_sameButHint hint h sender
  refine ⟨hint', ?_⟩
  simp only [step, node_withHint, hnode]
  rfl

/-- A station registers the same way with answers that differ in the hint only. -/
theorem step_register_sameButHint (h : remote.SameButHint remote') :
    ∃ hint', (s.withHint hint).step target (.register remote') =
      ((s.step target (.register remote)).1.withHint hint',
        (s.step target (.register remote)).2) := by
  obtain ⟨hint', hnode⟩ := s.node.register_sameButHint hint h
  refine ⟨hint', ?_⟩
  simp only [step, node_withHint, hnode]
  rfl

/-- Leaving the group gives up the hint, whatever it was. -/
theorem step_deregister_sameButHint (h : remote.SameButHint remote') :
    (s.withHint hint).step target (.deregister remote') =
      s.step target (.deregister remote) := by
  simp only [step, node_withHint, s.node.deregister_sameButHint hint h]
  rfl

/-- A line that is typed does the same under any hint. -/
theorem step_type_sameButHint (h : remote.SameButHint remote') (line : List Char) :
    ∃ hint', (s.withHint hint).step target (.type line remote') =
      ((s.step target (.type line remote)).1.withHint hint',
        (s.step target (.type line remote)).2) := by
  simp only [step]
  cases Command.parse line with
  | error e => exact ⟨hint, rfl⟩
  | ok command =>
    obtain ⟨hint', heffect⟩ := Console.execute_sameButHint target s.node hint h command
    refine ⟨hint', ?_⟩
    simp only [node_withHint, heffect]
    rfl

end Steps

/-- A step that is the same up to the hints answers and sends the same, and leaves a station that is
the same up to the hint. -/
theorem step_sameButHint {a a' : StationStep} (h : a.SameButHint a') :
    ∃ hint', (s.withHint hint).step target a' =
      ((s.step target a).1.withHint hint', (s.step target a).2) := by
  cases h with
  | receive sender h => exact s.step_receive_sameButHint target hint h sender
  | register h => exact s.step_register_sameButHint target hint h
  | deregister h => exact ⟨⟨0⟩, s.step_deregister_sameButHint target hint h⟩
  | type line h => exact s.step_type_sameButHint target hint h line
  | same a =>
    cases a with
    | receive sender bytes => exact s.step_receive_sameButHint target hint (.inl rfl) sender
    | register remote => exact s.step_register_sameButHint target hint (.inl rfl)
    | type line remote => exact s.step_type_sameButHint target hint (.inl rfl) line
    | togglePause | skip | control _ =>
      refine ⟨hint, ?_⟩
      simp only [step, Node.togglePause, Node.skip, node_withHint, Node.control_withHint,
        Node.player_withHint]
      rfl
    -- A node that has left the group holds no table and the hint of none.
    | forget | deregister _ => exact ⟨⟨0⟩, rfl⟩
    | player _ | enqueue _ => exact ⟨hint, rfl⟩

/-- A run that is the same up to the hints leaves a station that is the same up to the hint. -/
theorem run_sameButHint {steps steps' : List StationStep}
    (h : List.Forall₂ StationStep.SameButHint steps steps') :
    ∃ hint', (s.withHint hint).run target steps' = (s.run target steps).withHint hint' := by
  induction h generalizing s hint with
  | nil => exact ⟨hint, rfl⟩
  | @cons a a' _ _ hstep _ ih =>
    obtain ⟨next, hstep⟩ := s.step_sameButHint target hint hstep
    obtain ⟨final, hrun⟩ := ih (s.step target a).1 next
    refine ⟨final, ?_⟩
    rw [run, List.foldl_cons, hstep]
    exact hrun

/-! ### Sessions -/

/-- What a session writes and sends does not depend on the hints. -/
theorem serve_sameButHint (client : Endpoint) {bs bs' : List Bytes}
    (h : List.Forall₂ Message.SameButHint bs bs') (n : Node) (hint : PeerId) (sent : List Parcel)
    (buffers buffers' : Buffers) :
    let handler := (Node.sessionHandler client).appending
    let talk := serve handler (n, sent) buffers (bs.map .block ++ [.closed])
    let talk' := serve handler (n.withHint hint, sent) buffers' (bs'.map .block ++ [.closed])
    ∃ hint', talk'.state = (talk.state.1.withHint hint', talk.state.2) ∧
      talk'.written = talk.written := by
  -- Induction on the blocks: after each of them the nodes differ in the hint at most.
  induction h generalizing n hint sent buffers buffers' with
  | nil => exact ⟨hint, rfl, rfl⟩
  | @cons block block' _ _ hblock _ ih =>
    obtain ⟨next, hreceive⟩ := n.receive_sameButHint hint hblock client
    let reaction := n.receive block client
    obtain ⟨final, hstate, hwritten⟩ := ih reaction.node next (sent ++ reaction.sent)
      { buffers.fill block with reply := [] ++ reaction.answer.bytes }
      { buffers'.fill block' with reply := [] ++ reaction.answer.bytes }
    simp only [List.map_cons, List.cons_append, serve_block, Handler.appending,
      Node.sessionHandler, hreceive]
    exact ⟨final, hstate, congrArg (_ ++ ·) hwritten⟩

/-- A session whose blocks are the same up to the hints does the same. -/
theorem exchange_sameButHint {bytes bytes' : Bytes}
    (h : List.Forall₂ Message.SameButHint (blocks bytes) (blocks bytes')) (client : Endpoint) :
    ∃ hint', (s.withHint hint).exchange client bytes' =
      ((s.exchange client bytes).1.withHint hint', (s.exchange client bytes).2) := by
  obtain ⟨hint', hstate, hwritten⟩ :=
    serve_sameButHint client h s.node hint [] Buffers.empty Buffers.empty
  refine ⟨hint', ?_⟩
  simp only [exchange, converse, node_withHint, hstate, hwritten]
  rfl

end Station

/-- Two stations differ at most in the stored hint. -/
def Station.SameButHint (s s' : Station) : Prop := s' = s.withHint s'.node.view.table.hint

/-- Two stations differ at most in the stored hint, as two that have just begun with the same
configuration, and the same happens to them up to the hints of the tables that come with it. Then
they still differ at most in the stored hint: clock, timer and player, the own id, the peers, the
coordinator, the role and what is shown are equal. Whatever then happens to both, a session with a
client among it, they answer and send the same. -/
theorem coordinator_hint_ignored (target : String) {s s' : Station} (hs : s.SameButHint s')
    {steps steps' : List StationStep} (h : List.Forall₂ StationStep.SameButHint steps steps') :
    let t := s.run target steps
    let t' := s'.run target steps'
    t.SameButHint t' ∧
    t'.session = t.session ∧
    t'.node.view.ownId = t.node.view.ownId ∧
    t'.node.view.table.peers = t.node.view.table.peers ∧
    t'.node.view.coordinator = t.node.view.coordinator ∧
    t'.node.view.isCoordinator = t.node.view.isCoordinator ∧
    t'.node.display = t.node.display ∧
    (∀ a a', a.SameButHint a' → (t'.step target a').2 = (t.step target a).2) ∧
    ∀ client bytes bytes', List.Forall₂ Message.SameButHint (blocks bytes) (blocks bytes') →
      (t.exchange client bytes).1.SameButHint (t'.exchange client bytes').1 ∧
      (t'.exchange client bytes').2 = (t.exchange client bytes).2 := by
  intro t t'
  -- The whole run has come to the same station but for the hint.
  obtain ⟨last, hlast⟩ : ∃ last, t' = t.withHint last := by
    show ∃ last, s'.run target steps' = _
    rw [hs]
    exact s.run_sameButHint target _ h
  rw [hlast]
  refine ⟨rfl, rfl, rfl, rfl, rfl, rfl, rfl, fun a a' hstep => ?_, fun client bytes bytes' h => ?_⟩
  · obtain ⟨_, hstep⟩ := t.step_sameButHint target last hstep
    rw [hstep]
  · obtain ⟨_, htalk⟩ := t.exchange_sameButHint last h client
    rw [htalk]
    exact ⟨rfl, rfl⟩

/-- A leader with the id 9 and a member with the id 5. -/
def leaderAndMember : List Peer :=
  [⟨.v4 ⟨10, 0, 0, 2⟩, 43211, ⟨9⟩⟩, ⟨.v4 ⟨10, 0, 0, 1⟩, 43210, ⟨5⟩⟩]

/-- The bytes of the member's table with a hint. -/
def hintedTable (hint : PeerId) : Bytes :=
  (Message.clientList ⟨5⟩ ⟨hint, leaderAndMember⟩).encoded

/-- The two tables of the example are the same but for the hint. -/
theorem decode_hintedTable (hint : PeerId) :
    Message.decode (hintedTable hint) = .ok (.clientList ⟨5⟩ ⟨hint, leaderAndMember⟩) :=
  Message.decode_encoded (show leaderAndMember.length ≤ 16 by decide)

/-- The member registers, time goes by, it receives its table again, and then only its peers. -/
def hintedSteps (hint : PeerId) : List StationStep :=
  [.register (.answers [hintedTable hint]), .player (.advance 1500),
   .receive ⟨.v4 ⟨10, 0, 0, 9⟩, 1738⟩ (hintedTable hint),
   .receive ⟨.v4 ⟨10, 0, 0, 9⟩, 1738⟩ (Message.clientListUpdate leaderAndMember).encoded]

/-- One table names the leader, the other one the member itself. The update leaves both hints as
they are, and both members pass a command on to the leader. -/
theorem coordinator_hint_ignored_stale :
    let s := Station.start ⟨43210, 2000, 1, true⟩ 1000 1
    let t := s.run "10.0.0.9:1738" (hintedSteps ⟨9⟩)
    let t' := s.run "10.0.0.9:1738" (hintedSteps ⟨5⟩)
    t.node.view.table.hint = ⟨9⟩ ∧ t'.node.view.table.hint = ⟨5⟩ ∧
      t'.node.view.isCoordinator = false ∧
      (t'.step "10.0.0.9:1738" .skip).2.2 = [⟨⟨.v4 ⟨10, 0, 0, 2⟩, 43211⟩, [0, 3]⟩] := by
  intro s t t'
  have htables : Message.SameTable (hintedTable ⟨9⟩) (hintedTable ⟨5⟩) :=
    ⟨_, _, _, _, decode_hintedTable _, decode_hintedTable _⟩
  have hsteps : List.Forall₂ StationStep.SameButHint (hintedSteps ⟨9⟩) (hintedSteps ⟨5⟩) :=
    .cons (.register (.inr ⟨_, _, rfl, rfl, by simpa using htables⟩))
      (.cons (.same _) (.cons (.receive _ (.inr htables)) (.cons (.same _) .nil)))
  have hsame : s.SameButHint s := rfl
  obtain ⟨-, -, -, -, -, hrole, -, hnext, -⟩ :=
    coordinator_hint_ignored "10.0.0.9:1738" hsame hsteps
  refine ⟨by decide +kernel, by decide +kernel, hrole.trans (by decide +kernel), ?_⟩
  rw [hnext .skip .skip (.same _)]
  decide +kernel

end Ensemble
