import Ensemble.Node.Station
import Ensemble.Proofs.Message.Parcel
import Ensemble.Proofs.Node.Registration

/-!
# To register and to leave is all or nothing

What an exchange comes to depends on the other side, and on the request where the connection fails
before all of it is written: the exchange fails, at one of its stages, or it ends with the first
bytes of a reply. A registration takes over a table if these bytes are one. Every other end of the
exchange is an error of its own kind, and leaves the node as it was. To leave takes effect at once,
whatever becomes of the exchange. Neither touches the player, and neither sends anything to other
members.

* `Remote.outcome` — what an exchange comes to.
* `Exchange.run_of_error`, `Exchange.run_of_ok` — what becomes of a handler then.
* `Node.enrols` — every end of a registration is one of those listed.
* `registration_all_or_nothing` — which outcome leads to which end.
-/

namespace Ensemble

/-! ## What an exchange comes to -/

/-- What reading a reply comes to: its first bytes, or why they are lost. -/
def Reply.outcome (limit : Nat) : Reply → Except TransportError Bytes
  | .whole pieces => .ok (pieces.flatten.take maxMessageSize)
  | .broken bytes cause =>
    -- Bytes that have filled the buffer are not lost by what happens behind them.
    if maxMessageSize ≤ bytes.length ∨ cause.endsConnection then .ok (bytes.take maxMessageSize)
    else .error (.unreachable cause)
  | .stalled bytes _ =>
    if maxMessageSize ≤ bytes.length then .ok (bytes.take maxMessageSize)
    else .error (.timeout limit)

/-- What an exchange comes to in which a request is to be written: the first bytes of the reply, or
why it failed. -/
def Remote.outcome (limit : Nat) (request : Bytes) : Remote → Except TransportError Bytes
  | .fails cause => .error (.unreachable cause)
  | .unreachable _ => .error (.timeout limit)
  | .cutsOff cut =>
    if cut.Stops request then .error (.unreachable cut.cause)
    else (Reply.broken [] cut.cause).outcome limit
  | .replies none reply => reply.outcome limit
  | .replies (some cause) reply =>
    if cause.endsConnection then reply.outcome limit else .error (.unreachable cause)

namespace Exchange

variable {σ : Type} {handler : Handler σ} {limit : Nat} {state : σ} {request bytes : Bytes}
  {e : TransportError}

/-- Of a complete reply the handler is given the first bytes, if there are any,
and nothing fails. -/
theorem finish_spec (handler : Handler σ) (state : σ) (request reply : Bytes) (elapsed : Nat) :
    let bytes := reply.take maxMessageSize
    (finish handler state request reply elapsed).error = none ∧
      (finish handler state request reply elapsed).state =
        if bytes = [] then state else (handler state bytes).1 := by
  rw [finish]
  split
  · rename_i hnil
    exact ⟨rfl, (if_pos hnil).symm⟩
  · rename_i hne
    exact ⟨rfl, (if_neg hne).symm⟩

/-- If no answer comes through, the exchange ends with what went wrong. -/
theorem receive_of_error {r : Reply} (h : r.outcome limit = .error e) :
    (receive handler limit state request r).error = some e := by
  cases r with
  | whole _ => cases h
  | broken _ _ | stalled _ _ =>
    rw [Reply.outcome] at h
    rw [receive]
    split at h
    · cases h
    · rename_i hlost
      cases h
      rw [if_neg hlost]
      rfl

/-- An answer that comes through is handed to the handler, unless it is empty. -/
theorem receive_of_ok {r : Reply} (h : r.outcome limit = .ok bytes) :
    (receive handler limit state request r).error = none ∧
      (receive handler limit state request r).state =
        if bytes = [] then state else (handler state bytes).1 := by
  cases r with
  | whole _ =>
    cases h
    exact finish_spec _ _ _ _ _
  | broken _ _ | stalled _ _ =>
    rw [Reply.outcome] at h
    rw [receive]
    split at h
    · rename_i hkept
      cases h
      rw [if_pos hkept]
      exact finish_spec _ _ _ _ _
    · cases h

/-- Our side is closed if there is no error, or one by which the other side has ended the
connection. -/
theorem run_replies (handler : Handler σ) (limit : Nat) (state : σ) (closing : Option SystemError)
    (r : Reply) :
    (run handler limit state (.replies closing r) =
        receive handler limit (handler state []).1 (handler state []).2.sent r ∧
      (Remote.replies closing r).outcome limit (handler state []).2.sent = r.outcome limit) ∨
    ∃ cause, run handler limit state (.replies closing r) =
        fail (handler state []).1 (handler state []).2.sent 0 (.unreachable cause) ∧
      (Remote.replies closing r).outcome limit (handler state []).2.sent =
        .error (.unreachable cause) := by
  cases closing with
  | none => exact .inl ⟨run_replies_of_all rfl, rfl⟩
  | some cause =>
    cases hends : cause.endsConnection with
    | true => exact .inl ⟨run_replies_of_all hends, by rw [Remote.outcome, if_pos hends]⟩
    | false =>
      refine .inr ⟨cause, run_replies_of_failed hends, ?_⟩
      rw [Remote.outcome, if_neg (Bool.eq_false_iff.mp hends)]

/-- An exchange fails as its outcome says. -/
theorem run_of_error {remote : Remote}
    (h : remote.outcome limit (handler state []).2.sent = .error e) :
    (run handler limit state remote).error = some e := by
  cases remote with
  | fails _ | unreachable _ =>
    cases h
    rfl
  -- The connection breaks before the request is out, or it breaks after that.
  | cutsOff cut =>
    rw [Remote.outcome] at h
    simp only [run]
    split at h
    · rename_i hstops
      cases h
      rw [if_pos hstops]
      rfl
    · rename_i hstops
      rw [if_neg hstops]
      exact receive_of_error h
  | replies closing r =>
    rcases run_replies handler limit state closing r with ⟨hrun, hout⟩ | ⟨cause, hrun, hout⟩
    · rw [hrun]
      exact receive_of_error (hout.symm.trans h)
    · rw [hrun]
      cases hout.symm.trans h
      rfl

/-- An exchange that does not fail calls its handler for the request, and then with the first bytes
of the reply, if there are any. -/
theorem run_of_ok {remote : Remote}
    (h : remote.outcome limit (handler state []).2.sent = .ok bytes) :
    (run handler limit state remote).error = none ∧
      (run handler limit state remote).state =
        if bytes = [] then (handler state []).1 else (handler (handler state []).1 bytes).1 := by
  cases remote with
  -- Nothing comes through without a connection.
  | fails _ | unreachable _ => cases h
  | cutsOff cut =>
    rw [Remote.outcome] at h
    simp only [run]
    split at h
    · cases h
    · rename_i hstops
      rw [if_neg hstops]
      exact receive_of_ok h
  | replies closing r =>
    rcases run_replies handler limit state closing r with ⟨hrun, hout⟩ | ⟨cause, hrun, hout⟩
    · rw [hrun]
      exact receive_of_ok (hout.symm.trans h)
    · cases hout.symm.trans h

end Exchange

namespace Node

variable {n : Node} {remote : Remote} {bytes : Bytes}

/-- A question that fails fails with what the exchange failed with. -/
theorem ask_of_error {request : Bytes} {e : TransportError}
    (h : remote.outcome n.config.timeLimit request = .error e) :
    (n.ask request remote).error = some e :=
  Exchange.run_of_error h

/-- The node keeps what the first bytes of the reply decode to, if there are any. -/
theorem ask_of_ok {request : Bytes} (h : remote.outcome n.config.timeLimit request = .ok bytes) :
    (n.ask request remote).error = none ∧
      (n.ask request remote).state =
        if bytes = [] then none else some (Message.decode bytes) := by
  have hrun : (n.ask request remote).error = none ∧ (n.ask request remote).state =
      if bytes = [] then none else (requestHandler request none bytes).1 := Exchange.run_of_ok h
  refine ⟨hrun.1, hrun.2.trans ?_⟩
  split
  · rfl
  · rename_i hne
    simp [requestHandler, hne]

/-! ## Registrations -/

/-- The ends of a registration: the outcome of the exchange, the node afterwards, and the error. -/
inductive Enrols (n : Node) : Except TransportError Bytes → Node → Option NodeError → Prop
  | fails (e : TransportError) : Enrols n (.error e) n (some (.transport e))
  | noAnswer : Enrols n (.ok []) n (some .noAnswer)
  | undecodable {bytes : Bytes} {e : DecodeError} (hne : bytes ≠ [])
      (h : Message.decode bytes = .error e) : Enrols n (.ok bytes) n (some (.decode e))
  | unexpected {bytes : Bytes} {m : Message} (hkind : m.kind ≠ .clientList)
      (h : Message.decode bytes = .ok m) : Enrols n (.ok bytes) n (some (.unexpected m.kind))
  | adopts {bytes : Bytes} {own : PeerId} {table : PeerTable}
      (h : Message.decode bytes = .ok (.clientList own table)) :
      Enrols n (.ok bytes) { n with view := ⟨some own, table⟩ } none

/-- Every end of a registration is one of those listed. -/
theorem enrols (n : Node) (remote : Remote) :
    n.Enrols (remote.outcome n.config.timeLimit n.connectBytes) (n.register remote).node
      (n.register remote).error := by
  rw [register, n.encode_connect]
  cases houtcome : remote.outcome n.config.timeLimit n.connectBytes with
  -- No answer at all.
  | error e =>
    simp only [ask_of_error houtcome]
    exact .fails e
  | ok bytes =>
    obtain ⟨herror, hstate⟩ := ask_of_ok houtcome
    by_cases hnil : bytes = []
    · subst hnil
      rw [if_pos rfl] at hstate
      simp only [herror, hstate]
      exact .noAnswer
    · rw [if_neg hnil] at hstate
      -- An answer: only a table is taken over.
      cases hdecode : Message.decode bytes with
      | error e =>
        rw [hdecode] at hstate
        simp only [herror, hstate]
        exact .undecodable hnil hdecode
      | ok m =>
        rw [hdecode] at hstate
        cases m with
        | clientList own table =>
          simp only [herror, hstate]
          exact .adopts hdecode
        | _ =>
          simp only [herror, hstate]
          exact .unexpected (by simp [Message.kind]) hdecode

namespace Enrols

variable {outcome : Except TransportError Bytes} {node : Node} {error : Option NodeError}

/-- A registration succeeds exactly on a table. -/
theorem succeeds_iff (h : n.Enrols outcome node error) : error = none ↔
    ∃ bytes own table, outcome = .ok bytes ∧
      Message.decode bytes = .ok (.clientList own table) := by
  cases h with
  | fails | noAnswer => simp [Message.decode]
  | undecodable _ hdecode => simp [hdecode]
  | unexpected hkind hdecode =>
    refine iff_of_false (by simp) ?_
    rintro ⟨_, own, table, ⟨⟩, htable⟩
    rw [hdecode] at htable
    cases htable
    exact hkind rfl
  | adopts hdecode => exact iff_of_true rfl ⟨_, _, _, rfl, hdecode⟩

/-- What is taken over is the table that the reply is. -/
theorem adopted (h : n.Enrols outcome node error) {own : PeerId} {table : PeerTable}
    (houtcome : outcome = .ok bytes)
    (hdecode : Message.decode bytes = .ok (.clientList own table)) :
    node = { n with view := ⟨some own, table⟩ } := by
  subst houtcome
  cases h with
  | noAnswer => cases hdecode
  | undecodable _ herror => cases herror.symm.trans hdecode
  | unexpected hkind hother =>
    cases hother.symm.trans hdecode
    exact absurd rfl hkind
  | adopts hother =>
    cases hother.symm.trans hdecode
    rfl

/-- A registration that fails leaves the node as it was. -/
theorem untouched (h : n.Enrols outcome node error) (herror : error ≠ none) : node = n := by
  cases h with
  | adopts => exact absurd rfl herror
  | fails | noAnswer | undecodable | unexpected => rfl

/-- The error is one of transport exactly if no answer came through. -/
theorem transport_iff (h : n.Enrols outcome node error) {e : TransportError} :
    error = some (.transport e) ↔ outcome = .error e := by
  cases h <;> simp

/-- There is said to be no answer exactly if the connection was closed without a byte. -/
theorem noAnswer_iff (h : n.Enrols outcome node error) :
    error = some .noAnswer ↔ outcome = .ok [] := by
  cases h with
  | undecodable hne => simpa using hne
  | unexpected _ hdecode | adopts hdecode => simpa using Message.ne_nil_of_decode hdecode
  | fails | noAnswer => simp

/-- The error is one of decoding exactly if the answer is no message. -/
theorem decode_iff (h : n.Enrols outcome node error) {e : DecodeError} :
    error = some (.decode e) ↔
      ∃ bytes, outcome = .ok bytes ∧ bytes ≠ [] ∧ Message.decode bytes = .error e := by
  cases h with
  | fails | noAnswer => simp
  | undecodable hne hdecode => simp [hne, hdecode]
  | unexpected _ hdecode | adopts hdecode => simp [hdecode]

/-- The answer is unexpected exactly if it is a message of another kind. -/
theorem unexpected_iff (h : n.Enrols outcome node error) {kind : MessageKind} :
    error = some (.unexpected kind) ↔ kind ≠ .clientList ∧
      ∃ bytes m, outcome = .ok bytes ∧ Message.decode bytes = .ok m ∧ m.kind = kind := by
  cases h with
  | fails => simp
  | noAnswer => simp [Message.decode]
  | undecodable _ hdecode => simp [hdecode]
  | unexpected hkind hdecode =>
    simp only [Option.some.injEq, NodeError.unexpected.injEq, Except.ok.injEq]
    constructor
    · rintro rfl
      exact ⟨hkind, _, _, rfl, hdecode, rfl⟩
    · rintro ⟨-, _, m, rfl, hother, rfl⟩
      rw [Except.ok.inj (hdecode.symm.trans hother)]
  | adopts hdecode =>
    refine iff_of_false (by simp) ?_
    rintro ⟨hkind, _, m, ⟨⟩, hother, rfl⟩
    cases hdecode.symm.trans hother
    exact hkind rfl

/-- The request itself can always be written. -/
theorem encode_ne (h : n.Enrols outcome node error) (e : EncodeError) :
    error ≠ some (.encode e) := by
  cases h <;> simp

/-- A registration does not touch the player. -/
theorem player_eq (h : n.Enrols outcome node error) : node.player = n.player := by
  cases h <;> rfl

end Enrols

/-- A registration that is all or nothing: it succeeds exactly with a table, which it takes over as
it is, and otherwise says what went wrong and leaves the node as it was. -/
structure Registers (n : Node) (outcome : Except TransportError Bytes) (c : Contact) : Prop where
  succeeds_iff : c.error = none ↔ ∃ bytes own table, outcome = .ok bytes ∧
    Message.decode bytes = .ok (.clientList own table)
  adopted : ∀ bytes own table, outcome = .ok bytes →
    Message.decode bytes = .ok (.clientList own table) →
      c.node = { n with view := ⟨some own, table⟩ }
  untouched : c.error ≠ none → c.node = n
  transport_iff : ∀ e, c.error = some (.transport e) ↔ outcome = .error e
  noAnswer_iff : c.error = some .noAnswer ↔ outcome = .ok []
  decode_iff : ∀ e, c.error = some (.decode e) ↔
    ∃ bytes, outcome = .ok bytes ∧ bytes ≠ [] ∧ Message.decode bytes = .error e
  unexpected_iff : ∀ kind, c.error = some (.unexpected kind) ↔ kind ≠ .clientList ∧
    ∃ bytes m, outcome = .ok bytes ∧ Message.decode bytes = .ok m ∧ m.kind = kind
  encode_ne : ∀ e, c.error ≠ some (.encode e)
  player_eq : c.node.player = n.player

/-- A registration does what it says. -/
theorem registers (n : Node) (remote : Remote) :
    n.Registers (remote.outcome n.config.timeLimit n.connectBytes) (n.register remote) where
  succeeds_iff := (n.enrols remote).succeeds_iff
  adopted := fun _ _ _ => (n.enrols remote).adopted
  untouched := (n.enrols remote).untouched
  transport_iff := fun _ => (n.enrols remote).transport_iff
  noAnswer_iff := (n.enrols remote).noAnswer_iff
  decode_iff := fun _ => (n.enrols remote).decode_iff
  unexpected_iff := fun _ => (n.enrols remote).unexpected_iff
  encode_ne := (n.enrols remote).encode_ne
  player_eq := (n.enrols remote).player_eq

/-! ## Leaving -/

/-- To leave takes effect whatever the exchange comes to: the node has no id and an empty table, and
is otherwise as it was. The error is that of the exchange, if it failed. -/
structure Leaves (n : Node) (outcome : Except TransportError Bytes) (c : Contact) : Prop where
  node_eq : c.node = { n with view := ⟨none, PeerTable.empty⟩ }
  failed : ∀ e, outcome = .error e → c.error = some (.transport e)
  completed : ∀ bytes, outcome = .ok bytes → c.error = none

/-- The bytes with which the node leaves. -/
def disconnectBytes (n : Node) : Bytes := (Message.disconnect n.config.listenPort).encoded

/-- A deregistration forgets the table, whatever comes of the exchange. -/
theorem leaves (n : Node) (remote : Remote) :
    n.Leaves (remote.outcome n.config.timeLimit n.disconnectBytes) (n.deregister remote) := by
  have hencode : (Message.disconnect n.config.listenPort).encode = .ok n.disconnectBytes :=
    Message.encode_encoded trivial
  rw [deregister, hencode]
  refine ⟨rfl, fun e houtcome => ?_, fun bytes houtcome => ?_⟩
  · simp only [ask_of_error houtcome, Option.map_some]
  · simp only [(ask_of_ok houtcome).1, Option.map_none]

end Node

/-! ## Stations -/

/-- A node with the same player goes on with the same timer. -/
theorem Station.session_become (s : Station) {node : Node} (hplayer : node.player = s.node.player)
    (elapsed : Nat) : (s.become node elapsed).session = (s.session.step (.jump elapsed)).1 := by
  rw [become, settle, deck, hplayer]
  rfl

/-- While the station is in contact with the service only time goes by for its player, and nothing
is sent. -/
structure Station.WaitsFor (s : Station) (target : String) (a : StationStep) (c : Node.Contact) :
    Prop where
  view_eq : (s.step target a).1.node.view = c.node.view
  session_eq : (s.step target a).1.session = (s.session.step (.jump c.elapsed)).1
  sent_eq : (s.step target a).2.2 = []

/-- For every node and every behaviour of the other side, whichever stage of the exchange fails: a
registration succeeds exactly if the exchange ends with a reply whose first bytes, as many as are
read, are a table, and then the node's id, hint and peers are those of the table. In every other
case the error says what happened, and the node is as it was. To leave forgets the id and the table
whatever the exchange comes to, and its error is that of the exchange. Neither touches the player,
but for the time that goes by, and neither sends anything. -/
theorem registration_all_or_nothing (target : String) (s : Station) (remote : Remote) :
    let outcome := remote.outcome s.node.config.timeLimit
    s.node.Registers (outcome s.node.connectBytes) (s.node.register remote) ∧
      s.node.Leaves (outcome s.node.disconnectBytes) (s.node.deregister remote) ∧
      s.WaitsFor target (.register remote) (s.node.register remote) ∧
      s.WaitsFor target (.deregister remote) (s.node.deregister remote) := by
  intro outcome
  have hregisters := s.node.registers remote
  have hleaves := s.node.leaves remote
  have hplayer : (s.node.deregister remote).node.player = s.node.player := by
    rw [hleaves.node_eq]
  refine ⟨hregisters, hleaves, ⟨rfl, ?_, rfl⟩, ⟨rfl, ?_, rfl⟩⟩
  · exact s.session_become hregisters.player_eq _
  · exact s.session_become hplayer _

/-- A whole table is taken over if the connection breaks after it, and lost if the other side does
not close in time. A connection that breaks within the request is a failure. -/
example :
    let n := Node.start ⟨43210, 2000, 2, false⟩ (Player.start 1)
    let reply := [7, 0, 7, 0, 7, 1, 8, 49, 48, 46, 48, 46, 48, 46, 49, 168, 202, 0, 7]
    (n.register (.resets reply)).node.view =
        ⟨some ⟨7⟩, ⟨⟨7⟩, [⟨.v4 ⟨10, 0, 0, 1⟩, 43210, ⟨7⟩⟩]⟩⟩ ∧
      (n.register (.stalls reply 2000)).node = n ∧
      (n.register (.stalls reply 2000)).error = some (.transport (.timeout 2000)) ∧
      (n.register (.cutsOff ⟨2, .connectionReset⟩)).error =
        some (.transport (.unreachable .connectionReset)) := by
  decide +kernel

end Ensemble
