import Ensemble.Node.Registration
import Ensemble.Proofs.Message.Size
import Ensemble.Proofs.Transport.Limit

/-!
# What a registration comes to

A node registers with a CONNECT of its own port. Of a complete reply two cases matter to a service
that answers with a table or not at all: an empty reply leaves the node as it was, and a table is
taken over as it is.

* `Node.register_of_nil`, `Node.register_of_clientList` — the two cases.
* `Node.view_register_cases` — a registration leaves the view as it was, or takes over a table.
-/

namespace Ensemble

namespace Node

/-- The bytes with which the node registers. -/
def connectBytes (n : Node) : Bytes :=
  match (Message.connect n.config.listenPort).encode with
  | .ok bytes => bytes
  | .error _ => []

/-- The request can always be encoded. -/
theorem encode_connect (n : Node) :
    (Message.connect n.config.listenPort).encode = .ok n.connectBytes := by
  obtain ⟨bytes, hencode, -⟩ := Message.exists_encode (m := .connect n.config.listenPort) trivial
  rw [connectBytes, hencode]

/-- The request is read as a CONNECT with the port that the node listens on. -/
theorem decode_connectBytes (n : Node) :
    Message.decode n.connectBytes = .ok (.connect n.config.listenPort) :=
  Message.decode_of_encode n.encode_connect

variable {n : Node} {remote : Remote} {reply : Bytes}

/-- An exchange with a complete reply: the request is written, and the reply is handed over. -/
theorem ask_of_reply? (request : Bytes) (h : remote.reply? = some reply) :
    n.ask request remote = Exchange.finish (requestHandler request) none request reply 0 := by
  rw [ask, Exchange.run_of_reply? h]
  rfl

/-- Without a reply the node stays as it was. -/
theorem register_of_nil (h : remote.reply? = some []) :
    n.register remote = ⟨n, some .noAnswer, some n.connectBytes, 0⟩ := by
  rw [register, n.encode_connect]
  simp only [ask_of_reply? _ h]
  rfl

/-- A table is taken over as it is. -/
theorem register_of_clientList {own : PeerId} {table : PeerTable}
    (h : remote.reply? = some reply)
    (hdecode : Message.decode reply = .ok (.clientList own table)) :
    n.register remote =
      ⟨{ n with view := View.adopt own table }, none, some n.connectBytes, 0⟩ := by
  have hread : (requestHandler n.connectBytes none reply).1 =
      some (.ok (.clientList own table)) := by
    rw [requestHandler, if_neg (by simpa using Message.ne_nil_of_decode hdecode), hdecode]
  rw [register, n.encode_connect]
  simp only [ask_of_reply? _ h, Exchange.finish_of_decode hdecode, hread]

/-- A message that was kept is what the answer decodes to. -/
theorem decode_of_state_finish {request sent : Bytes} {elapsed : Nat} {m : Message}
    (h : (Exchange.finish (requestHandler request) none sent reply elapsed).state =
      some (.ok m)) : Message.decode reply = .ok m := by
  rw [Exchange.finish] at h
  split at h
  · cases h
  · rename_i bytes hne
    have hnonempty : ¬ (reply.take maxMessageSize).isEmpty = true := by
      rw [List.isEmpty_iff]
      exact hne
    simp only [requestHandler, if_neg hnonempty] at h
    exact Message.decode_take_iff.mp (Option.some.inj h)

/-- A message that an exchange leaves behind is the other side's whole reply. -/
theorem exists_reply?_of_ask {request : Bytes} {m : Message}
    (h : (n.ask request remote).state = some (.ok m)) :
    ∃ reply, remote.reply? = some reply ∧ Message.decode reply = .ok m := by
  cases hreply : remote.reply? with
  | some reply =>
    rw [ask_of_reply? request hreply] at h
    exact ⟨reply, rfl, decode_of_state_finish h⟩
  -- Without a whole answer there is no message to keep.
  | none =>
    rw [ask] at h
    rcases Exchange.run_of_no_reply hreply with
      ⟨-, hstate⟩ | ⟨-, hstate⟩ | ⟨_, reply, _, hfull, heq⟩
    · rw [hstate] at h
      cases h
    · rw [hstate] at h
      cases h
    · rw [heq] at h
      exact absurd (decode_of_state_finish h) (Message.not_decode_of_full hfull)

/-- A registration leaves the view as it was, unless the whole reply is a table. -/
theorem view_register_cases (n : Node) (remote : Remote) :
    (n.register remote).node.view = n.view ∨
    ∃ reply own table, remote.reply? = some reply ∧
      Message.decode reply = .ok (.clientList own table) ∧
      (n.register remote).node.view = View.adopt own table := by
  rw [register, n.encode_connect]
  simp only
  split
  · exact .inl rfl
  · exact .inl rfl
  · exact .inl rfl
  · rename_i own table _ hstate
    obtain ⟨reply, hreply, hdecode⟩ := exists_reply?_of_ask hstate
    exact .inr ⟨reply, own, table, hreply, hdecode, rfl⟩
  · exact .inl rfl

end Node

end Ensemble
