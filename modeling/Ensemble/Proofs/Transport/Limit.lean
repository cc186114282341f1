import Ensemble.Proofs.Message.Spelling
import Ensemble.Proofs.Transport.Replies
import Ensemble.Transport.Session

/-!
# The limit of a message changes nothing

Whoever receives reads at most `maxMessageSize` bytes at once, and what it reads is taken for one
message. Accepted bytes stay far below that: their addresses have at most 45 bytes each, however
they are spelled. So a message is never cut, and what was cut is never a message.

* `Message.length_le_of_decode` — accepted bytes are at most 806.
* `Message.decode_take_iff` — the bytes up to the limit are accepted exactly if all the bytes are.
* `accepted_fits_buffer` — the same of exchanges and of sessions, as their handlers are called.
-/

namespace Ensemble

/-! ## How long accepted bytes are -/

namespace IpAddress

/-- A text of an address has at most 45 bytes. -/
theorem HasText.length_le_longest {a : IpAddress} {text : Bytes} (h : a.HasText text) :
    text.length ≤ 45 := by
  obtain ⟨chars, hchars, hparse⟩ := h.exists_chars
  rw [Utf8.eq_encode_of_decode? hchars]
  exact length_encode_le_of_parse? hparse

end IpAddress

namespace Wire

variable {texts : List Bytes}

/-- Besides the text of its address a peer takes five bytes. -/
theorem length_peerSpelled (text : Bytes) (p : Peer) :
    (peerSpelled text p).length = text.length + 5 := by
  simp only [peerSpelled, List.length_append, List.length_cons, length_word16]

/-- A peer takes 50 bytes at most, whatever way its address is spelled. -/
theorem length_peersSpelled_le {ps : List Peer}
    (h : List.Forall₂ (fun text p => p.address.HasText text) texts ps) :
    (peersSpelled texts ps).length ≤ 50 * ps.length + 1 := by
  rw [peersSpelled, List.length_cons, Nat.add_le_add_iff_right]
  induction h with
  | nil => exact Nat.le_refl 0
  | cons htext _ ih =>
    have hlen := htext.length_le_longest
    rw [List.zipWith_cons_cons, List.flatten_cons, List.length_append, length_peerSpelled,
      List.length_cons]
    omega

/-- The longest fields are those of a full table: two ids, the count and sixteen peers. -/
theorem length_fieldsSpelled_le {m : Message} (hwithin : m.WithinBounds)
    (h : List.Forall₂ (fun text p => p.address.HasText text) texts m.peers) :
    (fieldsSpelled texts m).length ≤ 805 := by
  cases m with
  | sendStatus s =>
    have hqueue : s.queue.length ≤ 128 := hwithin
    simp only [fieldsSpelled, List.length_append, List.length_cons, length_song, length_word32,
      length_flatMap_song]
    omega
  -- The longest of all: two ids and sixteen peers.
  | clientList ownId table =>
    have hcount : table.peers.length ≤ 16 := hwithin
    have hpeers := length_peersSpelled_le h
    simp only [Message.peers] at hpeers
    simp only [fieldsSpelled, List.length_append, length_word16]
    omega
  | clientListUpdate ps =>
    have hcount : ps.length ≤ 16 := hwithin
    have hpeers := length_peersSpelled_le h
    simp only [Message.peers] at hpeers
    simp only [fieldsSpelled]
    omega
  | control _ | changeSong _ _ | disconnect _ | connect _ | queryStatus | election _ =>
    simp [fieldsSpelled]

end Wire

namespace Message

variable {m : Message} {bytes : Bytes}

/-- Accepted bytes are at most 806. -/
theorem length_le_of_decode (h : decode bytes = .ok m) : bytes.length ≤ 806 := by
  obtain ⟨hwithin, texts, htexts, rfl⟩ := decode_eq_ok_iff.mp h
  have hfields := Wire.length_fieldsSpelled_le hwithin htexts
  rw [spelled, List.length_cons]
  omega

/-- The limit cuts nothing off accepted bytes. -/
theorem take_of_decode (h : decode bytes = .ok m) : bytes.take maxMessageSize = bytes := by
  have hlen := length_le_of_decode h
  exact List.take_of_length_le (by rw [maxMessageSize]; omega)

/-- The bytes up to the limit are accepted exactly if all the bytes are. -/
theorem decode_take_iff : decode (bytes.take maxMessageSize) = .ok m ↔ decode bytes = .ok m := by
  constructor
  · intro h
    have hlen := length_le_of_decode h
    rw [List.length_take, maxMessageSize] at hlen
    -- Fewer bytes than the limit were there to begin with, so nothing was cut off.
    rwa [List.take_of_length_le (by rw [maxMessageSize]; omega)] at h
  · intro h
    rwa [take_of_decode h]

/-- Bytes that fill the buffer are too many for a message. -/
theorem not_decode_of_full (hfull : maxMessageSize ≤ bytes.length) : decode bytes ≠ .ok m := by
  intro h
  have hlen := length_le_of_decode h
  rw [maxMessageSize] at hfull
  omega

/-- No message is empty. -/
theorem ne_nil_of_decode (h : decode bytes = .ok m) : bytes ≠ [] := by
  rintro rfl
  cases h

end Message

/-! ## Exchanges -/

/-- What is sent, if it is over in the end. -/
def Reply.complete? : Reply → Option Bytes
  | .whole pieces => some pieces.flatten
  | .broken bytes cause => if cause.endsConnection then some bytes else none
  | .stalled _ _ => none

/-- The reply of the other side, if it is ever over. -/
def Remote.reply? : Remote → Option Bytes
  | .replies closing reply =>
    if closing.all (·.endsConnection) then reply.complete? else none
  | .fails _ | .unreachable _ | .cutsOff _ => none

namespace Remote

/-- A remote that answers in pieces gives all of them as its answer. -/
@[simp] theorem reply?_answers (pieces : List Bytes) :
    (answers pieces).reply? = some pieces.flatten := rfl

end Remote

namespace Exchange

variable {σ : Type} {handler : Handler σ} {limit elapsed : Nat} {state : σ} {remote : Remote}
  {m : Message} {request reply : Bytes}

/-- Before the reply the handler is called for the request, and what it is given there is no
message. -/
theorem not_accepts_request : ¬∃ block ∈ [([] : Bytes)], Message.decode block = .ok m := by
  rintro ⟨block, hblock, h⟩
  exact Message.ne_nil_of_decode h (List.mem_singleton.mp hblock)

/-- A complete reply that is a message is handed over as a whole. -/
theorem calls_finish_of_decode (h : Message.decode reply = .ok m) :
    (finish handler state request reply elapsed).calls = [[], reply] := by
  obtain ⟨code, fields, rfl⟩ := List.exists_cons_of_ne_nil (Message.ne_nil_of_decode h)
  rw [finish, Message.take_of_decode h]

/-- Of a complete reply the handler is given a message exactly if the whole reply
is that message. -/
theorem accepts_finish_iff :
    (∃ block ∈ (finish handler state request reply elapsed).calls, Message.decode block = .ok m) ↔
      Message.decode reply = .ok m := by
  constructor
  · intro h
    rw [finish] at h
    split at h
    · exact absurd h not_accepts_request
    · obtain ⟨block, hblock, hdecode⟩ := h
      rcases List.mem_pair.mp hblock with rfl | rfl
      · exact absurd rfl (Message.ne_nil_of_decode hdecode)
      · exact Message.decode_take_iff.mp hdecode
  · intro h
    rw [calls_finish_of_decode h]
    exact ⟨reply, List.mem_pair.mpr (.inr rfl), h⟩

/-- A complete reply is handed over at once. -/
theorem receive_of_complete? {r : Reply} (h : r.complete? = some reply) :
    receive handler limit state request r = finish handler state request reply 0 := by
  cases r with
  | whole pieces =>
    cases h
    rfl
  | broken bytes cause =>
    rw [Reply.complete?] at h
    split at h
    · rename_i hends
      cases h
      rw [receive, if_pos (.inr hends)]
    · cases h
  | stalled _ _ => cases h

/-- A reply that is not complete is lost, or it is too long for a message. -/
theorem receive_of_incomplete {r : Reply} (h : r.complete? = none) :
    (∃ elapsed error, receive handler limit state request r = fail state request elapsed error) ∨
      ∃ reply elapsed, maxMessageSize ≤ reply.length ∧
        receive handler limit state request r = finish handler state request reply elapsed := by
  cases r with
  | whole pieces => cases h
  | broken bytes cause =>
    have hends : ¬ cause.endsConnection = true := fun hends => by simp [Reply.complete?, hends] at h
    by_cases hfull : maxMessageSize ≤ bytes.length
    · exact .inr ⟨bytes, 0, hfull, if_pos (.inl hfull)⟩
    · exact .inl ⟨0, _, if_neg (not_or.mpr ⟨hfull, hends⟩)⟩
  | stalled bytes ms =>
    by_cases hfull : maxMessageSize ≤ bytes.length
    · exact .inr ⟨bytes, ms, hfull, if_pos hfull⟩
    · exact .inl ⟨ms, _, if_neg hfull⟩

/-- If our side can be closed, what follows is the reply. -/
theorem run_replies_of_all {closing : Option SystemError} {r : Reply}
    (h : closing.all (·.endsConnection) = true) : run handler limit state (.replies closing r) =
      receive handler limit (handler state []).1 (handler state []).2.sent r := by
  have hfilter : closing.filter (!·.endsConnection) = none := by
    cases closing with
    | none => rfl
    | some cause => simpa using h
  simp only [run, hfilter]

/-- If it cannot be closed, the exchange fails. -/
theorem run_replies_of_failed {cause : SystemError} {r : Reply}
    (h : cause.endsConnection = false) : run handler limit state (.replies (some cause) r) =
      fail (handler state []).1 (handler state []).2.sent 0 (.unreachable cause) := by
  have hfilter : (some cause).filter (!·.endsConnection) = some cause := by
    rw [Option.filter_some, if_pos (by simpa using h)]
  simp only [run, hfilter]

/-- A complete reply is the whole exchange. -/
theorem run_of_reply? (h : remote.reply? = some reply) :
    run handler limit state remote =
      finish handler (handler state []).1 (handler state []).2.sent reply 0 := by
  cases remote with
  | replies closing r =>
    rw [Remote.reply?] at h
    split at h
    · rename_i hclosed
      rw [run_replies_of_all hclosed, receive_of_complete? h]
    · cases h
  | fails _ | unreachable _ | cutsOff _ => cases h

/-- Without a complete reply the handler is called for the request at most, or what it is given is
too long for a message. -/
theorem run_of_no_reply (h : remote.reply? = none) :
    ((run handler limit state remote).calls = [] ∧
        (run handler limit state remote).state = state) ∨
      ((run handler limit state remote).calls = [[]] ∧
        (run handler limit state remote).state = (handler state []).1) ∨
      ∃ request reply elapsed, maxMessageSize ≤ reply.length ∧
        run handler limit state remote =
          finish handler (handler state []).1 request reply elapsed := by
  cases remote with
  | fails _ | unreachable _ => exact .inl ⟨rfl, rfl⟩
  | cutsOff cut =>
    refine .inr (.inl ?_)
    simp only [run]
    split
    · exact ⟨rfl, rfl⟩
    · -- The connection fails where the reply would begin.
      rw [receive]
      split <;> exact ⟨rfl, rfl⟩
  | replies closing r =>
    by_cases hclosed : closing.all (·.endsConnection) = true
    · rw [Remote.reply?, if_pos hclosed] at h
      rw [run_replies_of_all hclosed]
      rcases receive_of_incomplete h with ⟨elapsed, error, hfail⟩ | ⟨reply, elapsed, hfull, heq⟩
      · rw [hfail]
        exact .inr (.inl ⟨rfl, rfl⟩)
      · exact .inr (.inr ⟨_, reply, elapsed, hfull, heq⟩)
    · cases closing with
      | none => exact absurd rfl hclosed
      | some cause =>
        rw [run_replies_of_failed (Bool.eq_false_iff.mpr hclosed)]
        exact .inr (.inl ⟨rfl, rfl⟩)

/-- A message that the handler is given is the whole reply, and a reply that is a message is given
to the handler. -/
theorem accepts_run_iff :
    (∃ block ∈ (run handler limit state remote).calls, Message.decode block = .ok m) ↔
      ∃ reply, remote.reply? = some reply ∧ Message.decode reply = .ok m := by
  cases hreply : remote.reply? with
  | some reply =>
    rw [run_of_reply? hreply, accepts_finish_iff]
    simp only [Option.some.injEq, exists_eq_left']
  | none =>
    refine iff_of_false (fun h => ?_) nofun
    rcases run_of_no_reply hreply with ⟨hcalls, -⟩ | ⟨hcalls, -⟩ | ⟨_, reply, _, hfull, heq⟩
    · rw [hcalls] at h
      simp at h
    · rw [hcalls] at h
      exact not_accepts_request h
    · -- Accepted bytes are too few to fill the buffer.
      rw [heq] at h
      exact Message.not_decode_of_full hfull (accepts_finish_iff.mp h)

/-- What a handler makes of a complete reply that is a message. -/
theorem finish_of_decode (h : Message.decode reply = .ok m) :
    finish handler state request reply elapsed =
      ⟨(handler state reply).1, [[], reply], some request, 0, elapsed, none⟩ := by
  obtain ⟨code, fields, rfl⟩ := List.exists_cons_of_ne_nil (Message.ne_nil_of_decode h)
  rw [finish, Message.take_of_decode h]

/-- A reply that is a message is handed over as a whole. -/
theorem calls_run_of_decode (hreply : remote.reply? = some reply)
    (h : Message.decode reply = .ok m) : (run handler limit state remote).calls = [[], reply] := by
  rw [run_of_reply? hreply]
  exact calls_finish_of_decode h

end Exchange

/-! ## Sessions -/

/-- The handler of a session is given the blocks in their order, with an empty buffer
for the reply. -/
theorem calls_serve {σ : Type} (handler : ReplyHandler σ) (state : σ) (buffers : Buffers)
    (bs : List Bytes) :
    (serve handler state buffers (bs.map .block ++ [.closed])).calls = bs.map (·, []) := by
  obtain ⟨_, hserve⟩ := serve_blocks handler state buffers bs [.closed] trivial
  rw [hserve]

/-- The first block is as much as fits into the buffer. -/
theorem blocks_eq_cons {bytes : Bytes} (h : bytes ≠ []) :
    blocks bytes = bytes.take maxMessageSize :: blocks (bytes.drop maxMessageSize) := by
  rw [blocks, if_neg (by simpa using h)]

/-- Bytes that are a message are one block. -/
theorem blocks_of_decode {bytes : Bytes} {m : Message} (h : Message.decode bytes = .ok m) :
    blocks bytes = [bytes] := by
  have htake := Message.take_of_decode h
  have hdrop : bytes.drop maxMessageSize = [] := by
    have hsplit := bytes.take_append_drop maxMessageSize
    rwa [htake, List.append_right_eq_self] at hsplit
  rw [blocks_eq_cons (Message.ne_nil_of_decode h), htake, hdrop, blocks]
  rfl

/-- A session in which one message is sent is one call of its handler. -/
theorem converse_of_decode {σ : Type} (handler : Handler σ) (state : σ) {bytes : Bytes}
    {m : Message} (h : Message.decode bytes = .ok m) :
    (converse handler state bytes).state = (handler state bytes).1 ∧
      (converse handler state bytes).written = (handler state bytes).2.sent := by
  obtain ⟨_, hserve⟩ :=
    serve_blocks handler.appending state Buffers.empty [bytes] [.closed] trivial
  rw [converse, blocks_of_decode h, hserve, ← handler.appending.flatMap_sent_answers]
  exact ⟨rfl, List.append_nil _⟩

/-- Accepted bytes are at most 806, so that the limit of what is read at once cuts no message and
makes none: the bytes up to the limit are a message exactly if all the bytes are. In an exchange the
handler is given a message exactly if the other side's whole reply is that message, and then it is
given the reply as it came. In a session it is given a message as one block, and a first block that
is a message is all that was sent. -/
theorem accepted_fits_buffer :
    (∀ (bytes : Bytes) (m : Message), Message.decode bytes = .ok m → bytes.length ≤ 806) ∧
    (∀ (bytes : Bytes) (m : Message),
      Message.decode (bytes.take maxMessageSize) = .ok m ↔ Message.decode bytes = .ok m) ∧
    (∀ (σ : Type) (handler : Handler σ) (limit : Nat) (state : σ) (remote : Remote) (m : Message),
      ((∃ block ∈ (Exchange.run handler limit state remote).calls, Message.decode block = .ok m) ↔
        ∃ reply, remote.reply? = some reply ∧ Message.decode reply = .ok m) ∧
      ∀ reply, remote.reply? = some reply → Message.decode reply = .ok m →
        (Exchange.run handler limit state remote).calls = [[], reply]) ∧
    ∀ (σ : Type) (handler : Handler σ) (state : σ) (bytes : Bytes) (m : Message),
      (Message.decode bytes = .ok m → (converse handler state bytes).calls = [(bytes, [])]) ∧
      ∀ first others, (converse handler state bytes).calls = first :: others →
        (Message.decode first.1 = .ok m ↔ Message.decode bytes = .ok m) := by
  refine ⟨fun _ _ => Message.length_le_of_decode, fun _ _ => Message.decode_take_iff, ?_, ?_⟩
  · intro σ handler limit state remote m
    exact ⟨Exchange.accepts_run_iff, fun reply => Exchange.calls_run_of_decode⟩
  · intro σ handler state bytes m
    -- Each block of the session is one call of the handler.
    have hcalls : (converse handler state bytes).calls = (blocks bytes).map (·, []) :=
      calls_serve _ _ _ _
    rw [hcalls]
    refine ⟨fun h => by rw [blocks_of_decode h]; rfl, fun first others hfirst => ?_⟩
    have hne : bytes ≠ [] := by
      rintro rfl
      rw [blocks] at hfirst
      cases hfirst
    rw [blocks_eq_cons hne, List.map_cons] at hfirst
    rw [← (List.cons.inj hfirst).1]
    exact Message.decode_take_iff

/-- A text of the longest kind. -/
def longestText : Bytes := Utf8.encode "0000:0000:0000:0000:0000:ffff:255.255.255.255".toList

/-- A full table of peers with addresses that have texts of the longest kind. -/
def longestTable : PeerTable :=
  ⟨⟨7⟩, List.replicate 16 ⟨.v6 ⟨[0, 0, 0, 0, 0, 0xffff, 0xffff, 0xffff], rfl⟩, 43210, ⟨7⟩⟩⟩

/-- The bytes of `longestTable` in the longest texts. -/
def longestBytes : Bytes :=
  (Message.clientList ⟨7⟩ longestTable).spelled (longestTable.peers.map fun _ => longestText)

/-- The longest bytes that are accepted. They are handed over as a whole although they come in two
pieces, and not at all if so many bytes follow that the limit cuts them. -/
theorem accepted_fits_buffer_longest :
    Message.decode longestBytes = .ok (.clientList ⟨7⟩ longestTable) ∧
      longestBytes.length = 806 ∧
      (Exchange.run (fun _ _ => ((), Answer.none)) 2000 ()
        (.answers [longestBytes.take 400, longestBytes.drop 400])).calls = [[], longestBytes] ∧
      (converse (fun _ _ => ((), Answer.none)) () longestBytes).calls = [(longestBytes, [])] ∧
      ¬∃ block ∈ (Exchange.run (fun _ _ => ((), Answer.none)) 2000 ()
          (.answers [longestBytes, List.replicate 300 0])).calls,
        Message.decode block = .ok (.clientList ⟨7⟩ longestTable) := by
  have htext : IpAddress.HasText (.v6 ⟨[0, 0, 0, 0, 0, 0xffff, 0xffff, 0xffff], rfl⟩) longestText :=
    ⟨by decide +kernel, _, Utf8.decode?_encode _, by decide +kernel⟩
  have haccepted : Message.decode longestBytes = .ok (.clientList ⟨7⟩ longestTable) := by
    refine Message.decode_eq_ok_iff.mpr ⟨Nat.le_refl 16, _, ?_, rfl⟩
    refine List.forall₂_map_left_iff.mpr (List.forall₂_same.mpr fun p hp => ?_)
    rw [List.eq_of_mem_replicate hp]
    exact htext
  have hlen : longestBytes.length = 806 := by decide +kernel
  obtain ⟨hbound, -, hexchange, hsession⟩ := accepted_fits_buffer
  refine ⟨haccepted, hlen, ?_, ?_, ?_⟩
  · refine (hexchange Unit _ 2000 () _ _).2 longestBytes ?_ haccepted
    rw [Remote.reply?_answers, List.flatten_cons, List.flatten_singleton, List.take_append_drop]
  · exact (hsession Unit _ () longestBytes _).1 haccepted
  · -- The longest message with more behind it is longer than any message.
    intro h
    obtain ⟨reply, hreply, hdecode⟩ := (hexchange Unit _ 2000 () _ _).1.mp h
    have hle := hbound reply _ hdecode
    rw [← Option.some.inj hreply, List.flatten_cons, List.flatten_singleton, List.length_append,
      List.length_replicate, hlen] at hle
    omega

end Ensemble
