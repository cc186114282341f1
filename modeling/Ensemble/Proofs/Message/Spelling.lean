import Ensemble.Proofs.Message.Exact
import Ensemble.Proofs.Message.Size

/-!
# The spellings of a message

The bytes of a message are fixed but for one thing: an address may stand in any text that is read as
the address, with the length of that text in front. `Message.spelled` is the wire form with given
texts in the places of the addresses, and `Message.canonicalTexts` are the texts that written
addresses have.

* `Message.decode_eq_ok_iff` — the accepted bytes are the spellings of the messages within bounds.
* `Message.encode_eq_ok_iff` — the written bytes are the spellings in canonical texts.
* `accepted_respelled` — what is accepted is written again with every address in canonical text.
-/

namespace Ensemble

namespace IpAddress

/-- The bytes are a text of the address: their number fits into the length byte, and they are read
as the address. -/
structure HasText (a : IpAddress) (text : Bytes) : Prop where
  length_le : text.length ≤ 255
  exists_chars : ∃ chars, Utf8.decode? text = some chars ∧ IpAddress.parse? chars = some a

/-- The text in which the address is written. -/
def canonicalText (a : IpAddress) : Bytes := Utf8.encode a.render

/-- The text of an address is short enough to be counted in a byte. -/
theorem length_canonicalText_le (a : IpAddress) : a.canonicalText.length ≤ 255 := by
  have hlen := a.length_render_le
  rw [canonicalText, a.length_encode_render]
  omega

/-- An address has the text that is written for it. -/
theorem hasText_canonicalText (a : IpAddress) : a.HasText a.canonicalText :=
  ⟨a.length_canonicalText_le, a.render, Utf8.decode?_encode a.render, parse?_render a⟩

end IpAddress

/-! ## The wire form with given texts -/

namespace Wire

/-- The fields of a peer whose address stands in a text. -/
def peerSpelled (text : Bytes) (p : Peer) : Bytes :=
  UInt8.ofNat text.length :: text ++ (word16 p.port ++ word16 p.id.number)

/-- A list of peers whose addresses stand in texts, in order. -/
def peersSpelled (texts : List Bytes) (ps : List Peer) : Bytes :=
  UInt8.ofNat ps.length :: (List.zipWith peerSpelled texts ps).flatten

/-- The fields of a message whose peers' addresses stand in texts, in order. -/
def fieldsSpelled (texts : List Bytes) : Message → Bytes
  | .control op => [op.code]
  | .changeSong s enqueue => song s ++ [flag enqueue]
  | .disconnect listenPort => word16 listenPort
  | .connect listenPort => word16 listenPort
  | .queryStatus => []
  | .sendStatus s => song s.song ++ word32 s.elapsed ++
      flag s.paused :: UInt8.ofNat s.queue.length :: s.queue.flatMap song
  | .election phase => [phase.code]
  | .clientList ownId table =>
      word16 ownId.number ++ (word16 table.hint.number ++ peersSpelled texts table.peers)
  | .clientListUpdate ps => peersSpelled texts ps

end Wire

namespace Message

/-- The peers that the message lists. -/
def peers : Message → List Peer
  | .clientList _ table => table.peers
  | .clientListUpdate ps => ps
  | _ => []

/-- The texts in which the addresses of the message are written. -/
def canonicalTexts (m : Message) : List Bytes := m.peers.map (·.address.canonicalText)

/-- The wire form of a message whose peers' addresses stand in texts, in order. -/
def spelled (m : Message) (texts : List Bytes) : Bytes :=
  m.kind.code :: Wire.fieldsSpelled texts m

/-- The bytes are the wire form of the message, with these texts for the addresses. -/
structure SpelledIn (m : Message) (texts : List Bytes) (bytes : Bytes) : Prop where
  hasTexts : List.Forall₂ (fun text p => p.address.HasText text) texts m.peers
  eq_spelled : bytes = m.spelled texts

end Message

/-! ## Written messages -/

namespace Wire

/-- A peer is written with the canonical text of its address. -/
theorem peer_eq (p : Peer) : peer p = .ok (peerSpelled p.address.canonicalText p) := by
  have hlen : ¬255 < (Utf8.encode p.address.render).length :=
    Nat.not_lt_of_le p.address.length_canonicalText_le
  simp only [peer, if_neg hlen]
  rw [List.append_assoc]
  rfl

/-- Peers are written one after the other with their canonical texts. -/
theorem peerFields_eq (ps : List Peer) :
    peerFields ps =
      .ok (List.zipWith peerSpelled (ps.map (·.address.canonicalText)) ps).flatten := by
  induction ps with
  | nil => rfl
  | cons p rest ih =>
    simp only [peerFields, peer_eq, ih]
    rfl

/-- A list of peers that is short enough is written with their canonical texts. -/
theorem peers_eq {ps : List Peer} (h : ps.length ≤ maxPeers) :
    peers ps = .ok (peersSpelled (ps.map (·.address.canonicalText)) ps) := by
  rw [peers, if_neg (Nat.not_lt_of_le h), peerFields_eq]
  rfl

/-- The fields that are written are those with the canonical texts. -/
theorem fields_eq {m : Message} (h : m.WithinBounds) :
    fields m = .ok (fieldsSpelled m.canonicalTexts m) := by
  cases m with
  | sendStatus s => rw [fields, status, if_neg (Nat.not_lt_of_le h)]; rfl
  | clientList ownId table =>
    rw [fields, peers_eq h]
    exact congrArg Except.ok (List.append_assoc _ _ _)
  | clientListUpdate ps => exact peers_eq h
  | control _ | changeSong _ _ | disconnect _ | connect _ | queryStatus | election _ => rfl

end Wire

/-- The bytes that are written are the spelling in canonical texts. -/
theorem Message.encode_eq_ok_iff {m : Message} {bytes : Bytes} :
    m.encode = .ok bytes ↔ m.WithinBounds ∧ bytes = m.spelled m.canonicalTexts := by
  -- Within the bounds there is something written, and the canonical spelling is all it can be.
  have hspelled : m.WithinBounds → m.encode = .ok (m.spelled m.canonicalTexts) := by
    intro h
    obtain ⟨written, hencode, -⟩ := exists_encode h
    obtain ⟨fields, hfields, rfl⟩ := exists_fields_of_encode hencode
    rw [Wire.fields_eq h] at hfields
    rw [hencode, spelled, Except.ok.inj hfields]
  constructor
  · intro h
    have hwithin : m.WithinBounds := by
      by_contra hbeyond
      obtain ⟨e, -, herror⟩ := encode_of_not_withinBounds hbeyond
      rw [herror] at h
      cases h
    rw [hspelled hwithin] at h
    exact ⟨hwithin, (Except.ok.inj h).symm⟩
  · rintro ⟨h, rfl⟩
    exact hspelled h

/-! ## Read messages -/

namespace Reader

/-- An address is read from its texts and from nothing else. -/
theorem reads_address_iff {bytes : Bytes} {a : IpAddress} :
    Reads address bytes a ↔ ∃ text, a.HasText text ∧ bytes = UInt8.ofNat text.length :: text := by
  constructor
  · intro h
    obtain ⟨count, b1, _, rfl, hcount, h⟩ := of_reads_bind steady_byte h
    obtain ⟨text, b2, _, rfl, htext, h⟩ := of_reads_bind (steady_take _) h
    obtain ⟨rfl, hlen⟩ := of_reads_take htext
    split at h
    · exact absurd h not_reads_refuse
    · rename_i chars hchars
      split at h
      · exact absurd h not_reads_refuse
      · rename_i a' ha
        obtain ⟨rfl, rfl⟩ := of_reads_pure h
        -- The count was a byte.
        have hle : b2.length ≤ 255 := by
          have hcount := count.toNat_lt
          omega
        refine ⟨b2, ⟨hle, chars, hchars, ha⟩, ?_⟩
        rw [eq_of_reads_byte hcount, ofNat_of_toNat_eq hlen, List.append_nil]
        rfl
  · rintro ⟨text, ⟨hle, chars, hchars, ha⟩, rfl⟩
    exact address_reads_of_parse? hle hchars ha

/-- A peer is read from its fields with any text of its address. -/
theorem reads_peer_iff {bytes : Bytes} {p : Peer} :
    Reads peer bytes p ↔ ∃ text, p.address.HasText text ∧ bytes = Wire.peerSpelled text p := by
  constructor
  · intro h
    obtain ⟨a, b1, _, rfl, ha, h⟩ := of_reads_bind steady_address h
    obtain ⟨port, b2, _, rfl, hport, h⟩ := of_reads_bind steady_word16 h
    obtain ⟨id, rfl, hid⟩ := of_reads_map steady_peerId h
    obtain ⟨text, htext, rfl⟩ := reads_address_iff.mp ha
    exact ⟨text, htext, by rw [eq_of_reads_word16 hport, eq_of_reads_peerId hid]; rfl⟩
  · rintro ⟨text, htext, rfl⟩
    refine (reads_address_iff.mpr ⟨text, htext, rfl⟩).bind ((word16_reads p.port).bind ?_)
    exact (peerId_reads p.id).map (Peer.mk p.address p.port)

/-- Peers in a row are read from their fields, each with any text of its address. -/
theorem reads_many_peer_iff {n : Nat} {bytes : Bytes} {ps : List Peer} :
    Reads (many peer n) bytes ps ↔ ps.length = n ∧ ∃ texts,
      List.Forall₂ (fun text p => p.address.HasText text) texts ps ∧
        bytes = (List.zipWith Wire.peerSpelled texts ps).flatten := by
  constructor
  · intro h
    obtain ⟨hlen, parts, hparts, rfl⟩ := of_reads_many steady_peer h
    refine ⟨hlen, ?_⟩
    clear h hlen
    -- Induction on the parts that the peers were read from, one text for each.
    induction hparts with
    | nil => exact ⟨[], .nil, rfl⟩
    | cons hfirst _ ih =>
      obtain ⟨text, htext, rfl⟩ := reads_peer_iff.mp hfirst
      obtain ⟨texts, htexts, hflatten⟩ := ih
      exact ⟨text :: texts, .cons htext htexts, by
        rw [List.flatten_cons, hflatten, List.zipWith_cons_cons, List.flatten_cons]⟩
  · rintro ⟨rfl, texts, htexts, rfl⟩
    induction htexts with
    | nil => exact reads_pure []
    | cons htext _ ih => exact (reads_peer_iff.mpr ⟨_, htext, rfl⟩).bind (ih.map (_ :: ·))

/-- A list of peers is read exactly from its spellings, with a text of each address. -/
theorem reads_peers_iff {bytes : Bytes} {ps : List Peer} :
    Reads peers bytes ps ↔ ps.length ≤ maxPeers ∧ ∃ texts,
      List.Forall₂ (fun text p => p.address.HasText text) texts ps ∧
        bytes = Wire.peersSpelled texts ps := by
  constructor
  · intro h
    obtain ⟨count, b1, _, rfl, hcount, h⟩ := of_reads_bind steady_byte h
    split at h
    · exact absurd h not_reads_refuse
    · rename_i hbound
      obtain ⟨hlen, texts, htexts, rfl⟩ := reads_many_peer_iff.mp h
      refine ⟨by omega, texts, htexts, ?_⟩
      rw [eq_of_reads_byte hcount, Wire.peersSpelled, ofNat_of_toNat_eq hlen]
      rfl
  · rintro ⟨hle, texts, htexts, rfl⟩
    have hcount : (UInt8.ofNat ps.length).toNat = ps.length :=
      toNat_ofNat_of_le (by rw [maxPeers] at hle; omega)
    rw [Wire.peersSpelled, ← List.singleton_append, peers]
    refine (byte_reads _).bind ?_
    rw [hcount, if_neg (Nat.not_lt_of_le hle)]
    exact reads_many_peer_iff.mpr ⟨rfl, texts, htexts, rfl⟩

/-- What is read as the fields of a message is within bounds, and its fields with some texts. -/
theorem exists_texts_of_reads_message {kind : MessageKind} {bytes : Bytes} {m : Message}
    (h : Reads (message kind) bytes m) :
    m.kind = kind ∧ m.WithinBounds ∧ ∃ texts,
      List.Forall₂ (fun text p => p.address.HasText text) texts m.peers ∧
        bytes = Wire.fieldsSpelled texts m := by
  -- Backwards through each reader: every field but an address has one wire form only.
  cases kind with
  | control =>
    obtain ⟨op, rfl, hop⟩ := of_reads_map steady_control h
    exact ⟨rfl, trivial, [], .nil, eq_of_reads_control hop⟩
  | changeSong =>
    obtain ⟨s, b1, _, rfl, hs, h⟩ := of_reads_bind steady_song h
    obtain ⟨enqueue, rfl, henqueue⟩ := of_reads_map steady_flag h
    refine ⟨rfl, trivial, [], .nil, ?_⟩
    rw [eq_of_reads_song hs, eq_of_reads_flag henqueue]
    rfl
  | disconnect =>
    obtain ⟨port, rfl, hport⟩ := of_reads_map steady_word16 h
    exact ⟨rfl, trivial, [], .nil, eq_of_reads_word16 hport⟩
  | connect =>
    obtain ⟨port, rfl, hport⟩ := of_reads_map steady_word16 h
    exact ⟨rfl, trivial, [], .nil, eq_of_reads_word16 hport⟩
  | queryStatus =>
    obtain ⟨rfl, rfl⟩ := of_reads_pure h
    exact ⟨rfl, trivial, [], .nil, rfl⟩
  | sendStatus =>
    obtain ⟨s, rfl, hs⟩ := of_reads_map steady_status h
    have hwritten := reads_status_iff.mp hs
    have hwithin : s.queue.length ≤ maxQueue := by
      by_contra hlong
      rw [Wire.status, if_pos (Nat.lt_of_not_le hlong)] at hwritten
      cases hwritten
    rw [Wire.status, if_neg (Nat.not_lt_of_le hwithin)] at hwritten
    exact ⟨rfl, hwithin, [], .nil, (Except.ok.inj hwritten).symm⟩
  | election =>
    obtain ⟨p, rfl, hp⟩ := of_reads_map steady_phase h
    exact ⟨rfl, trivial, [], .nil, eq_of_reads_phase hp⟩
  | clientList =>
    obtain ⟨ownId, b1, _, rfl, hown, h⟩ := of_reads_bind steady_peerId h
    obtain ⟨hint, b2, _, rfl, hhint, h⟩ := of_reads_bind steady_peerId h
    obtain ⟨ps, rfl, hps⟩ := of_reads_map steady_peers h
    obtain ⟨hwithin, texts, htexts, rfl⟩ := reads_peers_iff.mp hps
    refine ⟨rfl, hwithin, texts, htexts, ?_⟩
    rw [eq_of_reads_peerId hown, eq_of_reads_peerId hhint]
    rfl
  | clientListUpdate =>
    obtain ⟨ps, rfl, hps⟩ := of_reads_map steady_peers h
    obtain ⟨hwithin, texts, htexts, rfl⟩ := reads_peers_iff.mp hps
    exact ⟨rfl, hwithin, texts, htexts, rfl⟩

/-- The fields of a message within bounds are read back, whichever texts its addresses stand in. -/
theorem message_reads_spelled {m : Message} {texts : List Bytes} (h : m.WithinBounds)
    (htexts : List.Forall₂ (fun text p => p.address.HasText text) texts m.peers) :
    Reads (message m.kind) (Wire.fieldsSpelled texts m) m := by
  cases m with
  | clientList ownId table =>
    have hpeers : Reads peers (Wire.peersSpelled texts table.peers) table.peers :=
      reads_peers_iff.mpr ⟨h, texts, htexts, rfl⟩
    refine (peerId_reads ownId).bind ((peerId_reads table.hint).bind ?_)
    exact hpeers.map fun ps => Message.clientList ownId ⟨table.hint, ps⟩
  | clientListUpdate ps =>
    have hpeers : Reads peers (Wire.peersSpelled texts ps) ps :=
      reads_peers_iff.mpr ⟨h, texts, htexts, rfl⟩
    exact hpeers.map Message.clientListUpdate
  | control _ | changeSong _ _ | disconnect _ | connect _ | queryStatus | sendStatus _
  | election _ =>
    exact message_reads (Wire.fields_eq h)

end Reader

namespace Message

variable {m : Message} {bytes : Bytes} {texts others : List Bytes}

/-- The accepted bytes are the spellings of the messages within bounds. -/
theorem decode_eq_ok_iff :
    decode bytes = .ok m ↔ m.WithinBounds ∧ ∃ texts, m.SpelledIn texts bytes := by
  rw [decode_eq_ok_iff_reads]
  constructor
  · rintro ⟨kind, fields, rfl, hfields⟩
    obtain ⟨rfl, hwithin, texts, htexts, rfl⟩ := Reader.exists_texts_of_reads_message hfields
    exact ⟨hwithin, texts, htexts, rfl⟩
  · rintro ⟨hwithin, texts, htexts, rfl⟩
    exact ⟨m.kind, _, rfl, Reader.message_reads_spelled hwithin htexts⟩

/-- Every message is spelled in its canonical texts. -/
theorem spelledIn_canonicalTexts (m : Message) :
    m.SpelledIn m.canonicalTexts (m.spelled m.canonicalTexts) := by
  refine ⟨?_, rfl⟩
  rw [canonicalTexts, List.forall₂_map_left_iff, List.forall₂_same]
  exact fun p _ => p.address.hasText_canonicalText

/-- The length byte in front of a text tells where the text ends, so that peers determine their
texts. -/
theorem texts_eq_of_flatten_eq {ps : List Peer}
    (h : List.Forall₂ (fun text p => p.address.HasText text) texts ps)
    (h' : List.Forall₂ (fun text p => p.address.HasText text) others ps)
    (heq : (List.zipWith Wire.peerSpelled texts ps).flatten =
      (List.zipWith Wire.peerSpelled others ps).flatten) : texts = others := by
  induction h generalizing others with
  | nil =>
    cases h'
    rfl
  | @cons text p texts ps htext _ ih =>
    cases h' with
    | @cons other _ others _ hother hothers =>
      simp only [List.zipWith_cons_cons, List.flatten_cons, Wire.peerSpelled, List.cons_append,
        List.cons.injEq, List.append_assoc] at heq
      obtain ⟨hcount, htail⟩ := heq
      have hlen : text.length = other.length := by
        rw [← Reader.toNat_ofNat_of_le htext.length_le, hcount,
          Reader.toNat_ofNat_of_le hother.length_le]
      obtain ⟨rfl, hrest⟩ := List.append_inj htail hlen
      -- The port and the id stand between the text and the next peer.
      have hpeers := List.append_cancel_left (List.append_cancel_left hrest)
      rw [ih hothers hpeers]

/-- Bytes are a spelling of a message in one way only. -/
theorem SpelledIn.unique (h : m.SpelledIn texts bytes) (h' : m.SpelledIn others bytes) :
    others = texts := by
  obtain ⟨htexts, rfl⟩ := h
  obtain ⟨hothers, heq⟩ := h'
  have hfields : Wire.fieldsSpelled texts m = Wire.fieldsSpelled others m :=
    (List.cons.inj heq).2
  -- Whatever stands before the list of peers is the same in both.
  have hpeers : (List.zipWith Wire.peerSpelled texts m.peers).flatten =
      (List.zipWith Wire.peerSpelled others m.peers).flatten := by
    cases m with
    | clientList ownId table =>
      have hlist := List.append_cancel_left (List.append_cancel_left hfields)
      exact (List.cons.inj hlist).2
    | clientListUpdate ps => exact (List.cons.inj hfields).2
    | control _ | changeSong _ _ | disconnect _ | connect _ | queryStatus | sendStatus _
    | election _ => simp only [peers, List.zipWith_nil_right]
  exact (texts_eq_of_flatten_eq htexts hothers hpeers).symm

end Message

/-- Accepted bytes are a message with a text for each of its addresses. The message is written
again, with the same bytes but for the texts, which become the canonical ones of the same addresses,
and it is read back from what is written. What is written equals what was read exactly if all the
texts are canonical, and so always for the kinds of message that list no peers. The bytes that any
message has are therefore the accepted bytes with canonical texts. -/
theorem accepted_respelled :
    (∀ (bytes : Bytes) (m : Message), Message.decode bytes = .ok m →
      ∃ texts, m.SpelledIn texts bytes ∧ (∀ others, m.SpelledIn others bytes → others = texts) ∧
        m.encode = .ok (m.spelled m.canonicalTexts) ∧
        Message.decode (m.spelled m.canonicalTexts) = .ok m ∧
        (m.spelled m.canonicalTexts = bytes ↔ texts = m.canonicalTexts)) ∧
    (∀ (bytes : Bytes) (m : Message), Message.decode bytes = .ok m →
      m.kind ≠ .clientList → m.kind ≠ .clientListUpdate → m.encode = .ok bytes) ∧
    ∀ bytes : Bytes, (∃ m : Message, m.encode = .ok bytes) ↔
      ∃ m, Message.decode bytes = .ok m ∧ m.SpelledIn m.canonicalTexts bytes := by
  have hencode : ∀ (bytes : Bytes) (m : Message), Message.decode bytes = .ok m →
      m.encode = .ok (m.spelled m.canonicalTexts) := fun bytes m h =>
    Message.encode_eq_ok_iff.mpr ⟨(Message.decode_eq_ok_iff.mp h).1, rfl⟩
  refine ⟨fun bytes m h => ?_, fun bytes m h hlist hupdate => ?_, fun bytes => ⟨?_, ?_⟩⟩
  · obtain ⟨-, texts, hspelled⟩ := Message.decode_eq_ok_iff.mp h
    refine ⟨texts, hspelled, fun others => hspelled.unique, hencode bytes m h,
      Message.decode_of_encode (hencode bytes m h), fun heq => ?_, fun heq => ?_⟩
    · have hcanonical := m.spelledIn_canonicalTexts
      rw [heq] at hcanonical
      exact hcanonical.unique hspelled
    · rw [hspelled.eq_spelled, heq]
  · obtain ⟨-, texts, hspelled⟩ := Message.decode_eq_ok_iff.mp h
    -- A message without peers has no text to spell.
    have hnone : m.peers = [] := by
      cases m with
      | clientList _ _ => exact absurd rfl hlist
      | clientListUpdate _ => exact absurd rfl hupdate
      | control _ | changeSong _ _ | disconnect _ | connect _ | queryStatus | sendStatus _
      | election _ => rfl
    have htexts := hspelled.hasTexts
    rw [hnone, List.forall₂_nil_right_iff] at htexts
    rw [hencode bytes m h, hspelled.eq_spelled, htexts, Message.canonicalTexts, hnone]
    rfl
  · rintro ⟨m, h⟩
    obtain ⟨-, rfl⟩ := Message.encode_eq_ok_iff.mp h
    exact ⟨m, Message.decode_of_encode h, m.spelledIn_canonicalTexts⟩
  · rintro ⟨m, h, hcanonical⟩
    exact ⟨m, by rw [hencode bytes m h, ← hcanonical.eq_spelled]⟩

/-- Peers, the first of which has an embedded address. -/
def embeddedPeers : List Peer :=
  [⟨.v6 ⟨[0, 0, 0, 0, 0, 0xffff, 0x0a00, 0x0007], rfl⟩, 80, ⟨65535⟩⟩,
    ⟨.v4 ⟨10, 0, 0, 1⟩, 4001, ⟨17⟩⟩]

/-- The list of `embeddedPeers` with a text for the first address. -/
def embeddedPeersBytes (text : String) : Bytes :=
  [8, 2] ++
    (UInt8.ofNat text.length :: Utf8.encode text.toList ++ [0, 80, 255, 255]) ++
    (8 :: Utf8.encode "10.0.0.1".toList ++ [15, 161, 0, 17])

/-- The zeros of the embedded address are spelled out and its letters stand in upper case, and both
are gone from what is written again. A message without addresses stays as it is. -/
theorem accepted_respelled_embeddedPeers :
    (Message.clientListUpdate embeddedPeers).encode =
        .ok (embeddedPeersBytes "::ffff:10.0.0.7") ∧
      Message.decode (embeddedPeersBytes "0:0:0:0:0:FFFF:10.0.0.7") =
        .ok (.clientListUpdate embeddedPeers) ∧
      Message.decode (embeddedPeersBytes "::ffff:10.0.0.7") =
        .ok (.clientListUpdate embeddedPeers) ∧
      (Message.changeSong 4 true).encode = .ok [1, 0, 0, 0, 4, 1] := by
  have haccepted : Message.decode (embeddedPeersBytes "0:0:0:0:0:FFFF:10.0.0.7") =
      .ok (.clientListUpdate embeddedPeers) := by decide +kernel
  have hcanonical : (Message.clientListUpdate embeddedPeers).spelled
      (Message.clientListUpdate embeddedPeers).canonicalTexts =
        embeddedPeersBytes "::ffff:10.0.0.7" := by decide +kernel
  obtain ⟨_, _, _, hwritten, hreread, _⟩ := accepted_respelled.1 _ _ haccepted
  rw [hcanonical] at hwritten hreread
  have hsong := accepted_respelled.2.1 [1, 0, 0, 0, 4, 1] (.changeSong 4 true) (by decide +kernel)
    nofun nofun
  exact ⟨hwritten, haccepted, hreread, hsong⟩

end Ensemble
