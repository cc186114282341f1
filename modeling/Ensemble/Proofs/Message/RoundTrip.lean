import Ensemble.Message.Decode
import Ensemble.Proofs.Address.RoundTrip

/-!
# Written messages are read back

A reader `Reads` a value from the bytes of its field if it yields that value whatever follows and
leaves what follows untouched. Every reader of a field reads what the writer of the field wrote, the
readers are put together as the writers are, and a whole message leaves nothing over.

* `Utf8.decode?_encode` — a text survives its encoding.
* `Reader.message_reads` — the fields of a message are read back, for every kind.
* `wire_round_trip` — a message that has bytes is read back from them, whatever its addresses.
-/

namespace Ensemble

/-- The encoding of a text decodes to the text. -/
theorem Utf8.decode?_encode (text : List Char) : Utf8.decode? (Utf8.encode text) = some text := by
  have hbytes : (⟨(Utf8.encode text).toArray⟩ : ByteArray) = (String.ofList text).toByteArray := by
    rw [String.toByteArray_ofList]
    exact ByteArray.ext List.data_toByteArray.symm
  have hvalid : (⟨(Utf8.encode text).toArray⟩ : ByteArray).IsValidUTF8 := by
    rw [hbytes]
    exact (String.ofList text).isValidUTF8
  have htext : String.fromUTF8 _ hvalid = String.ofList text := String.toByteArray_inj.mp hbytes
  rw [Utf8.decode?, String.fromUTF8?, dif_pos hvalid, htext, Option.map_some, String.toList_ofList]

/-- Bytes that decode to a text are the encoding of the text. -/
theorem Utf8.eq_encode_of_decode? {bytes : Bytes} {text : List Char}
    (h : Utf8.decode? bytes = some text) : bytes = Utf8.encode text := by
  obtain ⟨chars, rfl⟩ : ∃ chars, bytes = Utf8.encode chars := by
    rw [Utf8.decode?, String.fromUTF8?] at h
    split at h
    · rename_i hvalid
      obtain ⟨chars, hchars⟩ := hvalid
      have hdata : bytes.toArray = (Utf8.encode chars).toArray :=
        (congrArg ByteArray.data hchars).trans List.data_toByteArray
      exact ⟨chars, congrArg Array.toList hdata⟩
    · cases h
  rw [Utf8.decode?_encode] at h
  rw [Option.some.inj h]

namespace Reader

variable {α β : Type}

/-- The reader takes exactly these bytes for this value, whatever follows. -/
def Reads (r : Reader α) (bytes : Bytes) (x : α) : Prop :=
  ∀ rest, r (bytes ++ rest) = .ok (x, rest)

/-! ## Putting readers together -/

/-- Nothing is read from nothing. -/
theorem reads_pure (x : α) : Reads (pure x) [] x := fun _ => rfl

/-- Two fields in a row. -/
theorem Reads.bind {r : Reader α} {f : α → Reader β} {first second : Bytes} {x : α} {y : β}
    (hr : Reads r first x) (hf : Reads (f x) second y) : Reads (r >>= f) (first ++ second) y := by
  intro rest
  show (r (first ++ second ++ rest) >>= fun p => f p.1 p.2) = .ok (y, rest)
  rw [List.append_assoc, hr (second ++ rest)]
  exact hf rest

/-- A field from which a value is computed. -/
theorem Reads.map {r : Reader α} {bytes : Bytes} {x : α} (hr : Reads r bytes x) (f : α → β) :
    Reads (do let x ← r; pure (f x)) bytes (f x) := by
  have h : Reads (r >>= fun x => pure (f x)) (bytes ++ []) (f x) := hr.bind (reads_pure (f x))
  rwa [List.append_nil] at h

/-! ## Numbers and flags -/

theorem byte_reads (b : UInt8) : Reads byte [b] b := fun _ => rfl

theorem word16_reads (w : UInt16) : Reads word16 (Wire.word16 w) w := by
  intro rest
  show Except.ok (UInt16.ofNat ((w >>> 8).toUInt8.toNat * 256 + w.toUInt8.toNat), rest) = _
  rw [ofNat_two_bytes]

/-- The byte that stands a number of bits above the lowest one of a word. -/
theorem toNat_toUInt8_shiftRight (w : UInt32) (k : Nat) (hk : k < 32) :
    (w >>> UInt32.ofNat k).toUInt8.toNat = (w.toNat >>> k) % 256 := by
  rw [UInt32.toNat_toUInt8, UInt32.toNat_shiftRight, UInt32.toNat_ofNat',
    Nat.mod_eq_of_lt (by omega : k % 2 ^ 32 < 32), Nat.mod_eq_of_lt (by omega : k < 2 ^ 32)]

/-- The four bytes of a word make up the word. -/
theorem ofNat_four_bytes (w : UInt32) :
    UInt32.ofNat ((((w >>> 24).toUInt8.toNat * 256 + (w >>> 16).toUInt8.toNat) * 256 +
      (w >>> 8).toUInt8.toNat) * 256 + w.toUInt8.toNat) = w := by
  have hw : w.toNat < 4294967296 := w.toNat_lt
  have h24 : (w >>> 24).toUInt8.toNat = (w.toNat >>> 24) % 256 :=
    toNat_toUInt8_shiftRight w 24 (by omega)
  have h16 : (w >>> 16).toUInt8.toNat = (w.toNat >>> 16) % 256 :=
    toNat_toUInt8_shiftRight w 16 (by omega)
  have h8 : (w >>> 8).toUInt8.toNat = (w.toNat >>> 8) % 256 :=
    toNat_toUInt8_shiftRight w 8 (by omega)
  have h0 : w.toUInt8.toNat = w.toNat % 256 := UInt32.toNat_toUInt8 w
  apply UInt32.toNat_inj.mp
  rw [h24, h16, h8, h0, UInt32.toNat_ofNat']
  omega

theorem word32_reads (w : UInt32) : Reads word32 (Wire.word32 w) w := by
  intro rest
  show Except.ok (UInt32.ofNat ((((w >>> 24).toUInt8.toNat * 256 + (w >>> 16).toUInt8.toNat) * 256 +
      (w >>> 8).toUInt8.toNat) * 256 + w.toUInt8.toNat), rest) = _
  rw [ofNat_four_bytes]

theorem flag_reads (b : Bool) : Reads flag [Wire.flag b] b := by
  cases b <;> exact fun _ => rfl

/-- A song is read back, negative numbers included. -/
theorem song_reads (s : SongId) : Reads song (Wire.song s) s := by
  have h := (word32_reads s.toUInt32).map UInt32.toInt32
  rwa [Int32.toInt32_toUInt32] at h

theorem peerId_reads (id : PeerId) : Reads peerId (Wire.word16 id.number) id :=
  (word16_reads id.number).map PeerId.mk

theorem control_reads (op : ControlOp) : Reads control [op.code] op := by
  cases op <;> exact fun _ => rfl

theorem phase_reads (p : ElectionPhase) : Reads phase [p.code] p := by
  cases p <;> exact fun _ => rfl

/-! ## Lists -/

/-- Bytes are read back if their number is known. -/
theorem take_reads (bytes : Bytes) : Reads (take bytes.length) bytes bytes := by
  intro rest
  rw [take, if_neg (by rw [List.length_append]; omega), List.take_left, List.drop_left]

/-- Values that are read back one by one are read back in a row. -/
theorem many_reads {item : Reader α} {write : α → Bytes} (h : ∀ x, Reads item (write x) x)
    (xs : List α) : Reads (many item xs.length) (xs.flatMap write) xs := by
  induction xs with
  | nil => exact reads_pure []
  | cons x rest ih => exact (h x).bind (ih.map (x :: ·))

/-! ## Statuses, addresses and peers -/

/-- The byte of a small count holds the count. -/
theorem toNat_ofNat_of_le {n : Nat} (h : n ≤ 255) : (UInt8.ofNat n).toNat = n := by
  rw [UInt8.toNat_ofNat']
  omega

/-- A status that was written is read back, as its queue is short enough to be counted in a byte. -/
theorem status_reads {s : PlaybackStatus} {bytes : Bytes} (h : Wire.status s = .ok bytes) :
    Reads status bytes s := by
  rw [Wire.status] at h
  split at h
  · cases h
  · rename_i hlen
    -- The count is written as it is, since the queue fits.
    have hcount : (UInt8.ofNat s.queue.length).toNat = s.queue.length :=
      toNat_ofNat_of_le (by rw [maxQueue] at hlen; omega)
    have hshape : bytes = Wire.song s.song ++ (Wire.word32 s.elapsed ++ ([Wire.flag s.paused] ++
        ([UInt8.ofNat s.queue.length] ++ s.queue.flatMap Wire.song))) := by
      cases h
      exact List.append_assoc _ _ _
    rw [hshape, status]
    refine (song_reads s.song).bind ((word32_reads s.elapsed).bind ?_)
    refine (flag_reads s.paused).bind ((byte_reads (UInt8.ofNat s.queue.length)).bind ?_)
    rw [hcount, if_neg hlen]
    exact (many_reads song_reads s.queue).map (PlaybackStatus.mk s.song s.elapsed s.paused)

/-- A text of an address is read as the address, whichever of its texts it is. -/
theorem address_reads_of_parse? {text : Bytes} {chars : List Char} {a : IpAddress}
    (h : text.length ≤ 255) (hchars : Utf8.decode? text = some chars)
    (ha : IpAddress.parse? chars = some a) :
    Reads address (UInt8.ofNat text.length :: text) a := by
  have hcount := toNat_ofNat_of_le h
  have htext : Reads (take (UInt8.ofNat text.length).toNat) text text := by
    rw [hcount]
    exact take_reads _
  rw [← List.singleton_append, ← List.append_nil text, address]
  refine (byte_reads _).bind (Reads.bind (by rw [List.append_nil]; exact htext) ?_)
  simp only [hchars, ha]
  exact reads_pure a

/-- A written address is valid UTF-8 and an address. -/
theorem address_reads {a : IpAddress} (h : (Utf8.encode a.render).length ≤ 255) :
    Reads address (UInt8.ofNat (Utf8.encode a.render).length :: Utf8.encode a.render) a :=
  address_reads_of_parse? h (Utf8.decode?_encode a.render) (IpAddress.parse?_render a)

/-- A peer that was written is read back. -/
theorem peer_reads {p : Peer} {bytes : Bytes} (h : Wire.peer p = .ok bytes) :
    Reads peer bytes p := by
  simp only [Wire.peer] at h
  split at h
  · cases h
  · rename_i hlen
    have hshape : bytes = (UInt8.ofNat (Utf8.encode p.address.render).length ::
        Utf8.encode p.address.render) ++ (Wire.word16 p.port ++ Wire.word16 p.id.number) := by
      cases h
      rw [List.append_assoc, List.cons_append]
    rw [hshape, peer]
    refine (address_reads (by omega)).bind ((word16_reads p.port).bind ?_)
    exact (peerId_reads p.id).map (Peer.mk p.address p.port)

/-- Peers that were written are read back one after the other. -/
theorem many_peer_reads {ps : List Peer} {bytes : Bytes} (h : Wire.peerFields ps = .ok bytes) :
    Reads (many peer ps.length) bytes ps := by
  -- Induction on the peers: what is left behind one is the wire form of the rest.
  induction ps generalizing bytes with
  | nil =>
    cases h
    exact reads_pure []
  | cons p rest ih =>
    rw [Wire.peerFields] at h
    split at h
    · cases h
    · rename_i first hfirst
      split at h
      · cases h
      · rename_i others hothers
        cases h
        exact (peer_reads hfirst).bind ((ih hothers).map (p :: ·))

/-- A list of peers that was written is read back, as its length fits in a byte. -/
theorem peers_reads {ps : List Peer} {bytes : Bytes} (h : Wire.peers ps = .ok bytes) :
    Reads peers bytes ps := by
  rw [Wire.peers] at h
  split at h
  · cases h
  · rename_i hlen
    obtain ⟨fields, hfields, rfl⟩ : ∃ fields, Wire.peerFields ps = .ok fields ∧
        UInt8.ofNat ps.length :: fields = bytes := by
      cases hf : Wire.peerFields ps with
      | error e => rw [hf] at h; cases h
      | ok fields => rw [hf] at h; cases h; exact ⟨fields, rfl, rfl⟩
    have hcount : (UInt8.ofNat ps.length).toNat = ps.length :=
      toNat_ofNat_of_le (by rw [maxPeers] at hlen; omega)
    rw [← List.singleton_append, peers]
    refine (byte_reads _).bind ?_
    rw [hcount, if_neg hlen]
    exact many_peer_reads hfields

/-! ## Messages -/

/-- The fields of a message are read back. -/
theorem message_reads {m : Message} {bytes : Bytes} (h : Wire.fields m = .ok bytes) :
    Reads (message m.kind) bytes m := by
  -- One case per kind; only lists and queues can have failed to be written.
  cases m with
  | control op =>
    cases h
    exact (control_reads op).map Message.control
  | changeSong s enqueue =>
    cases h
    exact (song_reads s).bind ((flag_reads enqueue).map (Message.changeSong s))
  | disconnect listenPort =>
    cases h
    exact (word16_reads listenPort).map Message.disconnect
  | connect listenPort =>
    cases h
    exact (word16_reads listenPort).map Message.connect
  | queryStatus =>
    cases h
    exact reads_pure Message.queryStatus
  | sendStatus s => exact (status_reads h).map Message.sendStatus
  | election p =>
    cases h
    exact (phase_reads p).map Message.election
  | clientList ownId table =>
    obtain ⟨list, hlist, rfl⟩ : ∃ list, Wire.peers table.peers = .ok list ∧
        Wire.word16 ownId.number ++ (Wire.word16 table.hint.number ++ list) = bytes := by
      rw [Wire.fields] at h
      cases hl : Wire.peers table.peers with
      | error e => rw [hl] at h; cases h
      | ok list => rw [hl] at h; cases h; exact ⟨list, rfl, (List.append_assoc _ _ _).symm⟩
    refine (peerId_reads ownId).bind ((peerId_reads table.hint).bind ?_)
    exact (peers_reads hlist).map fun ps => Message.clientList ownId ⟨table.hint, ps⟩
  | clientListUpdate ps => exact (peers_reads h).map Message.clientListUpdate

end Reader

/-- A message that has bytes begins with the byte of its kind, followed by its fields. -/
theorem Message.exists_fields_of_encode {m : Message} {bytes : Bytes} (h : m.encode = .ok bytes) :
    ∃ fields, Wire.fields m = .ok fields ∧ bytes = m.kind.code :: fields := by
  rw [encode] at h
  split at h
  · cases h
  · rename_i fields hf
    simp only at h
    split at h
    · cases h
      exact ⟨fields, hf, rfl⟩
    · cases h

/-- Bytes are a message if its fields are read from all that follows the byte of its kind. -/
theorem Message.decode_of_reads {m : Message} {kind : MessageKind} {fields : Bytes}
    (h : (Reader.message kind).Reads fields m) : decode (kind.code :: fields) = .ok m := by
  have hread := h []
  rw [List.append_nil] at hread
  simp only [decode, MessageKind.ofCode?_code, hread]

/-- A message is read back from its bytes. -/
theorem Message.decode_of_encode {m : Message} {bytes : Bytes} (h : m.encode = .ok bytes) :
    decode bytes = .ok m := by
  obtain ⟨fields, hfields, rfl⟩ := exists_fields_of_encode h
  exact decode_of_reads (Reader.message_reads hfields)

/-- A message that has bytes is read back from them, and every address from its text. -/
theorem wire_round_trip :
    (∀ (m : Message) (bytes : Bytes), m.encode = .ok bytes → Message.decode bytes = .ok m) ∧
      ∀ a : IpAddress, IpAddress.parse? a.render = some a :=
  ⟨fun _ _ h => Message.decode_of_encode h, IpAddress.parse?_render⟩

/-- A table with every shape of address, whose hint belongs to none of its peers. -/
def mixedTable : PeerTable :=
  ⟨⟨7⟩,
    [⟨.v4 ⟨10, 0, 0, 1⟩, 4001, ⟨17⟩⟩,
      ⟨.v6 ⟨[0, 0, 0, 0, 0, 0xffff, 0x0102, 0x0304], rfl⟩, 80, ⟨65535⟩⟩,
      ⟨.v6 ⟨[0x2001, 0xdb8, 0, 0, 1, 0, 0, 1], rfl⟩, 43210, ⟨0⟩⟩]⟩

/-- The bytes of `mixedTable` for the peer with the id 513. -/
def mixedTableBytes : Bytes :=
  [7, 2, 1, 0, 7, 3] ++
    (8 :: Utf8.encode "10.0.0.1".toList ++ [15, 161, 0, 17]) ++
    (14 :: Utf8.encode "::ffff:1.2.3.4".toList ++ [0, 80, 255, 255]) ++
    (17 :: Utf8.encode "2001:db8::1:0:0:1".toList ++ [168, 202, 0, 0])

/-- A table with addresses of both families, byte by byte. -/
theorem wire_round_trip_mixedTable :
    (Message.clientList ⟨513⟩ mixedTable).encode = .ok mixedTableBytes ∧
      Message.decode mixedTableBytes = .ok (.clientList ⟨513⟩ mixedTable) := by
  have h : (Message.clientList ⟨513⟩ mixedTable).encode = .ok mixedTableBytes := by decide +kernel
  exact ⟨h, wire_round_trip.1 _ _ h⟩

end Ensemble
