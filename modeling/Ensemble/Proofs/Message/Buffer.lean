import Ensemble.Proofs.Message.Size

/-!
# Messages in a buffer

A writer `Writes` the bytes of a field, if it has any, by adding them to whatever is in the buffer;
if the field has none, it fails with the same error and has done nothing but add. Writers of fields
are put together as the fields are, so that a message is written as a whole or, once the buffer is
cut back, not at all.

* `Writer.message_writes` — a message is written as its fields say, for every kind.
* `Message.appendTo_eq` — writing into a buffer is appending the bytes of the message.
* `appendTo_iff_withinBounds` — when that succeeds, what is in the buffer afterwards, and what the
  error is.
-/

namespace Ensemble

namespace Writer

/-- On every buffer the writer adds these bytes, or fails with this error after adding something. -/
def Writes (w : Writer Unit) : Except EncodeError Bytes → Prop
  | .ok bytes => ∀ buffer, w.run.run buffer = (.ok (), buffer ++ bytes)
  | .error e => ∀ buffer, ∃ added, w.run.run buffer = (.error e, buffer ++ added)

/-! ## Putting writers together -/

theorem put_writes (bytes : Bytes) : Writes (put bytes) (.ok bytes) := fun _ => rfl

theorem pure_writes : Writes (pure ()) (.ok []) := fun buffer => by
  rw [List.append_nil]
  rfl

/-- An error appends something at most that is taken back. -/
theorem throw_writes (e : EncodeError) : Writes (throw e) (.error e) := fun buffer =>
  ⟨[], by rw [List.append_nil]; rfl⟩

section Sequence

variable {w v : Writer Unit} {buffer written first second : Bytes} {e : EncodeError}

/-- A writer that succeeds hands its buffer to the next one. -/
theorem run_bind_of_ok (h : w.run.run buffer = (.ok (), written)) (v : Writer Unit) :
    (w >>= fun _ => v).run.run buffer = v.run.run written := by
  show (ExceptT.bindCont (fun _ => v) (w.run.run buffer).1).run (w.run.run buffer).2 = _
  rw [h]
  rfl

/-- A writer that fails keeps the next one from the buffer. -/
theorem run_bind_of_error (h : w.run.run buffer = (.error e, written)) (v : Writer Unit) :
    (w >>= fun _ => v).run.run buffer = (.error e, written) := by
  show (ExceptT.bindCont (fun _ => v) (w.run.run buffer).1).run (w.run.run buffer).2 = _
  rw [h]
  rfl

/-- Two fields in a row. -/
theorem Writes.andThen (hw : Writes w (.ok first)) (hv : Writes v (.ok second)) :
    Writes (w >>= fun _ => v) (.ok (first ++ second)) := by
  intro buffer
  rw [run_bind_of_ok (hw buffer), hv (buffer ++ first), List.append_assoc]

/-- A field without bytes stops everything behind it. -/
theorem Writes.stop (hw : Writes w (.error e)) (v : Writer Unit) :
    Writes (w >>= fun _ => v) (.error e) := by
  intro buffer
  obtain ⟨added, hadded⟩ := hw buffer
  exact ⟨added, run_bind_of_error hadded v⟩

/-- A field in front of one that may have no bytes. -/
theorem Writes.before {result : Except EncodeError Bytes} (hw : Writes w (.ok first))
    (hv : Writes v result) : Writes (w >>= fun _ => v) (result.map (first ++ ·)) := by
  cases result with
  | ok second => exact hw.andThen hv
  | error e =>
    intro buffer
    obtain ⟨added, hadded⟩ := hv (buffer ++ first)
    exact ⟨first ++ added, by rw [run_bind_of_ok (hw buffer), hadded, List.append_assoc]⟩

end Sequence

/-! ## The fields of a message -/

/-- Songs in a row. -/
theorem songs_writes (songs : List SongId) :
    Writes (songs.forM fun song => put (Wire.song song)) (.ok (songs.flatMap Wire.song)) := by
  induction songs with
  | nil => exact pure_writes
  | cons song rest ih => exact (put_writes (Wire.song song)).andThen ih

/-- A status is written as its wire form. -/
theorem status_writes (s : PlaybackStatus) : Writes (status s) (Wire.status s) := by
  rw [status, Wire.status]
  split
  · exact throw_writes _
  · rw [List.append_assoc]
    refine (put_writes _).andThen ((put_writes _).andThen ?_)
    exact (put_writes _).andThen ((put_writes _).andThen (songs_writes s.queue))

/-- A peer is written as its wire form. -/
theorem peer_writes (p : Peer) : Writes (peer p) (Wire.peer p) := by
  simp only [peer, Wire.peer]
  split
  · exact throw_writes _
  · rw [List.append_assoc]
    refine (put_writes [UInt8.ofNat (Utf8.encode p.address.render).length]).andThen ?_
    exact (put_writes _).andThen ((put_writes _).andThen (put_writes _))

/-- Peers in a row, up to the first one without bytes. -/
theorem peerFields_writes (ps : List Peer) : Writes (ps.forM peer) (Wire.peerFields ps) := by
  -- Induction on the peers: the first that cannot be written stops the rest.
  induction ps with
  | nil => exact pure_writes
  | cons p rest ih =>
    have hp := peer_writes p
    rw [Wire.peerFields]
    split
    · rename_i e he
      rw [he] at hp
      exact hp.stop _
    · rename_i first hfirst
      rw [hfirst] at hp
      have hrow := hp.before ih
      split
      · rename_i e he
        rw [he] at hrow
        exact hrow
      · rename_i others hothers
        rw [hothers] at hrow
        exact hrow

/-- A list of peers is written as its wire form. -/
theorem peers_writes (ps : List Peer) : Writes (peers ps) (Wire.peers ps) := by
  rw [peers, Wire.peers]
  split
  · exact throw_writes _
  · exact (put_writes [UInt8.ofNat ps.length]).before (peerFields_writes ps)

/-- The fields of every kind of message are written as their wire form. -/
theorem fields_writes (m : Message) : Writes (fields m) (Wire.fields m) := by
  cases m with
  | control op => exact put_writes _
  | changeSong s enqueue => exact (put_writes _).andThen (put_writes _)
  | disconnect listenPort => exact put_writes _
  | connect listenPort => exact put_writes _
  | queryStatus => exact pure_writes
  | sendStatus s => exact status_writes s
  | election p => exact put_writes _
  | clientList ownId table =>
    have hlist := (put_writes (Wire.word16 ownId.number)).before
      ((put_writes (Wire.word16 table.hint.number)).before (peers_writes table.peers))
    rw [Wire.fields]
    cases hpeers : Wire.peers table.peers with
    | error e =>
      rw [hpeers] at hlist
      exact hlist
    | ok list =>
      rw [hpeers] at hlist
      show Writes _ (.ok (_ ++ _ ++ list))
      rw [List.append_assoc]
      exact hlist
  | clientListUpdate ps => exact peers_writes ps

/-- A message is the byte of its kind and its fields. -/
theorem message_writes (m : Message) :
    Writes (message m) ((Wire.fields m).map (m.kind.code :: ·)) :=
  (put_writes [m.kind.code]).before (fields_writes m)

end Writer

namespace Message

/-- Whatever is in the buffer, writing a message appends its bytes, or changes nothing and fails as
the message does that has no bytes. -/
theorem appendTo_eq (m : Message) (buffer : Bytes) :
    m.appendTo buffer =
      match m.encode with
      | .ok bytes => (buffer ++ bytes, none)
      | .error e => (buffer, some e) := by
  have hwrites := Writer.message_writes m
  cases hfields : Wire.fields m with
  -- What was appended before the error is cut off again.
  | error e =>
    rw [hfields] at hwrites
    obtain ⟨added, hadded⟩ := hwrites buffer
    simp only [appendTo, encode, hfields, hadded, List.take_left]
  | ok fields =>
    rw [hfields] at hwrites
    have hadded := hwrites buffer
    have hsize : (buffer ++ m.kind.code :: fields).length - buffer.length =
        (m.kind.code :: fields).length := by
      rw [List.length_append, Nat.add_sub_cancel_left]
    simp only [appendTo, encode, hfields, hadded, hsize, List.take_left]
    split <;> rfl

end Message

/-- Writing a message into a buffer succeeds exactly if no list of it is too long. Then its bytes,
which are at most 710 and the same for every buffer, stand at the end of the buffer. Otherwise the
buffer is as before, and the error states the length of the list, so that neither the size of a
message nor that of an address is ever an error. -/
theorem appendTo_iff_withinBounds (m : Message) :
    (∀ buffer, (m.appendTo buffer).2 = none ↔ m.WithinBounds) ∧
    (m.WithinBounds → ∃ bytes, m.encode = .ok bytes ∧ bytes.length ≤ 710 ∧
      ∀ buffer, m.appendTo buffer = (buffer ++ bytes, none)) ∧
    (¬m.WithinBounds → ∃ e, m.excess? = some e ∧ m.encode = .error e ∧
      ∀ buffer, m.appendTo buffer = (buffer, some e)) ∧
    ∀ buffer size limit, (m.appendTo buffer).2 ≠ some (.tooLarge size limit) ∧
      (m.appendTo buffer).2 ≠ some (.textTooLong size) := by
  have hwithin : m.WithinBounds → ∃ bytes, m.encode = .ok bytes ∧ bytes.length ≤ 710 ∧
      ∀ buffer, m.appendTo buffer = (buffer ++ bytes, none) := by
    intro h
    obtain ⟨bytes, hencode, hlen⟩ := Message.exists_encode h
    exact ⟨bytes, hencode, hlen, fun buffer => by rw [m.appendTo_eq, hencode]⟩
  have hbeyond : ¬m.WithinBounds → ∃ e, m.excess? = some e ∧ m.encode = .error e ∧
      ∀ buffer, m.appendTo buffer = (buffer, some e) := by
    intro h
    obtain ⟨e, hexcess, hencode⟩ := Message.encode_of_not_withinBounds h
    exact ⟨e, hexcess, hencode, fun buffer => by rw [m.appendTo_eq, hencode]⟩
  refine ⟨fun buffer => ⟨fun hnone => ?_, fun h => ?_⟩, hwithin, hbeyond, ?_⟩
  · -- A message beyond its bounds is refused, so none that is accepted is beyond.
    by_contra h
    obtain ⟨e, -, -, happend⟩ := hbeyond h
    rw [happend buffer] at hnone
    cases hnone
  · obtain ⟨bytes, -, -, happend⟩ := hwithin h
    rw [happend buffer]
  · intro buffer size limit
    by_cases h : m.WithinBounds
    · obtain ⟨bytes, -, -, happend⟩ := hwithin h
      rw [happend buffer]
      exact ⟨nofun, nofun⟩
    · obtain ⟨e, hexcess, -, happend⟩ := hbeyond h
      obtain ⟨hsize, htext⟩ := Message.ne_of_excess? hexcess size limit
      rw [happend buffer]
      exact ⟨fun heq => hsize (Option.some.inj heq), fun heq => htext (Option.some.inj heq)⟩

/-- Peers at the same address, which is as long as an address can be. -/
def crowd (n : Nat) : List Peer :=
  List.replicate n ⟨.v6 ⟨List.replicate 8 0xffff, rfl⟩, 43210, ⟨7⟩⟩

/-- The longest message of all behind two bytes, and what becomes of the two bytes if there is one
peer or one song more than fits. -/
theorem appendTo_iff_withinBounds_crowd :
    (∃ bytes, (Message.clientList ⟨7⟩ ⟨⟨7⟩, crowd 16⟩).encode = .ok bytes ∧ bytes.length = 710 ∧
      ∀ buffer, (Message.clientList ⟨7⟩ ⟨⟨7⟩, crowd 16⟩).appendTo buffer = (buffer ++ bytes, none)) ∧
    (Message.clientListUpdate (crowd 17)).appendTo [120, 121] =
      ([120, 121], some (.tooManyPeers 17)) ∧
    (Message.sendStatus ⟨1, 93, true, List.replicate 129 4⟩).appendTo [120, 121] =
      ([120, 121], some (.queueTooLong 129)) := by
  have hpeers := (appendTo_iff_withinBounds (.clientListUpdate (crowd 17))).2.2.1
    (by rw [Message.WithinBounds, crowd, List.length_replicate]; decide)
  have hqueue := (appendTo_iff_withinBounds (.sendStatus ⟨1, 93, true, List.replicate 129 4⟩)).2.2.1
    (by rw [Message.WithinBounds, List.length_replicate]; decide)
  have hlongest : ((Message.clientList ⟨7⟩ ⟨⟨7⟩, crowd 16⟩).encode).map List.length = .ok 710 := by
    decide +kernel
  refine ⟨?_, ?_, ?_⟩
  · obtain ⟨bytes, hencode, -, happend⟩ :=
      (appendTo_iff_withinBounds (.clientList ⟨7⟩ ⟨⟨7⟩, crowd 16⟩)).2.1
        (by rw [Message.WithinBounds, crowd, List.length_replicate]; decide)
    rw [hencode] at hlongest
    exact ⟨bytes, hencode, Except.ok.inj hlongest, happend⟩
  · obtain ⟨e, hexcess, -, happend⟩ := hpeers
    cases hexcess
    exact happend [120, 121]
  · obtain ⟨e, hexcess, -, happend⟩ := hqueue
    cases hexcess
    exact happend [120, 121]

end Ensemble
