import Ensemble.Message.Encode
import Ensemble.Proofs.Address.Length

/-!
# Which messages have bytes

A message is `WithinBounds` if no list in it is longer than its kind of message allows. These bounds
are all that writing asks for: within them the bytes always fit, whatever the addresses are.

* `Message.exists_encode` — a message within bounds has bytes, at most 710 of them.
* `Message.encode_of_not_withinBounds` — any other has none, and the error tells the list's length.
-/

namespace Ensemble

/-- No list of the message is longer than its kind allows. -/
def Message.WithinBounds : Message → Prop
  | .sendStatus s => s.queue.length ≤ maxQueue
  | .clientList _ table => table.peers.length ≤ maxPeers
  | .clientListUpdate peers => peers.length ≤ maxPeers
  | _ => True

namespace Wire

@[simp] theorem length_word16 (w : UInt16) : (word16 w).length = 2 := rfl

@[simp] theorem length_word32 (w : UInt32) : (word32 w).length = 4 := rfl

@[simp] theorem length_song (s : SongId) : (song s).length = 4 := rfl

/-- A queue takes four bytes for each song. -/
theorem length_flatMap_song (songs : List SongId) :
    (songs.flatMap song).length = 4 * songs.length := by
  induction songs with
  | nil => rfl
  | cons s rest ih =>
    rw [List.flatMap_cons, List.length_append, ih, length_song, List.length_cons]
    omega

/-- A status with a queue within bounds has bytes. -/
theorem exists_status {s : PlaybackStatus} (h : s.queue.length ≤ maxQueue) :
    ∃ bytes, status s = .ok bytes ∧ bytes.length ≤ 522 := by
  refine ⟨_, by rw [status, if_neg (by omega)], ?_⟩
  rw [maxQueue] at h
  simp only [List.length_append, List.length_cons, length_song, length_word32,
    length_flatMap_song]
  omega

/-- Every peer has bytes. -/
theorem exists_peer (p : Peer) : ∃ bytes, peer p = .ok bytes ∧ bytes.length ≤ 44 := by
  have hlen := p.address.length_render_le
  rw [← p.address.length_encode_render] at hlen
  refine ⟨_, by simp only [peer]; rw [if_neg (by omega)], ?_⟩
  simp only [List.length_append, List.length_cons, length_word16]
  omega

/-- All lists of peers have fields. -/
theorem exists_peerFields (ps : List Peer) :
    ∃ bytes, peerFields ps = .ok bytes ∧ bytes.length ≤ 44 * ps.length := by
  induction ps with
  | nil => exact ⟨[], rfl, Nat.le_refl 0⟩
  | cons p rest ih =>
    obtain ⟨first, hfirst, hf⟩ := exists_peer p
    obtain ⟨others, hothers, ho⟩ := ih
    refine ⟨first ++ others, by rw [peerFields, hfirst, hothers], ?_⟩
    rw [List.length_append, List.length_cons]
    omega

/-- A list of peers within bounds has bytes. -/
theorem exists_peers {ps : List Peer} (h : ps.length ≤ maxPeers) :
    ∃ bytes, peers ps = .ok bytes ∧ bytes.length ≤ 705 := by
  obtain ⟨fields, hfields, hlen⟩ := exists_peerFields ps
  refine ⟨_, by rw [peers, if_neg (by omega), hfields]; rfl, ?_⟩
  rw [maxPeers] at h
  rw [List.length_cons]
  omega

/-- A message within bounds has fields. -/
theorem exists_fields {m : Message} (h : m.WithinBounds) :
    ∃ bytes, fields m = .ok bytes ∧ bytes.length ≤ 709 := by
  cases m with
  | sendStatus s =>
    obtain ⟨bytes, hb, hlen⟩ := exists_status h
    exact ⟨bytes, hb, by omega⟩
  -- The longest of all: two ids and a full list.
  | clientList ownId table =>
    obtain ⟨list, hlist, hlen⟩ := exists_peers h
    refine ⟨_, by rw [fields, hlist]; rfl, ?_⟩
    simp only [List.length_append, length_word16]
    omega
  | clientListUpdate ps =>
    obtain ⟨bytes, hb, hlen⟩ := exists_peers h
    exact ⟨bytes, hb, by omega⟩
  | changeSong _ _ | control _ | disconnect _ | connect _ | queryStatus | election _ =>
    exact ⟨_, rfl, by simp⟩

end Wire

/-- A message within bounds has bytes. -/
theorem Message.exists_encode {m : Message} (h : m.WithinBounds) :
    ∃ bytes, m.encode = .ok bytes ∧ bytes.length ≤ 710 := by
  obtain ⟨fields, hf, hlen⟩ := Wire.exists_fields h
  refine ⟨m.kind.code :: fields, ?_, by rw [List.length_cons]; omega⟩
  simp only [encode, hf]
  rw [if_pos (by rw [List.length_cons, maxMessageSize]; omega)]

namespace Message

/-- The error that a list of the message causes if it is too long. -/
def excess? : Message → Option EncodeError
  | .sendStatus s => some (.queueTooLong s.queue.length)
  | .clientList _ table => some (.tooManyPeers table.peers.length)
  | .clientListUpdate peers => some (.tooManyPeers peers.length)
  | _ => none

/-- A message with too long a list has no bytes on account of that list. -/
theorem encode_of_not_withinBounds {m : Message} (h : ¬m.WithinBounds) :
    ∃ e, m.excess? = some e ∧ m.encode = .error e := by
  cases m with
  | sendStatus s =>
    have hlong : maxQueue < s.queue.length := Nat.lt_of_not_le h
    exact ⟨_, rfl, by simp only [encode, Wire.fields, Wire.status, if_pos hlong]⟩
  | clientList ownId table =>
    have hlong : maxPeers < table.peers.length := Nat.lt_of_not_le h
    exact ⟨_, rfl, by simp only [encode, Wire.fields, Wire.peers, if_pos hlong, Except.map]⟩
  | clientListUpdate peers =>
    have hlong : maxPeers < peers.length := Nat.lt_of_not_le h
    exact ⟨_, rfl, by simp only [encode, Wire.fields, Wire.peers, if_pos hlong]⟩
  | control _ | changeSong _ _ | disconnect _ | connect _ | queryStatus | election _ =>
    exact absurd trivial h

/-- No list causes an error about the size of the whole message or of a text. -/
theorem ne_of_excess? {m : Message} {e : EncodeError} (h : m.excess? = some e) (size limit : Nat) :
    e ≠ .tooLarge size limit ∧ e ≠ .textTooLong size := by
  unfold excess? at h
  split at h <;> cases h <;> exact ⟨nofun, nofun⟩

end Message

end Ensemble
