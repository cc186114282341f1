import Ensemble.Message.Parcel
import Ensemble.Proofs.Message.RoundTrip
import Ensemble.Proofs.Message.Size

/-!
# Parcels hold their message

A message within bounds goes to every peer of a list, and each parcel is read back as the message.

* `Message.decode_encoded` — the bytes of a message within bounds are read back.
* `exists_parcelsTo` — one parcel a peer, all with the same bytes.
* `mem_parcelsTo` — every parcel goes to one of the peers and is read back as the message.
* `exists_split_of_lt` — what stands at a place of a list, and what is left without it.
* `getElem?_of_split`, `take_of_split` — what a split says of its place.
* `getLast?_append_of_forall_eq` — what is sent last in copies is last whatever came before.
-/

namespace Ensemble

/-- The bytes of a message that has some. -/
def Message.encoded (m : Message) : Bytes := m.encode.toOption.getD []

/-- A message within bounds has bytes. -/
theorem Message.encode_encoded {m : Message} (h : m.WithinBounds) : m.encode = .ok m.encoded := by
  obtain ⟨bytes, hencode, -⟩ := exists_encode h
  rw [encoded, hencode]
  rfl

/-- The bytes of a message within bounds are read back. -/
theorem Message.decode_encoded {m : Message} (h : m.WithinBounds) : decode m.encoded = .ok m :=
  decode_of_encode (encode_encoded h)

/-- A message within bounds goes to each peer of a list once, in bytes that are read back. -/
theorem exists_parcelsTo {m : Message} (h : m.WithinBounds) :
    ∃ bytes, m.encode = .ok bytes ∧ Message.decode bytes = .ok m ∧
      ∀ peers, parcelsTo peers m = peers.map fun p => ⟨p.endpoint, bytes⟩ := by
  obtain ⟨bytes, hencode, -⟩ := Message.exists_encode h
  refine ⟨bytes, hencode, Message.decode_of_encode hencode, fun peers => ?_⟩
  rw [parcelsTo, hencode]

/-- Whether the message has bytes or not, every parcel is for one of the peers and holds it. -/
theorem mem_parcelsTo {peers : List Peer} {m : Message} {parcel : Parcel}
    (h : parcel ∈ parcelsTo peers m) :
    ∃ p ∈ peers, parcel.target = p.endpoint ∧ Message.decode parcel.bytes = .ok m := by
  rw [parcelsTo] at h
  split at h
  · rename_i bytes hencode
    obtain ⟨p, hp, rfl⟩ := List.mem_map.mp h
    exact ⟨p, hp, rfl, Message.decode_of_encode hencode⟩
  · exact absurd h List.not_mem_nil

/-- At most one parcel goes to each peer. -/
theorem length_parcelsTo_le (peers : List Peer) (m : Message) :
    (parcelsTo peers m).length ≤ peers.length := by
  rw [parcelsTo]
  split
  · rw [List.length_map]
  · exact Nat.zero_le _

/-- A place of a list that is not beyond its end splits the list. -/
theorem exists_split_of_lt {α : Type} {xs : List α} {place : Nat} (h : place < xs.length) :
    ∃ before x after, xs = before ++ x :: after ∧ before.length = place ∧
      xs[place]? = some x ∧ xs.eraseIdx place = before ++ after := by
  refine ⟨xs.take place, xs[place], xs.drop (place + 1), ?_,
    List.length_take_of_le (Nat.le_of_lt h), List.getElem?_eq_getElem h,
    List.eraseIdx_eq_take_drop_succ xs place⟩
  rw [List.getElem_cons_drop, List.take_append_drop]

section Split

variable {α : Type} {xs before after : List α} {x : α} {place : Nat}

/-- In a list that is split at an element, the element stands after what is before it. -/
theorem getElem?_of_split (hsplit : xs = before ++ x :: after) (hplace : before.length = place) :
    xs[place]? = some x := by
  rw [hsplit, ← hplace, List.getElem?_append_right (Nat.le_refl _), Nat.sub_self]
  rfl

/-- In a list that is split at an element, what is before it is a front of the list. -/
theorem take_of_split (hsplit : xs = before ++ x :: after) (hplace : before.length = place) :
    xs.take place = before := by
  rw [hsplit, ← hplace, List.take_left]

end Split

/-- If only copies of one thing are appended, and at least one, it is last. -/
theorem getLast?_append_of_forall_eq {α : Type} {x : α} {new : List α} (old : List α)
    (hmem : x ∈ new) (hall : ∀ y ∈ new, y = x) : (old ++ new).getLast? = some x := by
  have hne : new ≠ [] := List.ne_nil_of_mem hmem
  rw [List.getLast?_append, List.getLast?_eq_some_getLast hne, Option.some_or]
  exact congrArg some (hall _ (List.getLast_mem hne))

end Ensemble
