import Ensemble.Proofs.Message.RoundTrip

/-!
# What further bytes change

A reader is `Steady` if its verdict on some bytes depends on nothing after them: what it took, it
takes whatever follows, and what it refused for an invalid value stays refused. Only a field that
was cut short leaves the verdict open. The readers of single fields are steady, and so are all that
are put together from them, which settles how the verdict on a whole message changes when bytes are
appended or missing.

* `Reader.steady_message` — the fields of every kind of message are read steadily.
* `Message.decode_eq_ok_iff_reads` — a message is accepted if its fields are read to the end.
* `verdict_of_extension` — the verdict on a message with bytes appended, and with bytes missing.
-/

namespace Ensemble

namespace Reader

variable {α β : Type}

/-- Nothing behind the bytes that a reader has dealt with changes its verdict on them, unless the
bytes end inside a field. -/
structure Steady (r : Reader α) : Prop where
  /-- A value is taken from a front part, and taken from it whatever follows. -/
  reads : ∀ {bytes rest : Bytes} {x : α}, r bytes = .ok (x, rest) →
    ∃ front, bytes = front ++ rest ∧ Reads r front x
  /-- An invalid value stays invalid; any other failure is a field that is cut short. -/
  refuses : ∀ {bytes : Bytes} {e : DecodeError}, r bytes = .error e →
    (∃ value, e = .invalid value ∧ ∀ more, r (bytes ++ more) = .error e) ∨
      ∃ needed available, e = .truncated needed available ∧ available < needed

/-! ## Putting steady readers together -/

/-- What comes next reads the rest. -/
theorem bind_of_ok {r : Reader α} {bytes rest : Bytes} {x : α} (h : r bytes = .ok (x, rest))
    (f : α → Reader β) : (r >>= f) bytes = f x rest := by
  show (r bytes >>= fun p => f p.1 p.2) = f x rest
  rw [h]
  rfl

/-- After an error nothing comes next. -/
theorem bind_of_error {r : Reader α} {bytes : Bytes} {e : DecodeError} (h : r bytes = .error e)
    (f : α → Reader β) : (r >>= f) bytes = .error e := by
  show (r bytes >>= fun p => f p.1 p.2) = .error e
  rw [h]
  rfl

theorem steady_pure (x : α) : Steady (pure x : Reader α) where
  reads := by
    intro bytes rest y h
    cases h
    exact ⟨[], rfl, reads_pure x⟩
  refuses := by
    intro bytes e h
    cases h

/-- A refusal is steady, as it does not look at the bytes. -/
theorem steady_refuse (value : InvalidValue) : Steady (refuse value : Reader α) where
  reads := by
    intro bytes rest x h
    cases h
  refuses := by
    intro bytes e h
    cases h
    exact .inl ⟨value, rfl, fun _ => rfl⟩

/-- Two steady fields in a row are steady. -/
theorem Steady.bind {r : Reader α} {f : α → Reader β} (hr : Steady r) (hf : ∀ x, Steady (f x)) :
    Steady (r >>= f) where
  reads := by
    intro bytes rest y h
    cases hfirst : r bytes with
    | error e =>
      rw [bind_of_error hfirst] at h
      cases h
    | ok taken =>
      obtain ⟨x, left⟩ := taken
      rw [bind_of_ok hfirst] at h
      obtain ⟨first, rfl, hr⟩ := hr.reads hfirst
      obtain ⟨second, rfl, hf⟩ := (hf x).reads h
      exact ⟨first ++ second, (List.append_assoc _ _ _).symm, hr.bind hf⟩
  refuses := by
    intro bytes e h
    cases hfirst : r bytes with
    | error e' =>
      rw [bind_of_error hfirst] at h
      cases h
      rcases hr.refuses hfirst with ⟨value, rfl, hstays⟩ | hcut
      · exact .inl ⟨value, rfl, fun more => bind_of_error (hstays more) f⟩
      · exact .inr hcut
    | ok taken =>
      obtain ⟨x, left⟩ := taken
      rw [bind_of_ok hfirst] at h
      obtain ⟨first, rfl, hr⟩ := hr.reads hfirst
      rcases (hf x).refuses h with ⟨value, rfl, hstays⟩ | hcut
      · -- The first part reads the same with more behind it, and leaves that to the second.
        refine .inl ⟨value, rfl, fun more => ?_⟩
        rw [List.append_assoc, bind_of_ok (hr (left ++ more))]
        exact hstays more
      · exact .inr hcut

/-- A steady field from which a value is computed. -/
theorem Steady.map {r : Reader α} (hr : Steady r) (f : α → β) :
    Steady (do let x ← r; pure (f x)) :=
  hr.bind fun x => steady_pure (f x)

/-! ## Fields of a fixed size -/

/-- A reader of a fixed number of bytes is steady, if it fails only for want of bytes. -/
theorem steady_of_size {r : Reader α} (size : Nat)
    (hlong : ∀ front : Bytes, front.length = size → ∃ x, Reads r front x)
    (hshort : ∀ bytes : Bytes, bytes.length < size →
      r bytes = .error (.truncated size bytes.length)) : Steady r := by
  -- Enough bytes are a front of the right size and a rest.
  have hsplit : ∀ bytes : Bytes, size ≤ bytes.length →
      ∃ front rest x, bytes = front ++ rest ∧ Reads r front x := by
    intro bytes hlen
    obtain ⟨x, hx⟩ := hlong (bytes.take size) (List.length_take_of_le hlen)
    exact ⟨bytes.take size, bytes.drop size, x, (List.take_append_drop size bytes).symm, hx⟩
  constructor
  · intro bytes rest x h
    rcases Nat.lt_or_ge bytes.length size with hlt | hge
    · rw [hshort bytes hlt] at h
      cases h
    · obtain ⟨front, left, y, rfl, hy⟩ := hsplit bytes hge
      rw [hy left] at h
      cases h
      exact ⟨front, rfl, hy⟩
  · intro bytes e h
    rcases Nat.lt_or_ge bytes.length size with hlt | hge
    · rw [hshort bytes hlt] at h
      cases h
      exact .inr ⟨size, bytes.length, rfl, hlt⟩
    · obtain ⟨front, left, y, rfl, hy⟩ := hsplit bytes hge
      rw [hy left] at h
      cases h

theorem steady_byte : Steady byte := by
  refine steady_of_size 1 ?_ ?_
  · intro front h
    obtain ⟨b, rfl⟩ := List.length_eq_one_iff.mp h
    exact ⟨b, byte_reads b⟩
  · intro bytes h
    match bytes, h with
    | [], _ => rfl

theorem steady_word16 : Steady word16 := by
  refine steady_of_size 2 ?_ ?_
  · intro front h
    match front, h with
    | [a, b], _ => exact ⟨_, fun _ => rfl⟩
  · intro bytes h
    match bytes, h with
    | [], _ => rfl
    | [_], _ => rfl

theorem steady_word32 : Steady word32 := by
  refine steady_of_size 4 ?_ ?_
  · intro front h
    match front, h with
    | [a, b, c, d], _ => exact ⟨_, fun _ => rfl⟩
  · intro bytes h
    match bytes, h with
    | [], _ => rfl
    | [_], _ => rfl
    | [_, _], _ => rfl
    | [_, _, _], _ => rfl

theorem steady_take (n : Nat) : Steady (take n) := by
  refine steady_of_size n ?_ ?_
  · intro front h
    subst h
    exact ⟨front, take_reads front⟩
  · intro bytes h
    rw [take, if_pos h]

/-! ## Fields with values -/

/-- As many steady fields in a row as were counted. -/
theorem steady_many {item : Reader α} (h : Steady item) (n : Nat) : Steady (many item n) := by
  induction n with
  | zero => exact steady_pure []
  | succ n ih => exact h.bind fun first => ih.map (first :: ·)

theorem steady_flag : Steady flag := by
  refine steady_byte.bind fun code => ?_
  split
  · exact steady_pure false
  · exact steady_pure true
  · exact steady_refuse _

theorem steady_song : Steady song := steady_word32.map UInt32.toInt32

theorem steady_peerId : Steady peerId := steady_word16.map PeerId.mk

theorem steady_control : Steady control := by
  refine steady_byte.bind fun code => ?_
  split
  · exact steady_pure _
  · exact steady_refuse _

theorem steady_phase : Steady phase := by
  refine steady_byte.bind fun code => ?_
  split
  · exact steady_pure _
  · exact steady_refuse _

/-- To read a status is steady, with the bound on its queue. -/
theorem steady_status : Steady status := by
  refine steady_song.bind fun current => steady_word32.bind fun elapsed => ?_
  refine steady_flag.bind fun paused => steady_byte.bind fun count => ?_
  split
  · exact steady_refuse _
  · exact (steady_many steady_song _).map _

/-- To read an address is steady, with what its text may be. -/
theorem steady_address : Steady address := by
  refine steady_byte.bind fun length => (steady_take _).bind fun bytes => ?_
  split
  · exact steady_refuse _
  · split
    · exact steady_refuse _
    · exact steady_pure _

/-- To read a peer is steady. -/
theorem steady_peer : Steady peer :=
  steady_address.bind fun _ => steady_word16.bind fun _ => steady_peerId.map _

/-- To read a list of peers is steady, with the bound on its length. -/
theorem steady_peers : Steady peers := by
  refine steady_byte.bind fun count => ?_
  split
  · exact steady_refuse _
  · exact steady_many steady_peer _

/-- The fields of a message are steady, whatever its kind. -/
theorem steady_message (kind : MessageKind) : Steady (message kind) := by
  cases kind with
  | control => exact steady_control.map _
  | changeSong => exact steady_song.bind fun _ => steady_flag.map _
  | disconnect => exact steady_word16.map _
  | connect => exact steady_word16.map _
  | queryStatus => exact steady_pure _
  | sendStatus => exact steady_status.map _
  | election => exact steady_phase.map _
  | clientList => exact steady_peerId.bind fun _ => steady_peerId.bind fun _ => steady_peers.map _
  | clientListUpdate => exact steady_peers.map _

end Reader

/-! ## Whole messages -/

/-- Only the byte of a kind announces it. -/
theorem MessageKind.eq_code_of_ofCode? {code : UInt8} {kind : MessageKind}
    (h : ofCode? code = some kind) : code = kind.code := by
  unfold ofCode? at h
  split at h <;> cases h <;> rfl

namespace Message

variable {bytes more fields : Bytes} {m : Message} {kind : MessageKind}

/-- What follows a whole message is surplus. -/
theorem decode_append_of_reads (h : (Reader.message kind).Reads fields m) (hmore : more ≠ []) :
    decode (kind.code :: (fields ++ more)) = .error (.surplus more.length) := by
  obtain ⟨b, rest, rfl⟩ := List.exists_cons_of_ne_nil hmore
  simp only [decode, MessageKind.ofCode?_code, h (b :: rest)]

/-- What is left of the fields of a kind decides about bytes that begin with its code. -/
theorem exists_reads_of_message {rest : Bytes} {code : UInt8}
    (hkind : MessageKind.ofCode? code = some kind)
    (h : Reader.message kind fields = .ok (m, rest)) :
    ∃ front, code :: fields = kind.code :: (front ++ rest) ∧
      (Reader.message kind).Reads front m := by
  obtain ⟨front, rfl, hfront⟩ := (Reader.steady_message kind).reads h
  exact ⟨front, by rw [MessageKind.eq_code_of_ofCode? hkind], hfront⟩

/-- A message is accepted if its fields are read, and nothing but its fields is there. -/
theorem decode_eq_ok_iff_reads : decode bytes = .ok m ↔
    ∃ kind fields, bytes = kind.code :: fields ∧ (Reader.message kind).Reads fields m := by
  constructor
  · intro h
    -- Every branch but one is a refusal.
    unfold decode at h
    split at h
    · cases h
    · split at h
      · cases h
      · rename_i kind hkind
        split at h
        · cases h
        · rename_i m' hread
          cases h
          obtain ⟨front, heq, hfront⟩ := exists_reads_of_message hkind hread
          exact ⟨kind, front, by rw [heq, List.append_nil], hfront⟩
        · cases h
  · rintro ⟨kind, fields, rfl, hfields⟩
    exact decode_of_reads hfields

/-- Why bytes are refused, and what more of them would change about it. -/
inductive Refused (bytes : Bytes) : DecodeError → Prop where
  | empty (nothing : bytes = []) : Refused bytes .empty
  /-- No kind has the first byte. -/
  | unknownKind {code : UInt8}
      (stays : ∀ more, decode (bytes ++ more) = .error (.unknownKind code)) :
      Refused bytes (.unknownKind code)
  /-- The value of a field is none. -/
  | invalid {value : InvalidValue}
      (stays : ∀ more, decode (bytes ++ more) = .error (.invalid value)) :
      Refused bytes (.invalid value)
  /-- A field is cut short. -/
  | truncated {needed available : Nat} (short : available < needed) :
      Refused bytes (.truncated needed available)
  /-- A message, and something behind it. -/
  | surplus {kind : MessageKind} {fields rest : Bytes} {m : Message}
      (split : bytes = kind.code :: (fields ++ rest)) (left : rest ≠ [])
      (reads : (Reader.message kind).Reads fields m) : Refused bytes (.surplus rest.length)

/-- Every error has one of these reasons. -/
theorem refused_of_decode {e : DecodeError} (h : decode bytes = .error e) : Refused bytes e := by
  -- One case per refusal, in the order in which they are found.
  unfold decode at h
  split at h
  · cases h
    exact .empty rfl
  · rename_i code fields
    split at h
    · rename_i hkind
      cases h
      exact .unknownKind fun more => by simp only [List.cons_append, decode, hkind]
    · rename_i kind hkind
      split at h
      · rename_i e' hread
        cases h
        rcases (Reader.steady_message kind).refuses hread with
          ⟨value, rfl, hstays⟩ | ⟨needed, available, rfl, hlt⟩
        · exact .invalid fun more => by simp only [List.cons_append, decode, hkind, hstays more]
        · exact .truncated hlt
      · cases h
      · rename_i m rest hne hread
        cases h
        obtain ⟨front, heq, hfront⟩ := exists_reads_of_message hkind hread
        exact .surplus heq hne hfront

/-! ## Longer and shorter bytes -/

/-- A message is no message any more with something behind it. -/
theorem decode_append_of_ok (h : decode bytes = .ok m) (hmore : more ≠ []) :
    decode (bytes ++ more) = .error (.surplus more.length) := by
  obtain ⟨kind, fields, rfl, hfields⟩ := decode_eq_ok_iff_reads.mp h
  exact decode_append_of_reads hfields hmore

/-- The surplus grows by what is appended. -/
theorem decode_append_of_surplus {count : Nat} (h : decode bytes = .error (.surplus count)) :
    decode (bytes ++ more) = .error (.surplus (count + more.length)) := by
  cases refused_of_decode h with
  | @surplus kind fields rest m split left reads =>
    have hleft : rest ++ more ≠ [] := List.append_ne_nil_of_left_ne_nil left more
    rw [split, List.cons_append, List.append_assoc, decode_append_of_reads reads hleft,
      List.length_append]

/-- An unknown kind stays unknown, whatever follows. -/
theorem decode_append_of_unknownKind {code : UInt8}
    (h : decode bytes = .error (.unknownKind code)) :
    decode (bytes ++ more) = .error (.unknownKind code) := by
  cases refused_of_decode h with
  | unknownKind stays => exact stays more

/-- An invalid value stays invalid, whatever follows. -/
theorem decode_append_of_invalid {value : InvalidValue}
    (h : decode bytes = .error (.invalid value)) :
    decode (bytes ++ more) = .error (.invalid value) := by
  cases refused_of_decode h with
  | invalid stays => exact stays more

/-- What is missing from an accepted message is missed inside a field. -/
theorem decode_of_append_eq_ok {front : Bytes} (h : decode (front ++ more) = .ok m)
    (hmore : more ≠ []) (hfront : front ≠ []) :
    ∃ needed available, decode front = .error (.truncated needed available) ∧
      available < needed := by
  -- The front cannot have been accepted, and all but a truncation stay refused with more behind.
  cases hcut : decode front with
  | ok m' =>
    rw [decode_append_of_ok hcut hmore] at h
    cases h
  | error e =>
    cases refused_of_decode hcut with
    | empty nothing => exact absurd nothing hfront
    | unknownKind stays =>
      rw [stays more] at h
      cases h
    | invalid stays =>
      rw [stays more] at h
      cases h
    | truncated short => exact ⟨_, _, rfl, short⟩
    | surplus split left reads =>
      rw [decode_append_of_surplus hcut] at h
      cases h

end Message

/-- Bytes behind a message are counted as surplus, on top of those already there, and they change
neither an unknown kind nor an invalid value. So no accepted message begins another one: of its
proper beginnings the empty one is refused as empty, and every other one ends inside a field. -/
theorem verdict_of_extension :
    (∀ bytes more : Bytes, more ≠ [] →
      (∀ m, Message.decode bytes = .ok m →
        Message.decode (bytes ++ more) = .error (.surplus more.length)) ∧
      (∀ count, Message.decode bytes = .error (.surplus count) →
        Message.decode (bytes ++ more) = .error (.surplus (count + more.length))) ∧
      (∀ code, Message.decode bytes = .error (.unknownKind code) →
        Message.decode (bytes ++ more) = .error (.unknownKind code)) ∧
      ∀ value, Message.decode bytes = .error (.invalid value) →
        Message.decode (bytes ++ more) = .error (.invalid value)) ∧
    (∀ (bytes bytes' : Bytes) (m m' : Message), Message.decode bytes = .ok m →
      Message.decode bytes' = .ok m' → bytes <+: bytes' → bytes = bytes') ∧
    ∀ (bytes : Bytes) (m : Message), Message.decode bytes = .ok m →
      ∀ front, front <+: bytes → front ≠ bytes →
        (front = [] → Message.decode front = .error .empty) ∧
        (front ≠ [] → ∃ needed available,
          Message.decode front = .error (.truncated needed available) ∧ available < needed) := by
  -- A proper front of a message has lost something.
  have hshorter : ∀ (bytes : Bytes) (m : Message), Message.decode bytes = .ok m →
      ∀ front, front <+: bytes → front ≠ bytes → front ≠ [] → ∃ needed available,
        Message.decode front = .error (.truncated needed available) ∧ available < needed := by
    rintro bytes m h front ⟨more, rfl⟩ hproper hne
    have hmore : more ≠ [] := fun hnil => hproper (by rw [hnil, List.append_nil])
    exact Message.decode_of_append_eq_ok h hmore hne
  refine ⟨fun bytes more hmore => ⟨?_, ?_, ?_, ?_⟩, ?_, ?_⟩
  · exact fun m h => Message.decode_append_of_ok h hmore
  · exact fun count h => Message.decode_append_of_surplus h
  · exact fun code h => Message.decode_append_of_unknownKind h
  · exact fun value h => Message.decode_append_of_invalid h
  · intro bytes bytes' m m' h h' hbegins
    by_contra hproper
    have hne : bytes ≠ [] := fun hnil => by
      rw [hnil] at h
      cases h
    obtain ⟨needed, available, hcut, -⟩ := hshorter bytes' m' h' bytes hbegins hproper hne
    rw [hcut] at h
    cases h
  · intro bytes m h front hbegins hproper
    refine ⟨fun hnil => ?_, hshorter bytes m h front hbegins hproper⟩
    rw [hnil]
    rfl

/-- The table of three peers with two more bytes and then a third, the same table cut off inside its
second address, a flag that is none, and an unknown kind. -/
theorem verdict_of_extension_mixedTable :
    Message.decode mixedTableBytes = .ok (.clientList ⟨513⟩ mixedTable) ∧
      Message.decode (mixedTableBytes ++ [0, 7]) = .error (.surplus 2) ∧
      Message.decode (mixedTableBytes ++ [0, 7] ++ [4]) = .error (.surplus 3) ∧
      Message.decode ([1, 0, 0, 0, 1, 2] ++ [4]) = .error (.invalid (.flag 2)) ∧
      Message.decode ([9] ++ [4]) = .error (.unknownKind 9) ∧
      ∃ needed available,
        Message.decode (mixedTableBytes.take 25) = .error (.truncated needed available) ∧
          available < needed := by
  have haccepted : Message.decode mixedTableBytes = .ok (.clientList ⟨513⟩ mixedTable) :=
    Message.decode_of_encode (by decide +kernel)
  have hsurplus := (verdict_of_extension.1 mixedTableBytes [0, 7] (by decide)).1 _ haccepted
  have hmore := verdict_of_extension.1 (mixedTableBytes ++ [0, 7]) [4] (by decide)
  have hflag := verdict_of_extension.1 [1, 0, 0, 0, 1, 2] [4] (by decide)
  have hkind := verdict_of_extension.1 [9] [4] (by decide)
  refine ⟨haccepted, hsurplus, hmore.2.1 2 hsurplus, hflag.2.2.2 _ rfl, hkind.2.2.1 9 rfl, ?_⟩
  refine (verdict_of_extension.2.2 _ _ haccepted (mixedTableBytes.take 25) ?_ ?_).2 ?_
  · exact List.take_prefix 25 mixedTableBytes
  · decide +kernel
  · decide +kernel

end Ensemble
