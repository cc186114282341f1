import Ensemble.Proofs.Message.Extension
import Mathlib.Data.List.Forall2

/-!
# Only written fields are read

Every field but an address has one written form: whatever bytes a reader takes for a value are the
bytes that the writer of the field gives the value, and its bounds are the writer's. Readers that
are put together take what their parts take, one after the other.

* `Reader.of_reads_bind`, `Reader.of_reads_many` — the parts of what is read in a row.
* `Reader.reads_status_iff` — a status is read from its written form and from nothing else.
-/

namespace Ensemble

namespace Reader

variable {α β : Type}

/-! ## Readers put together -/

/-- To read nothing takes no bytes. -/
theorem of_reads_pure {x y : α} {bytes : Bytes} (h : Reads (pure x) bytes y) :
    bytes = [] ∧ y = x := by
  have hread : Except.ok (x, bytes ++ []) = Except.ok (y, []) := h []
  rw [List.append_nil] at hread
  cases hread
  exact ⟨rfl, rfl⟩

/-- What is refused was not read. -/
theorem not_reads_refuse {value : InvalidValue} {bytes : Bytes} {x : α} :
    ¬Reads (refuse value) bytes x := fun h => nomatch h []

/-- What two fields in a row take is what the first one takes, and then the second. -/
theorem of_reads_bind {r : Reader α} {f : α → Reader β} {bytes : Bytes} {y : β} (hr : Steady r)
    (h : Reads (r >>= f) bytes y) :
    ∃ x first second, bytes = first ++ second ∧ Reads r first x ∧ Reads (f x) second y := by
  cases hfirst : r bytes with
  | error e =>
    have hread := h []
    rw [List.append_nil, bind_of_error hfirst] at hread
    cases hread
  | ok taken =>
    obtain ⟨x, second⟩ := taken
    obtain ⟨first, rfl, hreads⟩ := hr.reads hfirst
    refine ⟨x, first, second, rfl, hreads, fun rest => ?_⟩
    have hread := h rest
    rwa [List.append_assoc, bind_of_ok (hreads (second ++ rest))] at hread

/-- What a computed field takes is what the field takes. -/
theorem of_reads_map {r : Reader α} {f : α → β} {bytes : Bytes} {y : β} (hr : Steady r)
    (h : Reads (do let x ← r; pure (f x)) bytes y) : ∃ x, y = f x ∧ Reads r bytes x := by
  obtain ⟨x, first, second, rfl, hx, hpure⟩ := of_reads_bind hr h
  obtain ⟨rfl, rfl⟩ := of_reads_pure hpure
  exact ⟨x, rfl, by rwa [List.append_nil]⟩

/-- What counted fields in a row take is what each of them takes. -/
theorem of_reads_many {item : Reader α} (hitem : Steady item) {n : Nat} {bytes : Bytes} {xs : List α}
    (h : Reads (many item n) bytes xs) :
    xs.length = n ∧ ∃ parts, List.Forall₂ (Reads item) parts xs ∧ bytes = parts.flatten := by
  induction n generalizing bytes xs with
  | zero =>
    obtain ⟨rfl, rfl⟩ := of_reads_pure h
    exact ⟨rfl, [], .nil, rfl⟩
  | succ n ih =>
    obtain ⟨x, first, second, rfl, hx, hrest⟩ := of_reads_bind hitem h
    obtain ⟨others, rfl, hothers⟩ := of_reads_map (steady_many hitem n) hrest
    obtain ⟨rfl, parts, hparts, rfl⟩ := ih hothers
    exact ⟨rfl, first :: parts, .cons hx hparts, rfl⟩

/-! ## Numbers -/

theorem eq_of_reads_byte {bytes : Bytes} {b : UInt8} (h : Reads byte bytes b) : bytes = [b] := by
  have hread := h []
  match bytes, hread with
  | c :: rest, hread =>
    have hpair : (c, rest ++ []) = (b, []) := Except.ok.inj hread
    rw [List.append_nil] at hpair
    cases hpair
    rfl

/-- Two bytes are the wire form of the number they stand for. -/
theorem word16_ofNat (a b : UInt8) :
    Wire.word16 (UInt16.ofNat (a.toNat * 256 + b.toNat)) = [a, b] := by
  have ha := a.toNat_lt
  have hb := b.toNat_lt
  have hw : (UInt16.ofNat (a.toNat * 256 + b.toNat)).toNat = a.toNat * 256 + b.toNat := by
    rw [UInt16.toNat_ofNat']
    omega
  -- Byte by byte, as numbers.
  have hhigh : (UInt16.ofNat (a.toNat * 256 + b.toNat) >>> 8).toUInt8 = a := by
    apply UInt8.toNat_inj.mp
    rw [UInt16.toNat_toUInt8, UInt16.toNat_shiftRight, hw]
    show ((a.toNat * 256 + b.toNat) >>> 8) % 256 = a.toNat
    rw [Nat.shiftRight_eq_div_pow]
    omega
  have hlow : (UInt16.ofNat (a.toNat * 256 + b.toNat)).toUInt8 = b := by
    apply UInt8.toNat_inj.mp
    rw [UInt16.toNat_toUInt8, hw]
    omega
  rw [Wire.word16, hhigh, hlow]

theorem eq_of_reads_word16 {bytes : Bytes} {w : UInt16} (h : Reads word16 bytes w) :
    bytes = Wire.word16 w := by
  have hread := h []
  match bytes, hread with
  | a :: b :: rest, hread =>
    have hpair : (UInt16.ofNat (a.toNat * 256 + b.toNat), rest ++ []) = (w, []) :=
      Except.ok.inj hread
    rw [List.append_nil] at hpair
    cases hpair
    exact (word16_ofNat a b).symm

/-- Four bytes are the wire form of the number they stand for. -/
theorem word32_ofNat (a b c d : UInt8) :
    Wire.word32 (UInt32.ofNat (((a.toNat * 256 + b.toNat) * 256 + c.toNat) * 256 + d.toNat)) =
      [a, b, c, d] := by
  have ha := a.toNat_lt
  have hb := b.toNat_lt
  have hc := c.toNat_lt
  have hd := d.toNat_lt
  generalize hn : ((a.toNat * 256 + b.toNat) * 256 + c.toNat) * 256 + d.toNat = n
  have hw : (UInt32.ofNat n).toNat = n := by
    rw [UInt32.toNat_ofNat']
    omega
  have h24 : (UInt32.ofNat n >>> 24).toUInt8 = a := by
    have hbyte : (UInt32.ofNat n >>> 24).toUInt8.toNat = ((UInt32.ofNat n).toNat >>> 24) % 256 :=
      toNat_toUInt8_shiftRight _ 24 (by omega)
    apply UInt8.toNat_inj.mp
    omega
  have h16 : (UInt32.ofNat n >>> 16).toUInt8 = b := by
    have hbyte : (UInt32.ofNat n >>> 16).toUInt8.toNat = ((UInt32.ofNat n).toNat >>> 16) % 256 :=
      toNat_toUInt8_shiftRight _ 16 (by omega)
    apply UInt8.toNat_inj.mp
    omega
  have h8 : (UInt32.ofNat n >>> 8).toUInt8 = c := by
    have hbyte : (UInt32.ofNat n >>> 8).toUInt8.toNat = ((UInt32.ofNat n).toNat >>> 8) % 256 :=
      toNat_toUInt8_shiftRight _ 8 (by omega)
    apply UInt8.toNat_inj.mp
    omega
  have h0 : (UInt32.ofNat n).toUInt8 = d := by
    apply UInt8.toNat_inj.mp
    rw [UInt32.toNat_toUInt8, hw]
    omega
  rw [Wire.word32, h24, h16, h8, h0]

theorem eq_of_reads_word32 {bytes : Bytes} {w : UInt32} (h : Reads word32 bytes w) :
    bytes = Wire.word32 w := by
  have hread := h []
  match bytes, hread with
  | a :: b :: c :: d :: rest, hread =>
    have hpair : (UInt32.ofNat (((a.toNat * 256 + b.toNat) * 256 + c.toNat) * 256 + d.toNat),
        rest ++ []) = (w, []) := Except.ok.inj hread
    rw [List.append_nil] at hpair
    cases hpair
    exact (word32_ofNat a b c d).symm

theorem eq_of_reads_song {bytes : Bytes} {s : SongId} (h : Reads song bytes s) :
    bytes = Wire.song s := by
  obtain ⟨w, rfl, hw⟩ := of_reads_map steady_word32 h
  rw [eq_of_reads_word32 hw, Wire.song, UInt32.toUInt32_toInt32]

theorem eq_of_reads_peerId {bytes : Bytes} {id : PeerId} (h : Reads peerId bytes id) :
    bytes = Wire.word16 id.number := by
  obtain ⟨w, rfl, hw⟩ := of_reads_map steady_word16 h
  exact eq_of_reads_word16 hw

/-- A number of bytes is read as they are. -/
theorem of_reads_take {n : Nat} {bytes text : Bytes} (h : Reads (take n) bytes text) :
    bytes = text ∧ text.length = n := by
  have hread := h []
  rw [List.append_nil, take] at hread
  split at hread
  · cases hread
  · rename_i hlen
    have hpair : (bytes.take n, bytes.drop n) = (text, []) := Except.ok.inj hread
    have hdrop : bytes.drop n = [] := congrArg Prod.snd hpair
    have hall : bytes.length ≤ n := List.drop_eq_nil_iff.mp hdrop
    have htext : bytes.take n = text := congrArg Prod.fst hpair
    rw [List.take_of_length_le hall] at htext
    exact ⟨htext, by rw [← htext]; omega⟩

/-! ## Codes -/

theorem eq_of_reads_flag {bytes : Bytes} {b : Bool} (h : Reads flag bytes b) :
    bytes = [Wire.flag b] := by
  obtain ⟨code, first, second, rfl, hcode, hrest⟩ := of_reads_bind steady_byte h
  rw [eq_of_reads_byte hcode]
  split at hrest
  · obtain ⟨rfl, rfl⟩ := of_reads_pure hrest
    rfl
  · obtain ⟨rfl, rfl⟩ := of_reads_pure hrest
    rfl
  · exact absurd hrest not_reads_refuse

theorem eq_of_reads_control {bytes : Bytes} {op : ControlOp} (h : Reads control bytes op) :
    bytes = [op.code] := by
  obtain ⟨code, first, second, rfl, hcode, hrest⟩ := of_reads_bind steady_byte h
  rw [eq_of_reads_byte hcode]
  split at hrest
  · rename_i op' hop
    obtain ⟨rfl, rfl⟩ := of_reads_pure hrest
    unfold ControlOp.ofCode? at hop
    split at hop <;> cases hop <;> rfl
  · exact absurd hrest not_reads_refuse

theorem eq_of_reads_phase {bytes : Bytes} {p : ElectionPhase} (h : Reads phase bytes p) :
    bytes = [p.code] := by
  obtain ⟨code, first, second, rfl, hcode, hrest⟩ := of_reads_bind steady_byte h
  rw [eq_of_reads_byte hcode]
  split at hrest
  · rename_i p' hp
    obtain ⟨rfl, rfl⟩ := of_reads_pure hrest
    unfold ElectionPhase.ofCode? at hp
    split at hp <;> cases hp <;> rfl
  · exact absurd hrest not_reads_refuse

/-! ## Statuses -/

/-- The byte that holds a count is the byte of the count. -/
theorem ofNat_of_toNat_eq {count : UInt8} {n : Nat} (h : n = count.toNat) :
    UInt8.ofNat n = count := by
  rw [h, UInt8.ofNat_toNat]

/-- A queue is read from the wire forms of its songs only. -/
theorem eq_of_reads_songs {n : Nat} {bytes : Bytes} {songs : List SongId}
    (h : Reads (many song n) bytes songs) :
    songs.length = n ∧ bytes = songs.flatMap Wire.song := by
  obtain ⟨hlen, parts, hparts, rfl⟩ := of_reads_many steady_song h
  refine ⟨hlen, ?_⟩
  clear h hlen
  induction hparts with
  | nil => rfl
  | cons hsong _ ih => rw [List.flatten_cons, List.flatMap_cons, eq_of_reads_song hsong, ih]

/-- A status is read from its written form and from nothing else. -/
theorem reads_status_iff {bytes : Bytes} {s : PlaybackStatus} :
    Reads status bytes s ↔ Wire.status s = .ok bytes := by
  refine ⟨fun h => ?_, status_reads⟩
  obtain ⟨current, b1, _, rfl, hcurrent, h⟩ := of_reads_bind steady_song h
  obtain ⟨elapsed, b2, _, rfl, helapsed, h⟩ := of_reads_bind steady_word32 h
  obtain ⟨paused, b3, _, rfl, hpaused, h⟩ := of_reads_bind steady_flag h
  obtain ⟨count, b4, _, rfl, hcount, h⟩ := of_reads_bind steady_byte h
  split at h
  · -- A queue that is too long is refused.
    exact absurd h not_reads_refuse
  · rename_i hbound
    obtain ⟨queue, rfl, hqueue⟩ := of_reads_map (steady_many steady_song _) h
    obtain ⟨hlen, rfl⟩ := eq_of_reads_songs hqueue
    rw [Wire.status, if_neg (by rw [hlen]; exact hbound), eq_of_reads_song hcurrent,
      eq_of_reads_word32 helapsed, eq_of_reads_flag hpaused, eq_of_reads_byte hcount,
      ofNat_of_toNat_eq hlen, List.append_assoc]
    rfl

end Reader

end Ensemble
