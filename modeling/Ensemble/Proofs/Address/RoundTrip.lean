import Ensemble.Address.Parser
import Ensemble.Address.Printer
import Mathlib.Data.List.TakeWhile

/-!
# Written addresses are read back

The printer chooses one of many spellings of an address: it drops leading zeros, it shortens one run
of zero groups to `::`, and it keeps the dots of an embedded address. None of these choices loses
anything.

* `Ipv4.parse?_render`, `Ipv6.parse?_render` — what was written is read back, version by version.
* `IpAddress.parse?_render` — the two versions are not mistaken for each other.
-/

namespace Ensemble

/-! ## Lists of written items -/

/-- Items that are read back one by one are read back together. -/
theorem mapM_map_of_leftInverse {α β : Type} {read : β → Option α} {write : α → β}
    (h : ∀ x, read (write x) = some x) (items : List α) :
    (items.map write).mapM read = some items := by
  induction items with
  | nil => rfl
  | cons x rest ih => simp [h, ih]

/-- If a list is read, each of its items is. -/
theorem exists_of_mapM_eq_some {α β : Type} {read : β → Option α} {texts : List β} {items : List α}
    (h : texts.mapM read = some items) {text : β} (ht : text ∈ texts) :
    ∃ x, read text = some x := by
  induction texts generalizing items with
  | nil => exact absurd ht List.not_mem_nil
  | cons first rest ih =>
    simp only [List.mapM_cons, Option.bind_eq_bind, Option.bind_eq_some_iff] at h
    obtain ⟨x, hx, others, hothers, -⟩ := h
    rcases List.mem_cons.mp ht with rfl | ht
    · exact ⟨x, hx⟩
    · exact ih hothers ht

/-! ## Digits and separators -/

/-- No separator of addresses is a digit. -/
theorem not_mem_toDigits {base n : Nat} (hb : 1 < base) (h16 : base ≤ 16) {c : Char}
    (hc : c = '.' ∨ c = ':') : c ∉ Nat.toDigits base n := by
  intro hmem
  obtain ⟨d, hd, rfl⟩ := Numeral.exists_digitChar_of_mem_toDigits hb hmem
  have table : ∀ d < 16, d.digitChar ≠ '.' ∧ d.digitChar ≠ ':' := by decide
  have := table d (by omega)
  rcases hc with h | h
  · exact this.1 h
  · exact this.2 h

/-- The two bytes of a word make up the word. -/
theorem ofNat_two_bytes (w : UInt16) :
    UInt16.ofNat ((w >>> 8).toUInt8.toNat * 256 + w.toUInt8.toNat) = w := by
  have hw : w.toNat < 65536 := w.toNat_lt
  have hhigh : (w >>> 8).toUInt8.toNat = w.toNat / 256 := by
    rw [UInt16.toNat_toUInt8, UInt16.toNat_shiftRight]
    show (w.toNat >>> 8) % 256 = w.toNat / 256
    rw [Nat.shiftRight_eq_div_pow]
    omega
  have hlow : w.toUInt8.toNat = w.toNat % 256 := UInt16.toNat_toUInt8 w
  apply UInt16.toNat_inj.mp
  rw [hhigh, hlow, UInt16.toNat_ofNat']
  omega

namespace Ipv4

/-- A written octet has no leading zero and is read back. -/
theorem octet?_toDigits (o : UInt8) : octet? (Nat.toDigits 10 o.toNat) = some o := by
  have ho : o.toNat < 256 := o.toNat_lt
  have hlen : (Nat.toDigits 10 o.toNat).length ≤ 3 :=
    (Nat.length_toDigits_le_iff (by omega) (by omega)).mpr (by omega)
  have hhead : (Nat.toDigits 10 o.toNat).head? ≠ some '0' ∨
      (Nat.toDigits 10 o.toNat).length = 1 := by
    rcases Nat.eq_zero_or_pos o.toNat with h | h
    · exact .inr (by rw [h, Nat.toDigits_zero, List.length_singleton])
    · exact .inl (Numeral.head?_toDigits_ne (by omega) (by omega) h)
  rw [octet?, if_pos ⟨hlen, hhead⟩, Numeral.read?_toDigits (by omega) (by omega)]
  simp only [if_pos ho, UInt8.ofNat_toNat]

/-- A written address of version 4 is read back. -/
theorem parse?_render (x : Ipv4) : parse? x.render = some x := by
  have hsplit : Text.splitOn '.' x.render = x.octets.map fun o => Nat.toDigits 10 o.toNat := by
    refine Text.splitOn_intercalate (by simp [octets]) ?_
    intro piece hp
    obtain ⟨o, -, rfl⟩ := List.mem_map.mp hp
    exact not_mem_toDigits (by omega) (by omega) (.inl rfl)
  rw [parse?, hsplit, mapM_map_of_leftInverse octet?_toDigits]
  rfl

/-- What is read as one octet holds no colon. -/
theorem not_mem_of_octet? {text : List Char} {o : UInt8} (h : octet? text = some o) :
    ':' ∉ text := by
  intro hmem
  rw [octet?] at h
  split at h
  · split at h
    · rename_i n hn
      rw [Numeral.read?_of_ne_nil (List.ne_nil_of_mem hmem)] at hn
      have := Numeral.digitValue?_isSome_of_readFrom? hn hmem
      exact absurd this (by decide)
    · cases h
  · cases h

/-- What is read as an address of version 4 holds no colon. -/
theorem not_mem_of_parse? {text : List Char} {x : Ipv4} (h : parse? text = some x) :
    ':' ∉ text := by
  intro hmem
  obtain ⟨piece, hp, hm⟩ : ∃ piece ∈ Text.splitOn '.' text, ':' ∈ piece :=
    Text.exists_mem_splitOn hmem (by decide)
  have hall : ∃ octets, (Text.splitOn '.' text).mapM octet? = some octets := by
    rw [parse?] at h
    split at h
    · exact ⟨_, by assumption⟩
    · cases h
  obtain ⟨octets, ho⟩ := hall
  obtain ⟨o, hoctet⟩ := exists_of_mapM_eq_some ho hp
  exact not_mem_of_octet? hoctet hm

end Ipv4

namespace Ipv6

/-! ## One group -/

/-- A written group is read back. -/
theorem group?_toDigits (g : UInt16) : group? (Nat.toDigits 16 g.toNat) = some g := by
  have hg : g.toNat < 65536 := g.toNat_lt
  have hlen : (Nat.toDigits 16 g.toNat).length ≤ 4 :=
    (Nat.length_toDigits_le_iff (by omega) (by omega)).mpr (by omega)
  rw [group?, if_pos hlen, Numeral.read?_toDigits (by omega) (by omega), Option.map_some,
    UInt16.ofNat_toNat]

/-- A written group is no address of version 4. -/
theorem ipv4_parse?_toDigits (g : UInt16) : Ipv4.parse? (Nat.toDigits 16 g.toNat) = none := by
  have hdot : '.' ∉ Nat.toDigits 16 g.toNat := not_mem_toDigits (by omega) (by omega) (.inl rfl)
  rw [Ipv4.parse?, Text.splitOn_of_not_mem hdot]
  cases h : Ipv4.octet? (Nat.toDigits 16 g.toNat) <;> simp [h]

/-! ## Groups joined by colons -/


theorem renderGroups_singleton (g : UInt16) : renderGroups [g] = Nat.toDigits 16 g.toNat :=
  List.intercalate_singleton

/-- Between two groups stands a colon. -/
theorem renderGroups_cons_cons (g g' : UInt16) (rest : List UInt16) :
    renderGroups (g :: g' :: rest) =
      Nat.toDigits 16 g.toNat ++ ':' :: renderGroups (g' :: rest) := by
  simp only [renderGroups, List.map_cons, List.intercalate_cons_cons, List.append_assoc,
    List.singleton_append]

/-- Written groups begin with a digit. -/
theorem exists_cons_renderGroups (g : UInt16) (rest : List UInt16) :
    ∃ c text, renderGroups (g :: rest) = c :: text ∧ c ≠ ':' := by
  obtain ⟨c, text, hd⟩ := List.exists_cons_of_ne_nil (Nat.toDigits_ne_nil (b := 16) (n := g.toNat))
  have hc : c ≠ ':' := by
    rintro rfl
    have hg : ':' ∉ Nat.toDigits 16 g.toNat := not_mem_toDigits (by omega) (by omega) (.inr rfl)
    exact hg (hd ▸ List.mem_cons_self)
  cases rest with
  | nil => exact ⟨c, text, by rw [renderGroups_singleton, hd], hc⟩
  | cons g' rest => exact ⟨c, _, by rw [renderGroups_cons_cons, hd]; rfl, hc⟩

/-- Only the empty list of groups has no text. -/
theorem renderGroups_isEmpty (groups : List UInt16) :
    (renderGroups groups).isEmpty = groups.isEmpty := by
  cases groups with
  | nil => rfl
  | cons g rest =>
    obtain ⟨c, text, h, -⟩ := exists_cons_renderGroups g rest
    rw [h]
    rfl

/-- Cutting written groups at the colons gives the groups. -/
theorem splitOn_renderGroups {groups : List UInt16} (hne : groups ≠ []) :
    Text.splitOn ':' (renderGroups groups) = groups.map fun g => Nat.toDigits 16 g.toNat := by
  refine Text.splitOn_intercalate (by simpa using hne) ?_
  intro piece hp
  obtain ⟨g, -, rfl⟩ := List.mem_map.mp hp
  exact not_mem_toDigits (by omega) (by omega) (.inr rfl)

/-- Groups before a gap are read back. -/
theorem plainGroups?_renderGroups (groups : List UInt16) :
    plainGroups? (renderGroups groups) = some groups := by
  rw [plainGroups?, renderGroups_isEmpty]
  cases groups with
  | nil => rfl
  | cons g rest =>
    rw [splitOn_renderGroups (by simp)]
    exact mapM_map_of_leftInverse group?_toDigits (g :: rest)

/-- No piece of written groups is taken for a dotted one. -/
theorem pieces?_toDigits (groups : List UInt16) :
    pieces? (groups.map fun g => Nat.toDigits 16 g.toNat) = some groups := by
  induction groups with
  | nil => rfl
  | cons g rest ih =>
    cases rest with
    | nil =>
      rw [List.map_singleton, pieces?, ipv4_parse?_toDigits, group?_toDigits]
      rfl
    | cons g' rest =>
      rw [List.map_cons] at ih
      rw [List.map_cons, List.map_cons, pieces?, group?_toDigits, ih]
      · rfl
      · simp

/-- Groups after a gap, or without one, are read back. -/
theorem groups?_renderGroups (groups : List UInt16) :
    groups? (renderGroups groups) = some groups := by
  rw [groups?, renderGroups_isEmpty]
  cases groups with
  | nil => rfl
  | cons g rest =>
    rw [splitOn_renderGroups (by simp), pieces?_toDigits]
    rfl

/-! ## The gap -/

/-- The gap is not sought in what holds no colon. -/
theorem splitGap_append_of_not_mem {digits : List Char} (h : ':' ∉ digits) (rest : List Char) :
    splitGap (digits ++ rest) = (digits ++ (splitGap rest).1, (splitGap rest).2) := by
  induction digits with
  | nil => rfl
  | cons c digits ih =>
    have hc : c ≠ ':' := fun e => h (by simp [e])
    have hd : ':' ∉ digits := fun m => h (List.mem_cons_of_mem _ m)
    rw [List.cons_append, splitGap, ih hd]
    · rfl
    · intro _ e
      exact absurd e hc

/-- A single colon is no gap. -/
theorem splitGap_colon_cons {c : Char} (hc : c ≠ ':') (rest : List Char) :
    splitGap (':' :: c :: rest) =
      (':' :: (splitGap (c :: rest)).1, (splitGap (c :: rest)).2) := by
  rw [splitGap]
  simpa using hc

/-- There is no gap inside written groups. -/
theorem splitGap_renderGroups_append (groups : List UInt16) (rest : List Char) :
    splitGap (renderGroups groups ++ rest) =
      (renderGroups groups ++ (splitGap rest).1, (splitGap rest).2) := by
  induction groups with
  | nil => rfl
  | cons g groups ih =>
    have hg : ':' ∉ Nat.toDigits 16 g.toNat := not_mem_toDigits (by omega) (by omega) (.inr rfl)
    cases groups with
    | nil => rw [renderGroups_singleton, splitGap_append_of_not_mem hg]
    | cons g' groups =>
      obtain ⟨c, text, hcons, hc⟩ := exists_cons_renderGroups g' groups
      rw [hcons, List.cons_append] at ih
      rw [renderGroups_cons_cons, List.append_assoc, List.cons_append,
        splitGap_append_of_not_mem hg, hcons, List.cons_append, splitGap_colon_cons hc, ih,
        List.append_assoc]
      rfl

/-- A run of zero groups ends with the groups. -/
theorem zeroRun_le (groups : List UInt16) (i : Nat) : zeroRun groups i ≤ groups.length - i := by
  have h := (List.takeWhile_prefix (· == 0) (l := groups.drop i)).length_le
  rwa [List.length_drop] at h

/-- What stands around a run of zero groups and the run itself are all the groups. -/
theorem take_zeros_drop (groups : List UInt16) (i : Nat) :
    groups.take i ++ List.replicate (zeroRun groups i) 0 ++
      groups.drop (i + zeroRun groups i) = groups := by
  have hzeros : (groups.drop i).takeWhile (· == 0) = List.replicate (zeroRun groups i) 0 := by
    refine List.eq_replicate_of_mem fun g hg => ?_
    exact eq_of_beq (List.mem_takeWhile_imp (p := fun a : UInt16 => a == 0) hg)
  have hrest : groups.drop (i + zeroRun groups i) = (groups.drop i).dropWhile (· == 0) := by
    have hcut : ((groups.drop i).takeWhile (· == 0) ++ (groups.drop i).dropWhile (· == 0)).drop
        (zeroRun groups i) = (groups.drop i).dropWhile (· == 0) := List.drop_left
    rwa [List.takeWhile_append_dropWhile, List.drop_drop] at hcut
  rw [List.append_assoc, hrest, ← hzeros, List.takeWhile_append_dropWhile, List.take_append_drop]

/-! ## Whole addresses -/

/-- The octets of an embedded address make up its two groups. -/
theorem groups_embedded (high low : UInt16) : (embedded high low).groups = [high, low] := by
  rw [Ipv4.groups, embedded, ofNat_two_bytes, ofNat_two_bytes]

theorem ofGroups?_groups (x : Ipv6) : ofGroups? x.groups = some x := by
  rw [ofGroups?, dif_pos x.length_eq]

/-- An embedded address in dotted form is read back. -/
theorem parse?_embedded {x : Ipv6} {high low : UInt16}
    (hx : x.groups = [0, 0, 0, 0, 0, 0xffff, high, low]) :
    parse? ("::ffff:".toList ++ (embedded high low).render) = some x := by
  -- The text begins with a gap, and its last piece is the address in dots.
  have hgap : splitGap ("::ffff:".toList ++ (embedded high low).render) =
      ([], some ("ffff".toList ++ ':' :: (embedded high low).render)) := rfl
  have hcolon : ':' ∉ (embedded high low).render :=
    Ipv4.not_mem_of_parse? (Ipv4.parse?_render (embedded high low))
  have hback : groups? ("ffff".toList ++ ':' :: (embedded high low).render) =
      some [0xffff, high, low] := by
    have hfirst : group? "ffff".toList = some 0xffff := by decide
    rw [groups?, Text.splitOn_append_cons (by decide), Text.splitOn_of_not_mem hcolon]
    simp only [pieces?, hfirst, Ipv4.parse?_render, groups_embedded]
    rfl
  rw [parse?, hgap]
  simp only [hback]
  show ofGroups? [0, 0, 0, 0, 0, 0xffff, high, low] = some x
  rw [← hx, ofGroups?_groups]

/-- An address in groups is read back, shortened or not. -/
theorem parse?_renderCompressed (x : Ipv6) : parse? (renderCompressed x.groups) = some x := by
  simp only [renderCompressed]
  generalize longestZeroRun x.groups = start
  -- Only a run of two zeros or more is written as a gap.
  split
  · rename_i hcount
    have hlen := zeroRun_le x.groups start
    rw [x.length_eq] at hlen
    have hgap := splitGap_renderGroups_append (x.groups.take start)
      (':' :: ':' :: renderGroups (x.groups.drop (start + zeroRun x.groups start)))
    -- What the gap stands for is what was left out.
    have hfill : fill (x.groups.take start)
        (x.groups.drop (start + zeroRun x.groups start)) = x.groups := by
      have hmissing : 8 - ((x.groups.take start).length +
          (x.groups.drop (start + zeroRun x.groups start)).length) = zeroRun x.groups start := by
        rw [List.length_take, List.length_drop, x.length_eq]
        omega
      rw [fill, if_pos (by omega), hmissing, take_zeros_drop]
    rw [parse?, hgap]
    simp only [splitGap, List.append_nil, plainGroups?_renderGroups, groups?_renderGroups, hfill,
      ofGroups?_groups]
  · have hgap := splitGap_renderGroups_append x.groups []
    rw [List.append_nil] at hgap
    rw [parse?, hgap]
    simp only [splitGap, List.append_nil, groups?_renderGroups, Option.bind_some,
      ofGroups?_groups]

/-- A written address of version 6 is read back. -/
theorem parse?_render (x : Ipv6) : parse? x.render = some x := by
  rw [render]
  split
  · rename_i hx
    exact parse?_embedded hx
  · exact parse?_renderCompressed x

/-- Groups of which there are at least two are joined by a colon. -/
theorem mem_renderGroups {groups : List UInt16} (h : 2 ≤ groups.length) :
    ':' ∈ renderGroups groups := by
  match groups, h with
  | g :: g' :: rest, _ =>
    rw [renderGroups_cons_cons]
    exact List.mem_append_right _ List.mem_cons_self

/-- A written address of version 6 holds a colon. -/
theorem mem_render (x : Ipv6) : ':' ∈ x.render := by
  rw [render]
  split
  · exact List.mem_append_left _ (by decide)
  · simp only [renderCompressed]
    split
    · exact List.mem_append_right _ List.mem_cons_self
    · exact mem_renderGroups (by rw [x.length_eq]; omega)

end Ipv6

/-- A written address is read back. -/
theorem IpAddress.parse?_render (x : IpAddress) : parse? x.render = some x := by
  cases x with
  | v4 x => rw [render, parse?, Ipv4.parse?_render]
  | v6 x =>
    -- The colon keeps the text from being read as an address of version 4.
    have hnone : Ipv4.parse? x.render = none := by
      cases h : Ipv4.parse? x.render with
      | none => rfl
      | some y => exact absurd (Ipv6.mem_render x) (Ipv4.not_mem_of_parse? h)
    rw [render, parse?, hnone, Ipv6.parse?_render]
    rfl

end Ensemble
