import Ensemble.Proofs.Address.RoundTrip
import Ensemble.Text.Utf8
import Mathlib.Algebra.Ring.Nat

/-!
# How long addresses are

The longest written address is one of version 6 with eight groups of four digits. All its
characters are ASCII, so its bytes are as many as its characters. A text that is read as an address
may be longer than what is written for the address: the longest one has six groups of four digits
and a dotted end of fifteen characters.

* `IpAddress.length_render_le` — a written address has at most 39 characters.
* `IpAddress.length_encode_render` — it has as many bytes as characters.
* `IpAddress.length_encode_le_of_parse?` — what is read as an address has at most 45 bytes.
-/

namespace Ensemble

/-! ## ASCII -/

/-- A text of ASCII characters has as many bytes as characters. -/
theorem Utf8.length_encode {text : List Char} (h : ∀ c ∈ text, c.toNat < 128) :
    (Utf8.encode text).length = text.length := by
  induction text with
  | nil => rfl
  | cons c rest ih =>
    have hc : c.utf8Size = 1 := by
      have hlt : c.toNat < 128 := h c List.mem_cons_self
      apply Char.utf8Size_eq_one_iff.mpr
      rw [UInt32.le_iff_toNat_le]
      show c.toNat ≤ 127
      omega
    have hrest : (List.flatMap String.utf8EncodeChar rest).length = rest.length :=
      ih fun x hx => h x (List.mem_cons_of_mem _ hx)
    rw [Utf8.encode, List.flatMap_cons, List.length_append, String.length_utf8EncodeChar, hc, hrest,
      List.length_cons, Nat.add_comm]

/-- Written digits are ASCII. -/
theorem toNat_lt_of_mem_toDigits {base n : Nat} (hb : 1 < base) (h16 : base ≤ 16) {c : Char}
    (hc : c ∈ Nat.toDigits base n) : c.toNat < 128 := by
  obtain ⟨d, hd, rfl⟩ := Numeral.exists_digitChar_of_mem_toDigits hb hc
  have table : ∀ d < 16, d.digitChar.toNat < 128 := by decide
  exact table d (by omega)

namespace Ipv4

/-- The four octets of a written address with the dots between them. -/
theorem render_eq (x : Ipv4) : x.render = Nat.toDigits 10 x.a.toNat ++ '.' ::
    (Nat.toDigits 10 x.b.toNat ++ '.' ::
      (Nat.toDigits 10 x.c.toNat ++ '.' :: Nat.toDigits 10 x.d.toNat)) := by
  simp only [render, octets, List.map_cons, List.map_nil, List.intercalate_cons_cons,
    List.intercalate_singleton, List.append_assoc, List.singleton_append]

/-- A written address of version 4 has at most fifteen characters. -/
theorem length_render_le (x : Ipv4) : x.render.length ≤ 15 := by
  have octet : ∀ o : UInt8, (Nat.toDigits 10 o.toNat).length ≤ 3 := fun o => by
    have ho : o.toNat < 256 := o.toNat_lt
    exact (Nat.length_toDigits_le_iff (by omega) (by omega)).mpr (by omega)
  have ha := octet x.a
  have hb := octet x.b
  have hc := octet x.c
  have hd := octet x.d
  simp only [render_eq, List.length_append, List.length_cons]
  omega

/-- A written address of version 4 is ASCII. -/
theorem toNat_lt_of_mem_render {x : Ipv4} {c : Char} (hc : c ∈ x.render) : c.toNat < 128 := by
  have octet : ∀ o : UInt8, c ∈ Nat.toDigits 10 o.toNat → c.toNat < 128 := fun _ h =>
    toNat_lt_of_mem_toDigits (by omega) (by omega) h
  simp only [render_eq, List.mem_append, List.mem_cons] at hc
  rcases hc with h | rfl | h | rfl | h | rfl | h
  · exact octet _ h
  · decide
  · exact octet _ h
  · decide
  · exact octet _ h
  · decide
  · exact octet _ h

end Ipv4

namespace Ipv6

/-- Four digits a group, and a colon after every group but the last. -/
theorem length_renderGroups_le (groups : List UInt16) :
    (renderGroups groups).length ≤ 5 * groups.length - 1 := by
  have group : ∀ g : UInt16, (Nat.toDigits 16 g.toNat).length ≤ 4 := fun g => by
    have hg : g.toNat < 65536 := g.toNat_lt
    exact (Nat.length_toDigits_le_iff (by omega) (by omega)).mpr (by omega)
  induction groups with
  | nil => rfl
  | cons g rest ih =>
    have hg := group g
    cases rest with
    | nil =>
      rw [renderGroups_singleton, List.length_singleton]
      exact hg
    | cons g' rest =>
      rw [renderGroups_cons_cons, List.length_append, List.length_cons]
      simp only [List.length_cons] at ih ⊢
      omega

/-- Written groups are ASCII. -/
theorem toNat_lt_of_mem_renderGroups {groups : List UInt16} {c : Char}
    (hc : c ∈ renderGroups groups) : c.toNat < 128 := by
  induction groups with
  | nil => exact absurd hc List.not_mem_nil
  | cons g rest ih =>
    have hg : c ∈ Nat.toDigits 16 g.toNat → c.toNat < 128 := fun h =>
      toNat_lt_of_mem_toDigits (by omega) (by omega) h
    cases rest with
    | nil =>
      rw [renderGroups_singleton] at hc
      exact hg hc
    | cons g' rest =>
      rw [renderGroups_cons_cons, List.mem_append, List.mem_cons] at hc
      rcases hc with h | rfl | h
      · exact hg h
      · decide
      · exact ih h

/-- A written address of version 6 has at most 39 characters. -/
theorem length_render_le (x : Ipv6) : x.render.length ≤ 39 := by
  rw [render]
  split
  · rename_i high low _
    have h := Ipv4.length_render_le (embedded high low)
    have hhead : "::ffff:".toList.length = 7 := by decide
    rw [List.length_append]
    omega
  · simp only [renderCompressed]
    generalize longestZeroRun x.groups = start
    split
    · rename_i hcount
      -- Two groups fall to the gap, which leaves at most six.
      have hlen := zeroRun_le x.groups start
      have hfront := length_renderGroups_le (x.groups.take start)
      have hback := length_renderGroups_le (x.groups.drop (start + zeroRun x.groups start))
      rw [x.length_eq] at hlen
      rw [List.length_take, x.length_eq] at hfront
      rw [List.length_drop, x.length_eq] at hback
      rw [List.length_append, List.length_cons, List.length_cons]
      omega
    · have h := length_renderGroups_le x.groups
      rw [x.length_eq] at h
      exact h

/-- A written address of version 6 is ASCII. -/
theorem toNat_lt_of_mem_render {x : Ipv6} {c : Char} (hc : c ∈ x.render) : c.toNat < 128 := by
  rw [render] at hc
  split at hc
  · rcases List.mem_append.mp hc with h | h
    · have table : ("::ffff:".toList.all fun c => decide (c.toNat < 128)) = true := by decide
      exact of_decide_eq_true (List.all_eq_true.mp table c h)
    · exact Ipv4.toNat_lt_of_mem_render h
  · simp only [renderCompressed] at hc
    split at hc
    · simp only [List.mem_append, List.mem_cons] at hc
      rcases hc with h | rfl | rfl | h
      · exact toNat_lt_of_mem_renderGroups h
      · decide
      · decide
      · exact toNat_lt_of_mem_renderGroups h
    · exact toNat_lt_of_mem_renderGroups hc

end Ipv6

namespace IpAddress

/-- A written address has at most 39 characters. -/
theorem length_render_le (x : IpAddress) : x.render.length ≤ 39 := by
  cases x with
  | v4 x => exact Nat.le_trans x.length_render_le (by omega)
  | v6 x => exact x.length_render_le

/-- A written address has as many bytes as characters. -/
theorem length_encode_render (x : IpAddress) : (Utf8.encode x.render).length = x.render.length := by
  apply Utf8.length_encode
  intro c hc
  cases x with
  | v4 x => exact Ipv4.toNat_lt_of_mem_render hc
  | v6 x => exact Ipv6.toNat_lt_of_mem_render hc

end IpAddress

/-! ## Texts that are read -/

/-- Digits are ASCII. -/
theorem Numeral.toNat_lt_of_digitValue? {base : Nat} {c : Char}
    (h : (digitValue? base c).isSome) : c.toNat < 128 := by
  have bound : ∀ d : Char, c ≤ d → d.toNat < 128 → c.toNat < 128 := fun _ hle hlt =>
    Nat.lt_of_le_of_lt (UInt32.le_iff_toNat_le.mp hle) hlt
  by_cases h1 : '0' ≤ c ∧ c ≤ '9'
  · exact bound _ h1.2 (by decide)
  by_cases h2 : 'a' ≤ c ∧ c ≤ 'f'
  · exact bound _ h2.2 (by decide)
  by_cases h3 : 'A' ≤ c ∧ c ≤ 'F'
  · exact bound _ h3.2 (by decide)
  simp [digitValue?, h1, h2, h3] at h

/-- A numeral has as many bytes as characters. -/
theorem Numeral.length_encode_of_read? {base n : Nat} {text : List Char}
    (h : read? base text = some n) : (Utf8.encode text).length = text.length := by
  apply Utf8.length_encode
  intro c hc
  rw [read?_of_ne_nil (List.ne_nil_of_mem hc)] at h
  exact toNat_lt_of_digitValue? (digitValue?_isSome_of_readFrom? h hc)

/-- Encoding goes character by character, so lengths add up. -/
theorem Utf8.length_encode_append (front back : List Char) :
    (encode (front ++ back)).length = (encode front).length + (encode back).length := by
  rw [encode, List.flatMap_append, List.length_append]
  rfl

/-- Every cut at an ASCII character takes away one byte. -/
theorem Utf8.sum_length_encode_splitOn {sep : Char} (hsep : sep.toNat < 128) (text : List Char) :
    ((Text.splitOn sep text).map fun piece => (encode piece).length + 1).sum =
      (encode text).length + 1 := by
  have hcons : ∀ (c : Char) (rest : List Char),
      (encode (c :: rest)).length = (encode [c]).length + (encode rest).length := fun c rest =>
    length_encode_append [c] rest
  induction text with
  | nil => rfl
  | cons c rest ih =>
    rw [Text.splitOn, hcons]
    -- The separator closes a piece: its one byte is the one that the sum adds for that piece.
    split
    · rename_i hc
      have hone : (encode [c]).length = 1 := length_encode (by simpa [hc] using hsep)
      rw [List.map_cons, List.sum_cons, ih, hone, encode, List.flatMap_nil, List.length_nil]
      omega
    · split
      · rename_i h
        exact absurd h (Text.splitOn_ne_nil sep rest)
      · rename_i piece pieces h
        rw [h, List.map_cons, List.sum_cons] at ih
        rw [List.map_cons, List.sum_cons, hcons]
        omega

/-- Texts that are read one by one are no longer together than the longest of them allows. -/
theorem sum_length_encode_le_of_mapM {α : Type} {read : List Char → Option α} {width : Nat}
    (hread : ∀ text x, read text = some x → (Utf8.encode text).length ≤ width)
    {texts : List (List Char)} {items : List α} (h : texts.mapM read = some items) :
    (texts.map fun text => (Utf8.encode text).length + 1).sum ≤ (width + 1) * items.length := by
  induction texts generalizing items with
  | nil => exact Nat.zero_le _
  | cons first rest ih =>
    simp only [List.mapM_cons, Option.bind_eq_bind, Option.bind_eq_some_iff] at h
    obtain ⟨x, hx, others, hothers, hitems⟩ := h
    obtain rfl : x :: others = items := Option.some.inj hitems
    have hfirst := hread first x hx
    have hrest := ih hothers
    rw [List.map_cons, List.sum_cons, List.length_cons, Nat.mul_succ]
    omega

namespace Ipv4

variable {text : List Char}

/-- A number of an IPv4 address has at most three digits. -/
theorem length_encode_le_of_octet? {o : UInt8} (h : octet? text = some o) :
    (Utf8.encode text).length ≤ 3 := by
  rw [octet?] at h
  split at h
  · rename_i hlen
    split at h
    · rename_i n hn
      rw [Numeral.length_encode_of_read? hn]
      exact hlen.1
    · cases h
  · cases h

/-- What is read as an address of version 4 has at most fifteen bytes. -/
theorem length_encode_le_of_parse? {x : Ipv4} (h : parse? text = some x) :
    (Utf8.encode text).length ≤ 15 := by
  rw [parse?] at h
  split at h
  · rename_i octets hoctets
    have hsum := sum_length_encode_le_of_mapM (fun _ _ => length_encode_le_of_octet?) hoctets
    rw [Utf8.sum_length_encode_splitOn (by decide)] at hsum
    simp only [List.length_cons, List.length_nil] at hsum
    omega
  · cases h

end Ipv4

namespace Ipv6

variable {text : List Char} {groups : List UInt16}

/-- A group of an IPv6 address has at most four digits. -/
theorem length_encode_le_of_group? {g : UInt16} (h : group? text = some g) :
    (Utf8.encode text).length ≤ 4 := by
  rw [group?] at h
  split at h
  · rename_i hlen
    obtain ⟨n, hn, -⟩ := Option.map_eq_some_iff.mp h
    rw [Numeral.length_encode_of_read? hn]
    exact hlen
  · cases h

/-- Four digits and a colon for each group, but up to sixteen characters for the last two. -/
theorem sum_length_encode_le_of_pieces? {texts : List (List Char)}
    (h : pieces? texts = some groups) :
    (texts.map fun text => (Utf8.encode text).length + 1).sum ≤ 5 * groups.length + 6 := by
  fun_induction pieces? texts generalizing groups with
  | case1 => exact Nat.zero_le _
  -- The last piece is an IPv4 address: at most 15 bytes stand for two groups.
  | case2 last x hx =>
    have hlast := Ipv4.length_encode_le_of_parse? hx
    obtain rfl : x.groups = groups := Option.some.inj h
    simp only [List.map_cons, List.map_nil, List.sum_cons, List.sum_nil, Ipv4.groups,
      List.length_cons, List.length_nil]
    omega
  | case3 last hx =>
    obtain ⟨g, hg, rfl⟩ := Option.map_eq_some_iff.mp h
    have hlast := length_encode_le_of_group? hg
    simp only [List.map_cons, List.map_nil, List.sum_cons, List.sum_nil, List.length_cons,
      List.length_nil]
    omega
  | case4 piece rest hne g hg ih =>
    obtain ⟨others, hothers, rfl⟩ := Option.map_eq_some_iff.mp h
    have hpiece := length_encode_le_of_group? hg
    have hrest := ih hothers
    rw [List.map_cons, List.sum_cons, List.length_cons]
    omega
  | case5 => cases h

/-- The groups behind a gap: the last two may be an IPv4 address, which takes more room than they
would. -/
theorem length_encode_le_of_groups? (h : groups? text = some groups) :
    (Utf8.encode text).length ≤ 5 * groups.length + 5 := by
  rw [groups?] at h
  split at h
  · rename_i hnil
    rw [List.isEmpty_iff.mp hnil]
    exact Nat.zero_le _
  · have hsum := sum_length_encode_le_of_pieces? h
    rw [Utf8.sum_length_encode_splitOn (by decide)] at hsum
    omega

/-- The groups before a gap, or of a text without one. -/
theorem length_encode_le_of_plainGroups? (h : plainGroups? text = some groups) :
    (Utf8.encode text).length ≤ 5 * groups.length := by
  rw [plainGroups?] at h
  split at h
  · rename_i hnil
    rw [List.isEmpty_iff.mp hnil]
    exact Nat.zero_le _
  · have hsum := sum_length_encode_le_of_mapM (fun _ _ => length_encode_le_of_group?) h
    rw [Utf8.sum_length_encode_splitOn (by decide)] at hsum
    omega

theorem length_eq_of_ofGroups? {x : Ipv6} (h : ofGroups? groups = some x) : groups.length = 8 := by
  rw [ofGroups?] at h
  split at h
  · assumption
  · cases h

/-- The parts around the first gap make up the text. -/
theorem eq_of_splitGap (text : List Char) :
    (splitGap text).1 ++ ((splitGap text).2.map (':' :: ':' :: ·)).getD [] = text := by
  fun_induction splitGap text with
  | case1 => rfl
  | case2 rest => rfl
  | case3 c rest _ ih => rw [List.cons_append, ih]

/-- What is read as an address of version 6 has at most 45 bytes. -/
theorem length_encode_le_of_parse? {x : Ipv6} (h : parse? text = some x) :
    (Utf8.encode text).length ≤ 45 := by
  have hcut := eq_of_splitGap text
  rw [parse?] at h
  split at h
  · rename_i whole hgap
    rw [hgap] at hcut
    obtain rfl : whole = text := by simpa using hcut
    obtain ⟨groups, hgroups, h⟩ := Option.bind_eq_some_iff.mp h
    have hlen := length_encode_le_of_groups? hgroups
    have height := length_eq_of_ofGroups? h
    omega
  · rename_i front back hgap
    rw [hgap] at hcut
    obtain rfl : front ++ ':' :: ':' :: back = text := by simpa using hcut
    split at h
    · rename_i frontGroups backGroups hfront hback
      have hfrontLen := length_encode_le_of_plainGroups? hfront
      have hbackLen := length_encode_le_of_groups? hback
      -- At least one group falls to the gap.
      have hseven : frontGroups.length + backGroups.length ≤ 7 := by
        by_contra hlong
        have height := length_eq_of_ofGroups? h
        rw [fill, if_neg hlong] at height
        cases height
      have hcolons : (Utf8.encode (':' :: ':' :: back)).length = 2 + (Utf8.encode back).length :=
        Utf8.length_encode_append [':', ':'] back
      rw [Utf8.length_encode_append, hcolons]
      omega
    · cases h

end Ipv6

/-- What is read as an address has at most 45 bytes. -/
theorem IpAddress.length_encode_le_of_parse? {text : List Char} {a : IpAddress}
    (h : parse? text = some a) : (Utf8.encode text).length ≤ 45 := by
  rw [parse?] at h
  split at h
  · rename_i x hx
    exact Nat.le_trans (Ipv4.length_encode_le_of_parse? hx) (by omega)
  · obtain ⟨x, hx, -⟩ := Option.map_eq_some_iff.mp h
    exact Ipv6.length_encode_le_of_parse? hx

end Ensemble
