import Ensemble.Json.Parser
import Ensemble.Json.Printer
import Mathlib.Data.List.Forall2

/-!
# Written JSON is read back

A text is a written form of a value if it is read as that value wherever it stands: before a comma,
before a closing bracket or brace, or at the end. The printer puts written forms together from
written forms, so each of its functions has one lemma here, and a text that is put together from
them is read back as a whole.

* `Json.IsText` — a text is read as a value, whatever follows.
* `Json.units?_quoted` — every text within quotes is read back, with all that is escaped in it.
* `Json.isText_writeNat`, `Json.isText_quote`, `Json.isText_writeArray`, `Json.isText_writeObject` —
  what the printer writes.
* `Json.IsText.parse?_eq` — a written form is read as its value.
-/

namespace Ensemble.Json

/-- What may follow a value: nothing, a comma, or a closing bracket or brace. -/
def EndsValue (rest : List Char) : Prop := ∀ c ∈ rest.head?, c = ',' ∨ c = ']' ∨ c = '\x7d'

/-- A text is a written form of a value. Fuel for its characters is enough to read it. -/
structure IsText (text : List Char) (value : Json) : Prop where
  starts : ∃ c tail, text = c :: tail ∧ isBlank c = false ∧ c ≠ ']'
  reads : ∀ fuel rest, text.length < fuel → EndsValue rest →
    value? fuel (text ++ rest) = some (value, rest)

/-- What is no blank is not skipped. -/
theorem skipBlanks_cons {c : Char} (hc : isBlank c = false) (rest : List Char) :
    skipBlanks (c :: rest) = c :: rest := by
  simp [skipBlanks, hc]

/-- A written form alone is read as its value. -/
theorem IsText.parse?_eq {text : List Char} {value : Json} (h : IsText text value) :
    parse? text = some value := by
  have hread := h.reads (2 * text.length + 2) [] (by omega) (by simp [EndsValue])
  rw [List.append_nil] at hread
  rw [parse?, hread]
  rfl

/-! ## Numbers -/

/-- What follows a value is no part of a number. -/
theorem digits_of_endsValue {rest : List Char} (h : EndsValue rest) :
    digits rest = ([], rest) := by
  cases rest with
  | nil => rfl
  | cons c rest =>
    rcases h c rfl with rfl | rfl | rfl <;> rfl

/-- A run of digits ends where something else begins. -/
theorem digits_append {run rest : List Char} (hrun : ∀ c ∈ run, c.isDigit = true)
    (hrest : digits rest = ([], rest)) : digits (run ++ rest) = (run, rest) := by
  obtain ⟨htake, hdrop⟩ := Prod.mk.inj hrest
  rw [digits, List.takeWhile_append_of_pos hrun, List.dropWhile_append_of_pos hrun, htake, hdrop,
    List.append_nil]

/-- Digits without a leading zero, or one zero, are the integer part of a number. -/
theorem integerDigits?_toDigits (n : Nat) {rest : List Char} (hrest : EndsValue rest) :
    integerDigits? (Nat.toDigits 10 n ++ rest) = some (Nat.toDigits 10 n, rest) := by
  have hrun : ∀ c ∈ Nat.toDigits 10 n, c.isDigit = true := fun c hc =>
    Nat.isDigit_of_mem_toDigits (by omega) (by omega) hc
  have hdigits := digits_append hrun (digits_of_endsValue hrest)
  obtain ⟨c, tail, hcons⟩ := List.exists_cons_of_ne_nil (Nat.toDigits_ne_nil (b := 10) (n := n))
  -- Zero is the only number whose digits may begin with a zero.
  rcases Nat.eq_zero_or_pos n with rfl | hpos
  · rfl
  · have hhead : (Nat.toDigits 10 n).head? ≠ some '0' :=
      Numeral.head?_toDigits_ne (by omega) (by omega) hpos
    rw [hcons] at hhead hdigits ⊢
    have hc : c ≠ '0' := by simpa using hhead
    rw [List.cons_append] at hdigits ⊢
    rw [integerDigits?]
    · rw [hdigits]
    · intro _ heq
      exact hc (List.cons.inj heq).1

/-- What may follow a value is not the beginning of a fraction. -/
theorem fraction?_of_endsValue {rest : List Char} (h : EndsValue rest) :
    fraction? rest = some (false, rest) := by
  cases rest with
  | nil => rfl
  | cons c rest => rcases h c rfl with rfl | rfl | rfl <;> rfl

/-- Nor is it the beginning of an exponent. -/
theorem exponent?_of_endsValue {rest : List Char} (h : EndsValue rest) :
    exponent? rest = some (false, rest) := by
  cases rest with
  | nil => rfl
  | cons c rest => rcases h c rfl with rfl | rfl | rfl <;> rfl

/-- The digits of a number are read as that number, and as an integer. -/
theorem magnitude?_toDigits (n : Nat) {rest : List Char} (hrest : EndsValue rest) :
    magnitude? false (Nat.toDigits 10 n ++ rest) = some (.integer n, rest) := by
  simp [magnitude?, integerDigits?_toDigits n hrest, fraction?_of_endsValue hrest,
    exponent?_of_endsValue hrest, Numeral.read?_toDigits (show 1 < 10 by omega) (by omega)]

/-- Digits are not blanks. -/
theorem isBlank_of_isDigit {c : Char} (hc : c.isDigit = true) : isBlank c = false := by
  rw [Bool.eq_false_iff]
  intro hblank
  simp only [isBlank, Bool.or_eq_true, beq_iff_eq] at hblank
  rcases hblank with ((rfl | rfl) | rfl) | rfl <;> cases hc

/-- A text that begins with a digit is read as a number. -/
theorem value?_of_isDigit {c : Char} (hc : c.isDigit = true) (fuel : Nat) (rest : List Char) :
    value? (fuel + 1) (c :: rest) = magnitude? false (c :: rest) := by
  rw [value?, skipBlanks_cons (isBlank_of_isDigit hc)]
  split
  case h_8 => rfl
  -- Whatever else there is begins with a character that is no digit.
  all_goals
    rename_i heq
    cases heq
    cases hc

/-- A written number is read back, whatever follows that may follow a value. -/
theorem isText_writeNat (n : Nat) : IsText (writeNat n) (.integer n) := by
  obtain ⟨c, tail, hcons⟩ := List.exists_cons_of_ne_nil (Nat.toDigits_ne_nil (b := 10) (n := n))
  have hc : c.isDigit = true :=
    Nat.isDigit_of_mem_toDigits (b := 10) (n := n) (by omega) (by omega) (hcons ▸ List.mem_cons_self)
  refine ⟨⟨c, tail, hcons, isBlank_of_isDigit hc, ?_⟩, fun fuel rest hfuel hrest => ?_⟩
  · rintro rfl
    cases hc
  · obtain ⟨fuel, rfl⟩ := Nat.exists_eq_add_of_le' (Nat.one_le_of_lt hfuel)
    have hmagnitude := magnitude?_toDigits n hrest
    rw [writeNat]
    rw [hcons, List.cons_append] at hmagnitude ⊢
    rw [value?_of_isDigit hc, hmagnitude]

/-! ## Strings -/

/-- A control character has four digits in its escape. -/
theorem escape?_control {c : Char} (hc : c.toNat < 0x20) (rest : List Char) :
    escape? ('u' :: '0' :: '0' :: Nat.digitChar (c.toNat / 16) :: Nat.digitChar (c.toNat % 16) ::
      rest) = some (.char c, rest) := by
  have table : ∀ n < 0x20, Numeral.read? 16 ['0', '0', Nat.digitChar (n / 16), Nat.digitChar (n % 16)] =
      some n := by decide
  rw [escape?, table _ hc, Option.map_some, unitOf, if_neg (by omega), Char.ofNat_toNat]

/-- A character is read back from its written form, with fuel for one unit. -/
theorem units?_escapeChar (c : Char) (fuel : Nat) (rest : List Char) :
    units? (fuel + 1) (escapeChar c ++ rest) =
      (units? fuel rest).map fun (us, rest) => (.char c :: us, rest) := by
  rw [escapeChar]
  -- Seven characters have an escape of two.
  iterate 7
    split
    · subst_vars
      rfl
  split
  · rename_i hcontrol
    simp only [List.cons_append, List.nil_append, units?, escape?_control hcontrol]
  · rename_i hquote hbackslash _ _ _ _ _ hplain
    rw [List.singleton_append, units?, if_neg hplain]
    · exact fun h => hquote h
    · exact fun h => hbackslash h

/-- Every text within quotes is read back. -/
theorem units?_quoted {fuel : Nat} {text : List Char} (hfuel : text.length < fuel)
    (rest : List Char) :
    units? fuel (text.flatMap escapeChar ++ '"' :: rest) = some (text.map .char, rest) := by
  obtain ⟨fuel, rfl⟩ := Nat.exists_eq_add_of_le' (Nat.one_le_of_lt hfuel)
  induction text generalizing fuel with
  | nil => rfl
  | cons c text ih =>
    rw [List.length_cons] at hfuel
    obtain ⟨fuel, rfl⟩ := Nat.exists_eq_add_of_le' (show 1 ≤ fuel by omega)
    rw [List.flatMap_cons, List.append_assoc, units?_escapeChar, ih fuel (by omega)]
    rfl

/-- Characters make up their text. -/
theorem textOf_chars (text : List Char) : textOf (text.map .char) = some text := by
  induction text with
  | nil => rfl
  | cons c text ih => rw [List.map_cons, textOf, ih, Option.map_some]

/-- Each character is written as at least one. -/
theorem length_le_flatMap_escapeChar (text : List Char) :
    text.length ≤ (text.flatMap escapeChar).length := by
  induction text with
  | nil => exact Nat.zero_le _
  | cons c text ih =>
    have hc : 1 ≤ (escapeChar c).length := by
      rw [escapeChar]
      repeat' split
      all_goals exact Nat.le_add_left 1 _
    rw [List.flatMap_cons, List.length_append, List.length_cons]
    omega

/-- A quoted text is read back up to its closing quote. -/
theorem stringBody?_quoted (text rest : List Char) :
    stringBody? (text.flatMap escapeChar ++ '"' :: rest) = some (some text, rest) := by
  have hlength := length_le_flatMap_escapeChar text
  rw [stringBody?, units?_quoted, Option.map_some]
  · dsimp only
    rw [textOf_chars]
  · rw [List.length_append]
    omega

/-- A quoted text is read back. -/
theorem isText_quote (text : List Char) : IsText (quote text) (.string (some text)) := by
  refine ⟨⟨_, _, rfl, rfl, by decide⟩, fun fuel rest hfuel _ => ?_⟩
  obtain ⟨fuel, rfl⟩ := Nat.exists_eq_add_of_le' (Nat.one_le_of_lt hfuel)
  have hbody := stringBody?_quoted text rest
  have hshape : quote text ++ rest = '"' :: (text.flatMap escapeChar ++ '"' :: rest) := by
    simp [quote]
  rw [hshape, value?, skipBlanks_cons rfl]
  simp only [hbody, Option.map_some]

/-! ## Arrays -/

/-- Written forms with commas between them are read back as the items of an array. -/
theorem items?_written {texts : List (List Char)} {values : List Json}
    (h : List.Forall₂ IsText texts values) (hne : texts ≠ []) (fuel : Nat)
    (hfuel : ([','].intercalate texts).length + 1 < fuel) (rest : List Char) :
    items? fuel ([','].intercalate texts ++ ']' :: rest) = some (values, rest) := by
  induction h generalizing fuel with
  | nil => exact absurd rfl hne
  | @cons text value texts values hfirst hothers ih =>
    obtain ⟨fuel, rfl⟩ := Nat.exists_eq_add_of_le' (Nat.one_le_of_lt hfuel)
    -- The last item is followed by the bracket, every other one by a comma.
    cases hothers with
    | nil =>
      rw [List.intercalate_singleton] at hfuel ⊢
      rw [items?, hfirst.reads fuel (']' :: rest) (by omega) (by simp [EndsValue])]
      rfl
    | @cons text' _ texts' _ hnext hlast =>
      rw [List.intercalate_cons_cons] at hfuel ⊢
      simp only [List.length_append, List.length_singleton] at hfuel
      obtain ⟨c, tail, hstarts, -⟩ := hfirst.starts
      have hpos : 0 < text.length := hstarts ▸ Nat.succ_pos _
      have hrest := ih (List.cons_ne_nil _ _) fuel (by omega)
      rw [List.append_assoc, List.append_assoc, List.singleton_append, items?,
        hfirst.reads fuel _ (by omega) (by simp [EndsValue])]
      simp only [skipBlanks_cons (show isBlank ',' = false from rfl), hrest, Option.map_some]

/-- What begins neither with a blank nor with a bracket is read as the items of an array. -/
theorem value?_array {c : Char} (hblank : isBlank c = false) (hc : c ≠ ']') (fuel : Nat)
    (rest : List Char) :
    value? (fuel + 1) ('[' :: c :: rest) =
      (items? fuel (c :: rest)).map fun (items, rest) => (.array items, rest) := by
  have hbracket : isBlank '[' = false := rfl
  simp [value?, skipBlanks_cons hbracket, skipBlanks_cons hblank, hc]

/-- A written array is read back, if each of its items is. -/
theorem isText_writeArray {texts : List (List Char)} {values : List Json}
    (h : List.Forall₂ IsText texts values) : IsText (writeArray texts) (.array values) := by
  refine ⟨⟨_, _, rfl, rfl, by decide⟩, fun fuel rest hfuel _ => ?_⟩
  obtain ⟨fuel, rfl⟩ := Nat.exists_eq_add_of_le' (Nat.one_le_of_lt hfuel)
  have hshape : writeArray texts ++ rest = '[' :: ([','].intercalate texts ++ ']' :: rest) := by
    simp [writeArray]
  have hlength : (writeArray texts).length = ([','].intercalate texts).length + 2 := by
    simp [writeArray]
  rw [hshape]
  cases h with
  | nil => rfl
  | @cons text value texts values hfirst hothers =>
    have hitems := items?_written (.cons hfirst hothers) (List.cons_ne_nil _ _) fuel
      (by omega) rest
    obtain ⟨c, tail, hstarts, hblank, hc⟩ := hfirst.starts
    -- The first item shows that the array is not empty: no value begins with a closing bracket.
    obtain ⟨more, hmore⟩ : ∃ more, [','].intercalate (text :: texts) = c :: more := by
      cases texts with
      | nil => exact ⟨tail, by rw [List.intercalate_singleton, hstarts]⟩
      | cons text' texts => exact ⟨_, by rw [List.intercalate_cons_cons, hstarts]; rfl⟩
    rw [hmore, List.cons_append] at hitems ⊢
    rw [value?_array hblank hc, hitems]
    rfl

/-! ## Objects -/

/-- The written form of a member of an object. -/
def writeMember (member : String × List Char) : List Char :=
  quote member.1.toList ++ ':' :: member.2

/-- A member is written with its name and a written form of its value. -/
structure IsMember (written : String × List Char) (member : Option (List Char) × Json) : Prop where
  name_eq : member.1 = some written.1.toList
  value : IsText written.2 member.2

/-- A member is its quoted name, a colon, and its value. -/
theorem writeMember_append (member : String × List Char) (after : List Char) :
    writeMember member ++ after =
      '"' :: (member.1.toList.flatMap escapeChar ++ '"' :: ':' :: (member.2 ++ after)) := by
  simp [writeMember, quote]

theorem writeObject_eq (written : List (String × List Char)) :
    writeObject written = '\x7b' :: ([','].intercalate (written.map writeMember) ++ ['\x7d']) :=
  rfl

section Members

variable {written : String × List Char} {member : Option (List Char) × Json} {fuel : Nat}

/-- The last member is read, and the brace behind it ends the object. -/
theorem members?_last (h : IsMember written member) (hfuel : written.2.length < fuel)
    (rest : List Char) :
    members? (fuel + 1) (writeMember written ++ '\x7d' :: rest) = some ([member], rest) := by
  obtain ⟨name, value⟩ := member
  obtain ⟨rfl, hvalue⟩ := h
  have hread := hvalue.reads fuel ('\x7d' :: rest) hfuel (by simp [EndsValue])
  rw [writeMember_append, members?, skipBlanks_cons rfl]
  simp only [stringBody?_quoted, skipBlanks_cons (show isBlank ':' = false from rfl), hread]
  rfl

/-- A member before a comma is read, and then the others. -/
theorem members?_more (h : IsMember written member) (hfuel : written.2.length < fuel)
    (rest : List Char) :
    members? (fuel + 1) (writeMember written ++ ',' :: rest) =
      (members? fuel rest).map fun (others, rest) => (member :: others, rest) := by
  obtain ⟨name, value⟩ := member
  obtain ⟨rfl, hvalue⟩ := h
  have hread := hvalue.reads fuel (',' :: rest) hfuel (by simp [EndsValue])
  rw [writeMember_append, members?, skipBlanks_cons rfl]
  simp only [stringBody?_quoted, skipBlanks_cons (show isBlank ':' = false from rfl), hread]
  rfl

end Members

/-- Written members with commas between them are read back as the members of an object. -/
theorem members?_written {written : List (String × List Char)}
    {members : List (Option (List Char) × Json)} (h : List.Forall₂ IsMember written members)
    (hne : written ≠ []) (fuel : Nat)
    (hfuel : ([','].intercalate (written.map writeMember)).length + 1 < fuel) (rest : List Char) :
    members? fuel ([','].intercalate (written.map writeMember) ++ '\x7d' :: rest) =
      some (members, rest) := by
  induction h generalizing fuel with
  | nil => exact absurd rfl hne
  | @cons first member written members hfirst hothers ih =>
    obtain ⟨fuel, rfl⟩ := Nat.exists_eq_add_of_le' (Nat.one_le_of_lt hfuel)
    have hlength : first.2.length + 3 ≤ (writeMember first).length := by
      simp [writeMember, quote]
    -- The last member is followed by the brace, every other one by a comma.
    cases hothers with
    | nil =>
      rw [List.map_singleton, List.intercalate_singleton] at hfuel ⊢
      exact members?_last hfirst (by omega) rest
    | @cons next _ written _ hnext hlast =>
      rw [List.map_cons, List.map_cons, List.intercalate_cons_cons] at hfuel ⊢
      simp only [List.length_append, List.length_singleton] at hfuel
      have hrest := ih (List.cons_ne_nil _ _) fuel (by rw [List.map_cons]; omega)
      rw [List.map_cons] at hrest
      rw [List.append_assoc, List.append_assoc, List.singleton_append,
        members?_more hfirst (by omega), hrest]
      rfl

/-- What begins with a quote is read as the members of an object. -/
theorem value?_object (fuel : Nat) (rest : List Char) :
    value? (fuel + 1) ('\x7b' :: '"' :: rest) =
      (members? fuel ('"' :: rest)).map fun (members, rest) => (.object members, rest) := by
  rw [value?, skipBlanks_cons rfl]
  rfl

/-- A written object is read back, if each of its members is. -/
theorem isText_writeObject {written : List (String × List Char)}
    {members : List (Option (List Char) × Json)} (h : List.Forall₂ IsMember written members) :
    IsText (writeObject written) (.object members) := by
  refine ⟨⟨_, _, rfl, rfl, by decide⟩, fun fuel rest hfuel _ => ?_⟩
  obtain ⟨fuel, rfl⟩ := Nat.exists_eq_add_of_le' (Nat.one_le_of_lt hfuel)
  rw [writeObject_eq, List.length_cons, List.length_append, List.length_singleton] at hfuel
  rw [writeObject_eq, List.cons_append, List.append_assoc, List.singleton_append]
  cases h with
  | nil => rfl
  | @cons first member written members hfirst hothers =>
    have hmembers := members?_written (.cons hfirst hothers) (List.cons_ne_nil _ _) fuel
      (by omega) rest
    -- A member begins with a quote, so the object is not taken for an empty one.
    obtain ⟨more, hmore⟩ : ∃ more,
        [','].intercalate ((first :: written).map writeMember) = '"' :: more := by
      cases written with
      | nil => exact ⟨_, by rw [List.map_singleton, List.intercalate_singleton]; rfl⟩
      | cons next written =>
        exact ⟨_, by rw [List.map_cons, List.map_cons, List.intercalate_cons_cons]; rfl⟩
    rw [hmore, List.cons_append] at hmembers ⊢
    rw [value?_object, hmembers]
    rfl

end Ensemble.Json
