import Ensemble.Text.Numeral
import Mathlib.Data.Nat.Digits.Defs

/-!
# What a decimal numeral stands for

The value of decimal digits is that of positional notation, in which the last digit counts ones.
`Numeral.read?` reads exactly the nonempty runs of digits, with any number of leading zeros. A
signed numeral has at most one sign in front of its digits.

* `Numeral.read?_ten_eq_some_iff` — what is read, and as which number.
* `Numeral.denotes_toDigits`, `Numeral.denotes_neg_toDigits` — what is written denotes its number.
-/

namespace Ensemble.Numeral

/-- The number that decimal digits spell. -/
def value (digits : List Char) : Nat :=
  Nat.ofDigits 10 (digits.reverse.map fun c => c.toNat - '0'.toNat)

/-- At least one character, and nothing but the ten ASCII digits. -/
structure IsDecimal (text : List Char) : Prop where
  ne_nil : text ≠ []
  digits : ∀ c ∈ text, '0' ≤ c ∧ c ≤ '9'

theorem value_nil : value [] = 0 := rfl

/-- A digit counts for the places behind it. -/
theorem value_cons (c : Char) (rest : List Char) :
    value (c :: rest) = (c.toNat - '0'.toNat) * 10 ^ rest.length + value rest := by
  rw [value, value, List.reverse_cons, List.map_append, Nat.ofDigits_append, List.map_singleton,
    Nat.ofDigits_singleton, List.length_map, List.length_reverse, Nat.add_comm, Nat.mul_comm]

/-! ## Reading -/

/-- Only the ten digits have a value below ten. -/
theorem digitValue?_ten_eq_some_iff {c : Char} {d : Nat} :
    digitValue? 10 c = some d ↔ ('0' ≤ c ∧ c ≤ '9') ∧ d = c.toNat - '0'.toNat := by
  rw [digitValue?]
  by_cases hdigit : '0' ≤ c ∧ c ≤ '9'
  · have hhigh : c.toNat ≤ 57 := hdigit.2
    have hzero : '0'.toNat = 48 := rfl
    simp only [if_pos hdigit, hzero]
    rw [if_pos (by omega), Option.some.injEq]
    exact ⟨fun h => ⟨hdigit, h.symm⟩, fun h => h.2.symm⟩
  · -- Letters are digits too, but none of them is below ten.
    have hnone : ¬(if 'a' ≤ c ∧ c ≤ 'f' then c.toNat - 87
        else if 'A' ≤ c ∧ c ≤ 'F' then c.toNat - 55 else 10) < 10 := by
      split
      · rename_i hlower
        have hlow : 97 ≤ c.toNat := hlower.1
        omega
      split
      · rename_i hupper
        have hlow : 65 ≤ c.toNat := hupper.1
        omega
      · omega
    simp only [if_neg hdigit, if_neg hnone]
    exact ⟨fun h => absurd h (by simp), fun h => absurd h.1 hdigit⟩

/-- Each further digit moves those before it up by one place. -/
theorem readFrom?_ten_eq_some_iff {acc n : Nat} {text : List Char} :
    readFrom? 10 acc text = some n ↔
      (∀ c ∈ text, '0' ≤ c ∧ c ≤ '9') ∧ n = acc * 10 ^ text.length + value text := by
  -- Induction on the digits: what was read so far moves up by one place each time.
  induction text generalizing acc with
  | nil => simp [readFrom?, value_nil, eq_comm]
  | cons c rest ih =>
    rw [readFrom?, List.forall_mem_cons, List.length_cons, value_cons]
    have hplaces (d : Nat) : (acc * 10 + d) * 10 ^ rest.length + value rest =
        acc * 10 ^ (rest.length + 1) + (d * 10 ^ rest.length + value rest) := by
      ring
    cases hd : digitValue? 10 c with
    | none =>
      have hno : ¬('0' ≤ c ∧ c ≤ '9') := fun h => by
        rw [digitValue?_ten_eq_some_iff.mpr ⟨h, rfl⟩] at hd
        cases hd
      simp [hno]
    | some d =>
      obtain ⟨hdigit, rfl⟩ := digitValue?_ten_eq_some_iff.mp hd
      dsimp only
      rw [ih, hplaces, and_iff_right hdigit]

/-- What is read is a nonempty run of digits, as the number that they spell. -/
theorem read?_ten_eq_some_iff {text : List Char} {n : Nat} :
    read? 10 text = some n ↔ IsDecimal text ∧ n = value text := by
  by_cases hne : text = []
  · subst hne
    simpa using fun h : IsDecimal [] => absurd rfl h.ne_nil
  · rw [read?_of_ne_nil hne, readFrom?_ten_eq_some_iff, Nat.zero_mul, Nat.zero_add]
    exact and_congr_left fun _ => ⟨fun h => ⟨hne, h⟩, fun h => h.digits⟩

/-! ## Signs -/

/-- A text denotes a number: decimal digits after at most one sign. -/
inductive Denotes : List Char → Int → Prop
  | unsigned {digits : List Char} (h : IsDecimal digits) : Denotes digits (value digits)
  | plus {digits : List Char} (h : IsDecimal digits) : Denotes ('+' :: digits) (value digits)
  | minus {digits : List Char} (h : IsDecimal digits) : Denotes ('-' :: digits) (-value digits)

/-- After a plus the digits are the number. -/
theorem denotes_plus_iff {digits : List Char} {n : Int} :
    Denotes ('+' :: digits) n ↔ ∃ m : Nat, read? 10 digits = some m ∧ (m : Int) = n := by
  simp only [read?_ten_eq_some_iff]
  constructor
  · intro h
    cases h with
    | unsigned h => exact absurd (h.digits '+' List.mem_cons_self) (by decide)
    | plus h => exact ⟨_, ⟨h, rfl⟩, rfl⟩
  · rintro ⟨_, ⟨h, rfl⟩, rfl⟩
    exact .plus h

/-- After a minus the digits are the number without its sign. -/
theorem denotes_minus_iff {digits : List Char} {n : Int} :
    Denotes ('-' :: digits) n ↔ ∃ m : Nat, read? 10 digits = some m ∧ -(m : Int) = n := by
  simp only [read?_ten_eq_some_iff]
  constructor
  · intro h
    cases h with
    | unsigned h => exact absurd (h.digits '-' List.mem_cons_self) (by decide)
    | minus h => exact ⟨_, ⟨h, rfl⟩, rfl⟩
  · rintro ⟨_, ⟨h, rfl⟩, rfl⟩
    exact .minus h

/-- Without a sign the digits are the number. -/
theorem denotes_unsigned_iff {text : List Char} {n : Int} (hplus : ∀ digits, text ≠ '+' :: digits)
    (hminus : ∀ digits, text ≠ '-' :: digits) :
    Denotes text n ↔ ∃ m : Nat, read? 10 text = some m ∧ (m : Int) = n := by
  simp only [read?_ten_eq_some_iff]
  constructor
  · intro h
    cases h with
    | unsigned h => exact ⟨_, ⟨h, rfl⟩, rfl⟩
    | plus => exact absurd rfl (hplus _)
    | minus => exact absurd rfl (hminus _)
  · rintro ⟨_, ⟨h, rfl⟩, rfl⟩
    exact .unsigned h

/-- What is written for a number is decimal, and spells the number. -/
theorem isDecimal_toDigits (n : Nat) :
    IsDecimal (Nat.toDigits 10 n) ∧ n = value (Nat.toDigits 10 n) :=
  read?_ten_eq_some_iff.mp (read?_toDigits (by omega) (by omega) n)

/-- A number is denoted by its digits. -/
theorem denotes_toDigits (n : Nat) : Denotes (Nat.toDigits 10 n) n := by
  obtain ⟨hdecimal, hvalue⟩ := isDecimal_toDigits n
  have h := Denotes.unsigned hdecimal
  rwa [← hvalue] at h

/-- A negative number is denoted by a minus and its digits. -/
theorem denotes_neg_toDigits (n : Nat) : Denotes ('-' :: Nat.toDigits 10 n) (-n) := by
  obtain ⟨hdecimal, hvalue⟩ := isDecimal_toDigits n
  have h := Denotes.minus hdecimal
  rwa [← hvalue] at h

end Ensemble.Numeral
