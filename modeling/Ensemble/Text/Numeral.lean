/-!
# Numerals in a base up to sixteen

A number is written by the library's `Nat.toDigits`, in lower case and without leading zeros, and
read here from a run of digits in which letters may have either case.

* `read?_toDigits` — reading what was written gives the number back.
* `read?_nil` — an empty run is no numeral.
* `exists_digitChar_of_mem_toDigits` — what is written consists of digit characters.
* `head?_toDigits_ne` — what is written for a positive number has no leading zero.
* `digitValue?_isSome_of_readFrom?` — what is read consists of digits.
-/

namespace Ensemble.Numeral

/-- The value of the digit `c` in base `base`, if it is one; a letter counts from ten upwards. -/
def digitValue? (base : Nat) (c : Char) : Option Nat :=
  let value :=
    if '0' ≤ c ∧ c ≤ '9' then c.toNat - 48
    else if 'a' ≤ c ∧ c ≤ 'f' then c.toNat - 87
    else if 'A' ≤ c ∧ c ≤ 'F' then c.toNat - 55
    else base
  if value < base then some value else none

/-- Read on from the value `acc` of the digits so far; one character that is no digit spoils it. -/
def readFrom? (base : Nat) (acc : Nat) : List Char → Option Nat
  | [] => some acc
  | c :: rest =>
    match digitValue? base c with
    | some d => readFrom? base (acc * base + d) rest
    | none => none

/-- Read a nonempty run of digits; leading zeros are allowed. -/
def read? (base : Nat) : List Char → Option Nat
  | [] => none
  | text => readFrom? base 0 text

@[simp] theorem read?_nil (base : Nat) : read? base [] = none := rfl

theorem read?_of_ne_nil {base : Nat} {text : List Char} (h : text ≠ []) :
    read? base text = readFrom? base 0 text := by
  cases text with
  | nil => exact absurd rfl h
  | cons c rest => rfl

/-- Reading goes through a text piece by piece. -/
theorem readFrom?_append (base acc : Nat) (xs ys : List Char) :
    readFrom? base acc (xs ++ ys) = (readFrom? base acc xs).bind (readFrom? base · ys) := by
  induction xs generalizing acc with
  | nil => rfl
  | cons c rest ih =>
    simp only [List.cons_append, readFrom?]
    cases digitValue? base c with
    | none => rfl
    | some d => exact ih _

/-- The sixteen digit characters carry their values. -/
theorem digitValue?_digitChar {base d : Nat} (hd : d < base) (hb : base ≤ 16) :
    digitValue? base d.digitChar = some d := by
  have table : ∀ d < 16, ∀ base ≤ 16, d < base → digitValue? base d.digitChar = some d := by
    decide
  exact table d (by omega) base hb hd

theorem readFrom?_toDigits {base : Nat} (hb : 1 < base) (h16 : base ≤ 16) (n : Nat) :
    readFrom? base 0 (Nat.toDigits base n) = some n := by
  induction n using Nat.strongRecOn with
  | ind n ih =>
    by_cases h : n < base
    · simp [Nat.toDigits_of_lt_base h, readFrom?, digitValue?_digitChar h h16]
    · have hq : n / base < n := Nat.div_lt_self (by omega) hb
      rw [Nat.toDigits_of_base_le hb (by omega), readFrom?_append, ih _ hq]
      have hm : n % base < base := Nat.mod_lt _ (by omega)
      simp [readFrom?, digitValue?_digitChar hm h16, Nat.div_add_mod']

/-- Reading what was written gives the number back. -/
theorem read?_toDigits {base : Nat} (hb : 1 < base) (h16 : base ≤ 16) (n : Nat) :
    read? base (Nat.toDigits base n) = some n := by
  rw [read?_of_ne_nil Nat.toDigits_ne_nil, readFrom?_toDigits hb h16]

/-- What is written consists of digit characters. -/
theorem exists_digitChar_of_mem_toDigits {base n : Nat} (hb : 1 < base) {c : Char}
    (hc : c ∈ Nat.toDigits base n) : ∃ d < base, c = d.digitChar := by
  induction n using Nat.strongRecOn with
  | ind n ih =>
    by_cases h : n < base
    · rw [Nat.toDigits_of_lt_base h, List.mem_singleton] at hc
      exact ⟨n, h, hc⟩
    · rw [Nat.toDigits_of_base_le hb (by omega), List.mem_append, List.mem_singleton] at hc
      rcases hc with hc | hc
      · exact ih _ (Nat.div_lt_self (by omega) hb) hc
      · exact ⟨n % base, Nat.mod_lt _ (by omega), hc⟩

/-- What is written for a positive number has no leading zero. -/
theorem head?_toDigits_ne {base n : Nat} (hb : 1 < base) (h16 : base ≤ 16) (hn : 0 < n) :
    (Nat.toDigits base n).head? ≠ some '0' := by
  induction n using Nat.strongRecOn with
  | ind n ih =>
    by_cases h : n < base
    · have table : ∀ d < 16, 0 < d → d.digitChar ≠ '0' := by decide
      rw [Nat.toDigits_of_lt_base h, List.head?_cons, ne_eq, Option.some.injEq]
      exact table n (by omega) hn
    · have hq : 0 < n / base := Nat.div_pos (by omega) (by omega)
      have hfront := ih _ (Nat.div_lt_self (by omega) hb) hq
      obtain ⟨c, rest, hd⟩ := List.exists_cons_of_ne_nil
        (Nat.toDigits_ne_nil (b := base) (n := n / base))
      rw [Nat.toDigits_of_base_le hb (by omega), hd]
      rw [hd] at hfront
      exact hfront

/-- What is read consists of digits. -/
theorem digitValue?_isSome_of_readFrom? {base acc n : Nat} {text : List Char}
    (h : readFrom? base acc text = some n) {c : Char} (hc : c ∈ text) :
    (digitValue? base c).isSome := by
  induction text generalizing acc with
  | nil => exact absurd hc List.not_mem_nil
  | cons x rest ih =>
    rw [readFrom?] at h
    split at h
    · rename_i d hd
      rcases List.mem_cons.mp hc with rfl | hc
      · rw [hd]
        rfl
      · exact ih h hc
    · cases h

end Ensemble.Numeral
