import Ensemble.Text.Words
import Mathlib.Data.List.Forall2

/-!
# What the words of a line are

A line splits into words if it is those words with gaps of white space before, between and after
them, where a gap between two words is never empty. Every line does so in exactly one way, and
`Text.words` finds it. Words are compared without regard to the case of ASCII letters.

* `Text.words_eq_iff` — the words of a line are what it splits into.
* `Text.asciiLower_eq_iff` — lower case, letter by letter.
-/

namespace Ensemble.Text

/-- A line splits into words: a gap, a word up to the next white space, and so on with the rest. -/
inductive SplitsInto : List Char → List (List Char) → Prop
  | blank {gap : List Char} (hgap : ∀ c ∈ gap, isWhiteSpace c = true) : SplitsInto gap []
  | word {gap word rest : List Char} {others : List (List Char)}
      (hgap : ∀ c ∈ gap, isWhiteSpace c = true) (hne : word ≠ [])
      (hword : ∀ c ∈ word, isWhiteSpace c = false)
      (hend : ∀ c ∈ rest.head?, isWhiteSpace c = true) (hrest : SplitsInto rest others) :
      SplitsInto (gap ++ word ++ rest) (word :: others)

/-! ## Words in front of white space -/

/-- White space in front makes no difference. -/
theorem words_append_of_blank {gap : List Char} (hgap : ∀ c ∈ gap, isWhiteSpace c = true)
    (text : List Char) : words (gap ++ text) = words text := by
  induction gap with
  | nil => rfl
  | cons c gap ih =>
    rw [List.cons_append, words, if_pos (hgap c List.mem_cons_self)]
    exact ih fun x hx => hgap x (List.mem_cons_of_mem c hx)

/-- In a gap there is no word. -/
theorem words_of_blank {gap : List Char} (hgap : ∀ c ∈ gap, isWhiteSpace c = true) :
    words gap = [] := by
  rw [← List.append_nil gap, words_append_of_blank hgap, words]

/-- A word is cut off at the next white space, which is lost. -/
theorem takeWord_append {word rest : List Char} (hword : ∀ c ∈ word, isWhiteSpace c = false)
    (hend : ∀ c ∈ rest.head?, isWhiteSpace c = true) : takeWord (word ++ rest) = (word, rest.tail) := by
  induction word with
  | nil =>
    cases rest with
    | nil => rfl
    | cons c rest => rw [List.nil_append, takeWord, if_pos (hend c rfl), List.tail_cons]
  | cons c word ih =>
    have hc : ¬isWhiteSpace c = true := by simp [hword c List.mem_cons_self]
    rw [List.cons_append, takeWord, if_neg hc, ih fun x hx => hword x (List.mem_cons_of_mem c hx)]

/-- After a word its first white space makes no difference either. -/
theorem words_tail {rest : List Char} (hend : ∀ c ∈ rest.head?, isWhiteSpace c = true) :
    words rest.tail = words rest := by
  cases rest with
  | nil => rfl
  | cons c rest => rw [words, if_pos (hend c rfl), List.tail_cons]

/-- A word goes as far as the next gap. -/
theorem words_append_of_word {word rest : List Char} (hne : word ≠ [])
    (hword : ∀ c ∈ word, isWhiteSpace c = false) (hend : ∀ c ∈ rest.head?, isWhiteSpace c = true) :
    words (word ++ rest) = word :: words rest := by
  cases word with
  | nil => exact absurd rfl hne
  | cons c word =>
    have hc : ¬isWhiteSpace c = true := by simp [hword c List.mem_cons_self]
    have htake := takeWord_append (fun x hx => hword x (List.mem_cons_of_mem c hx)) hend
    rw [List.cons_append, words, if_neg hc, htake, words_tail hend]

/-! ## The one way to split a line -/

namespace SplitsInto

variable {line : List Char} {found : List (List Char)}

/-- However a line is split into words and gaps, those are its words. -/
theorem words_eq (h : SplitsInto line found) : words line = found := by
  induction h with
  | blank hgap => exact words_of_blank hgap
  | word hgap hne hword hend _ ih =>
    rw [List.append_assoc, words_append_of_blank hgap, words_append_of_word hne hword hend, ih]

/-- White space in front belongs to the first gap. -/
theorem cons (h : SplitsInto line found) {c : Char} (hc : isWhiteSpace c = true) :
    SplitsInto (c :: line) found := by
  cases h with
  | blank hgap => exact .blank (by simpa using ⟨hc, hgap⟩)
  | @word gap _ _ _ hgap hne hword hend hrest =>
    have hlonger : ∀ x ∈ c :: gap, isWhiteSpace x = true := by simpa using ⟨hc, hgap⟩
    exact .word hlonger hne hword hend hrest

end SplitsInto

/-- What is cut off is a word without its end, and white space stands between it and the rest. -/
theorem exists_rest_of_takeWord (text : List Char) :
    ∃ rest, text = (takeWord text).1 ++ rest ∧ (takeWord text).2 = rest.tail ∧
      (∀ c ∈ (takeWord text).1, isWhiteSpace c = false) ∧
      ∀ c ∈ rest.head?, isWhiteSpace c = true := by
  induction text with
  | nil => exact ⟨[], rfl, rfl, by simp [takeWord], by simp⟩
  | cons c text ih =>
    rw [takeWord]
    split
    · rename_i hc
      exact ⟨c :: text, rfl, rfl, by simp, by simpa using hc⟩
    · rename_i hc
      obtain ⟨rest, heq, htail, hword, hend⟩ := ih
      have hplain : isWhiteSpace c = false := Bool.eq_false_iff.mpr hc
      exact ⟨rest, congrArg (c :: ·) heq, htail, by simpa using ⟨hplain, hword⟩, hend⟩

/-- Every line splits into its words. -/
theorem splitsInto_words (line : List Char) : SplitsInto line (words line) := by
  fun_induction words line with
  | case1 => exact .blank (by simp)
  | case2 c text hc ih => exact ih.cons hc
  | case3 c text hc ih =>
    obtain ⟨rest, heq, htail, hword, hend⟩ := exists_rest_of_takeWord text
    -- What is left begins with a gap, or there is nothing left.
    have hrest : SplitsInto rest (words (takeWord text).2) := by
      cases rest with
      | nil =>
        rw [htail] at ih ⊢
        exact ih
      | cons x rest =>
        rw [htail] at ih ⊢
        exact ih.cons (hend x rfl)
    have hplain : isWhiteSpace c = false := Bool.eq_false_iff.mpr hc
    have hwhole : ∀ x ∈ c :: (takeWord text).1, isWhiteSpace x = false := by
      simpa using ⟨hplain, hword⟩
    have hgap : ∀ x ∈ ([] : List Char), isWhiteSpace x = true := by simp
    have hsplit := SplitsInto.word hgap (List.cons_ne_nil _ _) hwhole hend hrest
    rwa [List.nil_append, List.cons_append, ← heq] at hsplit

/-- The words of a line are what it splits into. -/
theorem words_eq_iff {line : List Char} {found : List (List Char)} :
    words line = found ↔ SplitsInto line found :=
  ⟨fun h => h ▸ splitsInto_words line, SplitsInto.words_eq⟩

/-! ## Lower case -/

/-- The second character is the first one, in lower case if that is a letter of ASCII. -/
def LowersTo (c d : Char) : Prop :=
  ('A'.toNat ≤ c.toNat ∧ c.toNat ≤ 'Z'.toNat ∧ d.toNat = c.toNat + 32) ∨
    (¬('A'.toNat ≤ c.toNat ∧ c.toNat ≤ 'Z'.toNat) ∧ d = c)

/-- A letter from A to Z is lowered by 32, and every other character is left alone. -/
theorem toLower_eq_iff {c d : Char} : c.toLower = d ↔ LowersTo c d := by
  have hupper : (c.val ≥ 'A'.val ∧ c.val ≤ 'Z'.val) ↔
      'A'.toNat ≤ c.toNat ∧ c.toNat ≤ 'Z'.toNat := Iff.rfl
  rw [LowersTo]
  delta Char.toLower
  split
  · rename_i h
    have hbound := hupper.mp h
    -- A letter is far from the end of the code points, so there is no overflow.
    have hsum : (c.val + ('a'.val - 'A'.val)).toNat = c.toNat + 32 := by
      have hlow : c.toNat ≤ 90 := hbound.2
      have hval : c.val.toNat = c.toNat := rfl
      rw [UInt32.toNat_add, hval, show ('a'.val - 'A'.val).toNat = 32 from rfl]
      omega
    constructor
    · rintro rfl
      exact .inl ⟨hbound.1, hbound.2, hsum⟩
    · rintro (⟨-, -, hd⟩ | ⟨hno, -⟩)
      · exact Char.toNat_inj.mp (hsum.trans hd.symm)
      · exact absurd hbound hno
  · rename_i h
    constructor
    · rintro rfl
      exact .inr ⟨fun hbound => h (hupper.mpr hbound), rfl⟩
    · rintro (⟨hlow, hhigh, -⟩ | ⟨-, rfl⟩)
      · exact absurd (hupper.mpr ⟨hlow, hhigh⟩) h
      · rfl

/-- A text in lower case is the text letter by letter in lower case. -/
theorem asciiLower_eq_iff {text lower : List Char} :
    asciiLower text = lower ↔ List.Forall₂ LowersTo text lower := by
  have hmap : asciiLower text = lower ↔ List.Forall₂ (fun c d => c.toLower = d) text lower := by
    rw [asciiLower, ← List.forall₂_eq_eq_eq, List.forall₂_map_left_iff]
  simpa only [toLower_eq_iff] using hmap

end Ensemble.Text
