/-!
# Splitting a text at a separator

`splitOn sep` cuts a text at every occurrence of one character. Joining the pieces with
`List.intercalate [sep]` gives the text back, and cutting a joined list whose pieces are free of the
separator gives the list back.
-/

namespace Ensemble.Text

/-- The pieces of a text between the occurrences of `sep`; there is one more piece than there are
separators. -/
def splitOn (sep : Char) : List Char → List (List Char)
  | [] => [[]]
  | c :: rest =>
    if c = sep then [] :: splitOn sep rest
    else
      match splitOn sep rest with
      | [] => [[c]]
      | piece :: pieces => (c :: piece) :: pieces

theorem splitOn_ne_nil (sep : Char) (text : List Char) : splitOn sep text ≠ [] := by
  cases text with
  | nil => simp [splitOn]
  | cons c rest =>
    simp only [splitOn]
    split
    · simp
    · split <;> simp

/-- A text without the separator is its own only piece. -/
theorem splitOn_of_not_mem {sep : Char} {text : List Char} (h : sep ∉ text) :
    splitOn sep text = [text] := by
  induction text with
  | nil => rfl
  | cons c rest ih =>
    have hc : c ≠ sep := fun e => h (by simp [e])
    have hr : sep ∉ rest := fun m => h (List.mem_cons_of_mem _ m)
    simp [splitOn, hc, ih hr]

/-- The first separator ends the first piece. -/
theorem splitOn_append_cons {sep : Char} {piece : List Char} (h : sep ∉ piece)
    (rest : List Char) : splitOn sep (piece ++ sep :: rest) = piece :: splitOn sep rest := by
  induction piece with
  | nil => simp [splitOn]
  | cons c piece ih =>
    have hc : c ≠ sep := fun e => h (by simp [e])
    have hr : sep ∉ piece := fun m => h (List.mem_cons_of_mem _ m)
    simp [splitOn, hc, ih hr]

/-- Cutting a joined list gives the list back, if no piece holds the separator. -/
theorem splitOn_intercalate {sep : Char} {pieces : List (List Char)} (hne : pieces ≠ [])
    (h : ∀ p ∈ pieces, sep ∉ p) : splitOn sep ([sep].intercalate pieces) = pieces := by
  induction pieces with
  | nil => exact absurd rfl hne
  | cons p rest ih =>
    cases rest with
    | nil =>
      rw [List.intercalate_singleton]
      exact splitOn_of_not_mem (h p (by simp))
    | cons q rest =>
      rw [List.intercalate_cons_cons, List.append_assoc, List.singleton_append,
        splitOn_append_cons (h p (by simp)),
        ih (by simp) fun x hx => h x (List.mem_cons_of_mem _ hx)]

/-- Nothing but separators is lost: every other character stands in one of the pieces. -/
theorem exists_mem_splitOn {sep c : Char} {text : List Char} (hc : c ∈ text) (hne : c ≠ sep) :
    ∃ piece ∈ splitOn sep text, c ∈ piece := by
  induction text with
  | nil => exact absurd hc List.not_mem_nil
  | cons x rest ih =>
    rw [splitOn]
    split
    · rename_i hx
      rcases List.mem_cons.mp hc with rfl | hc
      · exact absurd hx hne
      · obtain ⟨piece, hp, hm⟩ := ih hc
        exact ⟨piece, List.mem_cons_of_mem _ hp, hm⟩
    · split
      · rename_i h
        exact absurd h (splitOn_ne_nil sep rest)
      · rename_i first others h
        rcases List.mem_cons.mp hc with rfl | hc
        · exact ⟨c :: first, List.mem_cons_self, List.mem_cons_self⟩
        · obtain ⟨piece, hp, hm⟩ := ih hc
          rw [h] at hp
          rcases List.mem_cons.mp hp with rfl | hp
          · exact ⟨x :: piece, List.mem_cons_self, List.mem_cons_of_mem _ hm⟩
          · exact ⟨piece, List.mem_cons_of_mem _ hp, hm⟩

end Ensemble.Text
