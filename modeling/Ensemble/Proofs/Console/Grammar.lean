import Ensemble.Console.Command
import Ensemble.Proofs.Text.Numeral
import Ensemble.Proofs.Text.Words

/-!
# The grammar of the console

What a line of words means, said without the parser: the first word names a command, in upper or
lower case, and a song's number follows the name of the command that takes one. A line has exactly
one meaning, and `Command.parse` finds it.

* `SongId.parse?_eq_some_iff` — a song's number is a signed numeral within 32 bits.
* `Command.named?_eq_some_iff` — the table of names is the names of each command.
* `console_grammar` — the parser accepts exactly the grammar.
-/

namespace Ensemble

/-! ## The numbers of songs -/

/-- Within 32 bits every number is that of a song. -/
theorem SongId.ofInt_eq_iff {n : Int} {song : SongId} :
    (if -2147483648 ≤ n ∧ n ≤ 2147483647 then some (Int32.ofInt n) else none) = some song ↔
      n = song.toInt := by
  have hlow := song.le_toInt
  have hhigh := song.toInt_lt
  split
  · rw [Option.some.injEq]
    constructor
    · rintro rfl
      exact (Int32.toInt_ofInt_of_le (by omega) (by omega)).symm
    · rintro rfl
      exact Int32.ofInt_toInt song
  · simp only [reduceCtorEq, false_iff]
    omega

/-- What is read as the number of a song denotes it. -/
theorem SongId.parse?_eq_some_iff {text : List Char} {song : SongId} :
    SongId.parse? text = some song ↔ Numeral.Denotes text song.toInt := by
  unfold SongId.parse?
  dsimp only
  -- A number is read, within 32 bits or not, or none is; in each case behind one of the signs.
  split
  · rename_i n hsigned
    rw [SongId.ofInt_eq_iff]
    split at hsigned <;>
      simp only [bind_pure_comp, Option.map_eq_map, Option.map_map, Option.map_eq_some_iff]
        at hsigned <;>
      obtain ⟨m, hread, rfl⟩ := hsigned
    · simp [Numeral.denotes_minus_iff, hread]
    · simp [Numeral.denotes_plus_iff, hread]
    · rename_i hminus hplus
      simp [Numeral.denotes_unsigned_iff hplus hminus, hread]
  · rename_i hsigned
    split at hsigned <;>
      simp only [bind_pure_comp, Option.map_eq_map, Option.map_eq_none_iff] at hsigned
    · simp [Numeral.denotes_minus_iff, hsigned]
    · simp [Numeral.denotes_plus_iff, hsigned]
    · rename_i hminus hplus
      simp [Numeral.denotes_unsigned_iff hplus hminus, hsigned]

/-- No number of a song is what denotes none, or one outside the range of the type. -/
theorem SongId.parse?_eq_none_iff {text : List Char} :
    SongId.parse? text = none ↔
      ∀ n, Numeral.Denotes text n → n < -2147483648 ∨ 2147483647 < n := by
  constructor
  · intro hnone n hn
    by_contra hin
    have hsong : (Int32.ofInt n).toInt = n := Int32.toInt_ofInt_of_le (by omega) (by omega)
    rw [SongId.parse?_eq_some_iff.mpr (hsong ▸ hn)] at hnone
    cases hnone
  · intro hout
    cases hsong : SongId.parse? text with
    | none => rfl
    | some song =>
      have hlow := song.le_toInt
      have hhigh := song.toInt_lt
      have := hout _ (SongId.parse?_eq_some_iff.mp hsong)
      omega

/-- The decimal form of a song's number denotes it. -/
theorem SongId.denotes_render (song : SongId) : Numeral.Denotes song.render.toList song.toInt := by
  rw [SongId.render]
  generalize song.toInt = n
  -- The text of an integer is that of its absolute value, behind a minus if it is negative.
  cases n with
  | ofNat m =>
    have htext : (toString (Int.ofNat m)).toList = Nat.toDigits 10 m := String.toList_ofList
    rw [htext]
    exact Numeral.denotes_toDigits m
  | negSucc m =>
    have htext : (toString (Int.negSucc m)).toList = '-' :: Nat.toDigits 10 (m + 1) := by
      show ("-" ++ String.ofList (Nat.toDigits 10 (m + 1))).toList = _
      simp only [String.toList_append, String.toList_ofList]
      rfl
    rw [htext]
    exact Numeral.denotes_neg_toDigits (m + 1)

namespace Numeral

/-- Digits are not white space. -/
theorem IsDecimal.isWhiteSpace_eq_false {digits : List Char} (h : IsDecimal digits) :
    ∀ c ∈ digits, Text.isWhiteSpace c = false := by
  have table : ∀ c ∈ Text.whiteSpace, ¬('0' ≤ c ∧ c ≤ '9') := by simp [Text.whiteSpace]
  intro c hc
  rw [Bool.eq_false_iff]
  exact fun hblank => table c (List.contains_iff_mem.mp hblank) (h.digits c hc)

/-- A numeral is a word. -/
theorem Denotes.isWord {text : List Char} {n : Int} (h : Denotes text n) :
    text ≠ [] ∧ ∀ c ∈ text, Text.isWhiteSpace c = false := by
  cases h with
  | unsigned h => exact ⟨h.ne_nil, h.isWhiteSpace_eq_false⟩
  | plus h =>
    exact ⟨List.cons_ne_nil _ _,
      List.forall_mem_cons.mpr ⟨by decide, h.isWhiteSpace_eq_false⟩⟩
  | minus h =>
    exact ⟨List.cons_ne_nil _ _,
      List.forall_mem_cons.mpr ⟨by decide, h.isWhiteSpace_eq_false⟩⟩

end Numeral

/-! ## The grammar -/

namespace Command

/-- The names of a command, in lower case. -/
def spellings : Command → List String
  | .togglePause => ["pause", "p"]
  | .start => ["start"]
  | .stop => ["stop"]
  | .skip => ["skip", "next", "n"]
  | .add _ => ["add", "a"]
  | .status => ["status", "s"]
  | .register => ["register", "registrieren"]
  | .help => ["hilfe", "help", "?"]
  | .quit => ["quit", "exit", "q"]

/-- The word is one of the command's names, in upper or lower case. -/
def IsNamed (command : Command) (word : List Char) : Prop :=
  ∃ name ∈ command.spellings, List.Forall₂ Text.LowersTo word name.toList

/-- What a line of words means. -/
inductive Means : List (List Char) → Except CommandError Command → Prop
  | empty : Means [] (.error .empty)
  | add {first second : List Char} {rest : List (List Char)} {song : SongId}
      (hadd : (Command.add song).IsNamed first) (hsong : Numeral.Denotes second song.toInt) :
      Means (first :: second :: rest) (.ok (.add song))
  | missingSong {first : List Char} {song : SongId} (hadd : (Command.add song).IsNamed first) :
      Means [first] (.error .missingSong)
  | invalidSong {first second : List Char} {rest : List (List Char)} {song : SongId}
      (hadd : (Command.add song).IsNamed first)
      (hsong : ∀ n, Numeral.Denotes second n → n < -2147483648 ∨ 2147483647 < n) :
      Means (first :: second :: rest) (.error (.invalidSong second))
  /-- The words after the name of any other command are ignored. -/
  | plain {first : List Char} {rest : List (List Char)} {command : Command}
      (hother : ∀ song, command ≠ .add song) (hnamed : command.IsNamed first) :
      Means (first :: rest) (.ok command)
  | unknown {first lower : List Char} {rest : List (List Char)}
      (hnone : ∀ command : Command, ¬command.IsNamed first)
      (hlower : List.Forall₂ Text.LowersTo first lower) :
      Means (first :: rest) (.error (.unknown lower))

/-! ## The names of the commands -/

variable {word : List Char} {command : Command}

/-- A word names a command exactly if it is one of its spellings in whatever case. -/
theorem isNamed_iff : command.IsNamed word ↔
    ∃ name ∈ command.spellings, name.toList = Text.asciiLower word := by
  simp only [IsNamed, ← Text.asciiLower_eq_iff, eq_comm]

theorem addNames_any_iff {song : SongId} :
    addNames.any (·.toList == Text.asciiLower word) = true ↔ (Command.add song).IsNamed word := by
  rw [isNamed_iff, List.any_eq_true]
  simp only [beq_iff_eq]
  rfl

/-- The table of names has the names of the commands that take no song, and no others. -/
theorem mem_names_iff {name : String} : (name, command) ∈ names ↔
    (∀ song, command ≠ .add song) ∧ name ∈ command.spellings := by
  cases command <;> simp [names, spellings]

/-- No name stands for two commands. -/
theorem eq_of_mem_spellings {other : Command} {name : String} (h : name ∈ command.spellings)
    (h' : name ∈ other.spellings) (hother : ∀ song, command ≠ .add song) : command = other := by
  have table : ∀ x ∈ names, x.1 ∉ ["add", "a"] ∧ ∀ y ∈ names, x.1 = y.1 → x.2 = y.2 := by decide
  obtain ⟨hadd, hnames⟩ := table _ (mem_names_iff.mpr ⟨hother, h⟩)
  by_cases hother' : ∀ song, other ≠ .add song
  · exact hnames _ (mem_names_iff.mpr ⟨hother', h'⟩) rfl
  · push Not at hother'
    obtain ⟨song, rfl⟩ := hother'
    exact absurd h' hadd

/-- A word is found in the table as the command, other than the addition of a song,
that it names. -/
theorem named?_eq_some_iff : named? (Text.asciiLower word) = some command ↔
    (∀ song, command ≠ .add song) ∧ command.IsNamed word := by
  rw [named?, isNamed_iff, Option.map_eq_some_iff]
  constructor
  · rintro ⟨⟨name, found⟩, hfind, rfl⟩
    have hname : name.toList = Text.asciiLower word := by simpa using List.find?_some hfind
    obtain ⟨hother, hmem⟩ := mem_names_iff.mp (List.mem_of_find?_eq_some hfind)
    exact ⟨hother, name, hmem, hname⟩
  · rintro ⟨hother, name, hmem, hname⟩
    have hentry : (name, command) ∈ names := mem_names_iff.mpr ⟨hother, hmem⟩
    -- The first entry with the word may be another one, but not of another command.
    cases hfind : names.find? (fun entry => entry.1.toList == Text.asciiLower word) with
    | none => exact absurd hname (by simpa using List.find?_eq_none.mp hfind _ hentry)
    | some entry =>
      obtain ⟨name', found⟩ := entry
      have hname' : name'.toList = Text.asciiLower word := by simpa using List.find?_some hfind
      obtain ⟨-, hmem'⟩ := mem_names_iff.mp (List.mem_of_find?_eq_some hfind)
      obtain rfl : name = name' := String.toList_inj.mp (hname.trans hname'.symm)
      exact ⟨_, rfl, (eq_of_mem_spellings hmem hmem' hother).symm⟩

/-! ## The parser -/

variable {line : List Char} {outcome : Except CommandError Command}

/-- The command to add a song needs a song. -/
theorem parse_of_add_alone {first : List Char} {song : SongId}
    (hwords : Text.words line = [first]) (hadd : (Command.add song).IsNamed first) :
    parse line = .error .missingSong := by
  rw [parse, hwords]
  exact if_pos (addNames_any_iff.mpr hadd)

/-- A line that begins with the name of the addition is read as its second word says. -/
theorem parse_of_add {first second : List Char} {rest : List (List Char)} {song : SongId}
    (hwords : Text.words line = first :: second :: rest) (hadd : (Command.add song).IsNamed first) :
    parse line =
      match SongId.parse? second with
      | some song => .ok (.add song)
      | none => .error (.invalidSong second) := by
  rw [parse, hwords]
  exact if_pos (addNames_any_iff.mpr hadd)

/-- Every other command is known by its first word alone. -/
theorem parse_of_not_add {first : List Char} {rest : List (List Char)}
    (hwords : Text.words line = first :: rest)
    (hadd : ∀ song, ¬(Command.add song).IsNamed first) :
    parse line =
      match named? (Text.asciiLower first) with
      | some command => .ok command
      | none => .error (.unknown (Text.asciiLower first)) := by
  rw [parse, hwords]
  exact if_neg fun h => hadd 0 (addNames_any_iff.mp h)

/-- No other command has a name of the addition. -/
theorem not_isNamed_add (hother : ∀ song, command ≠ .add song) (hnamed : command.IsNamed word)
    (song : SongId) : ¬(Command.add song).IsNamed word := by
  rw [isNamed_iff] at hnamed ⊢
  rintro ⟨name', hmem', hname'⟩
  obtain ⟨name, hmem, hname⟩ := hnamed
  obtain rfl : name = name' := String.toList_inj.mp (hname.trans hname'.symm)
  exact hother song (eq_of_mem_spellings hmem hmem' hother)

/-- The parser finds a meaning of every line. -/
theorem means_parse (line : List Char) : Means (Text.words line) (parse line) := by
  cases hwords : Text.words line with
  | nil =>
    rw [parse, hwords]
    exact .empty
  -- Only the command to add a song looks at a second word.
  | cons first rest =>
    by_cases hadd : (Command.add 0).IsNamed first
    · cases rest with
      | nil =>
        rw [parse_of_add_alone hwords hadd]
        exact .missingSong hadd
      | cons second rest =>
        rw [parse_of_add hwords hadd]
        split
        · rename_i song hsong
          have hnamed : (Command.add song).IsNamed first := hadd
          exact .add hnamed (SongId.parse?_eq_some_iff.mp hsong)
        · rename_i hsong
          exact .invalidSong hadd (SongId.parse?_eq_none_iff.mp hsong)
    · rw [parse_of_not_add hwords fun _ => hadd]
      split
      · rename_i command hcommand
        obtain ⟨hother, hnamed⟩ := named?_eq_some_iff.mp hcommand
        exact .plain hother hnamed
      · rename_i hnone
        refine .unknown ?_ (Text.asciiLower_eq_iff.mp rfl)
        intro command hnamed
        by_cases hother : ∀ song, command ≠ .add song
        · rw [named?_eq_some_iff.mpr ⟨hother, hnamed⟩] at hnone
          cases hnone
        · push Not at hother
          obtain ⟨song, rfl⟩ := hother
          exact hadd hnamed

/-- No line has another meaning. -/
theorem parse_eq_of_means (h : Means (Text.words line) outcome) : parse line = outcome := by
  generalize hwords : Text.words line = found at h
  cases h with
  | empty => rw [parse, hwords]
  | add hadd hsong => simp only [parse_of_add hwords hadd, SongId.parse?_eq_some_iff.mpr hsong]
  | missingSong hadd => exact parse_of_add_alone hwords hadd
  | invalidSong hadd hsong =>
    simp only [parse_of_add hwords hadd, SongId.parse?_eq_none_iff.mpr hsong]
  | plain hother hnamed =>
    rw [parse_of_not_add hwords (not_isNamed_add hother hnamed),
      named?_eq_some_iff.mpr ⟨hother, hnamed⟩]
  | @unknown first lower _ hnone hlower =>
    have hunnamed : named? (Text.asciiLower first) = none := by
      rw [Option.eq_none_iff_forall_ne_some]
      exact fun command hcommand => hnone command (named?_eq_some_iff.mp hcommand).2
    rw [parse_of_not_add hwords fun _ => hnone _, hunnamed, Text.asciiLower_eq_iff.mpr hlower]

/-- The words of an addition as it is written out. -/
theorem words_add (song : SongId) :
    Text.words ("add ".toList ++ song.render.toList) = ["add".toList, song.render.toList] := by
  obtain ⟨hne, hword⟩ := (SongId.denotes_render song).isWord
  -- The number is one word, because no character of it is white space.
  have hnumber : Text.words song.render.toList = [song.render.toList] := by
    have h : Text.words (song.render.toList ++ []) = song.render.toList :: Text.words [] :=
      Text.words_append_of_word hne hword (by simp)
    rwa [List.append_nil, Text.words] at h
  have hname : Text.words ("add".toList ++ ' ' :: song.render.toList) =
      "add".toList :: Text.words (' ' :: song.render.toList) :=
    Text.words_append_of_word (by decide) (by simp [Text.isWhiteSpace, Text.whiteSpace])
      (by simp [Text.isWhiteSpace, Text.whiteSpace])
  have hblank : ∀ c ∈ [' '], Text.isWhiteSpace c = true := by
    simp [Text.isWhiteSpace, Text.whiteSpace]
  have hgap : Text.words (' ' :: song.render.toList) = Text.words song.render.toList :=
    Text.words_append_of_blank hblank _
  exact hname.trans (by rw [hgap, hnumber])

end Command

/-- The console accepts exactly its grammar. Every line splits into words in one way, and the parser
yields an outcome if and only if that is what the words mean. An addition that is written out with
the decimal form of a song's number is read as the addition of that song. -/
theorem console_grammar :
    (∀ line : List Char, ∃ found, Text.SplitsInto line found ∧
      (∀ others, Text.SplitsInto line others → others = found) ∧
      ∀ outcome, Command.parse line = outcome ↔ Command.Means found outcome) ∧
    ∀ song : SongId, Command.parse ("add ".toList ++ song.render.toList) = .ok (.add song) := by
  refine ⟨fun line => ⟨Text.words line, Text.splitsInto_words line, ?_, fun outcome => ?_⟩, ?_⟩
  · exact fun others hothers => (Text.words_eq_iff.mpr hothers).symm
  · exact ⟨fun h => h ▸ Command.means_parse line, Command.parse_eq_of_means⟩
  · intro song
    apply Command.parse_eq_of_means
    rw [Command.words_add]
    have hname : (Command.add song).IsNamed "add".toList :=
      Command.isNamed_iff.mpr ⟨"add", List.mem_cons_self, by decide⟩
    exact .add hname (SongId.denotes_render song)

/-- Wide blanks, upper case, leading zeros, and the least number of 32 bits. -/
example : Command.parse "\u2003ADD\u00a0-0002147483648 x".toList = .ok (.add (-2147483648)) := by
  decide +kernel

end Ensemble
