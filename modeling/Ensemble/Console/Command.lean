import Ensemble.Playback.Status
import Ensemble.Text.Numeral
import Ensemble.Text.Words

/-!
# Commands of the console

A line is a command: its first word, in either case, names it, and `add` takes the number of a song
as its second. Further words are ignored.
-/

namespace Ensemble

/-- What can be asked for at the console. -/
inductive Command where
  | togglePause
  | start
  | stop
  | skip
  | add (song : SongId)
  | status
  | register
  | help
  | quit
  deriving DecidableEq, Repr

/-- Why a line is no command. -/
inductive CommandError where
  | empty
  | unknown (word : List Char)
  | missingSong
  | invalidSong (word : List Char)
  deriving DecidableEq, Repr

/-- The wording of an error. -/
def CommandError.message : CommandError → String
  | .empty => "leere Eingabe"
  | .unknown word => s!"unbekannter Befehl '{String.ofList word}' (hilfe zeigt alle Befehle)"
  | .missingSong => "add erwartet eine Song-ID"
  | .invalidSong word => s!"'{String.ofList word}' ist keine gueltige Song-ID"

/-- The number of a song as it is typed: digits after an optional sign, within 32 bits. -/
def SongId.parse? (text : List Char) : Option SongId :=
  let signed : Option Int :=
    match text with
    | '-' :: digits => (Numeral.read? 10 digits).map fun n => -n
    | '+' :: digits => (Numeral.read? 10 digits).map fun n => n
    | digits => (Numeral.read? 10 digits).map fun n => n
  match signed with
  | some n => if -2147483648 ≤ n ∧ n ≤ 2147483647 then some (Int32.ofInt n) else none
  | none => none

namespace Command

/-- The words that name the commands without an argument. -/
def names : List (String × Command) :=
  [("pause", .togglePause), ("p", .togglePause), ("start", .start), ("stop", .stop),
   ("skip", .skip), ("next", .skip), ("n", .skip), ("status", .status), ("s", .status),
   ("register", .register), ("registrieren", .register), ("hilfe", .help), ("help", .help),
   ("?", .help), ("quit", .quit), ("exit", .quit), ("q", .quit)]

/-- The words that name the command to append a song. -/
def addNames : List String := ["add", "a"]

/-- The command that a lower-case word names on its own. -/
def named? (word : List Char) : Option Command :=
  (names.find? fun entry => entry.1.toList == word).map (·.2)

/-- The command of a line. -/
def parse (line : List Char) : Except CommandError Command :=
  match Text.words line with
  | [] => .error .empty
  | first :: rest =>
    let word := Text.asciiLower first
    if addNames.any (·.toList == word) then
      match rest with
      | [] => .error .missingSong
      | argument :: _ =>
        match SongId.parse? argument with
        | some song => .ok (.add song)
        | none => .error (.invalidSong argument)
    else
      match named? word with
      | some command => .ok command
      | none => .error (.unknown word)

/-- The text that lists all commands. -/
def helpText : String :=
  "Befehle:\n" ++
  "  pause          Pause umschalten\n" ++
  "  start | stop   Wiedergabe fortsetzen bzw. anhalten\n" ++
  "  skip           naechster Song aus der Warteschlange\n" ++
  "  add <id>       Song einreihen\n" ++
  "  status         aktuellen Zustand anzeigen\n" ++
  "  register       erneut beim Connector anmelden\n" ++
  "  quit           abmelden und beenden"

end Command

end Ensemble
