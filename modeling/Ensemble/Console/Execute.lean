import Ensemble.Console.Command
import Ensemble.Node.Display
import Ensemble.Node.Registration

/-!
# Carrying out commands

A command acts on a node and may print lines. Only `quit` ends the console.
-/

namespace Ensemble.Console

/-- What a command did. -/
structure Effect where
  node : Node
  sent : List Parcel
  /-- The lines that were printed. -/
  printed : List String
  /-- Whether the console goes on. -/
  continues : Bool
  /-- The milliseconds that went by. -/
  elapsed : Nat
  /-- What the service read, if it was connected. -/
  request : Option Bytes

/-- An effect without lines. -/
def quietly (result : Node × List Parcel) : Effect := ⟨result.1, result.2, [], true, 0, none⟩

/-- An effect of printing alone. -/
def printing (n : Node) (line : String) : Effect := ⟨n, [], [line], true, 0, none⟩

/-- Carry out a command; `target` names the service in the wording of errors, and `remote` is how it
behaves. -/
def execute (target : String) (remote : Remote) (n : Node) : Command → Effect
  | .togglePause => quietly n.togglePause
  | .start => quietly (n.control .start)
  | .stop => quietly (n.control .stop)
  | .skip => quietly n.skip
  | .add song =>
    let lines :=
      if n.accepts then [] else [s!"Warteschlange voll, Song {song.render} nicht eingereiht"]
    { quietly (n.enqueue song) with printed := lines }
  | .status => printing n n.display.render
  | .register =>
    let contact := n.register remote
    let line :=
      match contact.error with
      | none => "registriert"
      | some e => "Registrierung fehlgeschlagen: " ++ e.message target
    ⟨contact.node, [], [line], true, contact.elapsed, contact.request⟩
  | .help => printing n Command.helpText
  | .quit => { quietly (n, []) with continues := false }

end Ensemble.Console
