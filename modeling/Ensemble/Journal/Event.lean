import Ensemble.Json.Printer
import Ensemble.Logging

/-!
# Events

An `Event` is what a process notes in its log: a level and a text. What an operation notes follows
from the state before it, so the operations themselves know nothing of the log; beside the modules
of the player and of the node stand modules with the events of their operations.
-/

namespace Ensemble

/-- Something worth noting. -/
structure Event where
  level : LogLevel
  text : String
  deriving DecidableEq, Repr

namespace Event

/-- An event that is noted as an error. -/
def error (text : String) : Event := ⟨.error, text⟩

/-- An event that is noted as a warning. -/
def warn (text : String) : Event := ⟨.warn, text⟩

/-- An event of normal work. -/
def info (text : String) : Event := ⟨.info, text⟩

/-- An event that helps to find a fault. -/
def debug (text : String) : Event := ⟨.debug, text⟩

/-- A level and the text. -/
def render (e : Event) : String := s!"{e.level.label} {e.text}"

/-- A level and the text as a JSON object. -/
def renderJson (e : Event) : String :=
  String.ofList (Json.writeObject [
    ("level", Json.quote e.level.label.toList),
    ("fields", Json.writeObject [("message", Json.quote e.text.toList)])])

end Event

end Ensemble
