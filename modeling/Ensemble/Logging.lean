/-!
# Logging levels and formats

An event has one of five levels, from the coarsest to the finest. A log that is kept at a level
holds the events of that level and of all coarser ones, and is written in one of two formats.
-/

namespace Ensemble

/-- The level of an event. -/
inductive LogLevel where
  | error
  | warn
  | info
  | debug
  | trace
  deriving DecidableEq, Repr

/-- How a log is written. -/
inductive LogFormat where
  | text
  | json
  deriving DecidableEq, Repr

namespace LogLevel

/-- How fine a level is. -/
def fineness : LogLevel → Nat
  | .error => 0
  | .warn => 1
  | .info => 2
  | .debug => 3
  | .trace => 4

/-- The level of its name in lower case. -/
def ofName? : String → Option LogLevel
  | "error" => some .error
  | "warn" => some .warn
  | "info" => some .info
  | "debug" => some .debug
  | "trace" => some .trace
  | _ => none

/-- The name of a level in upper case. -/
def label : LogLevel → String
  | .error => "ERROR"
  | .warn => "WARN"
  | .info => "INFO"
  | .debug => "DEBUG"
  | .trace => "TRACE"

end LogLevel

/-- The format of its name. -/
def LogFormat.ofName? : String → Option LogFormat
  | "text" => some .text
  | "json" => some .json
  | _ => none

end Ensemble
