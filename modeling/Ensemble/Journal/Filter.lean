import Ensemble.Journal.Event
import Ensemble.Text.Split

/-!
# Which events a log holds

A filter is a list of directives between commas: a level, or the beginning of a source's name with
or without a level behind an equals sign. Of the directives that fit a source the one with the
longest name decides, and of several with one name the last; a name without a level admits
everything. No directive at all admits errors only.

All events of the process come from sources whose names begin with `Directive.processSource`.
-/

namespace Ensemble

/-- How fine the events of a source may be; no event is admitted without a level. -/
structure Directive where
  source : List Char
  level : Option LogLevel
  deriving DecidableEq, Repr

namespace Directive

/-- What the names of all sources of this process begin with. -/
def processSource : List Char := "gleichklang".toList

/-- The level that a word or a digit names in any case; `off` is none. -/
def level? (word : List Char) : Option (Option LogLevel) :=
  match String.ofList (word.map Char.toLower) with
  | "off" => some none
  | "0" => some none
  | "1" => some (some .error)
  | "2" => some (some .warn)
  | "3" => some (some .info)
  | "4" => some (some .debug)
  | "5" => some (some .trace)
  | name => (LogLevel.ofName? name).map some

/-- Whether a character may stand in the name of a source. -/
def isSourceChar (c : Char) : Bool := c.isAlphanum || c == '_' || c == ':' || c == '-'

/-- Read a directive. -/
def parse? (text : List Char) : Option Directive :=
  match level? text with
  | some level => some ⟨[], level⟩
  | none =>
    let name := text.takeWhile isSourceChar
    if name.isEmpty then none
    else
      match text.dropWhile isSourceChar with
      | [] => some ⟨name, some .trace⟩
      | ['='] => some ⟨name, some .trace⟩
      | '=' :: word => (level? word).map fun level => ⟨name, level⟩
      | _ => none

end Directive

/-- Which events a log holds. -/
structure LogFilter where
  directives : List Directive
  deriving DecidableEq, Repr

namespace LogFilter

/-- The events of a level and of all coarser ones. -/
def ofLevel (level : LogLevel) : LogFilter := ⟨[⟨[], some level⟩]⟩

/-- Read a filter. -/
def parse? (text : List Char) : Option LogFilter :=
  match (Text.splitOn ',' text).filter (!·.isEmpty) with
  | [] => some (ofLevel .error)
  | parts => (parts.mapM Directive.parse?).map LogFilter.mk

/-- The directive that decides about the events of this process: the last of the longest names. -/
def deciding? (f : LogFilter) : Option Directive :=
  (f.directives.filter fun d => d.source.isPrefixOf Directive.processSource).foldl
    (fun best d =>
      match best with
      | none => some d
      -- Of names of one length the later one wins.
      | some b => if b.source.length ≤ d.source.length then some d else some b) none

/-- Whether a log holds the events of a level. -/
def admits (f : LogFilter) (level : LogLevel) : Bool :=
  match f.deciding?.bind (·.level) with
  | some limit => level.fineness ≤ limit.fineness
  | none => false

/-- The events that a log holds. -/
def keep (f : LogFilter) (events : List Event) : List Event :=
  events.filter fun e => f.admits e.level

end LogFilter

end Ensemble
