/-!
# TOML documents

A document is a table of named items. Headers and dotted keys build its tables piece by piece, and
`Growth` records how a table came about, because that decides which later lines may still add to it.

`Entries.descend` walks from a table along a path of names to an inner table, makes the tables that
are missing on the way, and changes the one at the end.
-/

namespace Ensemble.Toml

/-- The name of an item. -/
abbrev Name := List Char

/-- How a table came about. -/
inductive Growth where
  /-- It has had a header of its own, or is the whole document. -/
  | headed
  /-- Headers have led through it, and its own may still come. -/
  | passed
  /-- Dotted keys made it, and only dotted keys go on with it. -/
  | dotted
  /-- It is written in braces and complete. -/
  | closed
  deriving DecidableEq, Repr

/-- What a name stands for. Of a number with a fraction or an exponent, and of a date or time, only
the kind is kept. -/
inductive Item where
  | string (text : List Char)
  | integer (value : Int)
  | float
  | boolean (value : Bool)
  | datetime
  | array (items : List Item)
  | table (growth : Growth) (entries : List (Name × Item))
  /-- Tables whose headers stand in double brackets. -/
  | tables (elements : List (List (Name × Item)))

/-- The items of a table, each with its name. -/
abbrev Entries := List (Name × Item)

/-- A dotted key: the names of the tables on the way, and the last name. -/
structure Key where
  path : List Name
  name : Name

/-- What leads along a path of names. -/
inductive Way where
  /-- The header of a table. -/
  | header
  /-- A dotted key within a table. -/
  | dotted
  deriving DecidableEq, Repr

namespace Way

/-- How a table comes about that a path leads through first. -/
def growth : Way → Growth
  | .header => .passed
  | .dotted => .dotted

/-- Whether a path may lead through a table; a dotted key stays out of tables with a header. -/
def enters : Way → Growth → Bool
  | _, .closed => false
  | .dotted, .headed => false
  | _, _ => true

end Way

namespace Entries

/-- The item of a name. -/
def find? (name : Name) : Entries → Option Item
  | [] => none
  | (other, item) :: rest => if other = name then some item else find? name rest

/-- Let a name stand for an item, in the place that it has or else at the end. -/
def put (name : Name) (item : Item) : Entries → Entries
  | [] => [(name, item)]
  | (other, old) :: rest =>
    if other = name then (name, item) :: rest else (other, old) :: put name item rest

/-- Change the table at the end of a path; of tables in double brackets the last one is meant. -/
def descend (way : Way) (change : Growth → Entries → Option Entries) :
    List Name → Growth → Entries → Option Entries
  | [], growth, entries => change growth entries
  | name :: path, _, entries =>
    match find? name entries with
    -- A table that is missing on the way is made.
    | none =>
      (descend way change path way.growth []).map fun inner =>
        put name (.table way.growth inner) entries
    | some (.table growth inner) =>
      if way.enters growth then
        (descend way change path growth inner).map fun inner =>
          put name (.table growth inner) entries
      else none
    | some (.tables elements) =>
      -- There is always a last one, since the header of the first made the array.
      match elements.getLast? with
      | none => none
      | some last =>
        (descend way change path .headed last).map fun last =>
          put name (.tables (elements.dropLast ++ [last])) entries
    | some _ => none

/-- Give a key its value; no key is given two, and a dotted key ends in a table of dotted keys. -/
def assign? (entries : Entries) (key : Key) (value : Item) : Option Entries :=
  descend .dotted
    (fun growth inner =>
      if (key.path.isEmpty || growth == .dotted) && (find? key.name inner).isNone then
        some (put key.name value inner)
      else none)
    key.path .headed entries

/-- Give keys their values, one after the other. -/
def assignAll? (entries : Entries) (assignments : List (Key × Item)) : Option Entries :=
  assignments.foldlM (fun entries (key, value) => entries.assign? key value) entries

end Entries

end Ensemble.Toml
