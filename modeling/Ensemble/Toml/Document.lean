import Ensemble.Toml.Value

/-!
# Reading TOML documents

A document is a sequence of lines: an assignment, the header of a table, the header of one more
table of an array, or nothing; each may end in a comment. The assignments below a header fill its
table. `parse?` reads the lines first and then builds the document section by section.
-/

namespace Ensemble.Toml

/-- What a line says. -/
inductive Line where
  | blank
  | assignment (key : Key) (value : Item)
  /-- The header of a table. -/
  | table (key : Key)
  /-- The header of one more table of an array. -/
  | element (key : Key)

/-- The text after the end of a line, before which a comment may stand. -/
def lineEnd? (text : List Char) : Option (List Char) :=
  match skipComment (skipBlanks text) with
  | [] => some []
  | rest => lineBreak? rest

/-- Read what stands in a line, without its end. -/
def statement? : List Char → Option (Line × List Char)
  | '[' :: '[' :: rest =>
    match key? rest with
    | some (key, ']' :: ']' :: rest) => some (.element key, rest)
    | _ => none
  | '[' :: rest =>
    match key? rest with
    | some (key, ']' :: rest) => some (.table key, rest)
    | _ => none
  | '#' :: rest => some (.blank, '#' :: rest)
  | '\n' :: rest => some (.blank, '\n' :: rest)
  | '\r' :: rest => some (.blank, '\r' :: rest)
  | text =>
    match key? text with
    | some (key, '=' :: rest) =>
      (value? (skipBlanks rest)).map fun (value, rest) => (.assignment key value, rest)
    | _ => none

/-- Read lines to the end of the text; `fuel` bounds their number. -/
def linesTo? : Nat → List Char → Option (List Line)
  | 0, _ => none
  | fuel + 1, text =>
    match skipBlanks text with
    | [] => some []
    | text =>
      match statement? text with
      | none => none
      | some (line, rest) =>
        match lineEnd? rest with
        | none => none
        | some rest => (linesTo? fuel rest).map (line :: ·)

/-- Read the lines of a document; a byte order mark at its beginning is not part of it. -/
def readLines? : List Char → Option (List Line)
  | '\uFEFF' :: text => linesTo? (text.length + 1) text
  | text => linesTo? (text.length + 1) text

/-! ## Sections -/

/-- A header and the assignments below it. -/
structure Section where
  /-- Whether the header begins one more table of an array. -/
  isElement : Bool
  key : Key
  body : List (Key × Item)

/-- The assignments before the first header, and the sections. -/
def sections : List Line → List (Key × Item) × List Section
  | [] => ([], [])
  | line :: rest =>
    let (body, others) := sections rest
    match line with
    | .blank => (body, others)
    | .assignment key value => ((key, value) :: body, others)
    | .table key => ([], ⟨false, key, body⟩ :: others)
    | .element key => ([], ⟨true, key, body⟩ :: others)

/-- The item that a section leaves at its name, where there was `old` before: a table is filled
once, and an array of tables grows by one. -/
def Section.item? (s : Section) (old : Option Item) : Option Item :=
  match s.isElement, old with
  | false, none => (Entries.assignAll? [] s.body).map (.table .headed)
  -- Headers below this table came first; now it has its own.
  | false, some (.table .passed entries) =>
    (Entries.assignAll? entries s.body).map (.table .headed)
  | true, none => (Entries.assignAll? [] s.body).map fun table => .tables [table]
  | true, some (.tables tables) =>
    (Entries.assignAll? [] s.body).map fun table => .tables (tables ++ [table])
  | _, _ => none

/-- Add a section to a document. -/
def Entries.addSection? (root : Entries) (s : Section) : Option Entries :=
  Entries.descend .header
    (fun _ entries =>
      (s.item? (entries.find? s.key.name)).map fun item => entries.put s.key.name item)
    s.key.path .headed root

/-- The document of lines. -/
def ofLines? (lines : List Line) : Option Entries :=
  let (body, others) := sections lines
  match Entries.assignAll? [] body with
  | some root => others.foldlM Entries.addSection? root
  | none => none

/-- Read a document. -/
def parse? (text : List Char) : Option Entries :=
  match readLines? text with
  | some lines => ofLines? lines
  | none => none

end Ensemble.Toml
