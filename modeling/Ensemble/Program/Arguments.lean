import Ensemble.Text.Numeral

/-!
# Command lines

A command line names what to run, the membership service or a node, with the options of either
behind its name, and before it the file with the settings. The value of an option stands in the
next word, which must not look like an option, or behind an equals sign. No option is given twice.
-/

namespace Ensemble

/-- What to run, and what replaces the settings of the same meaning. -/
inductive Mode where
  | service (port : Option UInt16)
  | node (service : Option String) (port : Option UInt16)
  deriving DecidableEq, Repr

/-- What a page of help is about. -/
inductive HelpTopic where
  | program
  | service
  | node
  | help
  deriving DecidableEq, Repr

/-- What a command line asks for. -/
inductive Request where
  /-- Run something; the settings come from the file that is named, if one is. -/
  | run (settingsFile : Option String) (mode : Mode)
  | help (topic : HelpTopic)
  | version
  deriving DecidableEq, Repr

/-- Why a command line makes no sense. -/
inductive UsageError where
  | missingMode
  | unexpected (word : String)
  | missingValue (option : String)
  | invalidValue (option : String) (value : String)
  | repeated (option : String)
  deriving DecidableEq, Repr

/-- The wording of an error. -/
def UsageError.message : UsageError → String
  | .missingMode => "error: a subcommand is required"
  | .unexpected word => s!"error: unexpected argument '{word}' found"
  | .missingValue option => s!"error: a value is required for '{option}' but none was supplied"
  | .invalidValue option value => s!"error: invalid value '{value}' for '{option}'"
  | .repeated option => s!"error: the argument '{option}' cannot be used multiple times"

namespace Arguments

/-- Whether a word is read as an option and not as a value. -/
def looksLikeOption (word : String) : Bool :=
  match word.toList with
  | '-' :: _ :: _ => true
  | _ => false

/-- The name and the value of a word such as `--name=value`; without an equals sign there is no
value. -/
def splitEquals (word : String) : String × Option String :=
  let text := word.toList
  match text.dropWhile (· != '=') with
  | [] => (word, none)
  | _ :: value => (String.ofList (text.takeWhile (· != '=')), some (String.ofList value))

/-- The value of an option, and the words after it. -/
def value (option : String) (attached : Option String) (rest : List String) :
    Except UsageError (String × List String) :=
  match attached, rest with
  | some v, _ => .ok (v, rest)
  | none, [] => .error (.missingValue option)
  -- A lone dash is a value.
  | none, v :: rest => if looksLikeOption v then .error (.missingValue option) else .ok (v, rest)

/-- Give an option its value, if it has none yet. -/
def once {α : Type} (option : String) (old : Option α) (new : α) : Except UsageError (Option α) :=
  match old with
  | some _ => .error (.repeated option)
  | none => .ok (some new)

/-- Read a port as it is typed: digits after an optional sign, within sixteen bits. -/
def port? (text : String) : Option UInt16 :=
  let signed : Option Int :=
    match text.toList with
    | '-' :: digits => (Numeral.read? 10 digits).map fun n => -n
    | '+' :: digits => (Numeral.read? 10 digits).map fun n => n
    | digits => (Numeral.read? 10 digits).map fun n => n
  match signed with
  | some n => if 0 ≤ n ∧ n < 65536 then some (UInt16.ofNat n.toNat) else none
  | none => none

/-- The port that an option names. -/
def port (option text : String) : Except UsageError UInt16 :=
  match port? text with
  | some p => .ok p
  | none => .error (.invalidValue option text)

/-- The path that an option names, which is not empty. -/
def path (option text : String) : Except UsageError String :=
  if text.isEmpty then .error (.invalidValue option text) else .ok text

/-- Whether a word begins with a single dash and this letter. -/
def isShort (letter : Char) (word : String) : Bool :=
  match word.toList with
  | '-' :: c :: _ => c == letter
  | _ => false

/-- Read the options of the membership service; `fuel` bounds the words. -/
def serviceOptions (settingsFile : Option String) :
    Nat → Option UInt16 → List String → Except UsageError Request
  | 0, _, _ => .error .missingMode
  | _ + 1, p, [] => .ok (.run settingsFile (.service p))
  | _ + 1, p, ["--"] => .ok (.run settingsFile (.service p))
  | fuel + 1, p, word :: rest =>
    match splitEquals word with
    | ("--port", attached) => do
      let (v, rest) ← value "--port" attached rest
      serviceOptions settingsFile fuel (← once "--port" p (← port "--port" v)) rest
    | ("--help", none) => .ok (.help .service)
    | _ => if isShort 'h' word then .ok (.help .service) else .error (.unexpected word)

/-- Read the options of a node; `fuel` bounds the words. -/
def nodeOptions (settingsFile : Option String) :
    Nat → Option String → Option UInt16 → List String → Except UsageError Request
  | 0, _, _, _ => .error .missingMode
  | _ + 1, s, p, [] => .ok (.run settingsFile (.node s p))
  | _ + 1, s, p, ["--"] => .ok (.run settingsFile (.node s p))
  | fuel + 1, s, p, word :: rest =>
    match splitEquals word with
    | ("--port", attached) => do
      let (v, rest) ← value "--port" attached rest
      nodeOptions settingsFile fuel s (← once "--port" p (← port "--port" v)) rest
    | ("--connector", attached) => do
      let (v, rest) ← value "--connector" attached rest
      nodeOptions settingsFile fuel (← once "--connector" s v) p rest
    | ("--help", none) => .ok (.help .node)
    | _ => if isShort 'h' word then .ok (.help .node) else .error (.unexpected word)

/-- Read what follows the word that asks for help. -/
def helpTopic : List String → Except UsageError Request
  | [] => .ok (.help .program)
  | ["connector"] => .ok (.help .service)
  | ["listener"] => .ok (.help .node)
  | ["help"] => .ok (.help .help)
  | word :: _ => .error (.unexpected word)

/-- Read the words before the name of a mode; `fuel` bounds them. -/
def programOptions : Nat → Option String → List String → Except UsageError Request
  | 0, _, _ => .error .missingMode
  | _ + 1, _, [] => .error .missingMode
  | _ + 1, _, ["--"] => .error .missingMode
  | _ + 1, s, "connector" :: rest => serviceOptions s (rest.length + 1) none rest
  | _ + 1, s, "listener" :: rest => nodeOptions s (rest.length + 1) none none rest
  | _ + 1, _, "help" :: rest => helpTopic rest
  | fuel + 1, s, word :: rest =>
    match splitEquals word with
    | ("--config", attached) => do
      let (v, rest) ← value "--config" attached rest
      programOptions fuel (← once "--config" s (← path "--config" v)) rest
    | ("--help", none) => .ok (.help .program)
    | ("--version", none) => .ok .version
    | _ =>
      if isShort 'h' word then .ok (.help .program)
      else if isShort 'V' word then .ok .version
      else .error (.unexpected word)

/-- Read a command line. -/
def parse (words : List String) : Except UsageError Request :=
  programOptions (words.length + 1) none words

end Arguments

/-! ## Pages of help -/

/-- The version of the program. -/
def versionText : String := "gleichklang 0.1.0\n"

/-- The page about a topic; `settingsFile` is what the environment names. -/
def HelpTopic.text (settingsFile : String) : HelpTopic → String
  | .program =>
    "Synchrone Wiedergabe im Cluster\n\n" ++
    "Usage: gleichklang [OPTIONS] <COMMAND>\n\n" ++
    "Commands:\n" ++
    "  connector  Membership-Service starten\n" ++
    "  listener   Wiedergabe-Knoten starten\n" ++
    "  help       Print this message or the help of the given subcommand(s)\n\n" ++
    "Options:\n" ++
    s!"      --config <CONFIG>  Konfigurationsdatei [env: GK_CONFIG={settingsFile}] " ++
    "[default: gleichklang.toml]\n" ++
    "  -h, --help             Print help\n" ++
    "  -V, --version          Print version\n"
  | .service =>
    "Membership-Service starten\n\n" ++
    "Usage: gleichklang connector [OPTIONS]\n\n" ++
    "Options:\n" ++
    "      --port <PORT>  Port des Membership-Service\n" ++
    "  -h, --help         Print help\n"
  | .node =>
    "Wiedergabe-Knoten starten\n\n" ++
    "Usage: gleichklang listener [OPTIONS]\n\n" ++
    "Options:\n" ++
    "      --connector <CONNECTOR>  Adresse des Membership-Service (Host:Port)\n" ++
    "      --port <PORT>            Lokaler Port des Knotens\n" ++
    "  -h, --help                   Print help\n"
  | .help =>
    "Print this message or the help of the given subcommand(s)\n\n" ++
    "Usage: gleichklang help [COMMAND]...\n\n" ++
    "Arguments:\n" ++
    "  [COMMAND]...  Print help for the subcommand(s)\n"

end Ensemble
