import ContractLex.Path
import ContractLex.Settings.Record
import ContractLex.Text.Control

/-!
# Command-line arguments

An argument that begins with a dash is an option, unless the dash is all there is to it or two
dashes alone came before. An option may have its value attached, or take the next argument that is
no option. A value that stands apart, and every path, is looked at only when the next option, the
next kind of value or the end comes, so an error further on may be found first.
-/

namespace ContractLex.Command

structure Arguments where
  paths : List Path := []
  format : Option OutputFormat := none
  toOutput : Bool := false
  carryComments : Bool := false
  verbosity : Nat := 0
  config : Option Path := none
deriving DecidableEq, Repr

inductive ValueOption where
  | format
  | config
deriving DecidableEq, Repr

inductive Flag where
  | toOutput
  | carryComments
  | verbose
  | help
  | version
deriving DecidableEq, Repr

def ValueOption.shown : ValueOption → String
  | .format => "--format <FORMAT>"
  | .config => "--config <TOML>"

def Flag.shown : Flag → String
  | .toOutput => "--stdout"
  | .carryComments => "--carry-comments"
  | .verbose => "--verbose..."
  | .help => "--help"
  | .version => "--version"

def shownPaths : String := "<PATHS>..."

inductive ArgumentError where
  | unknown (argument : String)
  | noValue (shown : String)
  | surplusValue (value shown : String)
  | repeated (shown : String)
  | badValue (value shown reason : String)
  | noPaths
deriving DecidableEq, Repr

/-- Why the arguments lead to no run. -/
inductive Halt where
  | help
  | version
  | wrong (e : ArgumentError)
deriving DecidableEq, Repr

/-- Values that have not been looked at yet. -/
inductive Pending where
  | none
  | awaiting (o : ValueOption)
  | value (o : ValueOption) (text : String)
  /-- Paths, the last one first. -/
  | paths (reversed : List String)
deriving DecidableEq, Repr

/-- Arguments that have been read, and values that have not been looked at. -/
structure Reading where
  arguments : Arguments := {}
  pending : Pending := .none
deriving Repr

namespace Reading

def setValue (a : Arguments) (o : ValueOption) (text : String) : Except ArgumentError Arguments :=
  match o with
  | .format =>
    if a.format.isSome then .error (.repeated o.shown)
    else
      match OutputFormat.ofUser text with
      | .ok format => .ok { a with format := some format }
      | .error e => .error (.badValue text o.shown e.message)
  | .config =>
    if a.config.isSome then .error (.repeated o.shown)
    else if text.isEmpty then .error (.noValue o.shown)
    else .ok { a with config := some ⟨text⟩ }

def addPaths (a : Arguments) (texts : List String) : Except ArgumentError Arguments :=
  if texts.any String.isEmpty then .error (.noValue shownPaths)
  else .ok { a with paths := a.paths ++ texts.map Path.mk }

def settle (r : Reading) : Except ArgumentError Arguments :=
  match r.pending with
  | .none => .ok r.arguments
  | .awaiting o => .error (.noValue o.shown)
  | .value o text => setValue r.arguments o text
  | .paths reversed => addPaths r.arguments reversed.reverse

/-- Looks at them before something else is done. -/
def settled (r : Reading) : Except Halt Arguments :=
  match r.settle with
  | .ok a => .ok a
  | .error e => .error (.wrong e)

/-- Sets a flag. Only the verbosity may be asked for more than once. -/
def setFlag (r : Reading) (f : Flag) : Except Halt Reading := do
  let a ← r.settled
  match f with
  | .toOutput =>
    if a.toOutput then .error (.wrong (.repeated f.shown))
    else .ok { arguments := { a with toOutput := true } }
  | .carryComments =>
    if a.carryComments then .error (.wrong (.repeated f.shown))
    else .ok { arguments := { a with carryComments := true } }
  | .verbose => .ok { arguments := { a with verbosity := a.verbosity + 1 } }
  | .help => .error .help
  | .version => .error .version

/-- Takes an option with its value attached. -/
def attach (r : Reading) (o : ValueOption) (text : String) : Except Halt Reading := do
  let a ← r.settled
  match setValue a o text with
  | .ok a => .ok { arguments := a }
  | .error e => .error (.wrong e)

/-- Takes an option whose value stands apart. -/
def await (r : Reading) (o : ValueOption) : Except Halt Reading := do
  return { arguments := ← r.settled, pending := .awaiting o }

def addPath (r : Reading) (text : String) : Except Halt Reading :=
  match r.pending with
  | .paths reversed => .ok { r with pending := .paths (text :: reversed) }
  | _ => do return { arguments := ← r.settled, pending := .paths [text] }

/-- Takes an argument that is no option. -/
def addText (r : Reading) (text : String) : Except Halt Reading :=
  match r.pending with
  | .awaiting o => .ok { r with pending := .value o text }
  | _ => r.addPath text

/-! ## Options -/

def valueOptions : List (String × ValueOption) := [("format", .format), ("config", .config)]

def flags : List (String × Flag) := [
  ("stdout", .toOutput), ("carry-comments", .carryComments), ("verbose", .verbose),
  ("help", .help), ("version", .version)]

def addLong (r : Reading) (name : String) (value : Option String) : Except Halt Reading :=
  match valueOptions.lookup name, flags.lookup name, value with
  | some o, _, some text => r.attach o text
  | some o, _, none => r.await o
  | none, some f, some text => .error (.wrong (.surplusValue text f.shown))
  | none, some f, none => r.setFlag f
  | none, none, _ => .error (.wrong (.unknown ("--" ++ name)))

/-- Takes short options that stand together. What follows the one that takes a value is its value,
perhaps after an equals sign. -/
def addShort (r : Reading) : List Char → Except Halt Reading
  | [] => .ok r
  | 'f' :: [] => r.await .format
  | 'f' :: '=' :: rest => r.attach .format (String.ofList rest)
  | 'f' :: rest => r.attach .format (String.ofList rest)
  | 'v' :: rest => do (← r.setFlag .verbose).addShort rest
  | 'h' :: _ => r.setFlag .help
  | 'V' :: _ => r.setFlag .version
  | c :: _ => .error (.wrong (.unknown (String.ofList ['-', c])))

def splitLong (cs : List Char) : String × Option String :=
  match cs.span (· != '=') with
  | (name, []) => (String.ofList name, none)
  | (name, _ :: value) => (String.ofList name, some (String.ofList value))

def add (r : Reading) (argument : String) : Except Halt Reading :=
  match argument.toList with
  | ['-'] => r.addText argument
  | '-' :: '-' :: rest =>
    let (name, value) := splitLong rest
    r.addLong name value
  | '-' :: rest => r.addShort rest
  | _ => r.addText argument

/-- Takes arguments; after two dashes alone, all are paths. -/
def addAll (r : Reading) : List String → Except Halt Reading
  | [] => .ok r
  | "--" :: rest => rest.foldlM addPath r
  | argument :: rest => do (← r.add argument).addAll rest

end Reading

/-- Reads arguments. At least one path is needed. -/
def Arguments.read (arguments : List String) : Except Halt Arguments := do
  let r ← ({} : Reading).addAll arguments
  let a ← r.settled
  if a.paths.isEmpty then .error (.wrong .noPaths) else .ok a

def usage : String := "Usage: specula [OPTIONS] <PATHS>..."

def helpText : String := "\n".intercalate [
  "Specula lexer",
  "",
  usage,
  "",
  "Arguments:",
  "  <PATHS>...  Source files or directories to tokenize",
  "",
  "Options:",
  "  -f, --format <FORMAT>  Token dump format: plain or json",
  "      --stdout           Print tokens to stdout instead of writing token files",
  "      --carry-comments   Let block comments span lines",
  "  -v, --verbose...       Increase log output (-v info, -vv debug)",
  "      --config <TOML>    TOML file with lexer, logging and output preferences",
  "  -h, --help             Print help",
  "  -V, --version          Print version"]

/-! ## Refusals -/

namespace ArgumentError

/-- The message in stretches of one style each, the last one apart. -/
def stretches : ArgumentError → List String × String
  | .unknown argument => (["unexpected argument '", argument], "' found")
  | .noValue shown => (["a value is required for '", shown], "' but none was supplied")
  | .surplusValue value shown =>
    (["unexpected value '", value, "' for '", shown], "' found; no more were expected")
  | .repeated shown => (["the argument '", shown], "' cannot be used multiple times")
  | .badValue value shown reason => (["invalid value '", value, "' for '", shown], "': " ++ reason)
  | .noPaths => (["the following required arguments were not provided:\n  "], shownPaths)

/-- Whether the message is followed by how the command is used: not if it is about one value. -/
def showsUsage : ArgumentError → Bool
  | .noValue _ | .badValue .. => false
  | _ => true

/-- The text that refuses arguments. A control sequence in what the user wrote does not reach beyond
the stretch that it stands in. -/
def render (e : ArgumentError) : String :=
  let (opening, last) := e.stretches
  let advice := if e.showsUsage then "\n\n" ++ usage else ""
  let closing := [last ++ advice ++ "\n\nFor more information, try '", "--help", "'."]
  "error: " ++ String.join ((opening ++ closing).map Text.withoutControls)

end ArgumentError

end ContractLex.Command
