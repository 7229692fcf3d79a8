import ContractLex.Log.Level
import ContractLex.Settings.Environment
import ContractLex.Text.Control

/-!
# Log lines

How the command shows its log: level and origin in brackets, then the text. Lines are coloured only
where the environment asks for it, because the error output is taken to be no terminal. A line
without colours is freed of its controls; a coloured one is shown as it is.
-/

namespace ContractLex.Command

def logTarget : String := "specula"

/-! ## Colours -/

def isSet (env : Environment) (name : String) : Bool := (env.lookup name).any (!·.isEmpty)

/-- Whether log lines are coloured: a variable of their own decides, and if it does not, one that
forbids colours or else one that wants them everywhere. -/
def isColoured (env : Environment) : Bool :=
  match env.lookup "RUST_LOG_STYLE" with
  | some "always" => true
  | some "never" => false
  | _ => !isSet env "NO_COLOR" && isSet env "CLICOLOR_FORCE"

def levelCodes : Level → List Nat
  | .error => [1, 31]
  | .warning => [33]
  | .info => [32]
  | .debug => [34]

def bracketCodes : List Nat := [90]

/-- A text in a colour, and after it the usual colour again. -/
def paint (codes : List Nat) (text : String) : String :=
  String.join (codes.map fun code => s!"\x1b[{code}m") ++ text ++ "\x1b[0m"

/-! ## Lines -/

/-- The name of a level, over five columns. -/
def paddedName (level : Level) : String :=
  level.name ++ String.ofList (List.replicate (5 - level.name.length) ' ')

/-- A log line with its end. The lines of a text of several are set in. -/
def logLine (coloured : Bool) (level : Level) (text : String) : String :=
  let text := "\n    ".intercalate (text.splitOn "\n") ++ "\n"
  if coloured then
    paint bracketCodes "[" ++ paint (levelCodes level) (paddedName level) ++ " " ++ logTarget ++
      paint bracketCodes "]" ++ " " ++ text
  else Text.withoutControls ("[" ++ paddedName level ++ " " ++ logTarget ++ "] " ++ text)

end ContractLex.Command
