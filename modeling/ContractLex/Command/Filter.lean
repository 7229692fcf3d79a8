import ContractLex.Command.LogLine
import ContractLex.Log.Journal
import ContractLex.Settings.Environment
import ContractLex.Text.Pattern.Reader

/-!
# The filter of the log

A variable of the environment may say what the command takes from the log: directives with commas
between them, each a level, a target, or both with an equals sign between. A directive counts for
the targets that begin as it says, and among those that count the longest holds. After a slash may
stand a pattern that has to fit some part of a line. What cannot be read is passed over with a
warning.
-/

namespace ContractLex.Command

/-- How far down the log is taken. -/
inductive Threshold where
  | off
  | upTo (level : Level)
  | everything
deriving DecidableEq, Repr

namespace Threshold

def spellings : List (String × Threshold) := [
  ("off", .off), ("error", .upTo .error), ("warn", .upTo .warning), ("info", .upTo .info),
  ("debug", .upTo .debug), ("trace", .everything)]

/-- Reads a threshold, whatever its letter case. -/
def parse? (text : String) : Option Threshold := spellings.lookup text.toLower

def limit : Threshold → Option Level
  | .off => none
  | .upTo level => some level
  | .everything => some .debug

end Threshold

/-- What is taken from targets that begin with a text; from all targets, if there is none. -/
structure Directive where
  target : Option String
  threshold : Threshold
deriving DecidableEq, Repr

namespace Directive

/-- How specific a directive is: the length of its target. -/
def weight (d : Directive) : Nat := (d.target.map String.utf8ByteSize).getD 0

def countsFor (d : Directive) (target : String) : Bool :=
  match d.target with
  | some start => start.toList.isPrefixOf target.toList
  | none => true

def parse (text : String) : Except String Directive :=
  match (text.splitOn "=") with
  | [single] =>
    match Threshold.parse? single with
    | some threshold => .ok ⟨none, threshold⟩
    | none => .ok ⟨some single, .everything⟩
  | [target, level] =>
    let level := Text.trim level
    if level.isEmpty then .ok ⟨some target, .everything⟩
    else
      match Threshold.parse? level with
      | some threshold => .ok ⟨some target, threshold⟩
      | none => .error level
  | _ => .error text

/-- Adds a directive, in place of one for the same target. -/
def insert (d : Directive) : List Directive → List Directive
  | [] => [d]
  | other :: rest => if other.target = d.target then d :: rest else other :: insert d rest

/-- Of two directives, the one that holds: the more specific, and of equals the later. -/
def stronger (best : Option Directive) (d : Directive) : Option Directive :=
  match best with
  | some b => if b.weight ≤ d.weight then some d else some b
  | none => some d

/-- The threshold that directives give a target. Without directives only errors are taken. -/
def thresholdOf (ds : List Directive) (target : String) : Threshold :=
  if ds.isEmpty then .upTo .error
  else
    match (ds.filter (·.countsFor target)).foldl stronger none with
    | some d => d.threshold
    | none => .off

end Directive

structure Filter where
  backend : Backend
  warnings : List String
deriving Repr

namespace Filter

def variableName : String := "RUST_LOG"

def warning (wrong : String) : String := "warning: " ++ wrong ++ ", ignoring it"

def invalid (text : String) : String := "invalid logging spec '" ++ text ++ "'"

def readDirectives (text : String) : List Directive × List String :=
  let items := ((text.splitOn ",").map Text.trim).filter (!·.isEmpty)
  items.foldl (fun (ds, warnings) item =>
    match Directive.parse item with
    | .ok d => (d.insert ds, warnings)
    | .error wrong => (ds, warnings ++ [warning (invalid wrong)])) ([], [])

def read (text : String) : Filter :=
  match text.splitOn "/" with
  | [directives] =>
    let (ds, warnings) := readDirectives directives
    ⟨{ limit := (Directive.thresholdOf ds logTarget).limit }, warnings⟩
  | [directives, written] =>
    let (ds, warnings) := readDirectives directives
    let limit := (Directive.thresholdOf ds logTarget).limit
    match Text.Pattern.parse written with
    | .ok pattern => ⟨{ limit, pattern }, warnings⟩
    | .error e =>
      ⟨{ limit }, warnings ++ [warning ("invalid regex filter - " ++ e.render written)]⟩
  | _ => ⟨{ limit := some .error }, [warning (invalid text ++ " (too many '/'s)")]⟩

/-- The filter of an environment. Without the variable, lines down to a given level are taken. -/
def ofEnvironment (env : Environment) (level : Level) : Filter :=
  match env.lookup variableName with
  | some text => read text
  | none => ⟨{ limit := some level }, []⟩

end Filter

end ContractLex.Command
