import ContractLex.Batch
import ContractLex.Command.Arguments
import ContractLex.Command.Filter
import ContractLex.Settings.File

/-!
# The command

The command lexes the source files that its arguments name. What it does is a function of its
arguments, its environment and the files it finds: an exit code, two output texts, and the files as
they are afterwards.
-/

namespace ContractLex.Command

structure Outcome where
  exit : Nat
  out : String := ""
  err : String := ""
  files : Files

def programVersion : String := "0.1.0"

/-- How the program was built: with all its checks. -/
def buildProfile : String := "debug"

def buildSummary : String := "specula_lexer " ++ programVersion ++ " (" ++ buildProfile ++ ")"

/-- The least severe level that is logged, for how often the user asked for more. -/
def levelFor (verbosity : Nat) (level : Level) : Level :=
  match verbosity with
  | 0 => level
  | 1 => level.max .info
  | _ => .debug

/-- The settings with what the arguments ask for. -/
def override (a : Arguments) (s : Settings) : Settings where
  lexical := { s.lexical with carryComments := s.lexical.carryComments || a.carryComments }
  logging := { s.logging with minLevel := levelFor a.verbosity s.logging.minLevel }
  output := { s.output with format := a.format.getD s.output.format }

def settingsFor (a : Arguments) (env : Environment) (files : Files) :
    Except SettingsError Settings := do
  let s ← match a.config with
    | some p => Settings.ofFile env.settings files p
    | none => .ok env.settings
  return override a s

def journalFor (s : Settings) (env : Environment) : Journal :=
  let filter := Filter.ofEnvironment env s.logging.minLevel
  let j : Journal := {
    defaults := env.logging
    installed := some s.logging
    service := some { sink := .facade, min := s.logging.minLevel }
    backend := filter.backend }
  let j := filter.warnings.foldl (fun j text => j.put .err text) j
  j.offer .debug j.describe

/-- The text that goes to one of the outputs. The log is part of the error output; a control
sequence in one of its lines can take in the end of the line, but nothing of the next. -/
def outputText (coloured : Bool) (lines : Array Line) (errors : Bool) : String :=
  lines.foldl (fun text line =>
    match line.channel, errors with
    | .out, false => text ++ line.text ++ "\n"
    | .err, true => text ++ line.text ++ "\n"
    | .backend level, true => text ++ logLine coloured level line.text
    | _, _ => text) ""

def finish (env : Environment) (exit : Nat) (j : Journal) (files : Files) : Outcome where
  exit
  out := outputText (isColoured env) j.lines false
  err := outputText (isColoured env) j.lines true
  files

/-- Lexes the source files that the arguments name. -/
def lexAll (a : Arguments) (env : Environment) (s : Settings) (j : Journal) (files : Files) :
    Outcome :=
  let (sources, found) := Discovery.sources files a.paths
  let j := j.logAll found
  if sources.isEmpty then finish env 1 (j.put .err "Error: no .spc files found") files
  else
    let m : Batch.Mode := ⟨s.output.format, a.toOutput, s.output.writeEmpty⟩
    let b := Batch.run m { files, lexer := { settings := s.lexical } } 0 sources
    let j := (j.actAll b.actions).log b.closing
    if 0 < b.failed then finish env 1 (j.put .err j.collector.report) b.files
    else finish env 0 j b.files

def run (arguments : List String) (env : Environment) (files : Files) : Outcome :=
  match Arguments.read arguments with
  | .error .help => { exit := 0, out := helpText ++ "\n", files }
  | .error .version => { exit := 0, out := "specula " ++ programVersion ++ "\n", files }
  | .error (.wrong e) => { exit := 2, err := e.render ++ "\n", files }
  | .ok a =>
    match settingsFor a env files with
    | .error e => { exit := 2, err := "Error: " ++ e.message ++ "\n", files }
    | .ok s => lexAll a env s (journalFor s env) files

end ContractLex.Command
