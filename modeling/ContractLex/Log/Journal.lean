import ContractLex.Log.Collector
import ContractLex.Log.Sink
import ContractLex.Settings.Basic
import ContractLex.Text.Pattern

/-!
# The journal

The journal is the state of logging: which service is installed, which file is being worked on, what
was collected for each file, and every line that was put out. A service is installed once, and so
are the logging settings. Without a service no event has an effect.

An event first gets the current file added to its context. Errors and warnings of a file are
collected, whatever the minimum level; then the service delivers what passes.
-/

namespace ContractLex

/-- Where a line goes: to the output, to the error output, or to whatever takes the lines of the
log on behalf of the surrounding program. -/
inductive Channel where
  | out
  | err
  | backend (level : Level)
deriving DecidableEq, Repr

structure Line where
  channel : Channel
  text : String
deriving DecidableEq, Repr

/-- What the surrounding program takes: lines down to a level, if any, that a pattern fits some part
of. The empty pattern fits all. -/
structure Backend where
  limit : Option Level := none
  pattern : Text.Pattern := .empty
deriving DecidableEq, Repr

namespace Backend

def takes (b : Backend) (level : Level) (text : String) : Bool :=
  match b.limit with
  | some limit => level.passes limit && b.pattern.occursIn text
  | none => false

end Backend

inductive Sink where
  | null
  | console (min : Level)
  /-- As lines that are JSON objects, under a minimum level of its own. -/
  | structured (min : Level)
  | memory
  | facade
deriving DecidableEq, Repr

structure Service where
  sink : Sink
  min : Level
deriving DecidableEq, Repr

inductive JournalError where
  | serviceInstalled
  | settingsInstalled
deriving DecidableEq, Repr

def JournalError.message : JournalError → String
  | .serviceInstalled => "Global logger already initialized"
  | .settingsInstalled => "Runtime preferences already initialized"

/-- The file that is being worked on, and its number in the batch. -/
structure FileContext where
  path : Path
  id : Nat
deriving DecidableEq, Repr

structure Journal where
  /-- What holds until logging settings are installed. -/
  defaults : LoggingSettings := {}
  installed : Option LoggingSettings := none
  service : Option Service := none
  collector : Collector := {}
  context : Option FileContext := none
  memory : Memory := {}
  backend : Backend := {}
  lines : Array Line := #[]

namespace Journal

def settings (j : Journal) : LoggingSettings := j.installed.getD j.defaults

def put (j : Journal) (channel : Channel) (text : String) : Journal :=
  { j with lines := j.lines.push ⟨channel, text⟩ }

/-- Offers a line to the surrounding program. -/
def offer (j : Journal) (level : Level) (text : String) : Journal :=
  if j.backend.takes level text then j.put (.backend level) text else j

/-- Errors and warnings go to the error output. -/
def channelOf (l : Level) : Channel := if l.passes .warning then .err else .out

def hand (j : Journal) (e : Event) : Sink → Journal
  | .null => j
  | .console min => if e.level.passes min then j.put (channelOf e.level) e.render else j
  | .structured min => if e.level.passes min then j.put (channelOf e.level) e.renderJson else j
  | .memory => { j with memory := j.memory.store e }
  | .facade => j.offer e.level e.render

/-- Delivers an event to the service's sink if it passes. -/
def deliver (j : Journal) (s : Service) (e : Event) : Journal :=
  match e.delivered? s.min with
  | some e => j.hand e s.sink
  | none => j

def withFile (j : Journal) (e : Event) : Event :=
  match j.context with
  | some context =>
    if j.settings.fileContext then
      (e.tag "file" context.path.text).tag "file_id" (toString context.id)
    else e
  | none => e

/-- Collects an error or warning of the current file. -/
def collect (j : Journal) (e : Event) : Journal :=
  match j.context with
  | some context =>
    if e.isError || e.isWarning then
      { j with collector := j.collector.record context.path e }
    else j
  | none => j

def log (j : Journal) (e : Event) : Journal :=
  match j.service with
  | none => j
  | some s =>
    let e := j.withFile e
    (j.collect e).deliver s e

def logAll (j : Journal) (es : List Event) : Journal := es.foldl log j

/-! ## Installing -/

def install (j : Journal) (s : Service) : Except JournalError Journal :=
  if j.service.isSome then .error .serviceInstalled else .ok { j with service := some s }

/-- The service that logging settings ask for. -/
def serviceOf (s : LoggingSettings) : Service :=
  { min := s.minLevel
    sink :=
      if !s.console then .null
      else if s.structured then .structured s.minLevel
      else .console s.minLevel }

def opening : Event := .success "I001" "Global logging system initialized"

/-- Installs the service that the logging settings ask for. -/
def installConfigured (j : Journal) : Except JournalError Journal := do
  let s := serviceOf j.settings
  return (← j.install s).deliver s opening

def installSettings (j : Journal) (s : LoggingSettings) : Except JournalError Journal :=
  if j.installed.isSome then .error .settingsInstalled else .ok { j with installed := some s }

def enter (j : Journal) (path : Path) (id : Nat) : Journal := { j with context := some ⟨path, id⟩ }

def leave (j : Journal) : Journal := { j with context := none }

/-! ## Looking -/

/-- Whether events of a level are delivered. -/
def hears (j : Journal) (l : Level) : Bool :=
  match j.service with
  | some s => l.passes s.min
  | none => false

/-- The collected events, once a service is installed. -/
def collector? (j : Journal) : Option Collector := j.service.map fun _ => j.collector

def describe (j : Journal) : String :=
  let s := j.settings
  "Logging Configuration:\n- Max events per file: " ++ toString maxFileEvents
    ++ "\n- Max tracked files: " ++ toString maxFiles
    ++ "\n- Max message length: " ++ toString maxMessage
    ++ "\n- Min log level: " ++ s.minLevel.name
    ++ "\n- Structured logging: " ++ toString s.structured
    ++ "\n- Console logging: " ++ toString s.console
    ++ "\n- Include file context: " ++ toString s.fileContext

end Journal

end ContractLex
