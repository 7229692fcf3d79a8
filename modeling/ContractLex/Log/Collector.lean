import Std.Data.TreeMap
import ContractLex.Log.Event
import ContractLex.Path

/-!
# Events by file

A collector keeps the events of each file of a batch, up to a number of files and a number of events
for each. Paths with the same components are one file, which is shown as it was named first; files
come in the order of their paths. The report lists what went wrong, file by file.
-/

namespace ContractLex

def maxFileEvents : Nat := 1000

def maxFiles : Nat := 10000

structure FileEvents where
  path : Path
  events : Array Event := #[]

namespace FileEvents

/-- The event that stands for all those which are too many. -/
def overflow : Event :=
  .warning ("Too many events for file (limit: " ++ toString maxFileEvents ++ ")")

/-- Adds an event while there is room. The first one that finds none leaves a warning. -/
def add (f : FileEvents) (e : Event) : FileEvents :=
  if f.events.size < maxFileEvents then { f with events := f.events.push e }
  else if f.events.size = maxFileEvents then { f with events := f.events.push overflow }
  else f

def errors (f : FileEvents) : List Event := f.events.toList.filter Event.isError

def warnings (f : FileEvents) : List Event := f.events.toList.filter Event.isWarning

end FileEvents

structure Collector where
  files : Std.TreeMap (List String) FileEvents := ∅

/-- What a batch has come to. A file is counted by its worst event. -/
structure Summary where
  files : Nat := 0
  successful : Nat := 0
  failed : Nat := 0
  withWarnings : Nat := 0
  errors : Nat := 0
  warnings : Nat := 0
deriving DecidableEq, Repr

def Summary.add (s : Summary) (f : FileEvents) : Summary :=
  let errors := f.errors.length
  let warnings := f.warnings.length
  let s := { s with
    files := s.files + 1, errors := s.errors + errors, warnings := s.warnings + warnings }
  if 0 < errors then { s with failed := s.failed + 1 }
  else if 0 < warnings then { s with withWarnings := s.withWarnings + 1 }
  else { s with successful := s.successful + 1 }

namespace Collector

/-- Records an event of the file at `p`. A new file is tracked while there is room. -/
def record (c : Collector) (p : Path) (e : Event) : Collector :=
  match c.files[p.key]? with
  | some f => ⟨c.files.insert p.key (f.add e)⟩
  | none =>
    if c.files.size < maxFiles then ⟨c.files.insert p.key (FileEvents.add { path := p } e)⟩ else c

def toList (c : Collector) : List FileEvents := c.files.toList.map (·.2)

def events (c : Collector) (p : Path) : List Event :=
  match c.files[p.key]? with
  | some f => f.events.toList
  | none => []

def errors (c : Collector) (p : Path) : List Event := (c.events p).filter Event.isError

def summary (c : Collector) : Summary := c.toList.foldl Summary.add {}

/-! ## The report -/

/-- An event of the file at `p`: what it is, where, and its context but for the file. -/
def renderEvent (label : String) (p : Path) (e : Event) : String :=
  let place := match e.span with
    | some span => "\n  --> " ++ p.text ++ ":" ++ span.start.render
    | none => ""
  let context := e.context.filter fun (name, _) => name != "file" && name != "file_id"
  let lines := context.map fun (name, value) => "  = " ++ name ++ ": " ++ value ++ "\n"
  label ++ "[" ++ e.code ++ "]: " ++ e.message ++ place ++ "\n" ++ String.join lines

/-- What to do about an error, if its code is registered. -/
def renderHelp (e : Event) : String :=
  match CodeEntry.find? e.code with
  | some entry => "  = help: " ++ entry.action ++ "\n"
  | none => ""

/-- The errors of a file and then its warnings; nothing if there are none. -/
def renderFile (f : FileEvents) : String :=
  if f.errors.isEmpty && f.warnings.isEmpty then ""
  else
    "Checking " ++ f.path.text ++ "...\n"
      ++ String.join (f.errors.map fun e => renderEvent "error" f.path e ++ renderHelp e)
      ++ String.join (f.warnings.map (renderEvent "warning" f.path)) ++ "\n"

def report (c : Collector) : String :=
  let s := c.summary
  let total (label : String) (n : Nat) : String :=
    if 0 < n then "Total " ++ label ++ ": " ++ toString n ++ "\n" else ""
  String.join (c.toList.map renderFile) ++ total "errors" s.errors ++ total "warnings" s.warnings

end Collector

end ContractLex
