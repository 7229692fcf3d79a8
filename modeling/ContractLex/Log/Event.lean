import ContractLex.Json.Basic
import ContractLex.Log.Calendar
import ContractLex.Log.Code
import ContractLex.Log.Level
import ContractLex.Span

/-!
# Log events

An event has a level, a code and a message. It may belong to a place in a text, and it carries
further values by name, sorted by name. It is written as one line, or as one JSON object.
-/

namespace ContractLex

structure Event where
  level : Level
  code : String
  message : String
  span : Option Span := none
  /-- Values by name, in the order of the names. -/
  context : List (String × String) := []
  /-- Milliseconds since the first day of 1970. -/
  time : Int := 0
deriving DecidableEq, Repr

namespace Event

/-! ## Making events -/

def error (code message : String) : Event := { level := .error, code, message }

def codedWarning (code message : String) : Event := { level := .warning, code, message }

def success (code message : String) : Event := { level := .info, code, message }

def warning (message : String) : Event := { level := .warning, code := "W000", message }

def info (message : String) : Event := { level := .info, code := "I000", message }

def debug (message : String) : Event := { level := .debug, code := "D000", message }

/-- Puts a value into a list sorted by name, in place of one that has the same name. -/
def insertSorted (name value : String) : List (String × String) → List (String × String)
  | [] => [(name, value)]
  | (other, old) :: rest =>
    if name = other then (name, value) :: rest
    else if name < other then (name, value) :: (other, old) :: rest
    else (other, old) :: insertSorted name value rest

def tag (e : Event) (name value : String) : Event :=
  { e with context := insertSorted name value e.context }

def located (e : Event) (span : Span) : Event := { e with span := some span }

/-! ## Classes -/

def isError (e : Event) : Bool := e.level == .error

def isWarning (e : Event) : Bool := e.level == .warning

def entry (e : Event) : CodeEntry := CodeEntry.get e.code

/-! ## Writing -/

def render (e : Event) : String :=
  let place := match e.span with
    | some span => " at " ++ span.start.render
    | none => ""
  "[" ++ e.level.name ++ "] " ++ e.code ++ " - " ++ e.message ++ place

/-- The event as a JSON object with sorted members. Only an error shows what its code means. -/
def toRecord (e : Event) : Json :=
  let entry := e.entry
  let context := e.context.map fun (name, value) => (name, Json.string value)
  let meaning : Json := .object [
    ("description", .string entry.description), ("recommended_action", .string entry.action),
    ("recoverable", .bool entry.recoverable), ("requires_halt", .bool entry.requiresHalt)]
  let place (span : Span) : Json := .object [
    ("char_end", .nat span.stop.column), ("char_start", .nat span.start.column),
    ("line", .nat span.start.line)]
  .object (
    [("category", .string entry.category.name), ("code", .string e.code)]
    ++ (if e.context.isEmpty then [] else [("context", .object context)])
    ++ (if e.isError then [("error_metadata", meaning)] else [])
    ++ [("level", .string e.level.name), ("message", .string e.message),
      ("severity", .string entry.severity.name)]
    ++ (match e.span with
      | some span => [("span", place span)]
      | none => [])
    ++ [("timestamp", .string (Calendar.render e.time))])

def renderJson (e : Event) : String := e.toRecord.render

end Event

end ContractLex
