import ContractLex.Log.Level

/-!
# Settings

The user's choices, in three sections: how to lex, what to log, and what to write. The values given
here hold where neither the environment nor a settings file says otherwise.
-/

namespace ContractLex

structure LexicalSettings where
  /-- Keep an open block comment from one fed text to the next. Otherwise a comment that is open
  when a text ends is a fault. -/
  carryComments : Bool := false
  /-- Send every recorded diagnostic to the log; terminal ones go there in any case. -/
  logDiagnostics : Bool := true
  collectMetrics : Bool := true
deriving DecidableEq, Repr

structure LoggingSettings where
  structured : Bool := false
  console : Bool := false
  minLevel : Level := .warning
  /-- Say in each event which file it belongs to. -/
  fileContext : Bool := true
deriving DecidableEq, Repr

inductive OutputFormat where
  /-- One line `KIND | text` per token. -/
  | plain
  | json
deriving DecidableEq, Repr

namespace OutputFormat

def all : List OutputFormat := [.plain, .json]

def label : OutputFormat → String
  | .plain => "plain"
  | .json => "json"

def ofLabel? (label : String) : Option OutputFormat := all.find? (·.label == label)

def spellings : List (String × OutputFormat) := [
  ("plain", .plain), ("text", .plain), ("json", .json)]

/-- Reads a form, whatever its letter case. No letter outside ASCII has a lower case that occurs
in a spelling. -/
def parse? (text : String) : Option OutputFormat := spellings.lookup text.toLower

theorem ofLabel?_label (f : OutputFormat) : ofLabel? f.label = some f := by cases f <;> decide

end OutputFormat

structure OutputSettings where
  format : OutputFormat := .plain
  /-- Write a dump even if there is no token. -/
  writeEmpty : Bool := false
deriving DecidableEq, Repr

structure Settings where
  lexical : LexicalSettings := {}
  logging : LoggingSettings := {}
  output : OutputSettings := {}
deriving DecidableEq, Repr

end ContractLex
