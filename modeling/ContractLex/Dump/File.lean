import ContractLex.Dump
import ContractLex.Files
import ContractLex.Log.Event

/-!
# Dump files

The dump of a source, or the failure of its lexing, is written to a file beside the source. What the
log hears of it is returned together with the result.
-/

namespace ContractLex

inductive DumpError where
  | unwritable (path : Path) (reason : String)
  | unrenderable (reason : String)
  | noFileName (path : Path)
deriving DecidableEq, Repr

namespace DumpError

def message : DumpError → String
  | .unwritable path reason => "Failed to write token file " ++ path.text ++ ": " ++ reason
  | .unrenderable reason => "Failed to serialize tokens: " ++ reason
  | .noFileName path => "Input path has no file name: " ++ path.text

def code : DumpError → String
  | .unwritable _ _ => "E040"
  | .unrenderable _ => "E041"
  | .noFileName _ => "E040"

def event (e : DumpError) : Event := .error e.code e.message

end DumpError

namespace Dump

def pathOf (p : Path) : Except DumpError Path :=
  match path? p with
  | some q => .ok q
  | none => .error (.noFileName p)

/-- What came of writing a dump: the files after it, the dump's path and what the log hears. -/
structure Written where
  files : Files
  result : Except DumpError Path
  events : List Event

/-- Writes a text beside the file at `p`. Only a failure to write is logged, and not a path that has
no place for a dump. -/
def writeText (files : Files) (p : Path) (text : String) : Written :=
  match pathOf p with
  | .error e => ⟨files, .error e, []⟩
  | .ok q =>
    match files.write q text with
    | .ok files => ⟨files, .ok q, []⟩
    | .error fault =>
      let e := DumpError.unwritable q fault.message
      ⟨files, .error e, [e.event]⟩

def writtenEvent (q : Path) (count : Nat) (format : OutputFormat) : Event :=
  (((Event.success "I021" "Token file written").tag "file" q.text).tag "tokens"
    (toString count)).tag "format" format.label

def writeTokens (files : Files) (p : Path) (ts : List Token) (format : OutputFormat) : Written :=
  let w := writeText files p (render format ts)
  match w.result with
  | .ok q => { w with events := w.events ++ [writtenEvent q ts.length format] }
  | .error _ => w

def writeError (files : Files) (p : Path) (e : LexError) : Written :=
  writeText files p (renderError e)

end Dump

end ContractLex
