import ContractLex.Decimal
import ContractLex.Files
import ContractLex.Log.Trail
import ContractLex.Source
import ContractLex.Text.Lines
import ContractLex.Text.Utf8

/-!
# Source files

A source file is a file whose contents are a text of bounded size. Whoever reads one learns either
its text and what is known about it, or the first check that it failed.
-/

namespace ContractLex

def sourceExtension : String := "spc"

def maxFileSize : Nat := 10485760

def maxLineCount : Nat := 500000

/-! ## Sizes -/

/-- A size for people: in bytes, or with two places in the largest unit of which there is one. -/
def humanSize (bytes : Nat) : String :=
  let size := Decimal.nearestDouble bytes
  let inUnit (unit : Nat) (name : String) : String :=
    Decimal.renderHundredths (Decimal.hundredths size unit) ++ " " ++ name
  if size < 1024 then toString bytes ++ " B"
  else if size < 1048576 then inUnit 1024 "KB"
  else if size < 1073741824 then inUnit 1048576 "MB"
  else inUnit 1073741824 "GB"

/-! ## Errors -/

inductive SourceError where
  | notFound (path : Path)
  | wrongExtension (extension : Option String)
  | tooLarge (size max : Nat)
  | empty (path : Path)
  | noPermission (path : Path)
  | notText (path : Path)
  | unreadable (path : Path) (reason : String)
  | badPath (path : Path)
  | tooManyLines (lines max : Nat)
deriving DecidableEq, Repr

namespace SourceError

def message : SourceError → String
  | .notFound path => "File not found: " ++ path.text
  | .wrongExtension extension =>
    let found := match extension with
      | some extension => "Some(" ++ Text.quoted extension ++ ")"
      | none => "None"
    "Invalid file extension: expected ." ++ sourceExtension ++ ", found " ++ found
  | .tooLarge size max => s!"File too large: {size} bytes (max: {max})"
  | .empty path => "File is empty: " ++ path.text
  | .noPermission path => "Permission denied: " ++ path.text
  | .notText path => "Invalid UTF-8 encoding in file: " ++ path.text
  | .unreadable path reason => "I/O error reading " ++ path.text ++ ": " ++ reason
  | .badPath path => "Invalid file path: " ++ path.text
  | .tooManyLines lines max => s!"File exceeds maximum line count: {lines} (max: {max})"

def code : SourceError → String
  | .notFound _ => "E005"
  | .wrongExtension _ => "E006"
  | .tooLarge _ _ => "E007"
  | .empty _ => "E008"
  | .noPermission _ => "E009"
  | .notText _ => "E010"
  | .unreadable _ _ => "E011"
  | .badPath _ => "E012"
  | .tooManyLines _ _ => "E013"

def isRecoverable (e : SourceError) : Bool := (CodeEntry.get e.code).recoverable

def ofFault (p : Path) : FileFault → SourceError
  | .notFound => .notFound p
  | .noPermission => .noPermission p
  | .badText => .notText p
  | fault => .unreadable p fault.message

end SourceError

/-! ## Reading -/

structure FileFacts where
  path : Path
  size : Nat
  extension : Option String
  lineCount : Nat
deriving DecidableEq, Repr

namespace FileFacts

def isSource (f : FileFacts) : Bool := f.extension == some sourceExtension

def humanSize (f : FileFacts) : String := ContractLex.humanSize f.size

end FileFacts

structure SourceFile where
  text : String
  facts : FileFacts
deriving DecidableEq, Repr

structure Admission where
  /-- Only those with the extension of source files. -/
  sourcesOnly : Bool := false
  /-- Also those without contents. -/
  emptyAllowed : Bool := true
deriving DecidableEq, Repr

namespace SourceFile

/-- The checks that are made before the file at a path is opened. -/
def checkFile (a : Admission) (p : Path) (size : Nat) : Except SourceError Unit :=
  let extension := p.extension?
  if a.sourcesOnly && extension != some sourceExtension then .error (.wrongExtension extension)
  else if maxFileSize < size then .error (.tooLarge size maxFileSize)
  else if size = 0 && !a.emptyAllowed then .error (.empty p)
  else .ok ()

/-- Checks contents that were found at a path. -/
def ofContents (p : Path) (extension : Option String) (contents : ByteArray) :
    Except SourceError SourceFile :=
  match Text.ofBytes contents with
  | .error _ => .error (.notText p)
  | .ok text =>
    let lineCount := (Text.lines text).length
    if maxLineCount < lineCount then .error (.tooManyLines lineCount maxLineCount)
    else .ok { text, facts := { path := p, size := contents.size, extension, lineCount } }

def read (files : Files) (a : Admission) (p : Path) : Except SourceError SourceFile :=
  if p.text.isEmpty then .error (.badPath p)
  else
    match files.get p with
    | .error fault => .error (.ofFault p fault)
    | .ok (.folder _) | .ok .lockedFolder => .error (.badPath p)
    | .ok (.lockedFile size) => do
      checkFile a p size
      .error (.noPermission p)
    | .ok (.file contents) => do
      checkFile a p contents.size
      ofContents p p.extension? contents

/-- What the log hears when a file is read. Time is not measured, so the duration is zero. -/
def readingEvents (p : Path) (result : Except SourceError SourceFile) : List Event :=
  let opening := (Event.debug "Starting file processing").tag "file" p.text
  let closing := match result with
    | .ok s =>
      ((((Event.success "I004" "File processed successfully").tag "file" p.text).tag "size"
        s.facts.humanSize).tag "lines" (toString s.facts.lineCount)).tag "duration_ms" "0.00"
    | .error e => (Event.error e.code e.message).tag "file" p.text
  [opening, closing]

end SourceFile

structure ReadReport where
  facts : FileFacts
  /-- One for each line that was abandoned. -/
  errors : List LexError
deriving DecidableEq, Repr

namespace Lexer

/-- Moves out what the log has not heard yet, as events. -/
def takeEvents (lx : Lexer) : Lexer × List Event :=
  let (notes, lx) := lx.takeTrail
  (lx, notes.toList.map Note.event)

/-- Reads the file at a path and feeds it, whatever errors there are. Returns also what the log
hears of it. -/
def feedFile (lx : Lexer) (files : Files) (p : Path) :
    Lexer × Except SourceError ReadReport × List Event :=
  let result := SourceFile.read files {} p
  let opening := SourceFile.readingEvents p result
  match result with
  | .error e => (lx, .error e, opening)
  | .ok s =>
    let (lx, errors) := lx.feedSourceRecovering s.text
    let (lx, events) := lx.takeEvents
    (lx, .ok { facts := s.facts, errors }, opening ++ events)

end Lexer

end ContractLex
