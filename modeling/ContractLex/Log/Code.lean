/-!
# Registered codes

Every event carries a code. A registered code has a category and a severity, and says whether a run
may go on after it, whether it has to stop, what the code means and what to do about it. Codes that
are not registered get the values of `CodeEntry.unregistered`.
-/

namespace ContractLex

/-- What part of the program a code belongs to. -/
inductive Category where
  | system
  | configuration
  | fileProcessing
  | lexical
  | output
  | boundary
  | success
  | unknown
deriving DecidableEq, Repr

def Category.name : Category → String
  | .system => "System"
  | .configuration => "Configuration"
  | .fileProcessing => "FileProcessing"
  | .lexical => "Lexical"
  | .output => "Output"
  | .boundary => "Bridge"
  | .success => "Success"
  | .unknown => "Unknown"

inductive Severity where
  | critical
  | high
  | medium
  | low
deriving DecidableEq, Repr

namespace Severity

def all : List Severity := [.critical, .high, .medium, .low]

def name : Severity → String
  | .critical => "Critical"
  | .high => "High"
  | .medium => "Medium"
  | .low => "Low"

def rank : Severity → Nat
  | .critical => 0
  | .high => 1
  | .medium => 2
  | .low => 3

def ofName? (name : String) : Option Severity := all.find? (·.name == name)

theorem ofName?_name (s : Severity) : ofName? s.name = some s := by cases s <;> decide

end Severity

structure CodeEntry where
  code : String
  category : Category
  severity : Severity
  recoverable : Bool
  requiresHalt : Bool
  description : String
  action : String
deriving DecidableEq, Repr

namespace CodeEntry

def registry : List CodeEntry := [
  ⟨"ERR001", .system, .critical, false, true, "Internal lexer invariant violated",
    "File a bug report with the input that triggered it"⟩,
  ⟨"E001", .configuration, .high, false, true, "Invalid configuration value",
    "Fix the reported key in the configuration file or environment"⟩,
  ⟨"E002", .configuration, .high, false, true, "Configuration file could not be read",
    "Verify the configuration path and permissions"⟩,
  ⟨"E005", .fileProcessing, .high, true, false, "Source file not found",
    "Verify file path exists and is accessible"⟩,
  ⟨"E006", .fileProcessing, .medium, true, false, "Source file has an unexpected extension",
    "Use files with the .spc extension"⟩,
  ⟨"E007", .fileProcessing, .high, true, false, "Source file exceeds the size limit",
    "Split the source into smaller files"⟩,
  ⟨"E008", .fileProcessing, .low, true, false, "Source file is empty",
    "Add content or skip the file"⟩,
  ⟨"E009", .fileProcessing, .high, true, false, "Permission denied reading source file",
    "Check file permissions"⟩,
  ⟨"E010", .fileProcessing, .high, true, false, "Source file is not valid UTF-8",
    "Re-encode the file as UTF-8"⟩,
  ⟨"E011", .fileProcessing, .high, true, false, "I/O error while reading source file",
    "Retry or check the storage device"⟩,
  ⟨"E012", .fileProcessing, .medium, true, false, "Invalid source path",
    "Pass a regular file path"⟩,
  ⟨"E013", .fileProcessing, .high, true, false, "Source file has too many lines",
    "Split the source into smaller files"⟩,
  ⟨"E020", .lexical, .medium, true, false, "Unrecognized initial character",
    "Remove or replace the character"⟩,
  ⟨"E021", .lexical, .medium, true, false, "Malformed operator sequence",
    "Separate the operator characters"⟩,
  ⟨"E022", .lexical, .high, false, true, "Character literal is not closed",
    "Close the literal with a single quote"⟩,
  ⟨"E023", .lexical, .high, false, true, "String literal is not closed",
    "Close the literal with a double quote"⟩,
  ⟨"E024", .lexical, .medium, true, false, "Invalid escape sequence",
    "Use one of \\a \\b \\f \\n \\r \\t \\v \\\\ \\' \\\" \\?"⟩,
  ⟨"E025", .lexical, .medium, true, false, "Decimal literal ends with a period",
    "Add at least one digit after the period"⟩,
  ⟨"E026", .lexical, .medium, true, false, "Float suffix is not followed by a delimiter",
    "Separate the literal from what follows"⟩,
  ⟨"E027", .lexical, .medium, true, false, "Unexpected character inside a numeric literal",
    "Separate the number from the following text"⟩,
  ⟨"E028", .lexical, .medium, true, false, "Character literal is empty",
    "Put exactly one character between the quotes"⟩,
  ⟨"E029", .lexical, .medium, true, false, "Character literal holds more than one character",
    "Use a string literal for multiple characters"⟩,
  ⟨"E030", .lexical, .low, true, false, "Line break inside a string literal",
    "Use \\n instead of a raw line break"⟩,
  ⟨"E031", .lexical, .high, false, true, "Block comment is not closed",
    "Close the comment with */"⟩,
  ⟨"E032", .lexical, .medium, true, false, "Lexeme exceeds the maximum token length",
    "Split the token into smaller pieces"⟩,
  ⟨"E040", .output, .high, true, false, "Token file could not be written",
    "Check the output directory permissions"⟩,
  ⟨"E041", .output, .high, true, false, "Token payload could not be serialized",
    "File a bug report with the input"⟩,
  ⟨"E050", .boundary, .high, true, false, "Null pointer passed across the C boundary",
    "Pass a valid NUL-terminated string"⟩,
  ⟨"E051", .boundary, .high, true, false, "Input across the C boundary is not UTF-8",
    "Encode the source as UTF-8 before calling"⟩,
  ⟨"E052", .boundary, .high, true, false, "Result payload contains an interior NUL byte",
    "File a bug report with the input"⟩,
  ⟨"I001", .success, .low, true, false, "Logging system initialized",
    "Continue normal operation"⟩,
  ⟨"I004", .success, .low, true, false, "Source file read successfully",
    "Continue normal operation"⟩,
  ⟨"I020", .success, .low, true, false, "Tokenization completed",
    "Continue normal operation"⟩,
  ⟨"I021", .success, .low, true, false, "Token file written",
    "Continue normal operation"⟩,
  ⟨"I022", .success, .low, true, false, "Batch tokenization completed",
    "Continue normal operation"⟩]

def find? (code : String) : Option CodeEntry := registry.find? (·.code == code)

/-- What holds for a code that is not registered. -/
def unregistered (code : String) : CodeEntry :=
  ⟨code, .unknown, .medium, true, false, "Unknown error", "No specific action available"⟩

def get (code : String) : CodeEntry := (find? code).getD (unregistered code)

theorem nodup_codes : (registry.map code).Nodup := by decide +kernel

theorem find?_of_mem {e : CodeEntry} (h : e ∈ registry) : find? e.code = some e := by
  have all_found : ∀ e ∈ registry, find? e.code = some e := by decide +kernel
  exact all_found e h

end CodeEntry

end ContractLex
