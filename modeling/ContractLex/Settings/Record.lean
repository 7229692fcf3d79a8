import ContractLex.Json.Basic
import ContractLex.Path
import ContractLex.Settings.Environment
import ContractLex.Toml.Reader

/-!
# Settings as records

Settings are written as a record of three sections, in JSON or in TOML, and read back from either.
A section or a field that is missing keeps its value from the settings that hold anyway; names that
are not known do not count.
-/

namespace ContractLex

/-- What a language of documents admits. -/
structure Dialect where
  /-- Values in an array beyond those of a record do not count. Otherwise there may be none. -/
  surplus : Bool
  /-- What may stand beside the name of a choice to say that there is no more to it. -/
  isUnit : Json → Bool

namespace Dialect

def json : Dialect where
  surplus := false
  isUnit
    | .null => true
    | _ => false

def toml : Dialect where
  surplus := true
  isUnit
    | .object [] => true
    | .array [] => true
    | _ => false

/-- The fields of a record that may lack any of them. -/
def fields? (d : Dialect) (names : List String) : Json → Option (List (Option Json))
  | .array items =>
    let items := if d.surplus then items.take names.length else items
    Json.fields? names 0 false (.array items)
  | j => Json.fields? names 0 false j

def choice? (d : Dialect) : Json → Option String
  | .string name => some name
  | .object [(name, value)] => if d.isUnit value then some name else none
  | _ => none

/-- A field read with `read`, or a given value if the field is missing. -/
def field? {α : Type} (read : Json → Option α) (default : α) : Option Json → Option α
  | none => some default
  | some j => read j

end Dialect

namespace LexicalSettings

def fieldNames : List String := ["carry_block_comments", "log_diagnostics", "collect_metrics"]

def toRecord (s : LexicalSettings) : Json :=
  .object [("carry_block_comments", .bool s.carryComments),
    ("log_diagnostics", .bool s.logDiagnostics), ("collect_metrics", .bool s.collectMetrics)]

def ofRecord? (d : Dialect) (base : LexicalSettings) (j : Json) : Option LexicalSettings :=
  match d.fields? fieldNames j with
  | some [carry, log, metrics] => do
    return {
      carryComments := ← Dialect.field? Json.bool? base.carryComments carry
      logDiagnostics := ← Dialect.field? Json.bool? base.logDiagnostics log
      collectMetrics := ← Dialect.field? Json.bool? base.collectMetrics metrics }
  | _ => none

end LexicalSettings

namespace LoggingSettings

def fieldNames : List String := [
  "use_structured_logging", "enable_console_logging", "min_log_level", "include_file_context"]

def toRecord (s : LoggingSettings) : Json :=
  .object [("use_structured_logging", .bool s.structured),
    ("enable_console_logging", .bool s.console), ("min_log_level", .string s.minLevel.label),
    ("include_file_context", .bool s.fileContext)]

def ofRecord? (d : Dialect) (base : LoggingSettings) (j : Json) : Option LoggingSettings :=
  match d.fields? fieldNames j with
  | some [structured, console, minLevel, fileContext] => do
    let level (j : Json) : Option Level := d.choice? j >>= Level.ofLabel?
    return {
      structured := ← Dialect.field? Json.bool? base.structured structured
      console := ← Dialect.field? Json.bool? base.console console
      minLevel := ← Dialect.field? level base.minLevel minLevel
      fileContext := ← Dialect.field? Json.bool? base.fileContext fileContext }
  | _ => none

end LoggingSettings

namespace OutputSettings

def fieldNames : List String := ["format", "write_empty"]

def toRecord (s : OutputSettings) : Json :=
  .object [("format", .string s.format.label), ("write_empty", .bool s.writeEmpty)]

def ofRecord? (d : Dialect) (base : OutputSettings) (j : Json) : Option OutputSettings :=
  match d.fields? fieldNames j with
  | some [format, writeEmpty] => do
    let form (j : Json) : Option OutputFormat := d.choice? j >>= OutputFormat.ofLabel?
    return {
      format := ← Dialect.field? form base.format format
      writeEmpty := ← Dialect.field? Json.bool? base.writeEmpty writeEmpty }
  | _ => none

end OutputSettings

/-- Why settings cannot be had. -/
inductive SettingsError where
  | unreadable (path : Path) (reason : String)
  /-- The document is no TOML, or holds no settings. -/
  | malformed (path : Path) (reason : String)
  | unknownValue (key value : String)
deriving DecidableEq, Repr

namespace SettingsError

def message : SettingsError → String
  | .unreadable path reason =>
    "Cannot read configuration file '" ++ path.text ++ "': " ++ reason
  | .malformed path reason => "Invalid configuration in '" ++ path.text ++ "': " ++ reason
  | .unknownValue key value => "Unknown value '" ++ value ++ "' for " ++ key

def code : SettingsError → String
  | .unreadable _ _ => "E002"
  | .malformed _ _ => "E001"
  | .unknownValue _ _ => "E001"

end SettingsError

def OutputFormat.ofUser (text : String) : Except SettingsError OutputFormat :=
  match OutputFormat.parse? text with
  | some format => .ok format
  | none => .error (.unknownValue Environment.formatVariable text)

namespace Settings

def fieldNames : List String := ["lexical", "logging", "output"]

def toRecord (s : Settings) : Json :=
  .object [("lexical", s.lexical.toRecord), ("logging", s.logging.toRecord),
    ("output", s.output.toRecord)]

/-- The settings that a document describes, where `base` holds anyway. -/
def ofRecord? (d : Dialect) (base : Settings) (j : Json) : Option Settings :=
  match d.fields? fieldNames j with
  | some [lexical, logging, output] => do
    return {
      lexical := ← Dialect.field? (LexicalSettings.ofRecord? d base.lexical) base.lexical lexical
      logging := ← Dialect.field? (LoggingSettings.ofRecord? d base.logging) base.logging logging
      output := ← Dialect.field? (OutputSettings.ofRecord? d base.output) base.output output }
  | _ => none

/-- Reads a TOML document that was found at `origin`. -/
def ofToml (base : Settings) (text : String) (origin : Path) : Except SettingsError Settings :=
  match Toml.read? text with
  | none => .error (.malformed origin "the text is no TOML document")
  | some j =>
    match ofRecord? .toml base j with
    | some s => .ok s
    | none => .error (.malformed origin "a section or a value has the wrong form")

def fieldLine (name : String) (value : Json) : String := name ++ " = " ++ value.render ++ "\n"

def sectionText (name : String) : Json → String
  | .object members =>
    "[" ++ name ++ "]\n" ++ String.join (members.map fun (name, value) => fieldLine name value)
  | _ => ""

/-- The settings as a TOML document. Flags and names are spelled in TOML as in JSON. -/
def toToml (s : Settings) : String :=
  "\n".intercalate [sectionText "lexical" s.lexical.toRecord,
    sectionText "logging" s.logging.toRecord, sectionText "output" s.output.toRecord]

end Settings

end ContractLex
