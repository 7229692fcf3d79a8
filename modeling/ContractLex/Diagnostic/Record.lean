import ContractLex.Diagnostic
import ContractLex.Json.Reader

/-!
# Diagnostics as JSON records

A diagnostic is written as an object with four fields and read back from such an object, or from
the array of its four values. The kind is carried by its label.
-/

namespace ContractLex.Diagnostic

def fieldNames : List String := ["kind", "message", "line", "char_pos"]

def toRecord (d : Diagnostic) : Json :=
  .object [("kind", .string d.kind.label), ("message", .string d.message), ("line", .nat d.line),
    ("char_pos", .nat d.column)]

/-- The diagnostic that a JSON value describes. No field may be missing or repeated. -/
def ofRecord? (j : Json) : Option Diagnostic :=
  match j.fields? fieldNames fieldNames.length true with
  | some [some kind, some message, some line, some column] => do
    let kind ← DiagnosticKind.ofLabel? (← kind.choice?)
    let message ← message.string?
    let line ← line.natBelow? lineLimit
    let column ← column.natBelow? columnLimit
    return { kind, message, line, column }
  | _ => none

def parse? (text : String) : Option Diagnostic := Json.read? text >>= ofRecord?

theorem ofRecord?_toRecord (d : Diagnostic) (hl : d.line < lineLimit)
    (hc : d.column < columnLimit) :
    ofRecord? d.toRecord = some d := by
  simp [ofRecord?, toRecord, fieldNames, Json.fields?, Json.string?, Json.choice?, Json.natBelow?,
    Json.nat, DiagnosticKind.ofLabel?_label, hl, hc]

end ContractLex.Diagnostic
