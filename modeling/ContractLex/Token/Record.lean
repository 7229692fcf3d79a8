import ContractLex.Json.Reader
import ContractLex.Token.Basic

/-!
# Tokens as JSON records

A token is written as an object with five fields and read back from such an object, or from the
array of its five values. The kind is carried by its wire name. `Token.ofRecord?_toRecord` says that
a token whose place fits the machine widths is read back as it was.
-/

namespace ContractLex.Token

def fieldNames : List String := ["kind", "text", "line", "char_start", "char_end"]

def toRecord (t : Token) : Json :=
  .object [("kind", .string t.kind.wire), ("text", .string t.text), ("line", .nat t.line),
    ("char_start", .nat t.start), ("char_end", .nat t.stop)]

/-- The token that a JSON value describes. No field may be missing or repeated. -/
def ofRecord? (j : Json) : Option Token :=
  match j.fields? fieldNames fieldNames.length true with
  | some [some kind, some text, some line, some start, some stop] => do
    let kind ← Kind.ofWire? (← kind.string?)
    let text ← text.string?
    let line ← line.natBelow? lineLimit
    let start ← start.natBelow? columnLimit
    let stop ← stop.natBelow? columnLimit
    return { kind, text, line, start, stop }
  | _ => none

def parse? (text : String) : Option Token := Json.read? text >>= ofRecord?

theorem ofRecord?_toRecord (t : Token) (hl : t.line < lineLimit) (hs : t.start < columnLimit)
    (he : t.stop < columnLimit) : ofRecord? t.toRecord = some t := by
  simp [ofRecord?, toRecord, fieldNames, Json.fields?, Json.string?, Json.natBelow?, Json.nat,
    Kind.ofWire?_wire, hl, hs, he]

end ContractLex.Token
