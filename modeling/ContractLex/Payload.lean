import ContractLex.Diagnostic
import ContractLex.Json.Reader
import ContractLex.Token.Basic

/-!
# Payloads

The answer that a host of the lexer gets: either the tokens of a source or one error, as a JSON
object whose field `ok` tells which. A token payload holds the wire name and the text of each token
and nothing about its place.

`Payload.ofRecord?_toRecord_tokens` and `Payload.ofRecord?_toRecord_error` say that what the lexer
answers is read back as it was written.
-/

namespace ContractLex

structure TokenEntry where
  kind : String
  text : String
deriving DecidableEq, Repr

structure ErrorBody where
  message : String
  line : Nat
  column : Nat
deriving DecidableEq, Repr

/-- What a host gets. The flag `ok` belongs to the data, because a payload that was written by
somebody else may carry it with any value. -/
inductive Payload where
  | tokens (ok : Bool) (entries : List TokenEntry)
  | error (ok : Bool) (body : ErrorBody)
deriving DecidableEq, Repr

namespace TokenEntry

def ofToken (t : Token) : TokenEntry := ⟨t.kind.wire, t.text⟩

def fieldNames : List String := ["type", "value"]

def toRecord (e : TokenEntry) : Json :=
  .object [("type", .string e.kind), ("value", .string e.text)]

def ofRecord? (j : Json) : Option TokenEntry :=
  match j.fields? fieldNames fieldNames.length false with
  | some [some kind, some text] => do
    return { kind := ← kind.string?, text := ← text.string? }
  | _ => none

end TokenEntry

namespace ErrorBody

def fieldNames : List String := ["message", "line", "char"]

def toRecord (b : ErrorBody) : Json :=
  .object [("message", .string b.message), ("line", .nat b.line), ("char", .nat b.column)]

def ofRecord? (j : Json) : Option ErrorBody :=
  match j.fields? fieldNames fieldNames.length false with
  | some [some message, some line, some column] => do
    let message ← message.string?
    let line ← line.natBelow? columnLimit
    let column ← column.natBelow? columnLimit
    return { message, line, column }
  | _ => none

end ErrorBody

namespace Payload

def ofTokens (ts : List Token) : Payload := .tokens true (ts.map TokenEntry.ofToken)

def ofFailure (message : String) (line column : Nat) : Payload :=
  .error false ⟨message, line, column⟩

def ofError (e : LexError) : Payload :=
  ofFailure e.message e.position.line e.position.column

def toRecord : Payload → Json
  | .tokens ok entries =>
    .object [("ok", .bool ok), ("tokens", .array (entries.map TokenEntry.toRecord))]
  | .error ok body => .object [("ok", .bool ok), ("error", body.toRecord)]

def render (p : Payload) : String := p.toRecord.render

def tokensOfRecord? (j : Json) : Option Payload :=
  match j.fields? ["ok", "tokens"] 2 false with
  | some [some ok, some entries] => do
    let ok ← ok.bool?
    let entries ← (← entries.array?).mapM TokenEntry.ofRecord?
    return .tokens ok entries
  | _ => none

def errorOfRecord? (j : Json) : Option Payload :=
  match j.fields? ["ok", "error"] 2 false with
  | some [some ok, some body] => do
    let ok ← ok.bool?
    let body ← ErrorBody.ofRecord? body
    return .error ok body
  | _ => none

/-- The payload that a JSON value describes. The member `ok` decides which kind is expected; an
array has no members and is read as an error. -/
def ofRecord? (j : Json) : Option Payload :=
  match j.member? "ok" with
  | some (.bool true) => tokensOfRecord? j
  | _ => errorOfRecord? j

def parse? (text : String) : Option Payload := Json.parse? text >>= ofRecord?

theorem mapM_ofRecord?_map_toRecord (entries : List TokenEntry) :
    (entries.map TokenEntry.toRecord).mapM TokenEntry.ofRecord? = some entries := by
  induction entries with
  | nil => rfl
  | cons e entries ih =>
    simp only [List.map_cons, List.mapM_cons, ih]
    rfl

theorem ofRecord?_toRecord_tokens (entries : List TokenEntry) :
    ofRecord? (tokens true entries).toRecord = some (tokens true entries) := by
  have h := mapM_ofRecord?_map_toRecord entries
  simp only [ofRecord?, toRecord, Json.member?, List.reverse_cons, List.reverse_nil,
    List.nil_append, List.cons_append, List.lookup_cons, tokensOfRecord?, Json.fields?]
  simp [Json.bool?, Json.array?, h]

theorem ofRecord?_toRecord_error (body : ErrorBody) (hl : body.line < columnLimit)
    (hc : body.column < columnLimit) :
    ofRecord? (error false body).toRecord = some (error false body) := by
  simp [ofRecord?, toRecord, Json.member?, List.lookup_cons, errorOfRecord?, Json.fields?,
    Json.bool?, ErrorBody.ofRecord?, ErrorBody.toRecord, ErrorBody.fieldNames, Json.string?,
    Json.natBelow?, Json.nat, hl, hc]

end Payload

end ContractLex
