import ContractLex.Log.Trail
import ContractLex.Payload
import ContractLex.Source
import ContractLex.Text.Utf8

/-!
# The boundary to a host

A host hands over a source as bytes that end at the first NUL, or nothing at all, and gets the text
of a payload back. Block comments may span lines. Failures of the boundary itself have no place in
the source, so their payload says line 0 and column 0.
-/

namespace ContractLex.Boundary

inductive BoundaryError where
  | noInput
  | notText (fault : Text.Utf8Fault)
  /-- The answer holds a NUL at some place, and cannot be handed over. -/
  | nulInOutput (position : Nat)
  /-- An answer has no form that can be written. -/
  | unrenderable (reason : String)
deriving DecidableEq, Repr

namespace BoundaryError

def message : BoundaryError → String
  | .noInput => "Null pointer passed as source text"
  | .notText fault => "Source text is not valid UTF-8: " ++ fault.message
  | .nulInOutput position =>
    "Output contains an interior NUL byte: nul byte found in provided data at position: "
      ++ toString position
  | .unrenderable reason => "Failed to serialize payload: " ++ reason

def code : BoundaryError → String
  | .noInput => "E050"
  | .notText _ => "E051"
  | .nulInOutput _ => "E052"
  | .unrenderable _ => "E041"

def payload (e : BoundaryError) : Payload := .ofFailure e.message 0 0

def event (e : BoundaryError) : Event := .error e.code e.message

end BoundaryError

/-- The settings of a call: those that hold anyway, but comments span lines. -/
def settings (base : LexicalSettings) : LexicalSettings := { base with carryComments := true }

/-- Lexes a source in a lexer of its own. Returns also what the log hears. -/
def lex (base : LexicalSettings) (source : String) : Except LexError (List Token) × List Event :=
  let (lx, result) := ({ settings := settings base } : Lexer).feedSource source
  (result.map fun _ => lx.tokens.toList, lx.takeTrail.1.toList.map Note.event)

def tokens (base : LexicalSettings) (source : String) : Except LexError (List Token) :=
  (lex base source).1

def payloadOf : Except LexError (List Token) → Payload
  | .ok ts => .ofTokens ts
  | .error e => .ofError e

/-- The answer to a source, and what the log hears. -/
def answer (base : LexicalSettings) (source : String) : String × List Event :=
  let (result, events) := lex base source
  ((payloadOf result).render, events)

def failure (e : BoundaryError) : String × List Event := (e.payload.render, [e.event])

/-- The source that bytes hold: a text, up to the first NUL. -/
def source (bytes : ByteArray) : Except BoundaryError String :=
  let length := (bytes.findIdx? (· == 0)).getD bytes.size
  match Text.ofBytes (bytes.extract 0 length) with
  | .ok text => .ok text
  | .error fault => .error (.notText fault)

/-- Bytes that can be handed over: they hold no NUL. -/
def handOver (bytes : ByteArray) : Except BoundaryError ByteArray :=
  match bytes.findIdx? (· == 0) with
  | none => .ok bytes
  | some position => .error (.nulInOutput position)

/-- The answer to what a host hands over. -/
def respond (base : LexicalSettings) (input : Option ByteArray) : String × List Event :=
  match input with
  | none => failure .noInput
  | some bytes =>
    match source bytes with
    | .ok text => answer base text
    | .error e => failure e

/-- What a host is handed for an answer: its bytes. If they cannot be handed over, the host gets the
payload that says so, and nothing if that cannot be handed over either. -/
def deliver (json : String) : Option ByteArray × List Event :=
  match handOver json.toUTF8 with
  | .ok bytes => (some bytes, [])
  | .error e =>
    let (fallback, events) := failure e
    ((handOver fallback.toUTF8).toOption, events)

/-- What a host gets, and what the log hears. -/
def serve (base : LexicalSettings) (input : Option ByteArray) : Option ByteArray × List Event :=
  let (json, events) := respond base input
  let (bytes, more) := deliver json
  (bytes, events ++ more)

/-- The text that a host reads, and what the log hears. -/
def call (base : LexicalSettings) (input : Option ByteArray) : String × List Event :=
  let (bytes, events) := serve base input
  ((bytes.bind String.fromUTF8?).getD "", events)

end ContractLex.Boundary
