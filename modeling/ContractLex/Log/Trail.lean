import ContractLex.Lexer
import ContractLex.Log.Event

/-!
# The lexer's log trail

What a lexer puts down in its trail becomes log events: diagnostics as warnings or, if they are
terminal, as errors, and the course of its work as debug events.
-/

namespace ContractLex

/-- The span of the one character at a position. Positions inside a text leave room for it. -/
def Position.cell (p : Position) : Span := ⟨p, ⟨p.line, p.column + 1⟩⟩

def Diagnostic.event (d : Diagnostic) (s : State) : Event :=
  let e := if d.kind.isTerminal then Event.error d.code d.message
    else Event.codedWarning d.code d.message
  (e.located d.position.cell).tag "state" s.name

namespace Note

def internalCode : String := "ERR001"

def event : Note → Event
  | .feeding line chars =>
    ((Event.debug "Feeding line").tag "line" (toString line)).tag "chars" (toString chars)
  | .fault s d => d.event s
  | .stuck s c p =>
    (((Event.error internalCode "Reprocess limit exceeded").located p.cell).tag "state" s.name).tag
      "character" (Text.escapedChar c)
  | .carrying line => (Event.debug "Carrying block comment").tag "line" (toString line)
  | .flushed line tokens =>
    ((Event.debug "Flushed line").tag "line" (toString line)).tag "tokens" (toString tokens)

end Note

end ContractLex
