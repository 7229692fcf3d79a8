import ContractLex.Span
import ContractLex.Spelling
import ContractLex.Scanner.State
import ContractLex.Text.Quoted

/-!
# Diagnostics

A *fault* is what the scanner finds wrong with a text. `Fault.diagnostic` turns it into the record
that is kept and shown: its kind, its wording and its place. Most faults are recoverable, and
scanning resumes at the next delimiter. A literal or comment that can no longer be closed is
*terminal*: it ends the call that met it with a `LexError`.
-/

namespace ContractLex

/-- The longest lexeme that a token may have, in characters. -/
def maxLexeme : Nat := 1048576

/-- How often one character may be handed on to another state before it is used. -/
def maxHandOver : Nat := 4

inductive DiagnosticKind where
  | unrecognizedCharacter
  | malformedOperator
  | unterminatedChar
  | unterminatedString
  | invalidEscape
  | unterminatedDouble
  | badFloatSuffix
  | badNumericContinuation
  | emptyChar
  | charTooLong
  | lineBreakInLiteral
  | unterminatedBlockComment
  | lexemeTooLong
deriving DecidableEq, Repr

namespace DiagnosticKind

def all : List DiagnosticKind := [
  .unrecognizedCharacter, .malformedOperator, .unterminatedChar, .unterminatedString,
  .invalidEscape, .unterminatedDouble, .badFloatSuffix, .badNumericContinuation, .emptyChar,
  .charTooLong, .lineBreakInLiteral, .unterminatedBlockComment, .lexemeTooLong]

/-- The name under which serialized data carry the kind. -/
def label : DiagnosticKind → String
  | .unrecognizedCharacter => "UnrecognizedCharacter"
  | .malformedOperator => "MalformedOperatorSequence"
  | .unterminatedChar => "UnterminatedCharLiteral"
  | .unterminatedString => "UnterminatedStringLiteral"
  | .invalidEscape => "InvalidEscapeSequence"
  | .unterminatedDouble => "UnterminatedDoubleLiteral"
  | .badFloatSuffix => "BadFloatSuffix"
  | .badNumericContinuation => "UnrecognizedNumericContinuation"
  | .emptyChar => "EmptyCharLiteral"
  | .charTooLong => "CharLiteralTooLong"
  | .lineBreakInLiteral => "NewlineInStringLiteral"
  | .unterminatedBlockComment => "UnterminatedBlockComment"
  | .lexemeTooLong => "LexemeTooLong"

def ofLabel? (label : String) : Option DiagnosticKind := all.find? (·.label == label)

def code : DiagnosticKind → String
  | .unrecognizedCharacter => "E020"
  | .malformedOperator => "E021"
  | .unterminatedChar => "E022"
  | .unterminatedString => "E023"
  | .invalidEscape => "E024"
  | .unterminatedDouble => "E025"
  | .badFloatSuffix => "E026"
  | .badNumericContinuation => "E027"
  | .emptyChar => "E028"
  | .charTooLong => "E029"
  | .lineBreakInLiteral => "E030"
  | .unterminatedBlockComment => "E031"
  | .lexemeTooLong => "E032"

/-- Kinds that end the call that meets them. -/
def isTerminal (k : DiagnosticKind) : Bool :=
  k == .unterminatedChar || k == .unterminatedString || k == .unterminatedBlockComment

theorem mem_all (k : DiagnosticKind) : k ∈ all := by cases k <;> decide

theorem ofLabel?_label (k : DiagnosticKind) : ofLabel? k.label = some k := by
  cases k <;> decide

theorem label_of_ofLabel? {name : String} {k : DiagnosticKind} (h : ofLabel? name = some k) :
    k.label = name := by
  simpa using List.find?_some h

end DiagnosticKind

/-- A diagnostic as it is kept: its kind, its wording and its place. -/
structure Diagnostic where
  kind : DiagnosticKind
  message : String
  line : Nat
  column : Nat
deriving DecidableEq, Repr

namespace Diagnostic

def position (d : Diagnostic) : Position := ⟨d.line, d.column⟩

def code (d : Diagnostic) : String := d.kind.code

def render (d : Diagnostic) : String := d.message ++ " at line " ++ d.position.render

end Diagnostic

/-- What the scanner finds wrong. -/
inductive Fault where
  /-- No token begins with the character. -/
  | unrecognized
  /-- An operator state was entered with more than one character pending. -/
  | malformedOperator (lexeme : String) (next : Char)
  | openChar
  | openCharEscape
  | openString
  | openStringEscape
  | openComment
  /-- A character that may not follow a backslash. -/
  | badEscape (c : Char)
  /-- A number ends with its period. -/
  | openDouble
  /-- Something other than a delimiter follows the `f` of a float. -/
  | floatSuffix
  /-- A character that cannot go on an integer. -/
  | badInteger (c : Char)
  /-- A character that cannot go on the decimals of a number. -/
  | badDecimal (c : Char)
  | emptyChar
  | longChar
  | lineBreak
  | longLexeme
deriving DecidableEq, Repr

namespace Fault

def kind : Fault → DiagnosticKind
  | .unrecognized => .unrecognizedCharacter
  | .malformedOperator _ _ => .malformedOperator
  | .openChar => .unterminatedChar
  | .openCharEscape => .unterminatedChar
  | .openString => .unterminatedString
  | .openStringEscape => .unterminatedString
  | .openComment => .unterminatedBlockComment
  | .badEscape _ => .invalidEscape
  | .openDouble => .unterminatedDouble
  | .floatSuffix => .badFloatSuffix
  | .badInteger _ => .badNumericContinuation
  | .badDecimal _ => .badNumericContinuation
  | .emptyChar => .emptyChar
  | .longChar => .charTooLong
  | .lineBreak => .lineBreakInLiteral
  | .longLexeme => .lexemeTooLong

def message : Fault → String
  | .unrecognized => "Unrecognized initial character"
  | .malformedOperator lexeme next =>
    "Unexpected operator sequence: " ++ lexeme ++ next.toString
  | .openChar => "Char is not ended"
  | .openCharEscape => "Character escape not ended"
  | .openString => "String not ended"
  | .openStringEscape => "String escape not ended"
  | .openComment => "Block comment is not ended"
  | .badEscape c => Spelling.badEscapeMessage c
  | .openDouble => "Double is not ended"
  | .floatSuffix => "Float literal must be followed by a delimiter"
  | .badInteger c => "Integer state does not recognize character: " ++ c.toString
  | .badDecimal c => "Decimal state does not recognize character: " ++ c.toString
  | .emptyChar => "Character is empty"
  | .longChar => "Character length is more than 1"
  | .lineBreak => "New line before string close"
  | .longLexeme => "Lexeme exceeds " ++ toString maxLexeme ++ " characters"

def diagnostic (f : Fault) (p : Position) : Diagnostic :=
  ⟨f.kind, f.message, p.line, p.column⟩

end Fault

/-- Why a call to the lexer failed. -/
inductive LexError where
  /-- A literal or comment can no longer be closed. -/
  | terminal (d : Diagnostic)
  /-- A character was handed from state to state too often. -/
  | handOverLimit (state : State) (character : Char) (position : Position)
deriving DecidableEq, Repr

namespace LexError

def position : LexError → Position
  | .terminal d => d.position
  | .handOverLimit _ _ p => p

/-- What went wrong, without the place. -/
def message : LexError → String
  | .terminal d => d.message
  | .handOverLimit s c _ =>
    "Reprocess limit exceeded in state " ++ s.name ++ " for " ++ Text.quotedChar c

/-- What went wrong, with the place. -/
def render : LexError → String
  | .terminal d => d.render
  | .handOverLimit s c p =>
    "Reprocess limit of " ++ toString maxHandOver ++ " exceeded in state " ++ s.name ++ " for "
      ++ Text.quotedChar c ++ " at line " ++ p.render

def code : LexError → String
  | .terminal d => d.code
  | .handOverLimit _ _ _ => "ERR001"

def kind? : LexError → Option DiagnosticKind
  | .terminal d => some d.kind
  | .handOverLimit _ _ _ => none

end LexError

end ContractLex
