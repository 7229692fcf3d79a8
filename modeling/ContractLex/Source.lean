import ContractLex.Lexer
import ContractLex.Text.Lines

/-!
# Whole sources

A source is fed line by line, the first line being line 1, and then finished. The strict reading
stops at the first error; the recovering one abandons the failing line, goes on with the next, and
returns every error.
-/

namespace ContractLex

/-- The number of the line with a given index; numbers stop growing at the last that fits. -/
def lineNumber (index : Nat) : Nat := min (index + 1) (lineLimit - 1)

namespace Lexer

/-- Feeds lines, the first with index `index`, up to the first error. -/
def feedLines (lx : Lexer) (index : Nat) : List String → Lexer × Except LexError Unit
  | [] => (lx, .ok ())
  | line :: rest =>
    match lx.feed line (lineNumber index) with
    | (lx, .error e) => (lx, .error e)
    | (lx, .ok ()) => feedLines lx (index + 1) rest

def feedAllLines (lx : Lexer) (index : Nat) (errors : Array LexError) :
    List String → Lexer × Array LexError
  | [] => (lx, errors)
  | line :: rest =>
    match lx.feed line (lineNumber index) with
    | (lx, .error e) => feedAllLines lx (index + 1) (errors.push e) rest
    | (lx, .ok ()) => feedAllLines lx (index + 1) errors rest

/-- Feeds a source and finishes, up to the first error. -/
def feedSource (lx : Lexer) (source : String) : Lexer × Except LexError Unit :=
  match lx.feedLines 0 (Text.lines source) with
  | (lx, .error e) => (lx, .error e)
  | (lx, .ok ()) => lx.finish

/-- Feeds a source and finishes, whatever errors there are; returns them in order. -/
def feedSourceRecovering (lx : Lexer) (source : String) : Lexer × List LexError :=
  let (lx, errors) := lx.feedAllLines 0 #[] (Text.lines source)
  match lx.finish with
  | (lx, .error e) => (lx, (errors.push e).toList)
  | (lx, .ok ()) => (lx, errors.toList)

end Lexer

/-- The tokens of a text that is one line, numbered 1. -/
def tokenize (text : String) (settings : LexicalSettings := {}) : Except LexError (List Token) :=
  match ({ settings } : Lexer).feed text 1 with
  | (_, .error e) => .error e
  | (lx, .ok ()) => .ok lx.tokens.toList

def tokenizeSource (source : String) (settings : LexicalSettings := {}) :
    Except LexError (List Token) :=
  match ({ settings } : Lexer).feedSource source with
  | (_, .error e) => .error e
  | (lx, .ok ()) => .ok lx.tokens.toList

end ContractLex
