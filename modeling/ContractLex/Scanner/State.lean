/-!
# States of the scanner

The scanner is in one of 27 states. Outside a token it is in `start`; every other state says what
kind of token or comment is under way and what may come next.
-/

namespace ContractLex

inductive State where
  | start
  | delimiter
  | expectDelimiter
  | identifier
  | identifierDash
  | number
  | decimal
  | float
  | charOpen
  | charEscape
  | charClose
  | stringOpen
  | string
  | stringEscape
  | operator
  | beforeEquals
  | doubling
  | logical
  | minus
  | less
  | greater
  | leftArrow
  | slash
  | lineComment
  | blockComment
  | blockCommentStar
  | invalid
deriving DecidableEq, Repr

namespace State

def all : List State := [
  .start, .delimiter, .expectDelimiter, .identifier, .identifierDash, .number, .decimal, .float,
  .charOpen, .charEscape, .charClose, .stringOpen, .string, .stringEscape, .operator,
  .beforeEquals, .doubling, .logical, .minus, .less, .greater, .leftArrow, .slash, .lineComment,
  .blockComment, .blockCommentStar, .invalid]

/-- The name under which log events carry the state. -/
def name : State → String
  | .start => "START"
  | .delimiter => "DELIMETER"
  | .expectDelimiter => "EXPECT_DELIMETER"
  | .identifier => "IDENTIFIER"
  | .identifierDash => "IDENTIFIER_DASH"
  | .number => "NUM_START"
  | .decimal => "DECIMAL_REACHED"
  | .float => "FLOAT"
  | .charOpen => "CHAR_START"
  | .charEscape => "CHAR_ESCAPE_CHAR"
  | .charClose => "CHAR_END"
  | .stringOpen => "STRING_START"
  | .string => "STRING"
  | .stringEscape => "STRING_ESCAPE_CHAR"
  | .operator => "OP"
  | .beforeEquals => "OP_EQUALS_NEXT"
  | .doubling => "OP_INCREMENTABLE"
  | .logical => "OP_LOGICAL"
  | .minus => "OP_MINUS"
  | .less => "OP_LESS_THAN"
  | .greater => "OP_GREATER_THAN"
  | .leftArrow => "OP_LEFT_ARROW"
  | .slash => "CHAR_SLASH"
  | .lineComment => "COMMENT"
  | .blockComment => "MULTILINE_COMMENT"
  | .blockCommentStar => "MULTILINE_COMMENT_END"
  | .invalid => "INVALID"

/-- The name under which serialized data carry the state. -/
def label : State → String
  | .start => "Start"
  | .delimiter => "Delimiter"
  | .expectDelimiter => "ExpectDelimiter"
  | .identifier => "Identifier"
  | .identifierDash => "IdentifierDash"
  | .number => "NumStart"
  | .decimal => "DecimalReached"
  | .float => "Float"
  | .charOpen => "CharStart"
  | .charEscape => "CharEscape"
  | .charClose => "CharEnd"
  | .stringOpen => "StringStart"
  | .string => "String"
  | .stringEscape => "StringEscape"
  | .operator => "Op"
  | .beforeEquals => "OpEqualsNext"
  | .doubling => "OpIncrementable"
  | .logical => "OpLogical"
  | .minus => "OpMinus"
  | .less => "OpLessThan"
  | .greater => "OpGreaterThan"
  | .leftArrow => "OpLeftArrow"
  | .slash => "CharSlash"
  | .lineComment => "Comment"
  | .blockComment => "MultilineComment"
  | .blockCommentStar => "MultilineCommentEnd"
  | .invalid => "Invalid"

def ofName? (name : String) : Option State := all.find? (·.name == name)

def isBlockComment (s : State) : Bool := s == .blockComment || s == .blockCommentStar

def isComment (s : State) : Bool := s == .lineComment || s.isBlockComment

/-- States that only a closing quote leaves without a fault. -/
def isQuoted (s : State) : Bool :=
  s == .charOpen || s == .charEscape || s == .charClose ||
    s == .stringOpen || s == .string || s == .stringEscape

theorem mem_all (s : State) : s ∈ all := by cases s <;> decide

theorem eq_of_isBlockComment {s : State} (h : s.isBlockComment = true) :
    s = .blockComment ∨ s = .blockCommentStar := by
  simpa [isBlockComment] using h

theorem name_injective {s t : State} (h : s.name = t.name) : s = t := by
  have all_inj : ∀ s ∈ all, ∀ t ∈ all, s.name = t.name → s = t := by decide +kernel
  exact all_inj s (mem_all s) t (mem_all t) h

end State

end ContractLex
