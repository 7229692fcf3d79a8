import ContractLex.Token.Basic
import ContractLex.Diagnostic

/-!
# One character of the scanner

`dispatch` says what each state does with a character. It either uses the character or hands it on
to another state, and on the way it may report findings: a token, a fault, or a comment that has
been passed over.

Between two characters the scanner holds a `Pending`: its state, the decoded characters of the
token under way, how many they are, and the place where that token or comment began.
-/

namespace ContractLex

inductive Finding where
  | token (t : Token)
  /-- A fault, with the state in which it was met. -/
  | fault (state : State) (d : Diagnostic)
  | comment
deriving DecidableEq, Repr

/-- What the scanner holds between two characters. -/
structure Pending where
  state : State := .start
  /-- The decoded characters of the token under way. -/
  lexeme : Array Char := #[]
  /-- Where the token or comment under way began. -/
  opened : Option Position := none
  /-- How long the lexeme is, counted along with it. -/
  length : Nat := 0
deriving DecidableEq, Repr

/-- Where the scanner stands in the text that is being fed. -/
structure Site where
  text : Array Char
  line : Nat
  column : Nat
deriving Repr

def Site.position (s : Site) : Position := ⟨s.line, s.column⟩

/-- What a state makes of a character. -/
structure Move where
  pending : Pending
  findings : List Finding
  used : Bool
deriving DecidableEq, Repr

/-- The character is used; go on with `p` and the next one. -/
def Move.use (p : Pending) (fs : List Finding := []) : Move := ⟨p, fs, true⟩

/-- Go on with `p` and the same character. -/
def Move.handOn (p : Pending) (fs : List Finding := []) : Move := ⟨p, fs, false⟩

namespace Pending

def goto (p : Pending) (s : State) : Pending := { p with state := s }

def push (p : Pending) (c : Char) : Pending :=
  { p with lexeme := p.lexeme.push c, length := p.length + 1 }

def word (p : Pending) : String := String.ofList p.lexeme.toList

/-- The column where the pending token begins, if it began on the line at hand. -/
def startColumn? (p : Pending) (s : Site) : Option Nat :=
  (p.opened.filter (·.line == s.line)).map (·.column)

/-- The column where the pending token begins, if it ends at `stop`. -/
def startColumn (p : Pending) (s : Site) (stop : Nat) : Nat :=
  (p.startColumn? s).getD (stop - p.length)

def token (p : Pending) (s : Site) (k : Kind) (stop : Nat) : Finding :=
  .token ⟨k, p.word, s.line, p.startColumn s stop, stop⟩

/-- The characters from where the pending token began up to `stop`, as they stand in the text; the
pending characters if the text does not reach that far. -/
def skipped (p : Pending) (s : Site) (stop : Nat) : Finding :=
  let start := (p.startColumn? s).getD stop
  let raw :=
    if start ≤ stop ∧ stop ≤ s.text.size then String.ofList (s.text.extract start stop).toList
    else p.word
  .token ⟨.unknown, raw, s.line, start, stop⟩

def fault (p : Pending) (s : Site) (f : Fault) : Finding :=
  .fault p.state (f.diagnostic s.position)

/-- Report `f`, and skip to the next delimiter from where the pending token began. -/
def reject (p : Pending) (s : Site) (f : Fault) : Move :=
  .handOn { p with state := .invalid, opened := p.opened <|> some s.position } [p.fault s f]

/-- The token under way ends with the current character. -/
def closeWith (p : Pending) (s : Site) (c : Char) (k : Kind) : Move :=
  .use {} [(p.push c).token s k (s.column + 1)]

/-- The token under way ends before the current character, which is then read from the start. -/
def closeBefore (p : Pending) (s : Site) (k : Kind) : Move :=
  .handOn {} [p.token s k s.column]

/-! ## Words -/

def wordKind (p : Pending) : Kind :=
  match Spelling.keyword? p.word with
  | some k => .keyword k
  | none => if Spelling.isBoolean p.word then .literal .bool else .identifier

/-- The tokens of a word with a dash in it that ends at `stop`: one keyword, or what stands before
the first dash, the dash, and what stands after it, as far as these are not empty. -/
def dashed (p : Pending) (s : Site) (stop : Nat) : List Finding :=
  match Spelling.keyword? p.word with
  | some k => [p.token s (.keyword k) stop]
  | none =>
    let start := stop - p.length
    if p.lexeme.contains '-' then
      let left := p.lexeme.toList.takeWhile (· != '-')
      let right := (p.lexeme.toList.dropWhile (· != '-')).drop 1
      let dash := start + left.length
      let parts : List (Kind × List Char × Nat × Nat) := [
        (.identifier, left, start, dash), (.operator .minus, ['-'], dash, dash + 1),
        (.identifier, right, dash + 1, stop)]
      (parts.filter fun (_, part, _) => !part.isEmpty).map fun (k, part, i, j) =>
        .token ⟨k, String.ofList part, s.line, i, j⟩
    else [.token ⟨.identifier, p.word, s.line, stop - p.lexeme.size, stop⟩]

/-! ## Operators -/

/-- The token of the first pending character, if it spells an operator. -/
def firstOperator (p : Pending) (s : Site) (stop : Nat) : List Finding :=
  match p.lexeme[0]?.bind Spelling.single? with
  | some o => [p.token s (.operator o) stop]
  | none => []

/-- The pending operator character stands alone; the current one is read from the start. -/
def closeOperator (p : Pending) (s : Site) : Move :=
  .handOn {} (p.firstOperator s s.column)

end Pending

/-! ## The states -/

section States

open Spelling Pending

def endsNumber (c : Char) : Bool := isOperatorChar c || isDelimiter c

def onStart (p : Pending) (s : Site) (c : Char) : Move :=
  if isDelimiter c then .handOn (p.goto .delimiter)
  else
    let p := { p with opened := some s.position }
    if isWordStart c then .handOn (p.goto .identifier)
    else if c.isDigit then .handOn (p.goto .number)
    else if isOperatorChar c then .handOn (p.goto .operator)
    else if c = '\'' then .use (p.goto .charOpen)
    else if c = '"' then .use (p.goto .stringOpen)
    else p.reject s .unrecognized

def onDelimiter (p : Pending) (s : Site) (c : Char) : Move :=
  match delimiter? c with
  | some k => if k.isEmitted then p.closeWith s c k else .use {}
  | none => .use {}

def onExpectDelimiter (p : Pending) (s : Site) (c : Char) : Move :=
  if isDelimiter c then .handOn (p.goto .delimiter) else p.reject s .floatSuffix

def onInvalid (p : Pending) (s : Site) (c : Char) : Move :=
  if isDelimiter c then .handOn { state := .delimiter } [p.skipped s s.column] else .use p

def onIdentifier (p : Pending) (s : Site) (c : Char) : Move :=
  if isWordChar c then .use (p.push c)
  else if c = '-' ∧ isDashPrefix p.word then .use ((p.push c).goto .identifierDash)
  else p.closeBefore s p.wordKind

/-- Directly after the dash only the start of a word goes on. -/
def onIdentifierDash (p : Pending) (s : Site) (c : Char) : Move :=
  let goesOn := if p.lexeme.back? = some '-' then isWordStart c else isWordChar c
  if goesOn then .use (p.push c) else .handOn {} (p.dashed s s.column)

def onNumber (p : Pending) (s : Site) (c : Char) : Move :=
  if c.isDigit then .use (p.push c)
  else if c = '.' then .use ((p.push c).goto .decimal)
  else if endsNumber c then p.closeBefore s (.literal .int)
  else p.reject s (.badInteger c)

def onDecimal (p : Pending) (s : Site) (c : Char) : Move :=
  if c.isDigit then .use (p.push c)
  else if c = 'f' then .handOn (p.goto .float)
  else if endsNumber c then
    if p.lexeme.back? = some '.' then p.reject s .openDouble
    else p.closeBefore s (.literal .double)
  else p.reject s (.badDecimal c)

def onFloat (p : Pending) (s : Site) (c : Char) : Move :=
  .use { state := .expectDelimiter } [(p.push c).token s (.literal .float) (s.column + 1)]

/-- A raw line break in a literal is a fault, but the literal goes on. -/
def lineBreakFault (p : Pending) (s : Site) (c : Char) : List Finding :=
  if isLineBreak c then [p.fault s .lineBreak] else []

def onCharOpen (p : Pending) (s : Site) (c : Char) : Move :=
  if c = '\\' then .use (p.goto .charEscape)
  else if c = '\'' then p.reject s .emptyChar
  else
    let faults := lineBreakFault p s c
    .use ((p.push c).goto .charClose) faults

def onCharEscape (p : Pending) (s : Site) (c : Char) : Move :=
  match escape? c with
  | some d => .use ((p.push d).goto .charClose)
  | none => p.reject s (.badEscape c)

/-- The closing quote belongs to the token but not to its text. -/
def onCharClose (p : Pending) (s : Site) (c : Char) : Move :=
  if c = '\'' then .use {} [p.token s (.literal .char) (s.column + 1)]
  else p.reject s .longChar

def onString (p : Pending) (s : Site) (c : Char) : Move :=
  if c = '"' then .use {} [p.token s (.literal .string) (s.column + 1)]
  else if c = '\\' then .use (p.goto .stringEscape)
  else
    let faults := lineBreakFault p s c
    .use ((p.push c).goto .string) faults

def onStringEscape (p : Pending) (s : Site) (c : Char) : Move :=
  match escape? c with
  | some d => .use ((p.push d).goto .string)
  | none => p.reject s (.badEscape c)

def onOperator (p : Pending) (s : Site) (c : Char) : Move :=
  match c with
  | '/' => .use ((p.push c).goto .slash)
  | '-' => .use ((p.push c).goto .minus)
  | '<' => .use ((p.push c).goto .less)
  | '>' => .use ((p.push c).goto .greater)
  | '&' => .use ((p.push c).goto .logical)
  | '|' => .use ((p.push c).goto .logical)
  | '+' => .use ((p.push c).goto .doubling)
  | '^' => p.closeWith s c (.operator .bitXor)
  | '!' => p.closeWith s c (.operator .not)
  | _ => .use ((p.push c).goto .beforeEquals)

def onBeforeEquals (p : Pending) (s : Site) (c : Char) : Move :=
  if p.length ≠ 1 then p.reject s (.malformedOperator p.word c)
  else
    match (if c = '=' then p.lexeme[0]?.bind assigned? else none) with
    | some o => p.closeWith s c (.operator o)
    | none => p.closeOperator s

def onDoubling (p : Pending) (s : Site) (c : Char) : Move :=
  if p.length ≠ 1 then p.reject s (.malformedOperator p.word c)
  else if c = '=' then .handOn (p.goto .beforeEquals)
  else
    match p.lexeme[0]?, c with
    | some '+', '+' => p.closeWith s c (.operator .increment)
    | some '-', '-' => p.closeWith s c (.operator .decrement)
    | _, _ => p.closeOperator s

def onLogical (p : Pending) (s : Site) (c : Char) : Move :=
  match p.lexeme[0]?, c with
  | some '&', '&' => p.closeWith s c (.operator .and)
  | some '|', '|' => p.closeWith s c (.operator .or)
  | _, _ => p.closeOperator s

def onMinus (p : Pending) (s : Site) (c : Char) : Move :=
  match c with
  | '-' => .handOn (p.goto .doubling)
  | '=' => .handOn (p.goto .beforeEquals)
  | '>' => p.closeWith s c (.operator .rightArrow)
  | _ => p.closeOperator s

def onLess (p : Pending) (s : Site) (c : Char) : Move :=
  match c with
  | '=' => p.closeWith s c (.operator .lessEqual)
  | '<' => p.closeWith s c (.operator .shiftLeft)
  | '-' => .use ((p.push c).goto .leftArrow)
  | _ => p.closeOperator s

def onGreater (p : Pending) (s : Site) (c : Char) : Move :=
  match c with
  | '=' => p.closeWith s c (.operator .greaterEqual)
  | '>' => p.closeWith s c (.operator .shiftRight)
  | _ => p.closeOperator s

def onLeftArrow (p : Pending) (s : Site) (c : Char) : Move :=
  if c = '>' then p.closeWith s c (.operator .bothArrow)
  else p.closeBefore s (.operator .leftArrow)

def onSlash (p : Pending) (_ : Site) (c : Char) : Move :=
  match c with
  | '/' => .use { p with state := .lineComment, lexeme := #[], length := 0 }
  | '*' => .use { p with state := .blockComment, lexeme := #[], length := 0 }
  | _ => .handOn (p.goto .beforeEquals)

def onLineComment (p : Pending) (_ : Site) (c : Char) : Move :=
  if c = '\n' then .use {} [.comment] else .use p

def onBlockComment (p : Pending) (_ : Site) (c : Char) : Move :=
  if c = '*' then .use (p.goto .blockCommentStar) else .use p

def onBlockCommentStar (p : Pending) (_ : Site) (c : Char) : Move :=
  if c = '/' then .use {} [.comment]
  else if c = '*' then .use p
  else .use (p.goto .blockComment)

end States

def dispatch (p : Pending) (s : Site) (c : Char) : Move :=
  match p.state with
  | .start => onStart p s c
  | .delimiter => onDelimiter p s c
  | .expectDelimiter => onExpectDelimiter p s c
  | .identifier => onIdentifier p s c
  | .identifierDash => onIdentifierDash p s c
  | .number => onNumber p s c
  | .decimal => onDecimal p s c
  | .float => onFloat p s c
  | .charOpen => onCharOpen p s c
  | .charEscape => onCharEscape p s c
  | .charClose => onCharClose p s c
  | .stringOpen => onString p s c
  | .string => onString p s c
  | .stringEscape => onStringEscape p s c
  | .operator => onOperator p s c
  | .beforeEquals => onBeforeEquals p s c
  | .doubling => onDoubling p s c
  | .logical => onLogical p s c
  | .minus => onMinus p s c
  | .less => onLess p s c
  | .greater => onGreater p s c
  | .leftArrow => onLeftArrow p s c
  | .slash => onSlash p s c
  | .lineComment => onLineComment p s c
  | .blockComment => onBlockComment p s c
  | .blockCommentStar => onBlockCommentStar p s c
  | .invalid => onInvalid p s c

end ContractLex
