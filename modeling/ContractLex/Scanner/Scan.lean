import ContractLex.Scanner.Dispatch

/-!
# Scanning a text

`step` takes one character through as many states as it needs, `scan` takes a whole text through
`step`, and `finish` settles what is pending when the text ends. A character may be handed on at
most `maxHandOver` times.
-/

namespace ContractLex

/-- Whether the pending lexeme is as long as a lexeme may be, so that one more character is too
many. Text that is skipped anyway has no limit. -/
def Pending.isFull (p : Pending) : Bool :=
  maxLexeme ≤ p.length && p.state != .invalid && !p.state.isComment

/-- Dispatches `c` until a state uses it, at most `n` times. -/
def settle (s : Site) (c : Char) : Nat → Pending → Move
  | 0, p => .handOn p
  | n + 1, p =>
    let m := dispatch p s c
    if m.used then m
    else
      let rest := settle s c n m.pending
      { rest with findings := m.findings ++ rest.findings }

/-- Takes one character. A character that meets a full lexeme is a fault, and skipping begins. -/
def step (s : Site) (p : Pending) (c : Char) : Move :=
  if p.isFull then
    let m := settle s c (maxHandOver + 1) (p.goto .invalid)
    { m with findings := p.fault s .longLexeme :: m.findings }
  else settle s c (maxHandOver + 1) p

structure Scan where
  pending : Pending
  findings : Array Finding
  used : Nat
  /-- The state that was reached by a character that could not be used. -/
  stuck : Option (State × Char)
deriving Repr

/-- Scans `rest`, the characters of `text` from `column` on. -/
def scan (text : Array Char) (line : Nat) (column : Nat) (p : Pending) (found : Array Finding) :
    List Char → Scan
  | [] => ⟨p, found, column, none⟩
  | c :: rest =>
    let m := step ⟨text, line, column⟩ p c
    if m.used then scan text line (column + 1) m.pending (found ++ m.findings) rest
    else ⟨{}, found ++ m.findings, column, some (m.pending.state, c)⟩

structure Ending where
  pending : Pending
  findings : List Finding
  result : Except LexError Unit

/-- A literal or comment can no longer be closed: report it where it began. -/
def Pending.terminate (p : Pending) (s : Site) (f : Fault) : Ending :=
  let d := f.diagnostic (p.opened.getD s.position)
  ⟨{}, [.fault p.state d], .error (.terminal d)⟩

/-- Settles what is pending at the end of a text. An open block comment is kept if `carry`. -/
def Pending.finish (p : Pending) (s : Site) (carry : Bool) : Ending :=
  let settled (fs : List Finding) : Ending := ⟨{}, fs, .ok ()⟩
  match p.state with
  | .start | .delimiter | .expectDelimiter => settled []
  | .identifier => settled [p.token s p.wordKind s.column]
  | .identifierDash => settled (p.dashed s s.column)
  | .number => settled [p.token s (.literal .int) s.column]
  | .decimal =>
    if p.lexeme.back? = some '.' then settled [p.fault s .openDouble, p.skipped s s.column]
    else settled [p.token s (.literal .double) s.column]
  | .float => settled [p.token s (.literal .float) s.column]
  | .operator | .beforeEquals | .doubling | .logical | .minus | .less | .greater | .slash =>
    settled (p.firstOperator s s.column)
  | .leftArrow => settled [p.token s (.operator .leftArrow) s.column]
  | .lineComment => settled [.comment]
  | .blockComment | .blockCommentStar =>
    if carry then ⟨p, [], .ok ()⟩ else p.terminate s .openComment
  | .charOpen | .charClose => p.terminate s .openChar
  | .charEscape => p.terminate s .openCharEscape
  | .stringOpen | .string => p.terminate s .openString
  | .stringEscape => p.terminate s .openStringEscape
  | .invalid => settled [p.skipped s s.column]

end ContractLex
