import ContractLex.Token.Kind

/-!
# Spellings

How each fixed token is written, and which characters open, continue and end the others. Keywords
and operators are given by a table of spellings; the tables that the scanner consults one character
at a time are proved to agree with it (`spelling_of_single?`, `spelling_of_assigned?`).
-/

namespace ContractLex

namespace Spelling

/-! ## Words -/

/-- Every keyword with its spellings. The names of built-in types share one keyword. -/
def keywords : List (String × Keyword) := [
  ("let", .letKw),
  ("int", .typeKw), ("float", .typeKw), ("double", .typeKw), ("bool", .typeKw),
  ("char", .typeKw), ("string", .typeKw), ("str", .typeKw), ("void", .typeKw),
  ("if", .ifKw), ("else", .elseKw), ("for", .forKw), ("while", .whileKw), ("do", .doKw),
  ("in", .inKw), ("break", .breakKw), ("return", .returnKw),
  ("fn", .fnKw), ("struct", .structKw), ("interface", .interfaceKw), ("impl", .implKw),
  ("self", .selfKw), ("this", .thisKw),
  ("import", .importKw), ("export", .exportKw), ("export_default", .exportDefaultKw),
  ("from", .fromKw),
  ("contract", .contractKw), ("listener", .listenerKw), ("state", .stateKw),
  ("init-state", .initStateKw), ("fail", .failKw), ("auto-reset", .autoResetKw),
  ("auto-move", .autoMoveKw), ("to", .toKw), ("roles", .rolesKw), ("respond", .respondKw),
  ("on", .onKw), ("listen", .listenKw), ("target", .targetKw), ("as", .asKw),
  ("using", .usingKw), ("after", .afterKw), ("before", .beforeKw),
  ("async", .asyncKw), ("await", .awaitKw), ("thread", .threadKw), ("spawn", .spawnKw),
  ("own", .ownKw), ("move", .moveKw), ("shared", .sharedKw), ("view", .viewKw),
  ("share", .shareKw), ("ref", .refKw), ("mut", .mutKw), ("const", .constKw),
  ("thread_local", .threadLocalKw), ("sync", .syncKw), ("infer", .inferKw),
  ("network", .networkKw)]

def keyword? (word : String) : Option Keyword := keywords.lookup word

def isBoolean (word : String) : Bool := word == "true" || word == "false"

/-- Words that a dash may join to the word after it. -/
def dashPrefixes : List String := ["init", "auto"]

def isDashPrefix (word : String) : Bool := dashPrefixes.contains word

/-- Letters, digits and the underscore, ASCII only. -/
def isWordChar (c : Char) : Bool := c.isAlphanum || c == '_'

/-- The characters that open a word: no digit does. -/
def isWordStart (c : Char) : Bool := c.isAlpha || c == '_'

theorem isWordChar_of_isWordStart {c : Char} (h : isWordStart c = true) : isWordChar c = true := by
  simp only [isWordStart, isWordChar, Char.isAlphanum, Bool.or_eq_true] at *
  exact h.imp_left .inl

/-! ## Delimiters -/

/-- The kind of a delimiter character; blanks are delimiters too. -/
def delimiter? : Char → Option Kind
  | ' ' => some (.blank .space)
  | '\t' => some (.blank .tab)
  | '\n' => some (.blank .newLine)
  | '\r' => some (.blank .newLine)
  | ';' => some (.delimiter .semicolon)
  | ':' => some (.delimiter .colon)
  | '(' => some (.delimiter .parenOpen)
  | ')' => some (.delimiter .parenClose)
  | '[' => some (.delimiter .bracketOpen)
  | ']' => some (.delimiter .bracketClose)
  | '{' => some (.delimiter .braceOpen)
  | '}' => some (.delimiter .braceClose)
  | ',' => some (.delimiter .comma)
  | _ => none

def isDelimiter (c : Char) : Bool := (delimiter? c).isSome

/-! ## Operators -/

def operators : List (String × Operator) := [
  ("=", .equals), ("==", .equal), ("+", .plus), ("++", .increment), ("+=", .plusEquals),
  ("-", .minus), ("--", .decrement), ("-=", .minusEquals), ("->", .rightArrow),
  ("*", .times), ("*=", .timesEquals), ("/", .divide), ("/=", .divideEquals),
  ("%", .modulo), ("%=", .moduloEquals), (".", .period), ("<", .less), ("<=", .lessEqual),
  ("<<", .shiftLeft), ("<-", .leftArrow), ("<->", .bothArrow), (">", .greater),
  (">=", .greaterEqual), (">>", .shiftRight), ("&", .bitAnd), ("&&", .and), ("|", .bitOr),
  ("||", .or), ("^", .bitXor), ("!", .not)]

def operator? (text : String) : Option Operator := operators.lookup text

def single? : Char → Option Operator
  | '=' => some .equals
  | '+' => some .plus
  | '-' => some .minus
  | '*' => some .times
  | '/' => some .divide
  | '%' => some .modulo
  | '.' => some .period
  | '<' => some .less
  | '>' => some .greater
  | '&' => some .bitAnd
  | '|' => some .bitOr
  | '^' => some .bitXor
  | '!' => some .not
  | _ => none

def isOperatorChar (c : Char) : Bool := (single? c).isSome

/-- The operator that a character and an equals sign after it spell, for those characters that an
equals sign extends through the common rule. -/
def assigned? : Char → Option Operator
  | '=' => some .equal
  | '+' => some .plusEquals
  | '-' => some .minusEquals
  | '*' => some .timesEquals
  | '/' => some .divideEquals
  | '%' => some .moduloEquals
  | _ => none

theorem spelling_of_single? {c : Char} {o : Operator} (h : single? c = some o) :
    operator? (String.singleton c) = some o := by
  unfold single? at h
  split at h <;> first | (cases h; decide) | contradiction

theorem spelling_of_assigned? {c : Char} {o : Operator} (h : assigned? c = some o) :
    operator? (String.ofList [c, '=']) = some o := by
  unfold assigned? at h
  split at h <;> first | (cases h; decide) | contradiction

/-! ## Escapes and line breaks -/

/-- The characters that may follow a backslash, with what they stand for. -/
def escapes : List (Char × Char) := [
  ('\'', '\''), ('"', '"'), ('?', '?'), ('\\', '\\'), ('a', '\x07'), ('b', '\x08'),
  ('f', '\x0c'), ('n', '\n'), ('r', '\r'), ('t', '\t'), ('v', '\x0b')]

def escape? (c : Char) : Option Char := escapes.lookup c

def badEscapeMessage (c : Char) : String :=
  "Character is not a valid escape char: '" ++ c.toString ++ "'"

/-- Characters that may not stand in a literal unescaped. -/
def lineBreaks : List Char := ['\n', '\r']

def isLineBreak (c : Char) : Bool := lineBreaks.contains c

end Spelling

end ContractLex
