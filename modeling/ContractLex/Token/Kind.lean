/-!
# Token kinds

The closed set of kinds a token can have, grouped by what a token of that kind is: a literal, a
keyword, an operator, a delimiter, an identifier, text that was given up on, or a blank. Each
kind has a *wire name* (`L_INT`, `K_LET`, `OP_DECR`, ...), the name under which dumps and payloads
carry it; `Kind.ofWire?_wire` says that the wire name determines the kind.

Blanks exist so that a space, a tab and a line break can be classified like every other delimiter;
the lexer never emits one.
-/

namespace ContractLex

/-! ## The groups -/

inductive Literal where
  | int | float | double | char | string | bool
deriving DecidableEq, Repr

/-- Keyword kinds. `typeKw` stands for every built-in type name (`int`, `string`, `void`, ...). -/
inductive Keyword where
  | letKw | typeKw | ifKw | elseKw | forKw | whileKw | doKw | inKw | breakKw | returnKw
  | fnKw | structKw | interfaceKw | implKw | selfKw | thisKw | importKw | exportKw
  | exportDefaultKw | fromKw | contractKw | listenerKw | stateKw | initStateKw | failKw
  | autoResetKw | autoMoveKw | toKw | rolesKw | respondKw | onKw | listenKw | targetKw
  | asKw | usingKw | afterKw | beforeKw | asyncKw | awaitKw | threadKw | spawnKw | ownKw
  | moveKw | sharedKw | viewKw | shareKw | refKw | mutKw | constKw | threadLocalKw | syncKw
  | inferKw | networkKw
deriving DecidableEq, Repr

inductive Operator where
  | equals | plus | minus | times | divide | modulo | period | equal | lessEqual
  | greaterEqual | less | greater | plusEquals | minusEquals | timesEquals | divideEquals
  | moduloEquals | and | or | not | bitAnd | bitOr | bitXor | shiftLeft | shiftRight
  | leftArrow | rightArrow | bothArrow | increment | decrement
deriving DecidableEq, Repr

inductive Delimiter where
  | parenOpen | parenClose | bracketOpen | bracketClose | braceOpen | braceClose | colon
  | semicolon | comma
deriving DecidableEq, Repr

/-- Blank characters: delimiters that are recognized and never emitted. -/
inductive Blank where
  | newLine | space | tab
deriving DecidableEq, Repr

/-- A kind of token. `unknown` is the kind of text skipped after a diagnostic. -/
inductive Kind where
  | literal (l : Literal)
  | keyword (k : Keyword)
  | operator (o : Operator)
  | delimiter (d : Delimiter)
  | identifier
  | unknown
  | blank (b : Blank)
deriving DecidableEq, Repr

/-- The coarse grouping that counts and statistics use. -/
inductive Kind.Class where
  | literal | keyword | operator | delimiter | identifier | blank | unknown
deriving DecidableEq, Repr

def Kind.Class.name : Kind.Class → String
  | .literal => "Literal"
  | .keyword => "Keyword"
  | .operator => "Operator"
  | .delimiter => "Delimiter"
  | .identifier => "Identifier"
  | .blank => "Whitespace"
  | .unknown => "Unknown"

/-! ## Wire names -/

def Literal.wire : Literal → String
  | .int => "L_INT"
  | .float => "L_FLOAT"
  | .double => "L_DOUBLE"
  | .char => "L_CHAR"
  | .string => "L_STRING"
  | .bool => "L_BOOL"

def Keyword.wire : Keyword → String
  | .letKw => "K_LET"
  | .typeKw => "K_TYPE"
  | .ifKw => "K_IF"
  | .elseKw => "K_ELSE"
  | .forKw => "K_FOR"
  | .whileKw => "K_WHILE"
  | .doKw => "K_DO"
  | .inKw => "K_IN"
  | .breakKw => "K_BREAK"
  | .returnKw => "K_RET"
  | .fnKw => "K_FN"
  | .structKw => "K_STRUCT"
  | .interfaceKw => "K_INTERFACE"
  | .implKw => "K_IMPL"
  | .selfKw => "K_SELF"
  | .thisKw => "K_THIS"
  | .importKw => "K_IMPORT"
  | .exportKw => "K_EXPORT"
  | .exportDefaultKw => "K_EXPORT_DEFAULT"
  | .fromKw => "K_FROM"
  | .contractKw => "K_CONTRACT"
  | .listenerKw => "K_LISTENER"
  | .stateKw => "K_STATE"
  | .initStateKw => "K_INIT_STATE"
  | .failKw => "K_FAIL"
  | .autoResetKw => "K_AUTO_RESET"
  | .autoMoveKw => "K_AUTO_MOVE"
  | .toKw => "K_TO"
  | .rolesKw => "K_ROLES"
  | .respondKw => "K_RESPOND"
  | .onKw => "K_ON"
  | .listenKw => "K_LISTEN"
  | .targetKw => "K_TARGET"
  | .asKw => "K_AS"
  | .usingKw => "K_USING"
  | .afterKw => "K_AFTER"
  | .beforeKw => "K_BEFORE"
  | .asyncKw => "K_ASYNC"
  | .awaitKw => "K_AWAIT"
  | .threadKw => "K_THREAD"
  | .spawnKw => "K_SPAWN"
  | .ownKw => "K_OWN"
  | .moveKw => "K_MOVE"
  | .sharedKw => "K_SHARED"
  | .viewKw => "K_VIEW"
  | .shareKw => "K_SHARE"
  | .refKw => "K_REF"
  | .mutKw => "K_MUT"
  | .constKw => "K_CONST"
  | .threadLocalKw => "K_THR_LOCAL"
  | .syncKw => "K_SYNC"
  | .inferKw => "K_INFER"
  | .networkKw => "K_NETWORK"

def Operator.wire : Operator → String
  | .equals => "OP_EQUALS"
  | .plus => "OP_PLUS"
  | .minus => "OP_MINUS"
  | .times => "OP_MULT"
  | .divide => "OP_DIVIDE"
  | .modulo => "OP_MOD"
  | .period => "OP_PERIOD"
  | .equal => "OP_REL_EQ"
  | .lessEqual => "OP_REL_LESS_EQ"
  | .greaterEqual => "OP_REL_GREATER_EQ"
  | .less => "OP_REL_LESS"
  | .greater => "OP_REL_GREATER"
  | .plusEquals => "OP_PLUS_EQ"
  | .minusEquals => "OP_MINUS_EQ"
  | .timesEquals => "OP_MULT_EQ"
  | .divideEquals => "OP_DIV_EQ"
  | .moduloEquals => "OP_MOD_EQ"
  | .and => "OP_AND"
  | .or => "OP_OR"
  | .not => "OP_NOT"
  | .bitAnd => "OP_BITW_AND"
  | .bitOr => "OP_BITW_OR"
  | .bitXor => "OP_BITW_XOR"
  | .shiftLeft => "OP_SHIFT_L"
  | .shiftRight => "OP_SHIFT_R"
  | .leftArrow => "OP_LEFT_OP"
  | .rightArrow => "OP_RIGHT_OP"
  | .bothArrow => "OP_BIDIR_OP"
  | .increment => "OP_INCR"
  | .decrement => "OP_DECR"

def Delimiter.wire : Delimiter → String
  | .parenOpen => "D_PAR_OP"
  | .parenClose => "D_PAR_CLO"
  | .bracketOpen => "D_BRAC_OP"
  | .bracketClose => "D_BRAC_CLO"
  | .braceOpen => "D_CBRAC_OP"
  | .braceClose => "D_CBRAC_CLO"
  | .colon => "D_COLON"
  | .semicolon => "D_SEMICOLON"
  | .comma => "COMMA"

def Blank.wire : Blank → String
  | .newLine => "NEW_LINE"
  | .space => "SPACE"
  | .tab => "TAB"

/-! ## Enumerations, in order -/

def Literal.all : List Literal := [
  .int, .float, .double, .char, .string, .bool]

def Keyword.all : List Keyword := [
  .letKw, .typeKw, .ifKw, .elseKw, .forKw, .whileKw, .doKw, .inKw, .breakKw, .returnKw,
  .fnKw, .structKw, .interfaceKw, .implKw, .selfKw, .thisKw, .importKw, .exportKw,
  .exportDefaultKw, .fromKw, .contractKw, .listenerKw, .stateKw, .initStateKw, .failKw,
  .autoResetKw, .autoMoveKw, .toKw, .rolesKw, .respondKw, .onKw, .listenKw, .targetKw,
  .asKw, .usingKw, .afterKw, .beforeKw, .asyncKw, .awaitKw, .threadKw, .spawnKw, .ownKw,
  .moveKw, .sharedKw, .viewKw, .shareKw, .refKw, .mutKw, .constKw, .threadLocalKw, .syncKw,
  .inferKw, .networkKw]

def Operator.all : List Operator := [
  .equals, .plus, .minus, .times, .divide, .modulo, .period, .equal, .lessEqual,
  .greaterEqual, .less, .greater, .plusEquals, .minusEquals, .timesEquals, .divideEquals,
  .moduloEquals, .and, .or, .not, .bitAnd, .bitOr, .bitXor, .shiftLeft, .shiftRight,
  .leftArrow, .rightArrow, .bothArrow, .increment, .decrement]

def Delimiter.all : List Delimiter := [
  .parenOpen, .parenClose, .bracketOpen, .bracketClose, .braceOpen, .braceClose, .colon,
  .semicolon, .comma]

def Blank.all : List Blank := [
  .newLine, .space, .tab]

namespace Kind

/-- Every kind: literals, keywords, operators, delimiters, then the rest. -/
def all : List Kind :=
  Literal.all.map .literal ++ Keyword.all.map .keyword ++ Operator.all.map .operator
    ++ Delimiter.all.map .delimiter ++ [.identifier, .unknown] ++ Blank.all.map .blank

/-- The name under which dumps and payloads carry the kind. -/
def wire : Kind → String
  | .literal l => l.wire
  | .keyword k => k.wire
  | .operator o => o.wire
  | .delimiter d => d.wire
  | .identifier => "IDENT"
  | .unknown => "UNKNOWN"
  | .blank b => b.wire

def ofWire? (name : String) : Option Kind :=
  all.find? (·.wire == name)

def group : Kind → Class
  | .literal _ => .literal
  | .keyword _ => .keyword
  | .operator _ => .operator
  | .delimiter _ => .delimiter
  | .identifier => .identifier
  | .unknown => .unknown
  | .blank _ => .blank

def isKeyword (k : Kind) : Bool := k.group == .keyword

def isOperator (k : Kind) : Bool := k.group == .operator

def isLiteral (k : Kind) : Bool := k.group == .literal

def isDelimiter (k : Kind) : Bool := k.group == .delimiter

/-- Whether tokens of this kind are ever emitted. -/
def isEmitted (k : Kind) : Bool := k.group != .blank

theorem mem_all (k : Kind) : k ∈ all := by
  cases k with
  | literal l => cases l <;> decide
  | keyword k => cases k <;> decide
  | operator o => cases o <;> decide
  | delimiter d => cases d <;> decide
  | identifier => decide
  | unknown => decide
  | blank b => cases b <;> decide

theorem nodup_wire : (all.map wire).Nodup := by decide +kernel

theorem ofWire?_wire (k : Kind) : ofWire? k.wire = some k := by
  have h : ∀ k ∈ all, ofWire? k.wire = some k := by decide +kernel
  exact h k (mem_all k)

theorem wire_of_ofWire? {name : String} {k : Kind} (h : ofWire? name = some k) :
    k.wire = name := by
  simpa using List.find?_some h

theorem wire_injective {j k : Kind} (h : j.wire = k.wire) : j = k := by
  simpa [ofWire?_wire] using congrArg ofWire? h

/-- Rejected wire names are reported in these words. -/
def unknownMessage (name : String) : String :=
  "Unknown token kind: '" ++ name ++ "'"

end Kind

end ContractLex
