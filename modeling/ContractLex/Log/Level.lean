/-!
# Log levels

Four levels, the most severe first. An event passes a minimum level if it is at least as severe.
-/

namespace ContractLex

inductive Level where
  | error
  | warning
  | info
  | debug
deriving DecidableEq, Repr

namespace Level

def all : List Level := [.error, .warning, .info, .debug]

def rank : Level → Nat
  | .error => 0
  | .warning => 1
  | .info => 2
  | .debug => 3

/-- Whether an event of level `l` passes the minimum level `min`. -/
def passes (l min : Level) : Bool := l.rank ≤ min.rank

/-- The less severe of two levels. -/
def max (a b : Level) : Level := if a.rank ≤ b.rank then b else a

/-- The name under which log lines carry the level. -/
def name : Level → String
  | .error => "ERROR"
  | .warning => "WARN"
  | .info => "INFO"
  | .debug => "DEBUG"

/-- The name under which settings carry the level. -/
def label : Level → String
  | .error => "error"
  | .warning => "warning"
  | .info => "info"
  | .debug => "debug"

def ofLabel? (label : String) : Option Level := all.find? (·.label == label)

/-- The spellings of a level on a command line or in the environment. -/
def spellings : List (String × Level) := [
  ("error", .error), ("0", .error), ("warning", .warning), ("warn", .warning), ("1", .warning),
  ("info", .info), ("2", .info), ("debug", .debug), ("3", .debug)]

/-- Reads a level, whatever its letter case. No letter outside ASCII has a lower case that occurs
in a spelling. -/
def parse? (text : String) : Option Level := spellings.lookup text.toLower

theorem rank_injective {a b : Level} (h : a.rank = b.rank) : a = b := by
  cases a <;> cases b <;> first | rfl | contradiction

theorem ofLabel?_label (l : Level) : ofLabel? l.label = some l := by cases l <;> decide

end Level

end ContractLex
