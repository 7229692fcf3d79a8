import ContractLex.Text.Lines

/-!
# What is wrong with a pattern

A written pattern is refused for a fault of some of its characters, or as a whole. The message shows
the pattern and underlines the characters at fault; a pattern of several lines is shown with their
numbers, between rules.
-/

namespace ContractLex.Text

/-- The characters of a text from `first` on and before `last`, counted from zero. -/
structure Extent where
  first : Nat
  last : Nat
deriving DecidableEq, Repr

/-- The most levels of groups, sets, choices, sequences and repetitions inside one another. -/
def maxPatternDepth : Nat := 250

/-- The most bytes that a pattern may take up when it is made ready. -/
def maxPatternBytes : Nat := 10485760

inductive PatternFault where
  | setOpen
  | setItem
  | rangeOrder
  | rangeEnd
  | groupOpen
  | groupClosed
  | nothingToRepeat
  | countMissing
  | countTooLarge
  | countOpen
  | countOrder
  | escapeCut
  | escapeUnknown
  | hexDigit
  | hexMissing
  | hexValue
  | backReference
  | lookAround
  | flagUnknown
  | flagCut
  | flagMissing
  | flagTwice
  | minusTwice
  | nameMissing
  | nameCharacter
  | nameCut
  | nameTwice
  | wordEdgeOpen
  | wordEdgeUnknown
  | wordEdgeCut
  | propertyName
  | propertyUnknown
  | propertyValueUnknown
  | tooDeep
  | shorthandUnknown
  | casesUnknown
  | notAscii
  | notText
deriving DecidableEq, Repr

def PatternFault.message : PatternFault → String
  | .setOpen => "unclosed character class"
  | .setItem => "invalid escape sequence found in character class"
  | .rangeOrder => "invalid character class range, the start must be <= the end"
  | .rangeEnd => "invalid range boundary, must be a literal"
  | .groupOpen => "unclosed group"
  | .groupClosed => "unopened group"
  | .nothingToRepeat => "repetition operator missing expression"
  | .countMissing => "repetition quantifier expects a valid decimal"
  | .countTooLarge => "decimal literal invalid"
  | .countOpen => "unclosed counted repetition"
  | .countOrder => "invalid repetition count range, the start must be <= the end"
  | .escapeCut => "incomplete escape sequence, reached end of pattern prematurely"
  | .escapeUnknown => "unrecognized escape sequence"
  | .hexDigit => "invalid hexadecimal digit"
  | .hexMissing => "hexadecimal literal empty"
  | .hexValue => "hexadecimal literal is not a Unicode scalar value"
  | .backReference => "backreferences are not supported"
  | .lookAround => "look-around, including look-ahead and look-behind, is not supported"
  | .flagUnknown => "unrecognized flag"
  | .flagCut => "expected flag but got end of regex"
  | .flagMissing => "dangling flag negation operator"
  | .flagTwice => "duplicate flag"
  | .minusTwice => "flag negation operator repeated"
  | .nameMissing => "empty capture group name"
  | .nameCharacter => "invalid capture group character"
  | .nameCut => "unclosed capture group name"
  | .nameTwice => "duplicate capture group name"
  | .wordEdgeOpen =>
    "special word boundary assertion is either unclosed or contains an invalid character"
  | .wordEdgeUnknown =>
    "unrecognized special word boundary assertion, valid choices are: " ++
      "start, end, start-half or end-half"
  | .wordEdgeCut =>
    "found either the beginning of a special word boundary or a bounded repetition " ++
      "on a \\b with an opening brace, but no closing brace"
  | .propertyName => "invalid Unicode character class"
  | .propertyUnknown => "Unicode property not found"
  | .propertyValueUnknown => "Unicode property value not found"
  | .tooDeep => s!"exceed the maximum number of nested parentheses/brackets ({maxPatternDepth})"
  | .shorthandUnknown =>
    "Unicode-aware Perl class not found (make sure the unicode-perl feature is enabled)"
  | .casesUnknown =>
    "Unicode-aware case insensitivity matching is not available " ++
      "(make sure the unicode-case feature is enabled)"
  | .notAscii => "Unicode not allowed here"
  | .notText => "pattern can match invalid UTF-8"

inductive PatternError where
  /-- Some of its characters are at fault, perhaps because of others before them. -/
  | wrong (fault : PatternFault) (extent : Extent) (other : Option Extent)
  | tooLarge
  | unknown
deriving DecidableEq, Repr

namespace PatternError

def between (fault : PatternFault) (first last : Nat) : PatternError :=
  .wrong fault ⟨first, last⟩ none

/-- The line and the column of a place in a text, both counted from zero. -/
def lineAndColumn (text : List Char) (place : Nat) : Nat × Nat :=
  let before := text.take place
  (before.count '\n', (before.reverse.takeWhile (· != '\n')).length)

structure Area where
  firstLine : Nat
  firstColumn : Nat
  lastLine : Nat
  lastColumn : Nat

def Area.ofExtent (text : List Char) (e : Extent) : Area :=
  let (firstLine, firstColumn) := lineAndColumn text e.first
  let (lastLine, lastColumn) := lineAndColumn text e.last
  { firstLine, firstColumn, lastLine, lastColumn }

def run (c : Char) (n : Nat) : String := String.ofList (List.replicate n c)

/-- The marks under a line, at least one for each area. -/
def marks (areas : List Area) : String :=
  (areas.foldl (fun (text, column) a =>
    let width := max 1 (a.lastColumn - a.firstColumn)
    (text ++ run ' ' (a.firstColumn - column) ++ run '^' width, max column a.firstColumn + width))
    ("", 0)).1

/-- A line with what stands before it, and the marks under it. `width` is that of line numbers, if
there are any. -/
def notedLine (width : Nat) (areas : List Area) (line : String × Nat) : String :=
  let (text, i) := line
  let number := toString (i + 1)
  let margin :=
    if width = 0 then run ' ' 4 else run ' ' (width - number.length) ++ number ++ ": "
  match areas.filter (·.firstLine = i) with
  | [] => margin ++ text ++ "\n"
  | here => margin ++ text ++ "\n" ++ run ' ' margin.length ++ marks here ++ "\n"

def spread (a : Area) : String :=
  s!"on line {a.firstLine + 1} (column {a.firstColumn + 1}) " ++
    s!"through line {a.lastLine + 1} (column {a.lastColumn})\n"

def inOrder (e : Extent) : Option Extent → List Extent
  | some o => if o.first < e.first ∨ (o.first = e.first ∧ o.last < e.last) then [o, e] else [e, o]
  | none => [e]

def render (text : String) : PatternError → String
  | .wrong fault extent other =>
    let cs := text.toList
    let areas := (inOrder extent other).map (Area.ofExtent cs)
    let (flat, tall) := areas.partition fun a => a.firstLine = a.lastLine
    let count := (lines text).length + if cs.getLast? = some '\n' then 1 else 0
    let width := if count ≤ 1 then 0 else (toString count).length
    let shown := String.join ((lines text).zipIdx.map (notedLine width flat))
    let rule := run '~' 79 ++ "\n"
    let body := if cs.contains '\n' then
        rule ++ shown ++ rule ++ String.join (tall.map spread)
      else shown
    "regex parse error:\n" ++ body ++ "error: " ++ fault.message
  | .tooLarge => s!"Compiled regex exceeds size limit of {maxPatternBytes} bytes."
  | .unknown => "error building NFA"

end PatternError

end ContractLex.Text
