import ContractLex.Text.Offset

/-!
# Positions and spans

A position is a line number, supplied by whoever feeds the lexer, and a column: the number of
characters before it in the text that was fed. Columns count characters (Unicode scalar values),
never bytes. A span is a half-open range between two positions.

`Span.slice` cuts what a span covers out of a text, by byte offsets that it looks up. `Span.slice?`
says the same in characters, and `Span.slice?_of_le` says which they are. `Span.onLine_of_le` and
`Span.single_of_lt` say when a span can be built.
-/

namespace ContractLex

/-- A place in a fed text. -/
structure Position where
  line : Nat
  column : Nat
deriving DecidableEq, Repr, Inhabited

inductive SpanError where
  | reversed
  | overflow
  /-- A text was to be cut at a byte where none of its characters begins. -/
  | insideCharacter (byte : Nat)
deriving DecidableEq, Repr

def SpanError.message : SpanError → String
  | .reversed => "Span start must not be after end"
  | .overflow => "attempt to add with overflow"
  | .insideCharacter byte => s!"byte index {byte} is not a char boundary"

/-- Columns fit 64 bits, and so do byte offsets. -/
def columnLimit : Nat := 18446744073709551616

/-- Line numbers fit 32 bits. -/
def lineLimit : Nat := 4294967296

namespace Position

/-- Positions are ordered by line, then by column. -/
instance : Ord Position where
  compare a b := (compare a.line b.line).then (compare a.column b.column)

/-- Whether `a` comes before `b` or is `b`. -/
def notAfter (a b : Position) : Bool := (compare a b).isLE

def earlier (a b : Position) : Position := if a.notAfter b then a else b

def later (a b : Position) : Position := if a.notAfter b then b else a

def advance (p : Position) (n : Nat) : Except SpanError Position :=
  if p.column + n < columnLimit then .ok ⟨p.line, p.column + n⟩ else .error .overflow

def render (p : Position) : String := s!"{p.line}:{p.column}"

end Position

/-- The range from `start` (included) to `stop` (excluded). -/
structure Span where
  start : Position
  stop : Position
deriving DecidableEq, Repr, Inhabited

namespace Span

/-- The span between two positions, which must be in order. -/
def between (start stop : Position) : Except SpanError Span :=
  if start.notAfter stop then .ok ⟨start, stop⟩ else .error .reversed

def onLine (line start stop : Nat) : Except SpanError Span :=
  between ⟨line, start⟩ ⟨line, stop⟩

/-- The span of the one character at `p`. -/
def single (p : Position) : Except SpanError Span :=
  (p.advance 1).map (Span.mk p)

/-- The smallest span that covers both. -/
def merge (a b : Span) : Span :=
  ⟨a.start.earlier b.start, a.stop.later b.stop⟩

/-- Number of characters covered, zero when the span crosses lines. -/
def length (s : Span) : Nat :=
  if s.start.line = s.stop.line then s.stop.column - s.start.column else 0

def isEmpty (s : Span) : Bool := s.start == s.stop

def contains (s : Span) (p : Position) : Bool :=
  s.start.notAfter p && !s.stop.notAfter p

/-- The byte offset `n` bytes after `i`. -/
def byteAfter (i n : Nat) : Except SpanError Nat :=
  if i + n < columnLimit then .ok (i + n) else .error .overflow

/-- The part of a text from byte `i` on. -/
def textFrom (text : String) (i : Nat) : Except SpanError String :=
  match Text.cut? text i text.utf8ByteSize with
  | some rest => .ok rest
  | none => .error (.insideCharacter i)

/-- What the span covers of the text that it belongs to, if the text reaches that far. Where it
begins is looked up among the offsets of the characters, and where it ends among those of the
characters from there on; after the last of them comes the end of the text. -/
def slice (s : Span) (text : String) : Except SpanError (Option String) :=
  match (Text.offsets text ++ [text.utf8ByteSize])[s.start.column]? with
  | none => .ok none
  | some start =>
    if s.isEmpty then .ok (Text.cut? text start start)
    else do
      let rest ← textFrom text start
      -- no more offsets are computed than are passed by
      let stops ← ((Text.offsets rest).take (s.length + 1)).mapM (byteAfter start)
      match (stops ++ [text.utf8ByteSize])[s.length]? with
      | none => .ok none
      | some stop => .ok (Text.cut? text start stop)

/-- The covered characters of the text that the span belongs to, if the text reaches that far. -/
def slice? (s : Span) (text : String) : Option String :=
  let chars := text.toList
  if chars.length < s.start.column then none
  else if s.isEmpty then some ""
  else if chars.length < s.start.column + s.length then none
  else some (String.ofList ((chars.drop s.start.column).take s.length))

def render (s : Span) : String :=
  if s.start.line = s.stop.line then
    s!"{s.start.line}:{s.start.column}-{s.stop.column}"
  else
    s!"{s.start.render}-{s.stop.render}"

/-- On one line, a slice is the characters from the start column up to the end column. -/
theorem slice?_of_le {line i j : Nat} {text : String} (hij : i ≤ j) (hj : j ≤ text.toList.length) :
    slice? ⟨⟨line, i⟩, ⟨line, j⟩⟩ text =
      some (String.ofList ((text.toList.drop i).take (j - i))) := by
  have hi : ¬ text.toList.length < i := by omega
  have hl : ¬ text.toList.length < i + (j - i) := by omega
  rcases Nat.eq_or_lt_of_le hij with rfl | hlt
  · simp [slice?, isEmpty, hi]
  · have hne : i ≠ j := by omega
    simp [slice?, length, isEmpty, hi, hl, hne]

theorem onLine_of_le {line i j : Nat} (h : i ≤ j) :
    onLine line i j = .ok ⟨⟨line, i⟩, ⟨line, j⟩⟩ := by
  have hle : (compare i j).isLE = true := by rwa [Nat.isLE_compare]
  have hafter : Position.notAfter ⟨line, i⟩ ⟨line, j⟩ = true := by
    simpa [Position.notAfter, compare, compareOfLessAndEq] using hle
  rw [onLine, between, if_pos hafter]

theorem single_of_lt {p : Position} (h : p.column + 1 < columnLimit) :
    single p = .ok ⟨p, ⟨p.line, p.column + 1⟩⟩ := by
  simp [single, Position.advance, h, Except.map]

end Span

end ContractLex
