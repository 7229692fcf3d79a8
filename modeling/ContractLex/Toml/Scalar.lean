import ContractLex.Decimal
import ContractLex.Json.Reader

/-!
# TOML scalars

Strings in their four forms, numbers, dates and times. Each reader takes its item from the front of
a list of characters and returns what follows it.
-/

namespace ContractLex.Toml

/-- Characters that may stand in comments and strings: all but control characters, and tabs. -/
def isPlain (c : Char) : Bool := c == '\t' || (0x20 ≤ c.toNat && c.toNat != 0x7f)

def isBlank (c : Char) : Bool := c == ' ' || c == '\t'

def skipBlanks (cs : List Char) : List Char := cs.dropWhile isBlank

/-! ## Strings -/

def codePoint? (digits : List Char) : Option Char := do
  let values ← digits.mapM Text.hexValue?
  let n := values.foldl (fun n d => 16 * n + d) 0
  if n < 0xd800 ∨ (0xe000 ≤ n ∧ n < 0x110000) then some (Char.ofNat n) else none

def unescape? : Char → Option Char
  | 'b' => some '\x08'
  | 't' => some '\t'
  | 'n' => some '\n'
  | 'f' => some '\x0c'
  | 'r' => some '\r'
  | '"' => some '"'
  | '\\' => some '\\'
  | _ => none

def ofReversed (done : List Char) : String := String.ofList done.reverse

/-- Reads on in a string between double quotes; `done` holds in reverse what was read. -/
def readBasic (done : List Char) : List Char → Option (String × List Char)
  | [] => none
  | '"' :: rest => some (ofReversed done, rest)
  | '\\' :: 'u' :: a :: b :: c :: d :: rest =>
    match codePoint? [a, b, c, d] with
    | some c => readBasic (c :: done) rest
    | none => none
  | '\\' :: 'U' :: a :: b :: c :: d :: e :: f :: g :: h :: rest =>
    match codePoint? [a, b, c, d, e, f, g, h] with
    | some c => readBasic (c :: done) rest
    | none => none
  | '\\' :: e :: rest =>
    match unescape? e with
    | some c => readBasic (c :: done) rest
    | none => none
  | c :: rest => if isPlain c then readBasic (c :: done) rest else none

/-- Reads on in a string between single quotes, where nothing is escaped. -/
def readLiteral (done : List Char) : List Char → Option (String × List Char)
  | [] => none
  | '\'' :: rest => some (ofReversed done, rest)
  | c :: rest => if isPlain c then readLiteral (c :: done) rest else none

/-- Where a reader is in a string of several lines. -/
inductive Stretch where
  | text
  /-- Between a backslash and the line break that it takes out. -/
  | breaking
  /-- In the blanks and line breaks after such a line break. -/
  | resuming
deriving DecidableEq

/-- Reads on in a string between triple double quotes. One or two quotes before the closing ones
belong to the string. -/
def readLongBasic (done : List Char) : Stretch → List Char → Option (String × List Char)
  | _, [] => none
  | .breaking, '\n' :: rest => readLongBasic done .resuming rest
  | .breaking, '\r' :: '\n' :: rest => readLongBasic done .resuming rest
  | .breaking, c :: rest => if isBlank c then readLongBasic done .breaking rest else none
  | .resuming, '\n' :: rest => readLongBasic done .resuming rest
  | .resuming, '\r' :: '\n' :: rest => readLongBasic done .resuming rest
  | .resuming, ' ' :: rest => readLongBasic done .resuming rest
  | .resuming, '\t' :: rest => readLongBasic done .resuming rest
  | _, '"' :: '"' :: '"' :: '"' :: '"' :: rest => some (ofReversed ('"' :: '"' :: done), rest)
  | _, '"' :: '"' :: '"' :: '"' :: rest => some (ofReversed ('"' :: done), rest)
  | _, '"' :: '"' :: '"' :: rest => some (ofReversed done, rest)
  | _, '\\' :: 'u' :: a :: b :: c :: d :: rest =>
    match codePoint? [a, b, c, d] with
    | some c => readLongBasic (c :: done) .text rest
    | none => none
  | _, '\\' :: 'U' :: a :: b :: c :: d :: e :: f :: g :: h :: rest =>
    match codePoint? [a, b, c, d, e, f, g, h] with
    | some c => readLongBasic (c :: done) .text rest
    | none => none
  | _, '\\' :: '\n' :: rest => readLongBasic done .resuming rest
  | _, '\\' :: '\r' :: '\n' :: rest => readLongBasic done .resuming rest
  | _, '\\' :: ' ' :: rest => readLongBasic done .breaking rest
  | _, '\\' :: '\t' :: rest => readLongBasic done .breaking rest
  | _, '\\' :: e :: rest =>
    match unescape? e with
    | some c => readLongBasic (c :: done) .text rest
    | none => none
  | _, '\r' :: '\n' :: rest => readLongBasic ('\n' :: done) .text rest
  | _, '\n' :: rest => readLongBasic ('\n' :: done) .text rest
  | _, c :: rest => if isPlain c then readLongBasic (c :: done) .text rest else none

def readLongLiteral (done : List Char) : List Char → Option (String × List Char)
  | [] => none
  | '\'' :: '\'' :: '\'' :: '\'' :: '\'' :: rest =>
    some (ofReversed ('\'' :: '\'' :: done), rest)
  | '\'' :: '\'' :: '\'' :: '\'' :: rest => some (ofReversed ('\'' :: done), rest)
  | '\'' :: '\'' :: '\'' :: rest => some (ofReversed done, rest)
  | '\r' :: '\n' :: rest => readLongLiteral ('\n' :: done) rest
  | '\n' :: rest => readLongLiteral ('\n' :: done) rest
  | c :: rest => if isPlain c then readLongLiteral (c :: done) rest else none

def dropBreak : List Char → List Char
  | '\n' :: rest => rest
  | '\r' :: '\n' :: rest => rest
  | cs => cs

def readString : List Char → Option (String × List Char)
  | '"' :: '"' :: '"' :: rest => readLongBasic [] .text (dropBreak rest)
  | '"' :: rest => readBasic [] rest
  | '\'' :: '\'' :: '\'' :: rest => readLongLiteral [] (dropBreak rest)
  | '\'' :: rest => readLiteral [] rest
  | _ => none

/-! ## Numbers -/

/-- Takes digits, which may have single underscores between them, after a first digit. -/
def moreDigits (ok : Char → Bool) : List Char → Option (List Char × List Char)
  | [] => some ([], [])
  | '_' :: [] => none
  | '_' :: c :: rest =>
    if ok c then (moreDigits ok rest).map fun (ds, rest) => (c :: ds, rest) else none
  | c :: rest =>
    if ok c then (moreDigits ok rest).map fun (ds, rest) => (c :: ds, rest)
    else some ([], c :: rest)

def someDigits (ok : Char → Bool) : List Char → Option (List Char × List Char)
  | [] => none
  | c :: rest =>
    if ok c then (moreDigits ok rest).map fun (ds, rest) => (c :: ds, rest) else none

/-- Takes the digits of a whole number, which begins with zero only if it is zero. -/
def wholeDigits : List Char → Option (List Char × List Char)
  | '0' :: rest => some (['0'], rest)
  | cs => someDigits Char.isDigit cs

/-- Integers have 64 bits with a sign: negative ones go down to the negative of this bound,
others stay below it. -/
def signLimit : Nat := 9223372036854775808

def readBased (base : Nat) (ok : Char → Bool) (cs : List Char) : Option (Json × List Char) := do
  let (ds, rest) ← someDigits ok cs
  let values ← ds.mapM Text.hexValue?
  let n := values.foldl (fun n d => base * n + d) 0
  if n < signLimit then some (.int n, rest) else none

def readFraction : List Char → Option (List Char × List Char)
  | '.' :: rest => someDigits Char.isDigit rest
  | cs => some ([], cs)

def readPower : List Char → Option (Int × List Char)
  | '-' :: rest =>
    (someDigits Char.isDigit rest).map fun (ds, rest) => (-(Decimal.natOfDigits ds : Int), rest)
  | '+' :: rest =>
    (someDigits Char.isDigit rest).map fun (ds, rest) => ((Decimal.natOfDigits ds : Int), rest)
  | rest =>
    (someDigits Char.isDigit rest).map fun (ds, rest) => ((Decimal.natOfDigits ds : Int), rest)

def readExponent : List Char → Option (Int × List Char)
  | 'e' :: rest => readPower rest
  | 'E' :: rest => readPower rest
  | cs => some (0, cs)

/-- Reads an integer or a float to base ten. An integer must fit 64 bits; a float may be too large
for a double only if it is negative. -/
def readDecimal (negative : Bool) (cs : List Char) : Option (Json × List Char) := do
  let (whole, rest) ← wholeDigits cs
  let isFloat := match rest with
    | c :: _ => c == '.' || c == 'e' || c == 'E'
    | [] => false
  if isFloat then
    let (fraction, rest) ← readFraction rest
    let (power, rest) ← readExponent rest
    let digits := Decimal.natOfDigits (whole ++ fraction)
    let beyond := Decimal.isBeyondDouble digits (power - fraction.length)
    if beyond && !negative then none
    else some (.real (String.ofList (whole ++ '.' :: fraction)), rest)
  else
    let n := Decimal.natOfDigits whole
    if negative then if n ≤ signLimit then some (.int (-n), rest) else none
    else if n < signLimit then some (.int n, rest) else none

def readSigned (negative : Bool) : List Char → Option (Json × List Char)
  | 'i' :: 'n' :: 'f' :: rest => some (.real "inf", rest)
  | 'n' :: 'a' :: 'n' :: rest => some (.real "nan", rest)
  | cs => readDecimal negative cs

/-! ## Dates and times -/

/-- Reads `n` digits that give a number from `low` to `high`. -/
def readField (n low high : Nat) (cs : List Char) : Option (Nat × List Char) :=
  let ds := cs.take n
  let value := Decimal.natOfDigits ds
  if ds.length = n ∧ ds.all Char.isDigit ∧ low ≤ value ∧ value ≤ high then some (value, cs.drop n)
  else none

def expect (c : Char) : List Char → Option (List Char)
  | d :: rest => if d = c then some rest else none
  | [] => none

def daysOf (year month : Nat) : Nat :=
  if month = 2 then
    if year % 4 = 0 ∧ (year % 100 ≠ 0 ∨ year % 400 = 0) then 29 else 28
  else if month = 4 ∨ month = 6 ∨ month = 9 ∨ month = 11 then 30
  else 31

def readDate (cs : List Char) : Option (List Char) := do
  let (year, cs) ← readField 4 0 9999 cs
  let (month, cs) ← readField 2 1 12 (← expect '-' cs)
  let (_, cs) ← readField 2 1 (daysOf year month) (← expect '-' cs)
  return cs

def skipDecimals : List Char → List Char
  | '.' :: c :: rest => if c.isDigit then rest.dropWhile Char.isDigit else '.' :: c :: rest
  | cs => cs

def readTime (cs : List Char) : Option (List Char) := do
  let (_, cs) ← readField 2 0 23 cs
  let (_, cs) ← readField 2 0 59 (← expect ':' cs)
  let (_, cs) ← readField 2 0 60 (← expect ':' cs)
  return skipDecimals cs

/-- Reads a distance from Universal Time, if there is one. -/
def readOffset : List Char → Option (List Char)
  | 'Z' :: rest => some rest
  | 'z' :: rest => some rest
  | c :: rest =>
    if c == '+' || c == '-' then do
      let (_, cs) ← readField 2 0 23 rest
      let (_, cs) ← readField 2 0 59 (← expect ':' cs)
      return cs
    else some (c :: rest)
  | [] => some []

def beginsTime (cs : List Char) : Bool :=
  ((readField 2 0 23 cs).bind fun (_, cs) => expect ':' cs).isSome

/-- Reads a date, which a time may follow. -/
def readDateTime (cs : List Char) : Option (List Char) := do
  let cs ← readDate cs
  match cs with
  | c :: rest =>
    if (c == 'T' || c == 't' || c == ' ') && beginsTime rest then readOffset (← readTime rest)
    else some cs
  | [] => some []

/-- A date or time as a value: no record, choice, number or flag can be read from it. -/
def moment : Json := .object [("moment", .null)]

def readNumeric (cs : List Char) : Option (Json × List Char) :=
  let isDate := (readField 4 0 9999 cs).bind (fun (_, cs) => expect '-' cs) |>.isSome
  if isDate then (readDateTime cs).map fun rest => (moment, rest)
  else if beginsTime cs then (readTime cs).map fun rest => (moment, rest)
  else
    match cs with
    | '+' :: rest => readSigned false rest
    | '-' :: rest => readSigned true rest
    | '0' :: 'x' :: rest => readBased 16 (fun c => (Text.hexValue? c).isSome) rest
    | '0' :: 'o' :: rest => readBased 8 (fun c => '0' ≤ c && c ≤ '7') rest
    | '0' :: 'b' :: rest => readBased 2 (fun c => c == '0' || c == '1') rest
    | _ => readDecimal false cs

end ContractLex.Toml
