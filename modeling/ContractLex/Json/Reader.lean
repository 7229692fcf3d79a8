import ContractLex.Decimal
import ContractLex.Json.Basic
import ContractLex.Text.Hex

/-!
# Reading JSON

A reader takes a value from the front of a list of characters and returns what follows it. Values
nest, so the readers carry a bound on the number of steps; the length of the text is enough, because
each step uses a character.
-/

namespace ContractLex.Json

def maxDepth : Nat := 127

def isBlank (c : Char) : Bool := c == ' ' || c == '\n' || c == '\t' || c == '\r'

def skipBlanks (cs : List Char) : List Char := cs.dropWhile isBlank

/-! ## Strings -/

def hex4? (a b c d : Char) : Option Nat := do
  let a ← Text.hexValue? a
  let b ← Text.hexValue? b
  let c ← Text.hexValue? c
  let d ← Text.hexValue? d
  return ((a * 16 + b) * 16 + c) * 16 + d

/-- What a backslash and a letter stand for. -/
def unescape? : Char → Option Char
  | '"' => some '"'
  | '\\' => some '\\'
  | '/' => some '/'
  | 'b' => some '\x08'
  | 'f' => some '\x0c'
  | 'n' => some '\n'
  | 'r' => some '\r'
  | 't' => some '\t'
  | _ => none

/-- A string under way: its characters in reverse, the first half of a surrogate pair that waits for
the second, and whether every half has found its other. -/
structure StringState where
  reversed : List Char := []
  half : Option Nat := none
  paired : Bool := true

namespace StringState

/-- Adds a character; a half that waits stays alone. -/
def push (s : StringState) (c : Char) : StringState :=
  { reversed := c :: s.reversed, paired := s.paired && s.half.isNone }

/-- Adds a code unit given by its number. -/
def pushUnit (s : StringState) (u : Nat) : StringState :=
  if 0xd800 ≤ u ∧ u < 0xdc00 then
    { s with half := some u, paired := s.paired && s.half.isNone }
  else if 0xdc00 ≤ u ∧ u < 0xe000 then
    match s.half with
    | some h =>
      { s with reversed := Char.ofNat (0x10000 + (h - 0xd800) * 0x400 + (u - 0xdc00)) :: s.reversed
               half := none }
    | none => { s with paired := false }
  else s.push (Char.ofNat u)

/-- The string, unless half a pair has stayed alone. -/
def text? (s : StringState) : Option String :=
  if s.paired && s.half.isNone then some (String.ofList s.reversed.reverse) else none

end StringState

/-- Reads on in a string after its opening quote, up to and including the closing one. -/
def readString (s : StringState) : List Char → Option (Option String × List Char)
  | [] => none
  | '"' :: rest => some (s.text?, rest)
  | '\\' :: 'u' :: a :: b :: c :: d :: rest =>
    match hex4? a b c d with
    | some u => readString (s.pushUnit u) rest
    | none => none
  | '\\' :: e :: rest =>
    match unescape? e with
    | some c => readString (s.push c) rest
    | none => none
  | c :: rest => if c.toNat < 0x20 then none else readString (s.push c) rest

/-! ## Numbers -/

structure Numeral where
  negative : Bool
  whole : List Char
  fraction : Option (List Char) := none
  exponent : Option (Bool × List Char) := none

namespace Numeral

def render (n : Numeral) : String :=
  let sign := if n.negative then "-" else ""
  let fraction := match n.fraction with
    | some ds => "." ++ String.ofList ds
    | none => ""
  let exponent := match n.exponent with
    | some (negative, ds) => (if negative then "e-" else "e") ++ String.ofList ds
    | none => ""
  sign ++ String.ofList n.whole ++ fraction ++ exponent

/-- The power of ten that the exponent asks for. -/
def power (n : Numeral) : Int :=
  match n.exponent with
  | some (negative, ds) =>
    if negative then -(Decimal.natOfDigits ds : Int) else Decimal.natOfDigits ds
  | none => 0

/-- Whether the numeral is too large for a double. Of its digits those count that fit 64 bits in
front; what is left of the whole part scales the number up, what is left of the fraction is
ignored. -/
def isBeyond (n : Numeral) : Bool :=
  let (lead, left) := Decimal.leadingDigits naturalLimit 0 n.whole
  let fraction := n.fraction.getD []
  let (lead, ignored) := Decimal.leadingDigits naturalLimit lead fraction
  let places := fraction.length - ignored.length
  Decimal.productIsBeyondDouble lead (n.power + left.length - places)

/-- The value of a numeral: an integer if it is written as one that fits 64 bits. -/
def toJson (n : Numeral) : Json :=
  let value := Decimal.natOfDigits n.whole
  if n.fraction.isNone && n.exponent.isNone && !n.negative && value < naturalLimit then .int value
  else if n.fraction.isNone && n.exponent.isNone && n.negative && 0 < value &&
      value ≤ negativeLimit then
    .int (-value)
  else if n.isBeyond then .beyond
  else .real n.render

end Numeral

def takeDigits (cs : List Char) : List Char × List Char := cs.span Char.isDigit

def readFraction : List Char → Option (Option (List Char) × List Char)
  | '.' :: rest =>
    match takeDigits rest with
    | ([], _) => none
    | (ds, rest) => some (some ds, rest)
  | cs => some (none, cs)

def readExponentDigits (cs : List Char) : Option (Option (Bool × List Char) × List Char) :=
  let (negative, cs) : Bool × List Char := match cs with
    | '-' :: rest => (true, rest)
    | '+' :: rest => (false, rest)
    | _ => (false, cs)
  match takeDigits cs with
  | ([], _) => none
  | (ds, rest) => some (some (negative, ds), rest)

def readExponent : List Char → Option (Option (Bool × List Char) × List Char)
  | 'e' :: rest => readExponentDigits rest
  | 'E' :: rest => readExponentDigits rest
  | cs => some (none, cs)

/-- Whether digits may be the whole part of a numeral: several do not begin with zero. -/
def isWhole : List Char → Bool
  | [] => false
  | '0' :: more => more.isEmpty
  | _ => true

def readNumber (negative : Bool) (cs : List Char) : Option (Json × List Char) := do
  let (whole, rest) := takeDigits cs
  guard (isWhole whole)
  let (fraction, rest) ← readFraction rest
  let (exponent, rest) ← readExponent rest
  return (Numeral.toJson { negative, whole, fraction, exponent }, rest)

/-! ## Values -/

def takeWord (word : List Char) (j : Json) (cs : List Char) : Option (Json × List Char) :=
  if word.isPrefixOf cs then some (j, cs.drop word.length) else none

mutual

/-- Reads a value, with blanks before it. -/
def readValue : Nat → List Char → Option (Json × List Char)
  | 0, _ => none
  | n + 1, cs =>
    match skipBlanks cs with
    | '"' :: rest =>
      match readString {} rest with
      | some (some s, rest) => some (.string s, rest)
      | some (none, rest) => some (.beyond, rest)
      | none => none
    | '[' :: rest =>
      match skipBlanks rest with
      | ']' :: rest => some (.array [], rest)
      | rest => readItems n [] rest
    | '{' :: rest =>
      match skipBlanks rest with
      | '}' :: rest => some (.object [], rest)
      | rest => readMembers n true [] rest
    | '-' :: rest => readNumber true rest
    | 'n' :: rest => takeWord ['u', 'l', 'l'] .null rest
    | 't' :: rest => takeWord ['r', 'u', 'e'] (.bool true) rest
    | 'f' :: rest => takeWord ['a', 'l', 's', 'e'] (.bool false) rest
    | cs => readNumber false cs

/-- Reads array items up to the closing bracket; `done` holds in reverse those before. -/
def readItems : Nat → List Json → List Char → Option (Json × List Char)
  | 0, _, _ => none
  | n + 1, done, cs =>
    match readValue n cs with
    | none => none
    | some (item, rest) =>
      match skipBlanks rest with
      | ',' :: rest => readItems n (item :: done) rest
      | ']' :: rest => some (.array (item :: done).reverse, rest)
      | _ => none

/-- Reads object members up to the closing brace; `done` holds in reverse those before, and `named`
says whether every name could be held. -/
def readMembers : Nat → Bool → List (String × Json) → List Char → Option (Json × List Char)
  | 0, _, _, _ => none
  | n + 1, named, done, cs =>
    match skipBlanks cs with
    | '"' :: rest =>
      match readString {} rest with
      | none => none
      | some (name, rest) =>
        match skipBlanks rest with
        | ':' :: rest =>
          match readValue n rest with
          | none => none
          | some (value, rest) =>
            let named := named && name.isSome
            let done := (name.getD "", value) :: done
            match skipBlanks rest with
            | ',' :: rest => readMembers n named done rest
            | '}' :: rest => some (if named then .object done.reverse else .beyond, rest)
            | _ => none
        | _ => none
    | _ => none

end

/-- Reads a text that holds one value and blanks around it. -/
def read? (text : String) : Option Json :=
  let cs := text.toList
  match readValue (cs.length + 1) cs with
  | some (j, rest) => if (skipBlanks rest).isEmpty then some j else none
  | none => none

/-- Reads a text whose value can be held as a whole and is not nested too deep. -/
def parse? (text : String) : Option Json :=
  (read? text).filter fun j => j.isHeld && j.depth ≤ maxDepth

end ContractLex.Json
