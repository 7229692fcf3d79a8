import ContractLex.Toml.Document
import ContractLex.Toml.Scalar

/-!
# Reading TOML

A document is read line by line into a `Document`. Values nest, so their readers carry a bound on
the number of steps; the length of the text is enough, because each step uses a character.
-/

namespace ContractLex.Toml

/-- Keys have fewer parts than this, and values are nested less deep. -/
def maxDepth : Nat := 80

/-! ## Keys -/

def isBareKeyChar (c : Char) : Bool := c.isAlphanum || c == '-' || c == '_'

def readKeyPart : List Char → Option (String × List Char)
  | '"' :: rest => readBasic [] rest
  | '\'' :: rest => readLiteral [] rest
  | cs =>
    match cs.span isBareKeyChar with
    | ([], _) => none
    | (part, rest) => some (String.ofList part, rest)

/-- Reads the parts of a key, with periods between them and blanks around each. -/
def readKeyParts : Nat → List Char → Option (List String × List Char)
  | 0, _ => none
  | n + 1, cs => do
    let (part, rest) ← readKeyPart (skipBlanks cs)
    match skipBlanks rest with
    | '.' :: rest =>
      let (parts, rest) ← readKeyParts n rest
      return (part :: parts, rest)
    | rest => return ([part], rest)

def readKey (cs : List Char) : Option (List String × List Char) :=
  readKeyParts (maxDepth - 1) cs

/-! ## Values -/

/-- Skips blanks, line breaks and comments; `commented` says whether a comment is under way. -/
def skipVoid : Bool → List Char → List Char
  | _, [] => []
  | _, '\n' :: rest => skipVoid false rest
  | _, '\r' :: '\n' :: rest => skipVoid false rest
  | true, c :: rest => if isPlain c then skipVoid true rest else c :: rest
  | false, c :: rest =>
    if isBlank c then skipVoid false rest
    else if c == '#' then skipVoid true rest
    else c :: rest

mutual

def readValue : Nat → Nat → List Char → Option (Json × List Char)
  | 0, _, _ => none
  | n + 1, depth, cs =>
    match cs with
    | '"' :: _ => (readString cs).map fun (s, rest) => (.string s, rest)
    | '\'' :: _ => (readString cs).map fun (s, rest) => (.string s, rest)
    | '[' :: rest => if depth + 1 < maxDepth then readItems n (depth + 1) [] rest else none
    | '{' :: rest =>
      if depth + 1 < maxDepth then
        match skipBlanks rest with
        | '}' :: rest => some (.object [], rest)
        | rest => readPairs n (depth + 1) [] rest
      else none
    | 't' :: 'r' :: 'u' :: 'e' :: rest => some (.bool true, rest)
    | 'f' :: 'a' :: 'l' :: 's' :: 'e' :: rest => some (.bool false, rest)
    | 'i' :: 'n' :: 'f' :: rest => some (.real "inf", rest)
    | 'n' :: 'a' :: 'n' :: rest => some (.real "nan", rest)
    | _ => readNumeric cs

/-- Reads array items up to the closing bracket, with a comma after each but perhaps the last;
`done` holds in reverse those before. -/
def readItems : Nat → Nat → List Json → List Char → Option (Json × List Char)
  | 0, _, _, _ => none
  | n + 1, depth, done, cs =>
    match skipVoid false cs with
    | ']' :: rest => some (.array done.reverse, rest)
    | cs =>
      match readValue n depth cs with
      | none => none
      | some (item, rest) =>
        match skipVoid false rest with
        | ',' :: rest => readItems n depth (item :: done) rest
        | ']' :: rest => some (.array (item :: done).reverse, rest)
        | _ => none

/-- Reads the pairs of a table on one line up to the closing brace, with a comma between them. -/
def readPairs : Nat → Nat → Entries → List Char → Option (Json × List Char)
  | 0, _, _, _ => none
  | n + 1, depth, entries, cs =>
    match readKey cs with
    | some (path, '=' :: rest) =>
      match readValue n depth (skipBlanks rest) with
      | none => none
      | some (value, rest) =>
        match path.getLast?.bind fun key => entries.assign value key true path.dropLast with
        | none => none
        | some entries =>
          match skipBlanks rest with
          | ',' :: rest => readPairs n depth entries rest
          | '}' :: rest => some (.object (entriesToJson entries), rest)
          | _ => none
    | _ => none

end

/-! ## Lines -/

/-- Takes the end of a line: a line break or the end of the text. -/
def takeLineEnd : List Char → Option (List Char)
  | [] => some []
  | '\n' :: rest => some rest
  | '\r' :: '\n' :: rest => some rest
  | _ => none

/-- Takes what may follow on a line: blanks, a comment and the line's end. -/
def takeTrailing (cs : List Char) : Option (List Char) :=
  match skipBlanks cs with
  | '#' :: rest => takeLineEnd (rest.dropWhile isPlain)
  | cs => takeLineEnd cs

def readPair (d : Document) (cs : List Char) : Option (Document × List Char) := do
  let (path, rest) ← readKey cs
  let rest ← expect '=' rest
  let (value, rest) ← readValue (cs.length + 1) 0 (skipBlanks rest)
  let rest ← takeTrailing rest
  return (← d.assign path value, rest)

/-- Reads one line, with blanks before it, and a value that may take up several. -/
def readLine (d : Document) (cs : List Char) : Option (Document × List Char) :=
  match skipBlanks cs with
  | '[' :: '[' :: rest => do
    let (path, rest) ← readKey rest
    let rest ← takeTrailing (← expect ']' (← expect ']' rest))
    return (← d.addTable path, rest)
  | '[' :: rest => do
    let (path, rest) ← readKey rest
    let rest ← takeTrailing (← expect ']' rest)
    return (← d.openTable path, rest)
  | [] => some (d, [])
  | '#' :: rest => do return (d, ← takeTrailing ('#' :: rest))
  | '\n' :: rest => some (d, rest)
  | '\r' :: '\n' :: rest => some (d, rest)
  | cs => readPair d cs

def readLines : Nat → Document → List Char → Option Document
  | 0, _, _ => none
  | _ + 1, d, [] => some d
  | n + 1, d, cs =>
    match readLine d cs with
    | some (d, rest) => readLines n d rest
    | none => none

/-- Reads a document. A byte order mark may stand first. -/
def read? (text : String) : Option Json :=
  let cs := text.toList
  let cs := if cs.head? == some '\ufeff' then cs.tail else cs
  (readLines (cs.length + 1) {} cs).map Document.toJson

end ContractLex.Toml
