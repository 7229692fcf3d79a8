import ContractLex.Decimal
import ContractLex.Text.Hex
import ContractLex.Text.Pattern.Written
import ContractLex.Text.Visible

/-!
# Reading patterns

Characters stand for themselves, a period for any character of a line; sets are written in square
brackets and groups in parentheses, a bar stands between choices, signs ask for places or for
repetition, and a backslash comes before what would mean something else otherwise. Where blanks do
not count, neither do comments, from a number sign to the end of the line.

Reading goes from left to right, and the first fault ends it. Groups nest, so the readers carry a
bound on the number of steps; the length of the text is enough, because each step uses a character.
-/

namespace ContractLex.Text.PatternReader

/-! ## Places and blanks -/

/-- How a reader sees the text: how long it is, and whether blanks and comments do not count. -/
structure Setting where
  total : Nat
  spaced : Bool := false

/-- Skips blanks and comments; `comment` says whether one is under way. -/
def skipSpaced : Bool → List Char → List Char
  | _, [] => []
  | true, c :: cs => skipSpaced (c != '\n') cs
  | false, c :: cs =>
    if isBlank c then skipSpaced false cs
    else if c = '#' then skipSpaced true cs
    else c :: cs

namespace Setting

def column (m : Setting) (cs : List Char) : Nat := m.total - cs.length

def skip (m : Setting) (cs : List Char) : List Char := if m.spaced then skipSpaced false cs else cs

/-- Takes the characters in front that pass, and skips after each what does not count. The first
argument bounds the number of steps. -/
def takeWhile (m : Setting) (ok : Char → Bool) : Nat → List Char → List Char × List Char
  | n + 1, c :: cs =>
    if ok c then
      let (taken, rest) := m.takeWhile ok n (m.skip cs)
      (c :: taken, rest)
    else ([], c :: cs)
  | _, cs => ([], cs)

/-- The next character that counts after the first one. A comment hides its sign alone. -/
def peek (m : Setting) (cs : List Char) : Option Char :=
  let next := cs.drop 1
  if !m.spaced then next.head?
  else
    match next.dropWhile isBlank with
    | '#' :: cs => (cs.dropWhile isBlank).head?.or next.head?
    | [] => next.head?
    | c :: _ => some c

def cutAt (m : Setting) (cs : List Char) : PatternError :=
  .between .escapeCut (m.column cs) (m.column cs)

def wrongAt (m : Setting) (fault : PatternFault) (cs : List Char) : PatternError :=
  .between fault (m.column cs) (m.column cs + 1)

end Setting

/-! ## Escapes -/

/-- What stands for one character, a set of them or a place. -/
inductive Item where
  | char (l : Literal)
  | set (s : WrittenSet)
  | edge (extent : Extent) (e : WrittenEdge)

def Item.extent : Item → Extent
  | .char l => l.extent
  | .set s => s.extent
  | .edge e _ => e

def Item.toWritten : Item → Written
  | .char l => .char l
  | .set s => .set s
  | .edge e kind => .edge e kind

/-- Characters that a backslash lets stand for themselves. -/
def isEscapable (c : Char) : Bool := c.toNat < 0x80 && !c.isAlphanum && c != '<' && c != '>'

def isHex (c : Char) : Bool := (hexValue? c).isSome

def hexChar (digits : List Char) (first last : Nat) : Except PatternError Char :=
  let value := (digits.filterMap hexValue?).foldl (fun n d => 16 * n + d) 0
  if value < 0xd800 ∨ (0xe000 ≤ value ∧ value < 0x110000) then .ok (Char.ofNat value)
  else .error (.between .hexValue first last)

def takeHex (m : Setting) : Nat → List Char → Except PatternError (List Char × List Char)
  | 0, cs => .ok ([], cs)
  | _ + 1, [] => .error (m.cutAt [])
  | n + 1, c :: cs => do
    if !isHex c then throw (m.wrongAt .hexDigit (c :: cs))
    let (digits, rest) ← takeHex m n (m.skip cs)
    return (c :: digits, rest)

/-- Reads a character given by its number, with `n` digits unless they stand in braces. The escape
begins at `start`. -/
def readHex (m : Setting) (start n : Nat) (cs : List Char) :
    Except PatternError (Literal × List Char) := do
  let cs := m.skip cs
  let first := m.column cs
  match cs with
  | [] => throw (m.cutAt [])
  | '\x7b' :: body =>
    let body := m.skip body
    let (digits, rest) := m.takeWhile isHex body.length body
    match rest with
    | [] => throw (.between .escapeCut first m.total)
    | '\x7d' :: after =>
      let after := m.skip after
      if digits.isEmpty then throw (.between .hexMissing first (m.column after))
      let c ← hexChar digits (first + 1) (m.column rest)
      return ({ extent := ⟨start, m.column after⟩, char := c }, after)
    | _ => throw (m.wrongAt .hexDigit rest)
  | cs =>
    let (digits, rest) ← takeHex m n cs
    let c ← hexChar digits first (m.column rest)
    return ({ extent := ⟨start, m.column rest⟩, char := c, octet := n == 2 }, rest)

/-- A name of a property as it is compared: in lower case and without an "is" in front or signs that
do not count. -/
def plainName (name : List Char) : List Char :=
  let name := match name with
    | i :: s :: rest => if i.toLower = 'i' ∧ s.toLower = 's' then rest else name
    | _ => name
  (name.filter fun c => c.toNat < 0x80 && c != ' ' && c != '_' && c != '-').map Char.toLower

/-- What is wrong with a property of that name: it is not known, or what it would have to be is not
known. -/
def propertyFault (name : List Char) : PatternFault :=
  let abbreviations := ["cf", "sc", "lc"]
  if name.any (fun c => c = ':' || c = '=') then .propertyUnknown
  else if abbreviations.contains (String.ofList (plainName name)) then .propertyValueUnknown
  else .propertyUnknown

def readProperty (m : Setting) (start : Nat) (cs : List Char) :
    Except PatternError (WrittenSet × List Char) := do
  match m.skip cs with
  | [] => throw (m.cutAt [])
  | '\x7b' :: body =>
    let body := m.skip body
    let (name, rest) := m.takeWhile (· != '\x7d') body.length body
    if rest.isEmpty then throw (m.cutAt [])
    return (.property ⟨start, m.column rest + 1⟩ (propertyFault name), rest.drop 1)
  | c :: rest =>
    if c = '\\' then throw (m.wrongAt .propertyName (c :: rest))
    let rest := m.skip rest
    return (.property ⟨start, m.column rest⟩ .propertyUnknown, rest)

def isWordEdgeChar (c : Char) : Bool := c.isAlpha || c == '-'

def wordEdges : List (String × WrittenEdge) := [
  ("start", .wordStart), ("end", .wordEnd), ("start-half", .notInWordBefore),
  ("end-half", .notInWordAfter)]

/-- Reads the name of a place at a word after the escape that begins at `start`. A brace in which no
name begins does not belong to the escape. -/
def readWordEdge (m : Setting) (start : Nat) (cs : List Char) :
    Except PatternError (Item × List Char) := do
  let plain : Item × List Char := (.edge ⟨start, m.column cs⟩ .word, cs)
  match cs with
  | '\x7b' :: body =>
    let body := m.skip body
    if body.isEmpty then throw (.between .wordEdgeCut start m.total)
    let (name, rest) := m.takeWhile isWordEdgeChar body.length body
    if name.isEmpty then return plain
    match rest with
    | '\x7d' :: after =>
      match wordEdges.lookup (String.ofList name) with
      | some e => return (.edge ⟨start, m.column after⟩ e, after)
      | none => throw (.between .wordEdgeUnknown (m.column body) (m.column rest))
    | _ => throw (.between .wordEdgeOpen (m.column cs) (m.column rest))
  | _ => return plain

def digits : CharSet := .range '0' '9'

def blanks : CharSet := .ofRanges [('\t', '\r'), (' ', ' ')]

/-- Shorthands for sets, in lower case. A capital letter stands for the complement. -/
def shorthands : List (Char × CharSet) := [('d', digits), ('s', blanks), ('w', .wordChars)]

def controls : List (Char × Char) := [
  ('a', '\x07'), ('f', '\x0c'), ('t', '\t'), ('n', '\n'), ('r', '\r'), ('v', '\x0b')]

def edges : List (Char × WrittenEdge) := [
  ('A', .textStart), ('z', .textEnd), ('B', .noWord), ('<', .wordStart), ('>', .wordEnd)]

def readEscape (m : Setting) (cs : List Char) : Except PatternError (Item × List Char) := do
  let start := m.column cs - 1
  let extent : Extent := ⟨start, start + 2⟩
  match cs with
  | [] => throw (.between .escapeCut start (start + 1))
  | 'x' :: cs => let (l, rest) ← readHex m start 2 cs; return (.char l, rest)
  | 'u' :: cs => let (l, rest) ← readHex m start 4 cs; return (.char l, rest)
  | 'U' :: cs => let (l, rest) ← readHex m start 8 cs; return (.char l, rest)
  | 'p' :: cs => let (s, rest) ← readProperty m start cs; return (.set s, rest)
  | 'P' :: cs => let (s, rest) ← readProperty m start cs; return (.set s, rest)
  | 'b' :: cs => readWordEdge m start cs
  | c :: cs =>
    match shorthands.lookup c.toLower, controls.lookup c, edges.lookup c with
    | some s, _, _ => return (.set (.shorthand extent c.isUpper s), cs)
    | _, some c, _ => return (.char { extent, char := c }, cs)
    | _, _, some e => return (.edge extent e, cs)
    | none, none, none =>
      if c.isDigit then throw (.wrong .backReference extent none)
      else if isEscapable c then return (.char { extent, char := c }, cs)
      else throw (.wrong .escapeUnknown extent none)

/-! ## Sets -/

def namedSets : List (String × CharSet) := [
  ("alnum", .ofRanges [('0', '9'), ('A', 'Z'), ('a', 'z')]),
  ("alpha", .ofRanges [('A', 'Z'), ('a', 'z')]),
  ("ascii", .range '\x00' '\x7f'),
  ("blank", .ofRanges [('\t', '\t'), (' ', ' ')]),
  ("cntrl", .ofRanges [('\x00', '\x1f'), ('\x7f', '\x7f')]),
  ("digit", digits),
  ("graph", .range '!' '~'),
  ("lower", .range 'a' 'z'),
  ("print", .range ' ' '~'),
  ("punct", .ofRanges [('!', '/'), (':', '@'), ('[', '\x60'), ('\x7b', '~')]),
  ("space", blanks),
  ("upper", .range 'A' 'Z'),
  ("word", .wordChars),
  ("xdigit", .ofRanges [('0', '9'), ('A', 'F'), ('a', 'f')])]

/-- Reads on in a named set after its bracket, which stands at `start`, if this is one. -/
def readNamed? (m : Setting) (start : Nat) : List Char → Option (WrittenSet × List Char)
  | ':' :: cs => do
    let (negated, cs) : Bool × List Char := match cs with
      | '^' :: cs => (true, cs)
      | _ => (false, cs)
    let (name, rest) := cs.span (· != ':')
    let s ← namedSets.lookup (String.ofList name)
    match rest with
    | ':' :: ']' :: rest => some (.named ⟨start, m.column rest⟩ negated s, rest)
    | _ => none
  | _ => none

structure OpenSet where
  /-- Where its bracket stands. -/
  start : Nat
  /-- Where what belongs to the bracket ends. -/
  head : Nat
  negated : Bool
  /-- What was read before the last operation. -/
  earlier : Option (SetOperation × WrittenSet) := none
  /-- Where the items since then begin. -/
  itemsStart : Nat
  /-- The items, the last one first. -/
  reversed : List WrittenSet := []

namespace OpenSet

def add (o : OpenSet) (s : WrittenSet) : OpenSet := { o with reversed := s :: o.reversed }

def items (o : OpenSet) : WrittenSet :=
  match o.reversed with
  | [] => .none ⟨o.itemsStart, o.itemsStart⟩
  | [s] => s
  | last :: _ =>
    let first := (o.reversed.getLastD last).extent.first
    .union ⟨first, last.extent.last⟩ o.reversed.reverse

def joined (o : OpenSet) : WrittenSet :=
  match o.earlier with
  | some (op, s) => .operation ⟨s.extent.first, o.items.extent.last⟩ op s o.items
  | none => o.items

def operate (o : OpenSet) (op : SetOperation) (column : Nat) : OpenSet :=
  { o with earlier := some (op, o.joined), itemsStart := column, reversed := [] }

def close (o : OpenSet) (column : Nat) : WrittenSet :=
  .brackets ⟨o.start, column⟩ o.negated o.joined

def unclosed (o : OpenSet) : PatternError := .between .setOpen o.start o.head

end OpenSet

/-- Takes minus signs in front as items of a set. -/
def takeDashes (m : Setting) (start : Nat) : Nat → List WrittenSet → List Char →
    Except PatternError (List WrittenSet × List Char)
  | n + 1, reversed, '-' :: cs =>
    let column := m.column cs
    let dash : WrittenSet := .char { extent := ⟨column - 1, column⟩, char := '-' }
    match m.skip cs with
    | [] => .error (.between .setOpen start start)
    | rest => takeDashes m start n (dash :: reversed) rest
  | _, reversed, cs => .ok (reversed, cs)

/-- Begins a set after its bracket, which stands at `start`. Minus signs in front, and a closing
bracket if there are none, are items. -/
def openSet (m : Setting) (start : Nat) (cs : List Char) :
    Except PatternError (OpenSet × List Char) := do
  let unclosed : PatternError := .between .setOpen start m.total
  let cs := m.skip cs
  if cs.isEmpty then throw unclosed
  let (negated, cs) : Bool × List Char := match cs with
    | '^' :: rest => (true, m.skip rest)
    | _ => (false, cs)
  if cs.isEmpty then throw unclosed
  let itemsStart := m.column cs
  let (reversed, cs) ← takeDashes m start cs.length [] cs
  match reversed, cs with
  | [], ']' :: rest =>
    let bracket : WrittenSet := .char { extent := ⟨itemsStart, itemsStart + 1⟩, char := ']' }
    let rest := m.skip rest
    if rest.isEmpty then throw unclosed
    return ({ start, head := m.column rest, negated, itemsStart, reversed := [bracket] }, rest)
  | reversed, cs => return ({ start, head := m.column cs, negated, itemsStart, reversed }, cs)

def readSetItem (m : Setting) : List Char → Except PatternError (Item × List Char)
  | [] => .error (m.cutAt [])
  | '\\' :: cs => readEscape m cs
  | c :: cs =>
    let column := m.column cs
    .ok (.char { extent := ⟨column - 1, column⟩, char := c }, cs)

/-- An item as an end of a range: a character. -/
def Item.toEnd : Item → Except PatternError Literal
  | .char l => .ok l
  | item => .error (.wrong .rangeEnd item.extent none)

/-- An item as one of a set: anything but a place. -/
def Item.toSet : Item → Except PatternError WrittenSet
  | .char l => .ok (.char l)
  | .set s => .ok s
  | .edge e _ => .error (.wrong .setItem e none)

/-- Reads an item of a set, or a range of characters with a minus sign between its ends. -/
def readSetRange (m : Setting) (o : OpenSet) (cs : List Char) :
    Except PatternError (WrittenSet × List Char) := do
  let (item, rest) ← readSetItem m cs
  let rest := m.skip rest
  match rest with
  | [] => throw o.unclosed
  | '-' :: next =>
    if m.peek rest == some ']' || m.peek rest == some '-' then return (← item.toSet, rest)
    let next := m.skip next
    if next.isEmpty then throw o.unclosed
    let (other, rest) ← readSetItem m next
    let extent : Extent := ⟨item.extent.first, other.extent.last⟩
    let low ← item.toEnd
    let high ← other.toEnd
    if high.char < low.char then throw (.wrong .rangeOrder extent none)
    return (.range extent low high, rest)
  | _ => return (← item.toSet, rest)

/-- Reads on in a set up to its closing bracket; `outer` are the sets around it. -/
def readSet (m : Setting) : Nat → List OpenSet → OpenSet → List Char →
    Except PatternError (WrittenSet × List Char)
  | 0, _, o, _ => .error o.unclosed
  | n + 1, outer, o, cs =>
    let cs := m.skip cs
    let column := m.column cs
    match cs with
    | [] => .error o.unclosed
    | ']' :: rest =>
      match outer with
      | [] => .ok (o.close (column + 1), rest)
      | parent :: outer => readSet m n outer (parent.add (o.close (column + 1))) rest
    | '[' :: rest =>
      match readNamed? m column rest with
      | some (s, rest) => readSet m n outer (o.add s) rest
      | none => do
        let (inner, rest) ← openSet m column rest
        readSet m n (o :: outer) inner rest
    | '&' :: '&' :: rest => readSet m n outer (o.operate .inter (column + 2)) rest
    | '-' :: '-' :: rest => readSet m n outer (o.operate .without (column + 2)) rest
    | '~' :: '~' :: rest => readSet m n outer (o.operate .oneOf (column + 2)) rest
    | _ => do
      let (s, rest) ← readSetRange m o cs
      readSet m n outer (o.add s) rest

/-! ## Repetition -/

/-- How often something may be repeated: at least, and at most if there is a bound. -/
structure Count where
  least : Nat
  most : Option Nat

def maxCount : Nat := 4294967295

/-- Reads a number, with blanks around it. -/
def readBound (m : Setting) (cs : List Char) : Except PatternError Nat × List Char :=
  let cs := cs.dropWhile isBlank
  let (taken, rest) := m.takeWhile Char.isDigit cs.length cs
  let value := Decimal.natOfDigits taken
  let read : Except PatternError Nat :=
    if taken.isEmpty then .error (.between .countMissing (m.column cs) (m.column rest))
    else if maxCount < value then .error (.between .countTooLarge (m.column cs) (m.column rest))
    else .ok value
  (read, m.skip (rest.dropWhile isBlank))

/-- Drops a question mark, which asks for the shortest fit. -/
def dropLazy : List Char → List Char
  | '?' :: cs => cs
  | cs => cs

def readCount (m : Setting) (start : Nat) (cs : List Char) :
    Except PatternError (Count × List Char) := do
  let unclosed (cs : List Char) : PatternError := .between .countOpen start (m.column cs)
  let cs := m.skip cs
  if cs.isEmpty then throw (unclosed cs)
  let (least, rest) := readBound m cs
  if rest.isEmpty then throw (unclosed rest)
  let (k, rest) : Count × List Char ← match rest with
    | ',' :: rest =>
      match m.skip rest with
      | [] => throw (unclosed [])
      | '\x7d' :: rest => pure (⟨← least, none⟩, '\x7d' :: rest)
      | rest => do
        let least ← least
        let (most, rest) := readBound m rest
        pure (⟨least, some (← most)⟩, rest)
    | _ => do
      let least ← least
      pure (⟨least, some least⟩, rest)
  match rest with
  | '\x7d' :: rest =>
    let rest := dropLazy (m.skip rest)
    if k.most.any (· < k.least) then throw (.between .countOrder start (m.column rest))
    return (k, rest)
  | _ => throw (unclosed rest)

/-! ## Groups -/

abbrev Names := List (String × Extent)

/-- How the name of a group is written: a letter or underscore, and then also digits and a few
signs. Beyond ASCII every visible character counts as a letter. -/
def isNameChar (first : Bool) (c : Char) : Bool :=
  c == '_' || c.isAlpha || (0x80 ≤ c.toNat && isVisible c && !isBlank c) ||
    (!first && (c.isDigit || c == '.' || c == '[' || c == ']'))

def takeName (m : Setting) (first : Bool) :
    List Char → Except PatternError (List Char × List Char)
  | [] => .error (.between .nameCut m.total m.total)
  | '>' :: cs => .ok ([], cs)
  | c :: cs => do
    if !isNameChar first c then throw (m.wrongAt .nameCharacter (c :: cs))
    let (name, rest) ← takeName m false cs
    return (c :: name, rest)

/-- Reads the name of a group. No two groups have the same name. -/
def readName (m : Setting) (names : Names) (cs : List Char) :
    Except PatternError (Names × List Char) := do
  let (name, rest) ← takeName m true cs
  let start := m.column cs
  let extent : Extent := ⟨start, start + name.length⟩
  if name.isEmpty then throw (.wrong .nameMissing extent none)
  let name := String.ofList name
  match names.lookup name with
  | some other => throw (.wrong .nameTwice extent (some other))
  | none => return ((name, extent) :: names, rest)

/-- A sign in a list of flags: a flag, or the minus sign that takes back those after it. -/
abbrev FlagSign := Option PatternFlag × Extent

/-- Reads flags up to the parenthesis or colon that ends them; `reversed` are the signs before. -/
def takeFlags (m : Setting) (reversed : List FlagSign) :
    List Char → Except PatternError (List FlagSign × List Char)
  | [] => .error (.between .flagCut m.total m.total)
  | c :: cs => do
    let extent : Extent := ⟨m.column cs - 1, m.column cs⟩
    if c = ':' ∨ c = ')' then
      match reversed with
      | (none, e) :: _ => throw (.wrong .flagMissing e none)
      | _ => return (reversed.reverse, c :: cs)
    let sign : Option PatternFlag ← if c = '-' then pure none else
      match PatternFlag.ofLetter? c with
      | some flag => pure (some flag)
      | none => throw (.wrong .flagUnknown extent none)
    match reversed.lookup sign with
    | some other =>
      throw (.wrong (if sign.isNone then .minusTwice else .flagTwice) extent (some other))
    | none => takeFlags m ((sign, extent) :: reversed) cs

def changesOf (value : Bool) : List FlagSign → List (PatternFlag × Bool)
  | [] => []
  | (none, _) :: rest => changesOf false rest
  | (some flag, _) :: rest => (flag, value) :: changesOf value rest

structure GroupHead where
  kept : Bool := true
  changes : List (PatternFlag × Bool) := []
  /-- Whether it is no group, but flags for what follows. -/
  flagsOnly : Bool := false
  names : Names

def readGroupHead (m : Setting) (start : Nat) (names : Names) (cs : List Char) :
    Except PatternError (GroupHead × List Char) := do
  let cs := m.skip cs
  let inner := m.column cs
  match cs with
  | '?' :: '=' :: rest => throw (.between .lookAround start (m.column rest))
  | '?' :: '!' :: rest => throw (.between .lookAround start (m.column rest))
  | '?' :: '<' :: '=' :: rest => throw (.between .lookAround start (m.column rest))
  | '?' :: '<' :: '!' :: rest => throw (.between .lookAround start (m.column rest))
  | '?' :: 'P' :: '<' :: rest =>
    let (names, rest) ← readName m names rest
    return ({ names }, rest)
  | '?' :: '<' :: rest =>
    let (names, rest) ← readName m names rest
    return ({ names }, rest)
  | ['?'] => throw (.between .groupOpen start (start + 1))
  | '?' :: rest =>
    let (signs, rest) ← takeFlags m [] rest
    let changes := changesOf true signs
    match rest with
    | ')' :: rest =>
      if signs.isEmpty then throw (.between .nothingToRepeat inner inner)
      return ({ changes, flagsOnly := true, names }, rest)
    | rest => return ({ kept := false, changes, names }, rest.drop 1)
  | cs => return ({ names }, cs)

structure Scope where
  spaced : Bool := false
  names : Names := []
  /-- Where the choices, and where the last one, begin. -/
  first : Nat
  start : Nat
  /-- Choices before the last bar, the last one first. -/
  choices : List Written := []
  /-- Items since it, the last one first. -/
  items : List Written := []

namespace Scope

def add (s : Scope) (w : Written) : Scope := { s with items := w :: s.items }

def sequence (s : Scope) (column : Nat) : Written :=
  match s.items with
  | [] => .empty ⟨s.start, column⟩
  | [w] => w
  | items => .sequence ⟨s.start, column⟩ items.reverse

def split (s : Scope) (column : Nat) : Scope :=
  { s with start := column + 1, choices := s.sequence column :: s.choices, items := [] }

def written (s : Scope) (column : Nat) : Written :=
  match s.choices with
  | [] => s.sequence column
  | choices => .choice ⟨s.first, column⟩ (choices.reverse ++ [s.sequence column])

def setSpaced (spaced : Bool) (changes : List (PatternFlag × Bool)) : Bool :=
  (changes.lookup .spaced).getD spaced

/-- The last item and the scope without it, if it is one that can be repeated. -/
def takeItem? (s : Scope) : Option (Written × Scope) :=
  match s.items with
  | [] => none
  | .flags .. :: _ => none
  | w :: items => some (w, { s with items })

end Scope

/-- Reads on up to the end, or up to the parenthesis that ends a group; `opened` is where that group
began. Returns also the names of groups. -/
def readScope (total : Nat) : Nat → Option Nat → Scope → List Char →
    Except PatternError (Written × Names × List Char)
  | 0, _, _, _ => .error .tooLarge
  | n + 1, opened, s, cs =>
    let m : Setting := { total, spaced := s.spaced }
    let cs := m.skip cs
    let column := m.column cs
    let repeatItem (read : Except PatternError (Count × List Char)) :
        Except PatternError (Written × Names × List Char) :=
      match s.takeItem? with
      | none => .error (.between .nothingToRepeat column column)
      | some (w, s) => do
        let (k, rest) ← read
        let extent : Extent := ⟨w.extent.first, m.column rest⟩
        readScope total n opened (s.add (.repeated extent w k.least k.most)) rest
    match cs with
    | [] =>
      match opened with
      | some first => .error (.between .groupOpen first (first + 1))
      | none => .ok (s.written column, s.names, [])
    | ')' :: rest =>
      match opened with
      | some _ => .ok (s.written column, s.names, rest)
      | none => .error (m.wrongAt .groupClosed cs)
    | '(' :: rest => do
      let (head, rest) ← readGroupHead m column s.names rest
      let spaced := Scope.setSpaced s.spaced head.changes
      if head.flagsOnly then
        let flags : Written := .flags ⟨column, m.column rest⟩ head.changes
        readScope total n opened { s.add flags with spaced } rest
      else
        let start := m.column rest
        let inner : Scope := { spaced, names := head.names, first := start, start }
        let (w, names, rest) ← readScope total n (some column) inner rest
        let group : Written := .group ⟨column, m.column rest⟩ head.kept head.changes w
        readScope total n opened { s.add group with names } rest
    | '|' :: rest => readScope total n opened (s.split column) rest
    | '[' :: rest => do
      let (o, rest) ← openSet m column rest
      let (set, rest) ← readSet m (rest.length + 1) [] o rest
      readScope total n opened (s.add (.set set)) rest
    | '*' :: rest => repeatItem (.ok (⟨0, none⟩, dropLazy rest))
    | '+' :: rest => repeatItem (.ok (⟨1, none⟩, dropLazy rest))
    | '?' :: rest => repeatItem (.ok (⟨0, some 1⟩, dropLazy rest))
    | '\x7b' :: rest => repeatItem (readCount m column rest)
    | '\\' :: rest => do
      let (item, rest) ← readEscape m rest
      readScope total n opened (s.add item.toWritten) rest
    | c :: rest =>
      let extent : Extent := ⟨column, column + 1⟩
      let w : Written := match c with
        | '.' => .anyChar extent
        | '^' => .edge extent .lineStart
        | '$' => .edge extent .lineEnd
        | _ => .char { extent, char := c }
      readScope total n opened (s.add w) rest

end PatternReader

def Pattern.parse (text : String) : Except PatternError Pattern := do
  let cs := text.toList
  let start : PatternReader.Scope := { first := 0, start := 0 }
  let (w, _) ← PatternReader.readScope cs.length (cs.length + 1) none start cs
  w.toPattern

end ContractLex.Text
