/-!
# JSON values

A JSON value and its compact text. Object members keep their order and may repeat a name, as they
may in a text.

Two kinds of values only ever come from reading a text: a number that is no 64-bit integer, and a
value that no program value can hold. The grammar admits both, so they are no errors by themselves;
whoever looks at one refuses it.
-/

namespace ContractLex

inductive Json where
  | null
  | bool (b : Bool)
  | int (n : Int)
  /-- A number within the range of doubles that is no 64-bit integer, as it is written. -/
  | real (literal : String)
  | string (s : String)
  | array (items : List Json)
  | object (members : List (String × Json))
  /-- A number out of range, or a text or an object in which half a surrogate pair occurs. -/
  | beyond
deriving Repr, Inhabited

namespace Json

/-- Natural numbers are held as integers below this bound: those of 64 bits. -/
def naturalLimit : Nat := 18446744073709551616

/-- Negative numbers are held as integers down to the negative of this bound: those of 64 bits with
a sign. -/
def negativeLimit : Nat := 9223372036854775808

/-! ## Writing -/

/-- Four hexadecimal digits of a small code point. -/
def hex4 (n : Nat) : List Char :=
  [n / 4096 % 16, n / 256 % 16, n / 16 % 16, n % 16].map Nat.digitChar

/-- A character as it stands in a JSON string. Quotes, backslashes and control characters are
escaped, the common ones by a letter; all others stand for themselves. -/
def escapeChar (c : Char) : List Char :=
  if c = '"' then ['\\', '"']
  else if c = '\\' then ['\\', '\\']
  else if c = '\x08' then ['\\', 'b']
  else if c = '\x0c' then ['\\', 'f']
  else if c = '\n' then ['\\', 'n']
  else if c = '\r' then ['\\', 'r']
  else if c = '\t' then ['\\', 't']
  else if c.toNat < 0x20 then '\\' :: 'u' :: hex4 c.toNat
  else [c]

def escape (s : List Char) : List Char := s.flatMap escapeChar

def writeString (out s : String) : String :=
  (s.toList.foldl (fun out c => (escapeChar c).foldl String.push out) (out.push '"')).push '"'

mutual

def write (out : String) : Json → String
  | .null => out ++ "null"
  | .bool b => out ++ (if b then "true" else "false")
  | .int n => out ++ toString n
  | .real literal => out ++ literal
  | .string s => writeString out s
  | .array items => (writeItems (out.push '[') true items).push ']'
  | .object members => (writeMembers (out.push '{') true members).push '}'
  | .beyond => out ++ "null"

/-- Appends array items; a comma stands before each but the first. -/
def writeItems (out : String) (first : Bool) : List Json → String
  | [] => out
  | item :: items =>
    writeItems (write (if first then out else out.push ',') item) false items

def writeMembers (out : String) (first : Bool) : List (String × Json) → String
  | [] => out
  | (name, value) :: members =>
    let out := writeString (if first then out else out.push ',') name
    writeMembers (write (out.push ':') value) false members

end

def render (j : Json) : String := write "" j

def nat (n : Nat) : Json := .int n

/-! ## Looking at values -/

def bool? : Json → Option Bool
  | .bool b => some b
  | _ => none

def string? : Json → Option String
  | .string s => some s
  | _ => none

def array? : Json → Option (List Json)
  | .array items => some items
  | _ => none

def natBelow? (limit : Nat) : Json → Option Nat
  | .int n => if 0 ≤ n ∧ n.toNat < limit then some n.toNat else none
  | _ => none

/-- The last member of that name. -/
def member? (name : String) : Json → Option Json
  | .object members => (members.reverse.lookup name)
  | _ => none

/-- The fields of a record, in the order of `names`. A record is an object, in which members of
other names do not count, or the array of its values. If `once`, no named member may be repeated;
otherwise the last one holds. A record that is an array has at least `least` and at most all of its
values. -/
def fields? (names : List String) (least : Nat) (once : Bool) : Json → Option (List (Option Json))
  | .object members =>
    let occurrences (name : String) := members.filter (·.1 == name)
    if once && names.any (fun name => 1 < (occurrences name).length) then none
    else some (names.map fun name => (occurrences name).getLast?.map (·.2))
  | .array items =>
    if least ≤ items.length ∧ items.length ≤ names.length then
      some (names.mapIdx fun i _ => items[i]?)
    else none
  | _ => none

/-- The name of a choice: a string, or an object whose one member has that name and is null. -/
def choice? : Json → Option String
  | .string s => some s
  | .object [(name, .null)] => some name
  | _ => none

mutual

def depth : Json → Nat
  | .array items => itemsDepth items + 1
  | .object members => membersDepth members + 1
  | _ => 0

def itemsDepth : List Json → Nat
  | [] => 0
  | item :: items => max (depth item) (itemsDepth items)

def membersDepth : List (String × Json) → Nat
  | [] => 0
  | (_, value) :: members => max (depth value) (membersDepth members)

end

mutual

def isHeld : Json → Bool
  | .array items => itemsHeld items
  | .object members => membersHeld members
  | .beyond => false
  | _ => true

def itemsHeld : List Json → Bool
  | [] => true
  | item :: items => isHeld item && itemsHeld items

def membersHeld : List (String × Json) → Bool
  | [] => true
  | (_, value) :: members => isHeld value && membersHeld members

end

end Json

end ContractLex
