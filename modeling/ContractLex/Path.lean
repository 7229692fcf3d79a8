/-!
# Paths

A path is kept as it is written, with parts between slashes. Empty parts and parts that are one
period say nothing, unless such a period comes first. Two paths that have the same components name
the same file; `Path.key` compares them.

The last component, if it is a name, is the *file name*. Its *extension* is what follows the last
period, and its *stem* what stands before; a name has no extension if its only period comes first.
-/

namespace ContractLex

structure Path where
  text : String
deriving DecidableEq, Repr, Inhabited

namespace Path

/-- A meaningful part of a path. -/
inductive Component where
  | root
  | current
  | parent
  | name (chars : List Char)
deriving DecidableEq, Repr

/-- A text that orders components: root, current, parent, and then the names in their order. -/
def Component.key : Component → String
  | .root => "0"
  | .current => "1"
  | .parent => "2"
  | .name chars => String.ofList ('3' :: chars)

/-! ## Parts -/

def splitSlashes : List Char → List (List Char)
  | [] => [[]]
  | c :: rest =>
    if c = '/' then [] :: splitSlashes rest
    else
      match splitSlashes rest with
      | [] => [[c]]
      | part :: parts => (c :: part) :: parts

def joinSlashes : List (List Char) → List Char
  | [] => []
  | [part] => part
  | part :: parts => part ++ '/' :: joinSlashes parts

/-- Separates a root or a first period, which are never dropped, from the rest. -/
def lead : List Char → List Char × List Char
  | '/' :: rest => (['/'], rest)
  | ['.'] => (['.'], [])
  | '.' :: '/' :: rest => (['.'], '/' :: rest)
  | cs => ([], cs)

/-- Parts that say nothing. -/
def isIdle (part : List Char) : Bool := part == [] || part == ['.']

def Component.ofPart (part : List Char) : Component :=
  if part = ['.', '.'] then .parent else .name part

def components (p : Path) : List Component :=
  let (lead, body) := lead p.text.toList
  let first : List Component :=
    if lead = ['/'] then [.root] else if lead = ['.'] then [.current] else []
  first ++ ((splitSlashes body).filter (!isIdle ·)).map Component.ofPart

def key (p : Path) : List String := p.components.map Component.key

def isAbsolute (p : Path) : Bool := p.text.toList.head? == some '/'

/-- Drops the parts at the end that say nothing. -/
def trimParts (parts : List (List Char)) : List (List Char) :=
  (parts.reverse.dropWhile isIdle).reverse

def parent? (p : Path) : Option Path :=
  let (lead, body) := lead p.text.toList
  let parts := trimParts (splitSlashes body)
  if parts.isEmpty then
    if lead = ['.'] then some ⟨""⟩ else none
  else some ⟨String.ofList (lead ++ joinSlashes (trimParts parts.dropLast))⟩

/-! ## Names -/

/-- The last component, if it is a name. -/
def fileName? (p : Path) : Option (List Char) :=
  match p.components.getLast? with
  | some (.name chars) => some chars
  | _ => none

def splitName (name : List Char) : List Char × Option (List Char) :=
  match name.reverse.span (· != '.') with
  | (_, []) => (name, none)
  | (after, _ :: before) =>
    if before.isEmpty then (name, none) else (before.reverse, some after.reverse)

def stem? (p : Path) : Option (List Char) := p.fileName?.map fun name => (splitName name).1

def extension? (p : Path) : Option String :=
  p.fileName?.bind fun name => (splitName name).2.map String.ofList

def join (p : Path) (name : String) : Path :=
  let cs := p.text.toList
  if cs.isEmpty || cs.getLast? == some '/' then ⟨p.text ++ name⟩ else ⟨p.text ++ "/" ++ name⟩

def withFileName (p : Path) (name : String) : Path := (p.parent?.getD p).join name

end Path

end ContractLex
