import ContractLex.Text.Pattern
import ContractLex.Text.Pattern.Fault

/-!
# Written patterns

A written pattern is a tree that keeps where in the text each part stands. `Written.check` refuses a
tree that is too deep, and `Written.meaning` gives the pattern that is meant.

What a part means depends on the flags that hold where it stands. With the flag `allScripts`, which
holds from the start, characters are those of every script; their letter cases, properties and
shorthands are not known, so whatever asks for them is refused. Without the flag a set holds octets
that are ASCII characters, and what would hold other octets is refused.
-/

namespace ContractLex.Text

/-! ## Flags -/

inductive PatternFlag where
  | anyCase
  /-- Lines have starts and ends of their own. -/
  | lines
  /-- A period stands for line breaks too. -/
  | allChars
  /-- A carriage return is a line break. -/
  | returns
  | allScripts
  /-- The shortest fit is wanted where else it is the longest; whether one exists is the same. -/
  | shortest
  /-- Blanks and comments between the parts do not count. -/
  | spaced
deriving DecidableEq, Repr

def PatternFlag.ofLetter? : Char → Option PatternFlag
  | 'i' => some .anyCase
  | 'm' => some .lines
  | 's' => some .allChars
  | 'R' => some .returns
  | 'u' => some .allScripts
  | 'U' => some .shortest
  | 'x' => some .spaced
  | _ => none

/-- The flags that matter for what a part means. -/
structure PatternFlags where
  anyCase : Bool := false
  lines : Bool := false
  allChars : Bool := false
  returns : Bool := false
  allScripts : Bool := true
deriving DecidableEq, Repr

namespace PatternFlags

def set (f : PatternFlags) : PatternFlag × Bool → PatternFlags
  | (.anyCase, value) => { f with anyCase := value }
  | (.lines, value) => { f with lines := value }
  | (.allChars, value) => { f with allChars := value }
  | (.returns, value) => { f with returns := value }
  | (.allScripts, value) => { f with allScripts := value }
  | (.shortest, _) | (.spaced, _) => f

def change (f : PatternFlags) (changes : List (PatternFlag × Bool)) : PatternFlags :=
  changes.foldl set f

def fold (f : PatternFlags) (s : CharSet) : CharSet := if f.anyCase then .anyCase s else s

end PatternFlags

/-! ## Trees -/

structure Literal where
  extent : Extent
  char : Char
  /-- Whether it is written as an octet, with two hexadecimal digits. -/
  octet : Bool := false
deriving DecidableEq, Repr

inductive SetOperation where
  | inter
  | without
  | oneOf
deriving DecidableEq, Repr

def SetOperation.apply : SetOperation → CharSet → CharSet → CharSet
  | .inter, s, t => .inter s t
  | .without, s, t => .inter s (.complement t)
  | .oneOf, s, t => .union (.inter s (.complement t)) (.inter t (.complement s))

inductive WrittenSet where
  | none (extent : Extent)
  | char (l : Literal)
  | range (extent : Extent) (low high : Literal)
  /-- By a name, in brackets and colons. -/
  | named (extent : Extent) (negated : Bool) (s : CharSet)
  /-- By a letter after a backslash. -/
  | shorthand (extent : Extent) (negated : Bool) (s : CharSet)
  /-- By a property of characters, none of which is known. -/
  | property (extent : Extent) (fault : PatternFault)
  | brackets (extent : Extent) (negated : Bool) (inner : WrittenSet)
  | union (extent : Extent) (items : List WrittenSet)
  | operation (extent : Extent) (op : SetOperation) (s t : WrittenSet)
deriving Repr

inductive WrittenEdge where
  | lineStart
  | lineEnd
  | textStart
  | textEnd
  | word
  | noWord
  | wordStart
  | wordEnd
  | notInWordBefore
  | notInWordAfter
deriving DecidableEq, Repr

inductive Written where
  | empty (extent : Extent)
  | flags (extent : Extent) (changes : List (PatternFlag × Bool))
  | char (l : Literal)
  | anyChar (extent : Extent)
  | edge (extent : Extent) (e : WrittenEdge)
  | set (s : WrittenSet)
  | repeated (extent : Extent) (p : Written) (least : Nat) (most : Option Nat)
  /-- A group is kept if what it fits could be asked for, which costs a little. -/
  | group (extent : Extent) (kept : Bool) (changes : List (PatternFlag × Bool)) (p : Written)
  | choice (extent : Extent) (ps : List Written)
  | sequence (extent : Extent) (ps : List Written)
deriving Repr

def WrittenSet.extent : WrittenSet → Extent
  | .none e => e
  | .char l => l.extent
  | .range e .. => e
  | .named e .. => e
  | .shorthand e .. => e
  | .property e _ => e
  | .brackets e .. => e
  | .union e _ => e
  | .operation e .. => e

def Written.extent : Written → Extent
  | .empty e => e
  | .flags e _ => e
  | .char l => l.extent
  | .anyChar e => e
  | .edge e _ => e
  | .set s => s.extent
  | .repeated e .. => e
  | .group e .. => e
  | .choice e _ => e
  | .sequence e _ => e

/-! ## Depth -/

def enterLevel (depth : Nat) (e : Extent) : Except PatternError Nat :=
  if depth < maxPatternDepth then .ok (depth + 1) else .error (.wrong .tooDeep e none)

mutual

def WrittenSet.check (depth : Nat) : WrittenSet → Except PatternError Unit
  | .brackets e _ inner => do inner.check (← enterLevel depth e)
  | .union e items => do checkSets (← enterLevel depth e) items
  | .operation e _ s t => do
    let depth ← enterLevel depth e
    s.check depth
    t.check depth
  | _ => .ok ()

def checkSets (depth : Nat) : List WrittenSet → Except PatternError Unit
  | [] => .ok ()
  | s :: rest => do
    s.check depth
    checkSets depth rest

end

mutual

/-- Refuses a tree that goes deeper than is allowed. -/
def Written.check (depth : Nat) : Written → Except PatternError Unit
  | .set s => s.check depth
  | .repeated e p _ _ => do p.check (← enterLevel depth e)
  | .group e _ _ p => do p.check (← enterLevel depth e)
  | .choice e ps => do checkAll (← enterLevel depth e) ps
  | .sequence e ps => do checkAll (← enterLevel depth e) ps
  | _ => .ok ()

def checkAll (depth : Nat) : List Written → Except PatternError Unit
  | [] => .ok ()
  | p :: rest => do
    p.check depth
    checkAll depth rest

end

/-! ## Meaning -/

def refuse {α : Type} (fault : PatternFault) (e : Extent) : Except PatternError α :=
  .error (.wrong fault e none)

namespace Literal

def meaning (l : Literal) (f : PatternFlags) : Except PatternError CharSet :=
  if f.allScripts then
    if f.anyCase then refuse .casesUnknown l.extent else .ok (.single l.char)
  else if l.octet && 0x80 ≤ l.char.toNat then refuse .notText l.extent
  else .ok (f.fold (.single l.char))

def item (l : Literal) (f : PatternFlags) : Except PatternError Char :=
  if f.allScripts || l.char.toNat < 0x80 then .ok l.char
  else refuse (if l.octet then .notText else .notAscii) l.extent

end Literal

mutual

/-- Whether a set has characters of its own, beside those in brackets and operations. -/
def WrittenSet.hasChars : WrittenSet → Bool
  | .char _ => true
  | .range .. => true
  | .union _ items => anyHasChars items
  | _ => false

def anyHasChars : List WrittenSet → Bool
  | [] => false
  | s :: rest => s.hasChars || anyHasChars rest

end

def WrittenSet.checkCases (s : WrittenSet) (f : PatternFlags) (e : Extent) :
    Except PatternError Unit :=
  if f.allScripts && f.anyCase && s.hasChars then refuse .casesUnknown e else .ok ()

/-- A set or its complement, which without all scripts would hold octets that are no characters. -/
def PatternFlags.negate (f : PatternFlags) (e : Extent) (negated : Bool) (s : CharSet) :
    Except PatternError CharSet :=
  if !negated then .ok s
  else if f.allScripts then .ok (.complement s)
  else refuse .notText e

mutual

def WrittenSet.meaning (f : PatternFlags) : WrittenSet → Except PatternError CharSet
  | .none _ => .ok .none
  | .char l => do return f.fold (.single (← l.item f))
  | .range _ low high => do return f.fold (.range (← low.item f) (← high.item f))
  | .named e negated s =>
    if f.allScripts && f.anyCase then refuse .casesUnknown e else f.negate e negated (f.fold s)
  | .shorthand e negated s =>
    if f.allScripts then refuse .shorthandUnknown e else f.negate e negated s
  | .property e fault => refuse (if f.allScripts then fault else .notAscii) e
  | .brackets e negated inner => do
    let s ← inner.meaning f
    inner.checkCases f e
    f.negate e negated s
  | .union _ items => meaningOfItems f items
  | .operation _ op s t => do
    let low ← s.meaning f
    let high ← t.meaning f
    t.checkCases f t.extent
    s.checkCases f s.extent
    return op.apply low high

def meaningOfItems (f : PatternFlags) : List WrittenSet → Except PatternError CharSet
  | [] => .ok .none
  | s :: rest => do
    let s ← s.meaning f
    return .union s (← meaningOfItems f rest)

end

def PatternFlags.anyChar (f : PatternFlags) : CharSet :=
  if f.allChars then .all
  else if f.returns then .complement (.union (.single '\n') (.single '\r'))
  else .complement (.single '\n')

def WrittenEdge.meaning (f : PatternFlags) : WrittenEdge → Edge
  | .lineStart =>
    if !f.lines then .textStart else if f.returns then .anyLineStart else .lineStart
  | .lineEnd => if !f.lines then .textEnd else if f.returns then .anyLineEnd else .lineEnd
  | .textStart => .textStart
  | .textEnd => .textEnd
  | .word => if f.allScripts then .unknown else .word
  | .noWord => if f.allScripts then .unknown else .noWord
  | .wordStart => if f.allScripts then .unknown else .wordStart
  | .wordEnd => if f.allScripts then .unknown else .wordEnd
  | .notInWordBefore => if f.allScripts then .unknown else .notInWordBefore
  | .notInWordAfter => if f.allScripts then .unknown else .notInWordAfter

/-- A pattern, and about how many bytes it takes up when it is made ready. The figure is close for
ASCII, and for sets of most characters; it only has to tell whether a pattern is far too large. -/
structure PatternPart where
  pattern : Pattern
  weight : Nat

namespace PatternPart

def step (p : Pattern) : PatternPart := ⟨p, 32⟩

/-- A single character takes a step for each of its octets. -/
def char (c : Char) (s : CharSet) : PatternPart := ⟨.one s, 32 * c.utf8Size⟩

def set (s : CharSet) : PatternPart :=
  let ranges := s.asciiRanges
  let weight :=
    if s.reachesBeyond then 928 + 36 * ranges
    else if s.asciiMembers.length = 1 then 32
    else 64 + 8 * ranges
  ⟨.one s, weight⟩

def followedBy (p q : PatternPart) : PatternPart :=
  ⟨p.pattern.followedBy q.pattern, p.weight + q.weight⟩

/-- One part or another. A choice between characters is a set. -/
def either (p q : PatternPart) : PatternPart :=
  match p.pattern, q.pattern with
  | .one s, .one t => set (.union s t)
  | p', q' => ⟨p'.either q', p.weight + q.weight + 68⟩

def times (p : PatternPart) (least : Nat) (most : Option Nat) : PatternPart :=
  let repeated := p.pattern.times least most
  let weight := match repeated, most with
    | .repeated _ least none, _ => p.weight * max least 1 + 40
    | .repeated _ least (some most), _ => p.weight * most + 40 * (most - least)
    | _, _ => p.weight
  ⟨repeated, weight⟩

/-- A group that is kept marks its start and its end. -/
def keep (p : PatternPart) (kept : Bool) : PatternPart :=
  ⟨p.pattern, p.weight + if kept then 64 else 0⟩

end PatternPart

mutual

/-- The part that is meant, and the flags that hold after it. -/
def Written.meaning (f : PatternFlags) :
    Written → Except PatternError (PatternPart × PatternFlags)
  | .empty _ => .ok (.step .empty, f)
  | .flags _ changes => .ok (.step .empty, f.change changes)
  | .char l => do return (.char l.char (← l.meaning f), f)
  | .anyChar e => if f.allScripts then .ok (.set f.anyChar, f) else refuse .notText e
  | .edge _ e => .ok (.step (.edge (e.meaning f)), f)
  | .set s => do return (.set (← s.meaning f), f)
  | .repeated _ p least most => do
    let (p, f) ← p.meaning f
    return (p.times least most, f)
  | .group _ kept changes p => do
    let (p, _) ← p.meaning (f.change changes)
    return (p.keep kept, f)
  | .choice _ ps => meaningOfChoice f ps
  | .sequence _ ps => meaningOfSequence f ps

def meaningOfChoice (f : PatternFlags) :
    List Written → Except PatternError (PatternPart × PatternFlags)
  | [] => .ok (.step .nothing, f)
  | [p] => p.meaning f
  | p :: rest => do
    let (p, f) ← p.meaning f
    let (q, f) ← meaningOfChoice f rest
    return (p.either q, f)

def meaningOfSequence (f : PatternFlags) :
    List Written → Except PatternError (PatternPart × PatternFlags)
  | [] => .ok (.step .empty, f)
  | [p] => p.meaning f
  | p :: rest => do
    let (p, f) ← p.meaning f
    let (q, f) ← meaningOfSequence f rest
    return (p.followedBy q, f)

end

def Written.toPattern (w : Written) : Except PatternError Pattern := do
  w.check 0
  let (p, _) ← w.meaning {}
  if maxPatternBytes < p.weight then throw .tooLarge
  if !p.pattern.isKnown then throw .unknown
  return p.pattern

end ContractLex.Text
