import ContractLex.Text.Blank

/-!
# Patterns

A pattern describes texts by single characters, places between characters, sequence, choice and
repetition. `Pattern.occursIn` says whether it fits some part of a text. It reads the text once:
what a pattern still asks for after a character is a pattern again, `Pattern.rest`, and whether it
asks for nothing more at a place is `Pattern.isDone`.

A sequence or a choice is put together by `Pattern.followedBy` and `Pattern.either`, which leave out
what can make no difference, so that a pattern stays small while a text is read;
`isDone_followedBy` and `isDone_either` say that they are done where `seq` and `alt` are.
-/

namespace ContractLex.Text

/-! ## Sets of characters -/

inductive CharSet where
  | none
  | range (low high : Char)
  | union (s t : CharSet)
  | inter (s t : CharSet)
  | complement (s : CharSet)
  /-- With each letter from `a` to `z` also its other case. -/
  | anyCase (s : CharSet)
deriving DecidableEq, Repr

namespace CharSet

def contains : CharSet → Char → Bool
  | .none, _ => false
  | .range low high, c => low ≤ c && c ≤ high
  | .union s t, c => s.contains c || t.contains c
  | .inter s t, c => s.contains c && t.contains c
  | .complement s, c => !s.contains c
  | .anyCase s, c => s.contains c.toLower || s.contains c.toUpper

def single (c : Char) : CharSet := .range c c

def ofRanges (ranges : List (Char × Char)) : CharSet :=
  ranges.foldr (fun (low, high) s => .union (.range low high) s) .none

def wordChars : CharSet := ofRanges [('a', 'z'), ('A', 'Z'), ('0', '9'), ('_', '_')]

def all : CharSet := .complement .none

/-- Whether a set may have characters beyond ASCII. -/
def reachesBeyond : CharSet → Bool
  | .none => false
  | .range _ high => 0x80 ≤ high.toNat
  | .union s t => s.reachesBeyond || t.reachesBeyond
  | .inter s t => s.reachesBeyond && t.reachesBeyond
  | .complement _ => true
  | .anyCase s => s.reachesBeyond

def asciiMembers (s : CharSet) : List Char :=
  ((List.range 0x80).map Char.ofNat).filter s.contains

/-- How many ranges the ASCII characters of a set make up. -/
def asciiRanges (s : CharSet) : Nat :=
  (s.asciiMembers.filter fun c => c.toNat = 0 || !s.contains (Char.ofNat (c.toNat - 1))).length

end CharSet

/-! ## Places -/

/-- A place in a text: the characters around it. -/
structure Place where
  before : Option Char
  after : Option Char
deriving DecidableEq, Repr

/-- What a pattern can ask of a place. -/
inductive Edge where
  | textStart
  | textEnd
  | lineStart
  | lineEnd
  /-- The start or end of a line where a carriage return is a line break too, alone or before a line
  feed. -/
  | anyLineStart
  | anyLineEnd
  | word
  | noWord
  | wordStart
  | wordEnd
  | notInWordBefore
  | notInWordAfter
  /-- As to words of all scripts, which are not known. -/
  | unknown
deriving DecidableEq, Repr

namespace Place

def wordBefore (p : Place) : Bool := p.before.any CharSet.wordChars.contains

def wordAfter (p : Place) : Bool := p.after.any CharSet.wordChars.contains

def isAt (p : Place) : Edge → Bool
  | .textStart => p.before.isNone
  | .textEnd => p.after.isNone
  | .lineStart => p.before.isNone || p.before == some '\n'
  | .lineEnd => p.after.isNone || p.after == some '\n'
  | .anyLineStart =>
    p.before.isNone || p.before == some '\n' || (p.before == some '\r' && p.after != some '\n')
  | .anyLineEnd =>
    p.after.isNone || p.after == some '\r' || (p.after == some '\n' && p.before != some '\r')
  | .word => p.wordBefore != p.wordAfter
  | .noWord => p.wordBefore == p.wordAfter
  | .wordStart => !p.wordBefore && p.wordAfter
  | .wordEnd => p.wordBefore && !p.wordAfter
  | .notInWordBefore => !p.wordBefore
  | .notInWordAfter => !p.wordAfter
  | .unknown => false

end Place

/-! ## Patterns -/

inductive Pattern where
  | nothing
  | empty
  | edge (e : Edge)
  | one (s : CharSet)
  | seq (p q : Pattern)
  | alt (p q : Pattern)
  /-- At least `least` in a row, and at most `most` if there is a bound. -/
  | repeated (p : Pattern) (least : Nat) (most : Option Nat)
deriving DecidableEq, Repr

namespace Pattern

def followedBy (p q : Pattern) : Pattern :=
  if p = .nothing ∨ q = .nothing then .nothing
  else if p = .empty then q
  else if q = .empty then p
  else .seq p q

def isBranchOf (p : Pattern) : Pattern → Bool
  | .alt q r => p.isBranchOf q || p.isBranchOf r
  | q => p = q

def either : Pattern → Pattern → Pattern
  | .nothing, r => r
  | .alt p q, r => p.either (q.either r)
  | p, r => if r = .nothing then p else if p.isBranchOf r then r else .alt p r

/-- Whether the pattern can fit the empty text at most. -/
def isEmptyOnly : Pattern → Bool
  | .empty => true
  | .edge _ => true
  | .seq p q => p.isEmptyOnly && q.isEmptyOnly
  | .alt p q => p.isEmptyOnly && q.isEmptyOnly
  | .repeated p _ most => most == some 0 || p.isEmptyOnly
  | _ => false

/-- So many in a row. What fits the empty text at most need not be repeated. -/
def times (p : Pattern) (least : Nat) (most : Option Nat) : Pattern :=
  if p.isEmptyOnly then .repeated p (min least 1) (some (min (most.getD 1) 1))
  else .repeated p least most

/-- Whether the pattern asks for nothing that is unknown. What is repeated no times is not asked
for. -/
def isKnown : Pattern → Bool
  | .edge e => e != .unknown
  | .seq p q => p.isKnown && q.isKnown
  | .alt p q => p.isKnown && q.isKnown
  | .repeated p _ most => most == some 0 || p.isKnown
  | _ => true

/-! ## Fitting a text -/

/-- Whether the pattern fits the empty text at a place. -/
def isDone (x : Place) : Pattern → Bool
  | .nothing => false
  | .empty => true
  | .edge e => x.isAt e
  | .one _ => false
  | .seq p q => p.isDone x && q.isDone x
  | .alt p q => p.isDone x || q.isDone x
  | .repeated p least _ => least == 0 || p.isDone x

/-- What the pattern still asks for after a character; `before` is the one before that. If what is
repeated fits the empty text in front of the character, any number of repetitions may be over. -/
def rest (before : Option Char) (c : Char) : Pattern → Pattern
  | .nothing => .nothing
  | .empty => .nothing
  | .edge _ => .nothing
  | .one s => if s.contains c then .empty else .nothing
  | .seq p q =>
    let first := (p.rest before c).followedBy q
    if p.isDone ⟨before, some c⟩ then first.either (q.rest before c) else first
  | .alt p q => (p.rest before c).either (q.rest before c)
  | .repeated p least most =>
    if most = some 0 then .nothing
    else
      let least := if p.isDone ⟨before, some c⟩ then 0 else least - 1
      (p.rest before c).followedBy (.repeated p least (most.map (· - 1)))

/-- Whether the pattern fits some part of the text from here on, where `left` is what it still asks
for where it has begun to fit. -/
def occursFrom (p left : Pattern) (before : Option Char) : List Char → Bool
  | [] => (left.either p).isDone ⟨before, none⟩
  | c :: cs =>
    let left := left.either p
    left.isDone ⟨before, some c⟩ || occursFrom p (left.rest before c) (some c) cs

def occursIn (p : Pattern) (text : String) : Bool := p.occursFrom .nothing none text.toList

/-! ## Putting patterns together -/

theorem isDone_followedBy (x : Place) (p q : Pattern) :
    (p.followedBy q).isDone x = (p.isDone x && q.isDone x) := by
  unfold followedBy
  split
  · next h => rcases h with rfl | rfl <;> simp [isDone]
  · split
    · next h => simp [h, isDone]
    · split
      · next h => simp [h, isDone]
      · rfl

theorem isDone_of_isBranchOf {x : Place} {p r : Pattern} (h : p.isBranchOf r = true)
    (hp : p.isDone x = true) : r.isDone x = true := by
  induction r with
  | alt q s ihq ihs =>
    rcases Bool.or_eq_true_iff.1 h with h | h
    · simp [isDone, ihq h]
    · simp [isDone, ihs h]
  | nothing | empty | edge | one | seq | repeated => exact of_decide_eq_true h ▸ hp

theorem isDone_either (x : Place) (p r : Pattern) :
    (p.either r).isDone x = (p.isDone x || r.isDone x) := by
  fun_induction either p r with
  | case1 => simp [isDone]
  | case2 p q r ihq ihp => simp [ihp, ihq, isDone, Bool.or_assoc]
  | case3 => simp [isDone]
  | case4 p r _ _ _ h =>
    cases hp : p.isDone x with
    | false => rfl
    | true => simp [isDone_of_isBranchOf h hp]
  | case5 => rfl

end Pattern

end ContractLex.Text
