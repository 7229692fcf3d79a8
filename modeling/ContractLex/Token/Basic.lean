import ContractLex.Token.Kind
import ContractLex.Span

/-!
# Tokens

A token is a kind, a decoded text and a place. The text of a character or string literal has its
escapes resolved and its quotes removed; every other token keeps its source spelling. `Tally` counts
tokens by group.
-/

namespace ContractLex

/-- A classified piece of a fed text: characters `start` (included) to `stop` (excluded) of the
text that was fed as `line`. -/
structure Token where
  kind : Kind
  text : String
  line : Nat
  start : Nat
  stop : Nat
deriving DecidableEq, Repr

namespace Token

def position (t : Token) : Position := ⟨t.line, t.start⟩

def span (t : Token) : Except SpanError Span := Span.onLine t.line t.start t.stop

/-- `KIND | text`, the line a plain dump has for the token. -/
def render (t : Token) : String := t.kind.wire ++ " | " ++ t.text

end Token

structure Tally where
  total : Nat := 0
  literals : Nat := 0
  keywords : Nat := 0
  operators : Nat := 0
  delimiters : Nat := 0
  identifiers : Nat := 0
  unknown : Nat := 0
deriving DecidableEq, Repr

namespace Tally

/-- Counts one more token of kind `k`. A blank counts in the total only. -/
def add (n : Tally) (k : Kind) : Tally :=
  let n := { n with total := n.total + 1 }
  match k.group with
  | .literal => { n with literals := n.literals + 1 }
  | .keyword => { n with keywords := n.keywords + 1 }
  | .operator => { n with operators := n.operators + 1 }
  | .delimiter => { n with delimiters := n.delimiters + 1 }
  | .identifier => { n with identifiers := n.identifiers + 1 }
  | .unknown => { n with unknown := n.unknown + 1 }
  | .blank => n

def ofTokens (ts : List Token) : Tally :=
  ts.foldl (fun n t => n.add t.kind) {}

theorem total_add (n : Tally) (k : Kind) : (n.add k).total = n.total + 1 := by
  unfold add
  cases k.group <;> rfl

theorem ofTokens_concat (ts : List Token) (t : Token) :
    ofTokens (ts ++ [t]) = (ofTokens ts).add t.kind := by
  simp [ofTokens]

theorem total_ofTokens (ts : List Token) : (ofTokens ts).total = ts.length := by
  suffices h : ∀ n : Tally, (ts.foldl (fun n t => n.add t.kind) n).total = n.total + ts.length by
    simpa [ofTokens] using h {}
  induction ts with
  | nil => simp
  | cons t ts ih => intro n; simp [ih, total_add]; omega

end Tally

end ContractLex
