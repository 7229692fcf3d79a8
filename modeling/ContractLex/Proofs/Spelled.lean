import ContractLex.Proofs.Session
import ContractLex.Proofs.Slice

/-!
# Tokens say what they cover

The span of a token slices a word of its class out of the text that was fed, and the text of the
token is that word, decoded if it is a literal in quotes (`Kind.Reads`). Reserved words are no
names, with one exception: what stands after the dash of a word that was cut at its dash is a name
whatever it is spelled like. So a name is spelled like a reserved word only directly after `init` or
`auto` and a minus sign.

`SpelledFrom` follows a list of tokens with the tokens before it in hand, as the exception needs.
-/

namespace ContractLex

open Spelling

/-- The two tokens before `t` are `init` or `auto` and a minus sign, and all three touch. -/
def FollowsDashPrefix (before : List Token) (t : Token) : Prop :=
  ∃ front a m, before = front ++ [a, m]
    ∧ a.kind = .identifier ∧ isDashPrefix a.text = true ∧ m.kind = .operator .minus
    ∧ a.stop = m.start ∧ m.stop = t.start

/-- A token after the tokens `before` covers a word of its kind and carries what the word says. -/
structure Spelled (text : List Char) (before : List Token) (t : Token) : Prop where
  lt : t.start < t.stop
  le : t.stop ≤ text.length
  reads : t.kind.Reads (stretch text t.start t.stop) t.text.toList
  reserved : t.kind = .identifier → IsReserved t.text → FollowsDashPrefix before t

/-- Every token of a list that comes after the tokens `before`. -/
def SpelledFrom (text : List Char) : (before ts : List Token) → Prop
  | _, [] => True
  | before, t :: ts => Spelled text before t ∧ SpelledFrom text (before ++ [t]) ts

section Spelled

variable {text : List Char} {line i j : Nat} {before front back ts us : List Token} {t : Token}
  {fs : List Finding}

theorem SpelledFrom.append (h : SpelledFrom text before ts)
    (h' : SpelledFrom text (before ++ ts) us) : SpelledFrom text before (ts ++ us) := by
  induction ts generalizing before with
  | nil => simpa using h'
  | cons t ts ih => exact ⟨h.1, ih h.2 (by simpa using h')⟩

theorem SpelledFrom.spelled (h : SpelledFrom text before (front ++ t :: back)) :
    Spelled text (before ++ front) t := by
  induction front generalizing before with
  | nil => simpa using h.1
  | cons u front ih => simpa using ih h.2

/-- The tokens of a split word. -/
theorem spelledFrom_splitWord {a b : List Char} (hj : j ≤ text.length)
    (hw : stretch text i j = a ++ '-' :: b) (ha : isDashPrefix (String.ofList a) = true)
    (hb : b = [] ∨ IsWord b) : SpelledFrom text before (splitWord line i a b) := by
  have hend := add_length_of_stretch_eq (by simp) hj hw
  have hword := isWord_of_isDashPrefix ha
  have hpos := List.length_pos_iff.mpr hword.ne_nil
  simp only [List.length_append, List.length_cons] at hend
  have hleft : stretch text i (i + a.length) = a :=
    stretch_middle (a := []) (b := a) (c := '-' :: b) hj (by simpa using hw)
  have hdash : stretch text (i + a.length) (i + a.length + 1) = ['-'] :=
    stretch_middle (a := a) (b := ['-']) (c := b) hj (by simpa using hw)
  refine ⟨⟨by simp; omega, by simp; omega, ?_, ?_⟩, ⟨by simp, by simp; omega, ?_, nofun⟩, ?_⟩
  · simpa [hleft] using (show Kind.identifier.Reads a a from ⟨hword, rfl⟩)
  · exact fun _ hres => absurd hres (not_reserved_of_isDashPrefix ha)
  · rw [hdash]
    exact ⟨by decide, show "-".toList = ['-'] by decide⟩
  · rcases hb with rfl | hb
    · exact trivial
    · rw [if_neg hb.ne_nil]
      have hbpos := List.length_pos_iff.mpr hb.ne_nil
      have hright : stretch text (i + a.length + 1) (i + a.length + 1 + b.length) = b := by
        have := stretch_middle (a := a ++ ['-']) (b := b) (c := []) hj (by simpa using hw)
        simpa [Nat.add_assoc] using this
      refine ⟨⟨by simp; omega, by simp; omega, ?_, fun _ _ => ?_⟩, trivial⟩
      · simpa [hright] using (show Kind.identifier.Reads b b from ⟨hb, rfl⟩)
      · exact ⟨before, _, _, by simp; exact ⟨rfl, rfl⟩, rfl, ha, rfl, rfl, rfl⟩

theorem Piece.spelled (h : Piece text line i fs j) (before : List Token) :
    SpelledFrom text before (tokensOf fs) := by
  cases h with
  | fault | blank | comment => exact trivial
  | token hij hj hk hid =>
      exact ⟨⟨hij, hj, by simpa using hk, fun hkind hres => absurd hres (hid hkind)⟩, trivial⟩
  | split hj hw ha hb =>
      rw [tokensOf_map_token]
      exact spelledFrom_splitWord hj hw ha hb

theorem Tiles.spelled (h : Tiles text line i fs j) :
    ∀ before, SpelledFrom text before (tokensOf fs) := by
  induction h with
  | nil => exact fun _ => trivial
  | cons hp _ ih =>
      intro before
      rw [tokensOf_append]
      exact (hp.spelled before).append (ih _)

theorem Ends.spelled {carry : Bool} {p : Pending} {start : Nat} {e : Ending}
    (h : Ends text line carry p start e) (before : List Token) :
    SpelledFrom text before (tokensOf e.findings) := by
  cases h with
  | settled htiles => exact htiles.spelled before
  | cut | carried | terminal => exact trivial

end Spelled

/-- Within a text, the slice of the span of a token is what the token covers. -/
theorem Token.exists_slice {t : Token} {text : String} (hlt : t.start < t.stop)
    (hle : t.stop ≤ text.toList.length) :
    ∃ s, t.span = .ok s ∧ (text.utf8ByteSize < columnLimit →
      s.slice text = .ok (some (String.ofList (stretch text.toList t.start t.stop)))) := by
  refine ⟨_, Span.onLine_of_le (Nat.le_of_lt hlt), fun hsize => ?_⟩
  rw [Span.slice_eq _ hsize]
  exact congrArg Except.ok (Span.slice?_of_le (Nat.le_of_lt hlt) hle)

/-- The tokens that a call from `start` adds, whether it succeeds or not: each has a span, which
slices a word of the kind of the token out of the text, if the bytes of the text can be counted; and
none that is spelled like a reserved word is a name, unless it follows `init-` or `auto-`. -/
theorem feed_spelled {lx : Lexer} (h : lx.Reachable) (hstart : lx.state = .start) (text : String)
    (line : Nat) :
    ∃ ts, (lx.feed text line).1.tokens.toList = lx.tokens.toList ++ ts
      ∧ ∀ before t after, ts = before ++ t :: after →
        (∃ s, t.span = .ok s ∧ (text.utf8ByteSize < columnLimit →
          s.slice text = .ok (some (String.ofList (stretch text.toList t.start t.stop)))))
        ∧ t.kind.Reads (stretch text.toList t.start t.stop) t.text.toList
        ∧ (t.kind = .identifier → IsReserved t.text → FollowsDashPrefix before t) := by
  obtain ⟨fs, start, p, e, htiles, hends, heq⟩ := h.reading_ends hstart text line
  refine ⟨_, lx.feed_tokens text line, fun before t after hsplit => ?_⟩
  have hall : SpelledFrom text.toList [] (tokensOf (lx.reading text line).findings) := by
    rw [heq, tokensOf_append]
    exact (htiles.spelled []).append (hends.spelled _)
  rw [hsplit] at hall
  obtain ⟨hlt, hle, hreads, hreserved⟩ := hall.spelled
  exact ⟨Token.exists_slice hlt hle, hreads, hreserved⟩

/-- A call that fails at an open string, after a name that is spelled like a keyword. -/
theorem feed_spelled_open :
    ({} : Lexer).Reachable ∧ ({} : Lexer).state = .start
      ∧ ∃ ts, (({} : Lexer).feed "init-let \"" 3).1.tokens.toList = ({} : Lexer).tokens.toList ++ ts
        ∧ ∀ before t after, ts = before ++ t :: after →
          (∃ s, t.span = .ok s
            ∧ s.slice "init-let \"" =
              .ok (some (String.ofList (stretch "init-let \"".toList t.start t.stop))))
          ∧ t.kind.Reads (stretch "init-let \"".toList t.start t.stop) t.text.toList
          ∧ (t.kind = .identifier → IsReserved t.text → FollowsDashPrefix before t) := by
  have hsize : "init-let \"".utf8ByteSize < columnLimit := by decide
  have hfresh : ({} : Lexer).Reachable := ⟨{}, [], rfl⟩
  obtain ⟨ts, hts, hall⟩ := feed_spelled hfresh rfl "init-let \"" 3
  refine ⟨hfresh, rfl, ts, hts, fun before t after hsplit => ?_⟩
  obtain ⟨⟨s, hspan, hslice⟩, hrest⟩ := hall before t after hsplit
  exact ⟨⟨s, hspan, hslice hsize⟩, hrest⟩

end ContractLex
