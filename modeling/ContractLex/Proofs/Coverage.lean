import ContractLex.Proofs.Session

/-!
# Tokens cover their text

Every token of a text lies inside it, tokens neither overlap nor change places, and what stands
between them is blank or comment. `Covers` says this from one offset on, token by token; that a
tiling of the text covers it is proved by induction on the tiling (`Tiles.covers`), where the gap
before the next token grows with every blank and comment. `feed_covers` is the result for a call.
-/

namespace ContractLex

open Spelling

/-! ## Gaps -/

/-- A blank or a complete comment. -/
def IsFiller (w : List Char) : Prop :=
  (∃ c ∈ [' ', '\t', '\n', '\r'], w = [c]) ∨ IsComment w

/-- A concatenation of blanks and complete comments. -/
def IsGap (w : List Char) : Prop :=
  ∃ parts : List (List Char), (∀ v ∈ parts, IsFiller v) ∧ w = parts.flatten

/-- What may stand after the last token: a gap, and perhaps a line comment which the end of the text
cuts, or a block comment which is still open, if comments are carried. -/
def IsLastGap (carry : Bool) (w : List Char) : Prop :=
  ∃ v rest, IsGap v ∧ w = v ++ rest
    ∧ (rest = [] ∨ (∃ body, '\n' ∉ body ∧ rest = '/' :: '/' :: body)
      ∨ carry = true ∧ ∃ body, IsOpen body ∧ rest = '/' :: '*' :: body)

theorem isGap_nil : IsGap [] := ⟨[], List.forall_mem_nil _, rfl⟩

theorem IsGap.append {v w : List Char} (h : IsGap v) (hw : IsFiller w) : IsGap (v ++ w) := by
  obtain ⟨parts, hparts, rfl⟩ := h
  refine ⟨parts ++ [w], fun u hu => ?_, by simp⟩
  rcases List.mem_append.mp hu with hm | hm
  · exact hparts u hm
  · exact List.mem_singleton.mp hm ▸ hw

theorem isFiller_of_blank {c : Char} {b : Blank} (h : delimiter? c = some (.blank b)) :
    IsFiller [c] := by
  refine Or.inl ⟨c, ?_, rfl⟩
  unfold delimiter? at h
  split at h <;> first | decide | cases h

/-! ## Covering -/

/-- The tokens and the gaps between them, from offset `i` to the end of the text. -/
def Covers (carry : Bool) (text : List Char) (line : Nat) : Nat → List Token → Prop
  | i, [] => IsLastGap carry (text.drop i)
  | i, t :: ts =>
      (i ≤ t.start ∧ t.start < t.stop ∧ t.stop ≤ text.length)
        ∧ (t.line = line ∧ ∀ b, t.kind ≠ .blank b)
        ∧ IsGap (stretch text i t.start)
        ∧ Covers carry text line t.stop ts

/-- The gaps alone: before the first token, between two tokens, and after the last. -/
def Gaps (carry : Bool) (text : List Char) : Nat → List Token → Prop
  | i, [] => IsLastGap carry (text.drop i)
  | i, t :: ts => IsGap (stretch text i t.start) ∧ Gaps carry text t.stop ts

section Covers

variable {carry : Bool} {text : List Char} {line i j : Nat} {fs : List Finding} {ts us : List Token}

theorem Covers.forall (h : Covers carry text line i ts) :
    ∀ t ∈ ts, t.line = line ∧ t.start < t.stop ∧ t.stop ≤ text.length
      ∧ ∀ b, t.kind ≠ .blank b := by
  induction ts generalizing i with
  | nil => exact List.forall_mem_nil _
  | cons t ts ih =>
      obtain ⟨⟨-, hlt, hle⟩, ⟨hline, hkind⟩, -, hrest⟩ := h
      intro u hu
      rcases List.mem_cons.mp hu with rfl | hu
      · exact ⟨hline, hlt, hle, hkind⟩
      · exact ih hrest u hu

theorem Covers.isChain (h : Covers carry text line i ts) :
    ts.IsChain (fun a b => a.stop ≤ b.start) := by
  induction ts generalizing i with
  | nil => exact .nil
  | cons t ts ih =>
      obtain ⟨-, -, -, hrest⟩ := h
      cases ts with
      | nil => exact .singleton t
      | cons u us => exact .cons_cons hrest.1.1 (ih hrest)

theorem Covers.gaps (h : Covers carry text line i ts) : Gaps carry text i ts := by
  induction ts generalizing i with
  | nil => exact h
  | cons t ts ih => exact ⟨h.2.2.1, ih h.2.2.2⟩

/-- A token that follows a gap. -/
theorem covers_token {i₀ : Nat} {t : Token} (hi : i₀ ≤ t.start)
    (hgap : IsGap (stretch text i₀ t.start)) (hlt : t.start < t.stop) (hle : t.stop ≤ text.length)
    (hline : t.line = line) (hkind : t.kind.isEmitted = true)
    (hrest : Covers carry text line t.stop us) : Covers carry text line i₀ (t :: us) := by
  refine ⟨⟨hi, hlt, hle⟩, ⟨hline, fun b hb => ?_⟩, hgap, hrest⟩
  rw [hb] at hkind
  cases hkind

/-- The tokens of a split word touch each other. -/
theorem covers_splitWord {i₀ : Nat} {a b : List Char} (hi : i₀ ≤ i)
    (hgap : IsGap (stretch text i₀ i)) (hj : j ≤ text.length) (hw : i + (a ++ '-' :: b).length = j)
    (ha : a ≠ []) (hrest : Covers carry text line j us) :
    Covers carry text line i₀ (splitWord line i a b ++ us) := by
  have hpos := List.length_pos_iff.mpr ha
  simp only [List.length_append, List.length_cons] at hw
  have hempty : ∀ k, IsGap (stretch text k k) := fun k => by
    rw [stretch_self]
    exact isGap_nil
  refine covers_token hi hgap (by simp; omega) (by simp; omega) rfl rfl ?_
  refine covers_token (Nat.le_refl _) (hempty _) (by simp) (by simp; omega) rfl rfl ?_
  by_cases hb : b = []
  · have hstop : i + a.length + 1 = j := by simpa [hb, Nat.add_assoc] using hw
    simpa [hb, hstop] using hrest
  · have hbpos := List.length_pos_iff.mpr hb
    rw [if_neg hb]
    refine covers_token (Nat.le_refl _) (hempty _) (by simp; omega) (by simp; omega) rfl rfl ?_
    have hstop : i + a.length + 1 + b.length = j := by omega
    simpa [hstop] using hrest

theorem Piece.covers (h : Piece text line i fs j) {i₀ : Nat} (hi : i₀ ≤ i)
    (hgap : IsGap (stretch text i₀ i))
    (hrest : ∀ j₀ ≤ j, IsGap (stretch text j₀ j) → Covers carry text line j₀ us) :
    Covers carry text line i₀ (tokensOf fs ++ us) := by
  have hnext : Covers carry text line j us :=
    hrest j (Nat.le_refl j) (by rw [stretch_self]; exact isGap_nil)
  cases h with
  | fault => exact hrest i₀ hi hgap
  | blank hc hb =>
      refine hrest i₀ (Nat.le_succ_of_le hi) ?_
      rw [stretch_concat hi hc]
      exact hgap.append (isFiller_of_blank hb)
  | comment hij _ hcom =>
      refine hrest i₀ (Nat.le_of_lt (Nat.lt_of_le_of_lt hi hij)) ?_
      rw [← stretch_append hi (Nat.le_of_lt hij)]
      exact hgap.append (Or.inr hcom)
  | token hij hj hk _ => exact covers_token hi hgap hij hj rfl hk.isEmitted hnext
  | split hj hw ha _ =>
      rw [tokensOf_map_token]
      exact covers_splitWord hi hgap hj (add_length_of_stretch_eq (by simp) hj hw)
        (isWord_of_isDashPrefix ha).ne_nil hnext

/-- A tiling covers: what comes after it may begin anywhere in the gap that the tiling ends with. -/
theorem Tiles.covers (h : Tiles text line i fs j) :
    ∀ {i₀ : Nat}, i₀ ≤ i → IsGap (stretch text i₀ i) →
      (∀ j₀ ≤ j, IsGap (stretch text j₀ j) → Covers carry text line j₀ us) →
      Covers carry text line i₀ (tokensOf fs ++ us) := by
  induction h with
  | nil => exact fun hi hgap hrest => hrest _ hi hgap
  | cons hp _ ih =>
      intro i₀ hi hgap hrest
      rw [tokensOf_append, List.append_assoc]
      exact hp.covers hi hgap fun j₀ hj₀ hgap₀ => ih hj₀ hgap₀ hrest

theorem isLastGap_of_drop {k : Nat} {rest : List Char} (hi : i ≤ k)
    (hgap : IsGap (stretch text i k))
    (hdrop : text.drop k = rest)
    (hrest : rest = [] ∨ (∃ body, '\n' ∉ body ∧ rest = '/' :: '/' :: body)
      ∨ carry = true ∧ ∃ body, IsOpen body ∧ rest = '/' :: '*' :: body) :
    IsLastGap carry (text.drop i) :=
  ⟨stretch text i k, rest, hgap, by rw [← stretch_append_drop hi, hdrop], hrest⟩

/-- The end of a text that is accepted leaves a last gap. -/
theorem Ends.covers {p : Pending} {start : Nat} {e : Ending} (h : Ends text line carry p start e)
    (hok : e.result = .ok ()) {i₀ : Nat} (hi : i₀ ≤ start) (hgap : IsGap (stretch text i₀ start)) :
    Covers carry text line i₀ (tokensOf e.findings) := by
  cases h with
  | settled htiles =>
      rw [← List.append_nil (tokensOf _)]
      refine htiles.covers hi hgap fun j₀ hj₀ hgap₀ => ?_
      exact isLastGap_of_drop hj₀ hgap₀ (List.drop_length) (Or.inl rfl)
  | cut hbody hdrop =>
      exact isLastGap_of_drop hi hgap hdrop (Or.inr (Or.inl ⟨_, hbody, rfl⟩))
  | carried hcarry _ hopen hdrop =>
      exact isLastGap_of_drop hi hgap hdrop (Or.inr (Or.inr ⟨hcarry, _, hopen, rfl⟩))
  | terminal => cases hok

end Covers

/-! ## A call -/

/-- A call that succeeds from `start` adds tokens that lie in the text one after the other, and with
the gaps between them they make up the whole text. -/
theorem feed_covers {lx : Lexer} (h : lx.Reachable) (hstart : lx.state = .start) (text : String)
    (line : Nat) (hok : (lx.feed text line).2 = .ok ()) :
    ∃ ts, (lx.feed text line).1.tokens.toList = lx.tokens.toList ++ ts
      ∧ (∀ t ∈ ts, t.line = line ∧ t.start < t.stop ∧ t.stop ≤ text.toList.length
        ∧ ∀ b, t.kind ≠ .blank b)
      ∧ ts.IsChain (fun a b => a.stop ≤ b.start)
      ∧ Gaps lx.settings.carryComments text.toList 0 ts := by
  obtain ⟨fs, start, p, e, htiles, hends, heq⟩ := h.reading_ends hstart text line
  rw [Lexer.feed_result, heq] at hok
  have hcovers : Covers lx.settings.carryComments text.toList line 0
      (tokensOf (lx.reading text line).findings) := by
    rw [heq, tokensOf_append]
    refine htiles.covers (Nat.le_refl 0) ?_ fun j₀ hj₀ hgap₀ => hends.covers hok hj₀ hgap₀
    rw [stretch_self]
    exact isGap_nil
  exact ⟨_, lx.feed_tokens text line, hcovers.forall, hcovers.isChain, hcovers.gaps⟩

/-- The second call of a session, over a text with a comment in it. -/
theorem feed_covers_comment :
    (({} : Lexer).run [.feed "x" 1]).Reachable
      ∧ (({} : Lexer).run [.feed "x" 1]).state = .start
      ∧ ((({} : Lexer).run [.feed "x" 1]).feed "a /* b */ = 1;" 2).2 = .ok ()
      ∧ ∃ ts, ((({} : Lexer).run [.feed "x" 1]).feed "a /* b */ = 1;" 2).1.tokens.toList =
          (({} : Lexer).run [.feed "x" 1]).tokens.toList ++ ts
        ∧ (∀ t ∈ ts, t.line = 2 ∧ t.start < t.stop ∧ t.stop ≤ "a /* b */ = 1;".toList.length
          ∧ ∀ b, t.kind ≠ .blank b)
        ∧ ts.IsChain (fun a b => a.stop ≤ b.start)
        ∧ Gaps (({} : Lexer).run [.feed "x" 1]).settings.carryComments
          "a /* b */ = 1;".toList 0 ts :=
  ⟨⟨{}, [.feed "x" 1], rfl⟩, by decide, by decide,
    feed_covers ⟨{}, [.feed "x" 1], rfl⟩ (by decide) _ 2 (by decide)⟩

end ContractLex
