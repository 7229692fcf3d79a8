import ContractLex.Proofs.Session
import Mathlib.Algebra.GroupWithZero.Nat

/-!
# Nothing breaks

What a reading reports is bounded by the text: a character makes at most one fault, and every token
and every comment takes a character of its own (`Tiles.count`, `trace_diagnostics`,
`reading_bounded`). So after calls that cost `b` calls and characters, every count of a lexer is at
most `b`, and every column that it holds lies within `b` (`Lexer.Within`): each call preserves this,
with its own cost added. Below the size of the machine's integers nothing overflows, every span can
be built, and a call fails in no other way than by a literal or comment that is still open at the
end of its text (`call_unbroken`).
-/

namespace ContractLex

open Spelling

/-! ## One fault for each character -/

section Faults

variable {text : List Char} {line i start : Nat} {c : Char} {s : Site} {p q : Pending} {m : Move}
  {n : Nat} {fs : List Finding}

/-- Once skipping has begun, a character makes no fault. -/
theorem Passage.diagnosticsOf_skipping (h : Passage s c p n fs q)
    (hst : p.state = .invalid ∨ p.state = .delimiter) : diagnosticsOf fs = [] := by
  induction h with
  | @use p hused =>
      rcases hst with hst | hst
      · simp only [dispatch, hst, onInvalid]
        split <;> rfl
      · simp only [dispatch, hst, onDelimiter, Pending.closeWith]
        split
        · split <;> rfl
        · rfl
  | @handOn p n fs q hused _ ih =>
      rcases hst with hst | hst
      · have hnext : (dispatch p s c).pending.state = .delimiter
            ∧ diagnosticsOf (dispatch p s c).findings = [] := by
          revert hused
          simp only [dispatch, hst, onInvalid]
          split
          · exact fun _ => ⟨rfl, rfl⟩
          · exact fun hused => by cases hused
        rw [diagnosticsOf_append, hnext.2, ih (Or.inr hnext.1), List.append_nil]
      · revert hused
        simp only [dispatch, hst, onDelimiter, Pending.closeWith]
        split
        · split <;> exact fun hused => by cases hused
        · exact fun hused => by cases hused

/-- A dispatch makes at most one fault, and after a fault the character is used or skipped. -/
theorem Outcome.diagnosticsOf_le (h : Outcome text line i c p start m) :
    diagnosticsOf m.findings = []
      ∨ (diagnosticsOf m.findings).length = 1 ∧ (m.used = true ∨ m.pending.state = .invalid) := by
  cases h with
  | blank | goOn | pass | close | closeBefore | comment | skip => exact Or.inl rfl
  | split => exact Or.inl (diagnosticsOf_map_token _)
  | lineBreak => exact Or.inr ⟨rfl, Or.inl rfl⟩
  | reject => exact Or.inr ⟨rfl, Or.inr rfl⟩

theorem Passage.diagnosticsOf_le (h : Passage ⟨text.toArray, line, i⟩ c p n fs q) :
    ∀ {start : Nat}, p.Stands text line i (some c) start → (diagnosticsOf fs).length ≤ 1 := by
  induction h with
  | use hused =>
      intro start h
      rcases (dispatch_outcome h).diagnosticsOf_le with heq | ⟨heq, -⟩ <;> simp [heq]
  | handOn hused hpass ih =>
      intro start h
      obtain ⟨start', -, hstands⟩ := (dispatch_outcome h).advance h
      rw [hused] at hstands
      rcases (dispatch_outcome h).diagnosticsOf_le with heq | ⟨heq, hlast⟩
      · simpa [heq] using ih hstands
      · rcases hlast with hlast | hlast
        · rw [hused] at hlast
          cases hlast
        · simp [heq, hpass.diagnosticsOf_skipping (Or.inl hlast)]

theorem step_diagnostics (h : p.Stands text line i none start) (hc : text[i]? = some c) :
    (diagnosticsOf (step ⟨text.toArray, line, i⟩ p c).findings).length ≤ 1 := by
  obtain ⟨n, -, fs, q, hpass, hstep⟩ := exists_step ⟨text.toArray, line, i⟩ c p
  rw [hstep]
  by_cases hfull : p.isFull = true
  · have hentry : p.entry.state = .invalid := by simp [Pending.entry, hfull, Pending.goto]
    simp [Move.use, Pending.overflow, hfull, Pending.fault,
      hpass.diagnosticsOf_skipping (Or.inl hentry)]
  · simpa [Move.use, Pending.overflow, hfull] using hpass.diagnosticsOf_le (h.entry hc)

theorem trace_diagnostics (rest : List Char) (h : p.Stands text line i none start)
    (hpre : rest <+: text.drop i) :
    (diagnosticsOf (trace text line i p rest).2).length ≤ rest.length := by
  have hinv := trace_induction text line
    (I := fun j q fs => (∃ start, q.Stands text line j none start)
      ∧ (diagnosticsOf fs).length + i ≤ j)
    (fun j q fs c hc ⟨⟨start, hstands⟩, hle⟩ => by
      obtain ⟨start', -, hstands'⟩ := step_tiles hstands hc
      have hone := step_diagnostics hstands hc
      refine ⟨⟨start', hstands'⟩, ?_⟩
      rw [diagnosticsOf_append, List.length_append]
      omega)
    rest i p [] hpre ⟨⟨start, h⟩, by simp⟩
  have hle := hinv.2
  rw [List.nil_append] at hle
  omega

theorem diagnosticsOf_dashed (p : Pending) (s : Site) (stop : Nat) :
    diagnosticsOf (p.dashed s stop) = [] := by
  unfold Pending.dashed
  split
  · rfl
  · dsimp only
    split
    · simp [diagnosticsOf, List.filterMap_map, Function.comp_def, Finding.diagnostic?]
    · rfl

theorem diagnosticsOf_firstOperator (p : Pending) (s : Site) (stop : Nat) :
    diagnosticsOf (p.firstOperator s stop) = [] := by
  unfold Pending.firstOperator
  split <;> rfl

/-- The end of a text makes no fault, or a terminal one, or it cuts a decimal after its period. -/
theorem finish_faults (p : Pending) (s : Site) (carry : Bool) :
    diagnosticsOf (p.finish s carry).findings = []
      ∨ (∃ d, diagnosticsOf (p.finish s carry).findings = [d] ∧ d.kind.isTerminal = true)
      ∨ (p.state = .decimal ∧ p.lexeme.back? = some '.'
        ∧ diagnosticsOf (p.finish s carry).findings =
          [Fault.openDouble.diagnostic s.position]) := by
  cases hst : p.state <;> simp only [Pending.finish, hst]
  case identifierDash => exact Or.inl (diagnosticsOf_dashed _ _ _)
  case operator | beforeEquals | doubling | logical | minus | less | greater | slash =>
      exact Or.inl (diagnosticsOf_firstOperator _ _ _)
  case decimal =>
      split
      · next hback => exact Or.inr (Or.inr ⟨trivial, hback, rfl⟩)
      · exact Or.inl rfl
  case blockComment | blockCommentStar =>
      split
      · exact Or.inl rfl
      · exact Or.inr (Or.inl ⟨_, rfl, rfl⟩)
  case start | delimiter | expectDelimiter | identifier | number | float | leftArrow | lineComment
      | invalid => exact Or.inl rfl
  all_goals exact Or.inr (Or.inl ⟨_, rfl, rfl⟩)

/-- The end of a text makes at most one fault. -/
theorem finish_diagnostics (p : Pending) (s : Site) (carry : Bool) :
    (diagnosticsOf (p.finish s carry).findings).length ≤ 1 := by
  rcases finish_faults p s carry with heq | ⟨d, heq, -⟩ | ⟨-, -, heq⟩
  · rw [heq]
    exact Nat.zero_le 1
  · rw [heq]
    exact Nat.le_refl 1
  · rw [heq]
    exact Nat.le_refl 1

end Faults

/-! ## What a reading reports -/

/-- Findings that lie in a text of `n` characters, and are no malformed operator. -/
def Finding.Within (n : Nat) : Finding → Prop
  | .token t => t.start < t.stop ∧ t.stop ≤ n
  | .fault _ d => d.column ≤ n ∧ d.kind ≠ .malformedOperator
  | .comment => True

section Pieces

variable {text : List Char} {line i j : Nat} {fs : List Finding}

theorem Piece.within (h : Piece text line i fs j) : ∀ f ∈ fs, f.Within text.length := by
  cases h with
  | fault _ hcol _ hkind => simpa [Finding.Within] using ⟨hcol, hkind⟩
  | blank => exact List.forall_mem_nil _
  | comment => simp [Finding.Within]
  | token hij hj => simpa [Finding.Within] using ⟨hij, hj⟩
  | @split j a b hj hw ha hb =>
      have hend := add_length_of_stretch_eq (by simp) hj hw
      have hpos := List.length_pos_iff.mpr (isWord_of_isDashPrefix ha).ne_nil
      simp only [List.length_append, List.length_cons] at hend
      intro f hf
      obtain ⟨t, ht, rfl⟩ := List.mem_map.mp hf
      simp only [splitWord, List.mem_cons] at ht
      rcases ht with rfl | rfl | ht
      · simp only [Finding.Within]
        omega
      · simp only [Finding.Within]
        omega
      · split at ht
        · cases ht
        · next hne =>
          have hbpos := List.length_pos_iff.mpr hne
          obtain rfl := List.mem_singleton.mp ht
          simp only [Finding.Within]
          omega

theorem Tiles.within (h : Tiles text line i fs j) : ∀ f ∈ fs, f.Within text.length := by
  induction h with
  | nil => exact List.forall_mem_nil _
  | cons hp _ ih =>
      intro f hf
      rcases List.mem_append.mp hf with hf | hf
      · exact hp.within f hf
      · exact ih f hf

/-- Every token and every comment takes a character of its own. -/
theorem Piece.count (h : Piece text line i fs j) :
    i + (tokensOf fs).length + commentsOf fs ≤ j := by
  cases h with
  | fault => exact Nat.le_refl i
  | blank => exact Nat.le_succ i
  | comment hij => exact hij
  | token hij => exact hij
  | @split j a b hj hw ha hb =>
      have hend := add_length_of_stretch_eq (by simp) hj hw
      have hpos := List.length_pos_iff.mpr (isWord_of_isDashPrefix ha).ne_nil
      simp only [List.length_append, List.length_cons] at hend
      rw [tokensOf_map_token, commentsOf_map_token]
      by_cases hnil : b = []
      · simp only [splitWord, hnil, if_true, List.length_cons, List.length_nil]
        omega
      · have hbpos := List.length_pos_iff.mpr hnil
        simp only [splitWord, hnil, if_false, List.length_cons, List.length_nil]
        omega

theorem Tiles.count (h : Tiles text line i fs j) :
    i + (tokensOf fs).length + commentsOf fs ≤ j := by
  induction h with
  | nil => exact Nat.le_refl _
  | cons hp _ ih =>
      have hhead := hp.count
      rw [tokensOf_append, commentsOf_append, List.length_append]
      omega

end Pieces

section Ends

variable {text : List Char} {line start : Nat} {carry : Bool} {p : Pending} {e : Ending}

theorem Ends.within (h : Ends text line carry p start e) :
    ∀ f ∈ e.findings, f.Within text.length := by
  cases h with
  | settled htiles => exact htiles.within
  | cut => simp [Finding.Within]
  | carried => exact List.forall_mem_nil _
  | @terminal f hf hlt =>
      have hkind : f.kind ≠ .malformedOperator := fun heq => by
        rw [heq] at hf
        cases hf
      simpa [Finding.Within, Fault.diagnostic] using ⟨Nat.le_of_lt hlt, hkind⟩

theorem Ends.count (h : Ends text line carry p start e) (hle : start ≤ text.length) :
    start + (tokensOf e.findings).length + commentsOf e.findings ≤ text.length := by
  cases h with
  | settled htiles => exact htiles.count
  | cut _ hdrop =>
      have hlt : start < text.length := by
        have hlen := congrArg List.length hdrop
        simp only [List.length_drop, List.length_cons] at hlen
        omega
      exact hlt
  | carried | terminal => exact hle

/-- A text can only fail at its end, where something is still open that must be closed. -/
theorem Ends.result (h : Ends text line carry p start e) :
    e.result = .ok () ∨ ∃ d, e.result = .error (.terminal d) ∧ d.kind.isTerminal = true := by
  cases h with
  | settled | cut | carried => exact Or.inl rfl
  | terminal hf => exact Or.inr ⟨_, rfl, hf⟩

end Ends

/-- The bounds of what is reported for a text of `n` characters. -/
structure Ending.Bounded (n : Nat) (e : Ending) : Prop where
  within : ∀ f ∈ e.findings, f.Within n
  pieces : (tokensOf e.findings).length + commentsOf e.findings ≤ n
  faults : (diagnosticsOf e.findings).length ≤ n + 1
  result : e.result = .ok () ∨ ∃ d, e.result = .error (.terminal d) ∧ d.kind.isTerminal = true

theorem Lexer.reading_bounded {lx : Lexer} {b : Nat} (text : String) (line : Nat)
    (h : lx.pending.Rests lx.settings.carryComments b) :
    (lx.reading text line).Bounded text.toList.length := by
  rcases Lexer.reading_cases text line h with
    ⟨st, -, -, -, heq⟩ | ⟨k, front, hk, hfront, e, he, heq⟩
  · rw [heq]
    exact ⟨List.forall_mem_nil _, Nat.zero_le _, Nat.zero_le _, Or.inl rfl⟩
  · obtain ⟨start, htiles, hstands⟩ := traceFrom_tiles line hk
    have hends := finish_ends lx.settings.carryComments rfl hstands
    have hlast := finish_diagnostics (traceFrom text.toList line k).1
      ⟨text.toList.toArray, line, text.toList.length⟩ lx.settings.carryComments
    have hfaults := trace_diagnostics (text.toList.drop k) (stands_start line hk)
      (List.prefix_refl _)
    rw [← he] at hends hlast
    have hcount := htiles.count
    have hcount' := hends.count hstands.start_le
    have hfrontTokens : tokensOf front = [] := by rcases hfront with rfl | ⟨-, rfl⟩ <;> rfl
    have hfrontFaults : diagnosticsOf front = [] := by rcases hfront with rfl | ⟨-, rfl⟩ <;> rfl
    have hfrontComments : commentsOf front ≤ k := by
      rcases hfront with rfl | ⟨hpos, rfl⟩
      · exact Nat.zero_le k
      · exact hpos
    rw [heq]
    refine ⟨fun f hf => ?_, ?_, ?_, hends.result⟩
    · rcases List.mem_append.mp hf with hf | hf
      · rcases List.mem_append.mp hf with hf | hf
        · rcases hfront with rfl | ⟨-, rfl⟩
          · cases hf
          · obtain rfl := List.mem_singleton.mp hf
            exact trivial
        · exact htiles.within f hf
      · exact hends.within f hf
    · simp only [tokensOf_append, commentsOf_append, List.length_append, hfrontTokens,
        List.length_nil]
      omega
    · rw [List.length_drop] at hfaults
      simp only [diagnosticsOf_append, List.length_append, hfrontFaults, List.length_nil]
      unfold traceFrom
      omega

/-! ## Lexers within a bound -/

def Tally.counts (n : Tally) : List Nat :=
  [n.total, n.literals, n.keywords, n.operators, n.delimiters, n.identifiers, n.unknown]

/-- Every number that a lexer counts up. -/
def Metrics.counts (m : Metrics) : List Nat :=
  m.tokens.counts ++ [m.diagnostics, m.comments, m.lines, m.chars]

theorem Tally.counts_add {n : Tally} {b : Nat} (h : ∀ k ∈ n.counts, k ≤ b) (kind : Kind) :
    ∀ k ∈ (n.add kind).counts, k ≤ b + 1 := by
  simp only [counts, List.forall_mem_cons] at h
  obtain ⟨h1, h2, h3, h4, h5, h6, h7, -⟩ := h
  unfold add
  cases kind.group <;> simp [counts, Nat.le_succ_of_le, *]

theorem Tally.counts_foldl (ts : List Token) :
    ∀ {n : Tally} {b : Nat}, (∀ k ∈ n.counts, k ≤ b) →
      ∀ k ∈ (ts.foldl (fun n t => n.add t.kind) n).counts, k ≤ b + ts.length := by
  induction ts with
  | nil => exact fun h => h
  | cons t ts ih =>
      intro n b h k hk
      have hle := ih (Tally.counts_add h t.kind) k hk
      rw [List.length_cons]
      omega

/-- What a lexer holds after calls and characters whose number is `b`. -/
structure Lexer.Within (b : Nat) (lx : Lexer) : Prop where
  rests : lx.pending.Rests lx.settings.carryComments b
  tokens : ∀ t ∈ lx.tokens.toList, t.start < t.stop ∧ t.stop ≤ b
  diagnostics : ∀ d ∈ lx.diagnostics.toList, d.column < b ∧ d.kind ≠ .malformedOperator
  counts : ∀ n ∈ lx.metrics.counts, n ≤ b

namespace Lexer

variable {lx : Lexer} {b : Nat}

theorem within_fresh (settings : LexicalSettings) : ({ settings } : Lexer).Within 0 where
  rests := Or.inl rfl
  tokens := List.forall_mem_nil _
  diagnostics := List.forall_mem_nil _
  counts := show ∀ n ∈ Metrics.counts {}, n ≤ 0 by decide

theorem Within.mono {b' : Nat} (h : lx.Within b) (hb : b ≤ b') : lx.Within b' where
  rests := h.rests.mono hb
  tokens := fun t ht => ⟨(h.tokens t ht).1, Nat.le_trans (h.tokens t ht).2 hb⟩
  diagnostics := fun d hd =>
    ⟨Nat.lt_of_lt_of_le (h.diagnostics d hd).1 hb, (h.diagnostics d hd).2⟩
  counts := fun n hn => Nat.le_trans (h.counts n hn) hb

theorem Within.feed (h : lx.Within b) (text : String) (line : Nat) :
    (lx.feed text line).1.Within (b + (1 + text.toList.length)) := by
  have hr := reading_bounded text line h.rests
  have hrests : (lx.feed text line).1.pending.Rests
      (lx.feed text line).1.settings.carryComments (b + text.toList.length) := by
    rw [feed_pending, feed_settings]
    exact reading_rests text line h.rests
  refine ⟨hrests.mono (by omega), fun t ht => ?_, fun d hd => ?_, fun n hn => ?_⟩
  · rw [feed_tokens] at ht
    rcases List.mem_append.mp ht with ht | ht
    · have := h.tokens t ht
      omega
    · have hwithin := hr.within _ (mem_tokensOf.mp ht)
      simp only [Finding.Within] at hwithin
      omega
  · rw [feed_diagnostics] at hd
    rcases List.mem_append.mp hd with hd | hd
    · exact ⟨by have := h.diagnostics d hd; omega, (h.diagnostics d hd).2⟩
    · obtain ⟨s, hs⟩ := mem_diagnosticsOf.mp (List.mem_of_mem_take hd)
      have hwithin := hr.within _ hs
      exact ⟨by have := hwithin.1; omega, hwithin.2⟩
  · have hcounts := h.counts
    simp only [Metrics.counts, List.forall_mem_append, List.forall_mem_cons] at hcounts
    obtain ⟨htally, hdiag, hcom, hlines, hchars, -⟩ := hcounts
    have hpieces := hr.pieces
    have hfaults := hr.faults
    rcases List.mem_append.mp hn with hn | hn
    · rw [feed_tally] at hn
      split at hn
      · have := Tally.counts_foldl _ htally n hn
        omega
      · have := htally n hn
        omega
    · simp only [feed_diagnosticCount, feed_comments, feed_lines, feed_chars, List.mem_cons,
        List.not_mem_nil, or_false] at hn
      omega

theorem Within.finish (h : lx.Within b) : lx.finish.1.Within (b + 1) := by
  rcases finish_cases h.rests with heq | ⟨o, -, hlt, heq⟩
  · rw [heq]
    exact h.mono (Nat.le_succ b)
  · have hcounts := h.counts
    simp only [Metrics.counts, List.forall_mem_append, List.forall_mem_cons] at hcounts
    obtain ⟨htally, hdiag, hcom, hlines, hchars, -⟩ := hcounts
    rw [heq]
    refine ⟨Or.inl rfl, fun t ht => ?_, fun d hd => ?_, ?_⟩
    · have := h.tokens t ht
      omega
    · have hcases : d ∈ lx.diagnostics.toList ∨ d = Fault.openComment.diagnostic o := by
        simp only [addDiagnostic] at hd
        split at hd
        · simpa using hd
        · exact Or.inl hd
      rcases hcases with hd | rfl
      · exact ⟨Nat.lt_succ_of_lt (h.diagnostics d hd).1, (h.diagnostics d hd).2⟩
      · exact ⟨Nat.lt_succ_of_lt hlt, fun hk => DiagnosticKind.noConfusion hk⟩
    · simp only [Metrics.counts, addDiagnostic, List.forall_mem_append, List.forall_mem_cons]
      exact ⟨fun n hn => Nat.le_succ_of_le (htally n hn), by omega, by omega, by omega, by omega,
        List.forall_mem_nil _⟩

/-- Each call adds its cost to the bound. -/
theorem Within.call (h : lx.Within b) (c : Call) : (lx.call c).1.Within (b + c.cost) := by
  cases c with
  | feed text line => exact h.feed text line
  | finish => exact h.finish
  | reset =>
      have hfresh := (within_fresh lx.settings).mono (Nat.zero_le (b + 1))
      exact ⟨hfresh.rests, hfresh.tokens, hfresh.diagnostics, hfresh.counts⟩
  | takeTokens =>
      have hmono := h.mono (Nat.le_succ b)
      exact ⟨hmono.rests, List.forall_mem_nil _, hmono.diagnostics, hmono.counts⟩
  | takeTrail =>
      have hmono := h.mono (Nat.le_succ b)
      exact ⟨hmono.rests, hmono.tokens, hmono.diagnostics, hmono.counts⟩

theorem run_within (settings : LexicalSettings) (calls : List Call) :
    (({ settings } : Lexer).run calls).Within (calls.map Call.cost).sum := by
  induction calls using List.reverseRecOn with
  | nil => exact within_fresh settings
  | append_singleton calls c ih =>
      rw [run_concat, List.map_append, List.sum_append, List.map_singleton, List.sum_singleton]
      exact ih.call c

/-! ## Every call -/

/-- What is pending before the character at column `i` of a text that is fed. -/
def pendingAt (lx : Lexer) (text : String) (line i : Nat) : Pending :=
  (scan text.toList.toArray line 0 lx.pending #[] (text.toList.take i)).pending

/-- Nothing breaks inside a call that feeds a text. -/
structure FeedUnbroken (lx : Lexer) (text : String) (line : Nat) : Prop where
  /-- A character is handed on at most three times, and then `step` has used it. -/
  used : ∀ i c, text.toList[i]? = some c →
    ∃ n ≤ 3, ∃ fs q,
      Passage ⟨text.toList.toArray, line, i⟩ c (lx.pendingAt text line i).entry n fs q
      ∧ step ⟨text.toList.toArray, line, i⟩ (lx.pendingAt text line i) c =
        .use q ((lx.pendingAt text line i).overflow ⟨text.toList.toArray, line, i⟩ ++ fs)
  /-- Columns and the length of the lexeme, as it is counted and as it is, fit the machine's
  integers. -/
  fits : ∀ i ≤ text.toList.length,
    i + 1 < columnLimit ∧ (lx.pendingAt text line i).lexeme.size < columnLimit
      ∧ (lx.pendingAt text line i).length < columnLimit
  /-- The call fails only if the end of the text does. -/
  atEnd : (lx.feed text line).2 =
    ((lx.pendingAt text line text.toList.length).finish
      ⟨text.toList.toArray, line, text.toList.length⟩ lx.settings.carryComments).result
  /-- What is reported, kept or not, has a span, and is no malformed operator. -/
  reported : ∀ d ∈ diagnosticsOf (lx.reading text line).findings,
    d.kind ≠ .malformedOperator ∧ ∃ s, Span.single d.position = .ok s

/-- Nothing breaks in a call. -/
structure Unbroken (lx : Lexer) (c : Call) : Prop where
  result : (lx.call c).2 = .ok () ∨ ∃ d, (lx.call c).2 = .error (.terminal d)
    ∧ d.kind ∈ [.unterminatedChar, .unterminatedString, .unterminatedBlockComment]
  feed : ∀ text line, c = .feed text line → lx.FeedUnbroken text line
  tokens : ∀ t ∈ (lx.call c).1.tokens.toList, ∃ s, t.span = .ok s
  diagnostics : ∀ d ∈ (lx.call c).1.diagnostics.toList,
    d.kind ≠ .malformedOperator ∧ ∃ s, Span.single d.position = .ok s
  counts : ∀ n ∈ (lx.call c).1.metrics.counts, n < columnLimit

theorem pendingAt_eq_trace (lx : Lexer) (text : String) (line i : Nat) :
    lx.pendingAt text line i =
      (trace text.toList line 0 lx.pending (text.toList.take i)).1 := by
  simp [pendingAt, scan_eq_trace]

/-- While a text is read, a carried comment goes on or the scanner stands in that text. -/
theorem carried_or_stands_pendingAt (h : lx.pending.Rests lx.settings.carryComments b)
    (text : String) (line : Nat) {i : Nat} (hi : i ≤ text.toList.length) :
    (lx.pendingAt text line i).Carried b
      ∨ ∃ start, (lx.pendingAt text line i).Stands text.toList line i none start := by
  have hinv := trace_induction text.toList line
    (I := fun j q _ => q.Carried b ∨ ∃ start, q.Stands text.toList line j none start)
    (fun j q fs c hc hq => by
      have hlt : j < text.toList.length := (List.getElem?_eq_some_iff.mp hc).1
      rcases hq with hq | ⟨start, hq⟩
      · rcases hq.step_cases ⟨text.toList.toArray, line, j⟩ c with ⟨st, hst, heq⟩ | heq
        · rw [heq]
          exact Or.inl ⟨hst, hq.lexeme, hq.length, hq.opened⟩
        · rw [heq]
          exact Or.inr ⟨j + 1, stands_start line hlt⟩
      · obtain ⟨start', -, hq'⟩ := step_tiles hq hc
        exact Or.inr ⟨start', hq'⟩)
    (text.toList.take i) 0 lx.pending [] (List.take_prefix _ _)
    (by
      rcases h with hp | ⟨-, hp⟩
      · rw [hp]
        exact Or.inr ⟨0, stands_start line (Nat.zero_le _)⟩
      · exact Or.inl hp)
  rw [List.length_take, Nat.min_eq_left hi, Nat.zero_add] at hinv
  rw [pendingAt_eq_trace]
  exact hinv

/-- A lexeme is never longer than what has been read of the text. -/
theorem lexeme_size_pendingAt_le (h : lx.pending.Rests lx.settings.carryComments b)
    (text : String) (line : Nat) {i : Nat} (hi : i ≤ text.toList.length) :
    (lx.pendingAt text line i).lexeme.size ≤ i := by
  rcases carried_or_stands_pendingAt h text line hi with hq | ⟨start, hq⟩
  · simp [hq.lexeme]
  · exact Nat.le_trans hq.lexeme_size_le (Nat.sub_le i start)

/-- The length of a lexeme is counted right. -/
theorem length_pendingAt (h : lx.pending.Rests lx.settings.carryComments b)
    (text : String) (line : Nat) {i : Nat} (hi : i ≤ text.toList.length) :
    (lx.pendingAt text line i).length = (lx.pendingAt text line i).lexeme.size := by
  rcases carried_or_stands_pendingAt h text line hi with hq | ⟨start, hq⟩
  · simp [hq.lexeme, hq.length]
  · exact hq.length_eq

theorem feed_unbroken (h : lx.Within b) (text : String) (line : Nat)
    (hb : b + (1 + text.toList.length) < columnLimit) : lx.FeedUnbroken text line where
  used := fun i c _ => exists_step _ c _
  fits := fun i hi => by
    have hsize := lexeme_size_pendingAt_le h.rests text line hi
    rw [length_pendingAt h.rests text line hi]
    exact ⟨by omega, by omega, by omega⟩
  atEnd := by
    rw [feed_result, pendingAt, List.take_length]
    rfl
  reported := fun d hd => by
    obtain ⟨s, hs⟩ := mem_diagnosticsOf.mp hd
    have hwithin := (reading_bounded text line h.rests).within _ hs
    have hcol : d.column + 1 < columnLimit := by
      have := hwithin.1
      omega
    exact ⟨hwithin.2, _, Span.single_of_lt hcol⟩

/-- The kinds of a failure. -/
theorem mem_of_isTerminal {k : DiagnosticKind} (h : k.isTerminal = true) :
    k ∈ [.unterminatedChar, .unterminatedString, .unterminatedBlockComment] := by
  cases k <;> first | decide | exact absurd h (by decide)

theorem call_result (h : lx.Within b) (c : Call) :
    (lx.call c).2 = .ok () ∨ ∃ d, (lx.call c).2 = .error (.terminal d)
      ∧ d.kind ∈ [.unterminatedChar, .unterminatedString, .unterminatedBlockComment] := by
  cases c with
  | feed text line =>
      rw [Lexer.call, feed_result]
      rcases (reading_bounded text line h.rests).result with hok | ⟨d, hd, hkind⟩
      · exact Or.inl hok
      · exact Or.inr ⟨d, hd, mem_of_isTerminal hkind⟩
  | finish =>
      rcases finish_cases h.rests with heq | ⟨o, -, -, heq⟩
      · exact Or.inl (by rw [Lexer.call, heq])
      · exact Or.inr ⟨_, by rw [Lexer.call, heq], mem_of_isTerminal rfl⟩
  | reset | takeTokens | takeTrail => exact Or.inl rfl

/-- In a session of fewer calls and characters than the machine's integers count, no call breaks,
whatever the settings and whatever the calls before it: every character is used after at most three
hand-overs, spans can be built, nothing overflows, no operator is malformed, and a call fails only
where a text or the input ends inside a literal or a comment. -/
theorem call_unbroken (settings : LexicalSettings) (calls : List Call) (c : Call)
    (hcost : ((calls ++ [c]).map Call.cost).sum < columnLimit) :
    (({ settings } : Lexer).run calls).Unbroken c := by
  rw [List.map_append, List.sum_append, List.map_singleton, List.sum_singleton] at hcost
  have hbefore := run_within settings calls
  have hafter := hbefore.call c
  refine ⟨call_result hbefore c, fun text line hc => ?_, fun t ht => ?_, fun d hd => ?_,
    fun n hn => ?_⟩
  · subst hc
    exact feed_unbroken hbefore text line hcost
  · exact ⟨_, Span.onLine_of_le (Nat.le_of_lt (hafter.tokens t ht).1)⟩
  · have hcol : d.column + 1 < columnLimit := by
      have := (hafter.diagnostics d hd).1
      omega
    exact ⟨(hafter.diagnostics d hd).2, _, Span.single_of_lt hcol⟩
  · exact Nat.lt_of_le_of_lt (hafter.counts n hn) hcost

/-- A session with a failing text in it, and comments carried. -/
theorem call_unbroken_carried :
    (([Call.feed "let 'ab' \"" 1, .feed "/* a" 2, .feed "b" 3] ++ [Call.finish]).map Call.cost).sum
        < columnLimit
      ∧ (({ settings := { carryComments := true } } : Lexer).run
        [.feed "let 'ab' \"" 1, .feed "/* a" 2, .feed "b" 3]).Unbroken .finish :=
  ⟨by decide, call_unbroken { carryComments := true } _ _ (by decide)⟩

end Lexer

end ContractLex
