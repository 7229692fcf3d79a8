import ContractLex.Proofs.Identifier
import ContractLex.Proofs.Number
import ContractLex.Proofs.Quoted

/-!
# The cap on a lexeme

The scanner gives a lexeme up where it holds as many characters as a lexeme may have and one more
character comes, whether that character belongs to the lexeme or not. At the end of a text there is
no such test. So a lexeme that is shorter than the cap is accepted whatever follows it, and one that
has just as many characters is accepted only if the text ends with it (`Lexeme.Fits`). The closing
quote of a string comes after its content, so a string has to be shorter.

Words, numerals and strings come to the cap in different states, but in the same way: up to there
they are read as if they were shorter (`Lexeme.readOn_cut`), and from there on they are skipped
(`Lexeme.readsFront_cut`). No dispatch reports a lexeme that is too long, and no end of a text does
(`dispatch_uncapped`, `finish_uncapped`), so this is reported where a full lexeme meets a character
and nowhere else (`trace_longLexeme`).
-/

namespace ContractLex

open Spelling

/-! ## Lexemes -/

/-- A word, a numeral or a string. -/
inductive Lexeme where
  | word (w : List Char) (isWord : IsWord w)
  | numeral (d : List Char) (isNumeral : IsNumeral d)
  | string (us : List (QuotedUnit '"'))

namespace Lexeme

/-- The characters of the text. -/
def written : Lexeme → List Char
  | .word w _ => w
  | .numeral d _ => d
  | .string us => '"' :: writtenUnits us ++ ['"']

/-- The characters that the cap is on: the quotes of a string are not among them. -/
def held : Lexeme → List Char
  | .word w _ => w
  | .numeral d _ => d
  | .string us => decodedUnits us

/-- What is read of a lexeme that is accepted. -/
def front (line : Nat) : Lexeme → Front
  | .word w _ =>
      { tokens := [⟨wordKind w, String.ofList w, line, 0, w.length⟩], stop := w.length }
  | .numeral d _ => numeric line .int d
  | .string us => quotedFront line .string us

/-- The lexeme is shorter than the cap; or it is just as long, and is all that is written. -/
def Fits (x : Lexeme) (rest : List Char) : Prop :=
  x.held.length < maxLexeme ∨ x.held.length = maxLexeme ∧ x.written ++ rest = x.held

/-- The column that the scanner comes to with a full lexeme. -/
def cutAt : Lexeme → Nat
  | .word _ _ => maxLexeme
  | .numeral _ _ => maxLexeme
  | .string us => (writtenUnits (us.take maxLexeme)).length + 1

/-- The faults on the way there. -/
def faultsBefore (line : Nat) : Lexeme → List Diagnostic
  | .word _ _ => []
  | .numeral _ _ => []
  | .string us => lineBreaksIn line 1 (us.take maxLexeme)

/-- What is read of a lexeme that is given up, if it stands at the beginning of a text. -/
def cutFront (x : Lexeme) (text : List Char) (line : Nat) : Front where
  tokens := [⟨.unknown, String.ofList (stretch text 0 (skipEnd text x.cutAt)), line, 0,
    skipEnd text x.cutAt⟩]
  diagnostics := x.faultsBefore line ++ [Fault.longLexeme.diagnostic ⟨line, x.cutAt⟩]
  stop := skipEnd text x.cutAt

end Lexeme

/-! ## Lexemes that are accepted -/

section Accept

variable {w d rest : List Char} {line : Nat} {carry : Bool} {c : Char}

theorem isWordChar_of_isDelimiter (hc : isDelimiter c = true) : isWordChar c = false := by
  cases hword : isWordChar c with
  | false => rfl
  | true => exact hc.symm.trans (isDelimiter_of_isWordChar hword)

theorem isDelimiter_head (hrest : rest.head?.all isDelimiter = true) :
    ∀ c, rest.head? = some c → isDelimiter c = true := by
  intro c hc
  simpa [hc] using hrest

/-- Digits that a delimiter follows, or the end of the text. -/
theorem readsFront_digits (hd : IsNumeral d) (hrest : rest.head?.all isDelimiter = true)
    (hcap : d.length < maxLexeme ∨ (d ++ rest).length ≤ maxLexeme) :
    ReadsFront (d ++ rest) line carry 0 {} (numeric line .int d) := by
  have hle : d.length ≤ (d ++ rest).length := by simp
  have hclose : readOn (d ++ rest) line carry d.length (.under .number d.toArray line 0) =
      (readOn (d ++ rest) line carry d.length {}).after
        [.token ⟨.literal .int, String.ofList d, line, 0, d.length⟩] := by
    refine readOn_closeBefore hle ?_ ?_ rfl
    · intro hlt
      refine isFull_eq_false ?_
      simp only [List.size_toArray]
      omega
    · intro c hc
      rw [getElem?_append_length] at hc
      have hdelimiter := isDelimiter_head hrest c hc
      have hdigit : c.isDigit = false := by
        have hword := isWordChar_of_isDelimiter hdelimiter
        simp only [isWordChar, Char.isAlphanum, Bool.or_eq_false_iff] at hword
        exact hword.1.2
      have hperiod : c ≠ '.' := by
        rintro rfl
        exact absurd hdelimiter (by decide)
      have hends : endsNumber c = true := by rw [endsNumber, hdelimiter, Bool.or_true]
      simp only [dispatch, onNumber, hdigit, hperiod, hends, Bool.false_eq_true, if_false, if_true]
  rw [← readOn_digits (hd.head?_append rest) hd.2 (List.prefix_append d rest) (by omega)] at hclose
  exact ⟨hle, _, rfl, rfl, hclose⟩

theorem readsFront_plain (hw : IsWord w) (hrest : rest.head?.all isDelimiter = true)
    (hcap : w.length < maxLexeme ∨ (w ++ rest).length ≤ maxLexeme) :
    ReadsFront (w ++ rest) line carry 0 {}
      { tokens := [⟨wordKind w, String.ofList w, line, 0, w.length⟩], stop := w.length } := by
  have hover : ∀ c, rest.head? = some c → isWordChar c = false :=
    fun c hc => isWordChar_of_isDelimiter (isDelimiter_head hrest c hc)
  have hdash : ¬ (rest.head? = some '-' ∧ isDashPrefix (String.ofList w) = true) := by
    rintro ⟨hhead, -⟩
    exact absurd (isDelimiter_head hrest _ hhead) (by decide)
  exact ⟨by simp, _, rfl, rfl,
    readOn_plain (hw.head?_append rest) hw.forall_isWordChar hover hdash hcap⟩

namespace Lexeme

/-- Strings have to be shorter than the cap. -/
theorem fits_string {us : List (QuotedUnit '"')} :
    (Lexeme.string us).Fits rest ↔ us.length < maxLexeme := by
  refine ⟨?_, fun hlt => Or.inl (by rwa [held, length_decodedUnits])⟩
  rintro (hlt | ⟨-, hall⟩)
  · rwa [held, length_decodedUnits] at hlt
  · have hlength := congrArg List.length hall
    have hle := length_le_writtenUnits us
    simp only [written, held, length_decodedUnits, List.length_append, List.length_cons,
      List.length_nil] at hlength
    omega

/-- A lexeme that fits is read as a token. -/
theorem readsFront_fits (x : Lexeme) (hrest : rest.head?.all isDelimiter = true)
    (hfits : x.Fits rest) (line : Nat) (carry : Bool) :
    ReadsFront (x.written ++ rest) line carry 0 {} (x.front line) := by
  cases x with
  | word w hw =>
      refine readsFront_plain hw hrest (hfits.imp_right ?_)
      rintro ⟨hlength, hall⟩
      exact Nat.le_of_eq ((congrArg List.length hall).trans hlength)
  | numeral d hd =>
      refine readsFront_digits hd hrest (hfits.imp_right ?_)
      rintro ⟨hlength, hall⟩
      exact Nat.le_of_eq ((congrArg List.length hall).trans hlength)
  | string us =>
      rw [show (Lexeme.string us).written ++ rest = '"' :: writtenUnits us ++ '"' :: rest by
        simp [written]]
      exact readsFront_string us (fits_string.mp hfits)

end Lexeme

end Accept

/-! ## Lexemes that are given up -/

namespace Lexeme

section Cut

variable {x : Lexeme} {rest : List Char} {line : Nat} {carry : Bool}

/-- Up to the cap, a lexeme is read as if it were shorter. -/
theorem readOn_cut (x : Lexeme) (hcap : maxLexeme ≤ x.held.length) (rest : List Char) (line : Nat)
    (carry : Bool) :
    ∃ st b fs, (Pending.under st b line 0).isFull = true ∧ tokensOf fs = []
      ∧ diagnosticsOf fs = x.faultsBefore line
      ∧ readOn (x.written ++ rest) line carry 0 {} =
        (readOn (x.written ++ rest) line carry x.cutAt (.under st b line 0)).after fs := by
  have hfull : ∀ {st : State} {b : List Char}, st ≠ .invalid → st.isComment = false →
      b.length = maxLexeme → (Pending.under st b.toArray line 0).isFull = true := by
    intro st b hst hcomment hb
    have hne : (st != .invalid) = true := by simpa using hst
    simp only [Pending.isFull, List.size_toArray, hb, Nat.le_refl, decide_true, hne, hcomment]
    rfl
  cases x with
  | word w hw =>
      have hlength : (w.take maxLexeme).length = maxLexeme := List.length_take_of_le hcap
      have hpre : w.take maxLexeme <+: w ++ rest :=
        (List.take_prefix _ _).trans (List.prefix_append _ _)
      have hread : readOn (w ++ rest) line carry 0 {} = readOn (w ++ rest) line carry _
          (.under .identifier (w.take maxLexeme).toArray line 0) :=
        readOn_word (hw.head?_append rest)
          (fun c hc => hw.forall_isWordChar c (List.mem_of_mem_take hc)) hpre (Nat.le_of_eq hlength)
      rw [hlength] at hread
      exact ⟨.identifier, _, [], hfull (by decide) rfl hlength, rfl, rfl, hread⟩
  | numeral d hd =>
      have hlength : (d.take maxLexeme).length = maxLexeme := List.length_take_of_le hcap
      have hpre : d.take maxLexeme <+: d ++ rest :=
        (List.take_prefix _ _).trans (List.prefix_append _ _)
      have hread : readOn (d ++ rest) line carry 0 {} = readOn (d ++ rest) line carry _
          (.under .number (d.take maxLexeme).toArray line 0) :=
        readOn_digits (hd.head?_append rest) (fun c hc => hd.2 c (List.mem_of_mem_take hc)) hpre
          (Nat.le_of_eq hlength)
      rw [hlength] at hread
      exact ⟨.number, _, [], hfull (by decide) rfl hlength, rfl, rfl, hread⟩
  | string us =>
      rw [held, length_decodedUnits] at hcap
      have hlength : (us.take maxLexeme).length = maxLexeme := List.length_take_of_le hcap
      have htext : '"' :: writtenUnits (us.take maxLexeme)
          ++ (writtenUnits (us.drop maxLexeme) ++ '"' :: rest) =
          (Lexeme.string us).written ++ rest := by
        simp [written, ← writtenUnits_take_append_drop maxLexeme us]
      obtain ⟨st, fs, hst, htokens, hfaults, hread⟩ := readOn_content (us.take maxLexeme)
        (writtenUnits (us.drop maxLexeme) ++ '"' :: rest) line carry (Nat.le_of_eq hlength)
      rw [htext, Nat.add_comm] at hread
      refine ⟨st, _, fs, ?_, htokens, hfaults, hread⟩
      rcases hst with rfl | rfl
      · exact hfull (by decide) rfl (by rw [length_decodedUnits, hlength])
      · exact hfull (by decide) rfl (by rw [length_decodedUnits, hlength])

/-- One more character comes to a lexeme that does not fit. -/
theorem cutAt_lt (hfits : ¬ x.Fits rest) :
    maxLexeme ≤ x.held.length ∧ x.cutAt < (x.written ++ rest).length := by
  have hcap : maxLexeme ≤ x.held.length := Nat.le_of_not_lt fun hlt => hfits (Or.inl hlt)
  have hplain : ∀ w : List Char, maxLexeme ≤ w.length →
      ¬ (w.length = maxLexeme ∧ w ++ rest = w) → maxLexeme < (w ++ rest).length := by
    intro w hw hne
    rw [List.length_append]
    by_cases hlength : w.length = maxLexeme
    · have hrest : rest ≠ [] := by
        rintro rfl
        exact hne ⟨hlength, List.append_nil w⟩
      have hpos := List.length_pos_iff.mpr hrest
      omega
    · omega
  refine ⟨hcap, ?_⟩
  cases x with
  | word w hw => exact hplain w hcap fun hall => hfits (Or.inr hall)
  | numeral d hd => exact hplain d hcap fun hall => hfits (Or.inr hall)
  | string us =>
      have hle : (writtenUnits (us.take maxLexeme)).length ≤ (writtenUnits us).length := by
        rw [← writtenUnits_take_append_drop maxLexeme us, List.length_append]
        exact Nat.le_add_right _ _
      simp only [cutAt, written, List.length_append, List.length_cons, List.length_nil]
      omega

/-- A lexeme that does not fit is given up where it is full. -/
theorem readsFront_cut (hfits : ¬ x.Fits rest) :
    ReadsFront (x.written ++ rest) line carry 0 {} (x.cutFront (x.written ++ rest) line) := by
  obtain ⟨hcap, hlt⟩ := cutAt_lt hfits
  obtain ⟨st, b, fs, hfull, htokens, hfaults, hread⟩ := x.readOn_cut hcap rest line carry
  rw [readOn_full (List.getElem?_eq_getElem hlt) hfull, Pending.goto,
    readOn_skip (Nat.zero_le _) (Nat.le_of_lt hlt), Ending.after_after, Ending.after_after] at hread
  refine ⟨skipEnd_le (Nat.le_of_lt hlt), _, ?_, ?_, hread⟩
  · rw [List.append_assoc, tokensOf_append, htokens]
    rfl
  · rw [List.append_assoc, diagnosticsOf_append, hfaults]
    rfl

end Cut

end Lexeme

/-! ## Where a lexeme is too long -/

/-- No lexeme is reported as too long. -/
def IsUncapped (fs : List Finding) : Prop := ∀ d ∈ diagnosticsOf fs, d.kind ≠ .lexemeTooLong

section Uncapped

variable {fs gs : List Finding} {p : Pending} {s : Site} {c : Char}

theorem isUncapped_append : IsUncapped (fs ++ gs) ↔ IsUncapped fs ∧ IsUncapped gs := by
  simp only [IsUncapped, diagnosticsOf_append, List.forall_mem_append]

theorem isUncapped_of_nil (h : diagnosticsOf fs = []) : IsUncapped fs := by
  rw [IsUncapped, h]
  exact List.forall_mem_nil _

/-- The end of a text has no cap. -/
theorem finish_uncapped (p : Pending) (s : Site) (carry : Bool) :
    IsUncapped (p.finish s carry).findings := by
  intro d hd hkind
  rcases finish_faults p s carry with heq | ⟨e, heq, hterminal⟩ | ⟨-, -, heq⟩
  · rw [heq] at hd
    cases hd
  · rw [heq] at hd
    obtain rfl := List.mem_singleton.mp hd
    rw [hkind] at hterminal
    cases hterminal
  · rw [heq] at hd
    obtain rfl := List.mem_singleton.mp hd
    cases hkind

/-- The cap is not tested by a state. -/
theorem dispatch_uncapped (p : Pending) (s : Site) (c : Char) :
    IsUncapped (dispatch p s c).findings := by
  have hturn := dispatch_turn s p c
  generalize dispatch p s c = m at hturn
  cases hturn with
  | used _ hbreak =>
      intro d hd hkind
      rw [hbreak d hd] at hkind
      cases hkind
  | closed hfinish =>
      have hend := finish_uncapped p s false
      rwa [hfinish] at hend
  | passed | skipped => exact isUncapped_of_nil rfl
  | rejected _ hkind =>
      intro d hd
      rwa [List.mem_singleton.mp hd]

theorem settle_uncapped (s : Site) (c : Char) (n : Nat) :
    ∀ p : Pending, IsUncapped (settle s c n p).findings := by
  induction n with
  | zero => exact fun _ => isUncapped_of_nil rfl
  | succ n ih =>
      intro p
      have hfirst := dispatch_uncapped p s c
      simp only [settle]
      split
      · exact hfirst
      · exact isUncapped_append.mpr ⟨hfirst, ih _⟩

/-- A character makes a lexeme too long if the lexeme is full. -/
theorem step_longLexeme (i : Nat) :
    (∃ d ∈ diagnosticsOf (step s p c).findings, d.kind = .lexemeTooLong ∧ d.column = i) ↔
      p.isFull = true ∧ s.column = i := by
  unfold step
  split
  · next hfull =>
    constructor
    · rintro ⟨d, hd, hkind, hcolumn⟩
      rcases List.mem_cons.mp hd with rfl | hd
      · exact ⟨hfull, hcolumn⟩
      · exact absurd hkind (settle_uncapped s c _ _ d hd)
    · rintro ⟨-, hcolumn⟩
      exact ⟨_, List.mem_cons_self, rfl, hcolumn⟩
  · next hfull =>
    constructor
    · rintro ⟨d, hd, hkind, -⟩
      exact absurd hkind (settle_uncapped s c _ _ d hd)
    · rintro ⟨hfull', -⟩
      exact absurd hfull' hfull

/-- Through a text, lexemes are too long at the columns that a full lexeme comes to. -/
theorem trace_longLexeme (text : List Char) (line : Nat) (p : Pending) (rest : List Char) (i : Nat) :
    (∃ d ∈ diagnosticsOf (trace text line 0 p rest).2, d.kind = .lexemeTooLong ∧ d.column = i) ↔
      i < rest.length ∧ (trace text line 0 p (rest.take i)).1.isFull = true := by
  induction rest using List.reverseRecOn with
  | nil => simp [trace]
  | append_singleton rest c ih =>
      have hfindings : (trace text line 0 p (rest ++ [c])).2 = (trace text line 0 p rest).2
          ++ (step ⟨text.toArray, line, rest.length⟩ (trace text line 0 p rest).1 c).findings := by
        rw [trace_append, Nat.zero_add]
        simp [trace]
      have hlast := step_longLexeme (s := ⟨text.toArray, line, rest.length⟩)
        (p := (trace text line 0 p rest).1) (c := c) i
      rw [hfindings, diagnosticsOf_append, List.length_append, List.length_singleton]
      simp only [List.mem_append, or_and_right, exists_or, ih, hlast]
      rcases Nat.lt_trichotomy i rest.length with hlt | rfl | hlt
      · rw [List.take_append_of_le_length (Nat.le_of_lt hlt)]
        have hne : rest.length ≠ i := by omega
        have hlt' : i < rest.length + 1 := by omega
        simp only [hlt, hlt', hne, true_and, and_false, or_false]
      · rw [List.take_left' rfl]
        simp
      · have hne : rest.length ≠ i := by omega
        have hnot : ¬ i < rest.length := by omega
        have hnot' : ¬ i < rest.length + 1 := by omega
        simp only [hnot, hnot', hne, false_and, and_false, or_false]

/-- In a call, lexemes are too long at the columns that a full lexeme comes to. -/
theorem reported_longLexeme (lx : Lexer) (text : String) (line i : Nat) :
    (∃ d ∈ lx.reported text line, d.kind = .lexemeTooLong ∧ d.column = i) ↔
      i < text.toList.length ∧ (lx.pendingAt text line i).isFull = true := by
  have hend := finish_uncapped (trace text.toList line 0 lx.pending text.toList).1
    ⟨text.toList.toArray, line, text.toList.length⟩ lx.settings.carryComments
  rw [Lexer.pendingAt_eq_trace, ← trace_longLexeme, Lexer.reported, Lexer.reading_eq_trace,
    diagnosticsOf_append]
  constructor
  · rintro ⟨d, hd, hkind, hcolumn⟩
    rcases List.mem_append.mp hd with hd | hd
    · exact ⟨d, hd, hkind, hcolumn⟩
    · exact absurd hkind (hend d hd)
  · rintro ⟨d, hd, hkind, hcolumn⟩
    exact ⟨d, List.mem_append_left _ hd, hkind, hcolumn⟩

end Uncapped

/-! ## Feeding -/

/-- A lexeme that is accepted is one token, and that is not `unknown`. -/
theorem Lexeme.tokens_front (x : Lexeme) (line : Nat) :
    ∃ t, (x.front line).tokens = [t] ∧ t.kind ≠ .unknown := by
  cases x with
  | word w hw => exact ⟨_, rfl, wordKind_ne_unknown (.under .identifier w.toArray line 0)⟩
  | numeral d hd => exact ⟨_, rfl, nofun⟩
  | string us => exact ⟨_, rfl, nofun⟩

/-- So a lexeme that does not fit is not accepted. -/
theorem not_feedsThen_cut {lx : Lexer} (hp : lx.pending = {}) {x : Lexeme} {rest : List Char}
    (hfits : ¬ x.Fits rest) (line : Nat) :
    ¬ lx.FeedsThen (String.ofList (x.written ++ rest)) line (x.front line) := by
  have hcut : lx.FeedsThen (String.ofList (x.written ++ rest)) line
      (x.cutFront (x.written ++ rest) line) := Lexer.feedsThen_ofList hp (x.readsFront_cut hfits)
  intro hfeeds
  obtain ⟨t, htokens, hkind⟩ := x.tokens_front line
  have heq := List.append_cancel_left (hfeeds.tokens.symm.trans hcut.tokens)
  rw [htokens] at heq
  exact hkind (congrArg Token.kind (List.cons.inj heq).1)

/-- A word, a numeral or a string that a delimiter follows, or the end of the text, is fed as its
token if it fits, and is given up at the cap if it does not. A lexeme is reported as too long at the
columns where one that is full meets a character, and nowhere else. -/
theorem feed_lexeme {lx : Lexer} (h : lx.Reachable) (hstart : lx.state = .start) (line : Nat) :
    (∀ (x : Lexeme) (rest : List Char), rest.head?.all isDelimiter = true →
      (x.Fits rest →
        lx.FeedsThen (String.ofList (x.written ++ rest)) line (x.front line))
      ∧ (¬ x.Fits rest → lx.FeedsThen (String.ofList (x.written ++ rest)) line
        (x.cutFront (x.written ++ rest) line)))
    ∧ ∀ (text : String) (i : Nat),
      (∃ d ∈ lx.reported text line, d.kind = .lexemeTooLong ∧ d.column = i) ↔
        i < text.toList.length ∧ (lx.pendingAt text line i).isFull = true := by
  have hp := h.pending_eq hstart
  refine ⟨?_, ?_⟩
  · intro x rest hrest
    constructor
    · intro hfits
      exact Lexer.feedsThen_ofList hp (x.readsFront_fits hrest hfits line _)
    · intro hfits
      exact Lexer.feedsThen_ofList hp (x.readsFront_cut hfits)
  · intro text i
    exact reported_longLexeme lx text line i

/-- A keyword before a delimiter, digits at the end of a text, and a string with the opening of a
comment in it. -/
theorem feed_lexeme_short :
    ({} : Lexer).FeedsThen "if(" 1 ⟨[⟨.keyword .ifKw, "if", 1, 0, 2⟩], [], 2⟩
      ∧ ({} : Lexer).FeedsThen "042" 1 ⟨[⟨.literal .int, "042", 1, 0, 3⟩], [], 3⟩
      ∧ ({} : Lexer).FeedsThen "\"/*\";" 1 ⟨[⟨.literal .string, "/*", 1, 0, 4⟩], [], 4⟩ := by
  have hreach : ({} : Lexer).Reachable := ⟨{}, [], rfl⟩
  have hword : IsWord ['i', 'f'] := ⟨'i', ['f'], rfl, rfl, List.all_eq_true.mp rfl⟩
  have hnumeral : IsNumeral ['0', '4', '2'] := ⟨List.cons_ne_nil _ _, List.all_eq_true.mp rfl⟩
  have hcap : 3 < maxLexeme := by decide
  refine ⟨?_, ?_, ?_⟩
  · exact ((feed_lexeme hreach rfl 1).1 (.word _ hword) ['('] (by decide)).1
      (Or.inl (Nat.lt_of_succ_lt hcap))
  · exact ((feed_lexeme hreach rfl 1).1 (.numeral _ hnumeral) [] rfl).1 (Or.inl hcap)
  · exact ((feed_lexeme hreach rfl 1).1 (.string [.ofChar '/', .ofChar '*']) [';'] (by decide)).1
      (Or.inl (Nat.lt_of_succ_lt hcap))

/-- A word that is as long as the cap is a word at the end of a text, and none before a blank. -/
theorem feed_lexeme_full :
    let w := List.replicate maxLexeme 'a'
    IsWord w ∧ w.length ≤ maxLexeme
      ∧ ({} : Lexer).FeedsThen (String.ofList w) 1
        { tokens := [⟨wordKind w, String.ofList w, 1, 0, w.length⟩], stop := w.length }
      ∧ ¬ ({} : Lexer).FeedsThen (String.ofList (w ++ [' '])) 1
        { tokens := [⟨wordKind w, String.ofList w, 1, 0, w.length⟩], stop := w.length } := by
  have hlength : (List.replicate maxLexeme 'a').length = maxLexeme := List.length_replicate
  have hword : IsWord (List.replicate maxLexeme 'a') := by
    refine ⟨'a', List.replicate (maxLexeme - 1) 'a', List.replicate_succ, by decide, ?_⟩
    intro d hd
    rw [List.eq_of_mem_replicate hd]
    decide
  have hend : (Lexeme.word _ hword).Fits [] := Or.inr ⟨hlength, List.append_nil _⟩
  have hblank : ¬ (Lexeme.word _ hword).Fits [' '] := by
    rintro (hlt | ⟨-, hall⟩)
    · exact Nat.lt_irrefl _ (Nat.lt_of_lt_of_eq hlt hlength.symm)
    · exact absurd (List.append_right_eq_self.mp hall) (List.cons_ne_nil _ _)
  refine ⟨hword, Nat.le_of_eq hlength, ?_, not_feedsThen_cut rfl hblank 1⟩
  have hread := (Lexeme.word _ hword).readsFront_fits rfl hend 1 false
  rw [List.append_nil] at hread
  exact Lexer.feedsThen_ofList rfl hread

end ContractLex
