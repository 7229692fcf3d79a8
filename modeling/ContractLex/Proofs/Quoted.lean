import ContractLex.Proofs.ReadOn

/-!
# A text that begins with a literal in quotes

The content of a literal is a list of units, each a character by itself or one after a backslash
(`QuotedUnit`). Whatever follows the closing quote, the literal is read as one token: its text is
what the units stand for, its span takes in both quotes, and the only faults are the line breaks
that stand in it by themselves (`quotedFront`).

Strings and characters take a unit in alike, in states of their own (`TakesUnit`, `readOn_unit`). A
string goes on in the state after its first unit, so its units are an induction (`readOn_units`).
Text and span come from two counts: the lexeme grows by one character for each unit, and the column
by as many as are written.

Writing the quote, the backslash and the line breaks of a text after a backslash makes a string
literal of it, and reading that gives the text back (`readsFront_asLiteral`).
-/

namespace ContractLex

open Spelling

/-! ## Units of content -/

/-- A unit of the content of a literal that `quote` closes: the characters that are written, and the
one that they stand for. -/
structure QuotedUnit (quote : Char) where
  chars : List Char
  value : Char
  isUnit : ContentUnit quote chars value

section Units

variable {quote : Char}

/-- The content of a literal as it is written. -/
def writtenUnits (us : List (QuotedUnit quote)) : List Char := us.flatMap (·.chars)

/-- What the content of a literal stands for. -/
def decodedUnits (us : List (QuotedUnit quote)) : List Char := us.map (·.value)

theorem writtenUnits_cons (u : QuotedUnit quote) (us : List (QuotedUnit quote)) :
    writtenUnits (u :: us) = u.chars ++ writtenUnits us := List.flatMap_cons

theorem writtenUnits_take_append_drop (n : Nat) (us : List (QuotedUnit quote)) :
    writtenUnits (us.take n) ++ writtenUnits (us.drop n) = writtenUnits us := by
  rw [writtenUnits, writtenUnits, ← List.flatMap_append, List.take_append_drop, writtenUnits]

theorem length_decodedUnits (us : List (QuotedUnit quote)) :
    (decodedUnits us).length = us.length := List.length_map _

/-- Every unit is written with one character at least. -/
theorem length_le_writtenUnits (us : List (QuotedUnit quote)) :
    us.length ≤ (writtenUnits us).length := by
  induction us with
  | nil => exact Nat.le_refl 0
  | cons u us ih =>
      have hpos := u.isUnit.length_pos
      rw [writtenUnits_cons, List.length_append, List.length_cons]
      omega

/-- The fault at column `i`, if a unit is a line break that stands by itself. -/
def QuotedUnit.lineBreak (line i : Nat) (u : QuotedUnit quote) : List Diagnostic :=
  if u.chars.head?.any isLineBreak then [Fault.lineBreak.diagnostic ⟨line, i⟩] else []

/-- The line breaks that stand by themselves among units that begin at column `i`. -/
def lineBreaksIn (line : Nat) : Nat → List (QuotedUnit quote) → List Diagnostic
  | _, [] => []
  | i, u :: us => u.lineBreak line i ++ lineBreaksIn line (i + u.chars.length) us

/-- What is read of a literal at the beginning of a text. -/
def quotedFront (line : Nat) (k : Literal) (us : List (QuotedUnit quote)) : Front where
  tokens :=
    [⟨.literal k, String.ofList (decodedUnits us), line, 0, (writtenUnits us).length + 2⟩]
  diagnostics := lineBreaksIn line 1 us
  stop := (writtenUnits us).length + 2

end Units

/-! ## Taking units in -/

/-- In `st` a unit of content is taken in, through `esc` if it has a backslash, and `next` is the
state after it. -/
structure TakesUnit (quote : Char) (st esc next : State) : Prop where
  raw : ∀ {c : Char} (line start : Nat) (l : Array Char) (s : Site), c ≠ quote → c ≠ '\\' →
    dispatch (.under st l line start) s c =
      .use (.under next (l.push c) line start) (lineBreakFault (.under st l line start) s c)
  backslash : ∀ (line start : Nat) (l : Array Char) (s : Site),
    dispatch (.under st l line start) s '\\' = .use (.under esc l line start)
  escaped : ∀ {c d : Char} (line start : Nat) (l : Array Char) (s : Site), escape? c = some d →
    dispatch (.under esc l line start) s c = .use (.under next (l.push d) line start)

section Take

variable {text b : List Char} {line i start : Nat} {quote : Char} {st esc next : State}

theorem takesUnit_char : TakesUnit '\'' .charOpen .charEscape .charClose where
  raw := by
    intro c line start l s hquote hback
    simp only [dispatch, onCharOpen, hquote, hback, if_false, under_push]
    rfl
  backslash := fun _ _ _ _ => rfl
  escaped := by
    intro c d line start l s hc
    simp only [dispatch, onCharEscape, hc, under_push]
    rfl

theorem takesUnit_string (hst : st = .stringOpen ∨ st = .string) :
    TakesUnit '"' st .stringEscape .string where
  raw := by
    intro c line start l s hquote hback
    rcases hst with rfl | rfl
    · simp only [dispatch, onString, hquote, hback, if_false, under_push]
      rfl
    · simp only [dispatch, onString, hquote, hback, if_false, under_push]
      rfl
  backslash := by
    intro line start l s
    rcases hst with rfl | rfl <;> rfl
  escaped := by
    intro c d line start l s hc
    simp only [dispatch, onStringEscape, hc, under_push]
    rfl

/-- One unit: the lexeme grows by the character that it stands for. -/
theorem readOn_unit (h : TakesUnit quote st esc next) (u : QuotedUnit quote)
    (hpre : u.chars <+: text.drop i) (hsize : b.length < maxLexeme) (line start : Nat)
    (carry : Bool) :
    ∃ fs, tokensOf fs = [] ∧ diagnosticsOf fs = u.lineBreak line i
      ∧ readOn text line carry i (.under st b.toArray line start) =
        (readOn text line carry (i + u.chars.length)
          (.under next (b ++ [u.value]).toArray line start)).after fs := by
  have hfull : ∀ st, (Pending.under st b.toArray line start).isFull = false :=
    fun st => isFull_eq_false (by simpa using hsize)
  obtain ⟨chars, value, hunit⟩ := u
  cases hunit with
  | raw hquote hback =>
      obtain ⟨hc, -⟩ := getElem?_of_prefix_drop hpre
      refine ⟨lineBreakFault (.under st b.toArray line start) ⟨text.toArray, line, i⟩ value,
        ?_, ?_, ?_⟩
      · unfold lineBreakFault
        split <;> rfl
      · by_cases hbreak : isLineBreak value = true
        · simp only [lineBreakFault, QuotedUnit.lineBreak, List.head?_cons, Option.any_some, hbreak,
            if_true]
          rfl
        · simp [lineBreakFault, QuotedUnit.lineBreak, hbreak]
      · rw [readOn_use hc (hfull st) (h.raw line start _ _ hquote hback), List.push_toArray]
        rfl
  | escaped hescape =>
      obtain ⟨hback, hrest⟩ := getElem?_of_prefix_drop hpre
      obtain ⟨hc, -⟩ := getElem?_of_prefix_drop hrest
      refine ⟨[], rfl, rfl, ?_⟩
      rw [readOn_use hback (hfull st) (h.backslash line start _ _), Ending.after_nil,
        readOn_use hc (hfull esc) (h.escaped line start _ _ hescape), List.push_toArray]
      rfl

/-- The units of a string, one after the other. -/
theorem readOn_units (us : List (QuotedUnit '"')) (hst : st = .stringOpen ∨ st = .string)
    (hpre : writtenUnits us <+: text.drop i) (hsize : b.length + us.length ≤ maxLexeme)
    (line start : Nat) (carry : Bool) :
    ∃ st' fs, (st' = .stringOpen ∨ st' = .string) ∧ tokensOf fs = []
      ∧ diagnosticsOf fs = lineBreaksIn line i us
      ∧ readOn text line carry i (.under st b.toArray line start) =
        (readOn text line carry (i + (writtenUnits us).length)
          (.under st' (b ++ decodedUnits us).toArray line start)).after fs := by
  induction us generalizing st i b with
  | nil =>
      refine ⟨st, [], hst, rfl, rfl, ?_⟩
      rw [show decodedUnits ([] : List (QuotedUnit '"')) = [] from rfl, List.append_nil]
      rfl
  | cons u us ih =>
      rw [writtenUnits_cons] at hpre
      rw [List.length_cons] at hsize
      obtain ⟨fs, htokens, hfaults, hunit⟩ := readOn_unit (takesUnit_string hst) u
        ((List.prefix_append _ _).trans hpre) (show b.length < maxLexeme by omega) line start carry
      have hnext : writtenUnits us <+: text.drop (i + u.chars.length) := by
        obtain ⟨back, hback⟩ := hpre
        refine ⟨back, ?_⟩
        rw [← List.drop_drop, ← hback, List.append_assoc, List.drop_left]
      have hroom : (b ++ [u.value]).length + us.length ≤ maxLexeme := by
        rw [List.length_append, List.length_singleton]
        omega
      obtain ⟨st', gs, hst', htokens', hfaults', hunits⟩ := ih (Or.inr rfl) hnext hroom
      refine ⟨st', fs ++ gs, hst', ?_, ?_, ?_⟩
      · rw [tokensOf_append, htokens, htokens', List.append_nil]
      · rw [diagnosticsOf_append, hfaults, hfaults']
        rfl
      · rw [hunit, hunits, Ending.after_after, writtenUnits_cons, List.length_append, Nat.add_assoc,
          List.append_assoc]
        rfl

end Take

/-! ## Reading a literal -/

section Read

variable {rest : List Char} {line : Nat} {carry : Bool}

/-- A string, up to its closing quote. -/
theorem readOn_content (us : List (QuotedUnit '"')) (rest : List Char) (line : Nat) (carry : Bool)
    (hsize : us.length ≤ maxLexeme) :
    ∃ st fs, (st = .stringOpen ∨ st = .string) ∧ tokensOf fs = []
      ∧ diagnosticsOf fs = lineBreaksIn line 1 us
      ∧ readOn ('"' :: writtenUnits us ++ rest) line carry 0 {} =
        (readOn ('"' :: writtenUnits us ++ rest) line carry (1 + (writtenUnits us).length)
          (.under st (decodedUnits us).toArray line 0)).after fs := by
  have hopen : dispatch {} ⟨('"' :: writtenUnits us ++ rest).toArray, line, 0⟩ '"' =
      .use (.under .stringOpen #[] line 0) := rfl
  have hpre : writtenUnits us <+: ('"' :: writtenUnits us ++ rest).drop 1 := ⟨rest, rfl⟩
  obtain ⟨st, fs, hst, htokens, hfaults, hread⟩ :=
    readOn_units (b := []) us (Or.inl rfl) hpre (by simpa using hsize) line 0 carry
  refine ⟨st, fs, hst, htokens, hfaults, ?_⟩
  rw [readOn_use rfl rfl hopen, Ending.after_nil]
  exact hread

/-- A literal whose closing quote comes next. -/
theorem readsFront_close {quote : Char} {st : State} {k : Literal} {us : List (QuotedUnit quote)}
    {o : Char} {fs : List Finding}
    (hclose : ∀ s, dispatch (.under st (decodedUnits us).toArray line 0) s quote =
      .use {} [(Pending.under st (decodedUnits us).toArray line 0).token s (.literal k)
        (s.column + 1)])
    (hsize : us.length < maxLexeme) (htokens : tokensOf fs = [])
    (hfaults : diagnosticsOf fs = lineBreaksIn line 1 us)
    (hread : readOn (o :: writtenUnits us ++ quote :: rest) line carry 0 {} =
      (readOn (o :: writtenUnits us ++ quote :: rest) line carry (1 + (writtenUnits us).length)
        (.under st (decodedUnits us).toArray line 0)).after fs) :
    ReadsFront (o :: writtenUnits us ++ quote :: rest) line carry 0 {}
      (quotedFront line k us) := by
  have hc : (o :: writtenUnits us ++ quote :: rest)[1 + (writtenUnits us).length]? =
      some quote := by
    rw [Nat.add_comm]
    simp
  have hfull : (Pending.under st (decodedUnits us).toArray line 0).isFull = false :=
    isFull_eq_false (by simpa [length_decodedUnits] using hsize)
  refine ⟨?_, fs ++ [.token ⟨.literal k, String.ofList (decodedUnits us), line, 0,
    (writtenUnits us).length + 2⟩], ?_, ?_, ?_⟩
  · simp only [quotedFront, List.length_append, List.length_cons]
    omega
  · rw [tokensOf_append, htokens]
    rfl
  · rw [diagnosticsOf_append, hfaults]
    exact List.append_nil _
  · have hstop : 1 + (writtenUnits us).length + 1 = (writtenUnits us).length + 2 := by omega
    rw [hread, readOn_use hc hfull (hclose _), token_eq rfl, Ending.after_after, hstop]
    rfl

/-- A string literal, whatever follows it. -/
theorem readsFront_string (us : List (QuotedUnit '"')) (hsize : us.length < maxLexeme) :
    ReadsFront ('"' :: writtenUnits us ++ '"' :: rest) line carry 0 {}
      (quotedFront line .string us) := by
  obtain ⟨st, fs, hst, htokens, hfaults, hread⟩ :=
    readOn_content us ('"' :: rest) line carry (Nat.le_of_lt hsize)
  refine readsFront_close ?_ hsize htokens hfaults hread
  intro s
  rcases hst with rfl | rfl <;> rfl

/-- A character literal, whatever follows it. -/
theorem readsFront_char (u : QuotedUnit '\'') :
    ReadsFront ('\'' :: writtenUnits [u] ++ '\'' :: rest) line carry 0 {}
      (quotedFront line .char [u]) := by
  have hwritten : writtenUnits [u] = u.chars := List.append_nil _
  have hopen : dispatch {} ⟨('\'' :: writtenUnits [u] ++ '\'' :: rest).toArray, line, 0⟩ '\'' =
      .use (.under .charOpen #[] line 0) := rfl
  have hpre : u.chars <+: ('\'' :: writtenUnits [u] ++ '\'' :: rest).drop 1 :=
    ⟨'\'' :: rest, by rw [hwritten]; rfl⟩
  obtain ⟨fs, htokens, hfaults, hread⟩ :=
    readOn_unit (b := []) takesUnit_char u hpre (Nat.zero_lt_succ _) line 0 carry
  have hclose : ∀ s, dispatch (.under .charClose (decodedUnits [u]).toArray line 0) s '\'' =
      .use {} [(Pending.under .charClose (decodedUnits [u]).toArray line 0).token s (.literal .char)
        (s.column + 1)] := fun _ => rfl
  refine readsFront_close hclose (show 1 < maxLexeme by decide) htokens ?_ ?_
  · rw [hfaults]
    exact (List.append_nil _).symm
  · rw [readOn_use rfl rfl hopen, Ending.after_nil, hread, hwritten]
    rfl

end Read

/-! ## A text as a literal -/

/-- How a character is written in a string literal: the quote, the backslash and the line breaks
after a backslash, and everything else by itself. -/
def literalChar (c : Char) : List Char :=
  if c = '"' then ['\\', '"']
  else if c = '\\' then ['\\', '\\']
  else if c = '\n' then ['\\', 'n']
  else if c = '\r' then ['\\', 'r']
  else [c]

/-- The string literal that stands for a text. -/
def asLiteral (text : String) : String :=
  String.ofList ('"' :: text.toList.flatMap literalChar ++ ['"'])

section Literal

theorem contentUnit_literalChar (c : Char) : ContentUnit '"' (literalChar c) c := by
  unfold literalChar
  split
  · next hc =>
    rw [hc]
    exact .escaped rfl
  · next hquote =>
    split
    · next hc =>
      rw [hc]
      exact .escaped rfl
    · next hback =>
      split
      · next hc =>
        rw [hc]
        exact .escaped rfl
      · split
        · next hc =>
          rw [hc]
          exact .escaped rfl
        · exact .raw hquote hback

/-- A character as a unit of content. -/
def QuotedUnit.ofChar (c : Char) : QuotedUnit '"' := ⟨literalChar c, c, contentUnit_literalChar c⟩

/-- No line break stands by itself. -/
theorem lineBreak_ofChar (line i : Nat) (c : Char) :
    (QuotedUnit.ofChar c).lineBreak line i = [] := by
  have hhead : (literalChar c).head?.any isLineBreak = false := by
    unfold literalChar
    split
    · rfl
    · split
      · rfl
      · split
        · rfl
        · next hfeed =>
          split
          · rfl
          · next hreturn => simp [isLineBreak, lineBreaks, hfeed, hreturn]
  simp [QuotedUnit.lineBreak, QuotedUnit.ofChar, hhead]

theorem lineBreaksIn_ofChar (line : Nat) (text : List Char) :
    ∀ i, lineBreaksIn line i (text.map .ofChar) = [] := by
  induction text with
  | nil => exact fun _ => rfl
  | cons c text ih =>
      intro i
      rw [List.map_cons, lineBreaksIn, lineBreak_ofChar, ih, List.append_nil]

theorem asLiteral_eq (text : String) :
    (asLiteral text).toList = '"' :: writtenUnits (text.toList.map .ofChar) ++ ['"'] := by
  simp only [asLiteral, String.toList_ofList, writtenUnits, List.flatMap_map, QuotedUnit.ofChar]

/-- A text that is written as a literal is read back. -/
theorem readsFront_asLiteral {text : String} (hsize : text.toList.length < maxLexeme) (line : Nat)
    (carry : Bool) :
    ReadsFront (asLiteral text).toList line carry 0 {}
      { tokens := [⟨.literal .string, text, line, 0, (asLiteral text).toList.length⟩]
        stop := (asLiteral text).toList.length } := by
  have hfront : quotedFront line .string (text.toList.map QuotedUnit.ofChar) =
      { tokens := [⟨.literal .string, text, line, 0, (asLiteral text).toList.length⟩]
        stop := (asLiteral text).toList.length } := by
    have hdecoded : decodedUnits (text.toList.map QuotedUnit.ofChar) = text.toList := by
      rw [decodedUnits, List.map_map]
      exact List.map_id _
    have hlength : (writtenUnits (text.toList.map QuotedUnit.ofChar)).length + 2 =
        (asLiteral text).toList.length := by
      rw [asLiteral_eq]
      simp
    rw [quotedFront, hdecoded, hlength, lineBreaksIn_ofChar, String.ofList_toList]
  rw [← hfront, asLiteral_eq]
  exact readsFront_string _ (by simpa using hsize)

end Literal

/-- A literal whose content is written unit by unit is fed as one token that stands for the units,
with a fault for each line break that stands in it by itself; what follows is fed afresh. So any
text can be written as a literal, and is fed as that literal without a fault. -/
theorem feed_quoted {lx : Lexer} (h : lx.Reachable) (hstart : lx.state = .start) (line : Nat) :
    (∀ (us : List (QuotedUnit '"')) (rest : List Char), us.length < maxLexeme →
      lx.FeedsThen (String.ofList ('"' :: writtenUnits us ++ '"' :: rest)) line
        (quotedFront line .string us))
    ∧ (∀ (u : QuotedUnit '\'') (rest : List Char),
      lx.FeedsThen (String.ofList ('\'' :: u.chars ++ '\'' :: rest)) line
        (quotedFront line .char [u]))
    ∧ ∀ text : String, text.toList.length < maxLexeme →
      (lx.feed (asLiteral text) line).2 = .ok ()
      ∧ (lx.feed (asLiteral text) line).1.tokens.toList = lx.tokens.toList
        ++ [⟨.literal .string, text, line, 0, (asLiteral text).toList.length⟩]
      ∧ (lx.feed (asLiteral text) line).1.diagnostics = lx.diagnostics := by
  have hp := h.pending_eq hstart
  refine ⟨?_, ?_, ?_⟩
  · intro us rest hsize
    exact Lexer.feedsThen_ofList hp (readsFront_string us hsize)
  · intro u rest
    have hwritten : writtenUnits [u] = u.chars := List.append_nil _
    rw [← hwritten]
    exact Lexer.feedsThen_ofList hp (readsFront_char u)
  · intro text hsize
    obtain ⟨-, fs, htokens, hfaults, hread⟩ :=
      readsFront_asLiteral hsize line lx.settings.carryComments
    have hreading : lx.reading (asLiteral text) line = ⟨{}, fs, .ok ()⟩ := by
      rw [lx.reading_eq_readOn, hp, hread, readOn_length_start rfl, Ending.after, List.append_nil]
    refine ⟨?_, ?_, Array.toList_inj.mp ?_⟩
    · rw [lx.feed_result, hreading]
    · rw [lx.feed_tokens, hreading, htokens]
    · rw [lx.feed_diagnostics, hreading, hfaults, List.take_nil, List.append_nil]

/-- A string with a line break, a quote and the opening of a comment in it, a character, and a text
that has to be written with its quote after a backslash. -/
theorem feed_quoted_break :
    ({} : Lexer).FeedsThen "\"a\n\\\"/*\" x" 1
        ⟨[⟨.literal .string, "a\n\"/*", 1, 0, 8⟩], [Fault.lineBreak.diagnostic ⟨1, 2⟩], 8⟩
      ∧ ({} : Lexer).FeedsThen "'\\t'y" 1 ⟨[⟨.literal .char, "\t", 1, 0, 4⟩], [], 4⟩
      ∧ (({} : Lexer).feed "\"say \\\"\\n\"" 1).1.tokens.toList =
        [⟨.literal .string, "say \"\n", 1, 0, 10⟩] := by
  have hreach : ({} : Lexer).Reachable := ⟨{}, [], rfl⟩
  have hstart : ({} : Lexer).state = .start := rfl
  let feed : QuotedUnit '"' := ⟨['\n'], '\n', .raw (by decide) (by decide)⟩
  let tab : QuotedUnit '\'' := ⟨['\\', 't'], '\t', .escaped rfl⟩
  refine ⟨?_, ?_, ?_⟩
  · exact (feed_quoted hreach hstart 1).1 [.ofChar 'a', feed, .ofChar '"', .ofChar '/', .ofChar '*']
      [' ', 'x'] (show 5 < maxLexeme by decide)
  · exact (feed_quoted hreach hstart 1).2.1 tab ['y']
  · exact ((feed_quoted hreach hstart 1).2.2 "say \"\n" (show 6 < maxLexeme by decide)).2.1

end ContractLex
