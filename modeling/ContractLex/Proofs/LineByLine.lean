import ContractLex.Proofs.Parallel

/-!
# Line by line, or all at once

A source that can be fed line by line can be fed as one text, and the same is found: the same tokens
and diagnostics, each as far to the right as its line is in the source. If block comments are not
carried, this holds wherever no line is too long (`feedSource_agrees`). If they are, a comment goes
on over the end of a line, but the line end itself is not fed; a star before it and a slash after it
meet, and close the comment, which in the source as one text they do not
(`feedSource_closes_early`). Where no star and slash meet in this way (`StarsApart`) the two ways
agree again (`feedSource_agrees_carried`).
-/

namespace ContractLex

open Spelling

/-! ## Lines that are accepted -/

/-- No line that begins with a slash is fed right after a star in a comment. -/
def StarsApart (settings : LexicalSettings) (source : String) : Prop :=
  ∀ k, (h : k < (Text.lines source).length) →
    (({ settings } : Lexer).feedLines 0 ((Text.lines source).take k)).1.state = .blockCommentStar →
      (Text.lines source)[k].toList.head? ≠ some '/'

instance (settings : LexicalSettings) (source : String) : Decidable (StarsApart settings source) :=
  inferInstanceAs (Decidable (∀ k, (h : k < (Text.lines source).length) → _ → _))

/-- Where comments are not carried, none is open between two lines. -/
theorem starsApart_of_not_carried {settings : LexicalSettings}
    (hcarry : settings.carryComments = false) (source : String) : StarsApart settings source := by
  intro k hk hstar
  obtain ⟨calls, hcalls⟩ :=
    Lexer.exists_run_feedLines ((Text.lines source).take k) { settings } 0
  have hreach : (({ settings } : Lexer).feedLines 0 ((Text.lines source).take k)).1.Reachable :=
    ⟨settings, calls, hcalls⟩
  obtain ⟨b, hp | ⟨hc, -⟩⟩ := hreach.rests
  · rw [Lexer.state, hp] at hstar
    cases hstar
  · rw [hcalls, Lexer.run_settings, hcarry] at hc
    cases hc

namespace Lexer

theorem feedLines_read (ls : List String) :
    ∀ {lx : Lexer} {k : Nat},
      (∀ j l, ls[j]? = some l → (lx.feedLines k (ls.take j)).1.state = .blockCommentStar →
        l.toList.head? ≠ some '/') →
      (lx.feedLines k ls).2 = .ok () →
      ∃ fs, LinesRead lx.settings lx.pending k ls fs (lx.feedLines k ls).1.pending
        ∧ lx.Adds fs (lx.feedLines k ls).1 := by
  induction ls with
  | nil => exact fun {lx k} _ _ => ⟨[], .nil, adds_nil lx⟩
  | cons l ls ih =>
      intro lx k hstars hok
      have hadds := adds_feed lx l (lineNumber k)
      have hresult := lx.feed_result l (lineNumber k)
      have hpending := lx.feed_pending l (lineNumber k)
      have hsettings := lx.feed_settings l (lineNumber k)
      have hhead := hstars 0 l rfl
      have htail := fun j next => hstars (j + 1) next
      simp only [List.getElem?_cons_succ, List.take_succ_cons, feedLines] at htail
      rw [feedLines] at hok ⊢
      rcases hfeed : lx.feed l (lineNumber k) with ⟨ly, error | _⟩
      · rw [hfeed] at hok
        cases hok
      · rw [hfeed] at hok hadds hresult hpending hsettings
        simp only [hfeed] at htail
        obtain ⟨gs, hread, hadds'⟩ := ih htail hok
        rw [hpending, hsettings] at hread
        have hline : ({ settings := lx.settings, pending := lx.pending } : Lexer).reading l
            (lineNumber k) = ⟨(lx.reading l (lineNumber k)).pending,
              (lx.reading l (lineNumber k)).findings, .ok ()⟩ := by
          rw [← show (lx.reading l (lineNumber k)).result = .ok () from hresult.symm]
          rfl
        exact ⟨_, .cons hhead hline hread, hadds.trans hadds'⟩

/-- Feeding a source adds what is found line by line, and leaves nothing pending. -/
theorem feedSource_read {settings : LexicalSettings} {source : String}
    (hstars : StarsApart settings source)
    (hok : (({ settings } : Lexer).feedSource source).2 = .ok ()) :
    ∃ fs, LinesRead settings {} 0 (Text.lines source) fs {}
      ∧ ({ settings } : Lexer).Adds fs (({ settings } : Lexer).feedSource source).1 := by
  obtain ⟨calls, hcalls⟩ := exists_run_feedLines (Text.lines source) { settings } 0
  have hreach : (({ settings } : Lexer).feedLines 0 (Text.lines source)).1.Reachable :=
    ⟨settings, calls, hcalls⟩
  obtain ⟨b, hrests⟩ := hreach.rests
  rw [feedSource] at hok ⊢
  rcases hfeed : ({ settings } : Lexer).feedLines 0 (Text.lines source) with ⟨ly, error | _⟩
  · rw [hfeed] at hok
    cases hok
  · have hlines : (({ settings } : Lexer).feedLines 0 (Text.lines source)).2 = .ok () := by
      rw [hfeed]
    have hstars' : ∀ k l, (Text.lines source)[k]? = some l →
        (({ settings } : Lexer).feedLines 0 ((Text.lines source).take k)).1.state =
          .blockCommentStar → l.toList.head? ≠ some '/' := by
      intro k l hl
      obtain ⟨hk, rfl⟩ := List.getElem?_eq_some_iff.mp hl
      exact hstars k hk
    obtain ⟨fs, hread, hadds⟩ := feedLines_read _ hstars' hlines
    rw [hfeed] at hok hread hadds hrests
    obtain ⟨hpending, hfinish⟩ := pending_of_finish hrests hok
    refine ⟨fs, ?_, ?_⟩
    · rwa [hpending] at hread
    · simpa [hfinish] using hadds

theorem feedSource_readings {settings : LexicalSettings} (hcarry : settings.carryComments = false)
    {source : String} (hok : (({ settings } : Lexer).feedSource source).2 = .ok ()) :
    ∃ fs, LinesRead settings {} 0 (Text.lines source) fs {}
      ∧ ({ settings } : Lexer).Adds fs (({ settings } : Lexer).feedSource source).1 :=
  feedSource_read (starsApart_of_not_carried hcarry source) hok

end Lexer

/-- The lines of a source, in their places. -/
theorem trace_lines {settings : LexicalSettings} {source : List Char}
    (hcarry : settings.carryComments = false) {rest : List Char} {ls : List String}
    (h : SplitsInto rest ls) {front : List Char} {k n : Nat} {fs : List Finding}
    (hsource : source = front ++ rest)
    (hstart : ∀ j, lineStart source (k + j) = front.length + lineStart rest j)
    (hn : k + ls.length ≤ n) (hlong : ∀ l ∈ ls, l.toList.length < maxLexeme)
    (hread : LinesRead settings {} k ls fs {}) :
    ∃ q gs es, trace source 1 front.length {} rest = (q, gs)
      ∧ q.finish ⟨source.toArray, 1, source.length⟩ false = ⟨{}, es, .ok ()⟩
      ∧ List.Forall₂ (Finding.MovedIn source n) fs (gs ++ es) := by
  rw [← hcarry]
  exact trace_parallel h ⟨hsource, hstart⟩ hn hlong .outside hread

/-! ## The two ways compared -/

/-- `a` is a token of some line of a source, and `b` is that token in the source as one text. -/
structure Token.InPlace (source : String) (a b : Token) : Prop where
  kind : a.kind = b.kind
  text : a.text = b.text
  place : ∃ k < (Text.lines source).length, a.line = lineNumber k ∧ b.line = 1
    ∧ b.start = lineStart source.toList k + a.start ∧ b.stop = lineStart source.toList k + a.stop

/-- `a` is a diagnostic of some line of a source, and `b` is the same one in the source as one
text. -/
structure Diagnostic.InPlace (source : String) (a b : Diagnostic) : Prop where
  kind : a.kind = b.kind
  message : a.message = b.message
  place : ∃ k < (Text.lines source).length, a.line = lineNumber k ∧ b.line = 1
    ∧ b.column = lineStart source.toList k + a.column

section InPlace

variable {source : String} {fs gs : List Finding}

theorem forall₂_tokensOf
    (h : List.Forall₂ (Finding.MovedIn source.toList (Text.lines source).length) fs gs) :
    List.Forall₂ (Token.InPlace source) (tokensOf fs) (tokensOf gs) := by
  refine List.rel_filterMap (fun f g => ?_) h
  rintro ⟨k, hk, hline, rfl⟩
  cases f with
  | token t => exact .some ⟨rfl, rfl, k, hk, hline, rfl, Nat.add_comm _ _, Nat.add_comm _ _⟩
  | fault | comment => exact .none

theorem forall₂_diagnosticsOf
    (h : List.Forall₂ (Finding.MovedIn source.toList (Text.lines source).length) fs gs) :
    List.Forall₂ (Diagnostic.InPlace source) (diagnosticsOf fs) (diagnosticsOf gs) := by
  refine List.rel_filterMap (fun f g => ?_) h
  rintro ⟨k, hk, hline, rfl⟩
  cases f with
  | fault st d => exact .some ⟨rfl, rfl, k, hk, hline, rfl, Nat.add_comm _ _⟩
  | token | comment => exact .none

end InPlace

/-- If block comments are not carried and no line is as long as a lexeme may be, a source that is
accepted line by line is accepted as one text, with the same tokens and the same diagnostics, each
as far into the source as its line begins. -/
theorem feedSource_agrees (settings : LexicalSettings) (source : String)
    (hcarry : settings.carryComments = false)
    (hlong : ∀ l ∈ Text.lines source, l.toList.length < maxLexeme)
    (hok : (({ settings } : Lexer).feedSource source).2 = .ok ()) :
    (({ settings } : Lexer).feed source 1).2 = .ok ()
      ∧ List.Forall₂ (Token.InPlace source)
        (({ settings } : Lexer).feedSource source).1.tokens.toList
        (({ settings } : Lexer).feed source 1).1.tokens.toList
      ∧ List.Forall₂ (Diagnostic.InPlace source)
        (({ settings } : Lexer).feedSource source).1.diagnostics.toList
        (({ settings } : Lexer).feed source 1).1.diagnostics.toList
      ∧ (({ settings } : Lexer).feedSource source).1.metrics.diagnostics =
        (({ settings } : Lexer).feed source 1).1.metrics.diagnostics := by
  obtain ⟨fs, hreadings, hadds⟩ := Lexer.feedSource_readings hcarry hok
  have hsource : source.toList = [] ++ source.toList := rfl
  have hstart : ∀ j, lineStart source.toList (0 + j) =
      ([] : List Char).length + lineStart source.toList j := by simp
  have hn : 0 + (Text.lines source).length ≤ (Text.lines source).length := by simp
  obtain ⟨q, gs, es, htrace, hfinish, hfs⟩ :=
    trace_lines hcarry (lines_splitsInto source) hsource hstart hn hlong hreadings
  have hreading : ({ settings } : Lexer).reading source 1 = ⟨{}, gs ++ es, .ok ()⟩ := by
    rw [Lexer.reading_eq_trace]
    simp only [List.length_nil] at htrace
    simp only [htrace, hcarry, hfinish]
  have hadds' := Lexer.adds_feed { settings } source 1
  rw [hreading] at hadds'
  refine ⟨by rw [Lexer.feed_result, hreading], ?_, ?_, ?_⟩
  · rw [hadds.tokens, hadds'.tokens]
    exact forall₂_tokensOf hfs
  · rw [hadds.diagnostics, hadds'.diagnostics]
    exact List.forall₂_take _ (forall₂_diagnosticsOf hfs)
  · rw [hadds.count, hadds'.count, (forall₂_diagnosticsOf hfs).length_eq]

/-- Two lines, with a carriage return between them, a fault and a comment. -/
theorem feedSource_agrees_break :
    ({} : LexicalSettings).carryComments = false
      ∧ (∀ l ∈ Text.lines "a =\r\n1x // b", l.toList.length < maxLexeme)
      ∧ (({ settings := {} } : Lexer).feedSource "a =\r\n1x // b").2 = .ok ()
      ∧ (({ settings := {} } : Lexer).feed "a =\r\n1x // b" 1).2 = .ok ()
      ∧ List.Forall₂ (Token.InPlace "a =\r\n1x // b")
        (({ settings := {} } : Lexer).feedSource "a =\r\n1x // b").1.tokens.toList
        (({ settings := {} } : Lexer).feed "a =\r\n1x // b" 1).1.tokens.toList
      ∧ List.Forall₂ (Diagnostic.InPlace "a =\r\n1x // b")
        (({ settings := {} } : Lexer).feedSource "a =\r\n1x // b").1.diagnostics.toList
        (({ settings := {} } : Lexer).feed "a =\r\n1x // b" 1).1.diagnostics.toList
      ∧ (({ settings := {} } : Lexer).feedSource "a =\r\n1x // b").1.metrics.diagnostics =
        (({ settings := {} } : Lexer).feed "a =\r\n1x // b" 1).1.metrics.diagnostics :=
  ⟨rfl, by decide, by decide, feedSource_agrees {} "a =\r\n1x // b" rfl (by decide) (by decide)⟩

/-- Whether block comments are carried or not, if no line is as long as a lexeme may be and no star
at the end of a line meets a slash at the beginning of the next, a source that is accepted line by
line is accepted as one text, with the same tokens and the same diagnostics, each as far into the
source as its line begins. -/
theorem feedSource_agrees_carried (settings : LexicalSettings) (source : String)
    (hlong : ∀ l ∈ Text.lines source, l.toList.length < maxLexeme)
    (hstars : StarsApart settings source)
    (hok : (({ settings } : Lexer).feedSource source).2 = .ok ()) :
    (({ settings } : Lexer).feed source 1).2 = .ok ()
      ∧ (({ settings } : Lexer).feed source 1).1.finish.2 = .ok ()
      ∧ List.Forall₂ (Token.InPlace source)
        (({ settings } : Lexer).feedSource source).1.tokens.toList
        (({ settings } : Lexer).feed source 1).1.finish.1.tokens.toList
      ∧ List.Forall₂ (Diagnostic.InPlace source)
        (({ settings } : Lexer).feedSource source).1.diagnostics.toList
        (({ settings } : Lexer).feed source 1).1.finish.1.diagnostics.toList := by
  obtain ⟨fs, hread, hadds⟩ := Lexer.feedSource_read hstars hok
  have hn : 0 + (Text.lines source).length ≤ (Text.lines source).length := by simp
  obtain ⟨q, gs, es, htrace, hfinish, hfs⟩ :=
    trace_parallel (lines_splitsInto source) (leftFrom_zero source.toList) hn hlong .outside hread
  have hreading : ({ settings } : Lexer).reading source 1 = ⟨{}, gs ++ es, .ok ()⟩ := by
    rw [Lexer.reading_eq_trace]
    simp only [List.length_nil] at htrace
    simp only [htrace, hfinish]
  have hadds' := Lexer.adds_feed { settings } source 1
  have hpending := Lexer.feed_pending { settings } source 1
  rw [hreading] at hadds' hpending
  have hend : (({ settings } : Lexer).feed source 1).1.finish =
      ((({ settings } : Lexer).feed source 1).1, .ok ()) := by
    simp [Lexer.finish, Lexer.state, hpending, State.isBlockComment]
  refine ⟨by rw [Lexer.feed_result, hreading], by rw [hend], ?_, ?_⟩
  · rw [hend, hadds.tokens, hadds'.tokens]
    exact forall₂_tokensOf hfs
  · rw [hend, hadds.diagnostics, hadds'.diagnostics]
    exact List.forall₂_take _ (forall₂_diagnosticsOf hfs)

/-- A comment over three lines, with a star and a slash that do not meet. -/
theorem feedSource_agrees_carried_comment :
    let settings : LexicalSettings := { carryComments := true }
    let source := "a /* *\n b\n/ */ c"
    (∀ l ∈ Text.lines source, l.toList.length < maxLexeme)
      ∧ StarsApart settings source
      ∧ (({ settings } : Lexer).feedSource source).2 = .ok ()
      ∧ (({ settings } : Lexer).feed source 1).2 = .ok ()
      ∧ (({ settings } : Lexer).feed source 1).1.finish.2 = .ok ()
      ∧ List.Forall₂ (Token.InPlace source)
        (({ settings } : Lexer).feedSource source).1.tokens.toList
        (({ settings } : Lexer).feed source 1).1.finish.1.tokens.toList
      ∧ List.Forall₂ (Diagnostic.InPlace source)
        (({ settings } : Lexer).feedSource source).1.diagnostics.toList
        (({ settings } : Lexer).feed source 1).1.finish.1.diagnostics.toList :=
  ⟨by decide +kernel, by decide +kernel, by decide +kernel,
    feedSource_agrees_carried _ _ (by decide +kernel) (by decide +kernel) (by decide +kernel)⟩

/-- A star at the end of a line and a slash at the beginning of the next close a comment that is
carried from line to line; in the source as one text the comment goes on. -/
theorem feedSource_closes_early :
    let lx : Lexer := { settings := { carryComments := true } }
    let source := "/* a *\n/ b */ c"
    (∀ l ∈ Text.lines source, l.toList.length < maxLexeme)
      ∧ (lx.feedSource source).2 = .ok ()
      ∧ (lx.feed source 1).2 = .ok () ∧ (lx.feed source 1).1.finish.2 = .ok ()
      ∧ (lx.feedSource source).1.tokens.toList.map (fun t => (t.kind, t.text)) ≠
        (lx.feed source 1).1.finish.1.tokens.toList.map (fun t => (t.kind, t.text)) :=
  ⟨by decide +kernel, by decide +kernel, by decide +kernel, by decide +kernel, by decide +kernel⟩

end ContractLex
