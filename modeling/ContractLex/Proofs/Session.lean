import ContractLex.Lexer
import ContractLex.Proofs.Tiling
import Mathlib.Data.List.Induction

/-!
# Calls to a lexer

What a lexer accumulates over a call, field by field, in terms of what the scanner found
(`feed_result`, `feed_tokens` and the lemmas beside them); and the lexers that a sequence of calls
can reach. Between two calls nothing is pending, or a block comment is carried (`Pending.Rests`), so
a reachable lexer whose state is `start` has nothing pending at all.
-/

namespace ContractLex

/-! ## Findings by sort -/

def Finding.token? : Finding → Option Token
  | .token t => some t
  | .fault _ _ | .comment => none

def Finding.diagnostic? : Finding → Option Diagnostic
  | .fault _ d => some d
  | .token _ | .comment => none

/-- The tokens among findings. -/
def tokensOf (fs : List Finding) : List Token := fs.filterMap Finding.token?

/-- The diagnostics among findings. -/
def diagnosticsOf (fs : List Finding) : List Diagnostic := fs.filterMap Finding.diagnostic?

/-- How many comments are among findings. -/
def commentsOf (fs : List Finding) : Nat := fs.countP (· == .comment)

section Findings

variable {fs gs : List Finding} {t : Token} {s : State} {d : Diagnostic}

@[simp] theorem tokensOf_nil : tokensOf [] = [] := rfl

@[simp] theorem tokensOf_token : tokensOf (.token t :: fs) = t :: tokensOf fs := rfl

@[simp] theorem tokensOf_fault : tokensOf (.fault s d :: fs) = tokensOf fs := rfl

@[simp] theorem tokensOf_comment : tokensOf (.comment :: fs) = tokensOf fs := rfl

@[simp] theorem tokensOf_append : tokensOf (fs ++ gs) = tokensOf fs ++ tokensOf gs :=
  List.filterMap_append

@[simp] theorem tokensOf_map_token (ts : List Token) : tokensOf (ts.map .token) = ts := by
  induction ts with
  | nil => rfl
  | cons t ts ih => rw [List.map_cons, tokensOf_token, ih]

@[simp] theorem diagnosticsOf_nil : diagnosticsOf [] = [] := rfl

@[simp] theorem diagnosticsOf_token : diagnosticsOf (.token t :: fs) = diagnosticsOf fs := rfl

@[simp] theorem diagnosticsOf_fault :
    diagnosticsOf (.fault s d :: fs) = d :: diagnosticsOf fs := rfl

@[simp] theorem diagnosticsOf_comment : diagnosticsOf (.comment :: fs) = diagnosticsOf fs := rfl

@[simp] theorem diagnosticsOf_append :
    diagnosticsOf (fs ++ gs) = diagnosticsOf fs ++ diagnosticsOf gs :=
  List.filterMap_append

@[simp] theorem diagnosticsOf_map_token (ts : List Token) : diagnosticsOf (ts.map .token) = [] := by
  induction ts with
  | nil => rfl
  | cons t ts ih => rw [List.map_cons, diagnosticsOf_token, ih]

@[simp] theorem commentsOf_nil : commentsOf [] = 0 := rfl

@[simp] theorem commentsOf_token : commentsOf (.token t :: fs) = commentsOf fs := by
  simp [commentsOf]

@[simp] theorem commentsOf_fault : commentsOf (.fault s d :: fs) = commentsOf fs := by
  simp [commentsOf]

@[simp] theorem commentsOf_comment : commentsOf (.comment :: fs) = commentsOf fs + 1 := by
  simp [commentsOf]

@[simp] theorem commentsOf_append : commentsOf (fs ++ gs) = commentsOf fs + commentsOf gs := by
  simp [commentsOf]

@[simp] theorem commentsOf_map_token (ts : List Token) : commentsOf (ts.map .token) = 0 := by
  induction ts with
  | nil => rfl
  | cons t ts ih => rw [List.map_cons, commentsOf_token, ih]

@[simp] theorem tokensOf_overflow (p : Pending) (s : Site) : tokensOf (p.overflow s) = [] := by
  unfold Pending.overflow
  split <;> rfl

theorem mem_tokensOf : t ∈ tokensOf fs ↔ .token t ∈ fs := by
  simp only [tokensOf, List.mem_filterMap]
  constructor
  · rintro ⟨f, hf, heq⟩
    cases f with
    | token u =>
        cases heq
        exact hf
    | fault | comment => cases heq
  · exact fun h => ⟨_, h, rfl⟩

theorem mem_diagnosticsOf : d ∈ diagnosticsOf fs ↔ ∃ s, .fault s d ∈ fs := by
  simp only [diagnosticsOf, List.mem_filterMap]
  constructor
  · rintro ⟨f, hf, heq⟩
    cases f with
    | fault s e =>
        cases heq
        exact ⟨s, hf⟩
    | token | comment => cases heq
  · exact fun ⟨s, h⟩ => ⟨_, h, rfl⟩

end Findings

namespace Lexer

/-! ## What absorbing adds -/

section Absorb

variable {β : Type}

/-- What no finding changes, findings leave alone. -/
theorem foldl_absorb_const (g : Lexer → β) (h : ∀ lx f, g (absorb lx f) = g lx)
    (fs : List Finding) : ∀ lx : Lexer, g (fs.foldl absorb lx) = g lx := by
  induction fs with
  | nil => exact fun _ => rfl
  | cons f fs ih => exact fun lx => (ih (lx.absorb f)).trans (h lx f)

theorem foldl_absorb_pending (fs : List Finding) (lx : Lexer) :
    (fs.foldl absorb lx).pending = lx.pending :=
  foldl_absorb_const Lexer.pending (fun _ f => by cases f <;> rfl) fs lx

theorem foldl_absorb_settings (fs : List Finding) (lx : Lexer) :
    (fs.foldl absorb lx).settings = lx.settings :=
  foldl_absorb_const Lexer.settings (fun _ f => by cases f <;> rfl) fs lx

theorem foldl_absorb_lines (fs : List Finding) (lx : Lexer) :
    (fs.foldl absorb lx).metrics.lines = lx.metrics.lines :=
  foldl_absorb_const (·.metrics.lines)
    (fun lx f => by cases f <;> simp only [absorb, addToken] <;> (try split) <;> rfl) fs lx

theorem foldl_absorb_chars (fs : List Finding) (lx : Lexer) :
    (fs.foldl absorb lx).metrics.chars = lx.metrics.chars :=
  foldl_absorb_const (·.metrics.chars)
    (fun lx f => by cases f <;> simp only [absorb, addToken] <;> (try split) <;> rfl) fs lx

theorem foldl_absorb_tokens (fs : List Finding) :
    ∀ lx : Lexer, (fs.foldl absorb lx).tokens.toList = lx.tokens.toList ++ tokensOf fs := by
  induction fs with
  | nil => exact fun lx => by simp
  | cons f fs ih =>
      intro lx
      rw [List.foldl_cons, ih]
      cases f <;> simp [absorb, addToken, addDiagnostic, addComment]

theorem foldl_absorb_comments (fs : List Finding) :
    ∀ lx : Lexer, (fs.foldl absorb lx).metrics.comments = lx.metrics.comments + commentsOf fs := by
  induction fs with
  | nil => exact fun _ => rfl
  | cons f fs ih =>
      intro lx
      rw [List.foldl_cons, ih]
      cases f <;> simp only [absorb, addToken, addDiagnostic, addComment, commentsOf_token,
        commentsOf_fault, commentsOf_comment]
      · split <;> rfl
      · omega

theorem foldl_absorb_tally (fs : List Finding) :
    ∀ lx : Lexer, (fs.foldl absorb lx).metrics.tokens =
      if lx.settings.collectMetrics then
        (tokensOf fs).foldl (fun n t => n.add t.kind) lx.metrics.tokens
      else lx.metrics.tokens := by
  induction fs with
  | nil => exact fun lx => by simp
  | cons f fs ih =>
      intro lx
      rw [List.foldl_cons, ih]
      cases f with
      | token t => by_cases hm : lx.settings.collectMetrics = true <;> simp [absorb, addToken, hm]
      | fault s d => rfl
      | comment => rfl

theorem foldl_absorb_diagnosticCount (fs : List Finding) :
    ∀ lx : Lexer,
      (fs.foldl absorb lx).metrics.diagnostics =
        lx.metrics.diagnostics + (diagnosticsOf fs).length := by
  induction fs with
  | nil => exact fun _ => rfl
  | cons f fs ih =>
      intro lx
      rw [List.foldl_cons, ih]
      cases f <;> simp only [absorb, addToken, addDiagnostic, addComment, diagnosticsOf_token,
        diagnosticsOf_fault, diagnosticsOf_comment, List.length_cons]
      · split <;> rfl
      · omega

/-- Diagnostics are kept while there is room. -/
theorem foldl_absorb_diagnostics (fs : List Finding) :
    ∀ lx : Lexer, (fs.foldl absorb lx).diagnostics.toList =
      lx.diagnostics.toList ++ (diagnosticsOf fs).take (maxDiagnostics - lx.diagnostics.size) := by
  induction fs with
  | nil => exact fun lx => by simp
  | cons f fs ih =>
      intro lx
      rw [List.foldl_cons, ih]
      cases f with
      | token t => rfl
      | comment => rfl
      | fault s d =>
          by_cases hroom : lx.diagnostics.size < maxDiagnostics
          · obtain ⟨room, hr⟩ : ∃ room, maxDiagnostics - lx.diagnostics.size = room + 1 :=
              ⟨maxDiagnostics - lx.diagnostics.size - 1, by omega⟩
            have hr' : maxDiagnostics - (lx.diagnostics.size + 1) = room := by omega
            simp [absorb, addDiagnostic, hroom, hr, hr']
          · have hr : maxDiagnostics - lx.diagnostics.size = 0 := by omega
            simp [absorb, addDiagnostic, hroom, hr]

/-- What is kept of diagnostics, when more of them are reported. -/
theorem kept_append {kept : Array Diagnostic} {ds : List Diagnostic}
    (h : kept.toList = ds.take maxDiagnostics) (es : List Diagnostic) :
    kept.toList ++ es.take (maxDiagnostics - kept.size) = (ds ++ es).take maxDiagnostics := by
  have hsize : kept.size = min maxDiagnostics ds.length := by
    rw [← Array.length_toList, h, List.length_take]
  rw [h, List.take_append, hsize]
  congr 2
  omega

theorem foldl_absorb_with_pending (fs : List Finding) (p : Pending) :
    ∀ lx : Lexer, { fs.foldl absorb lx with pending := p } =
      fs.foldl absorb { lx with pending := p } := by
  induction fs with
  | nil => exact fun _ => rfl
  | cons f fs ih =>
      intro lx
      rw [List.foldl_cons, List.foldl_cons, ih]
      cases f <;> rfl

end Absorb

/-! ## A feed, field by field -/

/-- What the scanner makes of a text: everything it reports, and how the text ends. -/
def reading (lx : Lexer) (text : String) (line : Nat) : Ending :=
  let s := scan text.toList.toArray line 0 lx.pending #[] text.toList
  let e := s.pending.finish ⟨text.toList.toArray, line, text.toList.length⟩
    lx.settings.carryComments
  ⟨e.pending, s.findings.toList ++ e.findings, e.result⟩

theorem reading_eq_trace (lx : Lexer) (text : String) (line : Nat) :
    lx.reading text line =
      let t := trace text.toList line 0 lx.pending text.toList
      let e := t.1.finish ⟨text.toList.toArray, line, text.toList.length⟩ lx.settings.carryComments
      ⟨e.pending, t.2 ++ e.findings, e.result⟩ := by
  simp [reading, scan_eq_trace]

/-- The tokens that a text adds. -/
def emitted (lx : Lexer) (text : String) (line : Nat) : List Token :=
  tokensOf (lx.reading text line).findings

/-- The diagnostics that a text adds, those included for which there is no room. -/
def reported (lx : Lexer) (text : String) (line : Nat) : List Diagnostic :=
  diagnosticsOf (lx.reading text line).findings

/-- A lexer that has been through a text of `n` characters and goes on with `p`, before anything
that was found is added. -/
def through (lx : Lexer) (p : Pending) (n : Nat) : Lexer :=
  { lx with
    pending := p
    metrics := { lx.metrics with
      lines := lx.metrics.lines + 1, chars := lx.metrics.chars + n } }

theorem absorbScan_settings (lx : Lexer) (s : Scan) :
    (lx.absorbScan s).settings = lx.settings := by
  rw [absorbScan, ← Array.foldl_toList]
  exact foldl_absorb_settings _ _

theorem absorbEnding_absorbScan (lx : Lexer) (s : Scan) (e : Ending) :
    (lx.absorbScan s).absorbEnding e =
      (s.findings.toList ++ e.findings).foldl absorb (lx.through e.pending s.used) := by
  rw [absorbScan, absorbEnding, ← Array.foldl_toList, List.foldl_append]
  congr 1
  exact foldl_absorb_with_pending _ _ _

/-- A lexer after a text, but for the last note to the log. -/
def fed (lx : Lexer) (text : String) (line : Nat) : Lexer :=
  (lx.reading text line).findings.foldl absorb
    ((lx.note (.feeding line text.toList.length)).through (lx.reading text line).pending
      text.toList.length)

theorem feed_eq (lx : Lexer) (text : String) (line : Nat) :
    lx.feed text line =
      match (lx.reading text line).result with
      | .error error => (lx.fed text line, .error error)
      | .ok () =>
          if (lx.fed text line).state.isBlockComment then
            ((lx.fed text line).note (.carrying line), .ok ())
          else
            ((lx.fed text line).note (.flushed line (lx.fed text line).tokens.size), .ok ()) := by
  have hstuck : (scan text.toList.toArray line 0 lx.pending #[] text.toList).stuck = none := by
    simp [scan_eq_trace]
  have hused : (scan text.toList.toArray line 0 lx.pending #[] text.toList).used =
      text.toList.length := by simp [scan_eq_trace]
  unfold feed
  simp only [hstuck, hused, absorbScan_settings, absorbEnding_absorbScan, List.size_toArray]
  rfl

theorem feed_result (lx : Lexer) (text : String) (line : Nat) :
    (lx.feed text line).2 = (lx.reading text line).result := by
  rw [feed_eq]
  split
  · next error h => exact h.symm
  · next h =>
    rw [h]
    split <;> rfl

/-- But for the log, a fed lexer holds what `fed` says. -/
theorem feed_field {β : Type} (g : Lexer → β) (hg : ∀ ly n, g (note ly n) = g ly) (lx : Lexer)
    (text : String) (line : Nat) : g (lx.feed text line).1 = g (lx.fed text line) := by
  rw [feed_eq]
  split
  · rfl
  · split
    · exact hg _ _
    · exact hg _ _

section Feed

variable (lx : Lexer) (text : String) (line : Nat)

theorem feed_pending : (lx.feed text line).1.pending = (lx.reading text line).pending := by
  rw [feed_field Lexer.pending (fun _ _ => rfl), fed, foldl_absorb_pending]
  rfl

theorem feed_settings : (lx.feed text line).1.settings = lx.settings := by
  rw [feed_field Lexer.settings (fun _ _ => rfl), fed, foldl_absorb_settings]
  rfl

theorem feed_tokens :
    (lx.feed text line).1.tokens.toList =
      lx.tokens.toList ++ tokensOf (lx.reading text line).findings := by
  rw [feed_field Lexer.tokens (fun _ _ => rfl), fed, foldl_absorb_tokens]
  rfl

theorem feed_diagnostics :
    (lx.feed text line).1.diagnostics.toList =
      lx.diagnostics.toList ++ (diagnosticsOf (lx.reading text line).findings).take
        (maxDiagnostics - lx.diagnostics.size) := by
  rw [feed_field Lexer.diagnostics (fun _ _ => rfl), fed, foldl_absorb_diagnostics]
  rfl

theorem feed_lines : (lx.feed text line).1.metrics.lines = lx.metrics.lines + 1 := by
  rw [feed_field (·.metrics.lines) (fun _ _ => rfl), fed, foldl_absorb_lines]
  rfl

theorem feed_chars :
    (lx.feed text line).1.metrics.chars = lx.metrics.chars + text.toList.length := by
  rw [feed_field (·.metrics.chars) (fun _ _ => rfl), fed, foldl_absorb_chars]
  rfl

theorem feed_comments :
    (lx.feed text line).1.metrics.comments =
      lx.metrics.comments + commentsOf (lx.reading text line).findings := by
  rw [feed_field (·.metrics.comments) (fun _ _ => rfl), fed, foldl_absorb_comments]
  rfl

theorem feed_tally :
    (lx.feed text line).1.metrics.tokens =
      if lx.settings.collectMetrics then
        (tokensOf (lx.reading text line).findings).foldl (fun n t => n.add t.kind)
          lx.metrics.tokens
      else lx.metrics.tokens := by
  rw [feed_field (·.metrics.tokens) (fun _ _ => rfl), fed, foldl_absorb_tally]
  rfl

theorem feed_diagnosticCount :
    (lx.feed text line).1.metrics.diagnostics =
      lx.metrics.diagnostics + (diagnosticsOf (lx.reading text line).findings).length := by
  rw [feed_field (·.metrics.diagnostics) (fun _ _ => rfl), fed, foldl_absorb_diagnosticCount]
  rfl

theorem feed_metrics :
    (lx.feed text line).1.metrics =
      { tokens :=
          if lx.settings.collectMetrics then
            (tokensOf (lx.reading text line).findings).foldl (fun n t => n.add t.kind)
              lx.metrics.tokens
          else lx.metrics.tokens
        diagnostics :=
          lx.metrics.diagnostics + (diagnosticsOf (lx.reading text line).findings).length
        comments := lx.metrics.comments + commentsOf (lx.reading text line).findings
        lines := lx.metrics.lines + 1
        chars := lx.metrics.chars + text.toList.length } := by
  rw [← feed_tally, ← feed_diagnosticCount, ← feed_comments, ← feed_lines lx text line, ← feed_chars]

end Feed

end Lexer

/-! ## Between two calls -/

/-- A block comment is carried from one text to the next; it began before column `b`. -/
structure Pending.Carried (b : Nat) (p : Pending) : Prop where
  state : p.state.isBlockComment = true
  lexeme : p.lexeme = #[]
  length : p.length = 0
  opened : ∃ o, p.opened = some o ∧ o.column < b

/-- What is pending between two calls: nothing, or a comment if comments are carried. -/
def Pending.Rests (carry : Bool) (b : Nat) (p : Pending) : Prop :=
  p = {} ∨ carry = true ∧ p.Carried b

theorem Pending.Carried.mono {b b' : Nat} {p : Pending} (h : p.Carried b) (hb : b ≤ b') :
    p.Carried b' := by
  obtain ⟨o, ho, hlt⟩ := h.opened
  exact ⟨h.state, h.lexeme, h.length, o, ho, Nat.lt_of_lt_of_le hlt hb⟩

theorem Pending.Rests.mono {carry : Bool} {b b' : Nat} {p : Pending} (h : p.Rests carry b)
    (hb : b ≤ b') : p.Rests carry b' :=
  h.imp_right fun ⟨hcarry, hp⟩ => ⟨hcarry, hp.mono hb⟩

section Carried

variable {text : List Char} {line b : Nat} {p : Pending}

/-- A character either stays inside a carried comment or ends it. -/
theorem Pending.Carried.dispatch_cases (h : p.Carried b) (s : Site) (c : Char) :
    (∃ st, st.isBlockComment = true ∧ dispatch p s c = .use (p.goto st))
      ∨ dispatch p s c = .use {} [.comment] := by
  rcases State.eq_of_isBlockComment h.state with hst | hst
  · left
    simp only [dispatch, hst, onBlockComment]
    split
    · exact ⟨.blockCommentStar, rfl, rfl⟩
    · exact ⟨.blockComment, rfl, by rw [Pending.goto, ← hst]⟩
  · simp only [dispatch, hst, onBlockCommentStar]
    split
    · exact Or.inr rfl
    · left
      split
      · exact ⟨.blockCommentStar, rfl, by rw [Pending.goto, ← hst]⟩
      · exact ⟨.blockComment, rfl, rfl⟩

theorem Pending.Carried.step_cases (h : p.Carried b) (s : Site) (c : Char) :
    (∃ st, st.isBlockComment = true ∧ step s p c = .use (p.goto st))
      ∨ step s p c = .use {} [.comment] := by
  have hfull : p.isFull = false := by simp [Pending.isFull, State.isComment, h.state]
  rcases h.dispatch_cases s c with ⟨st, hst, heq⟩ | heq
  · exact Or.inl ⟨st, hst, by simp [step, hfull, settle, heq, Move.use]⟩
  · exact Or.inr (by simp [step, hfull, settle, heq, Move.use])

/-- A carried comment goes on through all of `rest`, or it ends within it. -/
theorem Pending.Carried.trace_cases (text : List Char) (line : Nat) (rest : List Char) :
    ∀ {p : Pending} (i : Nat), p.Carried b →
      (∃ st, st.isBlockComment = true ∧ trace text line i p rest = (p.goto st, []))
        ∨ ∃ head tail, rest = head ++ tail ∧ head ≠ []
          ∧ trace text line i p head = ({}, [.comment]) := by
  induction rest with
  | nil => exact fun {p} i h => Or.inl ⟨p.state, h.state, rfl⟩
  | cons c rest ih =>
      intro p i h
      rcases h.step_cases ⟨text.toArray, line, i⟩ c with ⟨st, hst, hstep⟩ | hstep
      · have hgoto : (p.goto st).Carried b := ⟨hst, h.lexeme, h.length, h.opened⟩
        rcases ih (i + 1) hgoto with ⟨st', hst', heq⟩ | ⟨head, tail, rfl, -, heq⟩
        · refine Or.inl ⟨st', hst', ?_⟩
          simp only [trace, hstep, Move.use, heq]
          rfl
        · refine Or.inr ⟨c :: head, tail, rfl, List.cons_ne_nil c head, ?_⟩
          simp only [trace, hstep, Move.use, heq]
          rfl
      · refine Or.inr ⟨[c], rest, rfl, List.cons_ne_nil c [], ?_⟩
        simp [trace, hstep, Move.use]

/-- Through a text, a resting scanner stays inside a carried comment; or it goes on between tokens
from some column, before which only a carried comment can have ended. -/
theorem Pending.Rests.trace_cases {carry : Bool} (h : p.Rests carry b) (text : List Char)
    (line : Nat) :
    (∃ st, carry = true ∧ p.Carried b ∧ st.isBlockComment = true
      ∧ trace text line 0 p text = (p.goto st, []))
    ∨ ∃ k front, k ≤ text.length ∧ (front = [] ∨ 0 < k ∧ front = [.comment])
      ∧ trace text line 0 p text =
        ((traceFrom text line k).1, front ++ (traceFrom text line k).2) := by
  rcases h with rfl | ⟨hcarry, h⟩
  · exact Or.inr ⟨0, [], Nat.zero_le _, Or.inl rfl, rfl⟩
  · rcases h.trace_cases text line text 0 with
      ⟨st, hst, heq⟩ | ⟨head, tail, htext, hne, heq⟩
    · exact Or.inl ⟨st, hcarry, h, hst, heq⟩
    · have hdrop : text.drop head.length = tail := by rw [htext, List.drop_left]
      have hsplit := trace_append text line head tail 0 p
      rw [← htext, heq, Nat.zero_add, ← hdrop] at hsplit
      exact Or.inr ⟨head.length, [.comment], by simp [htext],
        Or.inr ⟨List.length_pos_iff.mpr hne, rfl⟩, hsplit⟩

/-- A block comment that is open at the end of a text can be carried. -/
theorem Pending.Stands.carried {start : Nat} (h : p.Stands text line text.length none start)
    (hst : p.state.isBlockComment = true) : p.Carried text.length := by
  have hidle := State.isIdle_of_isBlockComment hst
  have hlexeme : p.lexeme = #[] := by
    have hh := h.holds
    rcases State.eq_of_isBlockComment hst with heq | heq <;> rw [heq] at hh <;> simpa using hh.1
  exact ⟨hst, hlexeme, by rw [h.length_eq, hlexeme]; rfl, ⟨line, start⟩, h.opened_some hidle,
    h.start_lt_of_ne_nil (h.holds.ne_nil hidle)⟩

end Carried

section Reading

variable {lx : Lexer} {b : Nat}

/-- Every reading that begins at rest either stays inside a carried comment, or is that of the text
from some column on, before which only a carried comment ended. -/
theorem Lexer.reading_cases (text : String) (line : Nat)
    (h : lx.pending.Rests lx.settings.carryComments b) :
    (∃ st, lx.settings.carryComments = true ∧ lx.pending.Carried b ∧ st.isBlockComment = true
      ∧ lx.reading text line = ⟨lx.pending.goto st, [], .ok ()⟩)
    ∨ ∃ k front, k ≤ text.toList.length ∧ (front = [] ∨ 0 < k ∧ front = [.comment])
      ∧ ∃ e, e = (traceFrom text.toList line k).1.finish
          ⟨text.toList.toArray, line, text.toList.length⟩ lx.settings.carryComments
        ∧ lx.reading text line =
          ⟨e.pending, front ++ (traceFrom text.toList line k).2 ++ e.findings, e.result⟩ := by
  rcases h.trace_cases text.toList line with
    ⟨st, hcarry, hp, hst, heq⟩ | ⟨k, front, hk, hfront, heq⟩
  · refine Or.inl ⟨st, hcarry, hp, hst, ?_⟩
    rcases State.eq_of_isBlockComment hst with rfl | rfl
    · simp [reading_eq_trace, heq, hcarry, Pending.finish, Pending.goto]
    · simp [reading_eq_trace, heq, hcarry, Pending.finish, Pending.goto]
  · refine Or.inr ⟨k, front, hk, hfront, _, rfl, ?_⟩
    rw [reading_eq_trace, heq]

/-- From that column on, the text is tiled up to where the last piece begins. -/
theorem Lexer.reading_tiles (text : String) (line : Nat)
    (h : lx.pending.Rests lx.settings.carryComments b) :
    (∃ st, lx.settings.carryComments = true ∧ lx.pending.Carried b ∧ st.isBlockComment = true
      ∧ lx.reading text line = ⟨lx.pending.goto st, [], .ok ()⟩)
    ∨ ∃ k front fs start p e, (front = [] ∨ 0 < k ∧ front = [.comment])
      ∧ Tiles text.toList line k fs start
      ∧ p.Stands text.toList line text.toList.length none start
      ∧ Ends text.toList line lx.settings.carryComments p start e
      ∧ lx.reading text line = ⟨e.pending, front ++ fs ++ e.findings, e.result⟩ := by
  rcases Lexer.reading_cases text line h with hcarried | ⟨k, front, hk, hfront, e, rfl, heq⟩
  · exact Or.inl hcarried
  · obtain ⟨start, htiles, hstands⟩ := traceFrom_tiles line hk
    exact Or.inr ⟨k, front, _, start, _, _, hfront, htiles, hstands,
      finish_ends lx.settings.carryComments rfl hstands, heq⟩

/-- After a text the scanner rests again. -/
theorem Lexer.reading_rests (text : String) (line : Nat)
    (h : lx.pending.Rests lx.settings.carryComments b) :
    (lx.reading text line).pending.Rests lx.settings.carryComments (b + text.toList.length) := by
  rcases Lexer.reading_tiles text line h with
    ⟨st, hcarry, hp, hst, heq⟩ | ⟨k, front, fs, start, p, e, -, -, hstands, hends, heq⟩
  · rw [heq]
    obtain ⟨o, ho, hlt⟩ := hp.opened
    exact Or.inr ⟨hcarry, hst, hp.lexeme, hp.length, o, ho, Nat.lt_add_right _ hlt⟩
  · rw [heq]
    cases hends with
    | settled => exact Or.inl rfl
    | cut => exact Or.inl rfl
    | terminal => exact Or.inl rfl
    | carried hcarry hst =>
        exact Or.inr ⟨hcarry, (hstands.carried hst).mono (Nat.le_add_left _ _)⟩

end Reading

/-! ## Sequences of calls -/

/-- A call to a lexer. -/
inductive Call where
  | feed (text : String) (line : Nat)
  | finish
  | reset
  | takeTokens
  | takeTrail
deriving DecidableEq, Repr

/-- The error of a call, if there is one. -/
def errorsOf : Except LexError Unit → List LexError
  | .ok () => []
  | .error error => [error]

/-- Calls and characters, counted together. -/
def Call.cost : Call → Nat
  | .feed text _ => 1 + text.toList.length
  | .finish | .reset | .takeTokens | .takeTrail => 1

namespace Lexer

/-- Makes a call: the lexer after it, and whether it failed. -/
def call (lx : Lexer) : Call → Lexer × Except LexError Unit
  | .feed text line => lx.feed text line
  | .finish => lx.finish
  | .reset => (lx.reset, .ok ())
  | .takeTokens => (lx.takeTokens.2, .ok ())
  | .takeTrail => (lx.takeTrail.2, .ok ())

/-- Makes calls one after the other, whether they fail or not. -/
def run (lx : Lexer) (calls : List Call) : Lexer := calls.foldl (fun ly c => (ly.call c).1) lx

/-- Lexers that calls can lead to, from a fresh one with any settings. -/
def Reachable (lx : Lexer) : Prop :=
  ∃ (settings : LexicalSettings) (calls : List Call), lx = ({ settings } : Lexer).run calls

theorem run_append (lx : Lexer) (a b : List Call) : lx.run (a ++ b) = (lx.run a).run b :=
  List.foldl_append

theorem run_concat (lx : Lexer) (calls : List Call) (c : Call) :
    lx.run (calls ++ [c]) = ((lx.run calls).call c).1 := by
  simp [run]

section Calls

variable {lx : Lexer} {b : Nat}

/-- A failing `finish` lets go of the comment that was carried. -/
theorem finish_cases (h : lx.pending.Rests lx.settings.carryComments b) :
    lx.finish = (lx, .ok ())
      ∨ ∃ o, lx.pending.opened = some o ∧ o.column < b
        ∧ lx.finish =
          ({ lx with pending := {} }.addDiagnostic lx.state (Fault.openComment.diagnostic o),
            .error (.terminal (Fault.openComment.diagnostic o))) := by
  rcases h with hp | ⟨-, hp⟩
  · left
    simp [finish, state, hp, State.isBlockComment]
  · right
    obtain ⟨o, ho, hlt⟩ := hp.opened
    refine ⟨o, ho, hlt, ?_⟩
    have hst : lx.state.isBlockComment = true := hp.state
    rw [finish, if_pos hst]
    simp only [Pending.terminate, ho, Option.getD_some, absorbEnding]
    rfl

/-- What `finish` accepts has nothing pending. -/
theorem pending_of_finish (h : lx.pending.Rests lx.settings.carryComments b)
    (hok : lx.finish.2 = .ok ()) : lx.pending = {} ∧ lx.finish = (lx, .ok ()) := by
  rcases h with hp | ⟨-, hp⟩
  · exact ⟨hp, by simp [finish, state, hp, State.isBlockComment]⟩
  · have hst : lx.state.isBlockComment = true := hp.state
    rw [finish, if_pos hst] at hok
    cases hok

theorem call_settings (lx : Lexer) (c : Call) : (lx.call c).1.settings = lx.settings := by
  cases c with
  | feed text line => exact lx.feed_settings text line
  | finish =>
      simp only [call, finish, absorbEnding]
      split
      · exact foldl_absorb_settings _ _
      · rfl
  | reset | takeTokens | takeTrail => rfl

theorem run_settings (lx : Lexer) (calls : List Call) : (lx.run calls).settings = lx.settings := by
  induction calls using List.reverseRecOn with
  | nil => rfl
  | append_singleton calls c ih => rw [run_concat, call_settings, ih]

/-- Every call leaves the scanner at rest. -/
theorem call_rests (h : lx.pending.Rests lx.settings.carryComments b) (c : Call) :
    (lx.call c).1.pending.Rests lx.settings.carryComments (b + c.cost) := by
  cases c with
  | feed text line =>
      rw [call, feed_pending]
      refine (reading_rests text line h).mono ?_
      simp only [Call.cost]
      omega
  | finish =>
      rcases finish_cases h with heq | ⟨o, -, -, heq⟩
      · rw [call, heq]
        exact h.mono (Nat.le_add_right _ _)
      · rw [call, heq]
        exact Or.inl rfl
  | reset => exact Or.inl rfl
  | takeTokens | takeTrail => exact h.mono (Nat.le_add_right _ _)

/-- The scanner is at rest after any calls. -/
theorem Reachable.rests (h : lx.Reachable) :
    ∃ b, lx.pending.Rests lx.settings.carryComments b := by
  obtain ⟨settings, calls, rfl⟩ := h
  induction calls using List.reverseRecOn with
  | nil => exact ⟨0, Or.inl rfl⟩
  | append_singleton calls c ih =>
      obtain ⟨b, hb⟩ := ih
      rw [run_concat, call_settings]
      exact ⟨b + c.cost, call_rests hb c⟩

/-- A reachable lexer in `start` has nothing pending. -/
theorem Reachable.pending_eq (h : lx.Reachable) (hstart : lx.state = .start) :
    lx.pending = {} := by
  obtain ⟨b, hp | ⟨-, hp⟩⟩ := h.rests
  · exact hp
  · have hst : lx.state.isBlockComment = true := hp.state
    simp [hstart, State.isBlockComment] at hst

/-- The reading of a lexer in `start`. -/
theorem Reachable.reading_ends (h : lx.Reachable) (hstart : lx.state = .start) (text : String)
    (line : Nat) :
    ∃ fs start p e, Tiles text.toList line 0 fs start
      ∧ Ends text.toList line lx.settings.carryComments p start e
      ∧ lx.reading text line = ⟨e.pending, fs ++ e.findings, e.result⟩ := by
  obtain ⟨start, htiles, hstands⟩ := traceFrom_tiles line (Nat.zero_le text.toList.length)
  refine ⟨_, start, _, _, htiles, finish_ends _ rfl hstands, ?_⟩
  rw [reading_eq_trace, h.pending_eq hstart]
  rfl

end Calls

end Lexer

end ContractLex
