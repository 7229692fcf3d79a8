import ContractLex.Proofs.ReadOn

/-!
# A comment is worth one blank

A blank and a complete comment have this in common: where nothing is pending before them, nothing is
pending after them, and no token and no fault comes of them (`trace_space`, `trace_comment`). So
what follows is read as a text of its own in both cases (`readOn_filler`). The two readings are the
same but for the comment that is counted, and for the columns of what follows. Nothing of the
comment is left over: not the slash that might have been an operator, nor the column where a token
would have begun.
-/

namespace ContractLex

/-! ## Blanks and comments -/

section Trace

variable {text body : List Char} {line i : Nat} {p : Pending}

theorem trace_space (text : List Char) (line i : Nat) : trace text line i {} [' '] = ({}, []) := rfl

/-- A line comment ends with the first line feed. -/
theorem trace_lineComment (hp : p.state = .lineComment) (hbody : '\n' ∉ body) :
    trace text line i p (body ++ ['\n']) = ({}, [.comment]) := by
  obtain ⟨st, l, o, m⟩ := p
  obtain rfl : st = .lineComment := hp
  have hfull : (Pending.mk .lineComment l o m).isFull = false := by
    simp [Pending.isFull, State.isComment]
  induction body generalizing i with
  | nil =>
      have hclose : step ⟨text.toArray, line, i⟩ ⟨.lineComment, l, o, m⟩ '\n' =
          .use {} [.comment] := step_use rfl hfull
      simp only [List.nil_append, trace, hclose, Move.use]
      rfl
  | cons c body ih =>
      rw [List.mem_cons, not_or] at hbody
      obtain ⟨hc, hbody⟩ := hbody
      have hstay : step ⟨text.toArray, line, i⟩ ⟨.lineComment, l, o, m⟩ c =
          .use ⟨.lineComment, l, o, m⟩ := by
        refine step_use ?_ hfull
        simp only [dispatch, onLineComment, Ne.symm hc, if_false]
      simp only [List.cons_append, trace, hstay, Move.use, ih hbody]
      rfl

/-- Where nothing is pending, a complete comment leaves nothing pending. -/
theorem trace_comment {w : List Char} (h : IsComment w) (text : List Char) (line i : Nat) :
    trace text line i {} w = ({}, [.comment]) := by
  have hslash : step ⟨text.toArray, line, i⟩ {} '/' = .use (.under .slash #['/'] line i) := rfl
  have hfull : (Pending.under .slash #['/'] line i).isFull = false :=
    isFull_eq_false (by simp [maxLexeme])
  cases h with
  | @block body hopen =>
      have hstar : step ⟨text.toArray, line, i + 1⟩ (.under .slash #['/'] line i) '*' =
          .use (.under .blockComment #[] line i) := step_use rfl hfull
      have hcomment : InComment [] (.under .blockComment #[] line i) :=
        ⟨rfl, rfl, by simp [IsOpen]⟩
      have hclose : trace text line (i + 1 + 1) (.under .blockComment #[] line i)
          (body ++ ['*'] ++ ['/']) = ({}, [.comment]) :=
        hcomment.trace_close (by simpa using hopen) (by simp)
      rw [List.append_assoc] at hclose
      simp only [List.cons_append, trace, hslash, hstar, Move.use, List.nil_append]
      exact hclose
  | @line body hbody =>
      have hagain : step ⟨text.toArray, line, i + 1⟩ (.under .slash #['/'] line i) '/' =
          .use (.under .lineComment #[] line i) := step_use rfl hfull
      have hclose : trace text line (i + 1 + 1) (.under .lineComment #[] line i)
          (body ++ ['\n']) = ({}, [.comment]) := trace_lineComment rfl hbody
      simp only [List.cons_append, trace, hslash, hagain, Move.use, List.nil_append]
      exact hclose

end Trace

/-! ## What follows is read as a text of its own -/

section ReadOn

variable {a w c : List Char} {line : Nat} {carry : Bool} {fs gs : List Finding}

/-- A text, then something that leaves nothing pending, then what is read afresh. -/
theorem readOn_filler (ha : trace a line 0 {} a = ({}, fs))
    (hw : ∀ text, trace text line a.length {} w = ({}, gs)) :
    readOn (a ++ w ++ c) line carry 0 {} =
      ((readOn c line carry 0 {}).moved line (a.length + w.length)).after (fs ++ gs) := by
  have htake : (a ++ w ++ c).take a.length = a := by
    rw [List.append_assoc, List.take_left]
  have hle : a.length ≤ (a ++ w ++ c).length := by
    simp only [List.length_append]
    omega
  have htext : trace (a ++ w ++ c) line 0 {} a = ({}, fs) := by
    have hsame := trace_take line hle a (i := 0) (p := {}) (Nat.le_of_eq (Nat.zero_add _))
    rw [← hsame, htake, ha]
  have hprefix : a <+: (a ++ w ++ c).drop 0 := ⟨w ++ c, by simp⟩
  have hfiller : w <+: (a ++ w ++ c).drop (0 + a.length) := ⟨c, by simp⟩
  have hdrop : (a ++ w ++ c).drop (a.length + w.length) = c := by
    rw [← List.length_append, List.drop_left]
  have hstop : a.length + w.length ≤ (a ++ w ++ c).length := by
    simp only [List.length_append]
    omega
  have hw' : trace (a ++ w ++ c) line (0 + a.length) {} w = ({}, gs) := by
    rw [Nat.zero_add]
    exact hw _
  rw [readOn_trace hprefix htext, readOn_trace hfiller hw', Nat.zero_add, readOn_fresh hstop, hdrop,
    Ending.after_after]

/-- A text after which the scanner is in `start` leaves nothing pending, and all that was found lies
in it. -/
theorem trace_of_start (h : (trace a line 0 {} a).1.state = .start) :
    ∃ fs, trace a line 0 {} a = ({}, fs) ∧ ∀ f ∈ fs, f.Within a.length := by
  obtain ⟨start, htiles, hstands⟩ := traceFrom_tiles line (Nat.zero_le a.length)
  have hidle : (traceFrom a line 0).1.state.isIdle = true := by
    rw [show (traceFrom a line 0).1.state = .start from h]
    rfl
  have hpending : (traceFrom a line 0).1 = {} := by
    rw [hstands.eq_of_idle hidle, show (traceFrom a line 0).1.state = .start from h]
  exact ⟨(traceFrom a line 0).2, Prod.ext hpending rfl, htiles.within⟩

end ReadOn

namespace Lexer

/-- A text is fed as another one is, but that one more comment is counted, and that all that is found
from column `k` on lies `d` columns further to the right. -/
structure FeedsWider (lx : Lexer) (text other : String) (line k d : Nat) : Prop where
  result : (lx.feed text line).2 = (lx.feed other line).2.mapError (LexError.moved line d)
  pending : (lx.feed text line).1.pending = (lx.feed other line).1.pending.moved line d
  tokens : ∃ ts us, (∀ t ∈ ts, t.stop < k) ∧ (∀ t ∈ us, k ≤ t.start)
    ∧ (lx.feed other line).1.tokens.toList = lx.tokens.toList ++ (ts ++ us)
    ∧ (lx.feed text line).1.tokens.toList =
      lx.tokens.toList ++ (ts ++ us.map (Token.moved line d))
  diagnostics : ∃ ds es, (∀ x ∈ ds, x.column < k) ∧ (∀ x ∈ es, k ≤ x.column)
    ∧ (lx.feed other line).1.diagnostics.toList = lx.diagnostics.toList ++ (ds ++ es)
    ∧ (lx.feed text line).1.diagnostics.toList =
      lx.diagnostics.toList ++ (ds ++ es.map (Diagnostic.moved line d))
  metrics : (lx.feed text line).1.metrics =
    { (lx.feed other line).1.metrics with
      comments := (lx.feed other line).1.metrics.comments + 1
      chars := (lx.feed other line).1.metrics.chars + d }

/-- Two readings that differ by a comment, and by `d` columns after it. -/
theorem feedsWider_of_reading {lx : Lexer} {text other : String} {line k d n : Nat} {e : Ending}
    {fs : List Finding} (hlength : text.toList.length = other.toList.length + d)
    (hwithin : ∀ f ∈ fs, f.Within n) (hn : n < k)
    (hother : lx.reading other line = (e.moved line k).after fs)
    (htext : lx.reading text line = ((e.moved line k).moved line d).after (fs ++ [.comment])) :
    lx.FeedsWider text other line k d := by
  have htokens : tokensOf (lx.reading text line).findings = tokensOf fs
      ++ (tokensOf (e.moved line k).findings).map (Token.moved line d) := by
    rw [htext]
    simp only [Ending.after, Ending.moved, tokensOf_append, tokensOf_moved, tokensOf_comment,
      tokensOf_nil, List.append_nil]
  have hfaults : diagnosticsOf (lx.reading text line).findings = diagnosticsOf fs
      ++ (diagnosticsOf (e.moved line k).findings).map (Diagnostic.moved line d) := by
    rw [htext]
    simp only [Ending.after, Ending.moved, diagnosticsOf_append, diagnosticsOf_moved,
      diagnosticsOf_comment, diagnosticsOf_nil, List.append_nil]
  refine ⟨?_, ?_, ⟨tokensOf fs, tokensOf (e.moved line k).findings, ?_, ?_, ?_, ?_⟩,
    ⟨(diagnosticsOf fs).take (maxDiagnostics - lx.diagnostics.size),
      (diagnosticsOf (e.moved line k).findings).take
        (maxDiagnostics - lx.diagnostics.size - (diagnosticsOf fs).length), ?_, ?_, ?_, ?_⟩, ?_⟩
  · rw [feed_result, feed_result, hother, htext]
    rfl
  · rw [feed_pending, feed_pending, hother, htext]
    rfl
  · intro t ht
    obtain ⟨-, hstop⟩ := hwithin _ (mem_tokensOf.mp ht)
    exact Nat.lt_of_le_of_lt hstop hn
  · intro t ht
    rw [Ending.moved, tokensOf_moved] at ht
    obtain ⟨u, -, rfl⟩ := List.mem_map.mp ht
    exact Nat.le_add_left k u.start
  · rw [feed_tokens, hother, Ending.after, tokensOf_append]
  · rw [feed_tokens, htokens]
  · intro x hx
    obtain ⟨st, hf⟩ := mem_diagnosticsOf.mp (List.mem_of_mem_take hx)
    obtain ⟨hcolumn, -⟩ := hwithin _ hf
    exact Nat.lt_of_le_of_lt hcolumn hn
  · intro x hx
    rw [Ending.moved, diagnosticsOf_moved] at hx
    obtain ⟨y, -, rfl⟩ := List.mem_map.mp (List.mem_of_mem_take hx)
    exact Nat.le_add_left k y.column
  · rw [feed_diagnostics, hother, Ending.after, diagnosticsOf_append, List.take_append]
  · rw [feed_diagnostics, hfaults, List.take_append, List.map_take]
  · have htally : ∀ m : Tally,
        (tokensOf (lx.reading text line).findings).foldl (fun n t => n.add t.kind) m =
          (tokensOf (lx.reading other line).findings).foldl (fun n t => n.add t.kind) m := by
      intro m
      rw [htokens, hother, Ending.after, tokensOf_append, List.foldl_append, List.foldl_append,
        List.foldl_map]
      rfl
    have hcount : (diagnosticsOf (lx.reading text line).findings).length =
        (diagnosticsOf (lx.reading other line).findings).length := by
      rw [hfaults, hother, Ending.after, diagnosticsOf_append, List.length_append,
        List.length_append, List.length_map]
    have hcomments : commentsOf (lx.reading text line).findings =
        commentsOf (lx.reading other line).findings + 1 := by
      rw [hother, htext]
      simp only [Ending.after, Ending.moved, commentsOf_append, commentsOf_moved,
        commentsOf_comment, commentsOf_nil]
      omega
    rw [feed_metrics, feed_metrics, htally, hcount, hcomments, hlength,
      ← Nat.add_assoc lx.metrics.chars]
    rfl

/-- A comment that follows a text, and a blank in its place. -/
theorem feedsWider_comment {lx : Lexer} (hp : lx.pending = {}) {line d : Nat} {a c w : List Char}
    (ha : (trace a line 0 {} a).1.state = .start) (hw : IsComment w) (hd : w.length = d + 1) :
    lx.FeedsWider (String.ofList (a ++ w ++ c)) (String.ofList (a ++ [' '] ++ c)) line
      (a.length + 1) d := by
  obtain ⟨fs, htrace, hwithin⟩ := trace_of_start ha
  refine feedsWider_of_reading (e := readOn c line lx.settings.carryComments 0 {}) ?_ hwithin
    (Nat.lt_succ_self _) ?_ ?_
  · simp only [String.toList_ofList, List.length_append, hd, List.length_singleton]
    omega
  · rw [reading_eq_readOn, hp, String.toList_ofList,
      readOn_filler htrace fun text => trace_space text line _, List.append_nil]
    rfl
  · rw [reading_eq_readOn, hp, String.toList_ofList,
      readOn_filler htrace fun text => trace_comment hw text line _, hd,
      Ending.moved_moved, Nat.add_assoc, Nat.add_comm d 1]

end Lexer

/-- A comment is fed as one blank is. Where the scanner is in `start` after `a`, a comment of either
form may stand after it in place of a blank, whatever is in the comment and whatever follows it: but
for the count of comments and for the columns of what follows, nothing changes. -/
theorem feed_comment {lx : Lexer} (h : lx.Reachable) (hstart : lx.state = .start) {a : String}
    {line : Nat} (ha : (lx.pendingAt a line a.toList.length).state = .start) (b c : String) :
    (IsOpen b.toList → lx.FeedsWider (a ++ "/*" ++ b ++ "*/" ++ c) (a ++ " " ++ c) line
      (a.toList.length + 1) (b.toList.length + 3))
    ∧ ('\n' ∉ b.toList → lx.FeedsWider (a ++ "//" ++ b ++ "\n" ++ c) (a ++ " " ++ c) line
      (a.toList.length + 1) (b.toList.length + 2)) := by
  have hp := h.pending_eq hstart
  rw [Lexer.pendingAt_eq_trace, hp, List.take_length] at ha
  have hblank : a ++ " " ++ c = String.ofList (a.toList ++ [' '] ++ c.toList) := by
    apply String.toList_inj.mp
    simp
  refine ⟨fun hb => ?_, fun hb => ?_⟩
  · have hopen : IsOpen (b.toList ++ ['*']) := by
      rw [isOpen_concat_iff]
      exact ⟨hb, by simp⟩
    have htext : a ++ "/*" ++ b ++ "*/" ++ c =
        String.ofList (a.toList ++ ('/' :: '*' :: b.toList ++ ['*', '/']) ++ c.toList) := by
      apply String.toList_inj.mp
      simp
    rw [hblank, htext]
    exact Lexer.feedsWider_comment hp ha (.block hopen) (by simp)
  · have htext : a ++ "//" ++ b ++ "\n" ++ c =
        String.ofList (a.toList ++ ('/' :: '/' :: b.toList ++ ['\n']) ++ c.toList) := by
      apply String.toList_inj.mp
      simp
    rw [hblank, htext]
    exact Lexer.feedsWider_comment hp ha (.line hb) (by simp)

/-- A block comment with a quote, both openings, a slash at its beginning and stars at its end, and a
line comment with the end of a block comment in it. -/
theorem feed_comment_stars :
    ({} : Lexer).FeedsWider "a = 1;/*/ \"//\n/* ***/b" "a = 1; b" 1 7 14
      ∧ ({} : Lexer).FeedsWider "a = 1;//*/ x\nb" "a = 1; b" 1 7 6 := by
  have hreach : ({} : Lexer).Reachable := ⟨{}, [], rfl⟩
  have ha : (({} : Lexer).pendingAt "a = 1;" 1 "a = 1;".toList.length).state = .start := rfl
  have hopen : IsOpen "/ \"//\n/* **".toList :=
    show ¬ ['*', '/'] <:+: "/ \"//\n/* **".toList by decide +kernel
  refine ⟨?_, ?_⟩
  · exact (feed_comment hreach rfl ha "/ \"//\n/* **" "b").1 hopen
  · exact (feed_comment hreach rfl ha "*/ x" "b").2 (by decide +kernel)

end ContractLex
