import ContractLex.Proofs.Comment
import ContractLex.Proofs.LineEnd
import ContractLex.Proofs.Lines

/-!
# Two runs in parallel

A source is fed line by line, or as one text. The two runs go on in parallel: both in a comment, or
both outside (`Parallel`). A line takes them from one such pair to another, at the same columns
(`line_parallel`), and so does the line end after it, which settles in the source what the end of
the line has settled (`LineEnds.lineEnd`). `trace_parallel` puts the lines together, by induction on
how `Text.lines` takes the source apart.

Between two lines no line end is fed, so a star before it and a slash after it may meet and close a
comment that in the source goes on. `LinesRead` says that they do not.
-/

namespace ContractLex

open Spelling

/-! ## Two runs in parallel -/

/-- What is pending before a line, fed by itself and as part of the source. The source has just had
a line end, so its comment has no star last. -/
inductive Parallel : Pending → Pending → Prop
  | outside : Parallel {} {}
  | inside {a b p q} : InComment a p → InComment b q → b.getLast? ≠ some '*' → Parallel p q

/-- What is pending and found after a line, fed by itself (`p` and `fs`), and as part of a source
(`q` and `gs`) in which it ends at column `stop`. -/
inductive LineEnds (source : List Char) (n stop : Nat) :
    Pending → List Finding → Pending → List Finding → Prop
  /-- Both are in a comment. -/
  | inside {a b p q fs gs} : InComment a p → InComment b q →
      List.Forall₂ (Finding.MovedIn source n) fs gs → LineEnds source n stop p fs q gs
  /-- The line is settled, and in the source its end would be. -/
  | settled {start q fs gs es} : q.Stands source 1 stop none start → q.isFull = false →
      q.finish ⟨source.toArray, 1, stop⟩ false = ⟨{}, es, .ok ()⟩ →
      List.Forall₂ (Finding.MovedIn source n) fs (gs ++ es) → LineEnds source n stop {} fs q gs

theorem InComment.moved {body : List Char} (h : InComment body p) (line d : Nat) :
    InComment body (p.moved line d) := ⟨h.state_eq, h.lexeme, h.isOpen⟩

/-! ## One line -/

section Line

variable {settings : LexicalSettings} {source : List Char} {l : String} {d k m n start start' : Nat}
  {p p' q r : Pending} {fs front : List Finding}

/-- What the end of a line makes of what is pending there, if it accepts it. -/
theorem lineEnds_of_stands {carry : Bool} (hpart : PartAt l.toList source d)
    (hd : lineStart source k = d) (hk : k < n) (hlong : l.toList.length < maxLexeme)
    (hstands : r.Stands l.toList (lineNumber k) l.toList.length none start)
    (hplace : (r.moved 1 d).Stands source 1 (d + l.toList.length) none start')
    (honLine : ∀ f ∈ fs, f.OnLine (lineNumber k))
    (hok : (r.finish ⟨l.toList.toArray, lineNumber k, l.toList.length⟩ carry).result = .ok ()) :
    let e := r.finish ⟨l.toList.toArray, lineNumber k, l.toList.length⟩ carry
    LineEnds source n (d + l.toList.length) e.pending (fs ++ e.findings) (r.moved 1 d)
      (fs.map (Finding.moved 1 d)) := by
  intro e
  cases hst : r.state.isBlockComment with
  | true =>
      have he : e = ⟨r, [], .ok ()⟩ := by
        obtain rfl := carry_of_ok hst hok
        exact finish_carried hst
      obtain ⟨body, -, hcomment, -⟩ := hstands.inComment hst
      rw [he, List.append_nil, ← hd]
      exact .inside hcomment (hcomment.moved 1 _) (forall₂_movedIn hk honLine)
  | false =>
      have hpending : e.pending = {} := finish_pending carry hst
      have hends := finish_ends carry rfl hstands
      have hmoved := finish_moved (hstands.abreast hpart 1) hstands.size_le false
      rw [← finish_carry carry hst, Nat.add_comm] at hmoved
      have hshort : ¬ maxLexeme ≤ r.length := by
        rw [hstands.length_eq]
        exact Nat.not_le_of_lt (Nat.lt_of_le_of_lt hstands.size_le hlong)
      have hfinish : (r.moved 1 d).finish ⟨source.toArray, 1, d + l.toList.length⟩ false =
          ⟨{}, e.findings.map (Finding.moved 1 d), .ok ()⟩ := by
        have he : e = ⟨{}, e.findings, .ok ()⟩ := by
          rw [← show e.result = .ok () from hok, ← hpending]
        exact hmoved.trans (congrArg (Ending.moved 1 d) he)
      rw [hpending]
      refine .settled hplace (by simp [Pending.isFull, hshort]) hfinish ?_
      rw [← List.map_append, ← hd]
      exact forall₂_movedIn hk (List.forall_mem_append.mpr ⟨honLine, hends.onLine⟩)

/-- From a column at which nothing is pending in either run, they go on in parallel. -/
theorem line_from (hpart : PartAt l.toList source d) (hd : lineStart source k = d) (hk : k < n)
    (hlong : l.toList.length < maxLexeme) (hm : m ≤ l.toList.length)
    (hline : trace l.toList (lineNumber k) 0 p (l.toList.take m) = ({}, front))
    (hsource : trace source 1 d q (l.toList.take m) = ({}, front.map (Finding.moved 1 d)))
    (honLine : ∀ f ∈ front, f.OnLine (lineNumber k))
    (hread : ({ settings, pending := p } : Lexer).reading l (lineNumber k) = ⟨p', fs, .ok ()⟩) :
    ∃ r gs, trace source 1 d q l.toList = (r, gs)
      ∧ LineEnds source n (d + l.toList.length) p' fs r gs := by
  have hlen : (l.toList.take m).length = m := by
    rw [List.length_take]
    omega
  have hstop : m + d + (l.toList.drop m).length = d + l.toList.length := by
    rw [List.length_drop]
    omega
  obtain ⟨start, htiles, hstands⟩ := traceFrom_tiles (lineNumber k) hm
  have hmoved := trace_moved hpart 1 (l.toList.drop m) (stands_start (lineNumber k) hm)
    (List.prefix_refl _)
  obtain ⟨start', -, hplace⟩ := trace_tiles (l.toList.drop m)
    (stands_start 1 (show m + d ≤ source.length by have := hpart.length_le; omega))
    (hpart.drop hm).isPrefix
  have hwhole := trace_append l.toList (lineNumber k) (l.toList.take m) (l.toList.drop m) 0 p
  have hwhole' := trace_append source 1 (l.toList.take m) (l.toList.drop m) d q
  rw [List.take_append_drop, hline, hlen, Nat.zero_add] at hwhole
  rw [List.take_append_drop, hsource, hlen, Nat.add_comm d] at hwhole'
  rw [moved_empty] at hmoved
  rw [hmoved] at hwhole' hplace
  rw [hstop] at hplace
  have hread' := Lexer.reading_eq_trace { settings, pending := p } l (lineNumber k)
  simp only [hwhole] at hread'
  rw [hread] at hread'
  obtain ⟨rfl, rfl, hok⟩ := Ending.mk.inj hread'
  unfold traceFrom at htiles hstands
  have honLine' := List.forall_mem_append.mpr ⟨honLine, htiles.onLine⟩
  refine ⟨_, _, ?_, lineEnds_of_stands hpart hd hk hlong hstands hplace honLine' hok.symm⟩
  rw [hwhole', List.map_append]

/-- A line that begins in parallel ends so, unless a star before it and a slash in it meet. -/
theorem line_parallel (hpart : PartAt l.toList source d) (hd : lineStart source k = d) (hk : k < n)
    (hlong : l.toList.length < maxLexeme) (h : Parallel p q)
    (hbreak : p.state = .blockCommentStar → l.toList.head? ≠ some '/')
    (hread : ({ settings, pending := p } : Lexer).reading l (lineNumber k) = ⟨p', fs, .ok ()⟩) :
    ∃ r gs, trace source 1 d q l.toList = (r, gs)
      ∧ LineEnds source n (d + l.toList.length) p' fs r gs := by
  cases h with
  | outside =>
      exact line_from hpart hd hk hlong (Nat.zero_le _) rfl rfl (List.forall_mem_nil _) hread
  | @inside a b _ _ hp hq hlast =>
      have hapart : ¬ (a.getLast? = some '*' ∧ l.toList.head? = some '/') := by
        rintro ⟨hstar, hslash⟩
        exact hbreak (by rw [hp.state_eq, commentState, if_pos hstar]) hslash
      by_cases hopen : IsOpen l.toList
      · have ha : IsOpen (a ++ l.toList) := isOpen_append.mpr ⟨hp.isOpen, hopen, hapart⟩
        have hb : IsOpen (b ++ l.toList) :=
          isOpen_append.mpr ⟨hq.isOpen, hopen, fun hacross => hlast hacross.1⟩
        have hread' := Lexer.reading_eq_trace { settings, pending := p } l (lineNumber k)
        have hnext := hp.goto ha
        simp only [hp.trace_open ha] at hread'
        rw [hread] at hread'
        rw [carry_of_ok hnext.isBlockComment (Ending.mk.inj hread').2.2.symm,
          finish_carried hnext.isBlockComment] at hread'
        obtain ⟨rfl, rfl, -⟩ := Ending.mk.inj hread'
        exact ⟨_, _, hq.trace_open hb, .inside hnext (hq.goto hb) .nil⟩
      · have hclose : ¬ IsOpen (a ++ l.toList) := fun ha => hopen (isOpen_append.mp ha).2.1
        obtain ⟨head, tail, htext, hhead, hstar⟩ := exists_close hp.isOpen hclose
        have hne : head ≠ [] := by
          rintro rfl
          rw [List.append_nil] at hstar
          exact hapart ⟨hstar, by rw [htext]; rfl⟩
        have hstar' : (b ++ head).getLast? = some '*' := by
          rw [List.getLast?_append_of_ne_nil _ hne] at hstar ⊢
          exact hstar
        have hhead' : IsOpen (b ++ head) :=
          isOpen_append.mpr
            ⟨hq.isOpen, (isOpen_append.mp hhead).2.1, fun hacross => hlast hacross.1⟩
        have htake : l.toList.take (head.length + 1) = head ++ ['/'] := by
          rw [htext, List.take_length_add_append]
          rfl
        have hm : head.length + 1 ≤ l.toList.length := by simp [htext]
        have hline : trace l.toList (lineNumber k) 0 p (l.toList.take (head.length + 1)) =
            ({}, [.comment]) := by
          rw [htake]
          exact hp.trace_close hhead hstar
        have hsource : trace source 1 d q (l.toList.take (head.length + 1)) = ({}, [.comment]) := by
          rw [htake]
          exact hq.trace_close hhead' hstar'
        exact line_from hpart hd hk hlong hm hline hsource (by simp [Finding.OnLine]) hread

end Line

/-! ## A line end -/

/-- A line end leaves a comment open, and no star last. -/
theorem InComment.lineEnd {body w text : List Char} {q : Pending} {line i : Nat}
    (h : InComment body q) (hw : IsLineEnd w) :
    ∃ q', trace text line i q w = (q', []) ∧ InComment (body ++ w) q'
      ∧ (body ++ w).getLast? ≠ some '*' := by
  have hopen : IsOpen (body ++ w) := by
    refine isOpen_append.mpr ⟨h.isOpen, ?_, ?_⟩
    · rcases hw with rfl | rfl
      · exact isOpen_singleton '\n'
      · exact isOpen_append.mpr ⟨isOpen_singleton '\r', isOpen_singleton '\n', by simp⟩
    · rcases hw with rfl | rfl <;> simp
  refine ⟨_, h.trace_open hopen, h.goto hopen, ?_⟩
  rcases hw with rfl | rfl <;> simp

/-- A line end keeps the two runs in parallel, and settles in the source what the line by itself has
settled. -/
theorem LineEnds.lineEnd {source w : List Char} {n stop : Nat} {p q : Pending}
    {fs gs : List Finding} (h : LineEnds source n stop p fs q gs) (hw : IsLineEnd w) :
    ∃ q' es, trace source 1 stop q w = (q', es) ∧ Parallel p q'
      ∧ List.Forall₂ (Finding.MovedIn source n) fs (gs ++ es) := by
  cases h with
  | inside hp hq hfs =>
      obtain ⟨q', htrace, hcomment, hlast⟩ := hq.lineEnd hw
      exact ⟨q', [], htrace, .inside hp hcomment hlast, by simpa using hfs⟩
  | settled hstands hfull hfinish hfs =>
      have hend := trace_lineEnd hw hstands hfull (by rw [hfinish])
      rw [hfinish] at hend
      exact ⟨{}, _, hend, .outside, hfs⟩

/-! ## All lines -/

/-- Lines that are accepted one after the other, from `p` to `p'`, the first with index `k`; no line
that begins with a slash comes after a star in a comment. -/
inductive LinesRead (settings : LexicalSettings) :
    Pending → Nat → List String → List Finding → Pending → Prop
  | nil {p k} : LinesRead settings p k [] [] p
  | cons {p k l ls p' p'' fs gs} :
      (p.state = .blockCommentStar → l.toList.head? ≠ some '/') →
      ({ settings, pending := p } : Lexer).reading l (lineNumber k) = ⟨p', fs, .ok ()⟩ →
      LinesRead settings p' (k + 1) ls gs p'' → LinesRead settings p k (l :: ls) (fs ++ gs) p''

theorem not_inComment_start {body : List Char} (h : InComment body {}) : False :=
  Bool.noConfusion h.isBlockComment

/-- The lines of a source, fed one by one and in their places. -/
theorem trace_parallel {settings : LexicalSettings} {source rest : List Char} {ls : List String}
    (h : SplitsInto rest ls) :
    ∀ {front : List Char} {k n : Nat} {p q : Pending} {fs : List Finding},
      LeftFrom source k front rest → k + ls.length ≤ n →
      (∀ l ∈ ls, l.toList.length < maxLexeme) → Parallel p q → LinesRead settings p k ls fs {} →
      ∃ r gs es, trace source 1 front.length q rest = (r, gs)
        ∧ r.finish ⟨source.toArray, 1, source.length⟩ settings.carryComments = ⟨{}, es, .ok ()⟩
        ∧ List.Forall₂ (Finding.MovedIn source n) fs (gs ++ es) := by
  induction h with
  | nil =>
      intro front k n p q fs _ _ _ hpq hread
      cases hread
      cases hpq with
      | outside => exact ⟨{}, [], [], rfl, rfl, .nil⟩
      | inside hp => exact (not_inComment_start hp).elim
  | last l =>
      intro front k n p q fs hleft hn hlong hpq hread
      cases hread with
      | cons hbreak hread hnil =>
          cases hnil
          have hpart : PartAt l.toList source front.length :=
            LeftFrom.partAt (by rwa [List.append_nil])
          obtain ⟨r, gs, htrace, hends⟩ := line_parallel hpart hleft.start_eq
            (show k < n from hn) (hlong l (List.mem_singleton_self l)) hpq hbreak hread
          cases hends with
          | inside hp => exact (not_inComment_start hp).elim
          | settled hstands hfull hfinish hfs =>
              have hend : front.length + l.toList.length = source.length := by
                rw [hleft.source_eq, List.length_append]
              rw [hend] at hfinish
              have hcarried := finish_carry_of_ok settings.carryComments (by rw [hfinish])
              exact ⟨r, gs, _, htrace, hcarried.trans hfinish, by simpa using hfs⟩
  | @line l w rest ls hl hw hsplit ih =>
      intro front k n p q fs hleft hn hlong hpq hread
      obtain ⟨hlongl, hlong⟩ := List.forall_mem_cons.mp hlong
      rw [List.length_cons] at hn
      cases hread with
      | @cons _ _ _ _ p' _ fs₁ fs₂ hbreak hread hrest =>
          have hpart : PartAt l.toList source front.length :=
            LeftFrom.partAt (by rwa [List.append_assoc] at hleft)
          obtain ⟨r, gs, htrace, hends⟩ := line_parallel hpart hleft.start_eq
            (show k < n by omega) hlongl hpq hbreak hread
          obtain ⟨q', es, hend, hparallel, hfs⟩ := hends.lineEnd hw
          obtain ⟨r', gs', es', htrace', hfinish', hfs'⟩ :=
            ih (hleft.next hl hw) (show k + 1 + ls.length ≤ n by omega) hlong hparallel hrest
          refine ⟨r', gs ++ es ++ gs', es', ?_, hfinish', ?_⟩
          · rw [List.length_append] at htrace'
            rw [trace_append, trace_append, htrace, hend, htrace']
          · rw [List.append_assoc _ gs']
            exact List.rel_append hfs hfs'

end ContractLex
