import ContractLex.Proofs.Outcome

/-!
# Every character belongs to one piece

`Tiles text line i fs j` says that the findings `fs` account for the characters of `text` from
offset `i` to offset `j`, piece by piece and in order: each piece is a token of its class, a blank,
or a complete comment, and the next begins where it ends. Faults take no room.

A dispatch, a passage, a step and a trace each extend the tiling from where the pending token began
to where the next one did, while the scanner keeps standing where its state says
(`Outcome.advance`, `Passage.advance`, `step_tiles`, `trace_tiles`). `finish_ends` says how the last
piece is closed when the text ends.
-/

namespace ContractLex

open Spelling

/-- What follows column `j` does not go on with the token from `i` to `j`: no operator is longer,
and no dash follows `init` or `auto`. -/
structure Ended (text : List Char) (k : Kind) (tx : List Char) (i j : Nat) : Prop where
  longest : ∀ o, k = .operator o → Longest text i j
  undashed : k = .identifier → isDashPrefix (String.ofList tx) = true → text[j]? ≠ some '-'

theorem ended_length (k : Kind) (tx : List Char) {text : List Char} {i : Nat}
    (hi : i ≤ text.length) : Ended text k tx i text.length :=
  ⟨fun _ _ => longest_length text hi, fun _ _ hc => by simp at hc⟩

/-- One piece of a text, from offset to offset, with what is reported for it. -/
inductive Piece (text : List Char) (line : Nat) : Nat → List Finding → Nat → Prop
  | fault {i st d} : d.line = line → d.column ≤ text.length → d.kind.isTerminal = false →
      d.kind ≠ .malformedOperator → Piece text line i [.fault st d] i
  | blank {i c b} : text[i]? = some c → delimiter? c = some (.blank b) →
      Piece text line i [] (i + 1)
  | comment {i j} : i < j → j ≤ text.length → IsComment (stretch text i j) →
      Piece text line i [.comment] j
  | token {i j k tx} : i < j → j ≤ text.length → k.Reads (stretch text i j) tx →
      (k = .identifier → ¬ IsReserved (String.ofList tx)) → Ended text k tx i j →
      Piece text line i [.token ⟨k, String.ofList tx, line, i, j⟩] j
  | split {i j a b} : j ≤ text.length → stretch text i j = a ++ '-' :: b →
      isDashPrefix (String.ofList a) = true → b = [] ∨ IsWord b →
      (b = [] → ∀ c, text[j]? = some c → isWordStart c = false) →
      Piece text line i ((splitWord line i a b).map .token) j

/-- Findings that account for a text from one offset to another. -/
inductive Tiles (text : List Char) (line : Nat) : Nat → List Finding → Nat → Prop
  | nil {i} : Tiles text line i [] i
  | cons {i j k fs gs} : Piece text line i fs j → Tiles text line j gs k →
      Tiles text line i (fs ++ gs) k

section Tiles

variable {text : List Char} {line i j k : Nat} {fs gs : List Finding}

theorem Piece.tiles (h : Piece text line i fs j) : Tiles text line i fs j := by
  simpa using Tiles.cons h .nil

theorem Tiles.trans (h : Tiles text line i fs j) (h' : Tiles text line j gs k) :
    Tiles text line i (fs ++ gs) k := by
  induction h with
  | nil => exact h'
  | cons hp _ ih =>
      rw [List.append_assoc]
      exact .cons hp (ih h')

/-- The length of a stretch that is given. -/
theorem add_length_of_stretch_eq {w : List Char} (hw : w ≠ []) (hj : j ≤ text.length)
    (h : stretch text i j = w) : i + w.length = j := by
  have hlen := length_stretch (i := i) hj
  have hpos := List.length_pos_iff.mpr hw
  rw [h] at hlen
  omega

end Tiles

/-! ## One dispatch and one passage -/

/-- A move extends the tiling to where the pending token begins afterwards. -/
def Advances (text : List Char) (line i : Nat) (c : Char) (start : Nat) (m : Move) : Prop :=
  ∃ start', Tiles text line start m.findings start' ∧
    match m.used with
    | true => m.pending.Stands text line (i + 1) none start'
    | false => m.pending.Stands text line i (some c) start'

section Advance

variable {text : List Char} {line i start : Nat} {c : Char} {p : Pending} {m : Move}

/-- A token that is under way stands where it stood, with one more character absorbed. -/
theorem stands_goOn {st : State} {l : Array Char} (h : p.Stands text line i (some c) start)
    (hst : st.isIdle = false) (hh : st.Holds none (stretch text start i ++ [c]) l.toList) :
    (Pending.under st l line start).Stands text line (i + 1) none start where
  start_le := Nat.le_succ_of_le h.start_le
  le_length := h.lt_length
  getElem? := nofun
  opened := by simp [hst]
  length_eq := rfl
  holds := by rw [h.stretch_concat]; exact hh

theorem Outcome.advance (h : p.Stands text line i (some c) start)
    (ho : Outcome text line i c p start m) : Advances text line i c start m := by
  have hc : text[i]? = some c := h.getElem? c rfl
  have hlt : i < text.length := h.lt_length
  cases ho with
  | blank hi hk =>
      subst hi
      exact ⟨_, (Piece.blank hc hk).tiles, stands_start line hlt⟩
  | goOn _ hst hh => exact ⟨start, .nil, stands_goOn h hst hh⟩
  | lineBreak _ hst _ hh =>
      have hpiece : Piece text line start
          [.fault p.state (Fault.lineBreak.diagnostic ⟨line, i⟩)] start :=
        .fault rfl h.le_length rfl nofun
      exact ⟨start, hpiece.tiles, stands_goOn h hst hh⟩
  | pass _ hh => exact ⟨start, .nil, h.start_le, h.le_length, h.getElem?, rfl, rfl, hh⟩
  | @close k tx q hk hid _ hq hext =>
      have hended : Ended text k tx start (i + 1) :=
        ⟨fun o ho => longest_of_next (Nat.le_succ_of_le h.start_le) hlt fun d _ => by
          rw [h.stretch_concat, hext o ho]
          exact List.not_mem_nil, fun heq => absurd heq hid⟩
      have hpiece : Piece text line start [.token ⟨k, String.ofList tx, line, start, i + 1⟩]
          (i + 1) :=
        .token (Nat.lt_succ_of_le h.start_le) hlt (by rw [h.stretch_concat]; exact hk)
          (fun heq => absurd heq hid) hended
      refine ⟨i + 1, hpiece.tiles, ?_⟩
      rcases hq with rfl | ⟨-, rfl⟩
      · exact stands_start line hlt
      · exact ⟨Nat.le_refl _, hlt, nofun, rfl, rfl, stretch_self text _, rfl⟩
  | @closeBefore k tx hk _ hid hext hdash =>
      have hnext : ∀ d, text[i]? = some d → d = c := fun d hd => Option.some.inj (hd.symm.trans hc)
      have hended : Ended text k tx start i :=
        ⟨fun o ho => longest_of_next h.start_le h.le_length fun d hd => hnext d hd ▸ hext o ho,
          fun hkind hpre hd => hdash hkind hpre (hnext '-' hd).symm⟩
      have hpiece : Piece text line start _ i :=
        .token (h.start_lt_of_ne_nil hk.ne_nil) h.le_length hk hid hended
      exact ⟨i, hpiece.tiles, Nat.le_refl _, h.le_length, h.getElem?, rfl, rfl,
        stretch_self text _, rfl⟩
  | split hw ha hb hnext =>
      have hstart : _ → ∀ d, text[i]? = some d → isWordStart d = false := fun hnil d hd => by
        obtain rfl := Option.some.inj (hd.symm.trans hc)
        exact hnext hnil
      exact ⟨i, (Piece.split h.le_length hw ha hb hstart).tiles, Nat.le_refl _, h.le_length,
        h.getElem?, rfl, rfl, stretch_self text _, rfl⟩
  | comment hcom =>
      have hpiece : Piece text line start [.comment] (i + 1) :=
        .comment (Nat.lt_succ_of_le h.start_le) hlt (by rw [h.stretch_concat]; exact hcom)
      exact ⟨i + 1, hpiece.tiles, stands_start line hlt⟩
  | @reject f hf _ _ hd =>
      have hpiece : Piece text line start [.fault p.state (f.diagnostic ⟨line, i⟩)] start :=
        .fault rfl h.le_length hf.1 hf.2.1
      exact ⟨start, hpiece.tiles, h.start_le, h.le_length, h.getElem?, rfl, rfl, h.holds.length_le,
        fun hw => ⟨c, rfl, hd hw⟩⟩
  | skip hd hw _ =>
      have hpiece : Piece text line start _ i :=
        .token (k := .unknown) (h.start_lt_of_ne_nil hw) h.le_length ⟨hw, rfl⟩ nofun
          ⟨nofun, nofun⟩
      exact ⟨i, hpiece.tiles, Nat.le_refl _, h.le_length, h.getElem?, rfl, rfl,
        stretch_self text _, rfl, c, rfl, hd⟩

theorem Passage.advance {n : Nat} {fs : List Finding} {q : Pending}
    (hpass : Passage ⟨text.toArray, line, i⟩ c p n fs q) :
    ∀ {start : Nat}, p.Stands text line i (some c) start →
      ∃ start', Tiles text line start fs start' ∧ q.Stands text line (i + 1) none start' := by
  induction hpass with
  | use hused =>
      intro start h
      obtain ⟨start', htiles, hstands⟩ := (dispatch_outcome h).advance h
      rw [hused] at hstands
      exact ⟨start', htiles, hstands⟩
  | handOn hused _ ih =>
      intro start h
      obtain ⟨start', htiles, hstands⟩ := (dispatch_outcome h).advance h
      rw [hused] at hstands
      obtain ⟨start'', htiles', hstands'⟩ := ih hstands
      exact ⟨start'', htiles.trans htiles', hstands'⟩

/-- What every dispatch of a character preserves, its passage preserves. -/
theorem Passage.preserves {I : Nat → Pending → List Finding → Prop} {n : Nat}
    {gs : List Finding} {q : Pending}
    (hI : ∀ {p : Pending} {start : Nat} {fs : List Finding},
      p.Stands text line i (some c) start → I i p fs →
      I (if (dispatch p ⟨text.toArray, line, i⟩ c).used then i + 1 else i)
        (dispatch p ⟨text.toArray, line, i⟩ c).pending
        (fs ++ (dispatch p ⟨text.toArray, line, i⟩ c).findings))
    (hpass : Passage ⟨text.toArray, line, i⟩ c p n gs q) :
    ∀ {start : Nat} {fs : List Finding}, p.Stands text line i (some c) start →
      I i p fs → I (i + 1) q (fs ++ gs) := by
  induction hpass with
  | use hused =>
      intro start fs h hp
      have hnext := hI h hp
      rwa [hused, if_pos rfl] at hnext
  | handOn hused _ ih =>
      intro start fs h hp
      have hnext := hI h hp
      rw [hused, if_neg Bool.false_ne_true] at hnext
      obtain ⟨start', -, hstands⟩ := (dispatch_outcome h).advance h
      rw [hused] at hstands
      rw [← List.append_assoc]
      exact ih hstands hnext

end Advance

/-! ## Steps and traces -/

section Trace

variable {text : List Char} {line i start : Nat} {p : Pending}

theorem overflow_tiles (h : p.Stands text line i none start) :
    Tiles text line start (p.overflow ⟨text.toArray, line, i⟩) start := by
  have hpiece : Piece text line start [p.fault ⟨text.toArray, line, i⟩ .longLexeme] start :=
    .fault rfl h.le_length rfl nofun
  unfold Pending.overflow
  split
  · exact hpiece.tiles
  · exact .nil

theorem step_tiles {c : Char} (h : p.Stands text line i none start) (hc : text[i]? = some c) :
    ∃ start', Tiles text line start (step ⟨text.toArray, line, i⟩ p c).findings start'
      ∧ (step ⟨text.toArray, line, i⟩ p c).pending.Stands text line (i + 1) none start' := by
  obtain ⟨n, -, fs, q, hpass, hstep⟩ := exists_step ⟨text.toArray, line, i⟩ c p
  obtain ⟨start', htiles, hstands⟩ := hpass.advance (h.entry hc)
  rw [hstep]
  exact ⟨start', (overflow_tiles h).trans htiles, hstands⟩

/-- What a trace reports accounts for the text up to where the last pending token began. -/
theorem trace_tiles (rest : List Char) (h : p.Stands text line i none start)
    (hpre : rest <+: text.drop i) :
    ∃ start', Tiles text line start (trace text line i p rest).2 start'
      ∧ (trace text line i p rest).1.Stands text line (i + rest.length) none start' := by
  have hinv := trace_induction text line
    (I := fun i q fs => ∃ start', Tiles text line start fs start'
      ∧ q.Stands text line i none start')
    (fun j q fs c hc ⟨start₁, htiles, hstands⟩ => by
      obtain ⟨start₂, htiles', hstands'⟩ := step_tiles hstands hc
      exact ⟨start₂, htiles.trans htiles', hstands'⟩)
    rest i p [] hpre ⟨start, .nil, h⟩
  simpa using hinv

/-- The trace of what follows offset `k`, begun between tokens. -/
def traceFrom (text : List Char) (line k : Nat) : Pending × List Finding :=
  trace text line k {} (text.drop k)

theorem traceFrom_tiles {k : Nat} (line : Nat) (hk : k ≤ text.length) :
    ∃ start, Tiles text line k (traceFrom text line k).2 start
      ∧ (traceFrom text line k).1.Stands text line text.length none start := by
  have hlen : k + (text.drop k).length = text.length := by
    rw [List.length_drop]
    omega
  have h := trace_tiles (text.drop k) (stands_start line hk) (List.prefix_refl _)
  rwa [hlen] at h

end Trace

/-! ## The end of a text -/

/-- How a text can end when what is pending began at `start`. -/
inductive Ends (text : List Char) (line : Nat) (carry : Bool) (p : Pending) (start : Nat) :
    Ending → Prop
  /-- Everything is settled. -/
  | settled {fs} : Tiles text line start fs text.length →
      Ends text line carry p start ⟨{}, fs, .ok ()⟩
  /-- The end cuts a line comment. -/
  | cut {body} : '\n' ∉ body → text.drop start = '/' :: '/' :: body →
      Ends text line carry p start ⟨{}, [.comment], .ok ()⟩
  /-- A block comment is carried on. -/
  | carried {body} : carry = true → p.state.isBlockComment = true → IsOpen body →
      text.drop start = '/' :: '*' :: body → Ends text line carry p start ⟨p, [], .ok ()⟩
  /-- A literal or comment is still open, and may not be. -/
  | terminal {f : Fault} : f.kind.isTerminal = true → start < text.length →
      Ends text line carry p start ⟨{}, [.fault p.state (f.diagnostic ⟨line, start⟩)],
        .error (.terminal (f.diagnostic ⟨line, start⟩))⟩

section Ends

variable {text : List Char} {line start : Nat} {carry : Bool} {st : State} {l : Array Char}

theorem ends_token {k : Kind} (hj : start ≤ text.length)
    (hk : k.Reads (stretch text start text.length) l.toList)
    (hid : k = .identifier → ¬ IsReserved (String.ofList l.toList)) :
    Ends text line carry (.under st l line start) start
      ⟨{}, [(Pending.under st l line start).token ⟨text.toArray, line, text.length⟩ k text.length],
        .ok ()⟩ := by
  rw [token_eq rfl]
  have hlt : start < text.length := by
    rcases Nat.lt_or_eq_of_le hj with hlt | heq
    · exact hlt
    · rw [heq, stretch_self] at hk
      exact absurd rfl hk.ne_nil
  exact .settled (Piece.token hlt (Nat.le_refl _) hk hid (ended_length _ _ hj)).tiles

theorem ends_firstOperator {o : Char} (h : (Pending.under st l line start).Stands text line
      text.length none start)
    (hl : l.toList = stretch text start text.length) (hw : stretch text start text.length = [o])
    (ho : isOperatorChar o = true) :
    Ends text line carry (.under st l line start) start
      ⟨{}, (Pending.under st l line start).firstOperator ⟨text.toArray, line, text.length⟩
        text.length, .ok ()⟩ := by
  obtain ⟨op, hreads, heq⟩ :=
    firstOperator_eq st text line text.length start text.length (hl.trans hw) ho
  have hpiece : Piece text line start
      [.token ⟨.operator op, String.ofList [o], line, start, text.length⟩] text.length :=
    .token (h.start_lt_of_ne_nil (by simp [hw])) (Nat.le_refl _) (by rwa [hw]) nofun
      (ended_length _ _ h.start_le)
  rw [heq]
  exact .settled hpiece.tiles

theorem skipped_tiles (h : (Pending.under st l line start).Stands text line text.length none start)
    (hw : stretch text start text.length ≠ []) :
    Tiles text line start
      [(Pending.under st l line start).skipped ⟨text.toArray, line, text.length⟩ text.length]
      text.length := by
  rw [skipped_eq rfl h.start_le h.le_length]
  exact (Piece.token (k := .unknown) (h.start_lt_of_ne_nil hw) h.le_length ⟨hw, rfl⟩ nofun
    ⟨nofun, nofun⟩).tiles

theorem ends_terminate (h : (Pending.under st l line start).Stands text line text.length none start)
    (hst : st.isIdle = false) {f : Fault} (hf : f.kind.isTerminal = true) :
    Ends text line carry (.under st l line start) start
      ((Pending.under st l line start).terminate ⟨text.toArray, line, text.length⟩ f) :=
  .terminal hf (h.start_lt_of_ne_nil (h.holds.ne_nil hst))

theorem ends_dashed {a b : List Char}
    (h : (Pending.under st l line start).Stands text line text.length none start)
    (hl : l.toList = stretch text start text.length)
    (ha : isDashPrefix (String.ofList a) = true) (hb : b = [] ∨ IsWord b)
    (hw : stretch text start text.length = a ++ '-' :: b) :
    Ends text line carry (.under st l line start) start
      ⟨{}, (Pending.under st l line start).dashed ⟨text.toArray, line, text.length⟩ text.length,
        .ok ()⟩ := by
  have hi : start + (stretch text start text.length).length = text.length := by
    have := h.start_le
    rw [h.length_stretch]
    omega
  rcases dashed_cases st line hw hi ha hl with ⟨k, hk, heq⟩ | heq
  · have hpiece : Piece text line start
        [.token ⟨.keyword k, String.ofList l.toList, line, start, text.length⟩] text.length :=
      .token (h.start_lt_of_ne_nil hk.ne_nil) h.le_length hk nofun ⟨nofun, nofun⟩
    rw [heq]
    exact .settled hpiece.tiles
  · rw [heq]
    exact .settled (Piece.split h.le_length hw ha hb fun _ c hc => by simp at hc).tiles

/-- A block comment is carried on, or it is too late to close it. -/
theorem ends_blockComment {body : List Char}
    (h : (Pending.under st l line start).Stands text line text.length none start)
    (hst : st.isBlockComment = true) (hopen : IsOpen body)
    (hw : stretch text start text.length = '/' :: '*' :: body) :
    Ends text line carry (.under st l line start) start
      (if carry then ⟨.under st l line start, [], .ok ()⟩
        else (Pending.under st l line start).terminate ⟨text.toArray, line, text.length⟩
          .openComment) := by
  rw [stretch_length] at hw
  cases carry with
  | true => exact .carried rfl hst hopen hw
  | false => exact ends_terminate h (State.isIdle_of_isBlockComment hst) rfl

/-- The end of a text settles what is pending, state by state. -/
theorem finish_ends (carry : Bool) {i : Nat} {p : Pending} (hi : i = text.length)
    (h : p.Stands text line i none start) :
    Ends text line carry p start (p.finish ⟨text.toArray, line, i⟩ carry) := by
  subst hi
  obtain ⟨st, l, o, n⟩ := p
  have hopened : o = if st.isIdle then none else some ⟨line, start⟩ := h.opened
  have hlength : n = l.size := h.length_eq
  subst hopened hlength
  cases st
  case start | expectDelimiter =>
      obtain rfl := (h.idle rfl).1
      exact .settled .nil
  case delimiter | operator =>
      obtain ⟨-, -, c, hc, -⟩ := h.holds
      cases hc
  case float => exact absurd h.holds.2.2 nofun
  case identifier =>
      obtain ⟨hl, hw | ⟨-, c, hc, -⟩⟩ := h.holds
      · obtain ⟨hreads, -, hid⟩ := wordKind_reads .identifier line start hw hl
        exact ends_token h.start_le hreads hid
      · cases hc
  case identifierDash =>
      obtain ⟨hl, a, b, ha, hb, hw⟩ := h.holds
      exact ends_dashed h hl ha hb hw
  case number =>
      obtain ⟨hl, hw | ⟨-, c, hc, -⟩⟩ := h.holds
      · exact ends_token (k := .literal .int) h.start_le ⟨hw, hl⟩ nofun
      · cases hc
  case decimal =>
      obtain ⟨hl, hw⟩ := h.holds
      by_cases hback : l.back? = some '.'
      · have hfault : Piece text line start
            [(Pending.under .decimal l line start).fault ⟨text.toArray, line, text.length⟩
              .openDouble] start := .fault rfl h.le_length rfl nofun
        simp only [Pending.finish, hback, if_true]
        exact .settled (hfault.tiles.trans (skipped_tiles h (h.holds.ne_nil rfl)))
      · simp only [Pending.finish, hback, if_false]
        rw [← Array.getLast?_toList, hl] at hback
        exact ends_token (k := .literal .double) h.start_le ⟨hw.fraction hback, hl⟩ nofun
  case beforeEquals =>
      obtain ⟨hl, o, hw, ho | ⟨-, hc⟩ | ⟨-, c, hc, -⟩⟩ := h.holds
      · have hall : ∀ d ∈ ['=', '*', '%', '.'], isOperatorChar d = true :=
          List.all_eq_true.mp rfl
        exact ends_firstOperator h hl hw (hall o ho)
      · cases hc
      · cases hc
  case doubling =>
      obtain ⟨hl, hw | ⟨-, hc⟩⟩ := h.holds
      · exact ends_firstOperator h hl hw (by decide)
      · cases hc
  case logical =>
      obtain ⟨hl, hw | hw⟩ := h.holds
      · exact ends_firstOperator h hl hw (by decide)
      · exact ends_firstOperator h hl hw (by decide)
  case minus | less | greater | slash =>
      exact ends_firstOperator h h.holds.1 h.holds.2 (by decide)
  case leftArrow =>
      obtain ⟨hl, hw⟩ := h.holds
      refine ends_token (k := .operator .leftArrow) h.start_le ?_ nofun
      rw [hw]
      exact ⟨by decide, hl.trans hw⟩
  case lineComment =>
      obtain ⟨-, body, hbody, hw⟩ := h.holds
      rw [stretch_length] at hw
      exact .cut hbody hw
  case blockComment =>
      obtain ⟨-, body, hopen, -, hw⟩ := h.holds
      exact ends_blockComment h rfl hopen hw
  case blockCommentStar =>
      obtain ⟨-, body, hopen, hw⟩ := h.holds
      exact ends_blockComment h rfl hopen hw
  case invalid =>
      exact .settled (skipped_tiles h (h.holds.ne_nil rfl))
  -- what is left is inside a literal
  all_goals exact ends_terminate h rfl rfl

end Ends

end ContractLex
