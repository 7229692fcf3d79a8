import ContractLex.Proofs.Length

/-!
# The buffer of the scanner

The lexeme, its length and the place where its token began are changed together or one without the
others: a character is pushed, a token is closed, a word is cut at its dash, a comment opens, a full
lexeme is given up. `Lexer.Meets` collects the configurations that the scanner goes through while a
text is read, before and after every dispatch, with the characters that have been absorbed for the
token under way; between two characters these are what the scan has pending (`meets_none_iff`).
`feed_coherent` says what holds in all of them.

What the lexeme looks like and where its token began is what `Pending.Stands` knows; only a comment
that was carried over from an earlier text does not stand in this one (`Pending.Lies`). The length
is a matter of its own (`Pending.Fits`).
-/

namespace ContractLex

open Spelling

/-! ## Configurations -/

/-- What has been absorbed for the token under way after a move for `c`, if it was `w` before. -/
def Move.absorbed (m : Move) (c : Char) (w : List Char) : List Char :=
  if m.pending.opened = none then [] else if m.used then w ++ [c] else w

/-- The configurations of the scanner while `lx` reads `text`: it is at column `i`, where `next` is
to be dispatched, if a character is; `p` is pending, and `w` has been absorbed for it. -/
inductive Lexer.Meets (lx : Lexer) (text : String) (line : Nat) :
    Nat → Option Char → Pending → List Char → Prop
  | begin : lx.Meets text line 0 none lx.pending []
  /-- The next character comes, and a full lexeme is given up. -/
  | enter {i p w c} : lx.Meets text line i none p w → text.toList[i]? = some c →
      lx.Meets text line i (some c) p.entry w
  | handOn {i p w c m} : lx.Meets text line i (some c) p w →
      dispatch p ⟨text.toList.toArray, line, i⟩ c = m → m.used = false →
      lx.Meets text line i (some c) m.pending (m.absorbed c w)
  | use {i p w c m} : lx.Meets text line i (some c) p w →
      dispatch p ⟨text.toList.toArray, line, i⟩ c = m → m.used = true →
      lx.Meets text line (i + 1) none m.pending (m.absorbed c w)

namespace Lexer

variable {lx : Lexer} {text : String} {line i n : Nat} {next : Option Char} {c : Char}
  {p q : Pending} {w : List Char} {fs : List Finding}

theorem pendingAt_succ (lx : Lexer) (line : Nat) (hc : text.toList[i]? = some c) :
    lx.pendingAt text line (i + 1) =
      (step ⟨text.toList.toArray, line, i⟩ (lx.pendingAt text line i) c).pending := by
  have hlen : (text.toList.take i).length = i := by
    have := (List.getElem?_eq_some_iff.mp hc).1
    rw [List.length_take]
    omega
  rw [pendingAt_eq_trace, pendingAt_eq_trace, List.take_add_one, hc, trace_append, Nat.zero_add,
    hlen]
  rfl

/-- The dispatches of one character are met, and what they lead to. -/
theorem Meets.passage (hpass : Passage ⟨text.toList.toArray, line, i⟩ c p n fs q) :
    ∀ {w : List Char}, lx.Meets text line i (some c) p w →
      ∃ w', lx.Meets text line (i + 1) none q w' := by
  induction hpass with
  | use hused => exact fun h => ⟨_, h.use rfl hused⟩
  | handOn hused _ ih => exact fun h => ih (h.handOn rfl hused)

/-- What is met before a character is dispatched is what the scan has pending there; and the
dispatches of a character lead to what it has pending after it. -/
theorem Meets.on_scan (h : lx.Meets text line i next p w) :
    match next with
    | none => i ≤ text.toList.length ∧ p = lx.pendingAt text line i
    | some c => text.toList[i]? = some c ∧ ∃ n fs,
        Passage ⟨text.toList.toArray, line, i⟩ c p n fs (lx.pendingAt text line (i + 1)) := by
  induction h with
  | begin => exact ⟨Nat.zero_le _, rfl⟩
  | @enter i p w c _ hc ih =>
      obtain ⟨n, -, fs, q, hpass, hstep⟩ :=
        exists_step ⟨text.toList.toArray, line, i⟩ c (lx.pendingAt text line i)
      refine ⟨hc, n, fs, ?_⟩
      rw [pendingAt_succ lx line hc, hstep, ih.2]
      exact hpass
  | @handOn i p w c m _ hm hused ih =>
      obtain ⟨hc, n, fs, hpass⟩ := ih
      subst hm
      refine ⟨hc, ?_⟩
      generalize lx.pendingAt text line (i + 1) = q at hpass
      cases hpass with
      | use hused' => rw [hused] at hused'; cases hused'
      | handOn _ hrest => exact ⟨_, _, hrest⟩
  | @use i p w c m _ hm hused ih =>
      obtain ⟨hc, n, fs, hpass⟩ := ih
      subst hm
      refine ⟨(List.getElem?_eq_some_iff.mp hc).1, ?_⟩
      generalize lx.pendingAt text line (i + 1) = q at hpass
      cases hpass with
      | use => rfl
      | handOn hused' => rw [hused] at hused'; cases hused'

/-- Between two characters exactly what the scan has pending is met. -/
theorem meets_none_iff :
    (∃ w, lx.Meets text line i none p w) ↔
      i ≤ text.toList.length ∧ p = lx.pendingAt text line i := by
  constructor
  · rintro ⟨w, h⟩
    exact h.on_scan
  · rintro ⟨hi, rfl⟩
    induction i with
    | zero => exact ⟨[], .begin⟩
    | succ i ih =>
        obtain ⟨w, hmeets⟩ := ih (Nat.le_of_succ_le hi)
        have hc : text.toList[i]? = some text.toList[i] := List.getElem?_eq_getElem hi
        obtain ⟨n, -, fs, q, hpass, hstep⟩ :=
          exists_step ⟨text.toList.toArray, line, i⟩ text.toList[i] (lx.pendingAt text line i)
        rw [pendingAt_succ lx line hc, hstep]
        exact Meets.passage hpass (hmeets.enter hc)

/-- The length is right in every configuration, and within the cap. -/
theorem Meets.fits (hp : lx.pending.Fits) (h : lx.Meets text line i next p w) :
    p.Fits ∧ (next.isSome → p.isFull = false) := by
  induction h with
  | begin => exact ⟨hp, nofun⟩
  | enter _ _ ih => exact ⟨ih.1.entry.1, fun _ => ih.1.entry.2⟩
  | @handOn i p w c m _ hm hused ih =>
      have hmove := dispatch_fits ih.1 (ih.2 rfl) ⟨text.toList.toArray, line, i⟩ c
      rw [hm] at hmove
      exact ⟨hmove.pending, fun _ => hmove.room hused⟩
  | @use i p w c m _ hm hused ih =>
      have hmove := dispatch_fits ih.1 (ih.2 rfl) ⟨text.toList.toArray, line, i⟩ c
      rw [hm] at hmove
      exact ⟨hmove.pending, nofun⟩

end Lexer

/-! ## What the lexeme looks like -/

/-- The characters that can lead to an operator state and are then its lexeme. -/
def State.leaders : State → List Char
  | .beforeEquals => ['=', '*', '%', '.', '+', '-', '/']
  | .doubling => ['+', '-']
  | .logical => ['&', '|']
  | .minus => ['-']
  | .less => ['<']
  | .greater => ['>']
  | .slash => ['/']
  | _ => []

/-- The lexemes that a state can have. -/
def State.Admits (st : State) (l : List Char) : Prop :=
  match st with
  | .start | .delimiter | .expectDelimiter => l = []
  | .lineComment | .blockComment | .blockCommentStar => l = []
  | .beforeEquals | .doubling | .logical | .minus | .less | .greater | .slash =>
    ∃ o ∈ st.leaders, l = [o]
  | .leftArrow => l = ['<', '-']
  | .identifierDash =>
    ∃ a ∈ ["init", "auto"], ∃ b, (b = [] ∨ IsWord b) ∧ l = a.toList ++ '-' :: b
  | _ => True

theorem State.Holds.admits {st : State} {next : Option Char} {w l : List Char}
    (h : st.Holds next w l) : st.Admits l := by
  cases st
  case start | expectDelimiter => exact h.2
  case delimiter => exact h.2.1
  case lineComment | blockComment | blockCommentStar => exact h.1
  case identifierDash =>
      obtain ⟨hl, a, b, ha, hb, hw⟩ := h
      refine ⟨String.ofList a, ?_, b, hb, by rw [String.toList_ofList, hl, hw]⟩
      rcases eq_of_isDashPrefix ha with heq | heq <;> simp [heq]
  case beforeEquals =>
      obtain ⟨hl, o, hw, ho⟩ := h
      refine ⟨o, ?_, hl.trans hw⟩
      rcases ho with ho | ⟨ho, -⟩ | ⟨rfl, -⟩
      · exact List.mem_append_left ['+', '-', '/'] ho
      · exact List.mem_append_right ['=', '*', '%', '.'] (List.mem_append_left ['/'] ho)
      · decide
  case doubling =>
      obtain ⟨hl, hw | ⟨hw, -⟩⟩ := h
      · exact ⟨'+', by decide, hl.trans hw⟩
      · exact ⟨'-', by decide, hl.trans hw⟩
  case logical =>
      obtain ⟨hl, hw | hw⟩ := h
      · exact ⟨'&', by decide, hl.trans hw⟩
      · exact ⟨'|', by decide, hl.trans hw⟩
  case minus | less | greater | slash => exact ⟨_, List.mem_singleton_self _, h.1.trans h.2⟩
  case leftArrow => exact h.1.trans h.2
  all_goals trivial

/-- A new lexer can be in the state with `o` as the lexeme. -/
def State.IsMetWith (st : State) (o : Char) : Prop :=
  ∃ (text : String) (i : Nat) (next : Option Char) (p : Pending) (w : List Char),
    ({} : Lexer).Meets text 1 i next p w ∧ p.state = st ∧ p.lexeme = #[o]

/-- The operator character leads to the state. -/
theorem isMetWith_of_pendingAt {st : State} {o : Char} (text : String)
    (hlen : 1 ≤ text.toList.length)
    (hp : ({} : Lexer).pendingAt text 1 1 = .under st #[o] 1 0) : st.IsMetWith o := by
  obtain ⟨w, hw⟩ := Lexer.meets_none_iff.mpr ⟨hlen, hp.symm⟩
  exact ⟨text, 1, none, _, w, hw, rfl, rfl⟩

/-- The operator character leads to a state that hands the next one on to the state. -/
theorem isMetWith_of_handOn {st st' : State} {o c : Char} (text : String)
    (hc : text.toList[1]? = some c)
    (hp : ({} : Lexer).pendingAt text 1 1 = .under st #[o] 1 0)
    (hpass : dispatch (.under st #[o] 1 0) ⟨text.toList.toArray, 1, 1⟩ c =
      .handOn (.under st' #[o] 1 0)) : st'.IsMetWith o := by
  have hlen := (List.getElem?_eq_some_iff.mp hc).1
  obtain ⟨w, hw⟩ := Lexer.meets_none_iff.mpr ⟨Nat.le_of_lt hlen, hp.symm⟩
  exact ⟨text, 1, some c, _, _, (hw.enter hc).handOn hpass rfl, rfl, rfl⟩

/-- Each of the characters does lead to the state. -/
theorem isMetWith_of_mem_leaders {st : State} {o : Char} (ho : o ∈ st.leaders) :
    st.IsMetWith o := by
  cases st
  case beforeEquals =>
      simp only [State.leaders, List.mem_cons, List.not_mem_nil, or_false] at ho
      rcases ho with rfl | rfl | rfl | rfl | rfl | rfl | rfl
      · exact isMetWith_of_pendingAt "=" (by decide) rfl
      · exact isMetWith_of_pendingAt "*" (by decide) rfl
      · exact isMetWith_of_pendingAt "%" (by decide) rfl
      · exact isMetWith_of_pendingAt "." (by decide) rfl
      · exact isMetWith_of_handOn "+=" rfl rfl rfl
      · exact isMetWith_of_handOn "-=" rfl rfl rfl
      · exact isMetWith_of_handOn "/ " rfl rfl rfl
  case doubling =>
      simp only [State.leaders, List.mem_cons, List.not_mem_nil, or_false] at ho
      rcases ho with rfl | rfl
      · exact isMetWith_of_pendingAt "+" (by decide) rfl
      · exact isMetWith_of_handOn "--" rfl rfl rfl
  case logical =>
      simp only [State.leaders, List.mem_cons, List.not_mem_nil, or_false] at ho
      rcases ho with rfl | rfl
      · exact isMetWith_of_pendingAt "&" (by decide) rfl
      · exact isMetWith_of_pendingAt "|" (by decide) rfl
  case minus =>
      obtain rfl := List.mem_singleton.mp ho
      exact isMetWith_of_pendingAt "-" (by decide) rfl
  case less =>
      obtain rfl := List.mem_singleton.mp ho
      exact isMetWith_of_pendingAt "<" (by decide) rfl
  case greater =>
      obtain rfl := List.mem_singleton.mp ho
      exact isMetWith_of_pendingAt ">" (by decide) rfl
  case slash =>
      obtain rfl := List.mem_singleton.mp ho
      exact isMetWith_of_pendingAt "/" (by decide) rfl
  all_goals exact absurd ho List.not_mem_nil

/-! ## Where the token began -/

/-- While `c` is dispatched, a token that is under way keeps its beginning. -/
theorem Outcome.opened_eq {text : List Char} {line i start : Nat} {c : Char} {p : Pending}
    {m : Move} (ho : Outcome text line i c p start m) (hidle : m.pending.state.isIdle = false) :
    m.pending.opened = some ⟨line, start⟩ := by
  cases ho with
  | goOn | lineBreak | reject => rfl
  | pass st => exact if_neg (by simpa [Move.handOn] using hidle)
  | close _ _ _ hq => rcases hq with rfl | ⟨-, rfl⟩ <;> exact Bool.noConfusion hidle
  | blank | closeBefore | split | comment | skip => exact Bool.noConfusion hidle

/-- What is pending stands in the text and `w` has been absorbed for it, or it is a comment that was
carried over. -/
def Pending.Lies (text : List Char) (line b i : Nat) (next : Option Char) (p : Pending)
    (w : List Char) : Prop :=
  p.Carried b ∨ ∃ start, p.Stands text line i next start ∧ w = stretch text start i

section Lies

variable {text : List Char} {line b i start : Nat} {c : Char} {p : Pending} {m : Move}
  {w : List Char}

/-- What has been absorbed is the stretch from where what is then pending began. -/
theorem Outcome.absorbed_eq (ho : Outcome text line i c p start m) {j start' : Nat}
    {next : Option Char} (hj : stretch text start j =
      if m.used then stretch text start i ++ [c] else stretch text start i)
    (hstands : m.pending.Stands text line j next start') :
    m.absorbed c (stretch text start i) = stretch text start' j := by
  unfold Move.absorbed
  cases hidle : m.pending.state.isIdle with
  | true =>
      have hopened : m.pending.opened = none := hstands.opened.trans (if_pos hidle)
      rw [if_pos hopened, (hstands.idle hidle).1, stretch_self]
  | false =>
      have hopened := ho.opened_eq hidle
      have hstart : start' = start := by
        have hsame := (hstands.opened_some hidle).symm.trans hopened
        exact congrArg Position.column (Option.some.inj hsame)
      rw [if_neg (by rw [hopened]; exact nofun), hstart, hj]

theorem Pending.Lies.handOn (h : p.Lies text line b i (some c) w)
    (hm : dispatch p ⟨text.toArray, line, i⟩ c = m) (hused : m.used = false) :
    m.pending.Lies text line b i (some c) (m.absorbed c w) := by
  rcases h with hp | ⟨start, hp, rfl⟩
  · rcases hp.dispatch_cases ⟨text.toArray, line, i⟩ c with ⟨st, -, heq⟩ | heq
    · rw [← hm, heq] at hused
      cases hused
    · rw [← hm, heq] at hused
      cases hused
  · have ho := dispatch_outcome hp
    rw [hm] at ho
    obtain ⟨start', -, hstands⟩ := ho.advance hp
    rw [hused] at hstands
    exact Or.inr ⟨start', hstands, ho.absorbed_eq (by simp [hused]) hstands⟩

theorem Pending.Lies.use (h : p.Lies text line b i (some c) w) (hc : text[i]? = some c)
    (hm : dispatch p ⟨text.toArray, line, i⟩ c = m) (hused : m.used = true) :
    m.pending.Lies text line b (i + 1) none (m.absorbed c w) := by
  have hlt := (List.getElem?_eq_some_iff.mp hc).1
  rcases h with hp | ⟨start, hp, rfl⟩
  · rcases hp.dispatch_cases ⟨text.toArray, line, i⟩ c with ⟨st, hst, heq⟩ | heq
    · rw [← hm, heq]
      exact Or.inl ⟨hst, hp.lexeme, hp.length, hp.opened⟩
    · rw [← hm, heq]
      exact Or.inr ⟨i + 1, stands_start line hlt, (stretch_self text _).symm⟩
  · have ho := dispatch_outcome hp
    rw [hm] at ho
    obtain ⟨start', -, hstands⟩ := ho.advance hp
    rw [hused] at hstands
    exact Or.inr ⟨start', hstands, ho.absorbed_eq (by simp [hused, hp.stretch_concat]) hstands⟩

/-- Only a token of this text can be full. -/
theorem Pending.Lies.enter (h : p.Lies text line b i none w) (hc : text[i]? = some c) :
    p.entry.Lies text line b i (some c) w := by
  rcases h with hp | ⟨start, hp, hw⟩
  · have hfull : p.isFull = false := by simp [Pending.isFull, State.isComment, hp.state]
    rw [Pending.entry, hfull]
    exact Or.inl hp
  · exact Or.inr ⟨start, hp.entry hc, hw⟩

theorem Lexer.Meets.lies {lx : Lexer} {text : String} {next : Option Char}
    (hrests : lx.pending.Rests lx.settings.carryComments b)
    (h : lx.Meets text line i next p w) : p.Lies text.toList line b i next w := by
  induction h with
  | begin =>
      rcases hrests with hp | ⟨-, hp⟩
      · rw [hp]
        exact Or.inr ⟨0, stands_start line (Nat.zero_le _), (stretch_self _ 0).symm⟩
      · exact Or.inl hp
  | enter _ hc ih => exact ih.enter hc
  | handOn _ hm hused ih => exact ih.handOn hm hused
  | use hbefore hm hused ih => exact ih.use hbefore.on_scan.1 hm hused

end Lies

/-! ## The buffer -/

/-- What holds of the buffer at column `i`, where `next` is to be dispatched, if a character is, and
`w` has been absorbed for what is pending. -/
structure Pending.Coherent (text : List Char) (line i : Nat) (next : Option Char) (p : Pending)
    (w : List Char) : Prop where
  length_eq : p.length = p.lexeme.size
  length_le : p.length ≤ maxLexeme
  admits : p.state.Admits p.lexeme.toList
  /-- What is under way has begun somewhere. If it is no block comment, it began on this line, what
  has been absorbed for it is the text from there on, and the state knows what that looks like and
  what the lexeme has made of it. -/
  opened : p.state.isIdle = false → ∃ o, p.opened = some o
    ∧ (p.state.isBlockComment = false → o.line = line ∧ o.column ≤ i
      ∧ w = stretch text o.column i ∧ p.state.Holds next w p.lexeme.toList)

theorem Pending.Lies.coherent {text : List Char} {line b i : Nat} {next : Option Char} {p : Pending}
    {w : List Char} (h : p.Lies text line b i next w) (hfits : p.Fits) :
    p.Coherent text line i next w := by
  rcases h with hp | ⟨start, hp, rfl⟩
  · obtain ⟨o, ho, -⟩ := hp.opened
    refine ⟨hfits.length_eq, hfits.length_le, ?_, fun _ => ⟨o, ho, fun hst => ?_⟩⟩
    · rw [hp.lexeme]
      rcases State.eq_of_isBlockComment hp.state with hst | hst <;> rw [hst] <;> rfl
    · rw [hp.state] at hst
      cases hst
  · refine ⟨hfits.length_eq, hfits.length_le, hp.holds.admits, fun hidle => ?_⟩
    exact ⟨⟨line, start⟩, hp.opened_some hidle, fun _ => ⟨rfl, hp.start_le, rfl, hp.holds⟩⟩

/-- Whatever was called before: in every configuration that the scanner goes through while a text is
read, before and after each dispatch, the length of the lexeme is counted right and within the cap,
the lexeme is one that the state can have, and what is under way has a beginning, from which on the
text has been absorbed for it. So no token but skipped text is longer than the cap. -/
theorem feed_coherent {lx : Lexer} (h : lx.Reachable) (text : String) (line : Nat) :
    (∀ i ≤ text.toList.length, ∃ w, lx.Meets text line i none (lx.pendingAt text line i) w)
    ∧ (∀ i next p w, lx.Meets text line i next p w → p.Coherent text.toList line i next w)
    ∧ ∀ t ∈ (lx.feed text line).1.tokens.toList,
      t.kind ≠ .unknown → t.text.toList.length ≤ maxLexeme := by
  obtain ⟨b, hrests⟩ := h.rests
  refine ⟨fun i hi => ?_, fun i next p w hmeets => ?_, ?_⟩
  · exact Lexer.meets_none_iff.mpr ⟨hi, rfl⟩
  · exact (hmeets.lies hrests).coherent (hmeets.fits (Lexer.fits_rests hrests)).1
  · exact Lexer.feed_short hrests h.tokens_short text line

/-- A carried comment ends, and the text goes on with an arrow. -/
theorem feed_coherent_carried :
    let lx := ({ settings := { carryComments := true } } : Lexer).run [.feed "/* a" 1]
    let p := Pending.under .leftArrow #['<', '-'] 2 4
    lx.Reachable ∧ ∃ w, lx.Meets "*/ x<-1;" 2 6 none p w
      ∧ p.Coherent "*/ x<-1;".toList 2 6 none w
      ∧ ∀ t ∈ (lx.feed "*/ x<-1;" 2).1.tokens.toList,
        t.kind ≠ .unknown → t.text.toList.length ≤ maxLexeme := by
  intro lx p
  have hreach : lx.Reachable := ⟨_, _, rfl⟩
  have hp : lx.pendingAt "*/ x<-1;" 2 6 = p := by decide +kernel
  obtain ⟨hmeets, hcoherent, hshort⟩ := feed_coherent hreach "*/ x<-1;" 2
  obtain ⟨w, hw⟩ := hmeets 6 (by decide)
  rw [hp] at hw
  exact ⟨hreach, w, hw, hcoherent _ _ _ _ hw, hshort⟩

end ContractLex
