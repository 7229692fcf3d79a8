import ContractLex.Scanner.Scan

/-!
# The way of one character, and of a whole text

A character that a state does not use is handed on. `State.handOvers` bounds how often that can
still happen, from the state and the character alone, and every hand-over lowers it; so the bound
that `settle` works with is never reached. `Passage` is the way of one character with the number
of its hand-overs, and the form in which everything else is proved about `settle`: by induction on
the way.

Since no character gets stuck, a scan is a fold of `step` over the text. `trace` is that fold, and
`scan_eq_trace` says so. What one step preserves, a trace preserves (`trace_induction`).
-/

namespace ContractLex

open Spelling

/-! ## Hand-overs -/

/-- How often `c` can at most be handed on from a state. Cycles through `start` are harmless: a
token that ends before `c` leaves `start`, and from there one more hand-over settles `c`. -/
def State.handOvers (c : Char) : State → Nat
  | .delimiter | .float | .operator | .stringOpen | .string => 0
  | .lineComment | .blockComment | .blockCommentStar => 0
  | .start => 1
  | .invalid => if isDelimiter c then 1 else 0
  | .identifier => if isWordStart c then 0 else 2
  | .number => if c.isDigit then 0 else 2
  | .doubling => if c = '=' then 3 else 2
  | .minus | .slash => 3
  | .expectDelimiter | .identifierDash | .decimal | .charOpen | .charEscape | .charClose
  | .stringEscape | .beforeEquals | .logical | .less | .greater | .leftArrow => 2

theorem State.handOvers_le (st : State) (c : Char) : st.handOvers c ≤ 3 := by
  cases st <;> simp only [handOvers] <;> (try split) <;> omega

/-- A move that hands the character on leaves less than `n` hand-overs to come. -/
def Move.Lowers (c : Char) (n : Nat) (m : Move) : Prop :=
  m.used = false → m.pending.state.handOvers c < n

section Lowers

variable {s : Site} {c : Char} {p : Pending} {n : Nat}

theorem lowers_use (p : Pending) (fs : List Finding) : (Move.use p fs).Lowers c n :=
  fun h => absurd h (by simp [Move.use])

theorem lowers_handOn {fs : List Finding} (h : p.state.handOvers c < n) :
    (Move.handOn p fs).Lowers c n :=
  fun _ => h

theorem lowers_reject (f : Fault) (h : 1 < n) : (p.reject s f).Lowers c n := by
  refine lowers_handOn ?_
  simp only [State.handOvers]
  split <;> omega

theorem lowers_closeBefore (k : Kind) (h : 1 < n) : (p.closeBefore s k).Lowers c n :=
  lowers_handOn h

theorem lowers_closeOperator (h : 1 < n) : (p.closeOperator s).Lowers c n :=
  lowers_handOn h

theorem lowers_onStart : (onStart p s c).Lowers c 1 := by
  unfold onStart
  split
  · exact lowers_handOn (by simp [Pending.goto, State.handOvers])
  · next hd =>
    split
    · next hw => exact lowers_handOn (by simp [Pending.goto, State.handOvers, hw])
    · split
      · next hn => exact lowers_handOn (by simp [Pending.goto, State.handOvers, hn])
      · split
        · exact lowers_handOn (by simp [Pending.goto, State.handOvers])
        · split
          · exact lowers_use _ _
          · split
            · exact lowers_use _ _
            · exact lowers_handOn (by simp [State.handOvers, hd])

theorem lowers_onDelimiter : (onDelimiter p s c).Lowers c n := by
  unfold onDelimiter
  split
  · split <;> exact lowers_use _ _
  · exact lowers_use _ _

theorem lowers_onExpectDelimiter : (onExpectDelimiter p s c).Lowers c 2 := by
  unfold onExpectDelimiter
  split
  · exact lowers_handOn (by simp [Pending.goto, State.handOvers])
  · exact lowers_reject _ Nat.one_lt_two

theorem lowers_onInvalid : (onInvalid p s c).Lowers c (State.invalid.handOvers c) := by
  unfold onInvalid
  split
  · next hd => exact lowers_handOn (by simp [State.handOvers, hd])
  · exact lowers_use _ _

theorem lowers_onIdentifier : (onIdentifier p s c).Lowers c (State.identifier.handOvers c) := by
  unfold onIdentifier
  split
  · exact lowers_use _ _
  · next hc =>
    have hstart : ¬ isWordStart c = true := fun h => hc (isWordChar_of_isWordStart h)
    split
    · exact lowers_use _ _
    · exact lowers_closeBefore _ (by simp [State.handOvers, hstart])

theorem lowers_onIdentifierDash : (onIdentifierDash p s c).Lowers c 2 := by
  simp only [onIdentifierDash]
  split <;> split
  · exact lowers_use _ _
  · exact lowers_handOn Nat.one_lt_two
  · exact lowers_use _ _
  · exact lowers_handOn Nat.one_lt_two

theorem lowers_onNumber : (onNumber p s c).Lowers c (State.number.handOvers c) := by
  unfold onNumber
  split
  · exact lowers_use _ _
  · next hd =>
    have htwo : 1 < State.number.handOvers c := by simp [State.handOvers, hd]
    split
    · exact lowers_use _ _
    · split
      · exact lowers_closeBefore _ htwo
      · exact lowers_reject _ htwo

theorem lowers_onDecimal : (onDecimal p s c).Lowers c 2 := by
  unfold onDecimal
  split
  · exact lowers_use _ _
  · split
    · exact lowers_handOn (by simp [Pending.goto, State.handOvers])
    · split
      · split
        · exact lowers_reject _ Nat.one_lt_two
        · exact lowers_closeBefore _ Nat.one_lt_two
      · exact lowers_reject _ Nat.one_lt_two

theorem lowers_onCharOpen : (onCharOpen p s c).Lowers c 2 := by
  unfold onCharOpen
  split
  · exact lowers_use _ _
  · split
    · exact lowers_reject _ Nat.one_lt_two
    · exact lowers_use _ _

theorem lowers_onCharEscape : (onCharEscape p s c).Lowers c 2 := by
  unfold onCharEscape
  split
  · exact lowers_use _ _
  · exact lowers_reject _ Nat.one_lt_two

theorem lowers_onCharClose : (onCharClose p s c).Lowers c 2 := by
  unfold onCharClose
  split
  · exact lowers_use _ _
  · exact lowers_reject _ Nat.one_lt_two

theorem lowers_onString : (onString p s c).Lowers c n := by
  unfold onString
  split
  · exact lowers_use _ _
  · split <;> exact lowers_use _ _

theorem lowers_onStringEscape : (onStringEscape p s c).Lowers c 2 := by
  unfold onStringEscape
  split
  · exact lowers_use _ _
  · exact lowers_reject _ Nat.one_lt_two

theorem lowers_onOperator : (onOperator p s c).Lowers c n := by
  unfold onOperator
  split <;> exact lowers_use _ _

theorem lowers_onBeforeEquals : (onBeforeEquals p s c).Lowers c 2 := by
  unfold onBeforeEquals
  split
  · exact lowers_reject _ Nat.one_lt_two
  · split
    · exact lowers_use _ _
    · exact lowers_closeOperator Nat.one_lt_two

theorem lowers_onDoubling : (onDoubling p s c).Lowers c (State.doubling.handOvers c) := by
  have htwo : 1 < State.doubling.handOvers c := by
    simp only [State.handOvers]
    split <;> omega
  unfold onDoubling
  split
  · exact lowers_reject _ htwo
  · split
    · next hc => exact lowers_handOn (by simp [Pending.goto, State.handOvers, hc])
    · split
      · exact lowers_use _ _
      · exact lowers_use _ _
      · exact lowers_closeOperator htwo

theorem lowers_onLogical : (onLogical p s c).Lowers c 2 := by
  unfold onLogical
  split
  · exact lowers_use _ _
  · exact lowers_use _ _
  · exact lowers_closeOperator Nat.one_lt_two

theorem lowers_onMinus : (onMinus p s c).Lowers c 3 := by
  unfold onMinus
  split
  · exact lowers_handOn (by simp [Pending.goto, State.handOvers])
  · exact lowers_handOn (by simp [Pending.goto, State.handOvers])
  · exact lowers_use _ _
  · exact lowers_closeOperator (by omega)

theorem lowers_onLess : (onLess p s c).Lowers c 2 := by
  unfold onLess
  split
  · exact lowers_use _ _
  · exact lowers_use _ _
  · exact lowers_use _ _
  · exact lowers_closeOperator Nat.one_lt_two

theorem lowers_onGreater : (onGreater p s c).Lowers c 2 := by
  unfold onGreater
  split
  · exact lowers_use _ _
  · exact lowers_use _ _
  · exact lowers_closeOperator Nat.one_lt_two

theorem lowers_onLeftArrow : (onLeftArrow p s c).Lowers c 2 := by
  unfold onLeftArrow
  split
  · exact lowers_use _ _
  · exact lowers_closeBefore _ Nat.one_lt_two

theorem lowers_onSlash : (onSlash p s c).Lowers c 3 := by
  unfold onSlash
  split
  · exact lowers_use _ _
  · exact lowers_use _ _
  · exact lowers_handOn (by simp [Pending.goto, State.handOvers])

theorem lowers_onLineComment : (onLineComment p s c).Lowers c n := by
  unfold onLineComment
  split <;> exact lowers_use _ _

theorem lowers_onBlockComment : (onBlockComment p s c).Lowers c n := by
  unfold onBlockComment
  split <;> exact lowers_use _ _

theorem lowers_onBlockCommentStar : (onBlockCommentStar p s c).Lowers c n := by
  unfold onBlockCommentStar
  split
  · exact lowers_use _ _
  · split <;> exact lowers_use _ _

/-- Every hand-over lowers the bound. -/
theorem lowers_dispatch (p : Pending) (s : Site) (c : Char) :
    (dispatch p s c).Lowers c (p.state.handOvers c) := by
  cases hst : p.state <;> simp only [dispatch, hst]
  case start => exact lowers_onStart
  case delimiter => exact lowers_onDelimiter
  case expectDelimiter => exact lowers_onExpectDelimiter
  case invalid => exact lowers_onInvalid
  case identifier => exact lowers_onIdentifier
  case identifierDash => exact lowers_onIdentifierDash
  case number => exact lowers_onNumber
  case decimal => exact lowers_onDecimal
  case float => exact lowers_use _ _
  case charOpen => exact lowers_onCharOpen
  case charEscape => exact lowers_onCharEscape
  case charClose => exact lowers_onCharClose
  case stringOpen | string => exact lowers_onString
  case stringEscape => exact lowers_onStringEscape
  case operator => exact lowers_onOperator
  case beforeEquals => exact lowers_onBeforeEquals
  case doubling => exact lowers_onDoubling
  case logical => exact lowers_onLogical
  case minus => exact lowers_onMinus
  case less => exact lowers_onLess
  case greater => exact lowers_onGreater
  case leftArrow => exact lowers_onLeftArrow
  case slash => exact lowers_onSlash
  case lineComment => exact lowers_onLineComment
  case blockComment => exact lowers_onBlockComment
  case blockCommentStar => exact lowers_onBlockCommentStar

end Lowers

/-! ## One character -/

/-- The way of `c` from `p` to `q`: it is handed on `n` times before it is used, and `fs` is
reported on the way. -/
inductive Passage (s : Site) (c : Char) : Pending → Nat → List Finding → Pending → Prop
  | use {p} : (dispatch p s c).used = true →
      Passage s c p 0 (dispatch p s c).findings (dispatch p s c).pending
  | handOn {p n fs q} : (dispatch p s c).used = false →
      Passage s c (dispatch p s c).pending n fs q →
      Passage s c p (n + 1) ((dispatch p s c).findings ++ fs) q

/-- Every character gets through, within the bound. The induction is on the bound. -/
theorem exists_passage_of_le {s : Site} {c : Char} :
    ∀ {b : Nat} {p : Pending}, p.state.handOvers c ≤ b →
      ∃ n ≤ p.state.handOvers c, ∃ fs q, Passage s c p n fs q
  | b, p, hb => by
      cases hused : (dispatch p s c).used with
      | true => exact ⟨0, Nat.zero_le _, _, _, .use hused⟩
      | false =>
          have hlow := lowers_dispatch p s c hused
          obtain ⟨b, rfl⟩ : ∃ b', b = b' + 1 := ⟨b - 1, by omega⟩
          have hb' : (dispatch p s c).pending.state.handOvers c ≤ b := by omega
          obtain ⟨n, hn, fs, q, hpass⟩ := exists_passage_of_le (s := s) hb'
          exact ⟨n + 1, by omega, _, q, .handOn hused hpass⟩

theorem settle_of_passage {s : Site} {c : Char} {p q : Pending} {n : Nat} {fs : List Finding}
    (h : Passage s c p n fs q) : ∀ {m : Nat}, n < m → settle s c m p = .use q fs := by
  induction h with
  | use hused =>
      intro m hm
      obtain ⟨m, rfl⟩ : ∃ m', m = m' + 1 := ⟨m - 1, by omega⟩
      simp only [settle, hused, if_true, Move.use]
      rw [← hused]
  | handOn hused _ ih =>
      intro m hm
      obtain ⟨m, rfl⟩ : ∃ m', m = m' + 1 := ⟨m - 1, by omega⟩
      simp [settle, hused, ih (show _ < m by omega), Move.use]

/-- Three hand-overs are enough for any character in any state. -/
theorem exists_passage (s : Site) (c : Char) (p : Pending) :
    ∃ n ≤ 3, ∃ fs q, Passage s c p n fs q := by
  obtain ⟨n, hn, fs, q, hpass⟩ := exists_passage_of_le (s := s) (Nat.le_refl (p.state.handOvers c))
  exact ⟨n, Nat.le_trans hn (p.state.handOvers_le c), fs, q, hpass⟩

/-- What is pending when a character is first dispatched: a full lexeme has been given up. -/
def Pending.entry (p : Pending) : Pending := if p.isFull then p.goto .invalid else p

/-- What is reported before a character is first dispatched. -/
def Pending.overflow (p : Pending) (s : Site) : List Finding :=
  if p.isFull then [p.fault s .longLexeme] else []

/-- A step is the passage of its character, after what the full lexeme made of it. -/
theorem step_of_passage {s : Site} {c : Char} {p q : Pending} {n : Nat} {fs : List Finding}
    (hpass : Passage s c p.entry n fs q) (hn : n ≤ 3) :
    step s p c = .use q (p.overflow s ++ fs) := by
  have hsettle := settle_of_passage hpass (m := maxHandOver + 1) (by simp only [maxHandOver]; omega)
  unfold step
  unfold Pending.entry at hsettle
  split
  · next hfull =>
    rw [if_pos hfull] at hsettle
    simp [hsettle, Pending.overflow, hfull, Move.use]
  · next hfull =>
    rw [if_neg hfull] at hsettle
    simp [hsettle, Pending.overflow, hfull, Move.use]

theorem exists_step (s : Site) (c : Char) (p : Pending) :
    ∃ n ≤ 3, ∃ fs q, Passage s c p.entry n fs q ∧ step s p c = .use q (p.overflow s ++ fs) := by
  obtain ⟨n, hn, fs, q, hpass⟩ := exists_passage s c p.entry
  exact ⟨n, hn, fs, q, hpass, step_of_passage hpass hn⟩

/-- Every character is used. -/
@[simp] theorem used_step (s : Site) (p : Pending) (c : Char) : (step s p c).used = true := by
  obtain ⟨n, -, fs, q, -, hstep⟩ := exists_step s c p
  simp [hstep, Move.use]

/-! ## A whole text -/

/-- Takes the characters `rest` of `text`, which begin at column `i`, through `step`: what is
pending after them, and what was reported. -/
def trace (text : List Char) (line : Nat) (i : Nat) (p : Pending) :
    List Char → Pending × List Finding
  | [] => (p, [])
  | c :: rest =>
    let m := step ⟨text.toArray, line, i⟩ p c
    let t := trace text line (i + 1) m.pending rest
    (t.1, m.findings ++ t.2)

theorem scan_eq_trace (text : List Char) (line : Nat) :
    ∀ (rest : List Char) (i : Nat) (p : Pending) (found : Array Finding),
      scan text.toArray line i p found rest =
        ⟨(trace text line i p rest).1, found ++ (trace text line i p rest).2, i + rest.length, none⟩
  | [], i, p, found => by simp [scan, trace]
  | c :: rest, i, p, found => by
      simp only [scan, used_step, if_true, scan_eq_trace text line rest, trace]
      rw [List.length_cons, Nat.add_assoc, Nat.add_comm 1]
      congr 1
      exact Array.ext' (by simp)

theorem trace_append (text : List Char) (line : Nat) :
    ∀ (a b : List Char) (i : Nat) (p : Pending),
      trace text line i p (a ++ b) =
        ((trace text line (i + a.length) (trace text line i p a).1 b).1,
          (trace text line i p a).2
            ++ (trace text line (i + a.length) (trace text line i p a).1 b).2)
  | [], b, i, p => by simp [trace]
  | c :: a, b, i, p => by
      have hcol : i + (c :: a).length = i + 1 + a.length := by
        simp only [List.length_cons]
        omega
      rw [List.cons_append, hcol]
      simp only [trace, trace_append text line a b, List.append_assoc]

theorem getElem?_of_prefix_drop {text rest : List Char} {c : Char} {i : Nat}
    (h : c :: rest <+: text.drop i) : text[i]? = some c ∧ rest <+: text.drop (i + 1) := by
  obtain ⟨tail, htail⟩ := h
  constructor
  · rw [← List.head?_drop, ← htail]
    rfl
  · refine ⟨tail, ?_⟩
    rw [← List.tail_drop, ← htail]
    rfl

/-- What every step preserves, a trace preserves: `I` speaks of the column, of what is pending
there, and of all that has been reported. -/
theorem trace_induction (text : List Char) (line : Nat)
    {I : Nat → Pending → List Finding → Prop}
    (hstep : ∀ i p fs c, text[i]? = some c → I i p fs →
      I (i + 1) (step ⟨text.toArray, line, i⟩ p c).pending
        (fs ++ (step ⟨text.toArray, line, i⟩ p c).findings)) :
    ∀ (rest : List Char) (i : Nat) (p : Pending) (fs : List Finding),
      rest <+: text.drop i → I i p fs →
      I (i + rest.length) (trace text line i p rest).1 (fs ++ (trace text line i p rest).2)
  | [], i, p, fs, _, h => by simpa [trace] using h
  | c :: rest, i, p, fs, hpre, h => by
      obtain ⟨hc, hrest⟩ := getElem?_of_prefix_drop hpre
      have hnext := trace_induction text line hstep rest (i + 1) _ _ hrest (hstep i p fs c hc h)
      simpa [trace, Nat.add_right_comm, Nat.add_assoc] using hnext

end ContractLex
