import ContractLex.Proofs.Tiling

/-!
# A line break settles what the end of a text settles

Two paths settle what is pending: the character after it does, when it is dispatched, and the end of
the text does. `passage_lineEnd` compares them state by state: if the text may end here, a line
feed or a carriage return is passed with the findings of the end, and nothing is left pending. Only
a line comment tells the two apart, since it goes on through a carriage return; `trace_lineEnd` is
the statement for a whole line end, with one or with two characters.
-/

namespace ContractLex

open Spelling

section LineEnd

variable {text : List Char} {line i start n : Nat} {s : Site} {c : Char} {p q r : Pending}
  {fs gs : List Finding}

theorem passage_of_use (h : dispatch p s c = .use q fs) : Passage s c p 0 fs q := by
  have hpass : Passage s c p 0 _ _ := .use (by rw [h]; rfl)
  rwa [h] at hpass

theorem passage_of_handOn (h : dispatch p s c = .handOn q fs) (hq : Passage s c q n gs r) :
    Passage s c p (n + 1) (fs ++ gs) r := by
  have hpass : Passage s c p (n + 1) _ r := .handOn (by rw [h]; rfl) (by rw [h]; exact hq)
  rwa [h] at hpass

theorem passage_delimiter (hc : c = '\n' ∨ c = '\r') :
    Passage s c { state := .delimiter } 0 [] {} :=
  passage_of_use (by rcases hc with rfl | rfl <;> rfl)

theorem passage_start (hc : c = '\n' ∨ c = '\r') : Passage s c {} 1 [] {} := by
  have hpass : dispatch {} s c = .handOn { state := .delimiter } := by
    rcases hc with rfl | rfl <;> rfl
  exact passage_of_handOn hpass (passage_delimiter hc)

/-- A token that ends before a line break. -/
theorem passage_closed (hc : c = '\n' ∨ c = '\r') (h : dispatch p s c = .handOn {} fs) :
    Passage s c p 2 fs {} := by
  simpa using passage_of_handOn h (passage_start hc)

/-- What is skipped ends before a line break. -/
theorem passage_skipped {l : Array Char} {o : Option Position} {m : Nat}
    (hc : c = '\n' ∨ c = '\r') :
    Passage s c ⟨.invalid, l, o, m⟩ 1 [(Pending.mk .invalid l o m).skipped s s.column] {} := by
  have hpass : dispatch ⟨.invalid, l, o, m⟩ s c =
      .handOn { state := .delimiter } [(Pending.mk .invalid l o m).skipped s s.column] := by
    rcases hc with rfl | rfl <;> rfl
  simpa using passage_of_handOn hpass (passage_delimiter hc)

/-- A number with a period in it ends before a line break, with digits after it or without. -/
theorem passage_decimal {l : Array Char} {o : Position} {m : Nat} (hc : c = '\n' ∨ c = '\r') :
    ∃ n ≤ 3, Passage s c ⟨.decimal, l, some o, m⟩ n
      ((Pending.mk .decimal l (some o) m).finish s false).findings {} := by
  by_cases hback : l.back? = some '.'
  · have hpass : dispatch ⟨.decimal, l, some o, m⟩ s c =
        .handOn ⟨.invalid, l, some o, m⟩
          [(Pending.mk .decimal l (some o) m).fault s .openDouble] := by
      rcases hc with rfl | rfl <;> simp only [dispatch, onDecimal, hback] <;> rfl
    simp only [Pending.finish, hback, if_true]
    exact ⟨2, by omega, passage_of_handOn hpass (passage_skipped hc)⟩
  · have hpass : dispatch ⟨.decimal, l, some o, m⟩ s c =
        .handOn {} [(Pending.mk .decimal l (some o) m).token s (.literal .double) s.column] := by
      rcases hc with rfl | rfl <;> simp only [dispatch, onDecimal, hback] <;> rfl
    simp only [Pending.finish, hback, if_false]
    exact ⟨2, by omega, passage_closed hc hpass⟩

/-- Where a text may end, a line break is passed with the findings of the end. -/
theorem passage_lineEnd (hc : c = '\n' ∨ c = '\r') (h : p.Stands text line i none start)
    (hst : p.state ≠ .lineComment)
    (hok : (p.finish ⟨text.toArray, line, i⟩ false).result = .ok ()) :
    ∃ n ≤ 3, Passage ⟨text.toArray, line, i⟩ c p n
      (p.finish ⟨text.toArray, line, i⟩ false).findings {} := by
  obtain ⟨st, l, o, m⟩ := p
  have hopened : o = if st.isIdle then none else some ⟨line, start⟩ := h.opened
  have hlength : m = l.size := h.length_eq
  subst hopened hlength
  have hclosed : ∀ {p : Pending} {fs : List Finding},
      dispatch p ⟨text.toArray, line, i⟩ c = .handOn {} fs →
        ∃ n ≤ 3, Passage ⟨text.toArray, line, i⟩ c p n fs {} :=
    fun h => ⟨2, by omega, passage_closed hc h⟩
  cases st
  case start =>
      obtain rfl : l = #[] := (h.idle rfl).2
      exact ⟨1, by omega, passage_start hc⟩
  case expectDelimiter =>
      obtain rfl : l = #[] := (h.idle rfl).2
      have hpass : dispatch { state := .expectDelimiter } ⟨text.toArray, line, i⟩ c =
          .handOn { state := .delimiter } := by rcases hc with rfl | rfl <;> rfl
      exact ⟨1, by omega, passage_of_handOn hpass (passage_delimiter hc)⟩
  -- these three are entered only to take the next character, which is not there yet
  case delimiter | operator =>
      obtain ⟨-, -, d, hd, -⟩ := h.holds
      cases hd
  case float => exact absurd h.holds.2.2 nofun
  case lineComment => exact absurd rfl hst
  case identifier | number | minus | less | greater | leftArrow =>
      exact hclosed (by rcases hc with rfl | rfl <;> rfl)
  case identifierDash =>
      refine hclosed ?_
      have hgo : (if l.back? = some '-' then isWordStart c else isWordChar c) = false := by
        rcases hc with rfl | rfl <;> split <;> rfl
      simp only [dispatch, onIdentifierDash, hgo]
      rfl
  case decimal => exact passage_decimal hc
  case beforeEquals =>
      obtain ⟨hl, o, hw, -⟩ := h.holds
      obtain rfl : l = #[o] := Array.toList_inj.mp (hl.trans hw)
      exact hclosed (by rcases hc with rfl | rfl <;> rfl)
  case doubling =>
      obtain ⟨hl, hw⟩ := h.holds
      rcases hw with hw | ⟨hw, -⟩
      · obtain rfl : l = #['+'] := Array.toList_inj.mp (hl.trans hw)
        exact hclosed (by rcases hc with rfl | rfl <;> rfl)
      · obtain rfl : l = #['-'] := Array.toList_inj.mp (hl.trans hw)
        exact hclosed (by rcases hc with rfl | rfl <;> rfl)
  case logical =>
      obtain ⟨hl, hw | hw⟩ := h.holds
      · obtain rfl : l = #['&'] := Array.toList_inj.mp (hl.trans hw)
        exact hclosed (by rcases hc with rfl | rfl <;> rfl)
      · obtain rfl : l = #['|'] := Array.toList_inj.mp (hl.trans hw)
        exact hclosed (by rcases hc with rfl | rfl <;> rfl)
  case slash =>
      obtain rfl : l = #['/'] := Array.toList_inj.mp (h.holds.1.trans h.holds.2)
      have hpass : dispatch (.under .slash #['/'] line start) ⟨text.toArray, line, i⟩ c =
          .handOn (.under .beforeEquals #['/'] line start) := by rcases hc with rfl | rfl <;> rfl
      have hnext : dispatch (.under .beforeEquals #['/'] line start) ⟨text.toArray, line, i⟩ c =
          .handOn {} ((Pending.under .slash #['/'] line start).firstOperator
            ⟨text.toArray, line, i⟩ i) := by rcases hc with rfl | rfl <;> rfl
      exact ⟨3, by omega, passage_of_handOn hpass (passage_closed hc hnext)⟩
  case invalid => exact ⟨1, by omega, passage_skipped hc⟩
  -- in a literal or a block comment the text may not end
  all_goals cases hok

theorem step_lineEnd (hc : c = '\n' ∨ c = '\r') (h : p.Stands text line i none start)
    (hst : p.state ≠ .lineComment) (hfull : p.isFull = false)
    (hok : (p.finish ⟨text.toArray, line, i⟩ false).result = .ok ()) :
    step ⟨text.toArray, line, i⟩ p c =
      .use {} (p.finish ⟨text.toArray, line, i⟩ false).findings := by
  obtain ⟨n, hn, hpass⟩ := passage_lineEnd hc h hst hok
  have hentry : p.entry = p := by simp [Pending.entry, hfull]
  have hoverflow : p.overflow ⟨text.toArray, line, i⟩ = [] := by simp [Pending.overflow, hfull]
  rw [← hentry] at hpass
  rw [step_of_passage hpass hn, hoverflow, hentry, List.nil_append]

/-- Between tokens a line break is passed over. -/
theorem step_lineEnd_start (hc : c = '\n' ∨ c = '\r') : step s {} c = .use {} [] :=
  step_of_passage (p := {}) (passage_start hc) (by omega)

/-- A line end settles what is pending as the end of the text would, if the text may end there. -/
theorem trace_lineEnd {w : List Char} (hw : w = ['\n'] ∨ w = ['\r', '\n'])
    (h : p.Stands text line i none start) (hfull : p.isFull = false)
    (hok : (p.finish ⟨text.toArray, line, i⟩ false).result = .ok ()) :
    trace text line i p w = ({}, (p.finish ⟨text.toArray, line, i⟩ false).findings) := by
  by_cases hst : p.state = .lineComment
  · have hn : ∀ j, step ⟨text.toArray, line, j⟩ p '\n' = .use {} [.comment] := fun j => by
      simp [step, hfull, settle, dispatch, hst, onLineComment, Move.use]
    have hr : step ⟨text.toArray, line, i⟩ p '\r' = .use p := by
      simp [step, hfull, settle, dispatch, hst, onLineComment, Move.use]
    have hend : (p.finish ⟨text.toArray, line, i⟩ false).findings = [.comment] := by
      simp [Pending.finish, hst]
    rcases hw with rfl | rfl
    · simp [trace, hn, Move.use, hend]
    · simp [trace, hr, hn, Move.use, hend]
  · rcases hw with rfl | rfl
    · simp [trace, step_lineEnd (Or.inl rfl) h hst hfull hok, Move.use]
    · simp [trace, step_lineEnd (Or.inr rfl) h hst hfull hok, step_lineEnd_start (Or.inl rfl),
        Move.use]

end LineEnd

end ContractLex
