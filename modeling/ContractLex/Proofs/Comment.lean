import ContractLex.Proofs.Session

/-!
# Inside a block comment

Inside a block comment the scanner remembers one thing, whether the last character was a star.
`InComment body p` says that this is the last character of `body`, all that the comment has taken in
since it was opened. As long as `body` and what follows stay open, the comment goes on
(`trace_open`); at the first `*/` of both together it ends (`exists_close`, `trace_close`). The
texts that a comment is carried through are joined in `body` as they are fed, with nothing between
them for the line end that stood there.
-/

namespace ContractLex

/-! ## Open texts -/

section IsOpen

variable {a b : List Char} {c : Char}

/-- Two texts are open together if each is open, and no `*/` lies across. -/
theorem isOpen_append :
    IsOpen (a ++ b) ↔ IsOpen a ∧ IsOpen b ∧ ¬ (a.getLast? = some '*' ∧ b.head? = some '/') := by
  have hacross : (∃ l₁ l₂, l₁ ≠ [] ∧ l₂ ≠ [] ∧ ['*', '/'] = l₁ ++ l₂ ∧ l₁ <:+ a ∧ l₂ <+: b) ↔
      a.getLast? = some '*' ∧ b.head? = some '/' := by
    rw [List.getLast?_eq_some_iff, List.head?_eq_some_iff]
    constructor
    · rintro ⟨l₁, l₂, hne₁, hne₂, heq, ⟨front, rfl⟩, ⟨back, rfl⟩⟩
      obtain ⟨d, l₁, rfl⟩ := List.exists_cons_of_ne_nil hne₁
      obtain ⟨e, l₂, rfl⟩ := List.exists_cons_of_ne_nil hne₂
      cases l₁ with
      | nil =>
          obtain ⟨rfl, rfl, rfl⟩ : '*' = d ∧ '/' = e ∧ l₂ = [] := by simpa using heq
          exact ⟨⟨front, rfl⟩, ⟨back, rfl⟩⟩
      | cons => simp at heq
    · rintro ⟨⟨front, rfl⟩, ⟨back, rfl⟩⟩
      exact ⟨['*'], ['/'], by simp, by simp, rfl, ⟨front, rfl⟩, ⟨back, rfl⟩⟩
  unfold IsOpen
  rw [List.infix_append_iff_ne_nil, hacross]
  tauto

theorem isOpen_singleton (c : Char) : IsOpen [c] := by
  intro h
  simpa using h.length_le

/-- What comes after an open text closes it only with a slash, and right after a star. -/
theorem isOpen_concat_iff :
    IsOpen (a ++ [c]) ↔ IsOpen a ∧ ¬ (a.getLast? = some '*' ∧ c = '/') := by
  simp [isOpen_append, isOpen_singleton]

/-- The first place at which an open text is closed by what comes after it. -/
theorem exists_close (ha : IsOpen a) (h : ¬ IsOpen (a ++ b)) :
    ∃ head tail, b = head ++ '/' :: tail ∧ IsOpen (a ++ head)
      ∧ (a ++ head).getLast? = some '*' := by
  induction b generalizing a with
  | nil => exact absurd (by simpa using ha) h
  | cons c b ih =>
      by_cases hc : IsOpen (a ++ [c])
      · obtain ⟨head, tail, rfl, hopen, hlast⟩ := ih hc (by simpa using h)
        exact ⟨c :: head, tail, rfl, by simpa using hopen, by simpa using hlast⟩
      · obtain ⟨hlast, rfl⟩ : a.getLast? = some '*' ∧ c = '/' := by
          rw [isOpen_concat_iff] at hc
          tauto
        exact ⟨[], b, rfl, by simpa using ha, by simpa using hlast⟩

end IsOpen

/-! ## The scanner in a comment -/

/-- The state inside a comment that has taken in `body`. -/
def commentState (body : List Char) : State :=
  if body.getLast? = some '*' then .blockCommentStar else .blockComment

/-- A block comment is open and has taken in `body`. -/
structure InComment (body : List Char) (p : Pending) : Prop where
  state_eq : p.state = commentState body
  lexeme : p.lexeme = #[]
  isOpen : IsOpen body

section InComment

variable {body head rest text : List Char} {line i start : Nat} {p : Pending} {s : Site} {c : Char}

theorem isBlockComment_commentState (body : List Char) :
    (commentState body).isBlockComment = true := by
  unfold commentState
  split <;> rfl

theorem InComment.isBlockComment (h : InComment body p) : p.state.isBlockComment = true := by
  rw [h.state_eq]
  exact isBlockComment_commentState body

theorem InComment.isIdle (h : InComment body p) : p.state.isIdle = false :=
  State.isIdle_of_isBlockComment h.isBlockComment

theorem InComment.ne_invalid (h : InComment body p) : p.state ≠ .invalid := by
  rcases State.eq_of_isBlockComment h.isBlockComment with hst | hst <;> rw [hst] <;> nofun

theorem InComment.goto (h : InComment body p) (hrest : IsOpen (body ++ rest)) :
    InComment (body ++ rest) (p.goto (commentState (body ++ rest))) :=
  ⟨rfl, h.lexeme, hrest⟩

theorem InComment.step_eq (h : InComment body p) :
    step s p c =
      if body.getLast? = some '*' ∧ c = '/' then .use {} [.comment]
      else .use (p.goto (commentState (body ++ [c]))) := by
  obtain ⟨st, l, o, m⟩ := p
  obtain rfl : st = commentState body := h.state_eq
  have hfull : (Pending.mk (commentState body) l o m).isFull = false := by
    simp [Pending.isFull, State.isComment, isBlockComment_commentState]
  rw [step, hfull, if_neg Bool.false_ne_true]
  by_cases hlast : body.getLast? = some '*'
  · have hstate : commentState body = .blockCommentStar := if_pos hlast
    simp only [settle, dispatch, hstate, onBlockCommentStar, hlast, true_and]
    by_cases hslash : c = '/'
    · simp [hslash, Move.use]
    · by_cases hstar : c = '*'
      · simp [hstar, Move.use, commentState, Pending.goto]
      · simp [hslash, hstar, Move.use, commentState, Pending.goto]
  · have hstate : commentState body = .blockComment := if_neg hlast
    simp only [settle, dispatch, hstate, onBlockComment, hlast, false_and, if_false]
    by_cases hstar : c = '*'
    · simp [hstar, Move.use, commentState, Pending.goto]
    · simp [hstar, Move.use, commentState, Pending.goto]

/-- A comment goes on as long as it is open. -/
theorem InComment.trace_open (h : InComment body p) (hrest : IsOpen (body ++ rest)) :
    trace text line i p rest = (p.goto (commentState (body ++ rest)), []) := by
  induction rest generalizing body p i with
  | nil =>
      rw [List.append_nil, ← h.state_eq]
      rfl
  | cons c rest ih =>
      have hassoc : body ++ c :: rest = body ++ [c] ++ rest := by simp
      rw [hassoc] at hrest ⊢
      have hc : IsOpen (body ++ [c]) := (isOpen_append.mp hrest).1
      have hstep := h.step_eq (s := ⟨text.toArray, line, i⟩) (c := c)
      rw [if_neg (isOpen_concat_iff.mp hc).2] at hstep
      have hnext := ih (i := i + 1) (h.goto hc) hrest
      simp only [trace, hstep, Move.use, hnext]
      rfl

/-- A comment ends with the first `*/`. -/
theorem InComment.trace_close (h : InComment body p) (hhead : IsOpen (body ++ head))
    (hlast : (body ++ head).getLast? = some '*') :
    trace text line i p (head ++ ['/']) = ({}, [.comment]) := by
  have hstep := (h.goto hhead).step_eq (s := ⟨text.toArray, line, i + head.length⟩) (c := '/')
  rw [if_pos ⟨hlast, rfl⟩] at hstep
  rw [trace_append, h.trace_open hhead]
  simp only [trace, hstep, Move.use]
  rfl

/-- A text that does not stay in a comment leaves nothing pending at some column. -/
theorem InComment.front (h : InComment body p) (hclose : ¬ IsOpen (body ++ text)) (line : Nat) :
    ∃ k ≤ text.length, trace text line 0 p (text.take k) = ({}, [.comment]) := by
  obtain ⟨head, tail, rfl, hhead, hlast⟩ := exists_close h.isOpen hclose
  refine ⟨head.length + 1, by simp, ?_⟩
  rw [List.take_length_add_append]
  exact h.trace_close hhead hlast

/-- Where a block comment is under way, its text begins with its opening. -/
theorem Pending.Stands.inComment (h : p.Stands text line i none start)
    (hst : p.state.isBlockComment = true) :
    ∃ body, stretch text start i = '/' :: '*' :: body ∧ InComment body p
      ∧ p.opened = some ⟨line, start⟩ := by
  have hopened := h.opened_some (State.isIdle_of_isBlockComment hst)
  have hholds := h.holds
  rcases State.eq_of_isBlockComment hst with heq | heq
  · rw [heq] at hholds
    obtain ⟨hl, body, hopen, hlast, hw⟩ := hholds
    exact ⟨body, hw, ⟨by rw [heq, commentState, if_neg hlast], by simpa using hl, hopen⟩, hopened⟩
  · rw [heq] at hholds
    obtain ⟨hl, body, hopen, hw⟩ := hholds
    refine ⟨body ++ ['*'], hw, ⟨?_, by simpa using hl, hopen⟩, hopened⟩
    rw [heq, commentState, if_pos (by simp)]

end InComment

/-! ## The end of a text -/

section Finish

variable {p : Pending} {s : Site}

/-- A block comment that may be carried is still open at the end of a text. -/
theorem finish_carried (h : p.state.isBlockComment = true) :
    p.finish s true = ⟨p, [], .ok ()⟩ := by
  rcases State.eq_of_isBlockComment h with hst | hst <;>
    simp only [Pending.finish, hst, if_true]

/-- Only a block comment is pending after the end of a text. -/
theorem finish_pending (carry : Bool) (h : p.state.isBlockComment = false) :
    (p.finish s carry).pending = {} := by
  obtain ⟨st, l, o, m⟩ := p
  cases st
  case blockComment | blockCommentStar => exact Bool.noConfusion h
  case decimal =>
      simp only [Pending.finish]
      split <;> rfl
  all_goals rfl

/-- Carrying makes a difference only in a block comment. -/
theorem finish_carry (carry : Bool) (h : p.state.isBlockComment = false) :
    p.finish s carry = p.finish s false := by
  obtain ⟨st, l, o, m⟩ := p
  cases st
  case blockComment | blockCommentStar => exact Bool.noConfusion h
  all_goals rfl

/-- A text that ends in a block comment is accepted only if the comment is carried. -/
theorem carry_of_ok {carry : Bool} (hst : p.state.isBlockComment = true)
    (h : (p.finish s carry).result = .ok ()) : carry = true := by
  cases carry with
  | true => rfl
  | false =>
      rcases State.eq_of_isBlockComment hst with heq | heq <;>
        simp [Pending.finish, heq, Pending.terminate] at h

/-- A text that may end without carrying may end with it, in the same way. -/
theorem finish_carry_of_ok (carry : Bool) (h : (p.finish s false).result = .ok ()) :
    p.finish s carry = p.finish s false := by
  refine finish_carry carry ?_
  cases hst : p.state.isBlockComment with
  | false => rfl
  | true => exact Bool.noConfusion (carry_of_ok hst h)

end Finish

end ContractLex
