import ContractLex.Proofs.Passage
import ContractLex.Proofs.Word

/-!
# What each state knows

The invariant of the scanner. `State.Holds` says, state by state, what the characters `w` that have
been absorbed since the token or comment began look like, and what the lexeme has made of them.
Some states are only ever entered in the middle of a hand-over; what they know depends on the
character `next` that is about to be dispatched, and between two characters, where there is none,
nothing satisfies them.

`Pending.Stands` ties this to a text: the scanner stands before column `i`, and the pending token
began at `start`, so that `w` is the stretch between the two. The length of the lexeme, which is
counted apart, is that of the lexeme.
-/

namespace ContractLex

open Spelling

/-- States in which no token or comment is under way. -/
def State.isIdle (st : State) : Bool :=
  st == .start || st == .delimiter || st == .expectDelimiter

theorem State.isIdle_of_isBlockComment {st : State} (h : st.isBlockComment = true) :
    st.isIdle = false := by
  rcases eq_of_isBlockComment h with rfl | rfl <;> rfl

/-- What is known in a state in which `w` has been absorbed, `lexeme` made of it, and `next` is to
be dispatched. -/
def State.Holds (next : Option Char) : State → (w lexeme : List Char) → Prop
  | .start, w, l => w = [] ∧ l = []
  | .expectDelimiter, w, l => w = [] ∧ l = []
  | .delimiter, w, l => w = [] ∧ l = [] ∧ ∃ c, next = some c ∧ isDelimiter c = true
  | .identifier, w, l =>
      l = w ∧ (IsWord w ∨ w = [] ∧ ∃ c, next = some c ∧ isWordStart c = true)
  | .identifierDash, w, l =>
      l = w ∧ ∃ a b, isDashPrefix (String.ofList a) = true ∧ (b = [] ∨ IsWord b)
        ∧ w = a ++ '-' :: b
  | .number, w, l => l = w ∧ (IsNumeral w ∨ w = [] ∧ ∃ c, next = some c ∧ c.isDigit = true)
  | .decimal, w, l => l = w ∧ IsDecimal w
  | .float, w, l => l = w ∧ IsDecimal w ∧ next = some 'f'
  | .charOpen, w, l => w = ['\''] ∧ l = []
  | .charEscape, w, l => w = ['\'', '\\'] ∧ l = []
  | .charClose, w, l => ∃ u d, ContentUnit '\'' u d ∧ w = '\'' :: u ∧ l = [d]
  | .stringOpen, w, l => w = ['"'] ∧ l = []
  | .string, w, l => ∃ body, Content '"' body l ∧ w = '"' :: body
  | .stringEscape, w, l => ∃ body, Content '"' body l ∧ w = '"' :: body ++ ['\\']
  | .operator, w, l => w = [] ∧ l = [] ∧ ∃ c, next = some c ∧ isOperatorChar c = true
  | .beforeEquals, w, l =>
      l = w ∧ ∃ o, w = [o] ∧ (o ∈ ['=', '*', '%', '.'] ∨ o ∈ ['+', '-'] ∧ next = some '='
        ∨ o = '/' ∧ ∃ c, next = some c ∧ c ≠ '/' ∧ c ≠ '*')
  | .doubling, w, l => l = w ∧ (w = ['+'] ∨ w = ['-'] ∧ next = some '-')
  | .logical, w, l => l = w ∧ (w = ['&'] ∨ w = ['|'])
  | .minus, w, l => l = w ∧ w = ['-']
  | .less, w, l => l = w ∧ w = ['<']
  | .greater, w, l => l = w ∧ w = ['>']
  | .leftArrow, w, l => l = w ∧ w = ['<', '-']
  | .slash, w, l => l = w ∧ w = ['/']
  | .lineComment, w, l => l = [] ∧ ∃ body, '\n' ∉ body ∧ w = '/' :: '/' :: body
  | .blockComment, w, l =>
      l = [] ∧ ∃ body, IsOpen body ∧ body.getLast? ≠ some '*' ∧ w = '/' :: '*' :: body
  | .blockCommentStar, w, l =>
      l = [] ∧ ∃ body, IsOpen (body ++ ['*']) ∧ w = '/' :: '*' :: (body ++ ['*'])
  | .invalid, w, l =>
      l.length ≤ w.length ∧ (w = [] → ∃ c, next = some c ∧ isDelimiter c = false)

/-! ## Consequences in every state -/

section Holds

variable {st : State} {next : Option Char} {w l : List Char}

/-- A lexeme is at most as long as what it was made of. -/
theorem State.Holds.length_le (h : st.Holds next w l) : l.length ≤ w.length := by
  cases st
  case charOpen | charEscape | stringOpen => simp [h.2]
  case charClose =>
      obtain ⟨u, d, hu, rfl, rfl⟩ := h
      have := hu.length_pos
      simp only [List.length_cons, List.length_nil]
      omega
  case string =>
      obtain ⟨body, hbody, rfl⟩ := h
      have := hbody.length_le
      simp only [List.length_cons]
      omega
  case stringEscape =>
      obtain ⟨body, hbody, rfl⟩ := h
      have := hbody.length_le
      simp only [List.length_append, List.length_cons, List.length_nil]
      omega
  case start | expectDelimiter => simp [h.2]
  case delimiter | operator => simp [h.2.1]
  case lineComment | blockComment | blockCommentStar => simp [h.1]
  case invalid => exact h.1
  case identifier | identifierDash | number | decimal | float | beforeEquals | doubling | logical
      | minus | less | greater | leftArrow | slash => simp [h.1]

/-- Nothing has been absorbed in an idle state. -/
theorem State.Holds.idle (h : st.Holds next w l) (hst : st.isIdle = true) : w = [] ∧ l = [] := by
  cases st
  case start | expectDelimiter => exact h
  case delimiter => exact ⟨h.1, h.2.1⟩
  all_goals exact absurd hst (by decide)

/-- What is known between two characters is known whichever comes next. -/
theorem State.Holds.before (h : st.Holds none w l) (c : Char) : st.Holds (some c) w l := by
  cases st
  case delimiter | operator =>
      obtain ⟨-, -, c, hc, -⟩ := h
      cases hc
  case identifier | number =>
      obtain ⟨hl, hw | ⟨-, c, hc, -⟩⟩ := h
      · exact ⟨hl, Or.inl hw⟩
      · cases hc
  case float => exact absurd h.2.2 (by simp)
  case beforeEquals =>
      obtain ⟨hl, o, hw, ho | ⟨-, hc⟩ | ⟨-, c, hc, -⟩⟩ := h
      · exact ⟨hl, o, hw, Or.inl ho⟩
      · cases hc
      · cases hc
  case doubling =>
      obtain ⟨hl, hw | ⟨-, hc⟩⟩ := h
      · exact ⟨hl, Or.inl hw⟩
      · cases hc
  case invalid =>
      refine ⟨h.1, fun hw => ?_⟩
      obtain ⟨c, hc, -⟩ := h.2 hw
      cases hc
  all_goals exact h

/-- Something has been absorbed in every other state that can be reached between two characters. -/
theorem State.Holds.ne_nil (h : st.Holds none w l) (hst : st.isIdle = false) : w ≠ [] := by
  rintro rfl
  cases st
  case start | expectDelimiter | delimiter => exact absurd hst (by decide)
  case identifier =>
      obtain ⟨-, hw | ⟨-, c, hc, -⟩⟩ := h
      · exact hw.ne_nil rfl
      · cases hc
  case number =>
      obtain ⟨-, hw | ⟨-, c, hc, -⟩⟩ := h
      · exact hw.1 rfl
      · cases hc
  case operator =>
      obtain ⟨-, -, c, hc, -⟩ := h
      cases hc
  case invalid =>
      obtain ⟨c, hc, -⟩ := h.2 rfl
      cases hc
  case decimal => obtain ⟨-, a, b, -, -, hw⟩ := h; simp at hw
  case float => obtain ⟨-, ⟨a, b, -, -, hw⟩, -⟩ := h; simp at hw
  case identifierDash => obtain ⟨-, a, b, -, -, hw⟩ := h; simp at hw
  case charClose => obtain ⟨u, d, -, hw, -⟩ := h; simp at hw
  case string | stringEscape => obtain ⟨body, -, hw⟩ := h; simp at hw
  case lineComment => obtain ⟨-, body, -, hw⟩ := h; simp at hw
  case blockComment => obtain ⟨-, body, -, -, hw⟩ := h; simp at hw
  case blockCommentStar => obtain ⟨-, body, -, hw⟩ := h; simp at hw
  case beforeEquals => obtain ⟨-, o, hw, -⟩ := h; simp at hw
  all_goals simp [State.Holds] at h

end Holds

/-! ## Standing in a text -/

/-- The scanner stands before column `i` of `text`, where `next` is to be dispatched, if a
character is, and what is pending began at `start`. -/
structure Pending.Stands (text : List Char) (line i : Nat) (next : Option Char) (p : Pending)
    (start : Nat) : Prop where
  start_le : start ≤ i
  le_length : i ≤ text.length
  getElem? : ∀ c, next = some c → text[i]? = some c
  opened : p.opened = if p.state.isIdle then none else some ⟨line, start⟩
  length_eq : p.length = p.lexeme.size
  holds : p.state.Holds next (stretch text start i) p.lexeme.toList

/-- A token or comment is under way that began at `start`. -/
abbrev Pending.under (st : State) (l : Array Char) (line start : Nat) : Pending :=
  ⟨st, l, some ⟨line, start⟩, l.size⟩

@[simp] theorem Pending.lexeme_push (p : Pending) (c : Char) :
    (p.push c).lexeme = p.lexeme.push c := rfl

@[simp] theorem Pending.length_push (p : Pending) (c : Char) :
    (p.push c).length = p.length + 1 := rfl

theorem under_push (st : State) (l : Array Char) (line start : Nat) (c : Char) :
    (Pending.under st l line start).push c = .under st (l.push c) line start := by
  simp [Pending.push]

theorem isFull_eq_false {p : Pending} (h : p.length < maxLexeme) : p.isFull = false := by
  simp [Pending.isFull, Nat.not_le.mpr h]

/-- Outside a token the scanner stands anywhere. -/
theorem stands_start {text : List Char} (line : Nat) {i : Nat} (hi : i ≤ text.length) :
    Pending.Stands text line i none {} i where
  start_le := Nat.le_refl i
  le_length := hi
  getElem? := fun _ h => nomatch h
  opened := rfl
  length_eq := rfl
  holds := ⟨stretch_self text i, rfl⟩

section Stands

variable {text : List Char} {line i start : Nat} {next : Option Char} {c : Char} {p : Pending}

namespace Pending.Stands

theorem length_stretch (h : p.Stands text line i next start) :
    (stretch text start i).length = i - start :=
  ContractLex.length_stretch h.le_length

theorem lexeme_size_le (h : p.Stands text line i next start) : p.lexeme.size ≤ i - start := by
  simpa [h.length_stretch] using h.holds.length_le

/-- In an idle state the pending stretch is empty. -/
theorem idle (h : p.Stands text line i next start) (hst : p.state.isIdle = true) :
    start = i ∧ p.lexeme = #[] := by
  obtain ⟨hw, hl⟩ := h.holds.idle hst
  have hlen := h.length_stretch
  have hle := h.start_le
  rw [hw] at hlen
  exact ⟨by simp at hlen; omega, by simpa using hl⟩

theorem opened_some (h : p.Stands text line i next start) (hst : p.state.isIdle = false) :
    p.opened = some ⟨line, start⟩ := by
  simpa [hst] using h.opened

/-- What is pending is determined by its state and its lexeme. -/
theorem eq_under (h : p.Stands text line i next start) (hst : p.state.isIdle = false) :
    p = .under p.state p.lexeme line start := by
  obtain ⟨st, l, o, n⟩ := p
  obtain rfl : o = some ⟨line, start⟩ := h.opened_some hst
  obtain rfl : n = l.size := h.length_eq
  rfl

/-- Outside a token nothing is pending but the state. -/
theorem eq_of_idle (h : p.Stands text line i next start) (hst : p.state.isIdle = true) :
    p = { state := p.state } := by
  obtain ⟨st, l, o, n⟩ := p
  obtain rfl : l = #[] := (h.idle hst).2
  obtain rfl : o = none := h.opened.trans (if_pos hst)
  obtain rfl : n = 0 := h.length_eq
  rfl

/-- A lexeme that is full belongs to a token. -/
theorem isIdle_of_isFull (h : p.Stands text line i next start) (hfull : p.isFull = true) :
    p.state.isIdle = false := by
  simp only [Pending.isFull, Bool.and_eq_true, decide_eq_true_eq, h.length_eq] at hfull
  cases hst : p.state.isIdle with
  | false => rfl
  | true =>
      rw [(h.idle hst).2] at hfull
      exact absurd hfull.1.1 (by decide)

theorem lt_length (h : p.Stands text line i (some c) start) : i < text.length :=
  (List.getElem?_eq_some_iff.mp (h.getElem? c rfl)).1

theorem stretch_concat (h : p.Stands text line i (some c) start) :
    stretch text start (i + 1) = stretch text start i ++ [c] :=
  ContractLex.stretch_concat h.start_le (h.getElem? c rfl)

theorem start_lt_of_ne_nil (h : p.Stands text line i next start)
    (hw : stretch text start i ≠ []) : start < i := by
  rcases Nat.lt_or_eq_of_le h.start_le with hlt | rfl
  · exact hlt
  · exact absurd (stretch_self text start) hw

/-- The next character can be dispatched; a lexeme that is full is given up first. -/
theorem entry (h : p.Stands text line i none start) (hc : text[i]? = some c) :
    p.entry.Stands text line i (some c) start := by
  unfold Pending.entry
  split
  · next hfull =>
    have hidle := h.isIdle_of_isFull hfull
    refine ⟨h.start_le, h.le_length, fun d hd => by cases hd; exact hc, ?_, h.length_eq, ?_⟩
    · exact h.opened_some hidle
    · exact ⟨h.holds.length_le, fun hw => absurd hw (h.holds.ne_nil hidle)⟩
  · exact ⟨h.start_le, h.le_length, fun d hd => by cases hd; exact hc, h.opened,
      h.length_eq, h.holds.before c⟩

end Pending.Stands

/-! ## The pieces of a move, where the scanner stands -/

theorem startColumn?_eq (h : p.opened = some ⟨line, start⟩) :
    p.startColumn? ⟨text.toArray, line, i⟩ = some start := by
  simp [Pending.startColumn?, h, Option.filter]

theorem token_eq {k : Kind} {stop : Nat} (h : p.opened = some ⟨line, start⟩) :
    p.token ⟨text.toArray, line, i⟩ k stop =
      .token ⟨k, String.ofList p.lexeme.toList, line, start, stop⟩ := by
  simp [Pending.token, Pending.word, Pending.startColumn, startColumn?_eq h]

theorem skipped_eq {stop : Nat} (h : p.opened = some ⟨line, start⟩) (hle : start ≤ stop)
    (hlen : stop ≤ text.length) :
    p.skipped ⟨text.toArray, line, i⟩ stop =
      .token ⟨.unknown, String.ofList (stretch text start stop), line, start, stop⟩ := by
  simp only [Pending.skipped, startColumn?_eq h, Option.getD_some, List.size_toArray,
    if_pos (And.intro hle hlen), toList_extract_toArray]

theorem reject_eq (f : Fault) (h : p.Stands text line i next start) :
    p.reject ⟨text.toArray, line, i⟩ f =
      .handOn (.under .invalid p.lexeme line start)
        [.fault p.state (f.diagnostic ⟨line, i⟩)] := by
  have hopened : (p.opened <|> some (⟨line, i⟩ : Position)) = some ⟨line, start⟩ := by
    rw [h.opened]
    split
    · next hidle => simp [(h.idle hidle).1]
    · rfl
  simp [Pending.reject, Pending.fault, Site.position, hopened, h.length_eq]

end Stands

end ContractLex
