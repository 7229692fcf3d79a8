import ContractLex.Proofs.Tiling

/-!
# A part of a text, and the whole

The scanner makes of a part of a text what it makes of the same characters further along in the
whole: the same findings, each moved to the other line and to the right. `moved` moves positions and
all that holds them. That two scanners go abreast is `Abreast`; then every helper of a dispatch,
each dispatch, step and trace, and the end of the text commute with `moved`.
-/

namespace ContractLex

open Spelling

/-! ## Moving -/

def Position.moved (line d : Nat) (p : Position) : Position := ⟨line, p.column + d⟩

def Token.moved (line d : Nat) (t : Token) : Token :=
  { t with line := line, start := t.start + d, stop := t.stop + d }

def Diagnostic.moved (line d : Nat) (x : Diagnostic) : Diagnostic :=
  { x with line := line, column := x.column + d }

def Finding.moved (line d : Nat) : Finding → Finding
  | .token t => .token (t.moved line d)
  | .fault st x => .fault st (x.moved line d)
  | .comment => .comment

def Pending.moved (line d : Nat) (p : Pending) : Pending :=
  { p with opened := p.opened.map (Position.moved line d) }

def Move.moved (line d : Nat) (m : Move) : Move :=
  ⟨m.pending.moved line d, m.findings.map (Finding.moved line d), m.used⟩

def LexError.moved (line d : Nat) : LexError → LexError
  | .terminal x => .terminal (x.moved line d)
  | .handOverLimit st c p => .handOverLimit st c (p.moved line d)

def Ending.moved (line d : Nat) (e : Ending) : Ending :=
  ⟨e.pending.moved line d, e.findings.map (Finding.moved line d),
    e.result.mapError (LexError.moved line d)⟩

section Moved

variable {line d : Nat} {p : Pending}

@[simp] theorem moved_empty : ({} : Pending).moved line d = {} := rfl

@[simp] theorem moved_state : (p.moved line d).state = p.state := rfl

@[simp] theorem moved_lexeme : (p.moved line d).lexeme = p.lexeme := rfl

@[simp] theorem moved_length : (p.moved line d).length = p.length := rfl

@[simp] theorem moved_push (c : Char) : (p.push c).moved line d = (p.moved line d).push c := rfl

@[simp] theorem moved_goto (st : State) :
    (p.goto st).moved line d = (p.moved line d).goto st := rfl

@[simp] theorem moved_word : (p.moved line d).word = p.word := rfl

@[simp] theorem moved_wordKind : (p.moved line d).wordKind = p.wordKind := rfl

@[simp] theorem moved_isFull : (p.moved line d).isFull = p.isFull := rfl

@[simp] theorem diagnostic_moved (f : Fault) (o : Position) :
    (f.diagnostic o).moved line d = f.diagnostic (o.moved line d) := rfl

end Moved

/-! ## Side by side -/

/-- The scanner stands at `s` in a part and at `s'` in the whole, `d` columns further, and what is
pending began in the part, with its length counted right. -/
structure Abreast (line d : Nat) (s s' : Site) (p : Pending) : Prop where
  line_eq : s'.line = line
  column_eq : s'.column = s.column + d
  opened : ∀ o, p.opened = some o → o.line = s.line ∧ o.column ≤ s.column
  length_eq : p.length = p.lexeme.size
  le_size : s.column ≤ s.text.size
  le_size' : s'.column ≤ s'.text.size
  extract : ∀ a ≤ s.column,
    (s'.text.extract (a + d) s'.column).toList = (s.text.extract a s.column).toList

namespace Abreast

variable {line d : Nat} {s s' : Site} {p : Pending} {c : Char}

theorem push (h : Abreast line d s s' p) (c : Char) : Abreast line d s s' (p.push c) :=
  ⟨h.line_eq, h.column_eq, h.opened, by simp [h.length_eq], h.le_size, h.le_size', h.extract⟩

/-- A token may begin where the scanner stands. -/
theorem openHere (h : Abreast line d s s' p) :
    Abreast line d s s' { p with opened := some s.position } := by
  refine ⟨h.line_eq, h.column_eq, fun o ho => ?_, h.length_eq, h.le_size, h.le_size', h.extract⟩
  cases ho
  exact ⟨rfl, Nat.le_refl _⟩

theorem position (h : Abreast line d s s' p) : s'.position = s.position.moved line d := by
  simp [Site.position, Position.moved, h.line_eq, h.column_eq]

/-- The start column moves with the token. -/
theorem startColumn? (h : Abreast line d s s' p) :
    (p.moved line d).startColumn? s' = (p.startColumn? s).map (· + d) := by
  cases ho : p.opened with
  | none => simp [Pending.startColumn?, Pending.moved, ho]
  | some o =>
      have hline := (h.opened o ho).1
      simp [Pending.startColumn?, Pending.moved, ho, Option.filter, Position.moved, h.line_eq,
        hline]

theorem startColumn {stop : Nat} (h : Abreast line d s s' p) (hstop : p.lexeme.size ≤ stop) :
    (p.moved line d).startColumn s' (stop + d) = p.startColumn s stop + d := by
  rw [Pending.startColumn, Pending.startColumn, h.startColumn?]
  cases p.startColumn? s with
  | none =>
      simp only [Option.map_none, Option.getD_none, moved_length, h.length_eq]
      omega
  | some a => rfl

theorem token {stop : Nat} (h : Abreast line d s s' p) (k : Kind) (hstop : p.lexeme.size ≤ stop) :
    (p.moved line d).token s' k (stop + d) = (p.token s k stop).moved line d := by
  simp [Pending.token, h.startColumn hstop, h.line_eq, Finding.moved, Token.moved]

theorem fault (h : Abreast line d s s' p) (f : Fault) :
    (p.moved line d).fault s' f = (p.fault s f).moved line d := by
  simp [Pending.fault, h.position, Finding.moved]

theorem reject (h : Abreast line d s s' p) (f : Fault) :
    (p.moved line d).reject s' f = (p.reject s f).moved line d := by
  rw [Pending.reject, h.fault, h.position]
  cases ho : p.opened <;> simp [Pending.reject, Move.moved, Move.handOn, Pending.moved, ho]

/-- A token that ends with the current character. -/
theorem tokenThrough (h : Abreast line d s s' p) (k : Kind)
    (hsize : p.lexeme.size ≤ s.column + 1) :
    (p.moved line d).token s' k (s'.column + 1) =
      (p.token s k (s.column + 1)).moved line d := by
  rw [h.column_eq, Nat.add_right_comm, h.token k hsize]

theorem closeWith (h : Abreast line d s s' p) (hsize : p.lexeme.size ≤ s.column) (k : Kind) :
    (p.moved line d).closeWith s' c k = (p.closeWith s c k).moved line d := by
  rw [Pending.closeWith, Pending.closeWith, ← moved_push,
    (h.push c).tokenThrough k (by simpa using hsize)]
  rfl

theorem closeBefore (h : Abreast line d s s' p) (hsize : p.lexeme.size ≤ s.column) (k : Kind) :
    (p.moved line d).closeBefore s' k = (p.closeBefore s k).moved line d := by
  rw [Pending.closeBefore, Pending.closeBefore, h.column_eq, h.token k hsize]
  rfl

theorem firstOperator (h : Abreast line d s s' p) (hsize : p.lexeme.size ≤ s.column) :
    (p.moved line d).firstOperator s' s'.column =
      (p.firstOperator s s.column).map (Finding.moved line d) := by
  rw [Pending.firstOperator, Pending.firstOperator, moved_lexeme, h.column_eq]
  split
  · rw [h.token _ hsize]
    rfl
  · rfl

theorem closeOperator (h : Abreast line d s s' p) (hsize : p.lexeme.size ≤ s.column) :
    (p.moved line d).closeOperator s' = (p.closeOperator s).moved line d := by
  rw [Pending.closeOperator, Pending.closeOperator, h.firstOperator hsize]
  rfl

/-- What is skipped reads the same in the part and in the whole. -/
theorem skipped (h : Abreast line d s s' p) :
    (p.moved line d).skipped s' s'.column = (p.skipped s s.column).moved line d := by
  have hstart : (p.startColumn? s).getD s.column ≤ s.column := by
    cases ho : p.opened with
    | none => simp [Pending.startColumn?, ho]
    | some o =>
        obtain ⟨hline, hcol⟩ := h.opened o ho
        simpa [Pending.startColumn?, ho, Option.filter, hline] using hcol
  have hmoved : ((p.moved line d).startColumn? s').getD s'.column =
      (p.startColumn? s).getD s.column + d := by
    rw [h.startColumn?, h.column_eq]
    cases p.startColumn? s <;> rfl
  have hle : (p.startColumn? s).getD s.column + d ≤ s'.column := by
    rw [h.column_eq]
    exact Nat.add_le_add_right hstart d
  simp only [Pending.skipped, hmoved, if_pos (And.intro hle h.le_size'),
    if_pos (And.intro hstart h.le_size), h.extract _ hstart]
  simp [Finding.moved, Token.moved, h.line_eq, h.column_eq]

theorem dashed (h : Abreast line d s s' p) (hsize : p.lexeme.size ≤ s.column) :
    (p.moved line d).dashed s' s'.column =
      (p.dashed s s.column).map (Finding.moved line d) := by
  have hstart : s'.column - p.lexeme.size = s.column - p.lexeme.size + d := by
    rw [h.column_eq]
    omega
  unfold Pending.dashed
  rw [moved_word]
  split
  · rw [h.column_eq, h.token _ hsize]
    rfl
  · simp only [moved_lexeme, moved_length, h.length_eq, hstart]
    split
    · generalize p.lexeme.toList.takeWhile (· != '-') = left
      generalize (p.lexeme.toList.dropWhile (· != '-')).drop 1 = right
      cases left <;> cases right <;>
        simp [Finding.moved, Token.moved, h.line_eq, h.column_eq, Nat.add_right_comm]
    · simp [Finding.moved, Token.moved, h.line_eq, h.column_eq]

end Abreast

/-! ## A dispatch, state by state -/

section Handlers

variable {line d : Nat} {s s' : Site} {p : Pending} {c : Char}

theorem onStart_moved (h : Abreast line d s s' p) :
    onStart (p.moved line d) s' c = (onStart p s c).moved line d := by
  have hopen : { p.moved line d with opened := some s'.position } =
      ({ p with opened := some s.position } : Pending).moved line d := by
    simp [Pending.moved, h.position]
  unfold onStart
  split
  · rfl
  · dsimp only
    rw [hopen]
    split
    · rfl
    · split
      · rfl
      · split
        · rfl
        · split
          · rfl
          · split
            · rfl
            · exact h.openHere.reject _

theorem onDelimiter_moved (h : Abreast line d s s' p) (hsize : p.lexeme.size ≤ s.column) :
    onDelimiter (p.moved line d) s' c = (onDelimiter p s c).moved line d := by
  unfold onDelimiter
  cases delimiter? c with
  | none => rfl
  | some k =>
      dsimp only
      split
      · exact h.closeWith hsize k
      · rfl

theorem onExpectDelimiter_moved (h : Abreast line d s s' p) :
    onExpectDelimiter (p.moved line d) s' c = (onExpectDelimiter p s c).moved line d := by
  unfold onExpectDelimiter
  split
  · rfl
  · exact h.reject _

theorem onInvalid_moved (h : Abreast line d s s' p) :
    onInvalid (p.moved line d) s' c = (onInvalid p s c).moved line d := by
  unfold onInvalid
  split
  · rw [h.skipped]
    rfl
  · rfl

theorem onIdentifier_moved (h : Abreast line d s s' p) (hsize : p.lexeme.size ≤ s.column) :
    onIdentifier (p.moved line d) s' c = (onIdentifier p s c).moved line d := by
  unfold onIdentifier
  rw [moved_word]
  split
  · rfl
  · split
    · rfl
    · exact h.closeBefore hsize _

theorem onIdentifierDash_moved (h : Abreast line d s s' p) (hsize : p.lexeme.size ≤ s.column) :
    onIdentifierDash (p.moved line d) s' c = (onIdentifierDash p s c).moved line d := by
  by_cases hgo : (if p.lexeme.back? = some '-' then isWordStart c else isWordChar c) = true
  · rw [onIdentifierDash, onIdentifierDash, moved_lexeme, if_pos hgo, if_pos hgo]
    rfl
  · rw [onIdentifierDash, onIdentifierDash, moved_lexeme, if_neg hgo, if_neg hgo, h.dashed hsize]
    rfl

theorem onNumber_moved (h : Abreast line d s s' p) (hsize : p.lexeme.size ≤ s.column) :
    onNumber (p.moved line d) s' c = (onNumber p s c).moved line d := by
  unfold onNumber
  split
  · rfl
  · split
    · rfl
    · split
      · exact h.closeBefore hsize _
      · exact h.reject _

theorem onDecimal_moved (h : Abreast line d s s' p) (hsize : p.lexeme.size ≤ s.column) :
    onDecimal (p.moved line d) s' c = (onDecimal p s c).moved line d := by
  unfold onDecimal
  rw [moved_lexeme]
  split
  · rfl
  · split
    · rfl
    · split
      · split
        · exact h.reject _
        · exact h.closeBefore hsize _
      · exact h.reject _

theorem onFloat_moved (h : Abreast line d s s' p) (hsize : p.lexeme.size ≤ s.column) :
    onFloat (p.moved line d) s' c = (onFloat p s c).moved line d := by
  rw [onFloat, onFloat, ← moved_push, (h.push c).tokenThrough _ (by simpa using hsize)]
  rfl

theorem lineBreakFault_moved (h : Abreast line d s s' p) :
    lineBreakFault (p.moved line d) s' c =
      (lineBreakFault p s c).map (Finding.moved line d) := by
  unfold lineBreakFault
  split
  · rw [h.fault]
    rfl
  · rfl

theorem onCharOpen_moved (h : Abreast line d s s' p) :
    onCharOpen (p.moved line d) s' c = (onCharOpen p s c).moved line d := by
  unfold onCharOpen
  split
  · rfl
  · split
    · exact h.reject _
    · rw [lineBreakFault_moved h]
      rfl

theorem onCharEscape_moved (h : Abreast line d s s' p) :
    onCharEscape (p.moved line d) s' c = (onCharEscape p s c).moved line d := by
  unfold onCharEscape
  cases escape? c with
  | some x => rfl
  | none => exact h.reject _

theorem onCharClose_moved (h : Abreast line d s s' p) (hsize : p.lexeme.size ≤ s.column) :
    onCharClose (p.moved line d) s' c = (onCharClose p s c).moved line d := by
  unfold onCharClose
  split
  · rw [h.tokenThrough _ (Nat.le_succ_of_le hsize)]
    rfl
  · exact h.reject _

theorem onString_moved (h : Abreast line d s s' p) (hsize : p.lexeme.size ≤ s.column) :
    onString (p.moved line d) s' c = (onString p s c).moved line d := by
  unfold onString
  split
  · rw [h.tokenThrough _ (Nat.le_succ_of_le hsize)]
    rfl
  · split
    · rfl
    · rw [lineBreakFault_moved h]
      rfl

theorem onStringEscape_moved (h : Abreast line d s s' p) :
    onStringEscape (p.moved line d) s' c = (onStringEscape p s c).moved line d := by
  unfold onStringEscape
  cases escape? c with
  | some x => rfl
  | none => exact h.reject _

theorem onOperator_moved (h : Abreast line d s s' p) (hsize : p.lexeme.size ≤ s.column) :
    onOperator (p.moved line d) s' c = (onOperator p s c).moved line d := by
  unfold onOperator
  split <;> first | rfl | exact h.closeWith hsize _

theorem onBeforeEquals_moved (h : Abreast line d s s' p) (hsize : p.lexeme.size ≤ s.column) :
    onBeforeEquals (p.moved line d) s' c = (onBeforeEquals p s c).moved line d := by
  unfold onBeforeEquals
  rw [moved_length, moved_lexeme, moved_word]
  split
  · exact h.reject _
  · cases (if c = '=' then p.lexeme[0]?.bind assigned? else none) with
    | some o => exact h.closeWith hsize _
    | none => exact h.closeOperator hsize

theorem onDoubling_moved (h : Abreast line d s s' p) (hsize : p.lexeme.size ≤ s.column) :
    onDoubling (p.moved line d) s' c = (onDoubling p s c).moved line d := by
  unfold onDoubling
  rw [moved_length, moved_lexeme, moved_word]
  split
  · exact h.reject _
  · split
    · rfl
    · split
      · exact h.closeWith hsize _
      · exact h.closeWith hsize _
      · exact h.closeOperator hsize

theorem onLogical_moved (h : Abreast line d s s' p) (hsize : p.lexeme.size ≤ s.column) :
    onLogical (p.moved line d) s' c = (onLogical p s c).moved line d := by
  unfold onLogical
  rw [moved_lexeme]
  split
  · exact h.closeWith hsize _
  · exact h.closeWith hsize _
  · exact h.closeOperator hsize

theorem onMinus_moved (h : Abreast line d s s' p) (hsize : p.lexeme.size ≤ s.column) :
    onMinus (p.moved line d) s' c = (onMinus p s c).moved line d := by
  unfold onMinus
  split
  · rfl
  · rfl
  · exact h.closeWith hsize _
  · exact h.closeOperator hsize

theorem onLess_moved (h : Abreast line d s s' p) (hsize : p.lexeme.size ≤ s.column) :
    onLess (p.moved line d) s' c = (onLess p s c).moved line d := by
  unfold onLess
  split
  · exact h.closeWith hsize _
  · exact h.closeWith hsize _
  · rfl
  · exact h.closeOperator hsize

theorem onGreater_moved (h : Abreast line d s s' p) (hsize : p.lexeme.size ≤ s.column) :
    onGreater (p.moved line d) s' c = (onGreater p s c).moved line d := by
  unfold onGreater
  split
  · exact h.closeWith hsize _
  · exact h.closeWith hsize _
  · exact h.closeOperator hsize

theorem onLeftArrow_moved (h : Abreast line d s s' p) (hsize : p.lexeme.size ≤ s.column) :
    onLeftArrow (p.moved line d) s' c = (onLeftArrow p s c).moved line d := by
  unfold onLeftArrow
  split
  · exact h.closeWith hsize _
  · exact h.closeBefore hsize _

theorem onSlash_moved : onSlash (p.moved line d) s' c = (onSlash p s c).moved line d := by
  unfold onSlash
  split <;> rfl

theorem onLineComment_moved :
    onLineComment (p.moved line d) s' c = (onLineComment p s c).moved line d := by
  unfold onLineComment
  split <;> rfl

theorem onBlockComment_moved :
    onBlockComment (p.moved line d) s' c = (onBlockComment p s c).moved line d := by
  unfold onBlockComment
  split <;> rfl

theorem onBlockCommentStar_moved :
    onBlockCommentStar (p.moved line d) s' c = (onBlockCommentStar p s c).moved line d := by
  unfold onBlockCommentStar
  split
  · rfl
  · split <;> rfl

/-- A dispatch in the whole is the dispatch in the part, moved. -/
theorem dispatch_moved (h : Abreast line d s s' p) (hsize : p.lexeme.size ≤ s.column) :
    dispatch (p.moved line d) s' c = (dispatch p s c).moved line d := by
  unfold dispatch
  rw [moved_state]
  cases p.state
  case start => exact onStart_moved h
  case delimiter => exact onDelimiter_moved h hsize
  case expectDelimiter => exact onExpectDelimiter_moved h
  case identifier => exact onIdentifier_moved h hsize
  case identifierDash => exact onIdentifierDash_moved h hsize
  case number => exact onNumber_moved h hsize
  case decimal => exact onDecimal_moved h hsize
  case float => exact onFloat_moved h hsize
  case charOpen => exact onCharOpen_moved h
  case charEscape => exact onCharEscape_moved h
  case charClose => exact onCharClose_moved h hsize
  case stringOpen => exact onString_moved h hsize
  case string => exact onString_moved h hsize
  case stringEscape => exact onStringEscape_moved h
  case operator => exact onOperator_moved h hsize
  case beforeEquals => exact onBeforeEquals_moved h hsize
  case doubling => exact onDoubling_moved h hsize
  case logical => exact onLogical_moved h hsize
  case minus => exact onMinus_moved h hsize
  case less => exact onLess_moved h hsize
  case greater => exact onGreater_moved h hsize
  case leftArrow => exact onLeftArrow_moved h hsize
  case slash => exact onSlash_moved
  case lineComment => exact onLineComment_moved
  case blockComment => exact onBlockComment_moved
  case blockCommentStar => exact onBlockCommentStar_moved
  case invalid => exact onInvalid_moved h

end Handlers

/-! ## The end of a text -/

section Finish

variable {line d : Nat} {s s' : Site} {p : Pending}

theorem terminate_moved (h : Abreast line d s s' p) (f : Fault) :
    (p.moved line d).terminate s' f = (p.terminate s f).moved line d := by
  unfold Pending.terminate
  rw [h.position]
  cases ho : p.opened <;>
    simp [Pending.moved, ho, Ending.moved, Finding.moved, Except.mapError, LexError.moved]

theorem finish_moved (h : Abreast line d s s' p) (hsize : p.lexeme.size ≤ s.column)
    (carry : Bool) : (p.moved line d).finish s' carry = (p.finish s carry).moved line d := by
  have htoken : ∀ k, (p.moved line d).token s' k s'.column =
      (p.token s k s.column).moved line d := fun k => by rw [h.column_eq, h.token k hsize]
  unfold Pending.finish
  rw [moved_state, moved_lexeme, moved_wordKind]
  cases p.state
  case start | delimiter | expectDelimiter | lineComment => rfl
  case identifier | number | float | leftArrow =>
      simp only [htoken]
      rfl
  case identifierDash =>
      simp only [h.dashed hsize]
      rfl
  case decimal =>
      dsimp only
      split
      · rw [h.fault, h.skipped]
        rfl
      · rw [htoken]
        rfl
  case operator | beforeEquals | doubling | logical | minus | less | greater | slash =>
      simp only [h.firstOperator hsize]
      rfl
  case blockComment | blockCommentStar =>
      dsimp only
      split
      · rfl
      · exact terminate_moved h _
  case invalid =>
      simp only [h.skipped]
      rfl
  all_goals exact terminate_moved h _

end Finish

/-! ## A part of a text -/

/-- `part` stands in `text` from offset `d` on. -/
def PartAt (part text : List Char) (d : Nat) : Prop :=
  ∃ front back, text = front ++ part ++ back ∧ front.length = d

section Part

variable {part text : List Char} {l line d i start : Nat} {next : Option Char} {c : Char}
  {p : Pending}

theorem PartAt.length_le (h : PartAt part text d) : part.length + d ≤ text.length := by
  obtain ⟨front, back, rfl, rfl⟩ := h
  simp only [List.length_append]
  omega

theorem PartAt.isPrefix (h : PartAt part text d) : part <+: text.drop d := by
  obtain ⟨front, back, rfl, rfl⟩ := h
  rw [List.append_assoc, List.drop_left]
  exact List.prefix_append part back

theorem PartAt.drop (h : PartAt part text d) {m : Nat} (hm : m ≤ part.length) :
    PartAt (part.drop m) text (m + d) := by
  obtain ⟨front, back, rfl, rfl⟩ := h
  refine ⟨front ++ part.take m, back, ?_, ?_⟩
  · rw [List.append_assoc front (part.take m), List.take_append_drop]
  · rw [List.length_append, List.length_take]
    omega

/-- A stretch of the part is a stretch of the whole. -/
theorem PartAt.stretch_eq (h : PartAt part text d) {a b : Nat} (hab : a ≤ b)
    (hb : b ≤ part.length) : stretch text (a + d) (b + d) = stretch part a b := by
  obtain ⟨front, back, rfl, rfl⟩ := h
  have hsub : b + front.length - (a + front.length) = b - a := by omega
  have hdrop : (front ++ part ++ back).drop (a + front.length) = part.drop a ++ back := by
    rw [List.append_assoc, Nat.add_comm, ← List.drop_drop, List.drop_left,
      List.drop_append_of_le_length (Nat.le_trans hab hb)]
  rw [stretch, hsub, hdrop, stretch, List.take_append_of_le_length]
  rw [List.length_drop]
  omega

theorem Pending.Stands.abreast (h : p.Stands part l i next start) (hpart : PartAt part text d)
    (line : Nat) :
    Abreast line d ⟨part.toArray, l, i⟩ ⟨text.toArray, line, i + d⟩ p where
  line_eq := rfl
  column_eq := rfl
  opened := fun o ho => by
    rw [h.opened] at ho
    split at ho
    · cases ho
    · cases ho
      exact ⟨rfl, h.start_le⟩
  length_eq := h.length_eq
  le_size := by simpa using h.le_length
  le_size' := by
    have := hpart.length_le
    have := h.le_length
    simp only [List.size_toArray]
    omega
  extract := fun a ha => by
    rw [toList_extract_toArray, toList_extract_toArray]
    exact hpart.stretch_eq ha h.le_length

theorem Pending.Stands.size_le (h : p.Stands part l i next start) : p.lexeme.size ≤ i :=
  Nat.le_trans h.lexeme_size_le (Nat.sub_le i start)

theorem Passage.moved {n : Nat} {fs : List Finding} {q : Pending} (hpart : PartAt part text d)
    (line : Nat) (hpass : Passage ⟨part.toArray, l, i⟩ c p n fs q) :
    ∀ {start : Nat}, p.Stands part l i (some c) start →
      Passage ⟨text.toArray, line, i + d⟩ c (p.moved line d) n (fs.map (Finding.moved line d))
        (q.moved line d) := by
  induction hpass with
  | @use p hused =>
      intro start h
      have hmoved := dispatch_moved (c := c) (h.abreast hpart line) h.size_le
      have hpass : Passage ⟨text.toArray, line, i + d⟩ c (p.moved line d) 0 _ _ :=
        .use (by rw [hmoved]; exact hused)
      rwa [hmoved] at hpass
  | @handOn p n fs q hused _ ih =>
      intro start h
      have hmoved := dispatch_moved (c := c) (h.abreast hpart line) h.size_le
      obtain ⟨start', -, hstands⟩ := (dispatch_outcome h).advance h
      rw [hused] at hstands
      have hpass : Passage ⟨text.toArray, line, i + d⟩ c (p.moved line d) (n + 1) _
          (q.moved line d) :=
        .handOn (by rw [hmoved]; exact hused) (by rw [hmoved]; exact ih hstands)
      rw [hmoved] at hpass
      simpa [Move.moved] using hpass

theorem step_moved (hpart : PartAt part text d) (line : Nat) (h : p.Stands part l i none start)
    (hc : part[i]? = some c) :
    step ⟨text.toArray, line, i + d⟩ (p.moved line d) c =
      (step ⟨part.toArray, l, i⟩ p c).moved line d := by
  obtain ⟨n, hn, fs, q, hpass, hstep⟩ := exists_step ⟨part.toArray, l, i⟩ c p
  have hentry : (p.moved line d).entry = p.entry.moved line d := by
    unfold Pending.entry
    rw [moved_isFull]
    split <;> rfl
  have hoverflow : (p.moved line d).overflow ⟨text.toArray, line, i + d⟩ =
      (p.overflow ⟨part.toArray, l, i⟩).map (Finding.moved line d) := by
    unfold Pending.overflow
    rw [moved_isFull, (h.abreast hpart line).fault]
    split <;> rfl
  have hmoved := hpass.moved hpart line (h.entry hc)
  rw [← hentry] at hmoved
  rw [step_of_passage hmoved hn, hstep, hoverflow, ← List.map_append]
  rfl

/-- A trace of the part is a trace in the whole. -/
theorem trace_moved (hpart : PartAt part text d) (line : Nat) :
    ∀ (rest : List Char) {i start : Nat} {p : Pending}, p.Stands part l i none start →
      rest <+: part.drop i →
      trace text line (i + d) (p.moved line d) rest =
        ((trace part l i p rest).1.moved line d,
          (trace part l i p rest).2.map (Finding.moved line d))
  | [], i, start, p, _, _ => rfl
  | c :: rest, i, start, p, h, hpre => by
      obtain ⟨hc, hrest⟩ := getElem?_of_prefix_drop hpre
      obtain ⟨start', -, hstands⟩ := step_tiles h hc
      have hnext := trace_moved hpart line rest hstands hrest
      rw [Nat.add_right_comm] at hnext
      simp only [trace, step_moved hpart line h hc, Move.moved, hnext, List.map_append]

end Part

end ContractLex
