import ContractLex.Proofs.Munch
import ContractLex.Proofs.ReadOn

/-!
# A text that begins with an operator

The first character of an operator decides the state (`afterOperator`), and the next character or
the end of the text decides the operator: it is one of two characters (`step_pair`), or the first
character stands alone (`readOn_alone`). Only `<-` looks one character further. `extensions` says
which characters go on with an operator, so the operator that is read is the longest one the text
begins with (`readOn_operator`).

Two slashes, or a slash and a star, open a comment instead. It ends within the text and the rest is
read afresh, or it goes on to the end of the text (`feedsComment`).
-/

namespace ContractLex

open Spelling

/-! ## The second character -/

/-- The state after an operator character that more characters may follow. -/
def afterOperator : Char → State
  | '+' => .doubling
  | '-' => .minus
  | '<' => .less
  | '>' => .greater
  | '&' | '|' => .logical
  | '/' => .slash
  | _ => .beforeEquals

/-- Operator characters that more characters may follow. -/
def openers : List Char := ['=', '+', '-', '*', '/', '%', '.', '<', '>', '&', '|']

/-- Operators of two characters that end with the second one. -/
def pairs : List (Char × Char) := [
  ('=', '='), ('+', '+'), ('+', '='), ('-', '-'), ('-', '='), ('-', '>'), ('*', '='), ('/', '='),
  ('%', '='), ('<', '='), ('<', '<'), ('>', '='), ('>', '>'), ('&', '&'), ('|', '|')]

/-- Every character that goes on with an operator character ends the operator, but the dash that may
become a double arrow. -/
theorem mem_pairs : ∀ o ∈ openers, ∀ c ∈ extensions [o],
    (o, c) ∈ pairs ∨ (o, c) = ('<', '-') := by
  have hall : (openers.all fun o => (extensions [o]).all fun c =>
      (o, c) == ('<', '-') || pairs.contains (o, c)) = true := rfl
  simp only [List.all_eq_true, Bool.or_eq_true, beq_iff_eq, List.contains_iff_mem] at hall
  intro o ho c hc
  exact (hall o ho c hc).symm

section Second

variable {s : Site} {text : List Char} {line i start : Nat} {c o : Char}

theorem opener_or_closed (h : isOperatorChar o = true) : o ∈ openers ∨ o = '^' ∨ o = '!' := by
  have hmem := mem_of_isOperatorChar h
  simp only [openers, List.mem_cons, List.not_mem_nil, or_false] at hmem ⊢
  tauto

theorem isOperatorChar_of_opener : ∀ o ∈ openers, isOperatorChar o = true :=
  List.all_eq_true.mp rfl

theorem dispatch_opener (ho : o ∈ openers) :
    dispatch (.under .operator #[] line start) s o =
      .use (.under (afterOperator o) #[o] line start) := by
  simp only [openers, List.mem_cons, List.not_mem_nil, or_false] at ho
  rcases ho with rfl | rfl | rfl | rfl | rfl | rfl | rfl | rfl | rfl | rfl | rfl <;> rfl

theorem step_pair (h : (o, c) ∈ pairs) (text : List Char) (line i start : Nat) :
    ∃ op, operator? (String.ofList [o, c]) = some op ∧ extensions [o, c] = []
      ∧ step ⟨text.toArray, line, i⟩ (.under (afterOperator o) #[o] line start) c =
        .use {} [.token ⟨.operator op, String.ofList [o, c], line, start, i + 1⟩] := by
  have htoken : ∀ op, Move.use {} [(Pending.under .start #[o, c] line start).token
      ⟨text.toArray, line, i⟩ (.operator op) (i + 1)] =
      .use {} [.token ⟨.operator op, String.ofList [o, c], line, start, i + 1⟩] := by
    intro op
    rw [token_eq rfl]
  simp only [pairs, List.mem_cons, List.not_mem_nil, or_false, Prod.mk.injEq] at h
  rcases h with ⟨rfl, rfl⟩ | ⟨rfl, rfl⟩ | ⟨rfl, rfl⟩ | ⟨rfl, rfl⟩ | ⟨rfl, rfl⟩ | ⟨rfl, rfl⟩ |
    ⟨rfl, rfl⟩ | ⟨rfl, rfl⟩ | ⟨rfl, rfl⟩ | ⟨rfl, rfl⟩ | ⟨rfl, rfl⟩ | ⟨rfl, rfl⟩ | ⟨rfl, rfl⟩ |
    ⟨rfl, rfl⟩ | ⟨rfl, rfl⟩ <;>
    exact ⟨_, rfl, rfl, htoken _⟩

/-- An operator character that the next one does not go on with stands alone. -/
theorem dispatch_alone (ho : o ∈ openers) (hc : c ∉ extensions [o]) (hslash : o ≠ '/') :
    dispatch (.under (afterOperator o) #[o] line start) s c =
      (Pending.under (afterOperator o) #[o] line start).closeOperator s := by
  simp only [openers, List.mem_cons, List.not_mem_nil, or_false] at ho
  rcases ho with rfl | rfl | rfl | rfl | rfl | rfl | rfl | rfl | rfl | rfl | rfl
  · have hne : c ≠ '=' := by simpa [show extensions ['='] = ['='] from rfl] using hc
    simp [dispatch, afterOperator, onBeforeEquals, hne]
  · have hne : c ≠ '+' ∧ c ≠ '=' := by
      simpa [show extensions ['+'] = ['+', '='] from rfl] using hc
    simp [dispatch, afterOperator, onDoubling, hne]
  · have hne : c ≠ '-' ∧ c ≠ '=' ∧ c ≠ '>' := by
      simpa [show extensions ['-'] = ['-', '=', '>'] from rfl] using hc
    simp [dispatch, afterOperator, onMinus, hne]
  · have hne : c ≠ '=' := by simpa [show extensions ['*'] = ['='] from rfl] using hc
    simp [dispatch, afterOperator, onBeforeEquals, hne]
  · exact absurd rfl hslash
  · have hne : c ≠ '=' := by simpa [show extensions ['%'] = ['='] from rfl] using hc
    simp [dispatch, afterOperator, onBeforeEquals, hne]
  · have hplain : assigned? '.' = none := rfl
    simp [dispatch, afterOperator, onBeforeEquals, hplain]
  · have hne : c ≠ '=' ∧ c ≠ '<' ∧ c ≠ '-' := by
      simpa [show extensions ['<'] = ['=', '<', '-', '-'] from rfl] using hc
    simp [dispatch, afterOperator, onLess, hne]
  · have hne : c ≠ '=' ∧ c ≠ '>' := by
      simpa [show extensions ['>'] = ['=', '>'] from rfl] using hc
    simp [dispatch, afterOperator, onGreater, hne]
  · have hne : c ≠ '&' := by simpa [show extensions ['&'] = ['&'] from rfl] using hc
    simp [dispatch, afterOperator, onLogical, hne]
  · have hne : c ≠ '|' := by simpa [show extensions ['|'] = ['|'] from rfl] using hc
    simp [dispatch, afterOperator, onLogical, hne]

/-- A slash that opens no comment is left to the state that waits for an equals sign. -/
theorem dispatch_slash (s : Site) (line : Nat) (hline : c ≠ '/') (hblock : c ≠ '*') :
    dispatch (.under .slash #['/'] line 0) s c =
      .handOn (.under .beforeEquals #['/'] line 0) := by
  simp only [dispatch, onSlash]
  rfl

theorem dispatch_slash_alone (s : Site) (line : Nat) (hc : c ≠ '=') :
    dispatch (.under .beforeEquals #['/'] line 0) s c =
      (Pending.under .slash #['/'] line 0).closeOperator s := by
  simp only [dispatch, onBeforeEquals, hc, if_false]
  rfl

theorem finish_opener (ho : o ∈ openers) (carry : Bool) :
    (Pending.under (afterOperator o) #[o] line start).finish s carry =
      ⟨{}, (Pending.under (afterOperator o) #[o] line start).firstOperator s s.column, .ok ()⟩ := by
  simp only [openers, List.mem_cons, List.not_mem_nil, or_false] at ho
  rcases ho with rfl | rfl | rfl | rfl | rfl | rfl | rfl | rfl | rfl | rfl | rfl <;> rfl

end Second

/-! ## Reading the operator -/

/-- The text begins with the operator that `w` spells; nothing longer that it begins with is one,
and what follows `w` is read with nothing pending. -/
structure ReadsOperator (text : List Char) (line : Nat) (carry : Bool) (w : List Char)
    (op : Operator) : Prop where
  operator : operator? (String.ofList w) = some op
  isPrefix : w <+: text
  longest : Longest text 0 w.length
  readOn : readOn text line carry 0 {} = (readOn text line carry w.length {}).after
    [.token ⟨.operator op, String.ofList w, line, 0, w.length⟩]

section Read

variable {text rest w : List Char} {line : Nat} {carry : Bool} {c o : Char} {op : Operator}

/-- An operator is as long as it can be if the character after it does not go on with it. -/
theorem longest_of_append (h : ∀ c, rest.head? = some c → c ∉ extensions w) :
    Longest (w ++ rest) 0 w.length := by
  refine longest_of_next (Nat.zero_le _) (by simp) ?_
  intro c hc
  rw [stretch_append_left]
  refine h c ?_
  rwa [← List.head?_drop, List.drop_left] at hc

theorem readOn_opener (ho : o ∈ openers) :
    readOn (o :: rest) line carry 0 {} =
      readOn (o :: rest) line carry 1 (.under (afterOperator o) #[o] line 0) := by
  have hopen : dispatch {} ⟨(o :: rest).toArray, line, 0⟩ o =
      .handOn (.under .operator #[] line 0) := by
    simp only [openers, List.mem_cons, List.not_mem_nil, or_false] at ho
    rcases ho with rfl | rfl | rfl | rfl | rfl | rfl | rfl | rfl | rfl | rfl | rfl <;> rfl
  rw [readOn_handOn rfl rfl rfl hopen, readOn_use rfl rfl (dispatch_opener ho), Ending.after_nil,
    Ending.after_nil]

theorem isFull_opener (st : State) : (Pending.under st #[o] line 0).isFull = false :=
  isFull_eq_false (by simp [maxLexeme])

/-- An operator character that stands alone. -/
theorem readOn_alone (ho : o ∈ openers) (hrest : ∀ c, rest.head? = some c → c ∉ extensions [o])
    (hcomment : o = '/' → rest.head? ≠ some '/' ∧ rest.head? ≠ some '*') :
    ∃ op, ReadsOperator (o :: rest) line carry [o] op := by
  obtain ⟨op, ⟨hop, -⟩, htoken⟩ := firstOperator_eq (afterOperator o) (o :: rest) line 1 0 1
    (l := #[o]) rfl (isOperatorChar_of_opener o ho)
  refine ⟨op, hop, List.prefix_append [o] rest, longest_of_append hrest, ?_⟩
  rw [readOn_opener ho, List.length_singleton, ← htoken]
  refine readOn_settle (by simp) ?_ (finish_opener ho carry)
  intro c hc
  have hhead : rest.head? = some c := by rwa [List.head?_eq_getElem?]
  by_cases hslash : o = '/'
  · subst hslash
    obtain ⟨hline, hblock⟩ := hcomment rfl
    have hequals : c ≠ '=' := by
      intro heq
      exact hrest c hhead (heq ▸ List.mem_singleton_self _)
    have hpass := dispatch_slash ⟨('/' :: rest).toArray, line, 1⟩ line
      (fun heq => hline (heq ▸ hhead)) (fun heq => hblock (heq ▸ hhead))
    have halone := dispatch_slash_alone ⟨('/' :: rest).toArray, line, 1⟩ line hequals
    rw [show afterOperator '/' = .slash from rfl,
      readOn_handOn hc (isFull_opener _) (isFull_opener _) hpass, Ending.after_nil,
      readOn_handOn hc (isFull_opener _) rfl halone]
  · exact readOn_handOn hc (isFull_opener _) rfl (dispatch_alone ho (hrest c hhead) hslash)

/-- An operator of two characters. -/
theorem readOn_pair (ho : o ∈ openers) (h : (o, c) ∈ pairs) :
    ∃ op, ReadsOperator (o :: c :: rest) line carry [o, c] op := by
  obtain ⟨op, hop, hext, hstep⟩ := step_pair h (o :: c :: rest) line 1 0
  refine ⟨op, hop, List.prefix_append [o, c] rest, longest_of_append ?_, ?_⟩
  · rw [hext]
    exact fun _ _ => List.not_mem_nil
  · rw [readOn_opener ho, readOn_step rfl hstep]
    rfl

/-- An arrow to the left goes on with one character only. -/
theorem readOn_arrow :
    ∃ w op, ReadsOperator ('<' :: '-' :: rest) line carry w op := by
  have hless : '<' ∈ openers := by decide
  have harrow : readOn ('<' :: '-' :: rest) line carry 0 {} =
      readOn ('<' :: '-' :: rest) line carry 2 (.under .leftArrow #['<', '-'] line 0) := by
    rw [readOn_opener hless, readOn_use rfl (isFull_opener _) rfl, Ending.after_nil]
    rfl
  by_cases hboth : rest.head? = some '>'
  · obtain ⟨tail, rfl⟩ := List.head?_eq_some_iff.mp hboth
    refine ⟨['<', '-', '>'], .bothArrow, by decide, List.prefix_append ['<', '-', '>'] tail,
      longest_of_append fun _ _ => ?_, ?_⟩
    · rw [show extensions ['<', '-', '>'] = [] from rfl]
      exact List.not_mem_nil
    · rw [harrow, readOn_use rfl (isFull_eq_false (by simp [maxLexeme])) rfl, token_eq rfl]
      rfl
  · refine ⟨['<', '-'], .leftArrow, by decide, List.prefix_append ['<', '-'] rest,
      longest_of_append fun c hc => ?_, ?_⟩
    · rw [show extensions ['<', '-'] = ['>'] from rfl, List.mem_singleton]
      rintro rfl
      exact hboth hc
    · rw [harrow]
      refine readOn_closeBefore (by simp) (fun _ => isFull_eq_false (by simp [maxLexeme])) ?_ rfl
      intro c hc
      have hne : c ≠ '>' := by
        rintro rfl
        exact hboth (by rwa [List.head?_eq_getElem?])
      simp only [dispatch, onLeftArrow, hne, if_false]

theorem readOn_closed (ho : o = '^' ∨ o = '!') :
    ∃ op, ReadsOperator (o :: rest) line carry [o] op := by
  have hclosed : ∀ op : Operator, operator? (String.ofList [o]) = some op →
      extensions [o] = [] →
      dispatch {} ⟨(o :: rest).toArray, line, 0⟩ o = .handOn (.under .operator #[] line 0) →
      dispatch (.under .operator #[] line 0) ⟨(o :: rest).toArray, line, 0⟩ o =
        (Pending.under .operator #[] line 0).closeWith ⟨(o :: rest).toArray, line, 0⟩ o
          (.operator op) →
      ReadsOperator (o :: rest) line carry [o] op := by
    intro op hop hext hopen hclose
    refine ⟨hop, List.prefix_append [o] rest, longest_of_append fun _ _ => ?_, ?_⟩
    · rw [hext]
      exact List.not_mem_nil
    · rw [readOn_handOn rfl rfl rfl hopen, readOn_use rfl rfl hclose, token_eq rfl]
      rfl
  rcases ho with rfl | rfl
  · exact ⟨.bitXor, hclosed .bitXor rfl rfl rfl rfl⟩
  · exact ⟨.not, hclosed .not rfl rfl rfl rfl⟩

/-- A text that begins with an operator character, but with no comment, begins with an operator. -/
theorem readOn_operator (ho : isOperatorChar o = true)
    (hcomment : o = '/' → rest.head? ≠ some '/' ∧ rest.head? ≠ some '*') (line : Nat)
    (carry : Bool) : ∃ w op, ReadsOperator (o :: rest) line carry w op := by
  rcases opener_or_closed ho with ho | ho
  · by_cases hext : ∃ c, rest.head? = some c ∧ c ∈ extensions [o]
    · obtain ⟨c, hhead, hc⟩ := hext
      obtain ⟨tail, rfl⟩ := List.head?_eq_some_iff.mp hhead
      rcases mem_pairs o ho c hc with hpair | harrow
      · exact ⟨_, readOn_pair ho hpair⟩
      · cases harrow
        exact readOn_arrow
    · refine ⟨_, readOn_alone ho ?_ hcomment⟩
      intro c hhead hc
      exact hext ⟨c, hhead, hc⟩
  · exact ⟨_, readOn_closed ho⟩

end Read

/-! ## Reading a comment -/

/-- Two slashes, or a slash and a star. -/
def OpensComment (text : List Char) : Prop := ['/', '/'] <+: text ∨ ['/', '*'] <+: text

instance (text : List Char) : Decidable (OpensComment text) :=
  inferInstanceAs (Decidable (_ ∨ _))

section Comment

variable {body : List Char} {line : Nat} {carry : Bool}

theorem readOn_slash {c : Char} {st : State}
    (h : ∀ s, dispatch (.under .slash #['/'] line 0) s c = .use (.under st #[] line 0)) :
    readOn ('/' :: c :: body) line carry 0 {} =
      readOn ('/' :: c :: body) line carry 2 (.under st #[] line 0) := by
  rw [readOn_opener (by decide), show afterOperator '/' = .slash from rfl,
    readOn_use rfl (isFull_opener _) (h _), Ending.after_nil]

/-- A line comment ends with the line feed, or with the text. -/
theorem readOn_lineComment (body : List Char) (line : Nat) (carry : Bool) :
    (∃ k, IsComment (('/' :: '/' :: body).take k) ∧ k ≤ body.length + 2
      ∧ readOn ('/' :: '/' :: body) line carry 0 {} =
        (readOn ('/' :: '/' :: body) line carry k {}).after [.comment])
    ∨ '\n' ∉ body ∧ readOn ('/' :: '/' :: body) line carry 0 {} = ⟨{}, [.comment], .ok ()⟩ := by
  have hopen : readOn ('/' :: '/' :: body) line carry 0 {} =
      readOn ('/' :: '/' :: body) line carry 2 (.under .lineComment #[] line 0) :=
    readOn_slash fun _ => rfl
  have hstay : ∀ w : List Char, '\n' ∉ w → ∀ c ∈ w, ∀ s,
      dispatch (.under .lineComment #[] line 0) s c = .use (.under .lineComment #[] line 0) := by
    intro w hw c hc s
    have hne : c ≠ '\n' := by
      rintro rfl
      exact hw hc
    simp only [dispatch, onLineComment, hne, if_false]
  by_cases hfeed : '\n' ∈ body
  · obtain ⟨head, tail, rfl, hhead⟩ := List.eq_append_cons_of_mem hfeed
    have hsplit : '/' :: '/' :: (head ++ '\n' :: tail) = '/' :: '/' :: head ++ ['\n'] ++ tail := by
      simp
    have hend : ('/' :: '/' :: (head ++ '\n' :: tail))[2 + head.length]? = some '\n' := by
      rw [Nat.add_comm]
      simp
    refine Or.inl ⟨2 + head.length + 1, ?_, by simp; omega, ?_⟩
    · rw [hsplit, List.take_left' (by simp; omega)]
      exact .line hhead
    · rw [hopen, readOn_stay (w := head) (by simp) rfl (hstay head hhead), readOn_use hend rfl rfl]
  · have hlength : ('/' :: '/' :: body).length = 2 + body.length :=
      Nat.add_comm body.length 2
    refine Or.inr ⟨hfeed, ?_⟩
    rw [hopen, readOn_stay (w := body) (by simp) rfl (hstay body hfeed), readOn_length hlength]
    rfl

/-- A block comment ends with the first `*/`, or it is open at the end of the text. -/
theorem readOn_blockComment (body : List Char) (line : Nat) (carry : Bool) :
    (∃ k, IsComment (('/' :: '*' :: body).take k) ∧ k ≤ body.length + 2
      ∧ readOn ('/' :: '*' :: body) line carry 0 {} =
        (readOn ('/' :: '*' :: body) line carry k {}).after [.comment])
    ∨ IsOpen body ∧ ∃ st, InComment body (.under st #[] line 0)
      ∧ readOn ('/' :: '*' :: body) line carry 0 {} =
        (Pending.under st #[] line 0).finish
          ⟨('/' :: '*' :: body).toArray, line, ('/' :: '*' :: body).length⟩ carry := by
  have hopen : readOn ('/' :: '*' :: body) line carry 0 {} =
      readOn ('/' :: '*' :: body) line carry 2 (.under .blockComment #[] line 0) :=
    readOn_slash fun _ => rfl
  have hcomment : InComment [] (.under .blockComment #[] line 0) :=
    ⟨rfl, rfl, by simp [IsOpen]⟩
  by_cases hbody : IsOpen body
  · refine Or.inr ⟨hbody, commentState body, ⟨rfl, rfl, hbody⟩, ?_⟩
    have hdrop : ('/' :: '*' :: body).drop 2 = body := rfl
    rw [hopen, hcomment.readOn_open hdrop hbody]
    rfl
  · obtain ⟨head, tail, rfl, hhead, hlast⟩ := exists_close hcomment.isOpen hbody
    obtain ⟨inner, rfl⟩ := List.getLast?_eq_some_iff.mp hlast
    have hpre : inner ++ ['*'] ++ ['/'] <+:
        ('/' :: '*' :: (inner ++ ['*'] ++ '/' :: tail)).drop 2 := ⟨tail, by simp⟩
    have hsplit : '/' :: '*' :: (inner ++ ['*'] ++ '/' :: tail) =
        '/' :: '*' :: inner ++ ['*', '/'] ++ tail := by
      simp
    refine Or.inl ⟨2 + ((inner ++ ['*']).length + 1), ?_, by simp; omega, ?_⟩
    · rw [hsplit, List.take_left' (by simp; omega)]
      exact .block hhead
    · rw [hopen, hcomment.readOn_close hpre hhead hlast]

end Comment

/-! ## Feeding -/

namespace Lexer

/-- How a text that begins with a comment is fed: no token comes from the comment. -/
inductive FeedsComment (lx : Lexer) (text : String) (line : Nat) : Prop
  /-- The comment ends within the text, and what follows is fed afresh. -/
  | closed {k} : IsComment (text.toList.take k) → lx.FeedsThen text line { stop := k } →
      lx.FeedsComment text line
  /-- A line comment ends with the text. -/
  | cut : ['/', '/'] <+: text.toList → '\n' ∉ text.toList →
      lx.FeedsThen text line { stop := text.toList.length } → lx.FeedsComment text line
  /-- A block comment is open at the end of the text, and is carried. -/
  | carried : lx.settings.carryComments = true →
      InComment (text.toList.drop 2) (lx.feed text line).1.pending →
      (lx.feed text line).1.pending.opened = some ⟨line, 0⟩ →
      (lx.feed text line).2 = .ok () → (lx.feed text line).1.tokens = lx.tokens →
      (lx.feed text line).1.diagnostics = lx.diagnostics → lx.FeedsComment text line
  /-- A block comment is open at the end of the text, and may not be. -/
  | unterminated : lx.settings.carryComments = false → IsOpen (text.toList.drop 2) →
      (lx.feed text line).1.pending = {} →
      (lx.feed text line).2 = .error (.terminal (Fault.openComment.diagnostic ⟨line, 0⟩)) →
      (lx.feed text line).1.tokens = lx.tokens →
      (lx.feed text line).1.diagnostics.toList = lx.diagnostics.toList ++
        [Fault.openComment.diagnostic ⟨line, 0⟩].take (maxDiagnostics - lx.diagnostics.size) →
      lx.FeedsComment text line

section Feed

variable {lx : Lexer} {text : String} {line k : Nat} {body : List Char}

theorem feedsThen_of_comment (hp : lx.pending = {}) (hk : k ≤ text.toList.length)
    (h : readOn text.toList line lx.settings.carryComments 0 {} =
      (readOn text.toList line lx.settings.carryComments k {}).after [.comment]) :
    lx.FeedsThen text line { stop := k } :=
  feedsThen_of_readsFront hp ⟨hk, _, rfl, rfl, h⟩

theorem feedsComment_line (hp : lx.pending = {}) (htext : text.toList = '/' :: '/' :: body) :
    lx.FeedsComment text line := by
  have hlength : text.toList.length = body.length + 2 := by rw [htext]; rfl
  rcases readOn_lineComment body line lx.settings.carryComments with
    ⟨k, hcomment, hk, hread⟩ | ⟨hfeed, hread⟩
  · rw [← htext] at hcomment hread
    exact .closed hcomment (feedsThen_of_comment hp (by omega) hread)
  · rw [← htext] at hread
    refine .cut ⟨body, htext.symm⟩ (by simpa [htext] using hfeed) ?_
    refine feedsThen_of_comment hp (Nat.le_refl _) ?_
    rw [hread, readOn_length_start rfl]
    rfl

theorem feedsComment_block (hp : lx.pending = {}) (htext : text.toList = '/' :: '*' :: body) :
    lx.FeedsComment text line := by
  have hlength : text.toList.length = body.length + 2 := by rw [htext]; rfl
  have hdrop : text.toList.drop 2 = body := by rw [htext]; rfl
  rcases readOn_blockComment body line lx.settings.carryComments with
    ⟨k, hcomment, hk, hread⟩ | ⟨hopen, st, hin, hread⟩
  · rw [← htext] at hcomment hread
    exact .closed hcomment (feedsThen_of_comment hp (by omega) hread)
  · have hst : st.isBlockComment = true := hin.isBlockComment
    rw [← htext] at hread
    have hreading := lx.reading_eq_readOn text line
    rw [hp, hread] at hreading
    cases hcarry : lx.settings.carryComments with
    | true =>
        rw [hcarry, finish_carried hst] at hreading
        refine .carried hcarry ?_ ?_ ?_ (Array.toList_inj.mp ?_) (Array.toList_inj.mp ?_)
        · rw [hdrop, feed_pending, hreading]
          exact hin
        · rw [feed_pending, hreading]
        · rw [feed_result, hreading]
        · rw [feed_tokens, hreading, tokensOf_nil, List.append_nil]
        · rw [feed_diagnostics, hreading, diagnosticsOf_nil, List.take_nil, List.append_nil]
    | false =>
        have hfinish : ∀ s, (Pending.under st #[] line 0).finish s false =
            (Pending.under st #[] line 0).terminate s .openComment := by
          intro s
          rcases State.eq_of_isBlockComment hst with rfl | rfl <;> rfl
        rw [hcarry, hfinish] at hreading
        refine .unterminated hcarry (by rwa [hdrop]) ?_ ?_ (Array.toList_inj.mp ?_) ?_
        · rw [feed_pending, hreading]
          rfl
        · rw [feed_result, hreading]
          rfl
        · rw [feed_tokens, hreading]
          exact List.append_nil _
        · rw [feed_diagnostics, hreading]
          rfl

theorem feedsComment (hp : lx.pending = {}) (h : OpensComment text.toList) :
    lx.FeedsComment text line := by
  rcases h with ⟨body, hbody⟩ | ⟨body, hbody⟩
  · exact feedsComment_line hp hbody.symm
  · exact feedsComment_block hp hbody.symm

end Feed

end Lexer

/-- A text that begins with an operator character begins with a comment, from which no token comes,
or with the longest operator that any operator spells there; what follows is fed afresh. -/
theorem feed_operator {lx : Lexer} (h : lx.Reachable) (hstart : lx.state = .start) {text : String}
    {o : Char} (ho : text.toList.head? = some o) (hop : isOperatorChar o = true) (line : Nat) :
    (OpensComment text.toList → lx.FeedsComment text line)
    ∧ (¬ OpensComment text.toList → ∃ x ∈ operators, x.1.toList <+: text.toList
      ∧ (∀ y ∈ operators, y.1.toList <+: text.toList →
        y.1.toList.length ≤ x.1.toList.length)
      ∧ lx.FeedsThen text line
        ⟨[⟨.operator x.2, x.1, line, 0, x.1.toList.length⟩], [], x.1.toList.length⟩) := by
  have hp := h.pending_eq hstart
  refine ⟨Lexer.feedsComment hp, fun hcomment => ?_⟩
  obtain ⟨rest, hrest⟩ := List.head?_eq_some_iff.mp ho
  have hslash : o = '/' → rest.head? ≠ some '/' ∧ rest.head? ≠ some '*' := by
    rintro rfl
    refine ⟨fun hhead => hcomment (Or.inl ?_), fun hhead => hcomment (Or.inr ?_)⟩
    · obtain ⟨tail, rfl⟩ := List.head?_eq_some_iff.mp hhead
      exact ⟨tail, hrest.symm⟩
    · obtain ⟨tail, rfl⟩ := List.head?_eq_some_iff.mp hhead
      exact ⟨tail, hrest.symm⟩
  obtain ⟨w, op, hw⟩ := readOn_operator hop hslash line lx.settings.carryComments
  rw [← hrest] at hw
  refine ⟨(String.ofList w, op), mem_operators hw.operator, by simpa using hw.isPrefix, ?_, ?_⟩
  · intro y hy hprefix
    rw [String.toList_ofList]
    refine Nat.le_of_not_lt fun hlt => hw.longest y hy hlt hprefix
  · have hlength : (String.ofList w).toList.length = w.length := by
      rw [String.toList_ofList]
    have hread := hw.readOn
    rw [← hlength] at hread
    refine Lexer.feedsThen_of_readsFront hp ⟨?_, _, rfl, rfl, hread⟩
    rw [hlength]
    exact hw.isPrefix.length_le

/-- A double arrow, and a comment after it. -/
theorem feed_operator_arrow :
    ({} : Lexer).FeedsThen "<->//x" 4 ⟨[⟨.operator .bothArrow, "<->", 4, 0, 3⟩], [], 3⟩
      ∧ ({} : Lexer).FeedsComment "//x" 4 := by
  have hreach : ({} : Lexer).Reachable := ⟨{}, [], rfl⟩
  have harrow : "<->//x".toList.head? = some '<' := by decide +kernel
  have hslash : "//x".toList.head? = some '/' := by decide +kernel
  refine ⟨?_, (feed_operator hreach rfl hslash rfl 4).1 (by decide +kernel)⟩
  obtain ⟨x, hx, hprefix, hlongest, hfeeds⟩ :=
    (feed_operator hreach rfl harrow rfl 4).2 (by decide +kernel)
  have heq : ∀ x ∈ operators, x.1.toList <+: "<->//x".toList → 3 ≤ x.1.toList.length →
      x = ("<->", .bothArrow) := by decide +kernel
  obtain rfl := heq x hx hprefix (hlongest ("<->", .bothArrow) (by decide) (by decide +kernel))
  exact hfeeds

end ContractLex
