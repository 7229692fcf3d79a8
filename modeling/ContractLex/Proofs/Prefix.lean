import ContractLex.Proofs.Bounds

/-!
# What stands before a token

A token that is under way says nothing about what stands before it: if the text is cut where the
token began, what is left is accepted, and has the tokens that had been found there. `Begun` is this
fact, and every step preserves it (`StandsBegun.step`, `trace_begun`). Three things make it so:

- the scanner looks only at characters that it has passed, so a text and a longer one that begins
  with it are read alike up to the cut (`trace_take`, `finish_take`);
- a token that ends before a character is the one that the end of the text would have made
  (`finish_of_closed`), and a state that hands the character on unread would have made the same one
  (`finish_of_passed`); `Turn` says for every state what it does beside the end of the text;
- so a character leaves the beginning of the pending token where it was, or opens a new token at its
  own column, after what the end of the text would have settled (`step_opens`). What is being
  skipped is excepted: it may have begun with a token that was given up.
-/

namespace ContractLex

open Spelling

/-! ## Texts that agree -/

/-- Two texts have the same characters up to column `i`. -/
structure AgreeTo (i : Nat) (a b : Array Char) : Prop where
  le_left : i ≤ a.size
  le_right : i ≤ b.size
  extract : ∀ j, (a.extract j i).toList = (b.extract j i).toList

theorem agreeTo_take {text : List Char} {i k : Nat} (hi : i ≤ k) (hk : k ≤ text.length) :
    AgreeTo i text.toArray (text.take k).toArray where
  le_left := by simpa using Nat.le_trans hi hk
  le_right := by
    simp only [List.size_toArray, List.length_take]
    omega
  extract := by
    intro j
    rw [toList_extract_toArray, toList_extract_toArray, stretch, stretch, List.drop_take,
      List.take_take]
    congr 1
    omega

section Agree

variable {a b : Array Char} {line i : Nat} {c : Char}

theorem skipped_congr (h : AgreeTo i a b) (p : Pending) :
    p.skipped ⟨a, line, i⟩ i = p.skipped ⟨b, line, i⟩ i := by
  have hstart : p.startColumn? ⟨a, line, i⟩ = p.startColumn? ⟨b, line, i⟩ := rfl
  simp only [Pending.skipped, hstart, h.le_left, h.le_right, h.extract]

/-- A state other than `invalid` does not look at the text at all. -/
theorem dispatch_congr (h : AgreeTo i a b) (p : Pending) :
    dispatch p ⟨a, line, i⟩ c = dispatch p ⟨b, line, i⟩ c := by
  obtain ⟨st, l, o, m⟩ := p
  cases st
  case invalid =>
      simp only [dispatch, onInvalid, skipped_congr h]
  all_goals rfl

theorem settle_congr (h : AgreeTo i a b) (n : Nat) :
    ∀ p : Pending, settle ⟨a, line, i⟩ c n p = settle ⟨b, line, i⟩ c n p := by
  induction n with
  | zero => exact fun _ => rfl
  | succ n ih =>
      intro p
      simp only [settle, dispatch_congr h, ih]

theorem step_congr (h : AgreeTo i a b) (p : Pending) :
    step ⟨a, line, i⟩ p c = step ⟨b, line, i⟩ p c := by
  have hfault : p.fault ⟨a, line, i⟩ .longLexeme = p.fault ⟨b, line, i⟩ .longLexeme := rfl
  simp only [step, settle_congr h, hfault]

theorem finish_congr (h : AgreeTo i a b) (p : Pending) (carry : Bool) :
    p.finish ⟨a, line, i⟩ carry = p.finish ⟨b, line, i⟩ carry := by
  obtain ⟨st, l, o, m⟩ := p
  cases st
  case invalid =>
      simp only [Pending.finish, skipped_congr h]
  case decimal =>
      have hfault : (Pending.mk .decimal l o m).fault ⟨a, line, i⟩ .openDouble =
          (Pending.mk .decimal l o m).fault ⟨b, line, i⟩ .openDouble := rfl
      have htoken : (Pending.mk .decimal l o m).token ⟨a, line, i⟩ (.literal .double) i =
          (Pending.mk .decimal l o m).token ⟨b, line, i⟩ (.literal .double) i := rfl
      simp only [Pending.finish, skipped_congr h, hfault, htoken]
  all_goals rfl

end Agree

section Take

variable {text : List Char} {k : Nat}

/-- The scanner finds in the beginning of a text what it finds there in the text. -/
theorem trace_take (line : Nat) (hk : k ≤ text.length) (rest : List Char) :
    ∀ {i : Nat} {p : Pending}, i + rest.length ≤ k →
      trace (text.take k) line i p rest = trace text line i p rest := by
  induction rest with
  | nil => exact fun _ => rfl
  | cons c rest ih =>
      intro i p hi
      rw [List.length_cons] at hi
      have hagree : AgreeTo i text.toArray (text.take k).toArray := agreeTo_take (by omega) hk
      rw [trace, trace, step_congr hagree, ih (by omega)]

theorem finish_take (line : Nat) (hk : k ≤ text.length) (p : Pending) (carry : Bool) :
    p.finish ⟨(text.take k).toArray, line, k⟩ carry = p.finish ⟨text.toArray, line, k⟩ carry :=
  (finish_congr (agreeTo_take (Nat.le_refl k) hk) p carry).symm

/-- The reading of the beginning of a text. -/
theorem Lexer.reading_take (lx : Lexer) (text : String) (line : Nat)
    (hk : k ≤ text.toList.length) :
    lx.reading (String.ofList (text.toList.take k)) line =
      let t := trace text.toList line 0 lx.pending (text.toList.take k)
      let e := t.1.finish ⟨text.toList.toArray, line, k⟩ lx.settings.carryComments
      ⟨e.pending, t.2 ++ e.findings, e.result⟩ := by
  have hlen : (text.toList.take k).length = k := by
    rw [List.length_take]
    omega
  rw [reading_eq_trace, String.toList_ofList, hlen, trace_take line hk _ (by omega)]
  simp only [finish_take line hk]

end Take

/-! ## A character, and the end of the text -/

/-- What a state makes of a character, beside what the end of the text would make of the token. No
state reports a lexeme that is too long. -/
inductive Turn (s : Site) (p : Pending) : Move → Prop
  /-- The character is used, and skipping does not begin. At worst it is a line break. -/
  | used {q fs} : (q.state = .invalid → p.state = .invalid) →
      (∀ d ∈ diagnosticsOf fs, d = Fault.lineBreak.diagnostic s.position) → Turn s p (.use q fs)
  /-- The token has ended, as it would at the end of the text. -/
  | closed {fs} : (∀ carry, p.finish s carry = ⟨{}, fs, .ok ()⟩) → Turn s p (.handOn {} fs)
  /-- The character is handed on unread, and the end of the text would settle the token in the same
  way. A float is handed on with its suffix to come, which the end of the text has not got. -/
  | passed {q} : q.state ≠ .start → q.state ≠ .invalid →
      (p.state.isIdle = false → q.state ≠ .float →
        ∀ carry, p.finish s carry = q.finish s carry) →
      Turn s p (.handOn q)
  /-- The token is given up. -/
  | rejected {q st} {f : Fault} : q.state = .invalid → f.kind ≠ .lexemeTooLong →
      Turn s p (.handOn q [.fault st (f.diagnostic s.position)])
  /-- Skipping ends. -/
  | skipped {q t} : q.state = .delimiter → Turn s p (.handOn q [.token t])

/-- States in which the end of the text makes an operator of the first character that is pending. -/
def State.opensOperator : State → Bool
  | .operator | .beforeEquals | .doubling | .logical | .minus | .less | .greater | .slash => true
  | _ => false

theorem finish_of_opensOperator {p : Pending} (h : p.state.opensOperator = true) (s : Site)
    (carry : Bool) : p.finish s carry = ⟨{}, p.firstOperator s s.column, .ok ()⟩ := by
  rw [Pending.finish]
  cases hst : p.state
  case operator | beforeEquals | doubling | logical | minus | less | greater | slash => rfl
  all_goals
    rw [hst] at h
    cases h

section Handlers

variable {p q : Pending} {s : Site} {c : Char} {m m' : Move} {st : State} {k : Kind}

theorem turn_ite {b : Prop} [Decidable b] (h : Turn s p m) (h' : Turn s p m') :
    Turn s p (if b then m else m') := by
  split <;> assumption

/-! ### Characters that are used -/

theorem turn_stay (h : q.state = p.state) : Turn s p (.use q) :=
  .used (fun hq => h ▸ hq) (List.forall_mem_nil _)

theorem turn_use {fs : List Finding} (h : q.state ≠ .invalid) (hfs : diagnosticsOf fs = []) :
    Turn s p (.use q fs) := by
  refine .used (fun hq => absurd hq h) ?_
  rw [hfs]
  exact List.forall_mem_nil _

theorem turn_closeWith : Turn s p (p.closeWith s c k) := turn_use nofun rfl

/-- A literal goes on, if need be with a line break. -/
theorem turn_quoted (h : st ≠ .invalid) :
    Turn s p (.use ((p.push c).goto st) (lineBreakFault p s c)) := by
  refine .used (fun hq => absurd hq h) fun d hd => ?_
  unfold lineBreakFault at hd
  split at hd
  · exact List.mem_singleton.mp hd
  · cases hd

/-! ### Characters that are handed on -/

theorem turn_reject {f : Fault} (h : f.kind ≠ .lexemeTooLong) : Turn s p (q.reject s f) :=
  .rejected rfl h

/-- From outside a token, a character is for any state but two. -/
theorem turn_open (hidle : p.state.isIdle = true) (hstart : st ≠ .start)
    (hinvalid : st ≠ .invalid) : Turn s p (.handOn (q.goto st)) := by
  refine .passed hstart hinvalid fun h => ?_
  rw [hidle] at h
  cases h

theorem turn_closeBefore
    (h : ∀ carry, p.finish s carry = ⟨{}, [p.token s k s.column], .ok ()⟩) :
    Turn s p (p.closeBefore s k) :=
  .closed h

/-! ### The states -/

theorem turn_onStart (hst : p.state = .start) : Turn s p (onStart p s c) := by
  have hidle : p.state.isIdle = true := by rw [hst]; rfl
  exact turn_ite (turn_open hidle nofun nofun) (turn_ite (turn_open hidle nofun nofun)
    (turn_ite (turn_open hidle nofun nofun) (turn_ite (turn_open hidle nofun nofun)
      (turn_ite (turn_use nofun rfl) (turn_ite (turn_use nofun rfl) (turn_reject nofun))))))

theorem turn_onDelimiter : Turn s p (onDelimiter p s c) := by
  unfold onDelimiter
  split
  · exact turn_ite turn_closeWith (turn_use nofun rfl)
  · exact turn_use nofun rfl

theorem turn_onExpectDelimiter (hst : p.state = .expectDelimiter) :
    Turn s p (onExpectDelimiter p s c) := by
  have hidle : p.state.isIdle = true := by rw [hst]; rfl
  exact turn_ite (turn_open hidle nofun nofun) (turn_reject nofun)

theorem turn_onInvalid : Turn s p (onInvalid p s c) :=
  turn_ite (.skipped rfl) (turn_stay rfl)

theorem turn_onIdentifier (hst : p.state = .identifier) : Turn s p (onIdentifier p s c) :=
  turn_ite (turn_stay rfl) (turn_ite (turn_use nofun rfl)
    (turn_closeBefore fun _ => by rw [Pending.finish, hst]))

theorem turn_onIdentifierDash (hst : p.state = .identifierDash) :
    Turn s p (onIdentifierDash p s c) :=
  turn_ite (turn_stay rfl) (.closed fun _ => by rw [Pending.finish, hst])

theorem turn_onNumber (hst : p.state = .number) : Turn s p (onNumber p s c) :=
  turn_ite (turn_stay rfl) (turn_ite (turn_use nofun rfl)
    (turn_ite (turn_closeBefore fun _ => by rw [Pending.finish, hst]) (turn_reject nofun)))

theorem turn_onDecimal (hst : p.state = .decimal) : Turn s p (onDecimal p s c) := by
  refine turn_ite (turn_stay rfl) (turn_ite ?_ (turn_ite ?_ (turn_reject nofun)))
  · exact .passed nofun nofun fun _ hfloat => absurd rfl hfloat
  · split
    · exact turn_reject nofun
    · next hback =>
      refine turn_closeBefore fun _ => ?_
      rw [Pending.finish, hst]
      exact if_neg hback

theorem turn_onFloat : Turn s p (onFloat p s c) := turn_use nofun rfl

theorem turn_onCharOpen : Turn s p (onCharOpen p s c) :=
  turn_ite (turn_use nofun rfl) (turn_ite (turn_reject nofun) (turn_quoted nofun))

theorem turn_onCharEscape : Turn s p (onCharEscape p s c) := by
  unfold onCharEscape
  split
  · exact turn_use nofun rfl
  · exact turn_reject nofun

theorem turn_onCharClose : Turn s p (onCharClose p s c) :=
  turn_ite (turn_use nofun rfl) (turn_reject nofun)

theorem turn_onString : Turn s p (onString p s c) :=
  turn_ite (turn_use nofun rfl) (turn_ite (turn_use nofun rfl) (turn_quoted nofun))

theorem turn_onStringEscape : Turn s p (onStringEscape p s c) := by
  unfold onStringEscape
  split
  · exact turn_use nofun rfl
  · exact turn_reject nofun

theorem turn_onOperator : Turn s p (onOperator p s c) := by
  unfold onOperator
  split <;> exact turn_use nofun rfl

section Operators

variable (hop : p.state.opensOperator = true)
include hop

theorem turn_closeOperator : Turn s p (p.closeOperator s) :=
  .closed (finish_of_opensOperator hop s)

theorem turn_passOperator (hst : st.opensOperator = true) : Turn s p (.handOn (p.goto st)) := by
  refine .passed (fun hq => ?_) (fun hq => ?_) fun _ _ carry => ?_
  · rw [show st = .start from hq] at hst
    cases hst
  · rw [show st = .invalid from hq] at hst
    cases hst
  · rw [finish_of_opensOperator hop, finish_of_opensOperator (p := p.goto st) hst]
    rfl

theorem turn_onBeforeEquals : Turn s p (onBeforeEquals p s c) := by
  refine turn_ite (turn_reject nofun) ?_
  split
  · exact turn_closeWith
  · exact turn_closeOperator hop

theorem turn_onDoubling : Turn s p (onDoubling p s c) := by
  refine turn_ite (turn_reject nofun) (turn_ite (turn_passOperator hop rfl) ?_)
  split
  · exact turn_closeWith
  · exact turn_closeWith
  · exact turn_closeOperator hop

theorem turn_onLogical : Turn s p (onLogical p s c) := by
  unfold onLogical
  split
  · exact turn_closeWith
  · exact turn_closeWith
  · exact turn_closeOperator hop

theorem turn_onMinus : Turn s p (onMinus p s c) := by
  unfold onMinus
  split
  · exact turn_passOperator hop rfl
  · exact turn_passOperator hop rfl
  · exact turn_closeWith
  · exact turn_closeOperator hop

theorem turn_onLess : Turn s p (onLess p s c) := by
  unfold onLess
  split
  · exact turn_closeWith
  · exact turn_closeWith
  · exact turn_use nofun rfl
  · exact turn_closeOperator hop

theorem turn_onGreater : Turn s p (onGreater p s c) := by
  unfold onGreater
  split
  · exact turn_closeWith
  · exact turn_closeWith
  · exact turn_closeOperator hop

theorem turn_onSlash : Turn s p (onSlash p s c) := by
  unfold onSlash
  split
  · exact turn_use nofun rfl
  · exact turn_use nofun rfl
  · exact turn_passOperator hop rfl

end Operators

theorem turn_onLeftArrow (hst : p.state = .leftArrow) : Turn s p (onLeftArrow p s c) :=
  turn_ite turn_closeWith (turn_closeBefore fun _ => by rw [Pending.finish, hst])

theorem turn_onLineComment : Turn s p (onLineComment p s c) :=
  turn_ite (turn_use nofun rfl) (turn_stay rfl)

theorem turn_onBlockComment : Turn s p (onBlockComment p s c) :=
  turn_ite (turn_use nofun rfl) (turn_stay rfl)

theorem turn_onBlockCommentStar : Turn s p (onBlockCommentStar p s c) :=
  turn_ite (turn_use nofun rfl) (turn_ite (turn_stay rfl) (turn_use nofun rfl))

end Handlers

theorem dispatch_turn (s : Site) (p : Pending) (c : Char) : Turn s p (dispatch p s c) := by
  cases hst : p.state <;> simp only [dispatch, hst]
  case start => exact turn_onStart hst
  case delimiter => exact turn_onDelimiter
  case expectDelimiter => exact turn_onExpectDelimiter hst
  case identifier => exact turn_onIdentifier hst
  case identifierDash => exact turn_onIdentifierDash hst
  case number => exact turn_onNumber hst
  case decimal => exact turn_onDecimal hst
  case float => exact turn_onFloat
  case charOpen => exact turn_onCharOpen
  case charEscape => exact turn_onCharEscape
  case charClose => exact turn_onCharClose
  case stringOpen | string => exact turn_onString
  case stringEscape => exact turn_onStringEscape
  case operator => exact turn_onOperator
  case leftArrow => exact turn_onLeftArrow hst
  case lineComment => exact turn_onLineComment
  case blockComment => exact turn_onBlockComment
  case blockCommentStar => exact turn_onBlockCommentStar
  case beforeEquals => exact turn_onBeforeEquals (by rw [hst]; rfl)
  case doubling => exact turn_onDoubling (by rw [hst]; rfl)
  case logical => exact turn_onLogical (by rw [hst]; rfl)
  case minus => exact turn_onMinus (by rw [hst]; rfl)
  case less => exact turn_onLess (by rw [hst]; rfl)
  case greater => exact turn_onGreater (by rw [hst]; rfl)
  case slash => exact turn_onSlash (by rw [hst]; rfl)
  case invalid => exact turn_onInvalid

section Turn

variable {p : Pending} {s : Site} {c : Char}

/-- Skipping begins with a fault, and before the character is used. -/
theorem fault_of_skipping (hp : p.state ≠ .invalid)
    (hq : (dispatch p s c).pending.state = .invalid) :
    (dispatch p s c).used = false ∧ diagnosticsOf (dispatch p s c).findings ≠ [] := by
  have hturn := dispatch_turn s p c
  generalize dispatch p s c = m at *
  cases hturn with
  | used hskip => exact absurd (hskip hq) hp
  | closed => exact State.noConfusion hq
  | passed _ hinvalid => exact absurd hq hinvalid
  | rejected => exact ⟨rfl, List.cons_ne_nil _ _⟩
  | skipped hdelimiter => exact State.noConfusion (hdelimiter.symm.trans hq)

/-- A token that ends before a character is the one that the end of the text would have made. -/
theorem finish_of_closed (carry : Bool) (hused : (dispatch p s c).used = false)
    (hq : (dispatch p s c).pending.state = .start) :
    p.finish s carry = ⟨{}, (dispatch p s c).findings, .ok ()⟩ := by
  have hturn := dispatch_turn s p c
  generalize dispatch p s c = m at *
  cases hturn with
  | used => exact Bool.noConfusion hused
  | closed hfinish => exact hfinish carry
  | passed hstart => exact absurd hq hstart
  | rejected hinvalid => exact State.noConfusion (hinvalid.symm.trans hq)
  | skipped hdelimiter => exact State.noConfusion (hdelimiter.symm.trans hq)

/-- A character that is handed on unread leaves a token that the end of the text would settle in the
same way, unless that is a float. -/
theorem finish_of_passed (carry : Bool) (hidle : p.state.isIdle = false)
    (hused : (dispatch p s c).used = false) (hfs : (dispatch p s c).findings = [])
    (hq : (dispatch p s c).pending.state ≠ .float) :
    p.finish s carry = (dispatch p s c).pending.finish s carry := by
  have hturn := dispatch_turn s p c
  generalize dispatch p s c = m at *
  cases hturn with
  | used => exact Bool.noConfusion hused
  | closed hfinish =>
      obtain rfl := hfs
      exact hfinish carry
  | passed _ _ hfinish => exact hfinish hidle hq carry
  | rejected | skipped => exact absurd hfs (List.cons_ne_nil _ _)

end Turn

/-! ## Where the pending token begins -/

section Opens

variable {text : List Char} {line i start n : Nat} {c : Char} {p q : Pending} {fs : List Finding}

/-- From skipping, a character leads to skipping or out of it, and into no other token. -/
theorem Passage.skipping {s : Site} (h : Passage s c p n fs q)
    (hp : p.state = .invalid ∨ p.state = .delimiter) :
    q.state = .invalid ∨ q.state.isIdle = true := by
  induction h with
  | @use p hused =>
      revert hused
      rcases hp with hp | hp
      · simp only [dispatch, hp, onInvalid]
        split
        · exact fun hused => Bool.noConfusion hused
        · exact fun _ => Or.inl hp
      · simp only [dispatch, hp, onDelimiter]
        split
        · split <;> exact fun _ => Or.inr rfl
        · exact fun _ => Or.inr rfl
  | @handOn p n fs q hused _ ih =>
      refine ih (Or.inr ?_)
      revert hused
      rcases hp with hp | hp
      · simp only [dispatch, hp, onInvalid]
        split
        · exact fun _ => rfl
        · exact fun hused => Bool.noConfusion hused
      · simp only [dispatch, hp, onDelimiter]
        split
        · split <;> exact fun hused => Bool.noConfusion hused
        · exact fun hused => Bool.noConfusion hused

theorem Passage.idle_of_float {s : Site} (h : Passage s c p n fs q) (hp : p.state = .float) :
    q.state.isIdle = true := by
  cases h with
  | use => simp only [dispatch, hp]; rfl
  | handOn hused => simp only [dispatch, hp] at hused; exact Bool.noConfusion hused

/-- From where nothing has been absorbed, a token that is then under way begins here. -/
theorem Passage.opens_here (h : Passage ⟨text.toArray, line, i⟩ c p n fs q)
    (hp : p.Stands text line i (some c) i) (hq : q.state.isIdle = false) :
    q.Stands text line (i + 1) none i ∧ tokensOf fs = [] := by
  obtain ⟨start, htiles, hstands⟩ := h.advance hp
  have hcount := htiles.count
  have hlt := hstands.start_lt_of_ne_nil (hstands.holds.ne_nil hq)
  obtain rfl : start = i := by omega
  exact ⟨hstands, List.eq_nil_of_length_eq_zero (by omega)⟩

/-- A character leaves the beginning of the pending token where it was, or what is then pending
begins here, and all before it is what the end of the text would have made. -/
theorem Passage.opens (carry : Bool) (h : Passage ⟨text.toArray, line, i⟩ c p n fs q)
    (hidle : q.state.isIdle = false) (hinvalid : q.state ≠ .invalid) :
    ∀ {start : Nat}, p.Stands text line i (some c) start → start < i →
      q.Stands text line (i + 1) none start ∧ tokensOf fs = []
        ∨ q.Stands text line (i + 1) none i
          ∧ ∃ gs, p.finish ⟨text.toArray, line, i⟩ carry = ⟨{}, gs, .ok ()⟩
            ∧ tokensOf gs = tokensOf fs := by
  induction h with
  | @use p hused =>
      intro start hp hlt
      have ho := dispatch_outcome hp
      generalize dispatch p ⟨text.toArray, line, i⟩ c = m at ho hused hidle
      cases ho with
      | goOn st hst hh | lineBreak st hst _ hh => exact Or.inl ⟨stands_goOn hp hst hh, rfl⟩
      | blank | comment => exact Bool.noConfusion hidle
      | close _ _ _ hnext => rcases hnext with rfl | ⟨-, rfl⟩ <;> exact Bool.noConfusion hidle
      | pass | closeBefore | split | reject | skip => exact Bool.noConfusion hused
  | @handOn p n fs q hused hpass ih =>
      intro start hp hlt
      have hpidle : p.state.isIdle = false := by
        cases hst : p.state.isIdle with
        | false => rfl
        | true => exact absurd (hp.idle hst).1 (by omega)
      have hskip := mt hpass.skipping (by simp [hidle, hinvalid])
      have hfloat := mt hpass.idle_of_float (by simp [hidle])
      have hpassed := finish_of_passed carry hpidle hused
      have hclosed := finish_of_closed carry hused
      have ho := dispatch_outcome hp
      generalize dispatch p ⟨text.toArray, line, i⟩ c = m at *
      cases ho with
      | pass st hh =>
          rw [hpassed rfl hfloat]
          exact ih hidle hinvalid ⟨hp.start_le, hp.le_length, hp.getElem?, rfl, rfl, hh⟩ hlt
      | closeBefore | split =>
          obtain ⟨hstands, htokens⟩ := hpass.opens_here
            ⟨Nat.le_refl i, hp.le_length, hp.getElem?, rfl, rfl, stretch_self text i, rfl⟩ hidle
          refine Or.inr ⟨hstands, _, hclosed rfl, ?_⟩
          rw [tokensOf_append, htokens, List.append_nil]
      | reject => exact absurd (Or.inl rfl) hskip
      | skip => exact absurd (Or.inr rfl) hskip
      | blank | goOn | lineBreak | close | comment => exact Bool.noConfusion hused

theorem finish_of_idle {s : Site} (carry : Bool) (h : p.state.isIdle = true) :
    p.finish s carry = ⟨{}, [], .ok ()⟩ := by
  rw [Pending.finish]
  cases hst : p.state
  case start | delimiter | expectDelimiter => rfl
  all_goals
    rw [hst] at h
    cases h

/-- `Passage.opens` for a step, which may have to give up a full lexeme first. -/
theorem step_opens (carry : Bool) (h : p.Stands text line i none start) (hc : text[i]? = some c)
    (hidle : (step ⟨text.toArray, line, i⟩ p c).pending.state.isIdle = false)
    (hinvalid : (step ⟨text.toArray, line, i⟩ p c).pending.state ≠ .invalid) :
    (step ⟨text.toArray, line, i⟩ p c).pending.Stands text line (i + 1) none start
        ∧ p.state.isIdle = false ∧ p.state ≠ .invalid
        ∧ tokensOf (step ⟨text.toArray, line, i⟩ p c).findings = []
      ∨ (step ⟨text.toArray, line, i⟩ p c).pending.Stands text line (i + 1) none i
        ∧ ∃ gs, p.finish ⟨text.toArray, line, i⟩ carry = ⟨{}, gs, .ok ()⟩
          ∧ tokensOf gs = tokensOf (step ⟨text.toArray, line, i⟩ p c).findings := by
  obtain ⟨n, -, fs, q, hpass, hstep⟩ := exists_step ⟨text.toArray, line, i⟩ c p
  rw [hstep] at hidle hinvalid ⊢
  simp only [Move.use] at hidle hinvalid ⊢
  have hskip := mt hpass.skipping (by simp [hidle, hinvalid])
  by_cases hfull : p.isFull = true
  · exact absurd (Or.inl (by simp [Pending.entry, hfull, Pending.goto])) hskip
  · have hentry := h.entry hc
    have hoverflow : p.overflow ⟨text.toArray, line, i⟩ = [] := by simp [Pending.overflow, hfull]
    rw [show p.entry = p by simp [Pending.entry, hfull]] at hpass hskip hentry
    rw [hoverflow, List.nil_append]
    cases hst : p.state.isIdle with
    | true =>
        obtain rfl := (h.idle hst).1
        obtain ⟨hstands, htokens⟩ := hpass.opens_here hentry hidle
        exact Or.inr ⟨hstands, [], finish_of_idle carry hst, htokens.symm⟩
    | false =>
        have hlt := h.start_lt_of_ne_nil (h.holds.ne_nil hst)
        have hne : p.state ≠ .invalid := fun hp => hskip (Or.inl hp)
        rcases hpass.opens carry hidle hinvalid hentry hlt with ⟨hstands, htokens⟩ | hhere
        · exact Or.inl ⟨hstands, rfl, hne, htokens⟩
        · exact Or.inr hhere

end Opens

/-! ## Through a text -/

/-- The pending token begins at `start`, and what was found in the text before it is what the
scanner finds in the beginning of the text, which is accepted. -/
structure Begun (carry : Bool) (p₀ : Pending) (text : List Char) (line start : Nat)
    (fs : List Finding) : Prop where
  before : ∃ gs, (trace text line 0 p₀ (text.take start)).1.finish ⟨text.toArray, line, start⟩ carry
      = ⟨{}, gs, .ok ()⟩
    ∧ tokensOf ((trace text line 0 p₀ (text.take start)).2 ++ gs) = tokensOf fs
  opens : ∃ q, (trace text line 0 p₀ (text.take (start + 1))).1 = q
    ∧ q.Stands text line (start + 1) none start ∧ q.state.isIdle = false ∧ q.state ≠ .invalid

/-- The scanner has come to column `j` with `q` pending and `fs` reported, and the token that is
under way has begun. -/
structure StandsBegun (carry : Bool) (p₀ : Pending) (text : List Char) (line j : Nat) (q : Pending)
    (fs : List Finding) : Prop where
  trace_eq : trace text line 0 p₀ (text.take j) = (q, fs)
  begun : ∃ start, q.Stands text line j none start
    ∧ (q.state.isIdle = false → q.state ≠ .invalid → Begun carry p₀ text line start fs)

section Through

variable {carry : Bool} {p₀ q : Pending} {text : List Char} {line j k : Nat} {fs : List Finding}

theorem StandsBegun.step {c : Char} (h : StandsBegun carry p₀ text line j q fs)
    (hc : text[j]? = some c) :
    StandsBegun carry p₀ text line (j + 1) (step ⟨text.toArray, line, j⟩ q c).pending
      (fs ++ (step ⟨text.toArray, line, j⟩ q c).findings) := by
  obtain ⟨htrace, start, hstands, hbegun⟩ := h
  have hj : (text.take j).length = j := by
    have := hstands.le_length
    simp only [List.length_take]
    omega
  have hnext := trace_append text line (text.take j) [c] 0 p₀
  have htake : text.take (j + 1) = text.take j ++ [c] := by rw [List.take_add_one, hc]; rfl
  rw [htrace, Nat.zero_add, hj, ← htake] at hnext
  simp only [trace, List.append_nil] at hnext
  refine ⟨hnext, ?_⟩
  by_cases hopen : (ContractLex.step ⟨text.toArray, line, j⟩ q c).pending.state.isIdle = false
      ∧ (ContractLex.step ⟨text.toArray, line, j⟩ q c).pending.state ≠ .invalid
  · rcases step_opens carry hstands hc hopen.1 hopen.2 with
      ⟨hstay, hidle, hinvalid, htokens⟩ | ⟨hhere, gs, hfinish, htokens⟩
    · refine ⟨start, hstay, fun _ _ => ?_⟩
      obtain ⟨⟨gs, hfinish, heq⟩, hopens⟩ := hbegun hidle hinvalid
      exact ⟨⟨gs, hfinish, by rw [heq, tokensOf_append, htokens, List.append_nil]⟩, hopens⟩
    · refine ⟨j, hhere, fun _ _ => ⟨⟨gs, ?_, ?_⟩, _, ?_, hhere, hopen⟩⟩
      · rw [htrace]
        exact hfinish
      · rw [htrace, tokensOf_append, tokensOf_append, htokens]
      · rw [hnext]
  · obtain ⟨start', -, hstands'⟩ := step_tiles hstands hc
    exact ⟨start', hstands', fun hidle hinvalid => absurd ⟨hidle, hinvalid⟩ hopen⟩

/-- From a column `k` where nothing is pending, every token or comment that is under way at the end
of the text has begun. -/
theorem trace_begun (carry : Bool) (hk : k ≤ text.length)
    (hfront : trace text line 0 p₀ (text.take k) = ({}, fs)) :
    StandsBegun carry p₀ text line text.length (trace text line 0 p₀ text).1
      (trace text line 0 p₀ text).2 := by
  have hlen : k + (text.drop k).length = text.length := by
    rw [List.length_drop]
    omega
  have hinv := trace_induction text line (I := StandsBegun carry p₀ text line)
    (fun _ _ _ _ hc h => h.step hc) (text.drop k) k {} fs (List.prefix_refl _)
    ⟨hfront, k, stands_start line hk, fun hidle => Bool.noConfusion hidle⟩
  rw [hlen] at hinv
  have htrace := hinv.trace_eq
  rw [List.take_length] at htrace
  rwa [htrace]

end Through

end ContractLex
