import ContractLex.Proofs.Bounds

/-!
# The length of a lexeme

The length of the lexeme is counted apart from the lexeme, and it is the count that is compared with
the cap. `Pending.Fits` says that the count is right and within the cap. Every dispatch keeps this,
whatever it finds pending (`dispatch_fits`, from one lemma for each handler): a handler pushes at
most the character that it uses, and a full lexeme has been given up before. So no token that is
closed is too long, in a text and through all calls (`Lexer.Reachable.tokens_short`); only skipped
text, which is not taken from the lexeme, has no limit.
-/

namespace ContractLex

open Spelling

/-- The length of the lexeme is counted right, and it is at most that of a full lexeme. -/
structure Pending.Fits (p : Pending) : Prop where
  length_eq : p.length = p.lexeme.size
  length_le : p.length ≤ maxLexeme

/-- But for skipped text, a token is at most as long as a full lexeme. -/
def Token.Short (t : Token) : Prop := t.kind ≠ .unknown → t.text.toList.length ≤ maxLexeme

/-- What a move leaves pending fits, with room for the character that it hands on; and the tokens
that it reports fit. -/
structure Move.Fits (m : Move) : Prop where
  pending : m.pending.Fits
  room : m.used = false → m.pending.isFull = false
  tokens : ∀ t ∈ tokensOf m.findings, t.Short

section Fits

variable {p q : Pending} {s : Site} {c : Char} {st : State} {fs : List Finding} {n : Nat}

theorem short_of_nil (h : tokensOf fs = []) : ∀ t ∈ tokensOf fs, t.Short := by
  rw [h]
  exact List.forall_mem_nil _

theorem fits_empty (st : State) : ({ state := st } : Pending).Fits := ⟨rfl, Nat.zero_le _⟩

namespace Pending.Fits

theorem goto (h : p.Fits) (st : State) : (p.goto st).Fits := ⟨h.length_eq, h.length_le⟩

theorem push (h : p.Fits) (hp : p.length < maxLexeme) (c : Char) : (p.push c).Fits :=
  ⟨by simp [h.length_eq], hp⟩

theorem token (h : p.Fits) (s : Site) (k : Kind) (stop : Nat) :
    ∀ t ∈ tokensOf [p.token s k stop], t.Short := by
  intro t ht _
  obtain rfl := List.mem_singleton.mp ht
  simpa [Pending.word, h.length_eq] using h.length_le

end Pending.Fits

theorem short_skipped (p : Pending) (s : Site) (stop : Nat) :
    ∀ t ∈ tokensOf [p.skipped s stop], t.Short := by
  intro t ht hkind
  obtain rfl := List.mem_singleton.mp ht
  exact absurd rfl hkind

theorem short_firstOperator (h : p.Fits) (s : Site) (stop : Nat) :
    ∀ t ∈ tokensOf (p.firstOperator s stop), t.Short := by
  unfold Pending.firstOperator
  split
  · exact h.token s _ stop
  · exact short_of_nil rfl

/-- The parts of a word are no longer than the word. -/
theorem short_dashed (h : p.Fits) (s : Site) (stop : Nat) :
    ∀ t ∈ tokensOf (p.dashed s stop), t.Short := by
  have hpart : ∀ {part : List Char}, part.Sublist p.lexeme.toList → part.length ≤ maxLexeme :=
    fun hsub => Nat.le_trans hsub.length_le (by simpa [h.length_eq] using h.length_le)
  unfold Pending.dashed
  split
  · exact h.token s _ stop
  · dsimp only
    split
    · next hdash =>
      have hleft : (p.lexeme.toList.takeWhile (· != '-')).Sublist p.lexeme.toList :=
        List.takeWhile_sublist _
      have hminus : ['-'].Sublist p.lexeme.toList := by simpa using hdash
      have hright : ((p.lexeme.toList.dropWhile (· != '-')).drop 1).Sublist p.lexeme.toList :=
        (List.drop_sublist 1 _).trans (List.dropWhile_sublist _)
      intro t ht _
      obtain ⟨x, hx, heq⟩ := List.mem_map.mp (mem_tokensOf.mp ht)
      cases heq
      have hcases := (List.mem_filter.mp hx).1
      simp only [List.mem_cons, List.not_mem_nil, or_false] at hcases
      rw [String.toList_ofList]
      rcases hcases with rfl | rfl | rfl
      · exact hpart hleft
      · exact hpart hminus
      · exact hpart hright
    · intro t ht _
      obtain rfl := List.mem_singleton.mp ht
      simpa [Pending.word] using hpart (List.Sublist.refl _)

/-! ### One dispatch -/

theorem fits_use (hq : q.Fits) (hfs : ∀ t ∈ tokensOf fs, t.Short) : (Move.use q fs).Fits :=
  ⟨hq, nofun, hfs⟩

theorem fits_handOn (hq : q.Fits) (hroom : q.isFull = false) (hfs : ∀ t ∈ tokensOf fs, t.Short) :
    (Move.handOn q fs).Fits :=
  ⟨hq, fun _ => hroom, hfs⟩

theorem fits_ite {b : Prop} [Decidable b] {m m' : Move} (h : m.Fits) (h' : m'.Fits) :
    (if b then m else m').Fits := by
  split <;> assumption

/-- The character is used and nothing is pushed. -/
theorem fits_stay (hq : q.Fits) : (Move.use q).Fits := fits_use hq (short_of_nil rfl)

theorem fits_pass (hq : q.Fits) (hroom : q.length < maxLexeme) : (Move.handOn q).Fits :=
  fits_handOn hq (isFull_eq_false hroom) (short_of_nil rfl)

theorem fits_reject (h : p.Fits) (s : Site) (f : Fault) : (p.reject s f).Fits :=
  fits_handOn ⟨h.length_eq, h.length_le⟩ (by simp [Pending.isFull]) (short_of_nil rfl)

theorem fits_closeBefore (h : p.Fits) (s : Site) (k : Kind) : (p.closeBefore s k).Fits :=
  fits_handOn (fits_empty .start) rfl (h.token s k _)

theorem fits_closeOperator (h : p.Fits) (s : Site) : (p.closeOperator s).Fits :=
  fits_handOn (fits_empty .start) rfl (short_firstOperator h s _)

theorem tokensOf_lineBreakFault (p : Pending) (s : Site) (c : Char) :
    tokensOf (lineBreakFault p s c) = [] := by
  unfold lineBreakFault
  split <;> rfl

section Room

variable (h : p.Fits) (hp : p.length < maxLexeme) (s : Site) (c : Char)
include h hp

theorem fits_push (st : State) : (Move.use ((p.push c).goto st)).Fits :=
  fits_stay ((h.push hp c).goto st)

theorem fits_closeWith (k : Kind) : (p.closeWith s c k).Fits :=
  fits_use (fits_empty .start) ((h.push hp c).token s k _)

theorem fits_onStart : (onStart p s c).Fits := by
  let q : Pending := { p with opened := some s.position }
  have hopen : q.Fits := ⟨h.length_eq, h.length_le⟩
  have hpass : ∀ st, (Move.handOn (q.goto st)).Fits := fun st => fits_pass (hopen.goto st) hp
  exact fits_ite (fits_pass (h.goto _) hp) (fits_ite (hpass _) (fits_ite (hpass _)
    (fits_ite (hpass _) (fits_ite (fits_stay (hopen.goto _)) (fits_ite (fits_stay (hopen.goto _))
      (fits_reject hopen s _))))))

theorem fits_onDelimiter : (onDelimiter p s c).Fits := by
  unfold onDelimiter
  split
  · exact fits_ite (fits_closeWith h hp s c _) (fits_stay (fits_empty .start))
  · exact fits_stay (fits_empty .start)

theorem fits_onIdentifier : (onIdentifier p s c).Fits :=
  fits_ite (fits_stay (h.push hp c)) (fits_ite (fits_push h hp c _) (fits_closeBefore h s _))

theorem fits_onIdentifierDash : (onIdentifierDash p s c).Fits :=
  fits_ite (fits_stay (h.push hp c)) (fits_handOn (fits_empty .start) rfl (short_dashed h s _))

theorem fits_onNumber : (onNumber p s c).Fits :=
  fits_ite (fits_stay (h.push hp c))
    (fits_ite (fits_push h hp c _) (fits_ite (fits_closeBefore h s _) (fits_reject h s _)))

theorem fits_onDecimal : (onDecimal p s c).Fits :=
  fits_ite (fits_stay (h.push hp c)) (fits_ite (fits_pass (h.goto _) hp)
    (fits_ite (fits_ite (fits_reject h s _) (fits_closeBefore h s _)) (fits_reject h s _)))

theorem fits_onFloat : (onFloat p s c).Fits :=
  fits_use (fits_empty .expectDelimiter) ((h.push hp c).token s _ _)

theorem fits_pushQuoted (st : State) :
    (Move.use ((p.push c).goto st) (lineBreakFault p s c)).Fits :=
  fits_use ((h.push hp c).goto st) (short_of_nil (tokensOf_lineBreakFault p s c))

theorem fits_onCharOpen : (onCharOpen p s c).Fits :=
  fits_ite (fits_stay (h.goto _)) (fits_ite (fits_reject h s _) (fits_pushQuoted h hp s c _))

theorem fits_onCharEscape : (onCharEscape p s c).Fits := by
  unfold onCharEscape
  split
  · exact fits_push h hp _ _
  · exact fits_reject h s _

theorem fits_onString : (onString p s c).Fits :=
  fits_ite (fits_use (fits_empty .start) (h.token s _ _))
    (fits_ite (fits_stay (h.goto _)) (fits_pushQuoted h hp s c _))

theorem fits_onStringEscape : (onStringEscape p s c).Fits := by
  unfold onStringEscape
  split
  · exact fits_push h hp _ _
  · exact fits_reject h s _

theorem fits_onOperator : (onOperator p s c).Fits := by
  unfold onOperator
  split <;> first | exact fits_push h hp _ _ | exact fits_closeWith h hp s _ _

theorem fits_onBeforeEquals : (onBeforeEquals p s c).Fits := by
  refine fits_ite (fits_reject h s _) ?_
  split
  · exact fits_closeWith h hp s c _
  · exact fits_closeOperator h s

theorem fits_onDoubling : (onDoubling p s c).Fits := by
  refine fits_ite (fits_reject h s _) (fits_ite (fits_pass (h.goto _) hp) ?_)
  split
  · exact fits_closeWith h hp s _ _
  · exact fits_closeWith h hp s _ _
  · exact fits_closeOperator h s

theorem fits_onLogical : (onLogical p s c).Fits := by
  unfold onLogical
  split
  · exact fits_closeWith h hp s _ _
  · exact fits_closeWith h hp s _ _
  · exact fits_closeOperator h s

theorem fits_onMinus : (onMinus p s c).Fits := by
  unfold onMinus
  split
  · exact fits_pass (h.goto _) hp
  · exact fits_pass (h.goto _) hp
  · exact fits_closeWith h hp s _ _
  · exact fits_closeOperator h s

theorem fits_onLess : (onLess p s c).Fits := by
  unfold onLess
  split
  · exact fits_closeWith h hp s _ _
  · exact fits_closeWith h hp s _ _
  · exact fits_push h hp _ _
  · exact fits_closeOperator h s

theorem fits_onGreater : (onGreater p s c).Fits := by
  unfold onGreater
  split
  · exact fits_closeWith h hp s _ _
  · exact fits_closeWith h hp s _ _
  · exact fits_closeOperator h s

theorem fits_onSlash : (onSlash p s c).Fits := by
  unfold onSlash
  split
  · exact fits_stay ⟨rfl, Nat.zero_le _⟩
  · exact fits_stay ⟨rfl, Nat.zero_le _⟩
  · exact fits_pass (h.goto _) hp

end Room

/-- Where a full lexeme has been given up, no dispatch lets one grow past the cap. -/
theorem dispatch_fits (h : p.Fits) (hroom : p.isFull = false) (s : Site) (c : Char) :
    (dispatch p s c).Fits := by
  have hp : (p.state != .invalid && !p.state.isComment) = true → p.length < maxLexeme := by
    intro hcapped
    rw [Pending.isFull, Bool.and_assoc, hcapped] at hroom
    simpa using hroom
  cases hst : p.state <;> simp only [dispatch, hst] <;> rw [hst] at hp
  -- text that is skipped has no cap, but it is not pushed either
  case invalid =>
      exact fits_ite (fits_handOn (fits_empty .delimiter) rfl (short_skipped p s _)) (fits_stay h)
  case lineComment =>
      exact fits_ite (fits_use (fits_empty .start) (short_of_nil rfl)) (fits_stay h)
  case blockComment => exact fits_ite (fits_stay (h.goto _)) (fits_stay h)
  case blockCommentStar =>
      exact fits_ite (fits_use (fits_empty .start) (short_of_nil rfl))
        (fits_ite (fits_stay h) (fits_stay (h.goto _)))
  all_goals replace hp := hp rfl
  case start => exact fits_onStart h hp s c
  case delimiter => exact fits_onDelimiter h hp s c
  case expectDelimiter => exact fits_ite (fits_pass (h.goto _) hp) (fits_reject h s _)
  case identifier => exact fits_onIdentifier h hp s c
  case identifierDash => exact fits_onIdentifierDash h hp s c
  case number => exact fits_onNumber h hp s c
  case decimal => exact fits_onDecimal h hp s c
  case float => exact fits_onFloat h hp s c
  case charOpen => exact fits_onCharOpen h hp s c
  case charEscape => exact fits_onCharEscape h hp s c
  case charClose =>
      exact fits_ite (fits_use (fits_empty .start) (h.token s _ _)) (fits_reject h s _)
  case stringOpen | string => exact fits_onString h hp s c
  case stringEscape => exact fits_onStringEscape h hp s c
  case operator => exact fits_onOperator h hp s c
  case beforeEquals => exact fits_onBeforeEquals h hp s c
  case doubling => exact fits_onDoubling h hp s c
  case logical => exact fits_onLogical h hp s c
  case minus => exact fits_onMinus h hp s c
  case less => exact fits_onLess h hp s c
  case greater => exact fits_onGreater h hp s c
  case leftArrow => exact fits_ite (fits_closeWith h hp s c _) (fits_closeBefore h s _)
  case slash => exact fits_onSlash h hp s c

/-! ### A text, and a session -/

/-- A full lexeme is given up before a character is dispatched. -/
theorem Pending.Fits.entry (h : p.Fits) : p.entry.Fits ∧ p.entry.isFull = false := by
  unfold Pending.entry
  split
  · exact ⟨h.goto .invalid, by simp [Pending.isFull, Pending.goto]⟩
  · next hfull => exact ⟨h, by simpa using hfull⟩

theorem Passage.fits (hpass : Passage s c p n fs q) :
    p.Fits → p.isFull = false → q.Fits ∧ ∀ t ∈ tokensOf fs, t.Short := by
  induction hpass with
  | @use p hused =>
      intro h hroom
      have hmove := dispatch_fits h hroom s c
      exact ⟨hmove.pending, hmove.tokens⟩
  | @handOn p n fs q hused _ ih =>
      intro h hroom
      have hmove := dispatch_fits h hroom s c
      obtain ⟨hq, hfs⟩ := ih hmove.pending (hmove.room hused)
      refine ⟨hq, ?_⟩
      rw [tokensOf_append]
      exact List.forall_mem_append.mpr ⟨hmove.tokens, hfs⟩

theorem step_fits (h : p.Fits) (s : Site) (c : Char) :
    (step s p c).pending.Fits ∧ ∀ t ∈ tokensOf (step s p c).findings, t.Short := by
  obtain ⟨n, -, fs, q, hpass, hstep⟩ := exists_step s c p
  rw [hstep]
  simpa [Move.use] using hpass.fits h.entry.1 h.entry.2

theorem trace_fits (text : List Char) (line : Nat) (h : p.Fits) :
    (trace text line 0 p text).1.Fits ∧ ∀ t ∈ tokensOf (trace text line 0 p text).2, t.Short := by
  simpa using trace_induction text line
    (I := fun _ q fs => q.Fits ∧ ∀ t ∈ tokensOf fs, t.Short)
    (fun i q fs c _ ⟨hq, hfs⟩ => by
      obtain ⟨hnext, hfs'⟩ := step_fits hq ⟨text.toArray, line, i⟩ c
      rw [tokensOf_append]
      exact ⟨hnext, List.forall_mem_append.mpr ⟨hfs, hfs'⟩⟩)
    text 0 p [] (List.prefix_refl text) ⟨h, short_of_nil rfl⟩

/-- The end of a text closes tokens with the lexeme as it is. -/
theorem finish_short (h : p.Fits) (s : Site) (carry : Bool) :
    ∀ t ∈ tokensOf (p.finish s carry).findings, t.Short := by
  unfold Pending.finish
  cases p.state
  case identifier | number | float | leftArrow => exact h.token s _ _
  case identifierDash => exact short_dashed h s _
  case decimal =>
      dsimp only
      split
      · exact short_skipped p s _
      · exact h.token s _ _
  case operator | beforeEquals | doubling | logical | minus | less | greater | slash =>
      exact short_firstOperator h s _
  case invalid => exact short_skipped p s _
  case blockComment | blockCommentStar =>
      dsimp only
      split <;> exact short_of_nil rfl
  all_goals exact short_of_nil rfl

end Fits

namespace Lexer

variable {lx : Lexer} {b : Nat} {carry : Bool}

theorem fits_rests {p : Pending} (h : p.Rests carry b) : p.Fits := by
  rcases h with rfl | ⟨-, h⟩
  · exact fits_empty .start
  · exact ⟨by simp [h.length, h.lexeme], by simp [h.length]⟩

theorem feed_short (h : lx.pending.Rests lx.settings.carryComments b)
    (htokens : ∀ t ∈ lx.tokens.toList, t.Short) (text : String) (line : Nat) :
    ∀ t ∈ (lx.feed text line).1.tokens.toList, t.Short := by
  obtain ⟨hend, hfs⟩ := trace_fits text.toList line (fits_rests h)
  rw [feed_tokens, reading_eq_trace, tokensOf_append]
  exact List.forall_mem_append.mpr ⟨htokens, List.forall_mem_append.mpr
    ⟨hfs, finish_short hend _ _⟩⟩

/-- No call adds a token that is too long. -/
theorem Reachable.tokens_short (h : lx.Reachable) : ∀ t ∈ lx.tokens.toList, t.Short := by
  obtain ⟨settings, calls, rfl⟩ := h
  induction calls using List.reverseRecOn with
  | nil => exact List.forall_mem_nil _
  | append_singleton calls c ih =>
      obtain ⟨b, hrests⟩ := (show (({ settings } : Lexer).run calls).Reachable from
        ⟨settings, calls, rfl⟩).rests
      rw [run_concat]
      cases c with
      | feed text line => exact feed_short hrests ih text line
      | finish =>
          rcases finish_cases hrests with heq | ⟨o, -, -, heq⟩
          · rw [call, heq]
            exact ih
          · rw [call, heq]
            exact ih
      | reset | takeTokens => exact List.forall_mem_nil _
      | takeTrail => exact ih

end Lexer

end ContractLex
