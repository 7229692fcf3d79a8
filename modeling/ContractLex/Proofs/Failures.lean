import ContractLex.Proofs.Comment
import ContractLex.Proofs.Prefix

/-!
# What fails, and where

A text fails for one reason: a literal or comment is still open at its end. The error names the
column at which that began, and nothing found before it is lost, since the text up to that column is
accepted with the same tokens (`fails_of_error`, from what `Begun` says of every pending token).

If comments are carried, only `finish` can complain of one. `Opening` is the place among the texts
fed where a comment was opened; it is kept while the texts stay in the comment (`HeldIn.feed`) and
replaced when one opens another (`feedAll_concat_cases`). So `finish` fails exactly if some opening
is still open, and names its place (`finish_error_iff`).

Every error is reported as a diagnostic of its own, and no other diagnostic is of terminal kind
(`reading_terminals`); calls keep this account of their errors (`Accounts.collect`). `run_failures`
is the result for calls.
-/

namespace ContractLex

open Spelling

/-! ## The end of a text that fails -/

/-- What stands at the column that an error of a kind names. -/
def OpenedBy (text : List Char) (column : Nat) : DiagnosticKind → Prop
  | .unterminatedChar => text[column]? = some '\''
  | .unterminatedString => text[column]? = some '"'
  | .unterminatedBlockComment => text[column]? = some '/' ∧ text[column + 1]? = some '*'
  | _ => False

/-- The first `k` characters of a text. -/
def upTo (text : String) (k : Nat) : String := String.ofList (text.toList.take k)

section Finish

variable {text : List Char} {line start i k : Nat} {carry : Bool} {p : Pending} {c : Char}
  {error : LexError} {kind : DiagnosticKind}

theorem OpenedBy.lt_length (h : OpenedBy text start kind) : start < text.length := by
  cases kind <;> try exact h.elim
  · exact (List.getElem?_eq_some_iff.mp h).1
  · exact (List.getElem?_eq_some_iff.mp h).1
  · exact (List.getElem?_eq_some_iff.mp h.1).1

theorem getElem?_of_stretch (h : (stretch text start i)[k]? = some c) :
    text[start + k]? = some c := by
  rw [stretch, List.getElem?_take] at h
  split at h
  · rwa [List.getElem?_drop] at h
  · cases h

/-- A text that fails at its end fails where the pending literal or comment was opened. -/
theorem finish_error (h : p.Stands text line i none start)
    (herror : (p.finish ⟨text.toArray, line, i⟩ carry).result = .error error) :
    ∃ f : Fault, error = .terminal (f.diagnostic ⟨line, start⟩)
      ∧ p.finish ⟨text.toArray, line, i⟩ carry =
        ⟨{}, [.fault p.state (f.diagnostic ⟨line, start⟩)], .error error⟩
      ∧ OpenedBy text start f.kind
      ∧ (f.kind = .unterminatedBlockComment → carry = false)
      ∧ p.state.isIdle = false ∧ p.state ≠ .invalid := by
  obtain ⟨st, l, o, m⟩ := p
  have hopened : o = if st.isIdle then none else some ⟨line, start⟩ := h.opened
  subst hopened
  have hfirst : ∀ d w, stretch text start i = d :: w → text[start]? = some d := by
    intro d w hw
    exact getElem?_of_stretch (k := 0) (by rw [hw]; rfl)
  have hholds := h.holds
  cases st
  case charOpen =>
      cases herror
      exact ⟨.openChar, rfl, rfl, hfirst _ _ hholds.1, nofun, rfl, nofun⟩
  case charEscape =>
      cases herror
      exact ⟨.openCharEscape, rfl, rfl, hfirst _ _ hholds.1, nofun, rfl, nofun⟩
  case charClose =>
      cases herror
      obtain ⟨u, d, -, hw, -⟩ := hholds
      exact ⟨.openChar, rfl, rfl, hfirst _ _ hw, nofun, rfl, nofun⟩
  case stringOpen =>
      cases herror
      exact ⟨.openString, rfl, rfl, hfirst _ _ hholds.1, nofun, rfl, nofun⟩
  case string =>
      cases herror
      obtain ⟨body, -, hw⟩ := hholds
      exact ⟨.openString, rfl, rfl, hfirst _ _ hw, nofun, rfl, nofun⟩
  case stringEscape =>
      cases herror
      obtain ⟨body, -, hw⟩ := hholds
      exact ⟨.openStringEscape, rfl, rfl, hfirst _ _ hw, nofun, rfl, nofun⟩
  case blockComment | blockCommentStar =>
      cases carry with
      | true => cases herror
      | false =>
          cases herror
          obtain ⟨body, hw, -, -⟩ := h.inComment rfl
          have hsecond : text[start + 1]? = some '*' :=
            getElem?_of_stretch (by rw [hw]; rfl)
          exact ⟨.openComment, rfl, rfl, ⟨hfirst _ _ hw, hsecond⟩, fun _ => rfl, rfl, nofun⟩
  case decimal =>
      simp only [Pending.finish] at herror
      split at herror
      · cases herror
      · cases herror
  all_goals cases herror

end Finish

namespace Lexer

/-- A text fails with `d`: nothing is found after it, and the text up to where `d` stands is
accepted with the same tokens. -/
structure Fails (lx : Lexer) (text : String) (line : Nat) (d : Diagnostic) : Prop where
  isTerminal : d.kind.isTerminal = true
  line_eq : d.line = line
  opened : OpenedBy text.toList d.column d.kind
  carry : d.kind = .unterminatedBlockComment → lx.settings.carryComments = false
  readings : ∃ fs gs st,
    lx.reading text line = ⟨{}, fs ++ [.fault st d], .error (.terminal d)⟩
      ∧ lx.reading (upTo text d.column) line = ⟨{}, gs, .ok ()⟩ ∧ tokensOf gs = tokensOf fs

variable {lx : Lexer} {text : String} {line : Nat} {error : LexError}

theorem fails_of_error (hp : lx.pending = {})
    (herror : (lx.reading text line).result = .error error) :
    ∃ d, error = .terminal d ∧ lx.Fails text line d := by
  have hwhole : StandsBegun lx.settings.carryComments {} text.toList line text.toList.length
      (trace text.toList line 0 {} text.toList).1 (trace text.toList line 0 {} text.toList).2 :=
    trace_begun _ (Nat.zero_le _) rfl
  obtain ⟨-, start, hstands, hbegun⟩ := hwhole
  have hreading := lx.reading_eq_trace text line
  rw [hp] at hreading
  rw [hreading] at herror
  obtain ⟨f, rfl, hfinish, hopened, hcarry, hidle, hinvalid⟩ := finish_error hstands herror
  have hlt := hopened.lt_length
  obtain ⟨gs, hbefore, htokens⟩ := (hbegun hidle hinvalid).before
  have htake := lx.reading_take text line (Nat.le_of_lt hlt)
  simp only [hp, hbefore] at htake
  simp only [hfinish] at hreading
  refine ⟨f.diagnostic ⟨line, start⟩, rfl, ?_, rfl, hopened, hcarry, _, _, _, hreading, htake,
    htokens⟩
  show f.kind.isTerminal = true
  revert hopened
  cases f.kind <;> first | exact fun h => h.elim | exact fun _ => rfl

end Lexer

/-! ## The comment that is open -/

section Slash

variable {text : List Char} {line start i : Nat} {p : Pending} {st : State} {l : List Char}

/-- Only an operator begins with a slash. -/
theorem State.Holds.slash (h : st.Holds none ['/'] l) (hst : st ≠ .invalid) :
    st = .slash ∧ l = ['/'] := by
  cases st
  case slash => exact ⟨rfl, h.1⟩
  case invalid => exact absurd rfl hst
  case identifier =>
      obtain ⟨-, ⟨c, w, hw, hc, -⟩ | ⟨hw, -⟩⟩ := h
      · cases hw
        exact absurd hc (by decide)
      · cases hw
  case identifierDash =>
      obtain ⟨-, a, b, -, -, hw⟩ := h
      have hmem : '-' ∈ ['/'] := by simp [hw]
      exact absurd hmem (by decide)
  case number =>
      obtain ⟨-, ⟨-, hdigits⟩ | ⟨hw, -⟩⟩ := h
      · exact absurd (hdigits '/' (List.mem_singleton_self _)) (by decide)
      · cases hw
  case decimal =>
      obtain ⟨-, a, b, -, -, hw⟩ := h
      have hmem : '.' ∈ ['/'] := by simp [hw]
      exact absurd hmem (by decide)
  case beforeEquals =>
      obtain ⟨-, o, hw, ho | ⟨-, hc⟩ | ⟨-, c, hc, -⟩⟩ := h
      · cases hw
        exact absurd ho (by decide)
      · cases hc
      · cases hc
  all_goals simp [State.Holds] at h

/-- A slash and a star open a comment. -/
theorem step_slash_star (s : Site) (line start : Nat) :
    step s (.under .slash #['/'] line start) '*' = .use (.under .blockComment #[] line start) := rfl

/-- Where a block comment has begun, its opening leads into it. -/
theorem Begun.comment {p₀ : Pending} {fs : List Finding} {body : List Char} {carry : Bool}
    (h : Begun carry p₀ text line start fs) (hdrop : text.drop start = '/' :: '*' :: body) :
    (trace text line 0 p₀ (text.take (start + 2))).1 = .under .blockComment #[] line start := by
  obtain ⟨q, htrace, hstands, hidle, hinvalid⟩ := h.opens
  have hfirst : text[start]? = some '/' := by
    rw [← List.head?_drop, hdrop]
    rfl
  have hsecond : text[start + 1]? = some '*' := by
    rw [← List.head?_drop, ← List.tail_drop, hdrop]
    rfl
  have hholds := hstands.holds
  rw [stretch_one hfirst] at hholds
  obtain ⟨hst, hl⟩ := hholds.slash hinvalid
  have hq : q = .under .slash #['/'] line start := by
    rw [hstands.eq_under hidle, hst, Array.toList_inj.mp hl]
  have hlen : (text.take (start + 1)).length = start + 1 := by
    have := hstands.le_length
    simp only [List.length_take]
    omega
  have htake : text.take (start + 2) = text.take (start + 1) ++ ['*'] := by
    rw [List.take_add_one, hsecond]
    rfl
  rw [htake, trace_append, Nat.zero_add, hlen, htrace, hq]
  simp only [trace, step_slash_star, Move.use]

end Slash

namespace Lexer

/-- A text, fed to `lx`, opens a comment at a column, and `body` follows: up to that column the text
is accepted and leaves nothing open, and with the opening it ends in the comment. -/
structure Opens (lx : Lexer) (text : String) (line column : Nat) (body : List Char) : Prop where
  drop_eq : text.toList.drop column = '/' :: '*' :: body
  before_ok : (lx.feed (upTo text column) line).2 = .ok ()
  before_state : (lx.feed (upTo text column) line).1.state = .start
  opening_state : (lx.feed (upTo text (column + 2)) line).1.state = .blockComment

section Opens

variable {lx : Lexer} {text : String} {line column k : Nat} {body : List Char}
  {front : List Finding}

/-- A text in which nothing is pending at some column leaves nothing pending, or it leaves a comment
open that it has opened. -/
theorem feed_opens (hcarry : lx.settings.carryComments = true) (hk : k ≤ text.toList.length)
    (hfront : trace text.toList line 0 lx.pending (text.toList.take k) = ({}, front)) :
    (lx.feed text line).1.pending = {}
      ∨ ∃ column body, lx.Opens text line column body
        ∧ InComment body (lx.feed text line).1.pending
        ∧ (lx.feed text line).1.pending.opened = some ⟨line, column⟩
        ∧ (lx.feed text line).1.tokens = (lx.feed (upTo text column) line).1.tokens := by
  obtain ⟨-, start, hstands, hbegun⟩ := trace_begun true hk hfront
  have hreading := lx.reading_eq_trace text line
  rw [hcarry] at hreading
  cases hst : (trace text.toList line 0 lx.pending text.toList).1.state.isBlockComment with
  | false =>
      left
      rw [feed_pending, hreading]
      exact finish_pending true hst
  | true =>
      right
      obtain ⟨body, hw, hcomment, hopened⟩ := hstands.inComment hst
      rw [stretch_length] at hw
      have hlen := congrArg List.length hw
      simp only [List.length_drop, List.length_cons] at hlen
      have hbegun := hbegun hcomment.isIdle hcomment.ne_invalid
      obtain ⟨gs, hbefore, htokens⟩ := hbegun.before
      simp only [finish_carried hst] at hreading
      have htake := lx.reading_take text line (show start ≤ text.toList.length by omega)
      simp only [hcarry, hbefore] at htake
      have hopening := lx.reading_take text line (show start + 2 ≤ text.toList.length by omega)
      simp only [hcarry, hbegun.comment hw] at hopening
      refine ⟨start, body, ⟨hw, ?_, ?_, ?_⟩, ?_, ?_, ?_⟩
      · rw [feed_result, upTo, htake]
      · rw [state, feed_pending, upTo, htake]
      · rw [state, feed_pending, upTo, hopening]
        rfl
      · rw [feed_pending, hreading]
        exact hcomment
      · rw [feed_pending, hreading]
        exact hopened
      · refine Array.toList_inj.mp ?_
        rw [feed_tokens, feed_tokens, upTo, htake, hreading, List.append_nil, htokens]

/-- A text in a comment stays in it, as long as the comment is open, or goes on after its end. -/
theorem feed_inComment (line : Nat) (hcarry : lx.settings.carryComments = true)
    (h : InComment body lx.pending) (hopen : IsOpen (body ++ text.toList)) :
    InComment (body ++ text.toList) (lx.feed text line).1.pending
      ∧ (lx.feed text line).1.pending.opened = lx.pending.opened
      ∧ (lx.feed text line).1.tokens = lx.tokens := by
  have hnext := h.goto hopen
  have hreading := lx.reading_eq_trace text line
  simp only [h.trace_open hopen, hcarry, finish_carried hnext.isBlockComment] at hreading
  refine ⟨?_, ?_, ?_⟩
  · rw [feed_pending, hreading]
    exact hnext
  · rw [feed_pending, hreading]
    rfl
  · refine Array.toList_inj.mp ?_
    rw [feed_tokens, hreading]
    simp

end Opens

/-- Feeds texts, each with its line number, whether they are accepted or not. -/
def feedAll (lx : Lexer) (feeds : List (String × Nat)) : Lexer :=
  feeds.foldl (fun ly f => (ly.feed f.1 f.2).1) lx

end Lexer

/-- The opening of a block comment among texts that are fed: what was fed before, the text and the
column in it, what follows the opening there, and what was fed after. -/
structure Opening where
  before : List (String × Nat)
  text : String
  line : Nat
  column : Nat
  body : List Char
  after : List (String × Nat)

namespace Opening

/-- All that the comment has taken in. -/
def inside (x : Opening) : List Char := x.body ++ x.after.flatMap (·.1.toList)

/-- The comment is still open after `feeds`, and no token was found since it was opened. -/
structure OpenIn (lx : Lexer) (feeds : List (String × Nat)) (x : Opening) : Prop where
  feeds_eq : feeds = x.before ++ (x.text, x.line) :: x.after
  opens : (lx.feedAll x.before).Opens x.text x.line x.column x.body
  isOpen : IsOpen x.inside
  tokens_eq : (lx.feedAll feeds).tokens =
    ((lx.feedAll x.before).feed (upTo x.text x.column) x.line).1.tokens

/-- The comment is what is pending after `feeds`. -/
structure HeldIn (lx : Lexer) (feeds : List (String × Nat)) (x : Opening) : Prop
    extends x.OpenIn lx feeds where
  inComment : InComment x.inside (lx.feedAll feeds).pending
  opened : (lx.feedAll feeds).pending.opened = some ⟨x.line, x.column⟩

end Opening

section FeedAll

variable {lx : Lexer} {feeds : List (String × Nat)} {text : String} {line column : Nat}
  {x : Opening} {body : List Char}

namespace Lexer

theorem feedAll_concat (lx : Lexer) (feeds : List (String × Nat)) (text : String) (line : Nat) :
    lx.feedAll (feeds ++ [(text, line)]) = ((lx.feedAll feeds).feed text line).1 := by
  simp [feedAll]

theorem feedAll_settings (lx : Lexer) (feeds : List (String × Nat)) :
    (lx.feedAll feeds).settings = lx.settings := by
  induction feeds using List.reverseRecOn with
  | nil => rfl
  | append_singleton feeds f ih => rw [feedAll_concat, feed_settings, ih]

end Lexer

open Lexer

/-- A comment that one more text stays in. -/
theorem Opening.HeldIn.feed (h : x.HeldIn lx feeds) (hcarry : lx.settings.carryComments = true)
    (hopen : IsOpen (x.inside ++ text.toList)) :
    ({ x with after := x.after ++ [(text, line)] } : Opening).HeldIn lx
      (feeds ++ [(text, line)]) := by
  have hinside : ({ x with after := x.after ++ [(text, line)] } : Opening).inside =
      x.inside ++ text.toList := by simp [Opening.inside]
  rw [← feedAll_settings lx feeds] at hcarry
  obtain ⟨hnext, hopened, htokens⟩ := feed_inComment line hcarry h.inComment hopen
  refine ⟨⟨?_, h.opens, ?_, ?_⟩, ?_, ?_⟩
  · rw [h.feeds_eq, List.append_assoc]
    rfl
  · rwa [hinside]
  · rw [feedAll_concat, htokens, h.tokens_eq]
  · rw [feedAll_concat]
    rwa [hinside]
  · rw [feedAll_concat, hopened, h.opened]

/-- After one more text in which nothing is pending at some column. -/
theorem feedAll_concat_cases (hcarry : lx.settings.carryComments = true) {k : Nat}
    {front : List Finding} (hk : k ≤ text.toList.length)
    (hfront : trace text.toList line 0 (lx.feedAll feeds).pending (text.toList.take k) =
      ({}, front)) :
    (lx.feedAll (feeds ++ [(text, line)])).pending = {}
      ∨ ∃ x : Opening, x.HeldIn lx (feeds ++ [(text, line)]) := by
  rw [← feedAll_settings lx feeds] at hcarry
  rcases feed_opens hcarry hk hfront with hpending | ⟨column, body, hopens, hcomment, hrest⟩
  · rw [feedAll_concat]
    exact Or.inl hpending
  · refine Or.inr ⟨⟨feeds, text, line, column, body, []⟩, ⟨rfl, hopens, ?_, ?_⟩, ?_, ?_⟩
    · simpa [Opening.inside] using hcomment.isOpen
    · rw [feedAll_concat]
      exact hrest.2
    · rw [feedAll_concat]
      simpa [Opening.inside] using hcomment
    · rw [feedAll_concat]
      exact hrest.1

/-- After texts have been fed nothing is pending, or a comment is, and its opening is among them. -/
theorem feedAll_cases (hcarry : lx.settings.carryComments = true) (hp : lx.pending = {})
    (feeds : List (String × Nat)) :
    (lx.feedAll feeds).pending = {} ∨ ∃ x : Opening, x.HeldIn lx feeds := by
  induction feeds using List.reverseRecOn with
  | nil => exact Or.inl hp
  | append_singleton feeds f ih =>
      obtain ⟨text, line⟩ := f
      rcases ih with hpending | ⟨x, hheld⟩
      · exact feedAll_concat_cases hcarry (Nat.zero_le _) (by rw [hpending]; rfl)
      · by_cases hopen : IsOpen (x.inside ++ text.toList)
        · exact Or.inr ⟨_, hheld.feed hcarry hopen⟩
        · obtain ⟨k, hk, hfront⟩ := hheld.inComment.front hopen line
          exact feedAll_concat_cases hcarry hk hfront

/-- The last character of a comment that runs to the end of a text, unless it is its opening. -/
theorem last_of_drop {text : List Char} {start : Nat}
    (hw : text.drop start = '/' :: '*' :: body) (hlast : text.getLast? = some '*') :
    body = [] ∨ body.getLast? = some '*' := by
  have hne : ¬ text.length ≤ start := by
    intro hle
    rw [List.drop_eq_nil_of_le hle] at hw
    cases hw
  have heq := congrArg List.getLast? hw
  rw [List.getLast?_drop, if_neg hne, hlast] at heq
  rcases List.eq_nil_or_concat body with rfl | ⟨front, d, rfl⟩
  · exact Or.inl rfl
  · right
    rw [List.concat_eq_append, ← List.cons_append, ← List.cons_append, List.getLast?_concat] at *
    exact heq.symm

/-- A text that ends in a comment right after a star has opened the comment with it. -/
theorem eq_of_blockComment {text : List Char} {p q : Pending} {front : List Char}
    (hp : p = {} ∨ ∃ b, InComment b p) (htext : text = front ++ ['/', '*'])
    (hq : (trace text line 0 p text).1 = q) (hst : q.state = .blockComment) :
    InComment [] q ∧ q.opened = some ⟨line, front.length⟩ := by
  have hlast : text.getLast? = some '*' := by simp [htext]
  have hfront : ∃ k found, k ≤ text.length ∧ trace text line 0 p (text.take k) = ({}, found) := by
    rcases hp with rfl | ⟨b, hcomment⟩
    · exact ⟨0, [], Nat.zero_le _, rfl⟩
    · by_cases hopen : IsOpen (b ++ text)
      · rw [hcomment.trace_open hopen] at hq
        subst hq
        have hstar : (b ++ text).getLast? = some '*' := by simp [hlast]
        rw [Pending.goto, commentState, if_pos hstar] at hst
        cases hst
      · obtain ⟨k, hk, hfound⟩ := hcomment.front hopen line
        exact ⟨k, _, hk, hfound⟩
  obtain ⟨k, found, hk, hfound⟩ := hfront
  obtain ⟨-, start, hstands, -⟩ := trace_begun true hk hfound
  rw [hq] at hstands
  obtain ⟨body, hw, hcomment, hopened⟩ := hstands.inComment (by rw [hst]; rfl)
  rw [stretch_length] at hw
  rcases last_of_drop hw hlast with rfl | hbody
  case inr =>
    have hstate := hcomment.state_eq
    rw [hst, commentState, if_pos hbody] at hstate
    cases hstate
  have hlen := congrArg List.length hw
  rw [List.length_drop, htext] at hlen
  simp only [List.length_append, List.length_cons, List.length_nil] at hlen
  obtain rfl : start = front.length := by omega
  exact ⟨hcomment, hopened⟩

/-- With its opening read, a comment that a text opens is what is pending. -/
theorem Lexer.Opens.trace_opening (h : lx.Opens text line column body)
    (hcarry : lx.settings.carryComments = true)
    (hp : lx.pending = {} ∨ ∃ b, InComment b lx.pending) :
    ∃ q fs, trace text.toList line 0 lx.pending (text.toList.take (column + 2)) = (q, fs)
      ∧ InComment [] q ∧ q.opened = some ⟨line, column⟩ := by
  have hlt : column + 2 ≤ text.toList.length := by
    have hlen := congrArg List.length h.drop_eq
    simp only [List.length_drop, List.length_cons] at hlen
    omega
  have htake : text.toList.take (column + 2) = text.toList.take column ++ ['/', '*'] := by
    rw [List.take_add, h.drop_eq]
    rfl
  have hpart : trace (text.toList.take (column + 2)) line 0 lx.pending
        (text.toList.take (column + 2)) =
      trace text.toList line 0 lx.pending (text.toList.take (column + 2)) :=
    trace_take line hlt _ (by rw [List.length_take]; omega)
  have hstate := h.opening_state
  have hreading := lx.reading_take text line hlt
  rcases htrace : trace text.toList line 0 lx.pending (text.toList.take (column + 2)) with ⟨q, fs⟩
  rw [htrace] at hpart
  simp only [htrace, hcarry] at hreading
  rw [state, feed_pending, upTo, hreading] at hstate
  have hblock : q.state.isBlockComment = true := by
    by_contra hne
    simp only [finish_pending true (Bool.eq_false_iff.mpr hne)] at hstate
    cases hstate
  simp only [finish_carried hblock] at hstate
  obtain ⟨hcomment, hopened⟩ := eq_of_blockComment hp htake (by rw [hpart]) hstate
  refine ⟨q, fs, rfl, hcomment, ?_⟩
  rw [hopened, List.length_take, Nat.min_eq_left (by omega)]

/-- A comment that a text opens, and that is open still, is what is pending after it. -/
theorem Lexer.Opens.held (h : lx.Opens text line column body)
    (hcarry : lx.settings.carryComments = true)
    (hp : lx.pending = {} ∨ ∃ b, InComment b lx.pending) (hopen : IsOpen body) :
    InComment body (lx.feed text line).1.pending
      ∧ (lx.feed text line).1.pending.opened = some ⟨line, column⟩ := by
  obtain ⟨q, fs, htrace, hcomment, hopened⟩ := h.trace_opening hcarry hp
  have hsplit : text.toList = text.toList.take (column + 2) ++ body := by
    conv_lhs => rw [← List.take_append_drop (column + 2) text.toList, ← List.drop_drop, h.drop_eq]
    rfl
  have hnext := hcomment.goto (show IsOpen ([] ++ body) from hopen)
  have hwhole := trace_append text.toList line (text.toList.take (column + 2)) body 0 lx.pending
  rw [← hsplit, htrace, hcomment.trace_open hopen] at hwhole
  have hreading := lx.reading_eq_trace text line
  simp only [hwhole, hcarry, finish_carried hnext.isBlockComment] at hreading
  rw [feed_pending, hreading]
  exact ⟨hnext, hopened⟩

/-- A comment that one text opens and that is open still is pending after the texts fed since. -/
theorem Lexer.Opens.held_after {before : List (String × Nat)}
    (h : (lx.feedAll before).Opens text line column body)
    (hcarry : lx.settings.carryComments = true)
    (hp : (lx.feedAll before).pending = {} ∨ ∃ b, InComment b (lx.feedAll before).pending)
    (after : List (String × Nat)) (hopen : IsOpen (body ++ after.flatMap (·.1.toList))) :
    InComment (body ++ after.flatMap (·.1.toList))
        (lx.feedAll (before ++ (text, line) :: after)).pending
      ∧ (lx.feedAll (before ++ (text, line) :: after)).pending.opened = some ⟨line, column⟩ := by
  induction after using List.reverseRecOn with
  | nil =>
      rw [List.flatMap_nil, List.append_nil] at hopen ⊢
      rw [feedAll_concat]
      rw [← feedAll_settings lx before] at hcarry
      exact h.held hcarry hp hopen
  | append_singleton after f ih =>
      obtain ⟨next, n⟩ := f
      have hsplit : body ++ (after ++ [(next, n)]).flatMap (·.1.toList) =
          body ++ after.flatMap (·.1.toList) ++ next.toList := by simp
      have hlist : before ++ (text, line) :: (after ++ [(next, n)]) =
          before ++ (text, line) :: after ++ [(next, n)] := by simp
      rw [hsplit] at hopen ⊢
      rw [hlist, feedAll_concat]
      rw [← feedAll_settings lx (before ++ (text, line) :: after)] at hcarry
      obtain ⟨hcomment, hopened⟩ := ih (isOpen_append.mp hopen).1
      obtain ⟨hnext, hopened', -⟩ := feed_inComment n hcarry hcomment hopen
      exact ⟨hnext, hopened'.trans hopened⟩

/-- An opening among the texts is that of the comment that is pending. -/
theorem Opening.OpenIn.held (h : x.OpenIn lx feeds) (hcarry : lx.settings.carryComments = true)
    (hp : lx.pending = {}) : x.HeldIn lx feeds := by
  have hbefore : (lx.feedAll x.before).pending = {}
      ∨ ∃ b, InComment b (lx.feedAll x.before).pending := by
    rcases feedAll_cases hcarry hp x.before with hpending | ⟨y, hheld⟩
    · exact Or.inl hpending
    · exact Or.inr ⟨_, hheld.inComment⟩
  obtain ⟨hcomment, hopened⟩ := h.opens.held_after hcarry hbefore x.after h.isOpen
  rw [← h.feeds_eq] at hcomment hopened
  exact ⟨h, hcomment, hopened⟩

/-- After texts have been fed, `finish` fails exactly if a comment is open, and names where it was
opened. -/
theorem finish_error_iff (hcarry : lx.settings.carryComments = true) (hp : lx.pending = {})
    (feeds : List (String × Nat)) (error : LexError) :
    (lx.feedAll feeds).finish.2 = .error error ↔
      ∃ x : Opening, x.OpenIn lx feeds
        ∧ error = .terminal (Fault.openComment.diagnostic ⟨x.line, x.column⟩) := by
  have hheld : ∀ x : Opening, x.HeldIn lx feeds → (lx.feedAll feeds).finish.2 =
      .error (.terminal (Fault.openComment.diagnostic ⟨x.line, x.column⟩)) := by
    intro x h
    have hst : (lx.feedAll feeds).state.isBlockComment = true := h.inComment.isBlockComment
    rw [finish, if_pos hst]
    simp only [Pending.terminate, h.opened, Option.getD_some]
  constructor
  · intro herror
    rcases feedAll_cases hcarry hp feeds with hpending | ⟨x, h⟩
    · rw [finish, state, hpending] at herror
      cases herror
    · rw [hheld x h] at herror
      cases herror
      exact ⟨x, h.toOpenIn, rfl⟩
  · rintro ⟨x, h, rfl⟩
    exact hheld x (h.held hcarry hp)

end FeedAll

/-! ## The errors of a run -/

/-- The diagnostics among findings that end a call. -/
def terminalsOf (fs : List Finding) : List Diagnostic :=
  (diagnosticsOf fs).filter (·.kind.isTerminal)

section Terminals

variable {text : List Char} {line i j : Nat} {fs gs : List Finding}

@[simp] theorem terminalsOf_append : terminalsOf (fs ++ gs) = terminalsOf fs ++ terminalsOf gs := by
  simp [terminalsOf]

theorem Piece.terminalsOf_eq (h : Piece text line i fs j) : terminalsOf fs = [] := by
  cases h with
  | fault _ _ hkind => simp [terminalsOf, hkind]
  | blank | comment | token => rfl
  | split => rw [terminalsOf, diagnosticsOf_map_token]; rfl

theorem Tiles.terminalsOf_eq (h : Tiles text line i fs j) : terminalsOf fs = [] := by
  induction h with
  | nil => rfl
  | cons hp _ ih => rw [terminalsOf_append, hp.terminalsOf_eq, ih, List.append_nil]

/-- A text ends with the error that it reports last, or with none. -/
theorem Ends.terminalsOf_eq {carry : Bool} {p : Pending} {e : Ending}
    (h : Ends text line carry p i e) :
    (terminalsOf e.findings).map LexError.terminal = errorsOf e.result := by
  cases h with
  | settled htiles => rw [htiles.terminalsOf_eq]; rfl
  | cut | carried => rfl
  | @terminal f hf =>
      have hkind : (f.diagnostic ⟨line, i⟩).kind.isTerminal = true := hf
      simp [terminalsOf, hkind, errorsOf]

theorem Lexer.reading_terminals {lx : Lexer} {b : Nat} (text : String) (line : Nat)
    (h : lx.pending.Rests lx.settings.carryComments b) :
    (terminalsOf (lx.reading text line).findings).map LexError.terminal =
      errorsOf (lx.reading text line).result := by
  rcases Lexer.reading_tiles text line h with
    ⟨st, -, -, -, heq⟩ | ⟨k, front, fs, start, p, e, hfront, htiles, -, hends, heq⟩
  · rw [heq]
    rfl
  · have hnone : terminalsOf front = [] := by rcases hfront with rfl | ⟨-, rfl⟩ <;> rfl
    rw [heq, terminalsOf_append, terminalsOf_append, hnone, htiles.terminalsOf_eq, List.nil_append,
      List.nil_append, hends.terminalsOf_eq]

end Terminals

namespace Lexer

/-- Makes a call, and adds its error to those returned since the lexer was made or reset. -/
def collect (r : Lexer × List LexError) (c : Call) : Lexer × List LexError :=
  ((r.1.call c).1, if c = .reset then [] else r.2 ++ errorsOf (r.1.call c).2)

/-- The errors that calls return, those since the last reset. -/
def errors (lx : Lexer) (calls : List Call) : List LexError := (calls.foldl collect (lx, [])).2

/-- Every error has been reported as a diagnostic of its own, and there is no other diagnostic of
terminal kind; the first diagnostics have been kept. -/
structure Accounts (lx : Lexer) (errors : List LexError) : Prop where
  diagnostics : ∃ ds : List Diagnostic, lx.diagnostics.toList = ds.take maxDiagnostics
    ∧ lx.metrics.diagnostics = ds.length
    ∧ errors = (ds.filter (·.kind.isTerminal)).map LexError.terminal

section Accounts

variable {lx ly : Lexer} {errors : List LexError} {b : Nat}

theorem Accounts.add (h : lx.Accounts errors) {fs : List Finding}
    (hkept : ly.diagnostics.toList = lx.diagnostics.toList
      ++ (diagnosticsOf fs).take (maxDiagnostics - lx.diagnostics.size))
    (hcount : ly.metrics.diagnostics = lx.metrics.diagnostics + (diagnosticsOf fs).length) :
    ly.Accounts (errors ++ (terminalsOf fs).map LexError.terminal) := by
  obtain ⟨ds, hds, hlen, rfl⟩ := h.diagnostics
  refine ⟨ds ++ diagnosticsOf fs, ?_, ?_, ?_⟩
  · exact hkept.trans (kept_append hds _)
  · rw [hcount, hlen, List.length_append]
  · rw [List.filter_append, List.map_append]
    rfl

theorem Accounts.absorb (h : lx.Accounts errors) (fs : List Finding) :
    (fs.foldl absorb { lx with pending := {} }).Accounts
      (errors ++ (terminalsOf fs).map LexError.terminal) :=
  h.add (foldl_absorb_diagnostics fs _) (foldl_absorb_diagnosticCount fs _)

theorem Accounts.collect (h : lx.Accounts errors)
    (hrests : lx.pending.Rests lx.settings.carryComments b) (c : Call) :
    (collect (lx, errors) c).1.Accounts (collect (lx, errors) c).2 := by
  cases c with
  | feed text line =>
      have hnext := h.add (lx.feed_diagnostics text line) (lx.feed_diagnosticCount text line)
      rw [reading_terminals text line hrests, ← feed_result] at hnext
      exact hnext
  | finish =>
      rcases finish_cases hrests with heq | ⟨o, -, -, heq⟩
      · simp only [Lexer.collect, call, heq, reduceCtorEq, if_false, errorsOf, List.append_nil]
        exact h
      · have hnext := h.absorb [.fault lx.state (Fault.openComment.diagnostic o)]
        simp only [Lexer.collect, call, heq, reduceCtorEq, if_false, errorsOf]
        exact hnext
  | reset => exact ⟨[], rfl, rfl, rfl⟩
  | takeTokens | takeTrail =>
      simp only [Lexer.collect, call, reduceCtorEq, if_false, errorsOf, List.append_nil]
      exact ⟨h.diagnostics⟩

theorem foldl_collect (settings : LexicalSettings) (calls : List Call) :
    (calls.foldl collect ({ settings }, [])).1 = ({ settings } : Lexer).run calls := by
  induction calls using List.reverseRecOn with
  | nil => rfl
  | append_singleton calls c ih =>
      rw [List.foldl_append, run_concat, ← ih]
      rfl

/-- Calls keep the account of their errors. -/
theorem run_accounts (settings : LexicalSettings) (calls : List Call) :
    (({ settings } : Lexer).run calls).Accounts (({ settings } : Lexer).errors calls) := by
  induction calls using List.reverseRecOn with
  | nil => exact ⟨[], rfl, rfl, rfl⟩
  | append_singleton calls c ih =>
      obtain ⟨b, hrests⟩ := (show (({ settings } : Lexer).run calls).Reachable from
        ⟨settings, calls, rfl⟩).rests
      have hnext := ih.collect hrests c
      rw [errors, List.foldl_append, run_concat]
      rw [errors, ← foldl_collect] at hnext
      rwa [← foldl_collect]

end Accounts

/-- A failing call: the error names where the literal or comment begins that is open at the end of
the text; up to there the text is accepted with the same tokens; the error is the last diagnostic
that the call adds, and nothing is left pending. -/
structure Localizes (lx : Lexer) (text : String) (line : Nat) (d : Diagnostic) : Prop where
  line_eq : d.line = line
  column_lt : d.column < text.toList.length
  opened : OpenedBy text.toList d.column d.kind
  carry : d.kind = .unterminatedBlockComment → lx.settings.carryComments = false
  before_ok : (lx.feed (upTo text d.column) line).2 = .ok ()
  before_tokens : (lx.feed (upTo text d.column) line).1.tokens = (lx.feed text line).1.tokens
  last : ∃ ds, (lx.feed text line).1.diagnostics.toList =
      lx.diagnostics.toList ++ (ds ++ [d]).take (maxDiagnostics - lx.diagnostics.size)
    ∧ (lx.feed text line).1.metrics.diagnostics = lx.metrics.diagnostics + (ds ++ [d]).length
  pending_eq : (lx.feed text line).1.pending = {}

theorem Fails.localizes {lx : Lexer} {text : String} {line : Nat} {d : Diagnostic}
    (h : lx.Fails text line d) : lx.Localizes text line d := by
  obtain ⟨fs, gs, st, hreading, hbefore, htokens⟩ := h.readings
  have hdiagnostics : diagnosticsOf (fs ++ [.fault st d]) = diagnosticsOf fs ++ [d] := by simp
  refine ⟨h.line_eq, h.opened.lt_length, h.opened, h.carry, ?_, ?_, ⟨diagnosticsOf fs, ?_, ?_⟩, ?_⟩
  · rw [feed_result, hbefore]
  · refine Array.toList_inj.mp ?_
    rw [feed_tokens, feed_tokens, hbefore, hreading, htokens]
    simp
  · rw [feed_diagnostics, hreading, hdiagnostics]
  · rw [feed_diagnosticCount, hreading, hdiagnostics]
  · rw [feed_pending, hreading]

/-- Errors, after any calls: where a failing text went wrong, what `finish` complains of, and that
the errors which were returned are the diagnostics of terminal kind. -/
theorem run_failures (settings : LexicalSettings) (calls : List Call) :
    let lx := ({ settings } : Lexer).run calls
    (lx.state = .start → ∀ (text : String) (line : Nat) (error : LexError),
      (lx.feed text line).2 = .error error →
        ∃ d, error = .terminal d ∧ lx.Localizes text line d)
    ∧ (settings.carryComments = true → lx.state = .start → ∀ feeds : List (String × Nat),
      ((∃ error, (lx.feedAll feeds).finish.2 = .error error) ↔
        (lx.feedAll feeds).state.isBlockComment = true)
      ∧ ∀ error, (lx.feedAll feeds).finish.2 = .error error ↔
        ∃ x : Opening, x.OpenIn lx feeds
          ∧ error = .terminal (Fault.openComment.diagnostic ⟨x.line, x.column⟩))
    ∧ (lx.metrics.diagnostics ≤ maxDiagnostics →
      ({ settings } : Lexer).errors calls =
        (lx.diagnostics.toList.filter (·.kind.isTerminal)).map LexError.terminal) := by
  intro lx
  have hreach : lx.Reachable := ⟨settings, calls, rfl⟩
  have hsettings : lx.settings = settings := run_settings { settings } calls
  refine ⟨?_, ?_, ?_⟩
  · intro hstart text line error herror
    rw [feed_result] at herror
    obtain ⟨d, heq, hfails⟩ := fails_of_error (hreach.pending_eq hstart) herror
    exact ⟨d, heq, hfails.localizes⟩
  · intro hcarry hstart feeds
    rw [← hsettings] at hcarry
    refine ⟨?_, finish_error_iff hcarry (hreach.pending_eq hstart) feeds⟩
    unfold finish
    split
    · next hst => simp [hst, Pending.terminate]
    · next hst => simp [hst]
  · intro hroom
    obtain ⟨ds, hds, hlen, herrors⟩ := (run_accounts settings calls).diagnostics
    have hkept : lx.diagnostics.toList = ds := by
      have hle : ds.length ≤ maxDiagnostics := by
        rw [← hlen]
        exact hroom
      exact hds.trans (List.take_of_length_le hle)
    rw [herrors, hkept]

/-- A comment that may not be carried, after a literal that failed; the same comment carried on; and
the errors of two calls. -/
theorem run_failures_comment :
    (∃ d, (({ settings := {} } : Lexer).run [.feed "'x" 1]).Localizes "a /* b" 2 d)
      ∧ (∃ x : Opening, x.OpenIn (({ settings := { carryComments := true } } : Lexer).run [])
        [("a /* b", 1), ("c", 2)])
      ∧ ({ settings := {} } : Lexer).errors [.feed "'x" 1, .feed "\"y" 2] =
        ((({ settings := {} } : Lexer).run [.feed "'x" 1, .feed "\"y" 2]).diagnostics.toList.filter
          (·.kind.isTerminal)).map LexError.terminal := by
  refine ⟨?_, ?_, ?_⟩
  · obtain ⟨d, -, hd⟩ := (run_failures {} [.feed "'x" 1]).1 rfl "a /* b" 2 _ rfl
    exact ⟨d, hd⟩
  · have hcarried := (run_failures { carryComments := true } []).2.1 rfl rfl
      [("a /* b", 1), ("c", 2)]
    obtain ⟨x, hx, -⟩ := (hcarried.2 _).mp rfl
    exact ⟨x, hx⟩
  · exact (run_failures {} [.feed "'x" 1, .feed "\"y" 2]).2.2 (by decide)

end Lexer

end ContractLex
