import ContractLex.Log.Journal
import ContractLex.Proofs.ReadOn
import ContractLex.SourceFile

/-!
# Without lines

Which line a text is numbered, what is counted and what is logged make no difference to what is
read. `unlined` erases lines. Two lexers are `Alike` if they hold the same but for lines, counts and
what the log has not heard; whatever is asked of both, the answers are the same without lines, and
they are alike again (`Alike.serve`).

The scanner does compare lines: a token begins where its start says only if the start is on the line
at hand. But a start is on another line only in a comment that was carried, and of a comment comes
no token. So nothing is pending, and the text is read as the same text on another line
(`readOn_line`), or a comment is, and both texts close it at the same column (`readOn_unlined`).

`Heard` puts a lexer beside the journal that hears it. What the journal holds, and when a service is
installed in it, has no way back to the lexer (`Heard.run_serves`).
-/

namespace ContractLex

/-! ## Erasing lines -/

def Position.unlined (p : Position) : Position := { p with line := 0 }

def Token.unlined (t : Token) : Token := { t with line := 0 }

def Diagnostic.unlined (x : Diagnostic) : Diagnostic := { x with line := 0 }

def LexError.unlined : LexError → LexError
  | .terminal x => .terminal x.unlined
  | .handOverLimit st c p => .handOverLimit st c p.unlined

def Finding.unlined : Finding → Finding
  | .token t => .token t.unlined
  | .fault st x => .fault st x.unlined
  | .comment => .comment

def Pending.unlined (p : Pending) : Pending :=
  { p with opened := p.opened.map Position.unlined }

def Ending.unlined (e : Ending) : Ending :=
  ⟨e.pending.unlined, e.findings.map Finding.unlined, e.result.mapError LexError.unlined⟩

section Unlined

variable {line : Nat} {fs : List Finding} {p p' : Pending} {e : Ending}

theorem Finding.unlined_moved (f : Finding) : (f.moved line 0).unlined = f.unlined := by
  cases f <;> rfl

theorem Pending.unlined_moved : (p.moved line 0).unlined = p.unlined := by
  obtain ⟨st, l, o, m⟩ := p
  cases o <;> rfl

theorem Ending.unlined_moved : (e.moved line 0).unlined = e.unlined := by
  obtain ⟨p, fs, r⟩ := e
  have hfindings :
      (fs.map (Finding.moved line 0)).map Finding.unlined = fs.map Finding.unlined := by
    rw [List.map_map]
    exact List.map_congr_left fun f _ => f.unlined_moved
  have hresult : (r.mapError (LexError.moved line 0)).mapError LexError.unlined =
      r.mapError LexError.unlined := by
    cases r with
    | ok => rfl
    | error error => cases error <;> rfl
  simp only [Ending.unlined, Ending.moved, Pending.unlined_moved, hfindings, hresult]

theorem Ending.unlined_after :
    (e.after fs).unlined = e.unlined.after (fs.map Finding.unlined) := by
  simp [Ending.unlined, Ending.after]

theorem Finding.unlined_eq : Finding.unlined = Finding.moved 0 0 := by
  funext f
  cases f <;> rfl

theorem tokensOf_unlined (fs : List Finding) :
    tokensOf (fs.map Finding.unlined) = (tokensOf fs).map Token.unlined := by
  rw [Finding.unlined_eq, tokensOf_moved]
  rfl

theorem diagnosticsOf_unlined (fs : List Finding) :
    diagnosticsOf (fs.map Finding.unlined) = (diagnosticsOf fs).map Diagnostic.unlined := by
  rw [Finding.unlined_eq, diagnosticsOf_moved]
  rfl

theorem state_eq_of_unlined (h : p.unlined = p'.unlined) : p.state = p'.state :=
  (Pending.mk.inj h).1

theorem eq_start_of_unlined (h : ({} : Pending).unlined = p.unlined) : p = {} := by
  obtain ⟨st, l, o, m⟩ := p
  obtain ⟨rfl, rfl, ho, rfl⟩ := Pending.mk.inj h
  cases o with
  | none => rfl
  | some => cases ho

theorem InComment.of_unlined {body : List Char} (hp : InComment body p)
    (h : p.unlined = p'.unlined) : InComment body p' :=
  ⟨(state_eq_of_unlined h).symm.trans hp.state_eq, (Pending.mk.inj h).2.1.symm.trans hp.lexeme,
    hp.isOpen⟩

end Unlined

/-! ## One text -/

section Text

variable {text : List Char} {i b : Nat} {carry : Bool} {p p' : Pending}

/-- Where nothing is pending, a text is read on another line as it is on this one. -/
theorem readOn_line (hi : i ≤ text.length) (line line' : Nat) (carry : Bool) :
    readOn text line' carry i {} = (readOn text line carry i {}).moved line' 0 :=
  readOn_moved ⟨[], [], by simp, rfl⟩ rfl line' (stands_start line hi)

theorem Pending.Carried.inComment (h : p.Carried b) : ∃ body, InComment body p := by
  have hopen : IsOpen [] := by simp [IsOpen]
  rcases State.eq_of_isBlockComment h.state with hst | hst
  · exact ⟨[], hst, h.lexeme, hopen⟩
  · exact ⟨['*'], hst, h.lexeme, isOpen_singleton '*'⟩

/-- A text is read the same on any line, whatever line its comment comes from. -/
theorem readOn_unlined (hp : p.Rests carry b) (h : p.unlined = p'.unlined) (text : List Char)
    (line line' : Nat) :
    (readOn text line carry 0 p).unlined = (readOn text line' carry 0 p').unlined := by
  rcases hp with rfl | ⟨rfl, hcarried⟩
  · rw [eq_start_of_unlined h, readOn_line (Nat.zero_le _) line line', Ending.unlined_moved]
  · obtain ⟨body, hcomment⟩ := hcarried.inComment
    -- Where a comment ends depends on what it has taken in, and that is the same in both.
    have hcomment' := hcomment.of_unlined h
    by_cases hopen : IsOpen (body ++ text)
    · have hgoto : (p.goto (commentState (body ++ text))).unlined =
          (p'.goto (commentState (body ++ text))).unlined :=
        congrArg (Pending.goto · (commentState (body ++ text))) h
      have hst := isBlockComment_commentState (body ++ text)
      rw [hcomment.readOn_open List.drop_zero hopen, hcomment'.readOn_open List.drop_zero hopen,
        finish_carried hst, finish_carried hst, Ending.unlined, Ending.unlined, hgoto]
    · obtain ⟨head, tail, rfl, hhead, hlast⟩ := exists_close hcomment.isOpen hopen
      have hpre : head ++ ['/'] <+: (head ++ '/' :: tail).drop 0 := ⟨tail, by simp⟩
      have hle : 0 + (head.length + 1) ≤ (head ++ '/' :: tail).length := by simp
      rw [hcomment.readOn_close hpre hhead hlast, hcomment'.readOn_close hpre hhead hlast,
        readOn_line hle line line', Ending.unlined_after, Ending.unlined_after,
        Ending.unlined_moved]

end Text

/-! ## Two lexers -/

namespace Lexer

/-- The same answer with all lines erased. -/
def Answer.unlined (a : Answer) : Answer :=
  ⟨a.errors.map LexError.unlined, a.taken.map Token.unlined⟩

/-- The same request on line 0, if it says a line. -/
def Request.unlined : Request → Request
  | .feed text _ => .feed text 0
  | r => r

/-- Two lexers at rest that hold the same but for lines, counts and what the log has not heard, and
carry comments alike. -/
structure Alike (lx lx' : Lexer) : Prop where
  rests : ∃ b, lx.pending.Rests lx.settings.carryComments b
  carry : lx.settings.carryComments = lx'.settings.carryComments
  pending : lx.pending.unlined = lx'.pending.unlined
  tokens : lx.tokens.toList.map Token.unlined = lx'.tokens.toList.map Token.unlined
  diagnostics :
    lx.diagnostics.toList.map Diagnostic.unlined = lx'.diagnostics.toList.map Diagnostic.unlined

section Alike

variable {lx lx' : Lexer} {r r' : Except LexError Unit}

theorem Alike.diagnostics_size (h : Alike lx lx') : lx.diagnostics.size = lx'.diagnostics.size := by
  have hlength := congrArg List.length h.diagnostics
  simpa using hlength

theorem errorsOf_unlined (r : Except LexError Unit) :
    errorsOf (r.mapError LexError.unlined) = (errorsOf r).map LexError.unlined := by
  cases r <;> rfl

theorem errorsOf_eq_of_unlined (h : r.mapError LexError.unlined = r'.mapError LexError.unlined) :
    (errorsOf r).map LexError.unlined = (errorsOf r').map LexError.unlined := by
  rw [← errorsOf_unlined, h, errorsOf_unlined]

theorem terminate_unlined (p : Pending) (text : Array Char) (i : Nat) (f : Fault) :
    (p.terminate ⟨text, 0, i⟩ f).unlined = p.unlined.terminate ⟨text, 0, i⟩ f := by
  obtain ⟨st, l, o, m⟩ := p
  cases o <;> rfl

/-- Two lexers that have added the same findings but for lines, and are at rest with the same
pending, are alike again. -/
theorem Alike.adds {fs fs' : List Finding} {ly ly' : Lexer} {b : Nat} (h : Alike lx lx')
    (hadds : lx.Adds fs ly) (hadds' : lx'.Adds fs' ly')
    (hfindings : fs.map Finding.unlined = fs'.map Finding.unlined)
    (hpending : ly.pending.unlined = ly'.pending.unlined)
    (hrests : ly.pending.Rests lx.settings.carryComments b) : Alike ly ly' where
  rests := ⟨b, by rwa [hadds.settings]⟩
  carry := by rw [hadds.settings, hadds'.settings, h.carry]
  pending := hpending
  tokens := by
    have htokens := congrArg tokensOf hfindings
    rw [tokensOf_unlined, tokensOf_unlined] at htokens
    rw [hadds.tokens, hadds'.tokens, List.map_append, List.map_append, h.tokens, htokens]
  diagnostics := by
    have hdiagnostics := congrArg diagnosticsOf hfindings
    rw [diagnosticsOf_unlined, diagnosticsOf_unlined] at hdiagnostics
    rw [hadds.diagnostics, hadds'.diagnostics, List.map_append, List.map_append, List.map_take,
      List.map_take, h.diagnostics, h.diagnostics_size, hdiagnostics]

/-- The same text, on any two lines. -/
theorem Alike.feed (h : Alike lx lx') (text : String) (line line' : Nat) :
    Alike (lx.feed text line).1 (lx'.feed text line').1
      ∧ (lx.feed text line).2.mapError LexError.unlined =
        (lx'.feed text line').2.mapError LexError.unlined := by
  obtain ⟨b, hrests⟩ := h.rests
  have hread : (lx.reading text line).unlined = (lx'.reading text line').unlined := by
    rw [reading_eq_readOn, reading_eq_readOn, ← h.carry]
    exact readOn_unlined hrests h.pending text.toList line line'
  obtain ⟨hpending, hfindings, hresult⟩ := Ending.mk.inj hread
  rw [← feed_pending, ← feed_pending] at hpending
  rw [← feed_result, ← feed_result] at hresult
  exact ⟨h.adds (adds_feed lx text line) (adds_feed lx' text line') hfindings hpending
    (call_rests hrests (.feed text line)), hresult⟩

/-- An open comment is reported where it began, whatever line that is on. -/
theorem Alike.finish (h : Alike lx lx') :
    Alike lx.finish.1 lx'.finish.1
      ∧ lx.finish.2.mapError LexError.unlined = lx'.finish.2.mapError LexError.unlined := by
  obtain ⟨b, hrests⟩ := h.rests
  have hstate : lx.state = lx'.state := state_eq_of_unlined h.pending
  by_cases hopen : lx.state.isBlockComment = true
  · have hfinish : ∀ {ly : Lexer}, ly.state.isBlockComment = true →
        ly.finish = (ly.absorbEnding (ly.pending.terminate ⟨#[], 0, 0⟩ .openComment),
          (ly.pending.terminate ⟨#[], 0, 0⟩ .openComment).result) := by
      intro ly hly
      rw [Lexer.finish, if_pos hly]
    have hend : (lx.pending.terminate ⟨#[], 0, 0⟩ .openComment).unlined =
        (lx'.pending.terminate ⟨#[], 0, 0⟩ .openComment).unlined := by
      rw [terminate_unlined, terminate_unlined, h.pending]
    obtain ⟨-, hfindings, hresult⟩ := Ending.mk.inj hend
    have hpending : ∀ (ly : Lexer) (f : Fault),
        (ly.absorbEnding (ly.pending.terminate ⟨#[], 0, 0⟩ f)).pending = {} :=
      fun _ _ => foldl_absorb_pending _ _
    rw [hfinish hopen, hfinish (hstate ▸ hopen)]
    refine ⟨h.adds (b := b) (adds_absorbEnding lx _) (adds_absorbEnding lx' _) hfindings ?_
      (Or.inl (hpending lx _)), hresult⟩
    rw [hpending, hpending]
  · rw [Lexer.finish, Lexer.finish, ← hstate, if_neg hopen, if_neg hopen]
    exact ⟨h, rfl⟩

theorem Alike.feedLines (ls : List String) :
    ∀ {lx lx' : Lexer} (k : Nat), Alike lx lx' →
      Alike (lx.feedLines k ls).1 (lx'.feedLines k ls).1
        ∧ (lx.feedLines k ls).2.mapError LexError.unlined =
          (lx'.feedLines k ls).2.mapError LexError.unlined := by
  induction ls with
  | nil => exact fun _ h => ⟨h, rfl⟩
  | cons l ls ih =>
      intro lx lx' k h
      obtain ⟨halike, hresult⟩ := h.feed l (lineNumber k) (lineNumber k)
      rw [Lexer.feedLines, Lexer.feedLines]
      rcases hfeed : lx.feed l (lineNumber k) with ⟨ly, error | _⟩ <;>
        rcases hfeed' : lx'.feed l (lineNumber k) with ⟨ly', error' | _⟩ <;>
        rw [hfeed, hfeed'] at halike hresult
      · exact ⟨halike, hresult⟩
      · cases hresult
      · cases hresult
      · exact ih (k + 1) halike

theorem Alike.feedAllLines (ls : List String) :
    ∀ {lx lx' : Lexer} (k : Nat) (errors errors' : Array LexError), Alike lx lx' →
      errors.toList.map LexError.unlined = errors'.toList.map LexError.unlined →
      Alike (lx.feedAllLines k errors ls).1 (lx'.feedAllLines k errors' ls).1
        ∧ (lx.feedAllLines k errors ls).2.toList.map LexError.unlined =
          (lx'.feedAllLines k errors' ls).2.toList.map LexError.unlined := by
  induction ls with
  | nil => exact fun _ _ _ h herrors => ⟨h, herrors⟩
  | cons l ls ih =>
      intro lx lx' k errors errors' h herrors
      obtain ⟨halike, hresult⟩ := h.feed l (lineNumber k) (lineNumber k)
      rw [Lexer.feedAllLines, Lexer.feedAllLines]
      rcases hfeed : lx.feed l (lineNumber k) with ⟨ly, error | _⟩ <;>
        rcases hfeed' : lx'.feed l (lineNumber k) with ⟨ly', error' | _⟩ <;>
        rw [hfeed, hfeed'] at halike hresult
      · refine ih (k + 1) _ _ halike ?_
        have herror : error.unlined = error'.unlined := Except.error.inj hresult
        simp only [Array.toList_push, List.map_append, herrors, List.map_cons, herror]
      · cases hresult
      · cases hresult
      · exact ih (k + 1) _ _ halike herrors

theorem Alike.feedSource (h : Alike lx lx') (source : String) :
    Alike (lx.feedSource source).1 (lx'.feedSource source).1
      ∧ (lx.feedSource source).2.mapError LexError.unlined =
        (lx'.feedSource source).2.mapError LexError.unlined := by
  obtain ⟨halike, hresult⟩ := h.feedLines (Text.lines source) 0
  rw [Lexer.feedSource, Lexer.feedSource]
  rcases hfed : lx.feedLines 0 (Text.lines source) with ⟨ly, error | _⟩ <;>
    rcases hfed' : lx'.feedLines 0 (Text.lines source) with ⟨ly', error' | _⟩ <;>
    rw [hfed, hfed'] at halike hresult
  · exact ⟨halike, hresult⟩
  · cases hresult
  · cases hresult
  · exact halike.finish

theorem Alike.feedSourceRecovering (h : Alike lx lx') (source : String) :
    Alike (lx.feedSourceRecovering source).1 (lx'.feedSourceRecovering source).1
      ∧ (lx.feedSourceRecovering source).2.map LexError.unlined =
        (lx'.feedSourceRecovering source).2.map LexError.unlined := by
  obtain ⟨hfed, herrors⟩ := h.feedAllLines (Text.lines source) 0 #[] #[] rfl
  obtain ⟨halike, hresult⟩ := hfed.finish
  simp only [Lexer.feedSourceRecovering]
  rcases hfinish : (lx.feedAllLines 0 #[] (Text.lines source)).1.finish with ⟨ly, error | _⟩ <;>
    rcases hfinish' : (lx'.feedAllLines 0 #[] (Text.lines source)).1.finish with
      ⟨ly', error' | _⟩ <;>
    rw [hfinish, hfinish'] at halike hresult
  · have herror : error.unlined = error'.unlined := Except.error.inj hresult
    refine ⟨halike, ?_⟩
    simp only [Array.toList_push, List.map_append, herrors, List.map_cons, herror]
  · cases hresult
  · cases hresult
  · exact ⟨halike, herrors⟩

/-- Requests that are the same without lines are the same, or feed the same text. -/
theorem eq_or_feed_of_unlined {r r' : Request} (h : r.unlined = r'.unlined) :
    r = r' ∨ ∃ text line line', r = .feed text line ∧ r' = .feed text line' := by
  cases r with
  | feed text line =>
      cases r' with
      | feed text' line' =>
          obtain rfl : text = text' := (Request.feed.inj h).1
          exact Or.inr ⟨text, line, line', rfl, rfl⟩
      | _ => cases h
  | _ =>
      cases r' with
      | feed => cases h
      | _ => exact Or.inl h

/-- What is asked of two lexers that are alike is answered alike, and leaves them alike. -/
theorem Alike.serve (h : Alike lx lx') {r r' : Request} (hr : r.unlined = r'.unlined) :
    Alike (lx.serve r).1 (lx'.serve r').1
      ∧ (lx.serve r).2.unlined = (lx'.serve r').2.unlined := by
  have hanswer : ∀ {r r' : Except LexError Unit},
      r.mapError LexError.unlined = r'.mapError LexError.unlined →
      ({ errors := errorsOf r } : Answer).unlined =
        ({ errors := errorsOf r' } : Answer).unlined := by
    intro r r' heq
    simp only [Answer.unlined, errorsOf_eq_of_unlined heq]
  rcases eq_or_feed_of_unlined hr with rfl | ⟨text, line, line', rfl, rfl⟩
  · cases r with
    | feed text line =>
        obtain ⟨halike, hresult⟩ := h.feed text line line
        exact ⟨halike, hanswer hresult⟩
    | finish =>
        obtain ⟨halike, hresult⟩ := h.finish
        exact ⟨halike, hanswer hresult⟩
    | reset => exact ⟨⟨⟨0, Or.inl rfl⟩, h.carry, rfl, rfl, rfl⟩, rfl⟩
    | takeTokens =>
        refine ⟨⟨h.rests, h.carry, h.pending, rfl, h.diagnostics⟩, ?_⟩
        have htokens : lx.tokens.map Token.unlined = lx'.tokens.map Token.unlined := by
          rw [← Array.toList_inj, Array.toList_map, Array.toList_map, h.tokens]
        simp only [Lexer.serve, takeTokens, Answer.unlined, htokens]
    | feedSource source =>
        obtain ⟨halike, hresult⟩ := h.feedSource source
        exact ⟨halike, hanswer hresult⟩
    | feedSourceRecovering source =>
        obtain ⟨halike, herrors⟩ := h.feedSourceRecovering source
        refine ⟨halike, ?_⟩
        simp only [Lexer.serve, Answer.unlined, herrors]
  · obtain ⟨halike, hresult⟩ := h.feed text line line'
    exact ⟨halike, hanswer hresult⟩

/-- Whatever sequence of requests two lexers get that are alike, the requests being the same but for
lines, the answers are, and the lexers are alike in the end. -/
theorem Alike.serveAll {requests : List Request} :
    ∀ {requests' : List Request} {lx lx' : Lexer}, Alike lx lx' →
      requests.map Request.unlined = requests'.map Request.unlined →
      Alike (lx.serveAll requests) (lx'.serveAll requests')
        ∧ (lx.answers requests).map Answer.unlined =
          (lx'.answers requests').map Answer.unlined := by
  induction requests with
  | nil =>
      intro requests' lx lx' h heq
      obtain rfl : requests' = [] := List.map_eq_nil_iff.mp heq.symm
      exact ⟨h, rfl⟩
  | cons r rest ih =>
      intro requests' lx lx' h heq
      cases requests' with
      | nil => cases heq
      | cons r' rest' =>
          obtain ⟨hr, hrest⟩ := List.cons.inj heq
          obtain ⟨halike, hanswer⟩ := h.serve hr
          obtain ⟨hall, hanswers⟩ := ih halike hrest
          refine ⟨hall, ?_⟩
          simp only [answers, List.map_cons, hanswer, hanswers]

end Alike

theorem after_after (t u : Array Note) (lx : Lexer) :
    (lx.after u).after t = lx.after (t ++ u) := by
  simp [after]

end Lexer

/-! ## The journal beside the lexer -/

/-- A lexer, and the journal that hears it. -/
structure Heard where
  lexer : Lexer
  journal : Journal

/-- What a program does with them: it asks the lexer for something, or installs a log service. -/
inductive Deed where
  | request (r : Lexer.Request)
  | install (s : Service)
deriving DecidableEq, Repr

def Deed.request? : Deed → Option Lexer.Request
  | .request r => some r
  | .install _ => none

/-- The requests among deeds. -/
def requestsOf (deeds : List Deed) : List Lexer.Request := deeds.filterMap Deed.request?

namespace Heard

/-- Does one thing. After a request the journal hears what the lexer has put down; a service that
cannot be installed leaves the journal as it is. -/
def act (w : Heard) : Deed → Heard × List Lexer.Answer
  | .request r =>
    let (lx, answer) := w.lexer.serve r
    let (lx, events) := lx.takeEvents
    (⟨lx, w.journal.logAll events⟩, [answer])
  | .install s => ({ w with journal := (w.journal.install s).toOption.getD w.journal }, [])

/-- Does one thing after the other, whatever the answers are. -/
def run (w : Heard) : List Deed → Heard × List Lexer.Answer
  | [] => (w, [])
  | deed :: rest =>
    let (w, first) := w.act deed
    let (w, answers) := w.run rest
    (w, first ++ answers)

/-- The lexer answers its requests as if there were no journal, and holds what it would hold but for
what the journal has heard. -/
theorem run_serves (deeds : List Deed) :
    ∀ w : Heard, (w.run deeds).2 = w.lexer.answers (requestsOf deeds)
      ∧ ∃ t, w.lexer.serveAll (requestsOf deeds) = (w.run deeds).1.lexer.after t := by
  induction deeds with
  | nil => exact fun w => ⟨rfl, #[], by simp [Lexer.after, run, requestsOf, Lexer.serveAll]⟩
  | cons deed rest ih =>
      intro w
      cases deed with
      | install s => exact ih { w with journal := (w.journal.install s).toOption.getD w.journal }
      | request r =>
          obtain ⟨hanswers, t, hlexer⟩ := ih (w.act (.request r)).1
          have hserve : (w.lexer.serve r).1 =
              (w.act (.request r)).1.lexer.after (w.lexer.serve r).1.trail := by
            simp [Lexer.after, act, Lexer.takeEvents, Lexer.takeTrail]
          have hafter := Lexer.serveAll_after (w.lexer.serve r).1.trail (requestsOf rest)
            (w.act (.request r)).1.lexer
          rw [← hserve, hlexer] at hafter
          refine ⟨?_, _, hafter.1.trans (Lexer.after_after _ _ _)⟩
          exact congrArg ((w.lexer.serve r).2 :: ·) (hanswers.trans hafter.2.symm)

/-- Two runs that ask for the same but for lines, with settings that carry comments alike, are the
same without lines: their answers, their states, and the tokens and diagnostics that they hold.
Neither what is logged and counted nor the journals and what is installed in them makes a
difference. -/
theorem run_unlined {settings settings' : LexicalSettings}
    (hcarry : settings.carryComments = settings'.carryComments) (j j' : Journal)
    {deeds deeds' : List Deed}
    (h : (requestsOf deeds).map Lexer.Request.unlined =
      (requestsOf deeds').map Lexer.Request.unlined) :
    let w := run ⟨{ settings }, j⟩ deeds
    let w' := run ⟨{ settings := settings' }, j'⟩ deeds'
    w.2.map Lexer.Answer.unlined = w'.2.map Lexer.Answer.unlined
      ∧ w.1.lexer.state = w'.1.lexer.state
      ∧ w.1.lexer.tokens.toList.map Token.unlined = w'.1.lexer.tokens.toList.map Token.unlined
      ∧ w.1.lexer.diagnostics.toList.map Diagnostic.unlined =
        w'.1.lexer.diagnostics.toList.map Diagnostic.unlined := by
  intro w w'
  obtain ⟨hanswers, t, hlexer⟩ := run_serves deeds ⟨{ settings }, j⟩
  obtain ⟨hanswers', t', hlexer'⟩ := run_serves deeds' ⟨{ settings := settings' }, j'⟩
  have hstart : Lexer.Alike { settings } { settings := settings' } :=
    ⟨⟨0, Or.inl rfl⟩, hcarry, rfl, rfl, rfl⟩
  obtain ⟨halike, hall⟩ := hstart.serveAll h
  rw [hlexer, hlexer'] at halike
  rw [← hanswers, ← hanswers'] at hall
  exact ⟨hall, state_eq_of_unlined halike.pending, halike.tokens, halike.diagnostics⟩

/-- A comment that is carried over lines in any order, with and without a log. -/
theorem run_unlined_carried :
    let deeds : List Deed := [.install ⟨.memory, .debug⟩, .request (.feed "a /* b" 7),
      .request (.feed "*/ c 'd" 3)]
    let deeds' : List Deed := [.request (.feed "a /* b" 1), .request (.feed "*/ c 'd" 1),
      .install ⟨.null, .error⟩]
    let w := run ⟨{ settings := ⟨true, true, true⟩ }, {}⟩ deeds
    let w' := run ⟨{ settings := ⟨true, false, false⟩ }, {}⟩ deeds'
    (requestsOf deeds).map Lexer.Request.unlined = (requestsOf deeds').map Lexer.Request.unlined
      ∧ w.2.map Lexer.Answer.unlined = w'.2.map Lexer.Answer.unlined
      ∧ w.1.lexer.state = w'.1.lexer.state
      ∧ w.1.lexer.tokens.toList.map Token.unlined = w'.1.lexer.tokens.toList.map Token.unlined
      ∧ w.1.lexer.diagnostics.toList.map Diagnostic.unlined =
        w'.1.lexer.diagnostics.toList.map Diagnostic.unlined := by
  intro deeds deeds' w w'
  have hrequests : (requestsOf deeds).map Lexer.Request.unlined =
      (requestsOf deeds').map Lexer.Request.unlined := by decide
  have hcarry : (LexicalSettings.mk true true true).carryComments =
      (LexicalSettings.mk true false false).carryComments := rfl
  exact ⟨hrequests, run_unlined hcarry {} {} hrequests⟩

end Heard

end ContractLex
