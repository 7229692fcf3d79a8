import ContractLex.Proofs.Lines

/-!
# What a lexer remembers

A lexer that has nothing pending feeds a text as a fresh one does, on top of what it has accumulated
(`feed_eq_fresh`). So a source that is read to its end in spite of errors, with no comments carried,
gives what its lines give one by one (`feedSourceRecovering_eq`).

`reset` forgets everything but the settings and what the log has not heard yet. What the log is to
hear has no influence on anything: a lexer behaves as the one with an empty trail does, and adds the
same notes (`serve_after`). So after a reset, which leaves a new lexer but for the trail
(`reset_eq`), every request is answered as by a new lexer. Requests are sequences of calls
(`exists_run_serve`), hence whatever was requested, nothing is pending but a carried comment.
`serveAll_independent` puts these together.
-/

namespace ContractLex

namespace Lexer

/-! ## Requests -/

/-- What can be asked of a lexer. -/
inductive Request where
  | feed (text : String) (line : Nat)
  | finish
  | reset
  | takeTokens
  | feedSource (source : String)
  | feedSourceRecovering (source : String)
deriving DecidableEq, Repr

/-- What a request returns: errors, and tokens that are moved out. -/
structure Answer where
  errors : List LexError := []
  taken : Array Token := #[]

def serve (lx : Lexer) : Request → Lexer × Answer
  | .feed text line => ((lx.feed text line).1, { errors := errorsOf (lx.feed text line).2 })
  | .finish => (lx.finish.1, { errors := errorsOf lx.finish.2 })
  | .reset => (lx.reset, {})
  | .takeTokens => (lx.takeTokens.2, { taken := lx.takeTokens.1 })
  | .feedSource source =>
    ((lx.feedSource source).1, { errors := errorsOf (lx.feedSource source).2 })
  | .feedSourceRecovering source =>
    ((lx.feedSourceRecovering source).1, { errors := (lx.feedSourceRecovering source).2 })

/-- Serves requests one after the other, whatever the answers are. -/
def serveAll (lx : Lexer) (requests : List Request) : Lexer :=
  requests.foldl (fun ly r => (ly.serve r).1) lx

def answers (lx : Lexer) : List Request → List Answer
  | [] => []
  | r :: rest => (lx.serve r).2 :: (lx.serve r).1.answers rest

/-! ## Requests as calls -/

section Calls

theorem exists_run_feedAllLines (ls : List String) :
    ∀ (lx : Lexer) (k : Nat) (errors : Array LexError),
      ∃ calls, (lx.feedAllLines k errors ls).1 = lx.run calls := by
  induction ls with
  | nil => exact fun lx k errors => ⟨[], rfl⟩
  | cons l ls ih =>
      intro lx k errors
      rw [feedAllLines]
      rcases hfeed : lx.feed l (lineNumber k) with ⟨ly, error | _⟩
      · obtain ⟨calls, heq⟩ := ih ly (k + 1) (errors.push error)
        exact ⟨.feed l (lineNumber k) :: calls, by simp [run, call, hfeed, heq]⟩
      · obtain ⟨calls, heq⟩ := ih ly (k + 1) errors
        exact ⟨.feed l (lineNumber k) :: calls, by simp [run, call, hfeed, heq]⟩

/-- A request is a sequence of calls. -/
theorem exists_run_serve (lx : Lexer) (r : Request) :
    ∃ calls, (lx.serve r).1 = lx.run calls := by
  cases r with
  | feed text line => exact ⟨[.feed text line], rfl⟩
  | finish => exact ⟨[.finish], rfl⟩
  | reset => exact ⟨[.reset], rfl⟩
  | takeTokens => exact ⟨[.takeTokens], rfl⟩
  | feedSource source =>
      obtain ⟨calls, heq⟩ := exists_run_feedLines (Text.lines source) lx 0
      simp only [serve, feedSource]
      rcases hfeed : lx.feedLines 0 (Text.lines source) with ⟨ly, error | _⟩
      · rw [hfeed] at heq
        exact ⟨calls, heq⟩
      · rw [hfeed] at heq
        exact ⟨calls ++ [.finish], by rw [run_concat, ← heq]; rfl⟩
  | feedSourceRecovering source =>
      obtain ⟨calls, heq⟩ := exists_run_feedAllLines (Text.lines source) lx 0 #[]
      refine ⟨calls ++ [.finish], ?_⟩
      rw [run_concat, ← heq]
      simp only [serve, feedSourceRecovering, call]
      split <;> next hfinish => rw [hfinish]

theorem exists_run_serveAll (requests : List Request) :
    ∀ lx : Lexer, ∃ calls, lx.serveAll requests = lx.run calls := by
  induction requests with
  | nil => exact fun lx => ⟨[], rfl⟩
  | cons r rest ih =>
      intro lx
      obtain ⟨first, hfirst⟩ := exists_run_serve lx r
      obtain ⟨calls, heq⟩ := ih (lx.serve r).1
      refine ⟨first ++ calls, ?_⟩
      rw [run_append, ← hfirst, ← heq]
      rfl

end Calls

/-! ## Texts one by one -/

section Fresh

variable {lx : Lexer} {text : String} {line : Nat}

/-- Two lists are the same up to `n` elements, if their parts are up to more elements than that. -/
theorem take_flatMap_take {α β : Type} (f : α → List β) {m : Nat} (xs : List α) :
    ∀ {n : Nat}, n ≤ m →
      (xs.flatMap fun x => (f x).take m).take n = (xs.flatMap f).take n := by
  induction xs with
  | nil => exact fun _ => rfl
  | cons x xs ih =>
      intro n hn
      rw [List.flatMap_cons, List.flatMap_cons, List.take_append, List.take_append, List.take_take,
        Nat.min_eq_left hn, List.length_take]
      rcases Nat.le_total (f x).length m with hle | hle
      · rw [Nat.min_eq_right hle, ih (by omega)]
      · have hzero : n - min m (f x).length = 0 := by omega
        have hzero' : n - (f x).length = 0 := by omega
        rw [hzero, hzero', List.take_zero, List.take_zero]

/-- A reading from `start` depends on the settings alone. -/
theorem reading_eq_fresh (hp : lx.pending = {}) (text : String) (line : Nat) :
    lx.reading text line = ({ settings := lx.settings } : Lexer).reading text line := by
  rw [reading, reading, hp]

theorem fresh_tokens (settings : LexicalSettings) (text : String) (line : Nat) :
    (({ settings } : Lexer).feed text line).1.tokens.toList =
      tokensOf (({ settings } : Lexer).reading text line).findings := by
  rw [feed_tokens]
  rfl

theorem fresh_diagnostics (settings : LexicalSettings) (text : String) (line : Nat) :
    (({ settings } : Lexer).feed text line).1.diagnostics.toList =
      (diagnosticsOf (({ settings } : Lexer).reading text line).findings).take maxDiagnostics := by
  rw [feed_diagnostics]
  rfl

/-- With nothing pending, a text is fed as to a fresh lexer, on top of what has been accumulated. -/
structure FeedsAsFresh (lx : Lexer) (settings : LexicalSettings) (text : String) (line : Nat) :
    Prop where
  result : (lx.feed text line).2 = (({ settings } : Lexer).feed text line).2
  pending : (lx.feed text line).1.pending = (({ settings } : Lexer).feed text line).1.pending
  tokens : (lx.feed text line).1.tokens =
    lx.tokens ++ (({ settings } : Lexer).feed text line).1.tokens
  diagnostics : (lx.feed text line).1.diagnostics.toList = lx.diagnostics.toList ++
    (({ settings } : Lexer).feed text line).1.diagnostics.toList.take
      (maxDiagnostics - lx.diagnostics.size)

theorem feed_eq_fresh (hp : lx.pending = {}) (text : String) (line : Nat) :
    lx.FeedsAsFresh lx.settings text line := by
  have hread := reading_eq_fresh hp text line
  refine ⟨?_, ?_, ?_, ?_⟩
  · rw [feed_result, feed_result, hread]
  · rw [feed_pending, feed_pending, hread]
  · refine Array.toList_inj.mp ?_
    rw [feed_tokens, Array.toList_append, fresh_tokens, hread]
  · rw [feed_diagnostics, fresh_diagnostics, hread, List.take_take, Nat.min_eq_left (by omega)]

end Fresh

/-! ## Lines one by one -/

section Lines

variable {lx : Lexer} {settings : LexicalSettings}

/-- What a fresh lexer makes of a line with a given index. -/
def alone (settings : LexicalSettings) (x : String × Nat) : Lexer × Except LexError Unit :=
  ({ settings } : Lexer).feed x.1 (lineNumber x.2)

/-- Without carrying, every line is fed with nothing pending. -/
theorem feedAllLines_adds (hcarry : settings.carryComments = false) (ls : List String) :
    ∀ {lx : Lexer} (k : Nat) (errors : Array LexError), lx.pending = {} → lx.settings = settings →
      lx.Adds ((ls.zipIdx k).flatMap fun x =>
          (({ settings } : Lexer).reading x.1 (lineNumber x.2)).findings)
        (lx.feedAllLines k errors ls).1
      ∧ (lx.feedAllLines k errors ls).1.pending = {}
      ∧ (lx.feedAllLines k errors ls).2.toList =
        errors.toList ++ (ls.zipIdx k).flatMap fun x => errorsOf (alone settings x).2 := by
  induction ls with
  | nil => exact fun {lx} k errors hp _ => ⟨adds_nil lx, hp, by simp [feedAllLines]⟩
  | cons l ls ih =>
      intro lx k errors hp hs
      have hadds := adds_feed lx l (lineNumber k)
      have hresult := (feed_eq_fresh hp l (lineNumber k)).result
      have hsettings := (lx.feed_settings l (lineNumber k)).trans hs
      have hpending : (lx.feed l (lineNumber k)).1.pending = {} := by
        rw [feed_pending]
        rcases reading_rests l (lineNumber k) (b := 0) (Or.inl hp) with hrest | ⟨hcarried, -⟩
        · exact hrest
        · rw [hs, hcarry] at hcarried
          cases hcarried
      rw [reading_eq_fresh hp, hs] at hadds
      rw [hs] at hresult
      rw [List.zipIdx_cons, List.flatMap_cons, List.flatMap_cons, feedAllLines]
      rcases hfeed : lx.feed l (lineNumber k) with ⟨ly, error | _⟩
      · rw [hfeed] at hadds hresult hpending hsettings
        obtain ⟨hadds', hpending', herrors⟩ :=
          ih (k + 1) (errors.push error) hpending hsettings
        refine ⟨hadds.trans hadds', hpending', ?_⟩
        rw [herrors, alone, ← hresult]
        simp [errorsOf]
      · rw [hfeed] at hadds hresult hpending hsettings
        obtain ⟨hadds', hpending', herrors⟩ := ih (k + 1) errors hpending hsettings
        refine ⟨hadds.trans hadds', hpending', ?_⟩
        rw [herrors, alone, ← hresult]
        simp [errorsOf]

/-- Without carrying, a source that is read to its end gives what its lines give one by one. -/
theorem feedSourceRecovering_eq (hcarry : lx.settings.carryComments = false) (hp : lx.pending = {})
    (source : String) :
    (lx.feedSourceRecovering source).1.tokens.toList = lx.tokens.toList ++
        ((Text.lines source).zipIdx.flatMap fun x => (alone lx.settings x).1.tokens.toList)
      ∧ (lx.feedSourceRecovering source).1.diagnostics.toList = lx.diagnostics.toList ++
        ((Text.lines source).zipIdx.flatMap fun x =>
          (alone lx.settings x).1.diagnostics.toList).take (maxDiagnostics - lx.diagnostics.size)
      ∧ (lx.feedSourceRecovering source).2 =
        (Text.lines source).zipIdx.flatMap fun x => errorsOf (alone lx.settings x).2 := by
  obtain ⟨hadds, hpending, herrors⟩ :=
    feedAllLines_adds hcarry (Text.lines source) 0 #[] hp rfl
  have hrecovering : lx.feedSourceRecovering source =
      ((lx.feedAllLines 0 #[] (Text.lines source)).1,
        (lx.feedAllLines 0 #[] (Text.lines source)).2.toList) := by
    have hfinish : (lx.feedAllLines 0 #[] (Text.lines source)).1.finish =
        ((lx.feedAllLines 0 #[] (Text.lines source)).1, .ok ()) := by
      simp [finish, state, hpending, State.isBlockComment]
    simp only [feedSourceRecovering, hfinish]
  rw [hrecovering]
  refine ⟨?_, ?_, ?_⟩
  · rw [hadds.tokens, tokensOf, List.filterMap_flatMap]
    simp only [alone, fresh_tokens]
    rfl
  · rw [hadds.diagnostics, diagnosticsOf, List.filterMap_flatMap]
    simp only [alone, fresh_diagnostics]
    rw [take_flatMap_take _ _ (Nat.sub_le _ _)]
    rfl
  · simpa using herrors

end Lines

/-! ## What the log is to hear -/

/-- The same lexer, with notes `t` that the log is to hear first. -/
def after (t : Array Note) (lx : Lexer) : Lexer := { lx with trail := t ++ lx.trail }

section After

variable (t : Array Note) (lx : Lexer)

theorem note_after (n : Note) : (lx.after t).note n = (lx.note n).after t := by
  simp [after, note]

theorem absorb_after (f : Finding) : (lx.after t).absorb f = (lx.absorb f).after t := by
  cases f with
  | token | comment => rfl
  | fault s d =>
      cases hlog : lx.settings.logDiagnostics || d.kind.isTerminal with
      | true =>
          simp only [absorb, addDiagnostic, after, hlog, if_true, Array.append_push]
          rfl
      | false =>
          simp only [absorb, addDiagnostic, after, hlog]
          rfl

theorem foldl_absorb_after (fs : List Finding) :
    ∀ lx : Lexer, fs.foldl absorb (lx.after t) = (fs.foldl absorb lx).after t := by
  induction fs with
  | nil => exact fun _ => rfl
  | cons f fs ih =>
      intro lx
      rw [List.foldl_cons, List.foldl_cons, absorb_after, ih]

theorem feed_after (text : String) (line : Nat) :
    (lx.after t).feed text line = ((lx.feed text line).1.after t, (lx.feed text line).2) := by
  have hfed : (lx.after t).fed text line = (lx.fed text line).after t := by
    have hnote := note_after t lx (.feeding line text.toList.length)
    rw [fed, hnote, fed, ← foldl_absorb_after]
    rfl
  have hresult : ((lx.after t).reading text line).result = (lx.reading text line).result := rfl
  rw [feed_eq, feed_eq, hfed, hresult]
  cases (lx.reading text line).result with
  | error => rfl
  | ok =>
      have hstate : ((lx.fed text line).after t).state = (lx.fed text line).state := rfl
      simp only [hstate, note_after]
      split <;> rfl

theorem finish_after : (lx.after t).finish = (lx.finish.1.after t, lx.finish.2) := by
  have hstate : (lx.after t).state = lx.state := rfl
  unfold finish
  rw [hstate]
  split
  · have habsorb : ∀ e : Ending, (lx.after t).absorbEnding e = (lx.absorbEnding e).after t :=
      fun e => foldl_absorb_after t e.findings { lx with pending := e.pending }
    exact Prod.ext (habsorb _) rfl
  · rfl

theorem feedLines_after (ls : List String) :
    ∀ (lx : Lexer) (k : Nat),
      (lx.after t).feedLines k ls = ((lx.feedLines k ls).1.after t, (lx.feedLines k ls).2) := by
  induction ls with
  | nil => exact fun _ _ => rfl
  | cons l ls ih =>
      intro lx k
      rw [feedLines, feedLines, feed_after]
      rcases lx.feed l (lineNumber k) with ⟨ly, error | _⟩
      · rfl
      · exact ih ly (k + 1)

theorem feedAllLines_after (ls : List String) :
    ∀ (lx : Lexer) (k : Nat) (errors : Array LexError),
      (lx.after t).feedAllLines k errors ls =
        ((lx.feedAllLines k errors ls).1.after t, (lx.feedAllLines k errors ls).2) := by
  induction ls with
  | nil => exact fun _ _ _ => rfl
  | cons l ls ih =>
      intro lx k errors
      rw [feedAllLines, feedAllLines, feed_after]
      rcases lx.feed l (lineNumber k) with ⟨ly, error | _⟩
      · exact ih ly (k + 1) (errors.push error)
      · exact ih ly (k + 1) errors

/-- What the log is to hear changes no answer, and nothing else in the lexer. -/
theorem serve_after (r : Request) :
    (lx.after t).serve r = ((lx.serve r).1.after t, (lx.serve r).2) := by
  cases r with
  | feed text line => simp only [serve, feed_after]
  | finish => simp only [serve, finish_after]
  | reset | takeTokens => rfl
  | feedSource source =>
      simp only [serve, feedSource, feedLines_after]
      rcases lx.feedLines 0 (Text.lines source) with ⟨ly, error | _⟩
      · rfl
      · simp only [finish_after]
  | feedSourceRecovering source =>
      simp only [serve, feedSourceRecovering, feedAllLines_after, finish_after]
      rcases (lx.feedAllLines 0 #[] (Text.lines source)).1.finish with ⟨ly, error | _⟩ <;> rfl

theorem serveAll_after (requests : List Request) :
    ∀ lx : Lexer, (lx.after t).serveAll requests = (lx.serveAll requests).after t
      ∧ (lx.after t).answers requests = lx.answers requests := by
  induction requests with
  | nil => exact fun _ => ⟨rfl, rfl⟩
  | cons r rest ih =>
      intro lx
      obtain ⟨hlexer, hanswers⟩ := ih (lx.serve r).1
      have hserve := serve_after t lx r
      constructor
      · simp only [serveAll, List.foldl_cons, hserve]
        exact hlexer
      · rw [answers, answers, hserve, hanswers]

/-- A lexer that has been reset is a new one, but for what the log has not heard. -/
theorem reset_eq : lx.reset = ({ settings := lx.settings } : Lexer).after lx.trail := by
  simp [reset, after]

end After

/-- Whatever was requested, with whatever errors: nothing is pending but a carried comment; a text
that is fed in `start` is fed as to a new lexer; without carrying, a source that is read to its end
gives what its lines give one by one; and after a reset all that is requested is answered as by a
new lexer. -/
theorem serveAll_independent (settings : LexicalSettings) (requests : List Request) :
    let lx := ({ settings } : Lexer).serveAll requests
    (lx.pending = {} ∨ settings.carryComments = true ∧ lx.state.isBlockComment = true
        ∧ lx.pending.lexeme = #[])
    ∧ (lx.state = .start → ∀ (text : String) (line : Nat), lx.FeedsAsFresh settings text line)
    ∧ (settings.carryComments = false → ∀ source : String,
      (lx.feedSourceRecovering source).1.tokens.toList = lx.tokens.toList ++
          ((Text.lines source).zipIdx.flatMap fun x => (alone settings x).1.tokens.toList)
        ∧ (lx.feedSourceRecovering source).1.diagnostics.toList = lx.diagnostics.toList ++
          ((Text.lines source).zipIdx.flatMap fun x =>
            (alone settings x).1.diagnostics.toList).take (maxDiagnostics - lx.diagnostics.size)
        ∧ (lx.feedSourceRecovering source).2 =
          (Text.lines source).zipIdx.flatMap fun x => errorsOf (alone settings x).2)
    ∧ ∀ later : List Request,
      (lx.serve .reset).1.answers later = ({ settings } : Lexer).answers later
        ∧ (lx.serve .reset).1.serveAll later =
          (({ settings } : Lexer).serveAll later).after lx.trail := by
  intro lx
  obtain ⟨calls, hcalls⟩ := exists_run_serveAll requests { settings }
  have hreach : lx.Reachable := ⟨settings, calls, hcalls⟩
  have hsettings : lx.settings = settings :=
    (congrArg Lexer.settings hcalls).trans (run_settings _ _)
  obtain ⟨b, hrests⟩ := hreach.rests
  rw [hsettings] at hrests
  refine ⟨?_, ?_, ?_, ?_⟩
  · rcases hrests with hpending | ⟨hcarry, hcarried⟩
    · exact Or.inl hpending
    · exact Or.inr ⟨hcarry, hcarried.state, hcarried.lexeme⟩
  · intro hstart text line
    rw [← hsettings]
    exact feed_eq_fresh (hreach.pending_eq hstart) text line
  · intro hcarry source
    have hpending : lx.pending = {} := by
      rcases hrests with hpending | ⟨hcarried, -⟩
      · exact hpending
      · rw [hcarry] at hcarried
        cases hcarried
    rw [← hsettings] at hcarry ⊢
    exact feedSourceRecovering_eq hcarry hpending source
  · intro later
    have hreset : (lx.serve .reset).1 = ({ settings } : Lexer).after lx.trail := by
      rw [← hsettings]
      exact reset_eq lx
    rw [hreset]
    obtain ⟨hlexer, hanswers⟩ := serveAll_after lx.trail later { settings }
    exact ⟨hanswers, hlexer⟩

/-- After a text and a source that failed. -/
theorem serveAll_independent_errors :
    let lx := ({ settings := {} } : Lexer).serveAll [.feed "a 'b" 1, .feedSource "x\n\"y"]
    lx.state = .start ∧ lx.FeedsAsFresh {} "c" 7
      ∧ (lx.feedSourceRecovering "d\n'e\nf").2 =
        (Text.lines "d\n'e\nf").zipIdx.flatMap fun x => errorsOf (alone {} x).2 := by
  obtain ⟨-, hfeeds, hlines, -⟩ :=
    serveAll_independent {} [.feed "a 'b" 1, .feedSource "x\n\"y"]
  exact ⟨by decide +kernel, hfeeds (by decide +kernel) "c" 7, (hlines rfl "d\n'e\nf").2.2⟩

end Lexer

end ContractLex
