import ContractLex.Proofs.Spelled
import Mathlib.Algebra.GroupWithZero.Nat
import Mathlib.Data.List.Induction

/-!
# The counts agree with what was emitted

A ledger is kept beside a lexer: it enters what every call since the last reset has emitted,
reported and been given, whether the call fails or not. What the lexer counts is what the ledger
holds (`Balances`); every call preserves this (`Balances.call`), so it holds after any calls
(`run_balances`).

That the counts of the six classes sum up to the total rests on one thing more: no token is a blank,
because each has read a word of its kind.
-/

namespace ContractLex

/-! ## Tallies -/

namespace Tally

/-- The count of a class. Blanks have none. -/
def count (n : Tally) : Kind.Class → Nat
  | .literal => n.literals
  | .keyword => n.keywords
  | .operator => n.operators
  | .delimiter => n.delimiters
  | .identifier => n.identifiers
  | .unknown => n.unknown
  | .blank => 0

/-- The sum of the six counts. -/
def sum (n : Tally) : Nat :=
  n.literals + n.keywords + n.operators + n.delimiters + n.identifiers + n.unknown

theorem count_add (n : Tally) (k : Kind) {c : Kind.Class} (hc : c ≠ .blank) :
    (n.add k).count c = n.count c + if k.group = c then 1 else 0 := by
  unfold add
  generalize k.group = g
  cases g <;> cases c <;> first | rfl | exact absurd rfl hc

theorem sum_add (n : Tally) {k : Kind} (hk : k.isEmitted = true) :
    (n.add k).sum = n.sum + 1 := by
  cases k with
  | blank b => cases hk
  | literal | keyword | operator | delimiter | identifier | unknown =>
      simp only [sum, add, Kind.group]
      omega

theorem count_ofTokens (ts : List Token) {c : Kind.Class} (hc : c ≠ .blank) :
    (ofTokens ts).count c = ts.countP (·.kind.group = c) := by
  induction ts using List.reverseRecOn with
  | nil => cases c <;> rfl
  | append_singleton ts t ih =>
      rw [ofTokens_concat, count_add _ _ hc, ih, List.countP_append, List.countP_singleton]
      simp

theorem sum_ofTokens {ts : List Token} (h : ∀ t ∈ ts, t.kind.isEmitted = true) :
    (ofTokens ts).sum = ts.length := by
  induction ts using List.reverseRecOn with
  | nil => rfl
  | append_singleton ts t ih =>
      obtain ⟨hts, ht⟩ := List.forall_mem_append.mp h
      rw [ofTokens_concat, sum_add _ (ht t (List.mem_singleton_self t)), ih hts,
        List.length_append, List.length_singleton]

theorem ofTokens_append (ts us : List Token) :
    ofTokens (ts ++ us) = us.foldl (fun n t => n.add t.kind) (ofTokens ts) :=
  List.foldl_append

end Tally

/-! ## No token is a blank -/

section Emitted

variable {text : List Char} {line i j start b : Nat} {before ts : List Token} {fs : List Finding}
  {lx : Lexer}

theorem SpelledFrom.isEmitted (h : SpelledFrom text before ts) :
    ∀ t ∈ ts, t.kind.isEmitted = true := by
  intro t ht
  obtain ⟨front, back, rfl⟩ := List.append_of_mem ht
  exact h.spelled.reads.isEmitted

theorem Lexer.emitted_isEmitted (text : String) (line : Nat)
    (h : lx.pending.Rests lx.settings.carryComments b) :
    ∀ t ∈ lx.emitted text line, t.kind.isEmitted = true := by
  rw [emitted]
  rcases Lexer.reading_tiles text line h with
    ⟨st, -, -, -, heq⟩ | ⟨k, front, fs, start, p, e, hfront, htiles, -, hends, heq⟩
  · rw [heq]
    exact List.forall_mem_nil _
  · have hnone : tokensOf front = [] := by rcases hfront with rfl | ⟨-, rfl⟩ <;> rfl
    rw [heq, tokensOf_append, tokensOf_append, hnone, List.nil_append]
    exact ((htiles.spelled []).append (hends.spelled _)).isEmitted

end Emitted

/-! ## The ledger -/

/-- What calls since the last reset have done. -/
structure Ledger where
  /-- The tokens that were emitted. -/
  emitted : List Token := []
  /-- Those of them that were moved out. -/
  taken : List Token := []
  /-- The diagnostics that were reported, kept or not. -/
  reported : List Diagnostic := []
  /-- The texts that were fed. -/
  fed : List String := []

namespace Lexer

/-- The diagnostic that ending the input reports, if a comment is open. -/
def unfinished (lx : Lexer) : List Diagnostic :=
  diagnosticsOf (if lx.state.isBlockComment then
    (lx.pending.terminate ⟨#[], 0, 0⟩ .openComment).findings else [])

end Lexer

/-- Enters a call that `lx` is about to answer. -/
def Ledger.enter (l : Ledger) (lx : Lexer) : Call → Ledger
  | .feed text line =>
      { l with
        emitted := l.emitted ++ lx.emitted text line
        reported := l.reported ++ lx.reported text line
        fed := l.fed ++ [text] }
  | .finish => { l with reported := l.reported ++ lx.unfinished }
  | .reset => {}
  | .takeTokens => { l with taken := l.taken ++ lx.takeTokens.1.toList }
  | .takeTrail => l

namespace Lexer

/-- Makes a call and enters it. -/
def keep (r : Lexer × Ledger) (c : Call) : Lexer × Ledger := ((r.1.call c).1, r.2.enter r.1 c)

/-- The ledger of calls. -/
def ledger (lx : Lexer) (calls : List Call) : Ledger := (calls.foldl keep (lx, {})).2

/-- What a lexer holds and counts is what the ledger says. -/
structure Balances (lx : Lexer) (l : Ledger) : Prop where
  emitted : l.taken ++ lx.tokens.toList = l.emitted
  unblank : ∀ t ∈ l.emitted, t.kind.isEmitted = true
  tally : lx.settings.collectMetrics = true → lx.metrics.tokens = Tally.ofTokens l.emitted
  reported : lx.metrics.diagnostics = l.reported.length
  kept : lx.diagnostics.toList = l.reported.take maxDiagnostics
  lines : lx.metrics.lines = l.fed.length
  chars : lx.metrics.chars = (l.fed.map (·.toList.length)).sum

section Balances

variable {lx : Lexer} {l : Ledger} {b : Nat}

theorem balances_fresh (settings : LexicalSettings) : ({ settings } : Lexer).Balances {} :=
  ⟨rfl, List.forall_mem_nil _, fun _ => rfl, rfl, rfl, rfl, rfl⟩

theorem Balances.feed (h : lx.Balances l) (hrests : lx.pending.Rests lx.settings.carryComments b)
    (text : String) (line : Nat) :
    (lx.feed text line).1.Balances (l.enter lx (.feed text line)) where
  emitted := by
    rw [feed_tokens, ← List.append_assoc]
    exact congrArg (· ++ lx.emitted text line) h.emitted
  unblank := List.forall_mem_append.mpr ⟨h.unblank, emitted_isEmitted text line hrests⟩
  tally := by
    intro hcollect
    rw [feed_settings] at hcollect
    rw [feed_tally, if_pos hcollect, h.tally hcollect]
    exact (Tally.ofTokens_append _ _).symm
  reported := by
    rw [feed_diagnosticCount, h.reported]
    exact List.length_append.symm
  kept := by
    rw [feed_diagnostics]
    exact kept_append h.kept _
  lines := by
    rw [feed_lines, h.lines]
    simp [Ledger.enter]
  chars := by
    rw [feed_chars, h.chars]
    simp [Ledger.enter]

theorem Balances.finish (h : lx.Balances l) : lx.finish.1.Balances (l.enter lx .finish) := by
  unfold Lexer.finish Ledger.enter unfinished
  split
  · refine ⟨h.emitted, h.unblank, h.tally, ?_, ?_, h.lines, h.chars⟩
    · rw [List.length_append, ← h.reported]
      exact foldl_absorb_diagnosticCount _ _
    · exact (foldl_absorb_diagnostics _ _).trans (kept_append h.kept _)
  · simpa using h

/-- Every call is entered as it is answered. -/
theorem Balances.call (h : lx.Balances l) (hrests : lx.pending.Rests lx.settings.carryComments b)
    (c : Call) : (lx.call c).1.Balances (l.enter lx c) := by
  cases c with
  | feed text line => exact h.feed hrests text line
  | finish => exact h.finish
  | reset => exact ⟨rfl, List.forall_mem_nil _, fun _ => rfl, rfl, rfl, rfl, rfl⟩
  | takeTokens =>
      refine ⟨?_, h.unblank, h.tally, h.reported, h.kept, h.lines, h.chars⟩
      simpa [Lexer.call, Lexer.takeTokens, Ledger.enter] using h.emitted
  | takeTrail => exact ⟨h.emitted, h.unblank, h.tally, h.reported, h.kept, h.lines, h.chars⟩

theorem foldl_keep (settings : LexicalSettings) (calls : List Call) :
    (calls.foldl keep ({ settings }, {})).1 = ({ settings } : Lexer).run calls := by
  induction calls using List.reverseRecOn with
  | nil => rfl
  | append_singleton calls c ih =>
      rw [List.foldl_append, run_concat, ← ih]
      rfl

theorem ledger_concat (settings : LexicalSettings) (calls : List Call) (c : Call) :
    ({ settings } : Lexer).ledger (calls ++ [c]) =
      (({ settings } : Lexer).ledger calls).enter (({ settings } : Lexer).run calls) c := by
  rw [ledger, List.foldl_append, ← foldl_keep]
  rfl

theorem balances_run (settings : LexicalSettings) (calls : List Call) :
    (({ settings } : Lexer).run calls).Balances (({ settings } : Lexer).ledger calls) := by
  induction calls using List.reverseRecOn with
  | nil => exact balances_fresh settings
  | append_singleton calls c ih =>
      obtain ⟨b, hrests⟩ := (show (({ settings } : Lexer).run calls).Reachable from
        ⟨settings, calls, rfl⟩).rests
      rw [run_concat, ledger_concat]
      exact ih.call hrests c

end Balances

/-- After any calls, failing ones included: the tokens at hand and those taken are the ones emitted
since the last reset, and, where they are counted, counted right, in all and class by class; the
diagnostics at hand are the first of those reported, which are all counted; and so are the texts and
their characters. -/
theorem run_balances (settings : LexicalSettings) (calls : List Call) :
    let lx := ({ settings } : Lexer).run calls
    let l := ({ settings } : Lexer).ledger calls
    l.taken ++ lx.tokens.toList = l.emitted
      ∧ (settings.collectMetrics = true →
        lx.metrics.tokens = Tally.ofTokens l.emitted
        ∧ lx.metrics.tokens.total = l.emitted.length
        ∧ (∀ c ≠ .blank, lx.metrics.tokens.count c = l.emitted.countP (·.kind.group = c))
        ∧ lx.metrics.tokens.sum = lx.metrics.tokens.total)
      ∧ (lx.metrics.diagnostics = l.reported.length
        ∧ lx.diagnostics.size = min lx.metrics.diagnostics maxDiagnostics
        ∧ lx.diagnostics.toList = l.reported.take maxDiagnostics)
      ∧ lx.metrics.lines = l.fed.length
      ∧ lx.metrics.chars = (l.fed.map (·.toList.length)).sum := by
  intro lx l
  have h : lx.Balances l := balances_run settings calls
  refine ⟨h.emitted, fun hcollect => ?_, ⟨h.reported, ?_, h.kept⟩, h.lines, h.chars⟩
  · have hsettings : lx.settings = settings := run_settings { settings } calls
    rw [h.tally (by rwa [hsettings]), Tally.total_ofTokens]
    exact ⟨rfl, rfl, fun c hc => Tally.count_ofTokens l.emitted hc, Tally.sum_ofTokens h.unblank⟩
  · rw [← Array.length_toList, h.kept, List.length_take, h.reported, Nat.min_comm]

/-- Counts after a call that fails, with the tokens taken before it. -/
theorem run_balances_taken :
    let calls : List Call := [.feed "a @ 1" 1, .takeTokens, .feed "init- \"x" 2, .finish]
    ({} : LexicalSettings).collectMetrics = true
      ∧ (({} : Lexer).run calls).metrics.tokens = Tally.ofTokens (({} : Lexer).ledger calls).emitted
      ∧ (({} : Lexer).run calls).metrics.tokens.sum =
        (({} : Lexer).run calls).metrics.tokens.total := by
  intro calls
  obtain ⟨htally, -, -, hsum⟩ := (run_balances {} calls).2.1 rfl
  exact ⟨rfl, htally, hsum⟩

end Lexer

end ContractLex
