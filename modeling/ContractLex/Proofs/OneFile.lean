import ContractLex.Batch
import ContractLex.Proofs.Beside
import ContractLex.Proofs.Independence

/-!
# One file of a batch

What is written for a file is a text that depends on the contents of the file only (`dump?`), and it
is the only change to the files (`process_files`). The lexer that is handed on is a new one
(`process_reset`). Where a path leads to the same contents and dumps were written elsewhere, the
same is done with it (`process_alike`).
-/

namespace ContractLex

open Files Node

/-! ## Reading -/

namespace SourceFile

variable {files other : Files} {p : Path} {a : Admission} {source : SourceFile}
  {contents : ByteArray}

theorem read_of_not (h : ∀ contents, files.read p ≠ .ok contents) (a : Admission) :
    ∃ e, read files a p = .error e := by
  rw [read]
  split
  · exact ⟨_, rfl⟩
  · split
    · exact ⟨_, rfl⟩
    · exact ⟨_, rfl⟩
    · exact ⟨_, rfl⟩
    · next size hget =>
      cases checkFile a p size with
      | error e => exact ⟨e, rfl⟩
      | ok => exact ⟨_, rfl⟩
    · next contents hget => exact absurd (read_iff_get.mpr hget) (h contents)

/-- A source file is made of the contents of a file, and nothing else. -/
theorem read_congr (h : ∀ contents, other.read p = .ok contents ↔ files.read p = .ok contents)
    (a : Admission) :
    (∃ source, read files a p = .ok source ∧ read other a p = .ok source)
    ∨ (∃ e, read files a p = .error e) ∧ ∃ e, read other a p = .error e := by
  by_cases hread : ∃ contents, files.read p = .ok contents
  · obtain ⟨contents, hread⟩ := hread
    have hget := read_iff_get.mp hread
    have hother := read_iff_get.mp ((h contents).mpr hread)
    have hsame : read other a p = read files a p := by rw [read, read, hget, hother]
    rw [hsame]
    cases read files a p with
    | ok source => exact Or.inl ⟨source, rfl, rfl⟩
    | error e => exact Or.inr ⟨⟨e, rfl⟩, e, rfl⟩
  · have hnot := not_exists.mp hread
    exact Or.inr ⟨read_of_not hnot a, read_of_not (fun c hc => hnot c ((h c).mp hc)) a⟩

theorem text_of_ofContents {extension : Option String}
    (h : ofContents p extension contents = .ok source) :
    Text.ofBytes contents = .ok source.text := by
  rw [ofContents] at h
  split at h
  · cases h
  · next text htext =>
    dsimp only at h
    split at h
    · cases h
    · cases h
      exact htext

theorem read_eq_ok (h : read files a p = .ok source) :
    ∃ contents, files.read p = .ok contents ∧ Text.ofBytes contents = .ok source.text := by
  rw [read] at h
  split at h
  · cases h
  · split at h
    · cases h
    · cases h
    · cases h
    · obtain ⟨-, -, hlocked⟩ := bind_eq_ok.mp h
      cases hlocked
    · next contents hget =>
      obtain ⟨-, -, hcontents⟩ := bind_eq_ok.mp h
      exact ⟨contents, read_iff_get.mpr hget, text_of_ofContents hcontents⟩

end SourceFile

namespace Batch

variable {m : Mode} {s : LexicalSettings} {files after : Files} {p : Path}

/-! ## What is written -/

/-- The dump of tokens, if it is to be written. -/
def tokensText? (m : Mode) (ts : List Token) : Option String :=
  if ts.isEmpty && !m.writeEmpty || m.toOutput then none else some (Dump.render m.format ts)

/-- The dump of tokens or errors, if it is to be written. -/
def resultText? (m : Mode) (ts : List Token) : List LexError → Option String
  | [] => tokensText? m ts
  | first :: _ =>
    if m.format = .json then if m.toOutput then none else some (Dump.renderError first)
    else tokensText? m ts

/-- What is to be written beside a file with a text. -/
def dumpText? (m : Mode) (s : LexicalSettings) (text : String) : Option String :=
  let (lx, errors) := ({ settings := s } : Lexer).feedSourceRecovering text
  resultText? m lx.tokens.toList errors

/-- What is to be written beside the file at `p`. -/
def dump? (m : Mode) (s : LexicalSettings) (files : Files) (p : Path) : Option String :=
  match SourceFile.read files {} p with
  | .ok source => dumpText? m s source.text
  | .error _ => none

def writeDump (files : Files) (p : Path) : Option String → Files
  | none => files
  | some text => (Dump.writeText files p text).files

/-- What is done with what was read of the file at `p`. -/
def handle (m : Mode) (files : Files) (p : Path) (ts : List Token) (errors : List LexError) :
    Result :=
  match errors with
  | [] => emitTokens m files p ts
  | first :: _ =>
    let r := if m.format = .json then emitError m files p first else emitTokens m files p ts
    { r with outcome := .lexFailed }

theorem emitTokens_files (ts : List Token) :
    (emitTokens m files p ts).files = writeDump files p (tokensText? m ts) := by
  rw [emitTokens, tokensText?]
  cases ts.isEmpty && !m.writeEmpty with
  | true => rfl
  | false =>
      cases m.toOutput with
      | true => rfl
      | false =>
          simp only [Bool.false_eq_true, if_false, Bool.or_self, writeDump, Dump.writeTokens]
          split <;> split <;> simp_all

theorem emitError_files (e : LexError) :
    (emitError m files p e).files =
      writeDump files p (if m.toOutput then none else some (Dump.renderError e)) := by
  rw [emitError]
  cases m.toOutput with
  | true => rfl
  | false =>
      simp only [Bool.false_eq_true, if_false, writeDump, Dump.writeError]
      split <;> rfl

theorem handle_files (ts : List Token) (errors : List LexError) :
    (handle m files p ts errors).files = writeDump files p (resultText? m ts errors) := by
  cases errors with
  | nil => exact emitTokens_files ts
  | cons first rest =>
      simp only [handle, resultText?]
      split
      · exact emitError_files first
      · exact emitTokens_files ts

/-! ## One file -/

theorem feedSourceRecovering_settings (lx : Lexer) (text : String) :
    (lx.feedSourceRecovering text).1.settings = lx.settings := by
  obtain ⟨calls, hcalls⟩ := lx.exists_run_serve (.feedSourceRecovering text)
  exact (congrArg Lexer.settings hcalls).trans (lx.run_settings calls)

theorem process_of_error {e : SourceError} (h : SourceFile.read files {} p = .error e)
    (lx : Lexer) :
    process m lx files p = (lx, ⟨files, .unreadable,
      (SourceFile.readingEvents p (.error e)).map Action.log ++ [complaint e.message]⟩) := by
  rw [process, Lexer.feedFile, h]

/-- The lexer that is left has nothing for the log to hear; what is done depends on the text of the
file and on where its dump goes. -/
theorem process_of_ok {source : SourceFile} (h : SourceFile.read files {} p = .ok source)
    (lx : Lexer) :
    ∃ events : List Event, process m lx files p =
      let (fed, errors) := lx.feedSourceRecovering source.text
      let r := handle m files p fed.tokens.toList errors;
      (fed.takeTrail.2, ⟨r.files, r.outcome,
        events.map Action.log ++ (errors.map fun e => .print (lexErrorText e)) ++ r.actions⟩) := by
  rcases hfed : lx.feedSourceRecovering source.text with ⟨fed, errors⟩
  refine ⟨SourceFile.readingEvents p (.ok source) ++ fed.takeEvents.2, ?_⟩
  cases errors with
  | nil => simp [process, Lexer.feedFile, h, hfed, handle, Lexer.takeEvents, Lexer.takeTrail]
  | cons first rest =>
      simp [process, Lexer.feedFile, h, hfed, handle, Lexer.takeEvents, Lexer.takeTrail]

/-- Whatever happened to a file, the next one gets a new lexer. -/
theorem process_reset (m : Mode) (s : LexicalSettings) (files : Files) (p : Path) :
    (process m { settings := s } files p).1.reset = { settings := s } := by
  cases h : SourceFile.read files {} p with
  | error e =>
      rw [process_of_error h]
      rfl
  | ok source =>
      obtain ⟨events, hprocess⟩ := process_of_ok (m := m) h { settings := s }
      rw [hprocess]
      have hsettings := feedSourceRecovering_settings { settings := s } source.text
      simp only [Lexer.reset, Lexer.takeTrail, hsettings]

theorem process_files (m : Mode) (s : LexicalSettings) (files : Files) (p : Path) :
    (process m { settings := s } files p).2.files = writeDump files p (dump? m s files p) := by
  cases h : SourceFile.read files {} p with
  | error e =>
      rw [process_of_error h, dump?, h]
      rfl
  | ok source =>
      obtain ⟨events, hprocess⟩ := process_of_ok (m := m) h { settings := s }
      rw [hprocess, dump?, h]
      exact handle_files _ _

/-! ## Success -/

end Batch

/-! ## The same in other files -/

/-- What a user sees of an action on the output, and where it belongs. -/
def Action.isShown : Action → Bool
  | .print _ => true
  | .enter _ _ => true
  | .leave => true
  | .log _ => false
  | .complain _ => false

namespace Batch

variable {m : Mode} {s : LexicalSettings} {places : List String → Prop} {files other : Files}
  {p : Path}

theorem filter_isShown_log (events : List Event) :
    (events.map Action.log).filter Action.isShown = [] := by
  simp [List.filter_map, Function.comp_def, Action.isShown]

/-- The same outcome, and the same on the output. -/
structure Alike (r r' : Result) : Prop where
  outcome : r'.outcome = r.outcome
  shown : r'.actions.filter Action.isShown = r.actions.filter Action.isShown

/-- A dump is written in one case if it is in the other. -/
theorem writeText_alike (h : Gained places files other) (p : Path) (text : String) :
    (∃ q, (Dump.writeText files p text).result = .ok q
      ∧ (Dump.writeText other p text).result = .ok q)
    ∨ (∃ e, (Dump.writeText files p text).result = .error e)
      ∧ ∃ e, (Dump.writeText other p text).result = .error e := by
  rcases Dump.writeText_cases files p text with
    ⟨q, place, hq, hsits, hfree, hwritten⟩ | ⟨hnot, e, events, hwritten⟩ <;>
  rcases Dump.writeText_cases other p text with
    ⟨q', place', hq', hsits', hfree', hwritten'⟩ | ⟨hnot', e', events', hwritten'⟩
  · cases hq.symm.trans hq'
    exact Or.inl ⟨q, by rw [hwritten], by rw [hwritten']⟩
  · exact absurd (h.isFree.mpr hfree) (hnot' q place hq (h.sits.mpr hsits))
  · exact absurd (h.isFree.mp hfree') (hnot q' place' hq' (h.sits.mp hsits'))
  · exact Or.inr ⟨⟨e, by rw [hwritten]⟩, e', by rw [hwritten']⟩

theorem emitTokens_alike (h : Gained places files other) (ts : List Token) :
    Alike (emitTokens m files p ts) (emitTokens m other p ts) := by
  rw [emitTokens, emitTokens]
  split
  · exact ⟨rfl, rfl⟩
  · split
    · exact ⟨rfl, rfl⟩
    · simp only [Dump.writeTokens]
      rcases writeText_alike h p (Dump.render m.format ts) with
        ⟨q, hq, hq'⟩ | ⟨⟨e, he⟩, e', he'⟩
      · simp only [hq, hq']
        exact ⟨rfl, by simp only [List.filter_append, filter_isShown_log]⟩
      · simp only [he, he']
        exact ⟨rfl, by simp only [List.filter_append, filter_isShown_log]; rfl⟩

theorem emitError_alike (h : Gained places files other) (e : LexError) :
    Alike (emitError m files p e) (emitError m other p e) := by
  rw [emitError, emitError]
  split
  · exact ⟨rfl, rfl⟩
  · simp only [Dump.writeError]
    rcases writeText_alike h p (Dump.renderError e) with ⟨q, hq, hq'⟩ | ⟨⟨e, he⟩, e', he'⟩
    · simp only [hq, hq']
      exact ⟨rfl, by rw [filter_isShown_log, filter_isShown_log]⟩
    · simp only [he, he']
      exact ⟨rfl, by simp only [List.filter_append, filter_isShown_log]; rfl⟩

theorem handle_alike (h : Gained places files other) (ts : List Token) (errors : List LexError) :
    Alike (handle m files p ts errors) (handle m other p ts errors) := by
  cases errors with
  | nil => exact emitTokens_alike h ts
  | cons first rest =>
      simp only [handle]
      split
      · exact ⟨rfl, (emitError_alike h first).shown⟩
      · exact ⟨rfl, (emitTokens_alike h ts).shown⟩

theorem process_alike (h : Gained places files other)
    (hread : ∀ contents, other.read p = .ok contents ↔ files.read p = .ok contents) :
    Alike (process m { settings := s } files p).2 (process m { settings := s } other p).2
      ∧ dump? m s other p = dump? m s files p := by
  rcases SourceFile.read_congr hread {} with ⟨source, hsource, hother⟩ | ⟨⟨e, he⟩, e', he'⟩
  · obtain ⟨events, hprocess⟩ := process_of_ok (m := m) hsource { settings := s }
    obtain ⟨events', hprocess'⟩ := process_of_ok (m := m) hother { settings := s }
    have halike := handle_alike (m := m) (p := p) h
      (({ settings := s } : Lexer).feedSourceRecovering source.text).1.tokens.toList
      (({ settings := s } : Lexer).feedSourceRecovering source.text).2
    rw [hprocess, hprocess', dump?, dump?, hsource, hother]
    refine ⟨⟨halike.outcome, ?_⟩, rfl⟩
    simp only [List.filter_append, filter_isShown_log, halike.shown]
  · rw [process_of_error he, process_of_error he', dump?, dump?, he, he']
    refine ⟨⟨rfl, ?_⟩, rfl⟩
    simp only [List.filter_append, filter_isShown_log]
    rfl

end Batch

end ContractLex
