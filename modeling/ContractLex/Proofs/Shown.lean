import ContractLex.Proofs.JsonText
import ContractLex.Proofs.PlainDump
import ContractLex.Proofs.Unmixed
import Mathlib.Data.List.DropRight

/-!
# Dumps on the output

A dump that is printed loses the blanks at its end and gets a line feed. So what is printed differs
from what is written to a file if there are other blanks at the end of that than one line feed
(`Text.trimEnd_eq_iff`). JSON has none there. A plain dump has some just if the text of its last
token is empty or ends in a blank (`Dump.trimEnd_plain_iff`), which only a literal in quotes or text
that was skipped does (`Kind.Reads.visible`).

While dumps are printed no file changes, and a batch prints for each file what it prints for that
file alone (`Batch.run_output`).
-/

namespace ContractLex

/-! ## Blanks at the end of a text -/

namespace Text

/-- A text without the line feed at its end, if there is one. -/
def dropFeed (text : String) : String :=
  if text.toList.getLast? = some '\n' then String.ofList text.toList.dropLast else text

theorem dropFeed_of_concat {text : String} {cs : List Char} (h : text.toList = cs ++ ['\n']) :
    (dropFeed text).toList = cs := by
  simp [dropFeed, h]

theorem dropFeed_of_ne {text : String} (h : text.toList.getLast? ≠ some '\n') :
    dropFeed text = text := if_neg h

theorem toList_trimEnd (text : String) :
    (trimEnd text).toList = text.toList.rdropWhile isBlank := by
  rw [trimEnd, String.toList_ofList, List.rdropWhile]

/-- A line feed is a blank. -/
theorem rdropWhile_dropFeed (text : String) :
    (dropFeed text).toList.rdropWhile isBlank = text.toList.rdropWhile isBlank := by
  rcases text.toList.eq_nil_or_concat' with hnil | ⟨cs, c, hcs⟩
  · rw [dropFeed_of_ne (by simp [hnil])]
  · by_cases hc : c = '\n'
    · subst hc
      rw [dropFeed_of_concat hcs, hcs, List.rdropWhile_concat_pos _ _ _ (by decide)]
    · rw [dropFeed_of_ne (by simp [hcs, hc])]

/-- Only blanks are trimmed. -/
theorem trimEnd_append (text : String) :
    ∃ blanks, (∀ c ∈ blanks, isBlank c = true) ∧ text.toList = (trimEnd text).toList ++ blanks := by
  refine ⟨text.toList.rtakeWhile isBlank, fun c hc => List.mem_rtakeWhile_imp hc, ?_⟩
  rw [toList_trimEnd, List.rdropWhile_append_rtakeWhile]

/-- A text is trimmed by no more than a line feed if no other blank comes at its end. -/
theorem trimEnd_eq_iff (text : String) : trimEnd text = dropFeed text ↔
    ∀ c ∈ (dropFeed text).toList.getLast?, isBlank c = false := by
  rw [← String.toList_inj, toList_trimEnd, ← rdropWhile_dropFeed, List.rdropWhile_eq_self_iff]
  rcases (dropFeed text).toList.eq_nil_or_concat' with hnil | ⟨cs, c, hcs⟩
  · simp [hnil]
  · simp [hcs]

end Text

/-! ## Blanks at the end of a dump -/

/-- The line of a token ends in a blank. If the text is empty, that is the blank before it. -/
def Token.EndsInBlank (t : Token) : Prop := ∀ c ∈ t.text.toList.getLast?, Text.isBlank c = true

theorem Payload.getLast?_render (p : Payload) : p.render.toList.getLast? = some '}' := by
  cases p <;> rw [render, Json.toList_render, toRecord, Json.text, List.getLast?_concat]

namespace Dump

/-- Nothing is trimmed of a payload. -/
theorem trimEnd_payload (p : Payload) :
    Text.trimEnd p.render = p.render ∧ Text.dropFeed p.render = p.render := by
  have hlast := p.getLast?_render
  have hdrop : Text.dropFeed p.render = p.render := Text.dropFeed_of_ne (by simp [hlast])
  have hvisible : ∀ c ∈ (Text.dropFeed p.render).toList.getLast?, Text.isBlank c = false := by
    rw [hdrop, hlast]
    intro c hc
    cases hc
    decide
  exact ⟨((Text.trimEnd_eq_iff p.render).mpr hvisible).trans hdrop, hdrop⟩

theorem dropFeed_plain_concat (front : List Token) (t : Token) :
    (Text.dropFeed (plain (front ++ [t]))).toList =
      (plain front).toList ++ t.render.toList := by
  refine Text.dropFeed_of_concat ?_
  rw [toList_plain, toList_plain]
  simp

/-- A plain dump is trimmed by just its last line feed if the line of the last token does not end in
a blank. -/
theorem trimEnd_plain_iff (ts : List Token) :
    Text.trimEnd (plain ts) = Text.dropFeed (plain ts) ↔ ∀ t ∈ ts.getLast?, ¬ t.EndsInBlank := by
  rw [Text.trimEnd_eq_iff]
  rcases ts.eq_nil_or_concat' with rfl | ⟨front, t, rfl⟩
  · exact iff_of_true (by simp [plain, Text.dropFeed]) (by simp)
  · have hlast : (Text.dropFeed (plain (front ++ [t]))).toList.getLast? =
        some (t.text.toList.getLast?.getD ' ') := by
      rw [dropFeed_plain_concat, toList_render]
      simp [List.getLast?_append, List.getLast?_cons]
    rw [hlast, List.getLast?_concat]
    rcases t.text.toList.eq_nil_or_concat' with hnil | ⟨cs, c, hcs⟩
    · simp [Token.EndsInBlank, hnil]
      decide
    · simp [Token.EndsInBlank, hcs]

/-- JSON is trimmed by nothing. -/
theorem trimEnd_render_iff (format : OutputFormat) (ts : List Token) :
    Text.trimEnd (render format ts) = Text.dropFeed (render format ts) ↔
      (format = .plain → ∀ t ∈ ts.getLast?, ¬ t.EndsInBlank) := by
  cases format with
  | plain => exact (trimEnd_plain_iff ts).trans (by simp)
  | json =>
      obtain ⟨htrim, hdrop⟩ := trimEnd_payload (Payload.ofTokens ts)
      exact iff_of_true (htrim.trans hdrop.symm) nofun

end Dump

/-! ## What is printed for a file -/

namespace Batch

variable {m : Mode} {s : LexicalSettings} {files : Files} {p : Path}

/-- The same dumps, but in files. -/
def Mode.toFiles (m : Mode) : Mode := { m with toOutput := false }

/-- What is printed for the file at `p`. -/
def shown (m : Mode) (s : LexicalSettings) (files : Files) (p : Path) : String :=
  printed (process m { settings := s } files p).2.actions

/-- What the user is told about the lines that were abandoned. -/
def complaints (errors : List LexError) : String :=
  printed (errors.map fun e => .print (lexErrorText e))

/-- A dump as it is printed. -/
def shownDump : Option String → String
  | some contents => Text.trimEnd contents ++ "\n"
  | none => ""

theorem printed_logged (events : List Event) : printed (events.map Action.log) = "" := by
  induction events with
  | nil => rfl
  | cons e events ih => exact ih

theorem emitTokens_shown (hout : m.toOutput = true) (ts : List Token) :
    (emitTokens m files p ts).files = files
      ∧ printed (emitTokens m files p ts).actions = shownDump (tokensText? m.toFiles ts) := by
  rw [emitTokens, tokensText?]
  cases h : ts.isEmpty && !m.writeEmpty with
  | true => simp [Mode.toFiles, h, printed, shownDump]
  | false => simp [Mode.toFiles, h, hout, printed, shownDump]

theorem emitError_shown (hout : m.toOutput = true) (e : LexError) :
    (emitError m files p e).files = files
      ∧ printed (emitError m files p e).actions = shownDump (some (Dump.renderError e)) := by
  have htrim : Text.trimEnd (Dump.renderError e) = Dump.renderError e :=
    (Dump.trimEnd_payload (Payload.ofError e)).1
  simp [emitError, hout, printed, shownDump, htrim]

/-- A dump is printed where it would have been written. -/
theorem handle_shown (hout : m.toOutput = true) (ts : List Token) (errors : List LexError) :
    (handle m files p ts errors).files = files
      ∧ printed (handle m files p ts errors).actions =
        shownDump (resultText? m.toFiles ts errors) := by
  cases errors with
  | nil => exact emitTokens_shown hout ts
  | cons first rest =>
      by_cases hjson : m.format = .json
      · have hformat : m.toFiles.format = .json := hjson
        simp only [handle, resultText?, hjson, hformat, if_true]
        exact emitError_shown hout first
      · have hformat : ¬ m.toFiles.format = .json := hjson
        simp only [handle, resultText?, if_neg hjson, if_neg hformat]
        exact emitTokens_shown hout ts

theorem shown_of_ok {source : SourceFile} (h : SourceFile.read files {} p = .ok source)
    (hout : m.toOutput = true) (s : LexicalSettings) :
    shown m s files p =
      complaints (({ settings := s } : Lexer).feedSourceRecovering source.text).2
        ++ shownDump (dumpText? m.toFiles s source.text) := by
  obtain ⟨events, hprocess⟩ := process_of_ok (m := m) h { settings := s }
  rw [shown, hprocess]
  simp only [printed_append, printed_logged, (handle_shown hout _ _).2, String.empty_append]
  rfl

theorem process_output (hout : m.toOutput = true) (s : LexicalSettings) (files : Files) (p : Path) :
    (process m { settings := s } files p).2.files = files := by
  cases h : SourceFile.read files {} p with
  | error e => rw [process_of_error h]
  | ok source =>
      obtain ⟨events, hprocess⟩ := process_of_ok (m := m) h { settings := s }
      rw [hprocess]
      exact (handle_shown hout _ _).1

/-- A batch whose dumps are printed changes no file, and prints for each what it prints for that
one alone. -/
theorem run_output (hout : m.toOutput = true) (paths : List Path) :
    ∀ (b : Progress) (id : Nat), b.lexer = { settings := s } →
      (run m b id paths).files = b.files
        ∧ printed (run m b id paths).actions =
          printed b.actions ++ String.join (paths.map (shown m s b.files)) := by
  induction paths with
  | nil => exact fun b id _ => ⟨rfl, by simp [run, String.join]⟩
  | cons p paths ih =>
      intro b id hlexer
      have hfiles : (b.next m p id).files = b.files := by
        rw [next_eq, hlexer]
        exact process_output hout s b.files p
      have hreset : (b.next m p id).lexer = { settings := s } := by
        rw [next_eq, hlexer]
        exact process_reset m s b.files p
      have hprinted : printed (b.next m p id).actions =
          printed b.actions ++ shown m s b.files p := by
        rw [next_eq, hlexer, printed_append]
        simp only [printed, printed_append, String.append_empty]
        rfl
      obtain ⟨hafter, hrest⟩ := ih (b.next m p id) (id + 1) hreset
      rw [run, hafter, hrest, hprinted, hfiles, List.map_cons, String.join_cons,
        String.append_assoc]
      exact ⟨rfl, rfl⟩

end Batch

/-! ## Which tokens end in a blank -/

/-- Every token has read a word of its kind. -/
theorem Lexer.run_reads (settings : LexicalSettings) (calls : List Call) :
    ∀ t ∈ (({ settings } : Lexer).run calls).tokens.toList,
      ∃ w, t.kind.Reads w t.text.toList := by
  induction calls using List.reverseRecOn with
  | nil => exact List.forall_mem_nil _
  | append_singleton calls c ih =>
      rw [run_concat]
      cases c with
      | feed text line =>
          obtain ⟨b, hrests⟩ := (show (({ settings } : Lexer).run calls).Reachable from
            ⟨settings, calls, rfl⟩).rests
          rw [call, feed_tokens]
          exact List.forall_mem_append.mpr
            ⟨ih, fun t ht => ⟨_, emitted_reads hrests text line t ht⟩⟩
      | finish =>
          obtain ⟨fs, hnone, hadds⟩ := (({ settings } : Lexer).run calls).adds_finish
          rw [call, hadds.tokens, hnone, List.append_nil]
          exact ih
      | reset | takeTokens => exact List.forall_mem_nil _
      | takeTrail => exact ih

theorem Kind.Reads.endsInBlank {k : Kind} {w text : List Char} (h : k.Reads w text)
    (hend : ∀ c ∈ text.getLast?, Text.isBlank c = true) :
    k = .literal .char ∨ k = .literal .string ∨ k = .unknown := by
  rcases h.visible with hk | hk | ⟨hk, -⟩ | ⟨hne, hvisible⟩
  · exact Or.inl hk
  · exact Or.inr (Or.inl hk)
  · exact Or.inr (Or.inr hk)
  · have hblank := hend _ (List.getLast?_eq_getLast_of_ne_nil hne)
    rw [hvisible _ (List.getLast_mem hne)] at hblank
    cases hblank

theorem Lexer.feedSourceRecovering_endsInBlank (settings : LexicalSettings) (source : String) :
    ∀ t ∈ (({ settings } : Lexer).feedSourceRecovering source).1.tokens.toList, t.EndsInBlank →
      t.kind = .literal .char ∨ t.kind = .literal .string ∨ t.kind = .unknown := by
  obtain ⟨calls, hcalls⟩ := ({ settings } : Lexer).exists_run_serve (.feedSourceRecovering source)
  have hrun : (({ settings } : Lexer).feedSourceRecovering source).1 =
      ({ settings } : Lexer).run calls := hcalls
  intro t ht hend
  rw [hrun] at ht
  obtain ⟨w, hreads⟩ := run_reads settings calls t ht
  exact hreads.endsInBlank hend

/-! ## The command -/

namespace Batch

variable {m : Mode} {s : LexicalSettings} {files : Files} {p : Path}

/-- A dump that is to be made is trimmed by just its last line feed, unless it is a plain one whose
last token ends in a blank. -/
theorem trimEnd_dumpText?_iff {contents text : String} (h : dumpText? m s text = some contents) :
    Text.trimEnd contents = Text.dropFeed contents ↔
      (m.format = .plain → ∀ t ∈
        (({ settings := s } : Lexer).feedSourceRecovering text).1.tokens.toList.getLast?,
        ¬ t.EndsInBlank) := by
  have htokens {ts : List Token} (h : tokensText? m ts = some contents) :
      Dump.render m.format ts = contents := by
    unfold tokensText? at h
    split at h
    · cases h
    · exact Option.some.inj h
  unfold dumpText? at h
  rcases hfed : ({ settings := s } : Lexer).feedSourceRecovering text with ⟨lx, errors⟩
  rw [hfed] at h
  cases errors with
  | nil =>
      rw [← htokens h]
      exact Dump.trimEnd_render_iff m.format lx.tokens.toList
  | cons first rest =>
      simp only [resultText?] at h
      split at h
      · next hjson =>
        split at h
        · cases h
        · obtain rfl := Option.some.inj h
          obtain ⟨htrim, hdrop⟩ := Dump.trimEnd_payload (Payload.ofError first)
          refine iff_of_true (htrim.trans hdrop.symm) fun hplain => ?_
          cases hjson.symm.trans hplain
      · rw [← htokens h]
        exact Dump.trimEnd_render_iff m.format lx.tokens.toList

end Batch

namespace Command

/-- The command with dumps on the output. No file changes, and what is printed for a file is what it
would have written there, but for blanks at its end and with a line feed. That is all of it up to
its last line feed, unless the dump is a plain one and its last token has an empty text or one that
ends in a blank. Such a token is a literal in quotes, or it is text that was skipped. -/
theorem lexAll_shows {a : Arguments} (hout : a.toOutput = true) (env : Environment)
    (settings : Settings) (files : Files) :
    let m := mode a settings
    let s := settings.lexical
    let result := lexAll a env settings (journalFor settings env) files
    result.files = files
      ∧ result.out = String.join ((found a files).map (Batch.shown m s files))
      ∧ ∀ p source, SourceFile.read files {} p = .ok source →
        let lx := (({ settings := s } : Lexer).feedSourceRecovering source.text).1
        let errors := (({ settings := s } : Lexer).feedSourceRecovering source.text).2
        let written := Batch.dumpText? m.toFiles s source.text
        (Batch.process m.toFiles { settings := s } files p).2.files =
            Batch.writeDump files p written
          ∧ Batch.shown m s files p = Batch.complaints errors ++ Batch.shownDump written
          ∧ (∀ contents ∈ written,
            (∃ blanks, (∀ c ∈ blanks, Text.isBlank c = true)
              ∧ contents.toList = (Text.trimEnd contents).toList ++ blanks)
            ∧ (Text.trimEnd contents = Text.dropFeed contents ↔
              (m.format = .plain → ∀ t ∈ lx.tokens.toList.getLast?, ¬ t.EndsInBlank)))
          ∧ ∀ t ∈ lx.tokens.toList, t.EndsInBlank →
            t.kind = .literal .char ∨ t.kind = .literal .string ∨ t.kind = .unknown := by
  intro m s result
  have hmode : m.toOutput = true := hout
  obtain ⟨hfiles, hprinted⟩ := Batch.run_output (m := m) (s := s) hmode (found a files)
    { files, lexer := { settings := s } } 0 rfl
  refine ⟨?_, ?_, fun p source hread => ⟨?_, ?_, fun contents hcontents => ⟨?_, ?_⟩, ?_⟩⟩
  · exact (lexAll_files a env settings files _).trans hfiles
  · refine (lexAll_out a env settings files).trans (hprinted.trans ?_)
    exact String.empty_append
  · rw [Batch.process_files, Batch.dump?, hread]
  · exact Batch.shown_of_ok hread hmode s
  · exact Text.trimEnd_append contents
  · exact Batch.trimEnd_dumpText?_iff (m := m.toFiles) hcontents
  · exact Lexer.feedSourceRecovering_endsInBlank s source.text

/-- A file with a string that ends in a blank, and a file with a name. -/
def exampleFiles : Files where
  root := .folder [("a.spc", .file "\"a \"".toUTF8), ("b.spc", .file "b".toUTF8)]

def exampleSource (path text : String) : SourceFile where
  text
  facts := { path := ⟨path⟩, size := text.toUTF8.size, extension := some "spc", lineCount := 1 }

theorem lexAll_shows_examples :
    let a : Arguments := { paths := [⟨"a.spc"⟩, ⟨"b.spc"⟩], toOutput := true }
    let m := mode a {}
    a.toOutput = true
      ∧ SourceFile.read exampleFiles {} ⟨"b.spc"⟩ = .ok (exampleSource "b.spc" "b")
      ∧ Batch.dumpText? m.toFiles {} "b" = some "IDENT | b\n"
      ∧ (lexAll a {} {} (journalFor {} {}) exampleFiles).files = exampleFiles
      ∧ Batch.shown m {} exampleFiles ⟨"b.spc"⟩ = "IDENT | b\n"
      ∧ Text.trimEnd "IDENT | b\n" = Text.dropFeed "IDENT | b\n" := by
  intro a m
  have hread : SourceFile.read exampleFiles {} ⟨"b.spc"⟩ = .ok (exampleSource "b.spc" "b") := by
    decide +kernel
  have hwritten : Batch.dumpText? m.toFiles {} "b" = some "IDENT | b\n" := by decide +kernel
  obtain ⟨hfiles, -, hfile⟩ := lexAll_shows (a := a) rfl {} {} exampleFiles
  obtain ⟨-, hshown, hcontents, -⟩ := hfile _ _ hread
  refine ⟨rfl, hread, hwritten, hfiles, hshown.trans (by decide +kernel), ?_⟩
  refine (hcontents _ hwritten).2.mpr fun _ => ?_
  have hlast : (({ settings := {} } : Lexer).feedSourceRecovering "b").1.tokens.toList =
      [⟨.identifier, "b", 1, 0, 1⟩] := by decide +kernel
  show ∀ t ∈ (({ settings := {} } : Lexer).feedSourceRecovering "b").1.tokens.toList.getLast?,
    ¬ t.EndsInBlank
  rw [hlast]
  simp [Token.EndsInBlank]
  decide

/-- The blank at the end of a string is written to a file, but it is not printed. -/
theorem lexAll_shows_blank :
    ¬ ∀ (m : Batch.Mode) (s : LexicalSettings) (files : Files) (p : Path) (source : SourceFile)
        (contents : String),
      m.toOutput = true → SourceFile.read files {} p = .ok source →
      (({ settings := s } : Lexer).feedSourceRecovering source.text).2 = [] →
      (({ settings := s } : Lexer).feedSourceRecovering source.text).1.tokens ≠ #[] →
      Batch.dumpText? m.toFiles s source.text = some contents →
      Text.dropFeed (Batch.shown m s files p) = Text.dropFeed contents := by
  intro hall
  have heq := hall { toOutput := true } {} exampleFiles ⟨"a.spc"⟩ (exampleSource "a.spc" "\"a \"")
    "L_STRING | a \n" rfl (by decide +kernel) (by decide +kernel) (by decide +kernel)
    (by decide +kernel)
  revert heq
  decide +kernel

end Command

end ContractLex
