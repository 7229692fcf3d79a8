import ContractLex.Proofs.Tracked
import ContractLex.Proofs.Unlined

/-!
# What the log hears

A lexer puts down in its trail what the log should hear, and the journal hears it after every call
(`Heard.hear`). Of the events that it hears, the warnings and errors are the diagnostics that were
recorded, one for one and in their order, those for which there was no room among them; or, if
diagnostics are not logged, the terminal ones. `call_warnings` says so of one call: everything else
that a call puts down is about the course of its work, and the note that a character was handed on
too often is never put down (`feed_eq`).

Hearing them, the journal collects them for the file that is being worked on, whatever its service
delivers (`Journal.logAll_collector`). `Heard.run_tells` puts this together for a run.
-/

namespace ContractLex

/-! ## Diagnostics as events -/

/-- That an event tells of a diagnostic, whatever its context. -/
structure Diagnostic.ToldBy (d : Diagnostic) (e : Event) : Prop where
  level : e.level = if d.kind.isTerminal then .error else .warning
  code : e.code = d.kind.code
  message : e.message = d.message
  span : e.span = some ⟨⟨d.line, d.column⟩, ⟨d.line, d.column + 1⟩⟩

/-- Errors and warnings. -/
def Event.warns (e : Event) : Bool := e.isError || e.isWarning

def Note.warns (n : Note) : Bool := n.event.warns

/-- Whether a diagnostic is logged. -/
def LexicalSettings.tells (s : LexicalSettings) (d : Diagnostic) : Bool :=
  s.logDiagnostics || d.kind.isTerminal

/-- What is put down of a finding. -/
def Finding.note? (s : LexicalSettings) : Finding → Option Note
  | .fault st d => if s.tells d then some (.fault st d) else none
  | .token _ | .comment => none

section Notes

variable {d : Diagnostic} {st : State} {s : LexicalSettings}

theorem Diagnostic.toldBy_event (d : Diagnostic) (st : State) : d.ToldBy (d.event st) := by
  by_cases h : d.kind.isTerminal = true
  · rw [Diagnostic.event, if_pos h]
    exact ⟨(if_pos h).symm, rfl, rfl, rfl⟩
  · rw [Diagnostic.event, if_neg h]
    exact ⟨(if_neg h).symm, rfl, rfl, rfl⟩

theorem Diagnostic.ToldBy.warns {e : Event} (h : d.ToldBy e) : e.warns = true := by
  rw [Event.warns, Event.isError, Event.isWarning, h.level]
  split <;> rfl

@[simp] theorem Note.warns_fault : (Note.fault st d).warns = true := (d.toldBy_event st).warns

@[simp] theorem Note.warns_feeding (line chars : Nat) : (Note.feeding line chars).warns = false :=
  rfl

@[simp] theorem Note.warns_carrying (line : Nat) : (Note.carrying line).warns = false := rfl

@[simp] theorem Note.warns_flushed (line tokens : Nat) :
    (Note.flushed line tokens).warns = false := rfl

/-- What is put down of findings are warnings and errors. -/
theorem filter_notes (s : LexicalSettings) (fs : List Finding) :
    (fs.filterMap (Finding.note? s)).filter Note.warns = fs.filterMap (Finding.note? s) := by
  refine List.filter_eq_self.mpr fun n hn => ?_
  obtain ⟨f, -, hf⟩ := List.mem_filterMap.mp hn
  cases f with
  | token | comment => cases hf
  | fault st d =>
      simp only [Finding.note?, Option.ite_none_right_eq_some, Option.some.injEq] at hf
      rw [← hf.2, Note.warns_fault]

theorem notes_tell (s : LexicalSettings) (fs : List Finding) :
    List.Forall₂ Diagnostic.ToldBy ((diagnosticsOf fs).filter s.tells)
      ((fs.filterMap (Finding.note? s)).map Note.event) := by
  induction fs with
  | nil => exact .nil
  | cons f fs ih =>
      cases f with
      | token | comment => exact ih
      | fault st d =>
          rw [diagnosticsOf_fault, List.filter_cons, List.filterMap_cons]
          by_cases h : s.tells d = true
          · simp only [Finding.note?, h, if_true, List.map_cons]
            exact .cons (d.toldBy_event st) ih
          · simp only [Finding.note?, h]
            exact ih

end Notes

namespace Lexer

/-! ## One call -/

/-- What a call finds. -/
def found (lx : Lexer) : Call → List Finding
  | .feed text line => (lx.reading text line).findings
  | .finish =>
      if lx.state.isBlockComment then (lx.pending.terminate ⟨#[], 0, 0⟩ .openComment).findings
      else []
  | .reset | .takeTokens | .takeTrail => []

/-- The diagnostics that a call records, those included for which there is no room. -/
def recorded (lx : Lexer) (c : Call) : List Diagnostic := diagnosticsOf (lx.found c)

/-- That a call records `ds`: they are counted, and kept as far as there is room. -/
structure Records (lx : Lexer) (c : Call) (ds : List Diagnostic) : Prop where
  kept : (lx.call c).1.diagnostics.toList =
    lx.diagnostics.toList ++ ds.take (maxDiagnostics - lx.diagnostics.size)
  count : (lx.call c).1.metrics.diagnostics = lx.metrics.diagnostics + ds.length

section Call

variable {lx : Lexer} {c : Call}

theorem call_records (lx : Lexer) (hc : c ≠ .reset) : lx.Records c (lx.recorded c) := by
  have hrecords {fs : List Finding} (h : lx.Adds fs (lx.call c).1) :
      lx.Records c (diagnosticsOf fs) := ⟨h.diagnostics, h.count⟩
  cases c with
  | feed text line => exact hrecords (lx.adds_feed text line)
  | finish =>
      refine hrecords ?_
      simp only [found, call, finish]
      split
      · exact adds_absorbEnding lx _
      · exact adds_nil lx
  | reset => exact absurd rfl hc
  | takeTokens | takeTrail => exact ⟨by simp [recorded, found, call, takeTokens, takeTrail], rfl⟩

theorem absorb_trail (lx : Lexer) (f : Finding) :
    (lx.absorb f).trail.toList = lx.trail.toList ++ (f.note? lx.settings).toList := by
  cases f with
  | token | comment => exact (List.append_nil _).symm
  | fault st d =>
      have htrail : (lx.absorb (.fault st d)).trail =
          if lx.settings.tells d then lx.trail.push (.fault st d) else lx.trail := rfl
      rw [htrail, Finding.note?]
      split
      · exact Array.toList_push
      · exact (List.append_nil _).symm

theorem foldl_absorb_trail (fs : List Finding) :
    ∀ lx : Lexer, (fs.foldl absorb lx).trail.toList =
      lx.trail.toList ++ fs.filterMap (Finding.note? lx.settings) := by
  induction fs with
  | nil => exact fun lx => by simp
  | cons f fs ih =>
      intro lx
      have hsettings : (lx.absorb f).settings = lx.settings := by cases f <;> rfl
      rw [List.foldl_cons, ih, absorb_trail, hsettings, List.append_assoc, List.filterMap_cons]
      cases f.note? lx.settings <;> rfl

theorem feed_warnings (lx : Lexer) (text : String) (line : Nat) :
    (lx.feed text line).1.trail.toList.filter Note.warns =
      lx.trail.toList.filter Note.warns
        ++ (lx.reading text line).findings.filterMap (Finding.note? lx.settings) := by
  have hfed : (lx.fed text line).trail.toList.filter Note.warns =
      lx.trail.toList.filter Note.warns
        ++ (lx.reading text line).findings.filterMap (Finding.note? lx.settings) := by
    rw [fed, foldl_absorb_trail, List.filter_append]
    simp only [through, note, Array.toList_push, List.filter_append, filter_notes]
    simp
  rw [feed_eq]
  split
  · exact hfed
  · split <;> simp [note, hfed]

/-- The warnings and errors that a call puts down are what it has found and is to be logged. -/
theorem call_warnings (h : lx.trail = #[]) (c : Call) :
    (lx.call c).1.trail.toList.filter Note.warns =
      (lx.found c).filterMap (Finding.note? lx.settings) := by
  cases c with
  | feed text line => simp [call, found, feed_warnings, h]
  | finish =>
      simp only [found, call, finish]
      split
      · rw [absorbEnding, foldl_absorb_trail, List.filter_append, filter_notes]
        simp [h]
      · simp [h]
  | reset | takeTokens | takeTrail => simp [call, found, reset, takeTokens, takeTrail, h]

end Call

/-! ## A run -/

/-- The lexer when the log has heard everything. -/
def untold (lx : Lexer) : Lexer := { lx with trail := #[] }

/-- The diagnostics that calls record. -/
def recordedAll (lx : Lexer) : List Call → List Diagnostic
  | [] => []
  | c :: rest => lx.recorded c ++ (lx.call c).1.recordedAll rest

/-- The events that the log is handed, if it is after every call. -/
def handed (lx : Lexer) : List Call → List Event
  | [] => []
  | c :: rest =>
      let (ly, events) := (lx.call c).1.takeEvents
      events ++ ly.handed rest

theorem call_untold (lx : Lexer) (c : Call) :
    (lx.untold.call c).1.untold = (lx.call c).1.untold := by
  have hafter : lx = lx.untold.after lx.trail := by simp [after, untold]
  cases c with
  | feed text line =>
      conv_rhs => rw [hafter]
      rw [call, call, feed_after]
      rfl
  | finish =>
      conv_rhs => rw [hafter]
      rw [call, call, finish_after]
      rfl
  | reset | takeTokens | takeTrail => rfl

theorem recordedAll_untold (calls : List Call) :
    ∀ lx : Lexer, lx.untold.recordedAll calls = lx.recordedAll calls := by
  induction calls with
  | nil => exact fun _ => rfl
  | cons c rest ih =>
      intro lx
      have hsame : lx.untold.recorded c = lx.recorded c := by cases c <;> rfl
      rw [recordedAll, recordedAll, hsame, ← ih, call_untold, ih]

/-- The warnings and errors that are handed over tell of the diagnostics that are recorded. -/
theorem handed_tell (calls : List Call) :
    ∀ lx : Lexer, lx.trail = #[] →
      List.Forall₂ Diagnostic.ToldBy ((lx.recordedAll calls).filter lx.settings.tells)
        ((lx.handed calls).filter Event.warns) := by
  induction calls with
  | nil => exact fun _ _ => .nil
  | cons c rest ih =>
      intro lx h
      have hrest := ih (lx.call c).1.untold rfl
      have hsettings : (lx.call c).1.untold.settings = lx.settings := lx.call_settings c
      rw [recordedAll_untold, hsettings] at hrest
      have hfirst := notes_tell lx.settings (lx.found c)
      rw [← call_warnings h c, show Note.warns = Event.warns ∘ Note.event from rfl,
        ← List.filter_map] at hfirst
      rw [recordedAll, handed, List.filter_append, List.filter_append]
      exact List.rel_append hfirst hrest

end Lexer

/-! ## What the journal collects -/

namespace Journal

/-- What no event changes. -/
structure Steady (j j' : Journal) : Prop where
  service : j'.service = j.service
  context : j'.context = j.context
  settings : j'.settings = j.settings

variable {j j' : Journal} {s : Service} {ctx : FileContext}

theorem deliver_eq (j : Journal) (s : Service) (e : Event) :
    ∃ memory lines, j.deliver s e = { j with memory, lines } := by
  have hput (channel : Channel) (text : String) :
      ∃ memory lines, j.put channel text = { j with memory, lines } := ⟨_, _, rfl⟩
  unfold deliver
  split
  · next e' _ =>
    cases s.sink with
    | null => exact ⟨_, _, rfl⟩
    | console min | structured min =>
        simp only [hand]
        split
        · exact hput _ _
        · exact ⟨_, _, rfl⟩
    | memory => exact ⟨_, _, rfl⟩
    | facade =>
        simp only [hand, offer]
        split
        · exact hput _ _
        · exact ⟨_, _, rfl⟩
  · exact ⟨_, _, rfl⟩

theorem withFile_warns (j : Journal) (e : Event) : (j.withFile e).warns = e.warns := by
  unfold withFile
  split
  · split <;> rfl
  · rfl

theorem toldBy_withFile {d : Diagnostic} {e : Event} (h : d.ToldBy e) (j : Journal) :
    d.ToldBy (j.withFile e) := by
  unfold withFile
  split
  · split
    · exact ⟨h.level, h.code, h.message, h.span⟩
    · exact h
  · exact h

theorem Steady.withFile (h : j.Steady j') : j'.withFile = j.withFile := by
  funext e
  rw [Journal.withFile, Journal.withFile, h.context, h.settings]

theorem collect_eq (hctx : j.context = some ctx) (e : Event) :
    j.collect e =
      { j with collector := if e.warns then j.collector.record ctx.path e else j.collector } := by
  have hcollect : j.collect e =
      if e.warns then { j with collector := j.collector.record ctx.path e } else j := by
    rw [collect, hctx]
    rfl
  rw [hcollect]
  split <;> rfl

/-- An event is collected if it warns, whatever the service delivers. -/
theorem log_collector (hs : j.service = some s) (hctx : j.context = some ctx) (e : Event) :
    j.Steady (j.log e) ∧ (j.log e).collector =
      if e.warns then j.collector.record ctx.path (j.withFile e) else j.collector := by
  have hlog : j.log e = (j.collect (j.withFile e)).deliver s (j.withFile e) := by
    simp only [log, hs]
  obtain ⟨memory, lines, hdeliver⟩ := (j.collect (j.withFile e)).deliver_eq s (j.withFile e)
  rw [hlog, hdeliver, collect_eq hctx, withFile_warns]
  exact ⟨⟨rfl, rfl, rfl⟩, rfl⟩

/-- The warnings and errors that are collected, each with the file that is being worked on. -/
def entries (j : Journal) (ctx : FileContext) (es : List Event) : List Collector.Entry :=
  (es.filter Event.warns).map fun e => ⟨ctx.path, j.withFile e⟩

theorem logAll_collector (es : List Event) :
    ∀ {j : Journal}, j.service = some s → j.context = some ctx →
      (j.logAll es).collector = j.collector.recordAll (j.entries ctx es) := by
  induction es with
  | nil => exact fun _ _ => rfl
  | cons e es ih =>
      intro j hs hctx
      obtain ⟨hsteady, hcollector⟩ := log_collector hs hctx e
      have hnext := ih (hsteady.service.trans hs) (hsteady.context.trans hctx)
      rw [entries, hsteady.withFile, hcollector] at hnext
      rw [logAll, List.foldl_cons, entries, List.filter_cons]
      refine hnext.trans ?_
      split <;> rfl

end Journal

/-! ## Hearing a run -/

namespace Heard

/-- Makes a call; the journal hears what the lexer has put down. -/
def hear (w : Heard) (c : Call) : Heard :=
  let (lx, events) := (w.lexer.call c).1.takeEvents
  ⟨lx, w.journal.logAll events⟩

def hearAll (w : Heard) (calls : List Call) : Heard := calls.foldl hear w

theorem hearAll_journal (calls : List Call) :
    ∀ w : Heard, (w.hearAll calls).journal = w.journal.logAll (w.lexer.handed calls) := by
  induction calls with
  | nil => exact fun _ => rfl
  | cons c rest ih =>
      intro w
      refine (ih (w.hear c)).trans ?_
      rw [Lexer.handed, Journal.logAll, Journal.logAll, List.foldl_append]
      rfl

theorem hearAll_lexer (calls : List Call) :
    ∀ w : Heard, w.lexer.trail = #[] → (w.hearAll calls).lexer = (w.lexer.run calls).untold := by
  induction calls using List.reverseRecOn with
  | nil => exact fun w h => by simp [hearAll, Lexer.run, Lexer.untold, ← h]
  | append_singleton calls c ih =>
      intro w h
      have hhear : (w.hearAll (calls ++ [c])).lexer =
          ((w.hearAll calls).lexer.call c).1.untold := by
        rw [hearAll, List.foldl_append]
        rfl
      rw [hhear, ih w h, Lexer.call_untold, Lexer.run_concat]

theorem eventsOf_entries (j : Journal) (ctx : FileContext) (es : List Event) :
    Collector.eventsOf (j.entries ctx es) ctx.path.key = (j.entries ctx es).map (·.event) := by
  rw [Collector.eventsOf, List.filter_eq_self.mpr]
  intro r hr
  obtain ⟨e, -, rfl⟩ := List.mem_map.mp hr
  exact decide_eq_true rfl

theorem entries_tell {ds : List Diagnostic} {es : List Event} (j : Journal) (ctx : FileContext)
    (h : List.Forall₂ Diagnostic.ToldBy ds (es.filter Event.warns)) :
    List.Forall₂ Diagnostic.ToldBy ds ((j.entries ctx es).map (·.event)) := by
  rw [Journal.entries, List.map_map, List.forall₂_map_right_iff]
  exact h.imp fun _ _ htold => Journal.toldBy_withFile htold j

/-- What the log hears of a lexer while a service is installed. The warnings and errors tell, one
for one and in their order, of the diagnostics that calls record, kept or not, or of the terminal
ones if diagnostics are not logged. For the file that is being worked on, if there is one, the
collector records them all, whatever the service delivers, and keeps the first. -/
theorem run_tells {lx : Lexer} (htrail : lx.trail = #[]) (calls : List Call) {j : Journal}
    {s : Service} (hs : j.service = some s) :
    let w := hearAll ⟨lx, j⟩ calls
    let told := (lx.recordedAll calls).filter fun d =>
      lx.settings.logDiagnostics || d.kind.isTerminal
    (∀ before c, c ≠ .reset → (lx.run before).Records c ((lx.run before).recorded c))
      ∧ w.lexer = (lx.run calls).untold
      ∧ w.journal = j.logAll (lx.handed calls)
      ∧ List.Forall₂ Diagnostic.ToldBy told ((lx.handed calls).filter Event.warns)
      ∧ ∀ ctx, j.context = some ctx →
        let entries := j.entries ctx (lx.handed calls)
        List.Forall₂ Diagnostic.ToldBy told (entries.map (·.event))
          ∧ w.journal.collector = j.collector.recordAll entries
          ∧ ∀ earlier, j.collector = .recordAll {} earlier →
            w.journal.collector.events ctx.path =
              if ctx.path.key ∈ Collector.tracked (earlier ++ entries) then
                FileEvents.keep
                  (Collector.eventsOf earlier ctx.path.key ++ entries.map (·.event))
              else [] := by
  intro w told
  have htell : List.Forall₂ Diagnostic.ToldBy told ((lx.handed calls).filter Event.warns) :=
    Lexer.handed_tell calls lx htrail
  have hjournal : w.journal = j.logAll (lx.handed calls) := hearAll_journal calls ⟨lx, j⟩
  refine ⟨fun before c hc => (lx.run before).call_records hc, hearAll_lexer calls ⟨lx, j⟩ htrail,
    hjournal, htell, fun ctx hctx => ?_⟩
  intro entries
  have hcollector : w.journal.collector = j.collector.recordAll entries :=
    hjournal ▸ Journal.logAll_collector (lx.handed calls) hs hctx
  refine ⟨entries_tell j ctx htell, hcollector, fun earlier hearlier => ?_⟩
  rw [hcollector, hearlier, ← Collector.recordAll_append,
    (Collector.keeps_recordAll _).events_eq, Collector.kept, Collector.eventsOf_append,
    eventsOf_entries]

/-- A service that delivers nothing, with a literal that fails and a comment that is still open
when the input ends. -/
theorem run_tells_silent :
    let lx : Lexer := { settings := { carryComments := true, logDiagnostics := false } }
    let calls : List Call := [.feed "a @ 'b" 1, .reset, .feed "/* c" 2, .finish]
    let told := (lx.recordedAll calls).filter fun d =>
      lx.settings.logDiagnostics || d.kind.isTerminal
    let ctx : FileContext := ⟨⟨"a.spc"⟩, 0⟩
    let j : Journal := { service := some ⟨.null, .error⟩, context := some ctx }
    let entries := j.entries ctx (lx.handed calls)
    (lx.trail = #[] ∧ j.service = some ⟨.null, .error⟩ ∧ j.context = some ctx
        ∧ j.collector = .recordAll {} [])
      ∧ (lx.run [.feed "/* c" 2]).Records .finish ((lx.run [.feed "/* c" 2]).recorded .finish)
      ∧ told.map (·.kind) = [.unterminatedChar, .unterminatedBlockComment]
      ∧ List.Forall₂ Diagnostic.ToldBy told (entries.map (·.event))
      ∧ (hearAll ⟨lx, j⟩ calls).journal.collector.events ctx.path =
        if ctx.path.key ∈ Collector.tracked ([] ++ entries) then
          FileEvents.keep (Collector.eventsOf [] ctx.path.key ++ entries.map (·.event))
        else [] := by
  intro lx calls told ctx j entries
  have htrail : lx.trail = #[] := rfl
  have hservice : j.service = some ⟨.null, .error⟩ := rfl
  obtain ⟨hrecords, -, -, -, hfile⟩ := run_tells htrail calls hservice
  obtain ⟨htell, -, hkept⟩ := hfile ctx rfl
  exact ⟨⟨htrail, hservice, rfl, rfl⟩, hrecords [.feed "/* c" 2] .finish nofun,
    by decide +kernel, htell, hkept [] rfl⟩

end Heard

end ContractLex
