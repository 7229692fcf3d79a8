import ContractLex.Discovery
import ContractLex.Dump.File
import ContractLex.Log.Journal
import ContractLex.Text.Blank

/-!
# Batches of source files

The files of a batch are lexed one after the other, with one lexer that is reset after each. What a
file leads to is its dump, an outcome, and a list of actions: what is logged and what is printed.
The actions depend on the file alone, so that files of a batch are not mixed up.
-/

namespace ContractLex

/-- Something a batch does that is to be seen. -/
inductive Action where
  | log (e : Event)
  | print (text : String)
  | complain (text : String)
  | enter (path : Path) (id : Nat)
  | leave
deriving DecidableEq, Repr

namespace Journal

def act (j : Journal) : Action → Journal
  | .log e => j.log e
  | .print text => j.put .out text
  | .complain text => j.put .err text
  | .enter path id => j.enter path id
  | .leave => j.leave

def actAll (j : Journal) (actions : List Action) : Journal := actions.foldl act j

end Journal

namespace Batch

/-- How dumps are made. -/
structure Mode where
  format : OutputFormat := .plain
  /-- Print them instead of writing files. -/
  toOutput : Bool := false
  /-- Make one even if there is no token. -/
  writeEmpty : Bool := false
deriving DecidableEq, Repr

inductive Outcome where
  | written
  | empty
  | lexFailed
  | unreadable
deriving DecidableEq, Repr

def Outcome.isFailure (o : Outcome) : Bool := o == .lexFailed || o == .unreadable

/-- What came of a piece of work: the files after it, its outcome and its actions. -/
structure Result where
  files : Files
  outcome : Outcome
  actions : List Action

def complaint (message : String) : Action := .complain ("Error: " ++ message)

/-- What the user is told about a line that was abandoned. -/
def lexErrorText (e : LexError) : String :=
  "Lexer Error at line " ++ e.position.render ++ "\n Message: " ++ e.message

def emitTokens (m : Mode) (files : Files) (p : Path) (ts : List Token) : Result :=
  if ts.isEmpty && !m.writeEmpty then ⟨files, .empty, []⟩
  else if m.toOutput then ⟨files, .written, [.print (Text.trimEnd (Dump.render m.format ts))]⟩
  else
    let w := Dump.writeTokens files p ts m.format
    let logged := w.events.map Action.log
    match w.result with
    | .ok q => ⟨w.files, .written, logged ++ [.print (p.text ++ " -> " ++ q.text)]⟩
    | .error e => ⟨w.files, .unreadable, logged ++ [complaint e.message]⟩

/-- Shows that lexing the file at `p` failed, in place of its dump. -/
def emitError (m : Mode) (files : Files) (p : Path) (e : LexError) : Result :=
  if m.toOutput then ⟨files, .lexFailed, [.print (Dump.renderError e)]⟩
  else
    let w := Dump.writeError files p e
    let logged := w.events.map Action.log
    match w.result with
    | .ok _ => ⟨w.files, .lexFailed, logged⟩
    | .error e =>
      ⟨w.files, .lexFailed, logged ++ [.log (e.event.tag "file" p.text), complaint e.message]⟩

def process (m : Mode) (lx : Lexer) (files : Files) (p : Path) : Lexer × Result :=
  let (lx, result, events) := lx.feedFile files p
  let logged := events.map Action.log
  match result with
  | .error e => (lx, ⟨files, .unreadable, logged ++ [complaint e.message]⟩)
  | .ok report =>
    let shown := logged ++ report.errors.map fun e => .print (lexErrorText e)
    match report.errors with
    | [] =>
      let r := emitTokens m files p lx.tokens.toList
      (lx, { r with actions := shown ++ r.actions })
    | first :: _ =>
      let r :=
        if m.format = .json then emitError m files p first
        else emitTokens m files p lx.tokens.toList
      (lx, ⟨r.files, .lexFailed, shown ++ r.actions⟩)

structure Progress where
  files : Files
  lexer : Lexer
  outcomes : List Outcome := []
  actions : List Action := []

/-- Works on the next file, which is number `id`. -/
def Progress.next (m : Mode) (b : Progress) (p : Path) (id : Nat) : Progress :=
  let (lx, r) := process m b.lexer b.files p
  { files := r.files
    lexer := lx.reset
    outcomes := b.outcomes ++ [r.outcome]
    actions := b.actions ++ .enter p id :: (r.actions ++ [.leave]) }

/-- Works on files, of which the first is number `id`. -/
def run (m : Mode) (b : Progress) (id : Nat) : List Path → Progress
  | [] => b
  | p :: rest => run m (b.next m p id) (id + 1) rest

namespace Progress

def written (b : Progress) : Nat := b.outcomes.countP (· == .written)

def failed (b : Progress) : Nat := b.outcomes.countP Outcome.isFailure

/-- What the log hears at the end. Time is not measured, so the duration is zero. -/
def closing (b : Progress) : Event :=
  ((((Event.success "I022" "Lexing completed").tag "files" (toString b.outcomes.length)).tag
    "written" (toString b.written)).tag "failed" (toString b.failed)).tag "duration_ms" "0"

end Progress

end Batch

end ContractLex
