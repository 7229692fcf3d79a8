import ContractLex.Scanner.Scan
import ContractLex.Settings.Basic

/-!
# The lexer

A lexer is fed one text at a time, usually a line, and accumulates tokens, diagnostics and counts.
It scans with `scan` and `Pending.finish`; what these find is added by `absorb`, so that nothing
which was accumulated has an influence on what is found. Everything the log should hear is put down
in `trail`, which whoever owns the log hands on and clears.
-/

namespace ContractLex

def maxDiagnostics : Nat := 10000

/-- Counts since the lexer was made or reset. -/
structure Metrics where
  /-- Tokens by group, if they are counted. -/
  tokens : Tally := {}
  /-- Diagnostics, including those not kept. -/
  diagnostics : Nat := 0
  comments : Nat := 0
  lines : Nat := 0
  chars : Nat := 0
deriving DecidableEq, Repr

/-- What the log hears from a lexer. -/
inductive Note where
  | feeding (line chars : Nat)
  | fault (state : State) (d : Diagnostic)
  | stuck (state : State) (character : Char) (position : Position)
  | carrying (line : Nat)
  | flushed (line tokens : Nat)
deriving DecidableEq, Repr

/-- A lexer between two calls. -/
structure Lexer where
  settings : LexicalSettings := {}
  pending : Pending := {}
  tokens : Array Token := #[]
  diagnostics : Array Diagnostic := #[]
  metrics : Metrics := {}
  /-- What the log has not heard yet. -/
  trail : Array Note := #[]
deriving Repr

namespace Lexer

def state (lx : Lexer) : State := lx.pending.state

def addToken (lx : Lexer) (t : Token) : Lexer :=
  { lx with
    tokens := lx.tokens.push t
    metrics :=
      if lx.settings.collectMetrics then
        { lx.metrics with tokens := lx.metrics.tokens.add t.kind }
      else lx.metrics }

/-- Adds a diagnostic: it is always counted, kept while there is room, and logged if it is terminal
or diagnostics are logged. -/
def addDiagnostic (lx : Lexer) (s : State) (d : Diagnostic) : Lexer :=
  { lx with
    diagnostics :=
      if lx.diagnostics.size < maxDiagnostics then lx.diagnostics.push d else lx.diagnostics
    metrics := { lx.metrics with diagnostics := lx.metrics.diagnostics + 1 }
    trail :=
      if lx.settings.logDiagnostics || d.kind.isTerminal then lx.trail.push (.fault s d)
      else lx.trail }

def addComment (lx : Lexer) : Lexer :=
  { lx with metrics := { lx.metrics with comments := lx.metrics.comments + 1 } }

def absorb (lx : Lexer) : Finding → Lexer
  | .token t => lx.addToken t
  | .fault s d => lx.addDiagnostic s d
  | .comment => lx.addComment

def note (lx : Lexer) (n : Note) : Lexer := { lx with trail := lx.trail.push n }

def absorbScan (lx : Lexer) (s : Scan) : Lexer :=
  let lx := { lx with
    pending := s.pending
    metrics := { lx.metrics with
      lines := lx.metrics.lines + 1, chars := lx.metrics.chars + s.used } }
  s.findings.foldl absorb lx

def absorbEnding (lx : Lexer) (e : Ending) : Lexer :=
  e.findings.foldl absorb { lx with pending := e.pending }

def feed (lx : Lexer) (text : String) (line : Nat) : Lexer × Except LexError Unit :=
  let chars := text.toList
  let source := chars.toArray
  let s := scan source line 0 lx.pending #[] chars
  let lx := (lx.note (.feeding line source.size)).absorbScan s
  match s.stuck with
  | some (state, c) =>
    let p : Position := ⟨line, s.used⟩
    (lx.note (.stuck state c p), .error (.handOverLimit state c p))
  | none =>
    let e := s.pending.finish ⟨source, line, source.size⟩ lx.settings.carryComments
    let lx := lx.absorbEnding e
    match e.result with
    | .error error => (lx, .error error)
    | .ok () =>
      if lx.state.isBlockComment then (lx.note (.carrying line), .ok ())
      else (lx.note (.flushed line lx.tokens.size), .ok ())

/-- Ends the whole input: a block comment that is still open is a fault. -/
def finish (lx : Lexer) : Lexer × Except LexError Unit :=
  if lx.state.isBlockComment then
    let e := lx.pending.terminate ⟨#[], 0, 0⟩ .openComment
    (lx.absorbEnding e, e.result)
  else (lx, .ok ())

/-- Moves the tokens out and leaves the rest as it is. -/
def takeTokens (lx : Lexer) : Array Token × Lexer := (lx.tokens, { lx with tokens := #[] })

/-- Forgets everything but the settings, and what the log has not heard yet. -/
def reset (lx : Lexer) : Lexer := { settings := lx.settings, trail := lx.trail }

def takeTrail (lx : Lexer) : Array Note × Lexer := (lx.trail, { lx with trail := #[] })

end Lexer

end ContractLex
