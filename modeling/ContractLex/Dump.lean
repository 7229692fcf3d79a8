import ContractLex.Path
import ContractLex.Payload
import ContractLex.Settings.Basic

/-!
# Token dumps

A dump shows the tokens of a source: one line per token, or the JSON payload. It is kept beside its
source, in a file of nearly the same name.
-/

namespace ContractLex.Dump

def stemSuffix : String := "_tokens"

/-- One line `KIND | text` per token. -/
def plain (ts : List Token) : String :=
  ts.foldl (fun out t => out ++ t.render ++ "\n") ""

def render : OutputFormat → List Token → String
  | .plain, ts => plain ts
  | .json, ts => (Payload.ofTokens ts).render

/-- The failure of a call, which has one form only. -/
def renderError (e : LexError) : String := (Payload.ofError e).render

/-- The name of the dump of a file with the given name: the stem is made longer, and the extension
stays. -/
def fileName (name : List Char) : List Char :=
  let (stem, extension) := Path.splitName name
  stem ++ stemSuffix.toList ++
    match extension with
    | some extension => '.' :: extension
    | none => []

/-- The path of the dump of the file at `p`, if `p` ends in a file name. -/
def path? (p : Path) : Option Path :=
  p.fileName?.map fun name => p.withFileName (String.ofList (fileName name))

end ContractLex.Dump
