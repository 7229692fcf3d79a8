import ContractLex.Text.Hex
import ContractLex.Text.Visible

/-!
# Quoted text

How an error message quotes a character or a text that the user wrote: between quotes, with a
backslash before the quote and before the backslash, the usual short forms for NUL, tab and line
breaks, and the code point in braces for every other character that is not visible.
-/

namespace ContractLex.Text

/-- `c` as it stands in a text quoted with `quote`. -/
def quoteChar (quote c : Char) : String :=
  if c = '\x00' then "\\0"
  else if c = '\t' then "\\t"
  else if c = '\r' then "\\r"
  else if c = '\n' then "\\n"
  else if c = quote ∨ c = '\\' then String.ofList ['\\', c]
  else if isVisible c then c.toString
  else "\\u\x7b" ++ hexDigits c ++ "\x7d"

def escapedChar (c : Char) : String := if c = '"' then "\\\"" else quoteChar '\'' c

def quotedChar (c : Char) : String := "'" ++ quoteChar '\'' c ++ "'"

def quoted (s : String) : String :=
  "\"" ++ String.join (s.toList.map (quoteChar '"')) ++ "\""

end ContractLex.Text
