/-!
# Lines of a text

A line ends at a line feed, and a carriage return directly before that line feed belongs to the line
end as well. What follows the last line feed is a line only if it is not empty.
-/

namespace ContractLex.Text

/-- Drops one carriage return from the end of a line that is held in reverse. -/
def dropReturn : List Char → List Char
  | '\r' :: rest => rest
  | line => line

/-- Splits `rest`, where `line` holds in reverse the characters of the line under way and `done`
the lines before it. -/
def splitLines (done : Array String) (line : List Char) : List Char → Array String
  | [] => if line.isEmpty then done else done.push (String.ofList line.reverse)
  | c :: rest =>
    if c = '\n' then splitLines (done.push (String.ofList (dropReturn line).reverse)) [] rest
    else splitLines done (c :: line) rest

/-- The lines of a text, without their line ends. -/
def lines (text : String) : List String :=
  (splitLines #[] [] text.toList).toList

theorem splitLines_eq_append (done : Array String) (line rest : List Char) :
    splitLines done line rest = done ++ splitLines #[] line rest := by
  induction rest generalizing done line with
  | nil => by_cases h : line.isEmpty <;> simp [splitLines, h]
  | cons c rest ih =>
    by_cases h : c = '\n'
    · simp only [splitLines, h, if_true]
      rw [ih, ih (#[].push _)]
      simp [← Array.append_assoc]
    · simp only [splitLines, h, if_false]
      exact ih done (c :: line)

end ContractLex.Text
