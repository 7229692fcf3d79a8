/-!
# Blank characters

The characters with the property White_Space of the Unicode Character Database, and how a text is
freed of those at its end.
-/

namespace ContractLex.Text

/-- Ranges of blank characters, both ends included. -/
def blankRanges : List (Nat × Nat) := [
  (0x9, 0xd), (0x20, 0x20), (0x85, 0x85), (0xa0, 0xa0), (0x1680, 0x1680), (0x2000, 0x200a),
  (0x2028, 0x2029), (0x202f, 0x202f), (0x205f, 0x205f), (0x3000, 0x3000)]

def isBlank (c : Char) : Bool := blankRanges.any fun (low, high) => low ≤ c.toNat && c.toNat ≤ high

def trimEnd (text : String) : String :=
  String.ofList (text.toList.reverse.dropWhile isBlank).reverse

def trim (text : String) : String := trimEnd (String.ofList (text.toList.dropWhile isBlank))

end ContractLex.Text
