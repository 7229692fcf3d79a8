/-!
# Byte offsets

A text is held in UTF-8, and a part of it is cut out by byte offsets. A cut can be made where a
character begins and at the end of the text, but not inside a character.
-/

namespace ContractLex.Text

/-- The byte offsets of characters, the first of which begins at `i`. -/
def offsetsFrom (i : Nat) : List Char → List Nat
  | [] => []
  | c :: rest => i :: offsetsFrom (i + c.utf8Size) rest

/-- The byte offsets of the characters of a text. -/
def offsets (text : String) : List Nat := offsetsFrom 0 text.toList

/-- The part of a text from byte `i` to byte `j`, if these are in order and a cut can be made at
both. -/
def cut? (text : String) (i j : Nat) : Option String :=
  if h : i ≤ j ∧ String.Pos.Raw.IsValid text ⟨i⟩ ∧ String.Pos.Raw.IsValid text ⟨j⟩ then
    some (text.extract (text.pos ⟨i⟩ h.2.1) (text.pos ⟨j⟩ h.2.2))
  else none

end ContractLex.Text
