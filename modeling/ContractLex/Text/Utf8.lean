/-!
# Bytes as text

A byte string is a text if it is well-formed UTF-8. For one that is not, `Utf8.fault?` finds the
first place where it breaks, and how many bytes there cannot begin a character.
-/

namespace ContractLex.Text

/-- Where a byte string stops being well-formed. -/
inductive Utf8Fault where
  /-- `length` bytes from `index` on cannot stand there. -/
  | illFormed (length index : Nat)
  /-- The character that begins at `index` is cut off by the end. -/
  | incomplete (index : Nat)
deriving DecidableEq, Repr

def Utf8Fault.message : Utf8Fault → String
  | .illFormed length index => s!"invalid utf-8 sequence of {length} bytes from index {index}"
  | .incomplete index => s!"incomplete utf-8 byte sequence from index {index}"

namespace Utf8

/-- The ranges of the bytes after a leading byte: none for an ASCII byte, up to three for the
others. No character begins with a byte that has no entry. -/
def tails? (lead : UInt8) : Option (List (UInt8 × UInt8)) :=
  if lead < 0x80 then some []
  else if lead < 0xc2 then none
  else if lead ≤ 0xdf then some [(0x80, 0xbf)]
  else if lead = 0xe0 then some [(0xa0, 0xbf), (0x80, 0xbf)]
  else if lead = 0xed then some [(0x80, 0x9f), (0x80, 0xbf)]
  else if lead ≤ 0xef then some [(0x80, 0xbf), (0x80, 0xbf)]
  else if lead = 0xf0 then some [(0x90, 0xbf), (0x80, 0xbf), (0x80, 0xbf)]
  else if lead ≤ 0xf3 then some [(0x80, 0xbf), (0x80, 0xbf), (0x80, 0xbf)]
  else if lead = 0xf4 then some [(0x80, 0x8f), (0x80, 0xbf), (0x80, 0xbf)]
  else none

/-- Reads on inside a character that began at `index` and of which `taken` bytes have been read;
`wanted` are the ranges of those that are still to come. -/
def faultFrom (index taken : Nat) : List (UInt8 × UInt8) → List UInt8 → Option Utf8Fault
  | [], [] => none
  | [], b :: rest =>
    match tails? b with
    | none => some (.illFormed 1 (index + taken))
    | some wanted => faultFrom (index + taken) 1 wanted rest
  | _ :: _, [] => some (.incomplete index)
  | (low, high) :: wanted, b :: rest =>
    if low ≤ b && b ≤ high then faultFrom index (taken + 1) wanted rest
    else some (.illFormed taken index)

def fault? (bytes : List UInt8) : Option Utf8Fault := faultFrom 0 0 [] bytes

end Utf8

def ofBytes (bytes : ByteArray) : Except Utf8Fault String :=
  match String.fromUTF8? bytes with
  | some text => .ok text
  | none => .error ((Utf8.fault? bytes.toList).getD (.incomplete bytes.size))

end ContractLex.Text
