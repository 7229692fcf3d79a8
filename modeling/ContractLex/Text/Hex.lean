/-!
# Hexadecimal digits

The value of a hexadecimal digit in either letter case, and the digits of a code point.
-/

namespace ContractLex.Text

def hexValue? (c : Char) : Option Nat :=
  if c.isDigit then some (c.toNat - '0'.toNat)
  else if 'a' ≤ c ∧ c ≤ 'f' then some (c.toNat - 'a'.toNat + 10)
  else if 'A' ≤ c ∧ c ≤ 'F' then some (c.toNat - 'A'.toNat + 10)
  else none

/-- The code point of `c` in lower-case digits. -/
def hexDigits (c : Char) : String := String.ofList (Nat.toDigits 16 c.toNat)

theorem hexValue?_lt {c : Char} {n : Nat} (h : hexValue? c = some n) : n < 16 := by
  unfold hexValue? at h
  split at h
  · next hd =>
    have hc : c.val.toNat ≤ '9'.val.toNat :=
      UInt32.le_iff_toNat_le.1 (of_decide_eq_true (Bool.and_eq_true_iff.1 hd).2)
    have h9 : '9'.val.toNat = 57 := rfl
    have h0 : '0'.toNat = 48 := rfl
    have hn : c.toNat = c.val.toNat := rfl
    have := Option.some.inj h
    omega
  · split at h
    · next hd =>
      have hc : c.val.toNat ≤ 'f'.val.toNat := UInt32.le_iff_toNat_le.1 hd.2
      have hf : 'f'.val.toNat = 102 := rfl
      have ha : 'a'.toNat = 97 := rfl
      have hn : c.toNat = c.val.toNat := rfl
      have := Option.some.inj h
      omega
    · split at h
      · next hd =>
        have hc : c.val.toNat ≤ 'F'.val.toNat := UInt32.le_iff_toNat_le.1 hd.2
        have hf : 'F'.val.toNat = 70 := rfl
        have ha : 'A'.toNat = 65 := rfl
        have hn : c.toNat = c.val.toNat := rfl
        have := Option.some.inj h
        omega
      · exact absurd h (by simp)

end ContractLex.Text
