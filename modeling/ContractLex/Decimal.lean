/-!
# Decimal numbers and the range of doubles

A decimal numeral `d · 10^e` is read as a double. `isBeyondDouble` says when the nearest double does
not exist because the numeral is too large, and `productIsBeyondDouble` when the product of the
doubles nearest to `d` and to `10^e` is too large, which differs from that only next to the limit.
`hundredths` rounds a quotient to two places.
-/

namespace ContractLex.Decimal

def natOfDigits (digits : List Char) : Nat :=
  digits.foldl (fun n c => 10 * n + (c.toNat - '0'.toNat)) 0

/-- The number that the first of the digits make, as many as keep it below the limit, and the digits
that are left. The first digit is written after `n`. -/
def leadingDigits (limit n : Nat) : List Char → Nat × List Char
  | [] => (n, [])
  | c :: cs =>
    let next := 10 * n + (c.toNat - '0'.toNat)
    if next < limit then leadingDigits limit next cs else (n, c :: cs)

/-! ## Doubles -/

/-- The double nearest to a natural number, from a tie the one with an even mantissa. -/
def nearestDouble (n : Nat) : Nat :=
  let unit := Nat.pow 2 (Nat.log2 n - 52)
  let q := n / unit
  let r := n % unit
  if unit < 2 * r ∨ (2 * r = unit ∧ q % 2 = 1) then (q + 1) * unit else q * unit

/-- Halfway from the largest double to the next power of two: what is not below rounds to
infinity. -/
def doubleLimit : Nat := Nat.pow 2 1024 - Nat.pow 2 970

/-- Whether `d · 10^e` is too large for a double. Numerals whose length alone decides are told apart
without computing the power. -/
def isBeyondDouble (d : Nat) (e : Int) : Bool :=
  if d = 0 then false
  else
    let width : Int := (Nat.toDigits 10 d).length + e
    if width ≤ 308 then false
    else if 310 ≤ width then true
    else if 0 ≤ e then doubleLimit ≤ d * Nat.pow 10 e.toNat
    else doubleLimit * Nat.pow 10 (-e).toNat ≤ d

def maxPowerOfTen : Nat := 308

/-- Whether `d · 10^e` is too large for a double when it is reached by rounding `d` and `10^e`
first. Dividing never leads too far. -/
def productIsBeyondDouble (d : Nat) (e : Int) : Bool :=
  if d = 0 ∨ e < 0 then false
  else if maxPowerOfTen < e then true
  else doubleLimit ≤ nearestDouble d * nearestDouble (Nat.pow 10 e.toNat)

/-! ## Hundredths -/

/-- The quotient `n / d` in hundredths, rounded to the nearest and from a tie to the even one. -/
def hundredths (n d : Nat) : Nat :=
  let q := 100 * n / d
  let r := 100 * n % d
  if d < 2 * r then q + 1
  else if 2 * r = d then q + q % 2
  else q

def renderHundredths (h : Nat) : String :=
  let places := h % 100
  toString (h / 100) ++ "." ++ (if places < 10 then "0" else "") ++ toString places

theorem leadingDigits_lt {limit n : Nat} (cs : List Char) (h : n < limit) :
    (leadingDigits limit n cs).1 < limit := by
  induction cs generalizing n with
  | nil => exact h
  | cons c cs ih =>
    simp only [leadingDigits]
    split
    · next hn => exact ih hn
    · exact h

/-- The rounded quotient is within half a hundredth. -/
theorem hundredths_near (n d : Nat) (hd : 0 < d) :
    2 * 100 * n ≤ 2 * hundredths n d * d + d ∧ 2 * hundredths n d * d ≤ 2 * 100 * n + d := by
  have hdiv : d * (100 * n / d) + 100 * n % d = 100 * n := Nat.div_add_mod ..
  have hmod : 100 * n % d < d := Nat.mod_lt _ hd
  unfold hundredths
  simp only
  generalize 100 * n / d = q at *
  generalize 100 * n % d = r at *
  have hq : d * q = q * d := Nat.mul_comm ..
  have hq1 : (q + 1) * d = q * d + d := Nat.succ_mul ..
  split
  · rw [Nat.mul_assoc 2 (q + 1)]
    omega
  · split
    · rcases Nat.mod_two_eq_zero_or_one q with h | h
      · rw [h, Nat.add_zero, Nat.mul_assoc 2 q]
        omega
      · rw [h, Nat.mul_assoc 2 (q + 1)]
        omega
    · rw [Nat.mul_assoc 2 q]
      omega

end ContractLex.Decimal
