/-!
# Digits

1. `digitValue?` reads a digit of base sixteen in either case; `lowerDigit` and `upperDigit` write
   one.
2. `numberOf` is the number that digits write, the most significant first.
-/

namespace FleetControl.Text

/-- The value of a digit of base sixteen. -/
def digitValue? (c : Char) : Option Nat :=
  let n := c.toNat
  if 48 ≤ n && n ≤ 57 then some (n - 48)
  else if 97 ≤ n && n ≤ 102 then some (n - 87)
  else if 65 ≤ n && n ≤ 70 then some (n - 55)
  else none

/-- The digit of base sixteen for a value, in lower case. -/
def lowerDigit (n : Nat) : Char :=
  if n < 10 then Char.ofNat (48 + n) else Char.ofNat (87 + n)

/-- The digit of base sixteen for a value, in upper case. -/
def upperDigit (n : Nat) : Char :=
  if n < 10 then Char.ofNat (48 + n) else Char.ofNat (55 + n)

/-- The number that digits of a base write. -/
def numberOf (base : Nat) (digits : List Char) : Nat :=
  digits.foldl (fun n c => n * base + (digitValue? c).getD 0) 0

/-! ## Small lemmas -/

theorem digitValue?_lowerDigit : ∀ n < 16, digitValue? (lowerDigit n) = some n := by decide

theorem digitValue?_upperDigit : ∀ n < 16, digitValue? (upperDigit n) = some n := by decide

theorem numberOf_append (base : Nat) (front : List Char) (c : Char) :
    numberOf base (front ++ [c]) = numberOf base front * base + (digitValue? c).getD 0 := by
  simp [numberOf]

end FleetControl.Text
