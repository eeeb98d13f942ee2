/-!
# Doubles as exact numbers

A finite binary64 number is a sign, a mantissa and a power of two; arithmetic on it is exact
arithmetic on naturals followed by one rounding to the nearest double, a tie going to the even
mantissa.

1. `ofRatio?` rounds a quotient of naturals; `none` is an overflow.
2. `mul?` and `div?` round the exact product and quotient.
3. `ofDecimal?` reads decimal digits and a power of ten: the digits rounded to a double, then one
   multiplication or division by a power of ten, rounded again.
-/

namespace FleetControl

/-- A finite double: `(-1) ^ negative * mantissa * 2 ^ exponent`. -/
structure Binary64 where
  negative : Bool
  mantissa : Nat
  exponent : Int
  deriving DecidableEq, Repr, Inhabited

namespace Binary64

/-- The least exponent of a double, that of the subnormals. -/
def minExponent : Int := -1074

def maxExponent : Int := 971

def zero : Binary64 := ⟨false, 0, minExponent⟩

/-- The quotient rounded to a natural, half to even. -/
def roundDiv (num den : Nat) : Nat :=
  let q := num / den
  let r := num % den
  if 2 * r < den then q
  else if den < 2 * r then q + 1
  else if q % 2 = 0 then q else q + 1

/-- The pair `num / den` divided by `2 ^ e`. -/
def scaleDown (num den : Nat) (e : Int) : Nat × Nat :=
  match e with
  | .ofNat k => (num, den * Nat.pow 2 k)
  | .negSucc k => (num * Nat.pow 2 (k + 1), den)

/-- The nonnegative double nearest to `num / den`; `none` if it is past the largest. -/
def ofRatio? (num den : Nat) : Option Binary64 :=
  if num = 0 then some zero
  else
    let guess := max minExponent ((num.log2 : Int) - (den.log2 : Int) - 52)
    let (n₀, d₀) := scaleDown num den guess
    let e := if n₀ / d₀ < Nat.pow 2 52 && minExponent < guess then guess - 1 else guess
    let (n, d) := scaleDown num den e
    let m := roundDiv n d
    let (m, e) := if m = Nat.pow 2 53 then (Nat.pow 2 52, e + 1) else (m, e)
    if maxExponent < e then none else some ⟨false, m, e⟩

def ratio (x : Binary64) : Nat × Nat :=
  match x.exponent with
  | .ofNat k => (x.mantissa * Nat.pow 2 k, 1)
  | .negSucc k => (x.mantissa, Nat.pow 2 (k + 1))

def ofNat? (n : Nat) : Option Binary64 :=
  ofRatio? n 1

/-- The product of the magnitudes, rounded. -/
def mul? (x y : Binary64) : Option Binary64 :=
  let (a, b) := x.ratio
  let (c, d) := y.ratio
  ofRatio? (a * c) (b * d)

/-- The quotient of the magnitudes, rounded. -/
def div? (x y : Binary64) : Option Binary64 :=
  let (a, b) := x.ratio
  let (c, d) := y.ratio
  ofRatio? (a * d) (b * c)

def withSign (negative : Bool) (x : Binary64) : Binary64 :=
  { x with negative }

def powerOfTen? (k : Nat) : Option Binary64 :=
  ofNat? (Nat.pow 10 k)

/-- The largest power of ten that divides or multiplies in one step. -/
def stride : Nat := 308

/-- Divides by `10 ^ stride` the given number of times; zero stays zero. -/
def divStrides? (x : Binary64) : Nat → Option Binary64
  | 0 => some x
  | n + 1 =>
    if x.mantissa = 0 then some x
    else
      match powerOfTen? stride >>= x.div? with
      | none => none
      | some y => y.divStrides? n

/-- Divides by a positive power of ten: whole strides first, then what is left. -/
def divPowerOfTen? (x : Binary64) (k : Nat) : Option Binary64 := do
  let strides := (k - 1) / stride
  let y ← x.divStrides? strides
  let power ← powerOfTen? (k - strides * stride)
  if y.mantissa = 0 then some y else y.div? power

/-- Reads `digits * 10 ^ exponent`; `none` is an overflow. -/
def ofDecimal? (digits : Nat) (exponent : Int) : Option Binary64 := do
  let x ← ofNat? digits
  match exponent with
  | .ofNat k =>
    if k ≤ stride then powerOfTen? k >>= x.mul?
    else if x.mantissa = 0 then some x
    else none
  | .negSucc k => divPowerOfTen? x (k + 1)

end Binary64

end FleetControl
