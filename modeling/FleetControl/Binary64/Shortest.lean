import FleetControl.Binary64.Basic

/-!
# The fewest digits that read back

1. `Binary64.shortest` gives the decimal digits of a positive double: of all decimals with `n`
   significant digits that round to it, for the least such `n`, the nearest one.
2. `DecimalStyle` holds the decisions of a written form: which exponents are written positionally.
   `DecimalStyle.scientific` is the one in use.
-/

namespace FleetControl

/-- Decimal digits with the exponent of the first: `d₀.d₁d₂… * 10 ^ exponent`. -/
structure DecimalDigits where
  digits : List Char
  exponent : Int
  deriving DecidableEq, Repr, Inhabited

/-- How many decimal digits a natural has; zero has none. -/
def decimalLength (n : Nat) : Nat :=
  if n = 0 then 0 else (Nat.toDigits 10 n).length

namespace Binary64

/-- The exponent of the first decimal digit of a positive quotient. -/
def leadingExponent (num den : Nat) : Int :=
  if den ≤ num then (decimalLength (num / den) : Int) - 1
  else -(decimalLength ((den + num - 1) / num - 1) : Int)

/-- `num / den` in units of `10 ^ p`, as a quotient. -/
def inUnits (num den : Nat) (p : Int) : Nat × Nat :=
  match p with
  | .ofNat k => (num, den * Nat.pow 10 k)
  | .negSucc k => (num * Nat.pow 10 (k + 1), den)

/-- Whether `c * 10 ^ p` rounds to the magnitude of a double. -/
def readsBack (x : Binary64) (c : Nat) (p : Int) : Bool :=
  let y := match p with
    | .ofNat k => ofRatio? (c * Nat.pow 10 k) 1
    | .negSucc k => ofRatio? c (Nat.pow 10 (k + 1))
  y == some (x.withSign false)

/-- The decimal with unit `10 ^ p` nearest to a double among its two neighbours that read back. -/
def nearestAt? (x : Binary64) (p : Int) : Option Nat :=
  let (num, den) := x.ratio
  let (n, d) := inUnits num den p
  let low := n / d
  let rest := n % d
  let lowOk := readsBack x low p
  let highOk := readsBack x (low + 1) p
  if lowOk && highOk then
    if 2 * rest < d then some low
    else if d < 2 * rest then some (low + 1)
    else if low % 2 = 0 then some low else some (low + 1)
  else if lowOk then some low
  else if highOk then some (low + 1)
  else none

/-- Tries growing numbers of digits; seventeen are always enough. -/
def searchDigits (x : Binary64) (lead : Int) : Nat → Nat → Nat × Int
  | 0, n =>
    let p := lead - n
    ((nearestAt? x p).getD 0, p)
  | fuel + 1, n =>
    let p := lead - n
    match nearestAt? x p with
    | some c => (c, p)
    | none => searchDigits x lead fuel (n + 1)

/-- The fewest digits that read back as the magnitude of a double. -/
def shortest (x : Binary64) : DecimalDigits :=
  if x.mantissa = 0 then ⟨['0'], 0⟩
  else
    let (num, den) := x.ratio
    let lead := leadingExponent num den
    let (c, p) := searchDigits x lead 17 0
    let digits := Nat.toDigits 10 c
    let exponent := p + (digits.length : Int) - 1
    let kept := (digits.reverse.dropWhile (· == '0')).reverse
    ⟨if kept.isEmpty then ['0'] else kept, exponent⟩

end Binary64

/-! ## Written forms -/

/-- The decisions of a written decimal: the least and the greatest exponent written positionally. -/
structure DecimalStyle where
  least : Int
  greatest : Int

namespace DecimalStyle

/-- Exponents from -5 to 15 are written out, others as a power of ten: `1e+16`, `1.5e-7`. -/
def scientific : DecimalStyle := ⟨-5, 15⟩

def writesOut (style : DecimalStyle) (e : Int) : Bool :=
  style.least ≤ e && e ≤ style.greatest

/-- The digits written out, always with a point. -/
def plain (d : DecimalDigits) : List Char :=
  match d.exponent with
  | .ofNat k =>
    let padded := d.digits ++ List.replicate (k + 1 - d.digits.length) '0'
    let rest := padded.drop (k + 1)
    padded.take (k + 1) ++ '.' :: (if rest.isEmpty then ['0'] else rest)
  | .negSucc k => '0' :: '.' :: List.replicate k '0' ++ d.digits

def powered (d : DecimalDigits) : List Char :=
  let mantissa := match d.digits with
    | [] => ['0']
    | [c] => [c]
    | c :: rest => c :: '.' :: rest
  let power := match d.exponent with
    | .ofNat k => '+' :: Nat.toDigits 10 k
    | .negSucc k => '-' :: Nat.toDigits 10 (k + 1)
  mantissa ++ 'e' :: power

/-- The written form of a double; the sign of zero is kept. -/
def render (style : DecimalStyle) (x : Binary64) : List Char :=
  let d := x.shortest
  let body := if style.writesOut d.exponent then plain d else powered d
  if x.negative then '-' :: body else body

end DecimalStyle

end FleetControl
