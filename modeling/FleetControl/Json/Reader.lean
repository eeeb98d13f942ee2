import FleetControl.Json.Tree
import FleetControl.Text.Blank
import FleetControl.Text.Digits

/-!
# Reading JSON texts

A strict reader: blanks are space, tab, line feed and carriage return, a number has no superfluous
zero, a string no raw control character, and nothing but blanks may follow the value.

1. `Tree.parse` gives the tree of a text, or the place where the text stops being JSON.
2. `Json.parse?` gives the value of a text.
3. `Numeral.value?` gives a number: an integer between `-2^63` and `2^64 - 1` stays one, all else is
   a double.
-/

namespace FleetControl.Json

/-- A place in a text, counted from one. -/
structure Place where
  line : Nat
  column : Nat
  deriving DecidableEq, Repr, Inhabited

/-- The place that follows a leading part of a text. -/
def Place.after (cs : List Char) : Place :=
  cs.foldl (fun p c => if c = '\n' then ⟨p.line + 1, 1⟩ else ⟨p.line, p.column + 1⟩) ⟨1, 1⟩

/-- What is left of a text. A step of reading gives what it read with the rest, or fails with the
rest where it stopped. -/
abbrev Rest := List Char

def isSpace (c : Char) : Bool :=
  c == ' ' || c == '\t' || c == '\n' || c == '\r'

def skipSpace (cs : List Char) : List Char :=
  cs.dropWhile isSpace

/-! ## Numbers -/

/-- A number as it is written. -/
structure Numeral where
  negative : Bool
  whole : List Char
  fraction : List Char
  exponent : Option (Bool × List Char)
  isInteger : Bool

namespace Numeral

def digit (c : Char) : Nat :=
  c.toNat - 48

def maxSignificand : Nat := UInt64.size - 1

/-- The largest power of ten that is kept exactly. -/
def maxPower : Nat := Nat.pow 2 31 - 1

/-- Adds digits to a significand until the next would pass `maxSignificand`; gives the significand
and how many digits were added. -/
def extend (significand : Nat) : List Char → Nat × Nat
  | [] => (significand, 0)
  | c :: rest =>
    let next := significand * 10 + digit c
    if next ≤ maxSignificand then
      let (s, n) := extend next rest
      (s, n + 1)
    else (significand, 0)

/-- The significand and the power of ten of a number without its exponent. -/
def scaled (numeral : Numeral) : Nat × Int :=
  let (whole, taken) := extend 0 numeral.whole
  let (all, places) := extend whole numeral.fraction
  (all, (numeral.whole.length - taken : Nat) - (places : Int))

/-- The double that a number writes; `none` past the largest. -/
def double? (numeral : Numeral) : Option Binary64 :=
  let (significand, power) := numeral.scaled
  let magnitude := match numeral.exponent with
    | none => Binary64.ofDecimal? significand power
    | some (minus, digits) =>
      let e := Text.numberOf 10 digits
      if maxPower < e then
        if significand = 0 || minus then some Binary64.zero else none
      else Binary64.ofDecimal? significand (if minus then power - e else power + e)
  magnitude.map (·.withSign numeral.negative)

/-- The number that is written: an integer if it has neither fraction nor exponent, is not a
negative zero and lies between `-2^63` and `2^64 - 1`. -/
def value? (numeral : Numeral) : Option Number :=
  let n := Text.numberOf 10 numeral.whole
  if numeral.isInteger && !numeral.negative && n ≤ maxSignificand then some (.int n)
  else if numeral.isInteger && numeral.negative && 0 < n && n ≤ Nat.pow 2 63 then
    some (.int (-(n : Int)))
  else numeral.double?.map .float

end Numeral

/-- The leading decimal digits of a text and the rest. -/
def spanDigits (cs : List Char) : List Char × List Char :=
  (cs.takeWhile Char.isDigit, cs.dropWhile Char.isDigit)

/-- Reads the fraction of a number, if there is one. -/
def readFraction (cs : List Char) : Except Rest (Option (List Char) × Rest) :=
  match cs with
  | '.' :: rest =>
    match spanDigits rest with
    | ([], rest) => .error rest
    | (digits, rest) => .ok (some digits, rest)
  | _ => .ok (none, cs)

/-- Reads the exponent of a number, if there is one. -/
def readExponent (cs : List Char) : Except Rest (Option (Bool × List Char) × Rest) :=
  match cs with
  | c :: rest =>
    if c = 'e' || c = 'E' then
      let (minus, rest) := match rest with
        | '+' :: rest => (false, rest)
        | '-' :: rest => (true, rest)
        | _ => (false, rest)
      match spanDigits rest with
      | ([], rest) => .error rest
      | (digits, rest) => .ok (some (minus, digits), rest)
    else .ok (none, cs)
  | [] => .ok (none, [])

def readNumeral (negative : Bool) (cs : List Char) : Except Rest (Numeral × Rest) :=
  match spanDigits cs with
  | ([], rest) => .error rest
  | ('0' :: _ :: _, _) => .error cs
  | (whole, rest) => do
    let (fraction, rest) ← readFraction rest
    let (exponent, rest) ← readExponent rest
    let isInteger := fraction.isNone && exponent.isNone
    pure (⟨negative, whole, fraction.getD [], exponent, isInteger⟩, rest)

def readNumber (cs : List Char) : Except Rest (Option Number × Rest) := do
  let (numeral, rest) ← match cs with
    | '-' :: rest => readNumeral true rest
    | _ => readNumeral false cs
  pure (numeral.value?, rest)

/-! ## Strings -/

/-- Reads the four hexadecimal digits of an escape. -/
def readHex4 (cs : List Char) : Except Rest (Nat × Rest) :=
  match cs with
  | a :: b :: c :: d :: rest =>
    match Text.digitValue? a, Text.digitValue? b, Text.digitValue? c, Text.digitValue? d with
    | some a, some b, some c, some d => .ok (((a * 16 + b) * 16 + c) * 16 + d, rest)
    | _, _, _, _ => .error cs
  | _ => .error []

/-- The character that a one-letter escape stands for. -/
def simpleEscape? (c : Char) : Option Char :=
  if c = '"' then some '"'
  else if c = '\\' then some '\\'
  else if c = '/' then some '/'
  else if c = 'b' then some (Char.ofNat 8)
  else if c = 'f' then some (Char.ofNat 12)
  else if c = 'n' then some '\n'
  else if c = 'r' then some '\r'
  else if c = 't' then some '\t'
  else none

/-- A unit of a string: a character, or a code unit of a surrogate pair. -/
inductive StringUnit where
  | char (c : Char)
  | high (n : Nat)
  | low (n : Nat)
  deriving Repr

/-- The unit that a code of four hexadecimal digits stands for. -/
def StringUnit.ofCode (n : Nat) : StringUnit :=
  if 0xD800 ≤ n && n < 0xDC00 then .high n
  else if 0xDC00 ≤ n && n < 0xE000 then .low n
  else .char (Char.ofNat n)

/-- The text of a string's units; `none` if half a surrogate pair stands alone. -/
def unitsText? : List StringUnit → Option (List Char)
  | [] => some []
  | .char c :: rest => (unitsText? rest).map (c :: ·)
  | .high h :: .low l :: rest =>
    (unitsText? rest).map (Char.ofNat (0x10000 + (h - 0xD800) * 0x400 + (l - 0xDC00)) :: ·)
  | .high _ :: _ => none
  | .low _ :: _ => none

/-- Reads a string after its opening quote, up to and with the closing one. -/
def readUnits : Nat → List Char → Except Rest (List StringUnit × Rest)
  | 0, cs => .error cs
  | _, [] => .error []
  | fuel + 1, c :: rest =>
    if c = '"' then .ok ([], rest)
    else if c = '\\' then
      match rest with
      | [] => .error []
      | 'u' :: rest => do
        let (code, rest) ← readHex4 rest
        let (units, rest) ← readUnits fuel rest
        pure (StringUnit.ofCode code :: units, rest)
      | e :: rest =>
        match simpleEscape? e with
        | none => .error (e :: rest)
        | some c => do
          let (units, rest) ← readUnits fuel rest
          pure (.char c :: units, rest)
    else if c.toNat < 0x20 then .error (c :: rest)
    else do
      let (units, rest) ← readUnits fuel rest
      pure (.char c :: units, rest)

def readString (cs : List Char) : Except Rest (Option String × Rest) := do
  let (units, rest) ← readUnits (cs.length + 1) cs
  pure ((unitsText? units).map String.ofList, rest)

/-! ## Values -/

def readWord (word : List Char) (tree : Tree) (cs : List Char) : Except Rest (Tree × Rest) :=
  match Text.after? word cs with
  | some rest => .ok (tree, rest)
  | none => .error cs

mutual
/-- Reads a value after leading blanks, by at most `fuel` nested steps. -/
def readTree : Nat → List Char → Except Rest (Tree × Rest)
  | 0, cs => .error cs
  | fuel + 1, cs =>
    match skipSpace cs with
    | [] => .error []
    | '{' :: rest =>
      match skipSpace rest with
      | '}' :: rest => .ok (.object [], rest)
      | rest => do
        let (fields, rest) ← readFields fuel rest
        pure (.object fields, rest)
    | '[' :: rest =>
      match skipSpace rest with
      | ']' :: rest => .ok (.array [], rest)
      | rest => do
        let (items, rest) ← readItems fuel rest
        pure (.array items, rest)
    | '"' :: rest => do
      let (s, rest) ← readString rest
      pure (.string s, rest)
    | 'n' :: rest => readWord ['u', 'l', 'l'] .null rest
    | 't' :: rest => readWord ['r', 'u', 'e'] (.bool true) rest
    | 'f' :: rest => readWord ['a', 'l', 's', 'e'] (.bool false) rest
    | c :: rest => do
      let (n, rest) ← readNumber (c :: rest)
      pure (.number n, rest)

/-- Reads the items of an array up to and with the closing bracket. -/
def readItems : Nat → List Char → Except Rest (List Tree × Rest)
  | 0, cs => .error cs
  | fuel + 1, cs => do
    let (item, rest) ← readTree fuel cs
    match skipSpace rest with
    | ',' :: rest =>
      let (items, rest) ← readItems fuel rest
      pure (item :: items, rest)
    | ']' :: rest => pure ([item], rest)
    | rest => .error rest

/-- Reads the pairs of an object up to and with the closing brace. -/
def readFields : Nat → List Char → Except Rest (List (Option String × Tree) × Rest)
  | 0, cs => .error cs
  | fuel + 1, cs =>
    match skipSpace cs with
    | '"' :: rest => do
      let (key, rest) ← readString rest
      match skipSpace rest with
      | ':' :: rest =>
        let (value, rest) ← readTree fuel rest
        match skipSpace rest with
        | ',' :: rest =>
          let (fields, rest) ← readFields fuel rest
          pure ((key, value) :: fields, rest)
        | '}' :: rest => pure ([(key, value)], rest)
        | rest => .error rest
      | rest => .error rest
    | rest => .error rest
end

/-- The tree of a whole text, or the place where it stops being JSON. -/
def Tree.parse (s : String) : Except Place Tree :=
  let cs := s.toList
  let stopped (rest : List Char) := Place.after (cs.take (cs.length - rest.length))
  match readTree (2 * cs.length + 1) cs with
  | .error rest => .error (stopped rest)
  | .ok (tree, rest) =>
    match skipSpace rest with
    | [] => .ok tree
    | rest => .error (stopped rest)

/-- The value of a whole text with sorted objects. -/
def parse? (s : String) : Option Json :=
  match Tree.parse s with
  | .error _ => none
  | .ok tree => tree.toJson? maxDepth

end FleetControl.Json
