import FleetControl.Toml.Basic
import FleetControl.Text.Blank
import FleetControl.Text.Digits

/-!
# Reading TOML

A strict reader of TOML 1.1: a text that is not a document in every part has no value.

1. `read?` gives the table of a whole text.
2. `integer?`, `float?` and `moment?` say which bare words are numbers, dates and times.
3. Strings come in four forms; in the basic ones a backslash begins an escape, in those of three
   quotes a line end may stand.
-/

namespace FleetControl.Toml

/-- What is left of a text. A step of reading gives what it read with the rest. -/
abbrev Rest := List Char

/-- Whether a character may stand in a comment or on a line of a string. -/
def isPlain (c : Char) : Bool :=
  c == '\t' || (0x20 ≤ c.toNat && c.toNat != 0x7F)

/-- Whether a character separates words of a line. -/
def isGap (c : Char) : Bool :=
  c == ' ' || c == '\t'

def skipGap (cs : List Char) : List Char :=
  cs.dropWhile isGap

/-- The text after a line end, if it begins with one. -/
def newline? : List Char → Option (List Char)
  | '\n' :: rest => some rest
  | '\r' :: '\n' :: rest => some rest
  | _ => none

/-- The text after a comment, if it begins with one. -/
def comment? : List Char → Option (List Char)
  | '#' :: rest => some (rest.dropWhile isPlain)
  | _ => none

/-- The text after gaps, comments and line ends, by at most `fuel` of them. -/
def skipLines : Nat → List Char → List Char
  | 0, cs => cs
  | fuel + 1, cs =>
    let cs := skipGap cs
    match newline? cs with
    | some rest => skipLines fuel rest
    | none =>
      match comment? cs with
      | some rest => skipLines fuel rest
      | none => cs

/-- The text after gaps, comments and line ends. -/
def skipAll (cs : List Char) : List Char :=
  skipLines (cs.length + 1) cs

/-- The end of a line: gaps and a comment, then a line end or the end of the text. -/
def lineEnd? (cs : List Char) : Option (List Char) :=
  let cs := skipGap cs
  match (comment? cs).getD cs with
  | [] => some []
  | cs => newline? cs

/-! ## Strings -/

/-- The character with a code of so many hexadecimal digits. -/
def readCode (count : Nat) (cs : List Char) : Option (Char × Rest) :=
  let code := cs.take count
  if code.length < count || !code.all fun c => (Text.digitValue? c).isSome then none
  else
    let n := Text.numberOf 16 code
    if h : n.isValidChar then some (Char.ofNatAux n h, cs.drop count) else none

/-- The character that an escape stands for, after its backslash. -/
def readEscape : List Char → Option (Char × Rest)
  | 'b' :: rest => some (Char.ofNat 8, rest)
  | 't' :: rest => some ('\t', rest)
  | 'n' :: rest => some ('\n', rest)
  | 'f' :: rest => some (Char.ofNat 12, rest)
  | 'r' :: rest => some ('\r', rest)
  | 'e' :: rest => some (Char.ofNat 27, rest)
  | '"' :: rest => some ('"', rest)
  | '\\' :: rest => some ('\\', rest)
  | 'x' :: rest => readCode 2 rest
  | 'u' :: rest => readCode 4 rest
  | 'U' :: rest => readCode 8 rest
  | _ => none

def readBasic : Nat → List Char → Option (List Char × Rest)
  | 0, _ => none
  | _, [] => none
  | fuel + 1, c :: rest =>
    if c = '"' then some ([], rest)
    else if c = '\\' then do
      let (escaped, rest) ← readEscape rest
      let (more, rest) ← readBasic fuel rest
      some (escaped :: more, rest)
    else if isPlain c then do
      let (more, rest) ← readBasic fuel rest
      some (c :: more, rest)
    else none

def readLiteral (cs : List Char) : Option (List Char × Rest) :=
  let inner := cs.takeWhile fun c => isPlain c && c != '\''
  match cs.drop inner.length with
  | '\'' :: rest => some (inner, rest)
  | _ => none

/-- The text after an escaped line end: gaps, the line end, and all blanks after it. -/
def foldedLine? (cs : List Char) : Option (List Char) :=
  (newline? (skipGap cs)).map fun rest =>
    rest.dropWhile fun c => isGap c || c == '\n' || c == '\r'

/-- A string of three quotes after its opening. A run of up to five quotes ends it, the first two of
them being content. -/
def readMultiline (quote : Char) (escapes : Bool) : Nat → List Char → Option (List Char × Rest)
  | 0, _ => none
  | _, [] => none
  | fuel + 1, c :: rest =>
    if c = quote then
      let run := (c :: rest).takeWhile (· == quote)
      let after := (c :: rest).drop run.length
      if run.length < 3 then do
        let (more, rest) ← readMultiline quote escapes fuel after
        some (run ++ more, rest)
      else if run.length ≤ 5 then some (run.drop 3, after)
      else none
    else if escapes && c = '\\' then
      match foldedLine? rest with
      | some rest => readMultiline quote escapes fuel rest
      | none => do
        let (escaped, rest) ← readEscape rest
        let (more, rest) ← readMultiline quote escapes fuel rest
        some (escaped :: more, rest)
    else if isPlain c || c = '\n' || (c = '\r' && rest.head? = some '\n') then do
      let (more, rest) ← readMultiline quote escapes fuel rest
      some (c :: more, rest)
    else none

/-- A string on one line, at its opening quote. -/
def readLineString : List Char → Option (String × Rest)
  | '"' :: rest => (readBasic (rest.length + 1) rest).map fun (s, rest) => (String.ofList s, rest)
  | '\'' :: rest => (readLiteral rest).map fun (s, rest) => (String.ofList s, rest)
  | _ => none

/-- A string of any form, at its opening quote. -/
def readString : List Char → Option (String × Rest)
  | '"' :: '"' :: '"' :: rest =>
    let rest := (newline? rest).getD rest
    (readMultiline '"' true (rest.length + 1) rest).map fun (s, rest) => (String.ofList s, rest)
  | '\'' :: '\'' :: '\'' :: rest =>
    let rest := (newline? rest).getD rest
    (readMultiline '\'' false (rest.length + 1) rest).map fun (s, rest) => (String.ofList s, rest)
  | cs => readLineString cs

/-! ## Numbers -/

/-- The digits of a group in which single underscores may stand between two digits. -/
def digits? (isDigit : Char → Bool) : List Char → Option (List Char)
  | [] => none
  | [c] => if isDigit c then some [c] else none
  | c :: '_' :: rest => if isDigit c then (digits? isDigit rest).map (c :: ·) else none
  | c :: rest => if isDigit c then (digits? isDigit rest).map (c :: ·) else none

/-- Whether digits begin with a superfluous zero. -/
def hasLeadingZero : List Char → Bool
  | '0' :: _ :: _ => true
  | _ => false

/-- The digits of a decimal number without superfluous zeros. -/
def decimal? (cs : List Char) : Option (List Char) :=
  (digits? Char.isDigit cs).filter fun digits => !hasLeadingZero digits

def signed (cs : List Char) : Bool × List Char :=
  match cs with
  | '+' :: rest => (false, rest)
  | '-' :: rest => (true, rest)
  | _ => (false, cs)

/-- An integer in any of the four bases. -/
def integer? (cs : List Char) : Option Int :=
  let number : Option Int := match cs with
    | '0' :: 'x' :: rest =>
      (digits? (fun c => (Text.digitValue? c).isSome) rest).map fun ds => Text.numberOf 16 ds
    | '0' :: 'o' :: rest =>
      (digits? (fun c => c.isDigit && c < '8') rest).map fun ds => Text.numberOf 8 ds
    | '0' :: 'b' :: rest =>
      (digits? (fun c => c == '0' || c == '1') rest).map fun ds => Text.numberOf 2 ds
    | _ =>
      let (minus, rest) := signed cs
      (decimal? rest).map fun ds =>
        let n : Int := Text.numberOf 10 ds
        if minus then -n else n
  number.filter fun n => -Int.pow 2 127 ≤ n && n < Int.pow 2 128

/-- Half a unit past the largest double: from here on a decimal has no value. -/
def overflowBound : Nat := Nat.pow 2 1024 - Nat.pow 2 970

/-- Whether a decimal of these digits and this power of ten is past the largest double. -/
def overflows (digits : List Char) (power : Int) : Bool :=
  let digits := digits.dropWhile (· == '0')
  let top := (digits.length : Int) + power
  if digits.isEmpty || top ≤ 300 then false
  else if 310 < top then true
  else
    let n := Text.numberOf 10 digits
    match power with
    | .ofNat k => overflowBound ≤ n * Nat.pow 10 k
    | .negSucc k => overflowBound * Nat.pow 10 (k + 1) ≤ n

/-- Whether a word is a float: decimal digits with a fraction, an exponent or both, or a name. -/
def isFloat (cs : List Char) : Bool :=
  let (_, body) := signed cs
  if body = ['i', 'n', 'f'] || body = ['n', 'a', 'n'] then true
  else
    let whole := body.takeWhile fun c => c != '.' && c != 'e' && c != 'E'
    let rest := body.drop whole.length
    let (fraction, rest) := match rest with
      | '.' :: rest =>
        let part := rest.takeWhile fun c => c != 'e' && c != 'E'
        (some part, rest.drop part.length)
      | rest => (none, rest)
    let exponent := match rest with
      | _ :: rest => some (signed rest)
      | [] => none
    let fractionDigits := fraction.map (digits? Char.isDigit)
    let exponentDigits := exponent.map fun (minus, part) => (minus, digits? Char.isDigit part)
    match decimal? whole, fractionDigits, exponentDigits with
    | some w, some (some f), none => !overflows (w ++ f) (-(f.length : Int))
    | some w, none, some (minus, some e) =>
      let e := Text.numberOf 10 e
      !overflows w (if minus then -(e : Int) else e)
    | some w, some (some f), some (minus, some e) =>
      let e := Text.numberOf 10 e
      !overflows (w ++ f) ((if minus then -(e : Int) else e) - (f.length : Int))
    | _, _, _ => false

/-! ## Dates and times -/

/-- The number that exactly so many digits write, and the rest. -/
def readDigits (count : Nat) (cs : List Char) : Option (Nat × Rest) :=
  let ds := cs.take count
  if ds.length = count && ds.all Char.isDigit then some (Text.numberOf 10 ds, cs.drop count)
  else none

def daysOf (year month : Nat) : Nat :=
  if month = 2 then
    if year % 4 = 0 && (year % 100 != 0 || year % 400 = 0) then 29 else 28
  else if month = 4 || month = 6 || month = 9 || month = 11 then 30
  else 31

def readDate (cs : List Char) : Option (List Char) := do
  let (year, rest) ← readDigits 4 cs
  let rest ← Text.after? ['-'] rest
  let (month, rest) ← readDigits 2 rest
  let rest ← Text.after? ['-'] rest
  let (day, rest) ← readDigits 2 rest
  if 1 ≤ month && month ≤ 12 && 1 ≤ day && day ≤ daysOf year month then some rest else none

/-- Reads the seconds of a time, if there are any, with their fraction. -/
def readSeconds (cs : List Char) : Option (List Char) :=
  match cs with
  | ':' :: rest => do
    let (second, rest) ← readDigits 2 rest
    if 60 < second then none
    else
      match rest with
      | '.' :: rest =>
        let part := rest.takeWhile Char.isDigit
        if part.isEmpty then none else some (rest.drop part.length)
      | rest => some rest
  | cs => some cs

def readTime (cs : List Char) : Option (List Char) := do
  let (hour, rest) ← readDigits 2 cs
  let rest ← Text.after? [':'] rest
  let (minute, rest) ← readDigits 2 rest
  if hour ≤ 23 && minute ≤ 59 then readSeconds rest else none

def readOffset (cs : List Char) : Option (List Char) :=
  match cs with
  | 'Z' :: rest => some rest
  | 'z' :: rest => some rest
  | c :: rest =>
    if c = '+' || c = '-' then do
      let (hour, rest) ← readDigits 2 rest
      let rest ← Text.after? [':'] rest
      let (minute, rest) ← readDigits 2 rest
      if hour ≤ 23 && minute ≤ 59 then some rest else none
    else none
  | [] => some []

/-- Whether a word is a date, a time, or both with or without an offset. -/
def isMoment (cs : List Char) : Bool :=
  match readDate cs with
  | some [] => true
  | some (c :: rest) =>
    (c = 'T' || c = 't' || c = ' ') && (readTime rest >>= readOffset) == some []
  | none => readTime cs == some []

/-! ## Values -/

/-- Whether a character may stand in a bare value. -/
def isBare (c : Char) : Bool :=
  c.isAlphanum || c == '+' || c == '-' || c == '_' || c == '.' || c == ':'

/-- A bare value: a gap between a date and a time belongs to it. -/
def bareWord (cs : List Char) : List Char :=
  let word := cs.takeWhile isBare
  match cs.drop word.length with
  | ' ' :: d :: rest =>
    if readDate word == some [] && d.isDigit then word ++ ' ' :: (d :: rest).takeWhile isBare
    else word
  | _ => word

def bareValue? (word : List Char) : Option Value :=
  if word = ['t', 'r', 'u', 'e'] then some (.bool true)
  else if word = ['f', 'a', 'l', 's', 'e'] then some (.bool false)
  else
    match integer? word with
    | some n => some (.integer n)
    | none =>
      if isMoment word then some (.moment (String.ofList word))
      else if isFloat word then some (.float (String.ofList word))
      else none

def isKeyChar (c : Char) : Bool :=
  c.isAlphanum || c == '_' || c == '-'

def readSimpleKey (cs : List Char) : Option (String × Rest) :=
  match cs.takeWhile isKeyChar with
  | [] => readLineString cs
  | word => some (String.ofList word, cs.drop word.length)

/-- A dotted key, by at most `fuel` parts. -/
def readKeyParts : Nat → List Char → Option (List String × Rest)
  | 0, _ => none
  | fuel + 1, cs => do
    let (part, rest) ← readSimpleKey (skipGap cs)
    match skipGap rest with
    | '.' :: rest =>
      let (parts, rest) ← readKeyParts fuel rest
      some (part :: parts, rest)
    | rest => some ([part], rest)

def readKey (cs : List Char) : Option (List String × Rest) :=
  readKeyParts (cs.length + 1) cs

mutual
/-- A value, by at most `fuel` steps; `depth` arrays and tables may still be entered. -/
def readValue : Nat → Nat → List Char → Option (Value × Rest)
  | 0, _, _ => none
  | fuel + 1, depth, cs =>
    match cs with
    | '[' :: rest =>
      match depth with
      | 0 => none
      | depth + 1 => (readItems fuel depth rest).map fun (items, rest) => (.array items, rest)
    | '{' :: rest =>
      match depth with
      | 0 => none
      | depth + 1 =>
        (readPairs fuel depth [] rest).map fun (fields, rest) => (.table .inline fields, rest)
    | '"' :: _ => (readString cs).map fun (s, rest) => (.string s, rest)
    | '\'' :: _ => (readString cs).map fun (s, rest) => (.string s, rest)
    | _ =>
      let word := bareWord cs
      (bareValue? word).map fun value => (value, cs.drop word.length)

/-- The items of an array up to and with the closing bracket. -/
def readItems : Nat → Nat → List Char → Option (List Value × Rest)
  | 0, _, _ => none
  | fuel + 1, depth, cs =>
    match skipAll cs with
    | ']' :: rest => some ([], rest)
    | cs => do
      let (item, rest) ← readValue fuel depth cs
      match skipAll rest with
      | ',' :: rest =>
        let (items, rest) ← readItems fuel depth rest
        some (item :: items, rest)
      | ']' :: rest => some ([item], rest)
      | _ => none

/-- The pairs of a table in braces, added to those before, up to and with the closing brace. -/
def readPairs : Nat → Nat → Fields → List Char → Option (Fields × Rest)
  | 0, _, _, _ => none
  | fuel + 1, depth, fields, cs =>
    match skipAll cs with
    | '}' :: rest => some (fields, rest)
    | cs => do
      let (key, rest) ← readKey cs
      let rest ← Text.after? ['='] rest
      let (value, rest) ← readValue fuel depth (skipGap rest)
      let fields ← fields.assignKey value true key
      match skipAll rest with
      | ',' :: rest => readPairs fuel depth fields rest
      | '}' :: rest => some (fields, rest)
      | _ => none
end

/-! ## Documents -/

/-- How deeply arrays and tables in braces may nest. -/
def maxDepth : Nat := 80

/-- What one line says. -/
inductive Line where
  | tableHeader (path : List String)
  | itemHeader (path : List String)
  | pair (key : List String) (value : Value)

/-- Reads what a line says, up to its end. -/
def readLine (cs : List Char) : Option (Line × Rest) :=
  match cs with
  | '[' :: '[' :: rest => do
    let (path, rest) ← readKey rest
    let rest ← Text.after? [']', ']'] rest
    some (.itemHeader path, rest)
  | '[' :: rest => do
    let (path, rest) ← readKey rest
    let rest ← Text.after? [']'] rest
    some (.tableHeader path, rest)
  | _ => do
    let (key, rest) ← readKey cs
    let rest ← Text.after? ['='] rest
    let (value, rest) ← readValue (rest.length + 1) maxDepth (skipGap rest)
    some (.pair key value, rest)

/-- The table of lines: `current` is the path of the last header. -/
def readLines : Nat → Fields → List String → List Char → Option Fields
  | 0, _, _, _ => none
  | fuel + 1, fields, current, cs =>
    match skipAll cs with
    | [] => some fields
    | cs => do
      let (line, rest) ← readLine cs
      let rest ← lineEnd? rest
      match line with
      | .tableHeader path => readLines fuel (← fields.openTable path) path rest
      | .itemHeader path => readLines fuel (← fields.openItem path) path rest
      | .pair key value => readLines fuel (← fields.assign value key current) current rest

/-- The table of a whole text; a byte order mark in front is passed over. -/
def read? (s : String) : Option Fields :=
  let cs := match s.toList with
    | '\uFEFF' :: rest => rest
    | cs => cs
  readLines (cs.length + 1) [] [] cs

end FleetControl.Toml
