import FleetControl.Text.Blank
import FleetControl.Toml.Reader

/-!
# Writing TOML strings

A string is written in the first form that shows it as it is.

1. `Traits.of` is what decides: control characters, backslashes, line ends and runs of quotes.
2. `Form.choose` takes the form: basic, literal, basic of three quotes, literal of three quotes, and
   else a basic one with escapes.
3. `quoted` writes the string; a form of three quotes begins a line of its own if there are several.
-/

namespace FleetControl.Toml

def longestRun (c : Char) : Nat → List Char → Nat
  | _, [] => 0
  | run, d :: rest =>
    if d = c then max (run + 1) (longestRun c (run + 1) rest) else longestRun c 0 rest

/-- What a string holds that not every form can show. -/
structure Traits where
  control : Bool
  backslash : Bool
  newline : Bool
  doubleRun : Nat
  singleRun : Nat
  deriving DecidableEq, Repr, Inhabited

/-- Whether a character is a control character other than a tab and a line feed. -/
def isControl (c : Char) : Bool :=
  c != '\t' && c != '\n' && (c.toNat < 0x20 || c.toNat == 0x7F)

def Traits.of (cs : List Char) : Traits where
  control := cs.any isControl
  backslash := cs.contains '\\'
  newline := cs.contains '\n'
  doubleRun := longestRun '"' 0 cs
  singleRun := longestRun '\'' 0 cs

/-- The forms of a string: basic ones have escapes, wide ones three quotes. -/
structure Form where
  basic : Bool
  wide : Bool
  deriving DecidableEq, Repr, Inhabited

namespace Form

def choose (t : Traits) : Form :=
  if !t.control && !t.backslash && t.doubleRun = 0 && !t.newline then ⟨true, false⟩
  else if !t.control && t.singleRun = 0 && !t.newline then ⟨false, false⟩
  else if !t.control && !t.backslash && t.doubleRun ≤ 2 then ⟨true, true⟩
  else if !t.control && t.singleRun ≤ 2 then ⟨false, true⟩
  else ⟨true, t.newline⟩

def quotes (form : Form) : List Char :=
  List.replicate (if form.wide then 3 else 1) (if form.basic then '"' else '\'')

end Form

/-- How a character other than a quote is written in a basic form. -/
def escapeChar (wide : Bool) (c : Char) : List Char :=
  if c.toNat = 8 then ['\\', 'b']
  else if c = '\t' then ['\\', 't']
  else if c = '\n' then (if wide then ['\n'] else ['\\', 'n'])
  else if c.toNat = 12 then ['\\', 'f']
  else if c = '\r' then ['\\', 'r']
  else if c = '\\' then ['\\', '\\']
  else if c.toNat < 0x20 || c.toNat = 0x7F then
    ['\\', 'u', '0', '0', Text.upperDigit (c.toNat / 16), Text.upperDigit (c.toNat % 16)]
  else [c]

/-- The content of a basic form; at most `limit` quotes in a row stand without a backslash, and
`run` stand already. -/
def escaped (wide : Bool) (limit : Nat) : Nat → List Char → List Char
  | _, [] => []
  | run, c :: rest =>
    if c = '"' then
      if limit ≤ run then '\\' :: '"' :: escaped wide limit 0 rest
      else '"' :: escaped wide limit (run + 1) rest
    else escapeChar wide c ++ escaped wide limit 0 rest

def quoted (s : String) : String :=
  let cs := s.toList
  let traits := Traits.of cs
  let form := Form.choose traits
  let first := if form.wide && traits.newline then ['\n'] else []
  let content := if form.basic then escaped form.wide (if form.wide then 2 else 0) 0 cs else cs
  String.ofList (form.quotes ++ first ++ content ++ form.quotes)

def pairLine (key written : String) : String :=
  key ++ " = " ++ written ++ "\n"

end FleetControl.Toml
