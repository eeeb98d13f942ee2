import FleetControl.Json.Basic
import FleetControl.Binary64.Shortest
import FleetControl.Text.Digits

/-!
# Writing JSON

1. `Json.compact` writes a value without any space.
2. `Json.pretty` writes one element on a line, each level indented by two spaces; an empty array or
   object stays on its line.
3. In strings only the quote, the backslash and the characters below U+0020 are escaped.
-/

namespace FleetControl.Json

/-- How one character is written inside a string. -/
def escapeChar (c : Char) : List Char :=
  if c = '"' then ['\\', '"']
  else if c = '\\' then ['\\', '\\']
  else if c.toNat < 0x20 then
    if c = '\n' then ['\\', 'n']
    else if c = '\t' then ['\\', 't']
    else if c = '\r' then ['\\', 'r']
    else if c.toNat = 8 then ['\\', 'b']
    else if c.toNat = 12 then ['\\', 'f']
    else ['\\', 'u', '0', '0', Text.lowerDigit (c.toNat / 16), Text.lowerDigit (c.toNat % 16)]
  else [c]

def quoted (s : String) : List Char :=
  '"' :: s.toList.flatMap escapeChar ++ ['"']

def intChars (n : Int) : List Char :=
  match n with
  | .ofNat k => Nat.toDigits 10 k
  | .negSucc k => '-' :: Nat.toDigits 10 (k + 1)

/-- The written form of a value that holds no other. -/
def scalarChars : Json → List Char
  | .null => ['n', 'u', 'l', 'l']
  | .bool true => ['t', 'r', 'u', 'e']
  | .bool false => ['f', 'a', 'l', 's', 'e']
  | .int n => intChars n
  | .float x => DecimalStyle.scientific.render x
  | .string s => quoted s
  | .array _ => []
  | .object _ => []

/-! ## Without spaces -/

mutual
/-- The characters of a value, without any space. -/
def compactChars : Json → List Char
  | .array items => '[' :: compactItems items
  | .object fields => '{' :: compactFields fields
  | value => scalarChars value

/-- The items of an array up to and with the closing bracket. -/
def compactItems : List Json → List Char
  | [] => [']']
  | [item] => item.compactChars ++ [']']
  | item :: next :: rest => item.compactChars ++ ',' :: compactItems (next :: rest)

/-- The pairs of an object up to and with the closing brace. -/
def compactFields : List (String × Json) → List Char
  | [] => ['}']
  | [(key, value)] => quoted key ++ ':' :: value.compactChars ++ ['}']
  | (key, value) :: next :: rest =>
    quoted key ++ ':' :: value.compactChars ++ ',' :: compactFields (next :: rest)
end

def compact (value : Json) : String :=
  String.ofList value.compactChars

/-! ## One element on a line -/

def newline (level : Nat) : List Char :=
  '\n' :: List.replicate (2 * level) ' '

mutual
/-- The characters of a value whose first line stands at a level. -/
def prettyChars (level : Nat) : Json → List Char
  | .array [] => ['[', ']']
  | .array (item :: rest) => '[' :: prettyItems (level + 1) (item :: rest)
  | .object [] => ['{', '}']
  | .object (kv :: rest) => '{' :: prettyFields (level + 1) (kv :: rest)
  | value => scalarChars value

/-- The items of an array, each on a line of its own, up to and with the closing bracket. -/
def prettyItems (level : Nat) : List Json → List Char
  | [] => newline (level - 1) ++ [']']
  | [item] => newline level ++ prettyChars level item ++ newline (level - 1) ++ [']']
  | item :: next :: rest =>
    newline level ++ prettyChars level item ++ ',' :: prettyItems level (next :: rest)

/-- The pairs of an object, each on a line of its own, up to and with the closing brace. -/
def prettyFields (level : Nat) : List (String × Json) → List Char
  | [] => newline (level - 1) ++ ['}']
  | [(key, value)] =>
    newline level ++ quoted key ++ ':' :: ' ' :: prettyChars level value ++
      newline (level - 1) ++ ['}']
  | (key, value) :: next :: rest =>
    newline level ++ quoted key ++ ':' :: ' ' :: prettyChars level value ++
      ',' :: prettyFields level (next :: rest)
end

def pretty (value : Json) : String :=
  String.ofList (prettyChars 0 value)

end FleetControl.Json
