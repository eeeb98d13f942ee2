import FleetControl.Url.Percent

/-!
# Web addresses

An address of the schemes `http` and `https` in its normal form.

1. `Address.parse?` reads an address: blanks at the ends and line ends inside are dropped, a
   backslash is a slash, dot segments are resolved, and every part is percent-encoded.
2. `Address.target` is what a request names, `Address.text` the whole address.
3. `Address.addPairs` puts the pairs of a form at the end of the query.
4. `Address.refer?` reads a reference from one address to another.
-/

namespace FleetControl

/-- An address; the segments of its path, its query and its fragment are encoded. -/
structure Address where
  secure : Bool
  host : String
  portNumber : Option Nat
  segments : List (List Char)
  query : Option (List Char)
  fragment : Option (List Char)
  deriving DecidableEq, Repr, Inhabited

namespace Address

/-- Whether a character is dropped at both ends of an address. -/
def isEdge (c : Char) : Bool :=
  c.toNat ≤ 0x20

def isDropped (c : Char) : Bool :=
  c == '\t' || c == '\n' || c == '\r'

def isSlash (c : Char) : Bool :=
  c == '/' || c == '\\'

/-- What an address means after what never counts is dropped. -/
def cleaned (s : String) : List Char :=
  (Text.strip isEdge s.toList).filter fun c => !isDropped c

/-! ## Hosts and ports -/

/-- The bytes of a text with its percent escapes undone, by at most `fuel` steps. -/
def unescape : Nat → List Char → List UInt8
  | 0, _ => []
  | _, [] => []
  | fuel + 1, c :: rest =>
    match c, rest with
    | '%', a :: b :: more =>
      match Text.digitValue? a, Text.digitValue? b with
      | some x, some y => UInt8.ofNat (x * 16 + y) :: unescape fuel more
      | _, _ => Text.utf8 (String.ofList [c]) ++ unescape fuel rest
    | _, _ => Text.utf8 (String.ofList [c]) ++ unescape fuel rest

/-- Whether a character may not stand in the name of a host. -/
def isForbidden (c : Char) : Bool :=
  c.toNat ≤ 0x20 || c.toNat == 0x7F || c == '#' || c == '/' || c == ':' || c == '<' || c == '>' ||
    c == '?' || c == '@' || c == '[' || c == '\\' || c == ']' || c == '^' || c == '|' || c == '%'

def host? (cs : List Char) : Option String :=
  match cs with
  | '[' :: rest =>
    let inner := rest.dropLast
    if rest.getLast? = some ']' && inner.contains ':' &&
        inner.all (fun c => (Text.digitValue? c).isSome || c == ':' || c == '.') then
      some (Text.lower (String.ofList cs))
    else none
  | _ =>
    (Text.ofUtf8? (unescape cs.length cs)).bind fun name =>
      if name.isEmpty || name.toList.any isForbidden then none else some (Text.lower name)

/-- A number among the ports, left out if it is the one of the scheme. -/
def portNumber? (secure : Bool) (digits : List Char) : Option (Option Nat) :=
  if !digits.all Char.isDigit then none
  else if digits.isEmpty then some none
  else
    let n := Text.numberOf 10 digits
    if 65535 < n then none
    else if n = (if secure then 443 else 80) then some none
    else some (some n)

/-- The part after the last `@`. -/
def withoutUser (cs : List Char) : List Char :=
  (cs.reverse.takeWhile (· != '@')).reverse

/-- The host of an authority and its number among the ports. -/
def authority? (secure : Bool) (cs : List Char) : Option (String × Option Nat) := do
  let cs := withoutUser cs
  let tail := (cs.reverse.takeWhile fun c => c != ':' && c != ']').reverse
  let front := cs.take (cs.length - tail.length)
  match front.getLast? with
  | some ':' => do
    let host ← host? front.dropLast
    let portNumber ← portNumber? secure tail
    some (host, portNumber)
  | _ => do
    let host ← host? cs
    some (host, none)

/-! ## Path -/

def splitSlashes : List Char → List (List Char)
  | [] => [[]]
  | c :: rest =>
    match splitSlashes rest with
    | [] => [[c]]
    | part :: parts => if isSlash c then [] :: part :: parts else (c :: part) :: parts

/-- A segment with its escaped dots undone. -/
def plainDots : List Char → List Char
  | '%' :: '2' :: e :: rest =>
    if e = 'e' || e = 'E' then '.' :: plainDots rest else '%' :: '2' :: e :: plainDots rest
  | c :: rest => c :: plainDots rest
  | [] => []

/-- Adds a segment to the path so far: dot segments stay or step back, and leave an empty segment at
the end. -/
def addSegment (path : List (List Char)) (segment : List Char) (last : Bool) : List (List Char) :=
  let dots := plainDots segment
  if dots = ['.', '.'] then
    let path := path.dropLast
    if last then path ++ [[]] else path
  else if dots = ['.'] then (if last then path ++ [[]] else path)
  else path ++ [Url.percentEncode Url.inPath segment]

def resolve (path : List (List Char)) : List (List Char) → List (List Char)
  | [] => path
  | [segment] => addSegment path segment true
  | segment :: rest => resolve (addSegment path segment false) rest

/-! ## The whole -/

/-- The scheme of an address and what follows its colon. -/
def scheme? (cs : List Char) : Option (Bool × List Char) :=
  let name := cs.takeWhile (· != ':')
  let rest := cs.drop (name.length + 1)
  let word := name.map Char.toLower
  if word = ['h', 't', 't', 'p'] then some (false, rest)
  else if word = ['h', 't', 't', 'p', 's'] then some (true, rest)
  else none

def parse? (s : String) : Option Address := do
  let (secure, rest) ← scheme? (cleaned s)
  let rest := rest.dropWhile isSlash
  let authority := rest.takeWhile fun c => !(isSlash c || c == '?' || c == '#')
  let rest := rest.drop authority.length
  let (host, portNumber) ← authority? secure authority
  let path := rest.takeWhile fun c => !(c == '?' || c == '#')
  let rest := rest.drop path.length
  let (query, rest) := match rest with
    | '?' :: rest =>
      let query := rest.takeWhile (· != '#')
      (some query, rest.drop query.length)
    | rest => (none, rest)
  let fragment := match rest with
    | '#' :: rest => some (Url.percentEncode Url.inFragment rest)
    | _ => none
  some {
    secure, host, portNumber, fragment
    segments := resolve [] (splitSlashes (path.drop 1))
    query := query.map (Url.percentEncode Url.inQuery) }

/-- Puts the pairs of a form at the end of the query. -/
def addPairs (address : Address) (pairs : List (String × String)) : Address :=
  let added := Url.formPairs pairs
  match address.query with
  | none => { address with query := some added }
  | some [] => { address with query := some added }
  | some query => { address with query := some (query ++ '&' :: added) }

/-- The path and the query, as a request names them. -/
def targetChars (address : Address) : List Char :=
  address.segments.flatMap (fun segment => '/' :: segment) ++
    match address.query with
    | none => []
    | some query => '?' :: query

/-- The path and the query, as a request names them. -/
def target (address : Address) : String :=
  String.ofList address.targetChars

/-- The host, with the number among the ports unless it is the one of the scheme. -/
def hostAndPort (address : Address) : String :=
  address.host ++
    match address.portNumber with
    | none => ""
    | some n => ":" ++ toString n

def text (address : Address) : String :=
  (if address.secure then "https://" else "http://") ++ address.hostAndPort ++ address.target ++
    match address.fragment with
      | none => ""
      | some fragment => String.ofList ('#' :: fragment)

/-- The address that a reference means at another address: one with a scheme of its own, one on
another host, or one on the same host from the root or from the last slash. -/
def refer? (address : Address) (reference : String) : Option Address :=
  let origin := (if address.secure then "https://" else "http://") ++ address.hostAndPort
  let below (segments : List (List Char)) : String :=
    origin ++ String.ofList (segments.flatMap ('/' :: ·))
  match cleaned reference with
  | [] => some { address with fragment := none }
  | '?' :: _ => parse? (below address.segments ++ reference)
  | '#' :: _ => parse? (origin ++ address.target ++ reference)
  | c :: rest =>
    if isSlash c then
      if rest.head?.any isSlash then
        parse? ((if address.secure then "https:" else "http:") ++ reference)
      else parse? (origin ++ reference)
    else if (c :: rest).takeWhile (fun d => !isSlash d) |>.contains ':' then parse? reference
    else parse? (below address.segments.dropLast ++ "/" ++ reference)

end Address

end FleetControl
