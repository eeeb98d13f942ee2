import FleetControl.Fleet.Answer

/-!
# Requests and responses on the wire

A connection carries one request and its response and is closed after them.

1. `Request.wire` is a request as bytes.
2. `Response.ofWire?` reads the bytes that a connection gave; without whole headers there is no
   response, and a body that breaks off is empty.
3. `Wire.headers?` reads the headers, `Wire.joinChunks?` a body that was sent in chunks.
4. `Response.redirect?` is the request that a redirect leads to.
-/

namespace FleetControl

namespace Wire

def line (name value : String) : String := name ++ ": " ++ value ++ "\r\n"

def lineIfAny (name : String) (value : Option String) : String :=
  match value with
  | none => ""
  | some value => line name value

/-- The first line of a text of bytes, without its end, and what follows it. -/
def cutLine? : List UInt8 → Option (List UInt8 × List UInt8)
  | [] => none
  | 13 :: 10 :: rest => some ([], rest)
  | 10 :: rest => some ([], rest)
  | b :: rest => (cutLine? rest).map fun (front, rest) => (b :: front, rest)

/-- The headers up to the empty line, by at most `fuel` lines, and what follows them; names are in
lower case. -/
def headers? : Nat → List UInt8 → Option (List (String × String) × List UInt8)
  | 0, _ => none
  | fuel + 1, bytes => do
    let (front, rest) ← cutLine? bytes
    if front.isEmpty then some ([], rest)
    else do
      let (name, value) ← Text.splitChars? ':' (Text.ofUtf8Lossy front).toList
      let (more, rest) ← headers? fuel rest
      some ((Text.lower (String.ofList name), Text.trim (String.ofList value)) :: more, rest)

/-- The size of a chunk: hexadecimal digits, up to an extension. -/
def chunkSize? (front : List UInt8) : Option Nat :=
  let digits := (Text.ofUtf8Lossy front).toList.takeWhile fun c => c != ';' && c != ' '
  if digits.isEmpty then none
  else if digits.all fun c => (Text.digitValue? c).isSome then some (Text.numberOf 16 digits)
  else none

/-- The body in chunks, of which there are at most `fuel`. -/
def joinChunks? : Nat → List UInt8 → Option (List UInt8)
  | 0, _ => none
  | fuel + 1, bytes => do
    let (front, rest) ← cutLine? bytes
    let size ← chunkSize? front
    if size = 0 then some []
    else if rest.length < size then none
    else do
      let (_, after) ← cutLine? (rest.drop size)
      let more ← joinChunks? fuel after
      some (rest.take size ++ more)

/-- The body that follows headers: in chunks, of a stated length, or all that there is. -/
def body? (headers : List (String × String)) (rest : List UInt8) : Option (List UInt8) :=
  if (headers.lookup "transfer-encoding").any fun v => Text.lower v = "chunked" then
    joinChunks? (rest.length + 1) rest
  else
    match headers.lookup "content-length" with
    | none => some rest
    | some digits => digits.toNat?.bind fun n =>
      if rest.length < n then none else some (rest.take n)

def status? (front : List UInt8) : Option Nat :=
  match (Text.ofUtf8Lossy front).splitOn " " with
  | version :: status :: _ => if Text.startsWith version "HTTP/1." then status.toNat? else none
  | _ => none

end Wire

def Request.wire (request : Request) : List UInt8 :=
  let address := request.address
  let length := Text.byteCount request.body
  Text.utf8 (request.method.text ++ " " ++ address.target ++ " HTTP/1.1\r\n" ++
    Wire.line "host" address.hostAndPort ++ Wire.line "accept" "*/*" ++
    Wire.line "user-agent" request.userAgent ++
    Wire.lineIfAny "authorization" request.authorization ++
    Wire.lineIfAny "content-type" request.contentType ++
    Wire.line "content-length" (toString length) ++ Wire.line "connection" "close" ++ "\r\n" ++
    request.body)

/-- A response to one request, with the place that its headers name. -/
structure Response where
  status : Nat
  location : Option String
  body : String

namespace Response

/-- The response in the bytes of a connection, if its headers are whole. -/
def ofWire? (bytes : List UInt8) : Option Response := do
  let (front, rest) ← Wire.cutLine? bytes
  let status ← Wire.status? front
  let (headers, rest) ← Wire.headers? (rest.length + 1) rest
  let body := (Wire.body? headers rest).getD []
  some ⟨status, headers.lookup "location", Text.ofUtf8Lossy body⟩

def maxRedirects : Nat := 10

/-- The request that a redirect leads to. Another host does not learn the token. -/
def redirect? (request : Request) (response : Response) : Option Request := do
  let address ← request.address.refer? (← response.location)
  let near := address.secure == request.address.secure &&
    address.hostAndPort == request.address.hostAndPort
  let moved := { request with
    address, authorization := if near then request.authorization else none }
  let read := { moved with method := .get, contentType := none, body := "" }
  match response.status with
  | 301 | 302 => some (if request.method = .post then read else moved)
  | 303 => some read
  | 307 | 308 => some moved
  | _ => none

end Response

end FleetControl
