/-!
# Texts as bytes

1. `utf8` is the UTF-8 form of a text as a list of bytes.
2. `ofUtf8?` reads a whole byte string back, refusing anything that is not UTF-8.
3. `ofUtf8Lossy` reads a byte string that may end inside a character: each maximal part of a
   sequence that cannot be completed becomes one replacement character.
4. `ofUtf8?_utf8` says that a text is read back from its bytes.
-/

namespace FleetControl.Text

def utf8 (s : String) : List UInt8 :=
  s.toList.flatMap String.utf8EncodeChar

def byteCount (s : String) : Nat :=
  (utf8 s).length

/-- Whether a byte continues a sequence, and its six bits. -/
def continuation? (b : UInt8) : Option Nat :=
  if b.toNat / 64 = 2 then some (b.toNat % 64) else none

/-- The second bytes that may follow a leading byte: surrogates, overlong forms and code points
past U+10FFFF are excluded here. -/
def secondAllowed (lead second : Nat) : Bool :=
  if lead = 0xE0 then 0xA0 ≤ second && second ≤ 0xBF
  else if lead = 0xED then 0x80 ≤ second && second ≤ 0x9F
  else if lead = 0xF0 then 0x90 ≤ second && second ≤ 0xBF
  else if lead = 0xF4 then 0x80 ≤ second && second ≤ 0x8F
  else 0x80 ≤ second && second ≤ 0xBF

/-- One step of decoding: a character, or the length of a part that cannot be completed. -/
inductive Decoded where
  | char (c : Char) (rest : List UInt8)
  | broken (rest : List UInt8)
  deriving Repr

/-- Decodes the first character of a byte string. -/
def decodeFirst (b : UInt8) (rest : List UInt8) : Decoded :=
  let n := b.toNat
  if n < 0x80 then .char (Char.ofNat n) rest
  else if n < 0xC2 || 0xF4 < n then .broken rest
  else
    match rest with
    | [] => .broken []
    | b₁ :: rest₁ =>
      if !secondAllowed n b₁.toNat then .broken rest
      else if n < 0xE0 then .char (Char.ofNat ((n % 32) * 64 + b₁.toNat % 64)) rest₁
      else
        match rest₁ with
        | [] => .broken []
        | b₂ :: rest₂ =>
          match continuation? b₂ with
          | none => .broken rest₁
          | some x₂ =>
            if n < 0xF0 then
              .char (Char.ofNat (((n % 16) * 64 + b₁.toNat % 64) * 64 + x₂)) rest₂
            else
              match rest₂ with
              | [] => .broken []
              | b₃ :: rest₃ =>
                match continuation? b₃ with
                | none => .broken rest₂
                | some x₃ =>
                  .char (Char.ofNat ((((n % 8) * 64 + b₁.toNat % 64) * 64 + x₂) * 64 + x₃)) rest₃

/-- The characters of a byte string, by at most `fuel` steps; `none` stands for a broken part. -/
def decodeAll : Nat → List UInt8 → List (Option Char)
  | 0, _ => []
  | _, [] => []
  | fuel + 1, b :: rest =>
    match decodeFirst b rest with
    | .char c rest => some c :: decodeAll fuel rest
    | .broken rest => none :: decodeAll fuel rest

/-- The text that a byte string holds, if the whole of it is UTF-8. -/
def ofUtf8? (bytes : List UInt8) : Option String :=
  String.fromUTF8? bytes.toByteArray

/-- The text that a byte string holds; if the whole of it is not UTF-8, with U+FFFD for each broken
part. -/
def ofUtf8Lossy (bytes : List UInt8) : String :=
  (ofUtf8? bytes).getD
    (String.ofList ((decodeAll bytes.length bytes).map (·.getD '\uFFFD')))

/-! ## Small lemmas -/

theorem toByteArray_utf8 (s : String) : (utf8 s).toByteArray = s.toByteArray := by
  have h : s.toByteArray = s.toList.utf8Encode := by
    rw [← String.toByteArray_ofList, String.ofList_toList]
  rw [h]
  rfl

theorem ofUtf8?_utf8 (s : String) : ofUtf8? (utf8 s) = some s := by
  unfold ofUtf8? String.fromUTF8?
  rw [toByteArray_utf8]
  simp [String.fromUTF8, s.isValidUTF8]

theorem ofUtf8Lossy_utf8 (s : String) : ofUtf8Lossy (utf8 s) = s := by
  simp [ofUtf8Lossy, ofUtf8?_utf8]

theorem utf8_append (s t : String) : utf8 (s ++ t) = utf8 s ++ utf8 t := by
  simp [utf8]

end FleetControl.Text
