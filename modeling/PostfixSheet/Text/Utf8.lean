/-! UTF-8: the bytes of a text, and the text of bytes or the place where they stop being UTF-8. -/

namespace PostfixSheet

def encodeChars (characters : List Char) : List UInt8 :=
  characters.flatMap String.utf8EncodeChar

def encodeText (text : String) : List UInt8 :=
  encodeChars text.toList

/-- How many bytes are valid, and how many after them make up the sequence that is not. A sequence that
only lacks its end has no length. -/
structure Utf8Error where
  validLength : Nat
  badLength : Option Nat
  deriving DecidableEq, Repr

def Utf8Error.message (error : Utf8Error) : String :=
  match error.badLength with
  | some length =>
      "invalid utf-8 sequence of " ++ toString length ++ " bytes from index " ++
        toString error.validLength
  | none => "incomplete utf-8 byte sequence from index " ++ toString error.validLength

structure OpenChar where
  value : Nat
  length : Nat
  missing : Nat
  lowest : Nat
  highest : Nat

/-- The bounds of the second byte keep out overlong forms, surrogates and values above the last code
point. -/
def openChar? (lead : Nat) : Option OpenChar :=
  if lead < 0xC2 then none
  else if lead < 0xE0 then some ⟨lead - 0xC0, 1, 1, 0x80, 0xBF⟩
  else if lead = 0xE0 then some ⟨0, 1, 2, 0xA0, 0xBF⟩
  else if lead = 0xED then some ⟨0xD, 1, 2, 0x80, 0x9F⟩
  else if lead < 0xF0 then some ⟨lead - 0xE0, 1, 2, 0x80, 0xBF⟩
  else if lead = 0xF0 then some ⟨0, 1, 3, 0x90, 0xBF⟩
  else if lead < 0xF4 then some ⟨lead - 0xF0, 1, 3, 0x80, 0xBF⟩
  else if lead = 0xF4 then some ⟨4, 1, 3, 0x80, 0x8F⟩
  else none

/-- Decodes the remaining bytes behind `decoded`, which is in reverse and takes up `start` bytes. -/
def decodeFrom (decoded : List Char) (start : Nat) :
    Option OpenChar → List UInt8 → Except Utf8Error (List Char)
  | none, [] => .ok decoded.reverse
  | some _, [] => .error ⟨start, none⟩
  | none, byte :: rest =>
      if byte.toNat < 0x80 then decodeFrom (Char.ofNat byte.toNat :: decoded) (start + 1) none rest
      else
        match openChar? byte.toNat with
        | none => .error ⟨start, some 1⟩
        | some character => decodeFrom decoded start (some character) rest
  | some character, byte :: rest =>
      if character.lowest ≤ byte.toNat ∧ byte.toNat ≤ character.highest then
        let value := character.value * 64 + (byte.toNat - 0x80)
        let length := character.length + 1
        if character.missing ≤ 1 then
          decodeFrom (Char.ofNat value :: decoded) (start + length) none rest
        else decodeFrom decoded start (some ⟨value, length, character.missing - 1, 0x80, 0xBF⟩) rest
      else .error ⟨start, some character.length⟩

def decodeText (bytes : List UInt8) : Except Utf8Error String :=
  match decodeFrom [] 0 none bytes with
  | .ok characters => .ok (String.ofList characters)
  | .error error => .error error

end PostfixSheet
