import SqlRoutine.Fault

/-! # Bytes and text

Scripts come in UTF-8 or, with a byte order mark, in UTF-16; everything is written in UTF-8. A decoder
turns bytes into characters up to the first fault. There are two kinds of fault: bytes that the
encoding does not allow, and **a last character that is cut off**, which only shows at the very
end. -/

namespace SqlRoutine

/-- The content of a file. -/
abbrev Bytes := List UInt8

namespace Encoding

/-- What comes of decoding: the characters, and what is wrong with the bytes after them. -/
inductive Decoded where
  | complete (text : Text)
  | invalid (fault : Fault)
  | cut (text : Text) (fault : Fault)

namespace Decoded

/-- One more character in front of what has been decoded. -/
def cons (c : Char) : Decoded → Decoded
  | complete t => complete (c :: t)
  | invalid fault => invalid fault
  | cut t fault => cut (c :: t) fault

end Decoded

/-! ### UTF-8 -/

/-- **The UTF-8 encoding of a text.** -/
def encodeUtf8 (t : Text) : Bytes := t.flatMap String.utf8EncodeChar

/-- How many bytes follow a first byte, and the range of the first of them. -/
def continuations? (first : UInt8) : Option (Nat × UInt8 × UInt8) :=
  if first < 0x80 then some (0, 0, 0)
  else if first < 0xC2 then none
  else if first < 0xE0 then some (1, 0x80, 0xBF)
  else if first = 0xE0 then some (2, 0xA0, 0xBF)
  else if first = 0xED then some (2, 0x80, 0x9F)
  else if first < 0xF0 then some (2, 0x80, 0xBF)
  else if first = 0xF0 then some (3, 0x90, 0xBF)
  else if first < 0xF4 then some (3, 0x80, 0xBF)
  else if first = 0xF4 then some (3, 0x80, 0x8F)
  else none

/-- The bits of the first byte that belong to the character, with so many bytes after it. -/
def leadingBits (first : UInt8) (count : Nat) : Nat :=
  match count with
  | 0 => first.toNat
  | 1 => first.toNat % 0x20
  | 2 => first.toNat % 0x10
  | _ => first.toNat % 0x08

/-- The sequence of bytes that is being read: the first byte, how many bytes have been read, the code
point so far, how many are still to come, and the range of the next one. -/
structure Sequence where
  first : UInt8
  read : Nat
  point : Nat
  left : Nat
  low : UInt8
  high : UInt8
  deriving DecidableEq, Repr

/-- Decodes UTF-8 from a position on, perhaps in the middle of a sequence. -/
def decodeUtf8From (position : Nat) : Option Sequence → Bytes → Decoded
  | none, [] => .complete []
  | some s, [] => .cut [] (.undecodable .utf8 s.first 0 s.read "unexpected end of data".toList)
  | none, b :: bs =>
    match continuations? b with
    | none => .invalid (.undecodable .utf8 b position 1 "invalid start byte".toList)
    | some (0, _) => (decodeUtf8From (position + 1) none bs).cons (Char.ofNat b.toNat)
    | some (left, low, high) =>
      decodeUtf8From (position + 1) (some ⟨b, 1, leadingBits b left, left, low, high⟩) bs
  | some s, b :: bs =>
    if b < s.low || s.high < b then
      .invalid (.undecodable .utf8 s.first (position - s.read) s.read
        "invalid continuation byte".toList)
    else
      let point := s.point * 0x40 + b.toNat % 0x40
      if s.left = 1 then (decodeUtf8From (position + 1) none bs).cons (Char.ofNat point)
      else
        decodeUtf8From (position + 1)
          (some ⟨s.first, s.read + 1, point, s.left - 1, 0x80, 0xBF⟩) bs

/-- **Decodes UTF-8.** Positions count from the first byte. -/
def decodeUtf8 (bytes : Bytes) : Decoded := decodeUtf8From 0 none bytes

/-- Decodes UTF-8 that may start with a byte order mark; positions count from after it. Nothing but
the beginning of a mark is an empty text. -/
def decodeMarkedUtf8 : Bytes → Decoded
  | 0xEF :: 0xBB :: 0xBF :: rest => decodeUtf8 rest
  | [0xEF, 0xBB] | [0xEF] => .complete []
  | bytes => decodeUtf8 bytes

/-! ### UTF-16 -/

/-- The unit of two bytes. -/
def unit (encoding : Encoding) (a b : UInt8) : Nat :=
  match encoding with
  | .utf16be => a.toNat * 0x100 + b.toNat
  | _ => b.toNat * 0x100 + a.toNat

/-- The first unit of a pair. -/
def isHigh (u : Nat) : Bool := 0xD800 ≤ u && u < 0xDC00

/-- The second unit of a pair. -/
def isLow (u : Nat) : Bool := 0xDC00 ≤ u && u < 0xE000

/-- Decodes from a position on. -/
def decodeUtf16From (encoding : Encoding) (position : Nat) : Bytes → Decoded
  | [] => .complete []
  | [a] => .cut [] (.undecodable encoding a 0 1 "truncated data".toList)
  | a :: b :: rest =>
    let u := unit encoding a b
    if isLow u then
      .invalid (.undecodable encoding a position 2 "illegal encoding".toList)
    else if isHigh u then
      match rest with
      | c :: d :: rest =>
        let v := unit encoding c d
        if isLow v then
          (decodeUtf16From encoding (position + 4) rest).cons
            (Char.ofNat (0x10000 + (u - 0xD800) * 0x400 + (v - 0xDC00)))
        else .invalid (.undecodable encoding a position 2 "illegal UTF-16 surrogate".toList)
      | _ =>
        .cut [] (.undecodable encoding a 0 (2 + rest.length) "unexpected end of data".toList)
    else (decodeUtf16From encoding (position + 2) rest).cons (Char.ofNat u)

/-! ### The encoding of a file -/

/-- The encoding that a byte order mark announces. -/
def announced : Bytes → Encoding
  | 0xFF :: 0xFE :: _ => .utf16le
  | 0xFE :: 0xFF :: _ => .utf16be
  | _ => .utf8

/-- **Decodes a file** in an encoding that was announced; the mark is not part of the text. -/
def decode (encoding : Encoding) (bytes : Bytes) : Decoded :=
  match encoding with
  | .utf8 => decodeMarkedUtf8 bytes
  | _ => decodeUtf16From encoding 2 (bytes.drop 2)

end Encoding

end SqlRoutine
