/-!
# Reading bytes as text

Decoding that never fails: each maximal piece of the input that begins no character is replaced by
U+FFFD, so that well-formed bytes keep their meaning whatever stands around them.
-/

namespace Primer.Text.Utf8

/-- The least second byte, the greatest second byte and the number of bytes after the first, for a
character that starts with `first`. -/
def shape? (first : UInt8) : Option (UInt8 × UInt8 × Nat) :=
  if first < 0x80 then some (0, 0, 0)
  else if first < 0xc2 then none
  else if first < 0xe0 then some (0x80, 0xbf, 1)
  else if first < 0xe1 then some (0xa0, 0xbf, 2)
  else if first < 0xed then some (0x80, 0xbf, 2)
  else if first < 0xee then some (0x80, 0x9f, 2)
  else if first < 0xf0 then some (0x80, 0xbf, 2)
  else if first < 0xf1 then some (0x90, 0xbf, 3)
  else if first < 0xf4 then some (0x80, 0xbf, 3)
  else if first < 0xf5 then some (0x80, 0x8f, 3)
  else none

/-- The code point bits that the first of `extra + 1` bytes holds. -/
def leadBits (first : UInt8) : Nat → Nat
  | 0 => first.toNat
  | 1 => first.toNat % 32
  | 2 => first.toNat % 16
  | _ => first.toNat % 8

/-- A character under way: its bits so far, the bounds of the next byte and the bytes still due. -/
structure Pending where
  bits : Nat
  low : UInt8
  high : UInt8
  due : Nat

def replacement : Char := Char.ofNat 0xfffd

/-- Starts a character at `byte`: done, refused or under way. -/
def start (byte : UInt8) : List Char × Option Pending :=
  match shape? byte with
  | none => ([replacement], none)
  | some (_, _, 0) => ([Char.ofNat byte.toNat], none)
  | some (low, high, extra) => ([], some ⟨leadBits byte extra, low, high, extra⟩)

/-- The characters that `bytes` decode to, after the pieces already read. -/
def decodeFrom : Option Pending → List UInt8 → List Char
  | none, [] => []
  | some _, [] => [replacement]
  | none, byte :: rest =>
    let (out, next) := start byte
    out ++ decodeFrom next rest
  | some p, byte :: rest =>
    if p.low ≤ byte && byte ≤ p.high then
      let bits := p.bits * 64 + byte.toNat % 64
      if p.due ≤ 1 then Char.ofNat bits :: decodeFrom none rest
      else decodeFrom (some ⟨bits, 0x80, 0xbf, p.due - 1⟩) rest
    else
      let (out, next) := start byte
      replacement :: out ++ decodeFrom next rest

/-- Decodes `bytes`, with U+FFFD in place of what is no text. -/
def decodeLossy (bytes : ByteArray) : String :=
  match String.fromUTF8? bytes with
  | some text => text
  | none => String.ofList (decodeFrom none bytes.toList)

end Primer.Text.Utf8
