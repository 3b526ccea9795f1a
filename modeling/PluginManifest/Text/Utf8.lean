import PluginManifest.Text.CodePoint

/-! # UTF-8

`Utf8.units` cuts bytes into encoded code points and ill-formed pieces.  A piece is the longest
start of an encoded code point that the bytes still allow, or one byte that starts none
(substitution of maximal subparts).  Lossy decoding writes U+FFFD for each piece, strict
decoding refuses them. -/

namespace PluginManifest

/-- A sequence of bytes. -/
abbrev Bytes := List UInt8

namespace Utf8

/-- What a lead byte of a longer sequence asks of the bytes after it. -/
structure Lead where
  /-- The number of bytes after the lead byte. -/
  tails : Nat
  /-- The least second byte. -/
  low : UInt8
  /-- The greatest second byte. -/
  high : UInt8
  /-- The bits of the code point that the lead byte carries. -/
  bits : Nat

/-- The lead bytes of sequences of two, three and four bytes. -/
def lead? (b : UInt8) : Option Lead :=
  if b < 0xC2 then none
  else if b < 0xE0 then some ⟨1, 0x80, 0xBF, b.toNat - 0xC0⟩
  else if b < 0xF0 then
    some ⟨2, if b == 0xE0 then 0xA0 else 0x80, if b == 0xED then 0x9F else 0xBF, b.toNat - 0xE0⟩
  else if b < 0xF5 then
    some ⟨3, if b == 0xF0 then 0x90 else 0x80, if b == 0xF4 then 0x8F else 0xBF, b.toNat - 0xF0⟩
  else none

/-- A byte that continues a sequence. -/
def isTail (b : UInt8) : Bool := 0x80 ≤ b && b ≤ 0xBF

/-- The bits so far with those of one more byte. -/
def extend (bits : Nat) (b : UInt8) : Nat := bits * 64 + (b.toNat - 0x80)

/-- The encoded code points of a byte sequence, `none` for each ill-formed piece. -/
def units : Bytes → List (Option CodePoint)
  | [] => []
  | b :: r0 =>
    if b < 0x80 then some (CodePoint.ofByte b) :: units r0
    else match lead? b with
      | none => none :: units r0
      | some l => match r0 with
        | [] => [none]
        | c :: r1 =>
          if l.low ≤ c && c ≤ l.high then
            if l.tails == 1 then CodePoint.ofNat? (extend l.bits c) :: units r1
            else match r1 with
              | [] => [none]
              | d :: r2 =>
                if isTail d then
                  if l.tails == 2 then
                    CodePoint.ofNat? (extend (extend l.bits c) d) :: units r2
                  else match r2 with
                    | [] => [none]
                    | e :: r3 =>
                      if isTail e then
                        CodePoint.ofNat? (extend (extend (extend l.bits c) d) e) :: units r3
                      else none :: units (e :: r3)
                else none :: units (d :: r2)
          else none :: units (c :: r1)

/-- The text of a byte sequence, with U+FFFD for each ill-formed piece. -/
def decodeLossy (bs : Bytes) : Text := (units bs).map (·.getD CodePoint.replacement)

/-- The text of a byte sequence without ill-formed pieces. -/
def decode? (bs : Bytes) : Option Text := (units bs).mapM id

/-- The bytes of one code point; a surrogate has none. -/
def encodePoint? (c : CodePoint) : Option Bytes :=
  let n := c.val
  if n < 0x80 then some [n.toUInt8]
  else if n < 0x800 then some [(0xC0 + n / 64).toUInt8, (0x80 + n % 64).toUInt8]
  else if c.isSurrogate then none
  else if n < 0x10000 then
    some [(0xE0 + n / 4096).toUInt8, (0x80 + n / 64 % 64).toUInt8, (0x80 + n % 64).toUInt8]
  else
    some [(0xF0 + n / 262144).toUInt8, (0x80 + n / 4096 % 64).toUInt8,
      (0x80 + n / 64 % 64).toUInt8, (0x80 + n % 64).toUInt8]

/-- The bytes of a text without surrogates. -/
def encode? (t : Text) : Option Bytes := (t.mapM encodePoint?).map List.flatten

end Utf8

end PluginManifest
