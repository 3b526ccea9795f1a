import PluginManifest.Text.Utf8

/-! # Names of files

To a file system a name is bytes, in a path it is text.  Names are decoded as UTF-8.  A byte that is
no part of an encoded code point stands as one of the code points U+DC80 to U+DCFF, which UTF-8 cannot
encode, so that every name has a text from which it is encoded again (`encode?_decode`). -/

namespace PluginManifest

/-- The bytes can name an entry of a directory: they are neither empty nor one or two dots, and hold
neither a slash nor a zero byte. -/
def FileName.Allowed (bytes : Bytes) : Prop :=
  bytes ≠ [] ∧ bytes ≠ [0x2E] ∧ bytes ≠ [0x2E, 0x2E] ∧ ∀ b ∈ bytes, b ≠ 0x2F ∧ b ≠ 0

instance (bytes : Bytes) : Decidable (FileName.Allowed bytes) :=
  inferInstanceAs (Decidable (_ ∧ _ ∧ _ ∧ ∀ b ∈ bytes, _))

/-- The name of an entry of a directory. -/
structure FileName where
  /-- The bytes of the name. -/
  bytes : Bytes
  /-- They can name an entry. -/
  allowed : FileName.Allowed bytes
deriving DecidableEq

namespace FileName

/-! ### Texts of names -/

/-- The code point that stands for a byte outside of UTF-8. -/
def escape (b : UInt8) : CodePoint :=
  ⟨0xDC00 + b.toNat, by have := b.toNat_lt; omega⟩

/-- The byte that a code point stands for in the text of a name. -/
def escaped? (c : CodePoint) : Option UInt8 :=
  if 0xDC80 ≤ c.val ∧ c.val ≤ 0xDCFF then some (c.val - 0xDC00).toUInt8 else none

/-- The bytes of one code point of a name. -/
def encodePoint? (c : CodePoint) : Option Bytes :=
  match escaped? c with
  | some b => some [b]
  | none => Utf8.encodePoint? c

/-- The bytes of the text of a name; a surrogate that stands for no byte has none. -/
def encode? (t : Text) : Option Bytes := (t.mapM encodePoint?).map List.flatten

/-- The code point that some bytes start with, and its encoding. -/
def encodedAt? (bytes : Bytes) : Option (CodePoint × Bytes) :=
  match (Utf8.units bytes).head? with
  | some (some c) =>
    match Utf8.encodePoint? c with
    | some code => if code.isPrefixOf bytes then some (c, code) else none
    | none => none
  | _ => none

/-- The text of the bytes after the first `skip` ones. -/
def decodeFrom : Nat → Bytes → Text
  | _, [] => []
  | skip + 1, _ :: rest => decodeFrom skip rest
  | 0, b :: rest =>
    match encodedAt? (b :: rest) with
    | some (c, code) => c :: decodeFrom (code.length - 1) rest
    | none => escape b :: decodeFrom 0 rest

/-- The text of the bytes of a name. -/
def decode (bytes : Bytes) : Text := decodeFrom 0 bytes

/-- The text of a name. -/
def text (name : FileName) : Text := decode name.bytes

end FileName

end PluginManifest
