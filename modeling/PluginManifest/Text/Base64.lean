import PluginManifest.Text.CodePoint
import PluginManifest.Text.Utf8

/-! # Base 64

Four digits write three bytes.  Padding ends the text when it fills up a group; characters that are
neither digits nor padding are passed over. -/

namespace PluginManifest.Base64

/-- The value of a digit. -/
def digit? (c : CodePoint) : Option Nat :=
  let n := c.val
  if 0x41 ≤ n && n ≤ 0x5A then some (n - 0x41)
  else if 0x61 ≤ n && n ≤ 0x7A then some (n - 0x61 + 26)
  else if 0x30 ≤ n && n ≤ 0x39 then some (n - 0x30 + 52)
  else if c = '+' then some 62
  else if c = '/' then some 63
  else none

/-- The bytes that a text writes, read after `held` digits of a group, of which `bits` is left over,
and after `pads` marks of padding. -/
def decodeFrom (held bits pads : Nat) : Text → Option Bytes
  | [] => if held = 0 then some [] else none
  | c :: rest =>
    if c = '=' then
      if held < 2 then decodeFrom held bits pads rest
      else if 4 ≤ held + (pads + 1) then some []
      else decodeFrom held bits (pads + 1) rest
    else
      match digit? c, held with
      | none, _ => decodeFrom held bits pads rest
      | some d, 0 => decodeFrom 1 d 0 rest
      | some d, 1 => (decodeFrom 2 (d % 16) 0 rest).map ((bits * 4 + d / 16).toUInt8 :: ·)
      | some d, 2 => (decodeFrom 3 (d % 4) 0 rest).map ((bits * 16 + d / 4).toUInt8 :: ·)
      | some d, _ => (decodeFrom 0 0 0 rest).map ((bits * 64 + d).toUInt8 :: ·)

/-- The bytes that a text writes. -/
def decode? (t : Text) : Option Bytes := decodeFrom 0 0 0 t

end PluginManifest.Base64
