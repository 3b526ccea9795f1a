import PluginManifest.Number.Binary64
import PluginManifest.Literal.Error

/-! # Names written as numbers

A member of an object shape may be named by a number.  Its name is the canonical text of that
number: a literal with a base mark is read as an unbounded integer, any other as a floating
point number. -/

namespace PluginManifest

/-- Integers beyond this many digits have no decimal text. -/
def maxDigits : Nat := 4300

/-- The decimal text of an integer of at most `maxDigits` digits. -/
def integerText? (n : Int) : Option Text :=
  if n.natAbs < Nat.pow 10 maxDigits then some (Text.ofInt n) else none

namespace Literal

/-- The base that the first two characters of a literal announce. -/
def baseOf? : Text → Option Nat
  | c :: d :: _ =>
    if c = '0' then
      if d.lower = 'x' then some 16 else if d.lower = 'o' then some 8
      else if d.lower = 'b' then some 2 else none
    else none
  | _ => none

/-- The canonical property name of a numeric literal: `0x10` is named `16`. -/
def numberName (literal : Text) : Except LiteralError Text :=
  let plain : Text := literal.filter fun c : CodePoint => c ≠ '_'
  match baseOf? plain with
  | some base =>
    match (Text.toNat? base (Text.trimEnd (Text.plainDigits (plain.drop 2)))).bind (integerText? ·) with
    | some name => .ok name
    | none => .error .badNumber
  | none =>
    match Binary64.read? plain with
    | none => .error .badNumber
    | some x =>
      match x.toInt? with
      | some n => .ok (if n.natAbs < Nat.pow 10 21 then Text.ofInt n else x.format)
      | none => .ok x.format

end Literal

end PluginManifest
