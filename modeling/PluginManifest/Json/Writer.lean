import PluginManifest.Literal.Number
import PluginManifest.Value.Basic

/-! # Writing JSON

A document is written with one item a line and two spaces for each level; an empty list or map
stays on its line.  Only quotes, backslashes and control characters are escaped.  A value cannot be
written if it holds an integer that is too long for decimal digits, or something that JSON has no form
for. -/

namespace PluginManifest.Json

/-- A hexadecimal digit in lower case. -/
def hexDigit (n : Nat) : CodePoint := CodePoint.ofChar (Nat.digitChar n)

/-- A code point inside a string. -/
def writeCharacter (c : CodePoint) : Text :=
  if c = '\"' then "\\\"" else if c = '\\' then "\\\\" else if c = '\n' then "\\n"
  else if c = '\r' then "\\r" else if c = '\t' then "\\t" else if c = '\x08' then "\\b"
  else if c = '\x0c' then "\\f"
  else if c.val < 0x20 then "\\u00" ++ [hexDigit (c.val / 16), hexDigit (c.val % 16)]
  else [c]

/-- A string with its quotes. -/
def writeString (t : Text) : Text := "\"" ++ t.flatMap writeCharacter ++ "\""

/-- A floating point number; the three special ones have names. -/
def writeFloat : Binary64 → Text
  | .nan => "NaN"
  | .infinite negative => if negative then "-Infinity" else "Infinity"
  | x => x.format

/-- The text of a key that is no text itself; what cannot be a key has none. -/
def keyText : Value → Text
  | .null => "null"
  | .bool b => if b then "true" else "false"
  | .int n => Text.ofInt n
  | .float x => writeFloat x
  | .text t => t
  | _ => []

/-- A line break and the indentation of a level. -/
def newline (level : Nat) : Text := "\n" ++ List.replicate (2 * level) (CodePoint.ofChar ' ')

mutual

/-- A value whose lines are indented to `level`.  What JSON has no form for has no text. -/
def writeAt (level : Nat) : Value → Text
  | .null => "null"
  | .bool b => if b then "true" else "false"
  | .int n => Text.ofInt n
  | .float x => writeFloat x
  | .text t => writeString t
  | .list [] => "[]"
  | .list (v :: vs) =>
    "[" ++ newline (level + 1) ++ writeAt (level + 1) v ++ writeItems (level + 1) vs ++
      newline level ++ "]"
  | .map [] => "\x7b\x7d"
  | .map ((k, v) :: rest) =>
    "\x7b" ++ newline (level + 1) ++ writeString k ++ ": " ++ writeAt (level + 1) v ++
      writeFields (level + 1) rest ++ newline level ++ "\x7d"
  | .table [] => "\x7b\x7d"
  | .table ((k, v) :: rest) =>
    "\x7b" ++ newline (level + 1) ++ writeString (keyText k) ++ ": " ++ writeAt (level + 1) v ++
      writeRows (level + 1) rest ++ newline level ++ "\x7d"
  | _ => []

/-- The items of a list after the first. -/
def writeItems (level : Nat) : List Value → Text
  | [] => []
  | v :: rest => "," ++ newline level ++ writeAt level v ++ writeItems level rest

/-- The fields of a map after the first. -/
def writeFields (level : Nat) : List (Text × Value) → Text
  | [] => []
  | (k, v) :: rest =>
    "," ++ newline level ++ writeString k ++ ": " ++ writeAt level v ++ writeFields level rest

/-- The rows of a table after the first. -/
def writeRows (level : Nat) : List (Value × Value) → Text
  | [] => []
  | (k, v) :: rest =>
    "," ++ newline level ++ writeString (keyText k) ++ ": " ++ writeAt level v ++
      writeRows level rest

end

/-- A value as a document. -/
def write (v : Value) : Text := writeAt 0 v

/-! ### Faults -/

/-- Why a value cannot be written. -/
inductive WriteError
  /-- An integer has more digits than can be converted. -/
  | longInteger
  /-- JSON has no form for a value or a key. -/
  | noForm
deriving DecidableEq, Repr

/-- Why an integer cannot be written. -/
def integerFault? (n : Int) : Option WriteError :=
  if (integerText? n).isSome then none else some .longInteger

/-- Why a key cannot be written. -/
def keyFault? : Value → Option WriteError
  | .null | .bool _ | .float _ | .text _ => none
  | .int n => integerFault? n
  | _ => some .noForm

mutual

/-- Why a value cannot be written: the first fault in the order of the text. -/
def fault? : Value → Option WriteError
  | .null | .bool _ | .float _ | .text _ => none
  | .int n => integerFault? n
  | .list items => itemsFault? items
  | .map fields => fieldsFault? fields
  | .table rows => rowsFault? rows
  | .timestamp _ | .binary _ | .set _ => some .noForm

/-- The first fault in the items of a list. -/
def itemsFault? : List Value → Option WriteError
  | [] => none
  | v :: rest => (fault? v).or (itemsFault? rest)

/-- The first fault in the fields of a map. -/
def fieldsFault? : List (Text × Value) → Option WriteError
  | [] => none
  | (_, v) :: rest => (fault? v).or (fieldsFault? rest)

/-- The first fault in the rows of a table. -/
def rowsFault? : List (Value × Value) → Option WriteError
  | [] => none
  | (k, v) :: rest => (keyFault? k).or ((fault? v).or (rowsFault? rest))

end

/-- A value as a document, or why it cannot be written. -/
def write? (v : Value) : Except WriteError Text :=
  match fault? v with
  | none => .ok (write v)
  | some e => .error e

end PluginManifest.Json
