import PluginManifest.Number.Binary64
import PluginManifest.Keyed
import PluginManifest.Text.Utf8
import PluginManifest.Value.Timestamp

/-! # Values of configuration files and documents

One type for what a configuration, a package description and a manifest hold.  A map keeps its
keys in the order in which they were first set.  Timestamps, bytes, sets and tables only come from
configuration files; a manifest cannot hold any of them but tables. -/

namespace PluginManifest

/-- A value of a data document. -/
inductive Value
  /-- No value. -/
  | null
  /-- A truth value. -/
  | bool (b : Bool)
  /-- An integer of any size. -/
  | int (n : Int)
  /-- A floating point number. -/
  | float (x : Binary64)
  /-- A text. -/
  | text (t : Text)
  /-- Values in order. -/
  | list (items : List Value)
  /-- Values under keys, in the order of the keys. -/
  | map (fields : List (Text × Value))
  /-- A date or a time. -/
  | timestamp (t : Timestamp)
  /-- Bytes. -/
  | binary (bytes : Bytes)
  /-- Different values. -/
  | set (items : List Value)
  /-- Values under keys of which some are no texts, in the order of the keys. -/
  | table (rows : List (Value × Value))
deriving Inhabited

/-- The fields of a map. -/
abbrev Fields := Keyed Value

namespace Value

/-- A text value from a string. -/
def ofString (s : String) : Value := .text s

instance : Coe Text Value := ⟨.text⟩

/-- A value counts as set unless it is absent, false, zero or empty. -/
def isSet : Value → Bool
  | .null => false
  | .bool b => b
  | .int n => n ≠ 0
  | .float (.finite _ m _) => m ≠ 0
  | .float _ => true
  | .text t => !t.isEmpty
  | .list items => !items.isEmpty
  | .map fields => !fields.isEmpty
  | .timestamp _ => true
  | .binary bytes => !bytes.isEmpty
  | .set items => !items.isEmpty
  | .table rows => !rows.isEmpty

/-- The value itself when it is set, else the other one. -/
def orElse (v other : Value) : Value := if v.isSet then v else other

/-- The value unless it is absent. -/
def present? : Value → Option Value
  | .null => none
  | v => some v

/-- The text of a text value. -/
def text? : Value → Option Text
  | .text t => some t
  | _ => none

/-- The fields of a map. -/
def map? : Value → Option Fields
  | .map fields => some fields
  | _ => none

end Value

end PluginManifest
