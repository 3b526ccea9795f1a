import PluginManifest.Value.Table

/-! # Values of the wrong shape

A document may hold any value anywhere.  The functions here take a value apart and say what is
wrong when it does not have the shape that its use asks for. -/

namespace PluginManifest

/-- A value does not have the shape that its use asks for. -/
inductive ShapeError
  /-- Fields are asked of a value that is no map. -/
  | notMap
  /-- Fields are set in a list. -/
  | fieldsOfList
  /-- Items are asked of a value that has none. -/
  | notItems
  /-- A text is needed. -/
  | notText
deriving DecidableEq, Repr

namespace Value

/-- The rows of a table whose keys are texts. -/
def textRows (rows : List (Value × Value)) : Fields := rows.filterMap field?

/-- The fields of a map, or those of a table under texts. -/
def fields : Value → Except ShapeError Fields
  | .map fields => .ok fields
  | .table rows => .ok (textRows rows)
  | _ => .error .notMap

/-- The text of a text value. -/
def asText : Value → Except ShapeError Text
  | .text t => .ok t
  | _ => .error .notText

/-- The items of a value: those of a list or a set, the keys of a map or a table, the characters of a
text, and bytes as numbers. -/
def items : Value → Except ShapeError (List Value)
  | .list items => .ok items
  | .map fields => .ok (Keyed.keys fields |>.map .text)
  | .text t => .ok (t.map fun c => .text [c])
  | .binary bytes => .ok (bytes.map fun b => .int b.toNat)
  | .set items => .ok items
  | .table rows => .ok (rows.map Prod.fst)
  | _ => .error .notItems

end Value

/-- The value of a field; a field that is not there holds no value. -/
def Fields.find (fields : Fields) (key : Text) : Value := (Keyed.get? fields key).getD .null

end PluginManifest
