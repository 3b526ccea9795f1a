import PluginManifest.Value.Basic

/-! # Tables

Keys are told apart by their values: numbers of any kind are one key when they are equal, and true and
false count as one and zero. -/

namespace PluginManifest.Value

/-- A number as a multiple of a power of two. -/
def scaled? : Value → Option (Int × Int)
  | .bool b => some (if b then 1 else 0, 0)
  | .int n => some (n, 0)
  | .float (.finite negative m e) => some (if negative then -(m : Int) else m, e)
  | _ => none

/-- Two multiples of powers of two are equal. -/
def sameNumber (a b : Int × Int) : Bool :=
  let e := min a.2 b.2
  a.1 * Int.pow 2 (a.2 - e).toNat = b.1 * Int.pow 2 (b.2 - e).toNat

/-- Two values are one key. -/
def isKey (a b : Value) : Bool :=
  match a.scaled?, b.scaled? with
  | some x, some y => sameNumber x y
  | _, _ =>
    match a, b with
    | .null, .null => true
    | .text t, .text u => t = u
    | .float (.infinite s), .float (.infinite t) => s = t
    | .timestamp t, .timestamp u => t = u
    | .binary x, .binary y => x = y
    | _, _ => false

/-- The rows with a value set under a key: an old key keeps its place, a new one comes last. -/
def putRow (key value : Value) : List (Value × Value) → List (Value × Value)
  | [] => [(key, value)]
  | (k, v) :: rest =>
    if k.isKey key then (k, value) :: rest else (k, v) :: putRow key value rest

/-- Rows in order; of several values under one key the last one stays. -/
def distinctRows (rows : List (Value × Value)) : List (Value × Value) :=
  rows.foldl (fun rows (key, value) => putRow key value rows) []

/-- The key and the value of a row whose key is a text. -/
def field? : Value × Value → Option (Text × Value)
  | (.text key, value) => some (key, value)
  | _ => none

/-- Rows as a map if all keys are texts, else as a table. -/
def ofRows (rows : List (Value × Value)) : Value :=
  match rows.mapM field? with
  | some fields => .map (Keyed.ofPairs fields)
  | none => .table (distinctRows rows)

end PluginManifest.Value
