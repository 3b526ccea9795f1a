import PluginManifest.Value.Table
import PluginManifest.Yaml.Node
import PluginManifest.Yaml.Schema

/-! # Values of YAML documents

`Yaml.read` reads a text as one document.  A text without a document has no value.  A mapping
keeps the first place and the last value of a repeated key; the pairs that it takes in with `<<`
come before its own. -/

namespace PluginManifest.Yaml

/-- The tag names the type `type`. -/
def Tag.isNamed (tag : Tag) (type : Text) : Bool :=
  match tag with
  | .named name => name = "tag:yaml.org,2002:" ++ type
  | _ => false

/-- The tag allows a collection of the type `type`: it names it or no type. -/
def Tag.allows (tag : Tag) (type : Text) : Bool :=
  match tag with
  | .named _ => tag.isNamed type
  | _ => true

/-- The value of a scalar. -/
def scalarValue : Tag → Text → Except Error Value
  | .implicit, t => plainValue t
  | .quoted, t => .ok (.text t)
  | .named name, t => taggedValue name t

/-- The node is the key that takes in the pairs of other mappings. -/
def Node.isMerge : Node → Bool
  | .scalar .implicit t => plainType t = .merge
  | .scalar (.named name) _ => name = "tag:yaml.org,2002:merge"
  | _ => false

/-- The value of a key; no collection is a key. -/
def Node.key : Node → Except Error Value
  | .scalar tag t =>
    if tag = .implicit && plainType t = .default then .ok (.text t) else scalarValue tag t
  | _ => .error .malformed

mutual

/-- The value of a node. -/
def Node.value : Node → Except Error Value
  | .scalar tag t => scalarValue tag t
  | .sequence tag items =>
    if tag.allows "seq" then (itemValues items).map .list
    else if tag.isNamed "omap" || tag.isNamed "pairs" then (singlePairs items).map .list
    else .error .malformed
  | .mapping tag pairs =>
    if tag.allows "map" then
      (pairValues pairs).map fun (taken, own) => Value.ofRows (taken ++ own)
    else if tag.isNamed "set" then
      (pairValues pairs).map fun (taken, own) =>
        .set ((Value.distinctRows (taken ++ own)).map Prod.fst)
    else .error .malformed

/-- The values of the items of a sequence. -/
def itemValues : List Node → Except Error (List Value)
  | [] => .ok []
  | item :: rest => do
    let v ← item.value
    let vs ← itemValues rest
    .ok (v :: vs)

/-- The items of a sequence of mappings with one pair each: lists of a key and its value. -/
def singlePairs : List Node → Except Error (List Value)
  | [] => .ok []
  | .mapping _ [(key, value)] :: rest => do
    let k ← key.value
    let v ← value.value
    let vs ← singlePairs rest
    .ok (.list [k, v] :: vs)
  | _ :: _ => .error .malformed

/-- The pairs that a mapping takes in from others, and its own pairs. -/
def pairValues :
    List (Node × Node) → Except Error (List (Value × Value) × List (Value × Value))
  | [] => .ok ([], [])
  | (key, value) :: rest => do
    if key.isMerge then
      let found ← value.mergedPairs
      let (taken, own) ← pairValues rest
      .ok (found ++ taken, own)
    else
      let k ← key.key
      let v ← value.value
      let (taken, own) ← pairValues rest
      .ok (taken, (k, v) :: own)

/-- The pairs of a mapping, or of the mappings of a sequence, that another mapping takes in. -/
def Node.mergedPairs : Node → Except Error (List (Value × Value))
  | .mapping _ pairs => (pairValues pairs).map fun (taken, own) => taken ++ own
  | .sequence _ items => mergedItems items
  | .scalar .. => .error .malformed

/-- The pairs of several mappings; those of the first mapping come last, because the last value
of a key counts. -/
def mergedItems : List Node → Except Error (List (Value × Value))
  | [] => .ok []
  | .mapping _ pairs :: rest => do
    let (taken, own) ← pairValues pairs
    let later ← mergedItems rest
    .ok (later ++ (taken ++ own))
  | _ :: _ => .error .malformed

end

/-- The value of the document that a text holds. -/
def read (t : Text) : Except Error Value := do
  match ← Node.ofTokens (← tokens t) with
  | some root => root.value
  | none => .ok .null

end PluginManifest.Yaml
