import PluginManifest.Value.Shape

/-! # Merging maps

`Fields.merge base update` lays one map over another: where both hold a map under a key the two
maps are merged, elsewhere the value of `update` wins.  Keys of `base` keep their places and
new keys of `update` follow in their order. -/

namespace PluginManifest

mutual

/-- One value laid over another: two maps are merged, else the new value stands. -/
def Value.over (old : Value) : Value → Value
  | .map update =>
    match old with
    | .map base => .map (Fields.merge base update)
    | _ => .map update
  | v => v

/-- One map laid over another. -/
def Fields.merge (base : Fields) : List (Text × Value) → Fields
  | [] => base
  | (key, value) :: rest =>
    match Keyed.get? base key with
    | some old => Fields.merge (Keyed.put key (Value.over old value) base) rest
    | none => Fields.merge (Keyed.put key value base) rest

end

/-- One value laid over another, both of them maps.  A list can be laid under a map that sets
nothing. -/
def Value.merge : Value → Value → Except ShapeError Value
  | .map base, .map update => .ok (.map (Fields.merge base update))
  | .list items, .map [] => .ok (.list items)
  | .list _, .map _ => .error .fieldsOfList
  | _, _ => .error .notMap

end PluginManifest
