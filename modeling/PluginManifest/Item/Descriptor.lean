import PluginManifest.Value.Basic

/-! # Items and their properties

What a manifest tells of an item, and the fields under which it is written. -/

namespace PluginManifest.Item

/-- One member of the properties of an item. -/
structure Property where
  /-- The name of the member. -/
  name : Text
  /-- The name that is shown. -/
  displayName : Text
  /-- The type of the values. -/
  type : Text
  /-- The member may be left out. -/
  optional : Bool

/-- A widget or a payment gateway. -/
structure Descriptor where
  /-- The id under which the item is listed. -/
  id : Text
  /-- The name that is shown. -/
  name : Text
  /-- The free text of the comment. -/
  description : Text
  /-- The version, unless none is known. -/
  version : Option Value
  /-- The file that declares the item. -/
  sourceLocation : Option Text
  /-- The properties in the order of their declaration. -/
  properties : List Property

/-- The fields of a property. -/
def Property.toValue (p : Property) : Value :=
  .map [("name", .text p.name), ("displayName", .text p.displayName), ("type", .text p.type),
    ("optional", .bool p.optional)]

/-- A field for a value that is known. -/
def optionalField (key : Text) : Option Value → Fields
  | some v => [(key, v)]
  | none => []

/-- The fields of an item; what is not known has no field. -/
def Descriptor.fields (d : Descriptor) : Fields :=
  ("id", .text d.id) :: ("name", .text d.name) :: ("description", .text d.description) ::
    (optionalField "version" d.version ++
      (optionalField "sourceLocation" (d.sourceLocation.map .text) ++
        (("properties", .list (d.properties.map Property.toValue)) :: [] : Fields)))

/-- An item as a value. -/
def Descriptor.toValue (d : Descriptor) : Value := .map d.fields

end PluginManifest.Item
