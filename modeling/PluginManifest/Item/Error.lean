import PluginManifest.Item.Kind
import PluginManifest.Literal.Error
import PluginManifest.Source.File

/-! # Declarations that are no items

A fault in a declaration is reported with the file and the position of the node at fault. -/

namespace PluginManifest.Item

/-- What is wrong with a declaration. -/
inductive Fault
  /-- A file declares more than one widget. -/
  | manyWidgets (file : Text)
  /-- An item is declared by the wrong kind of declaration. -/
  | wrongDeclaration (kind : Kind)
  /-- An item has neither an explicit id nor a name. -/
  | noId (kind : Kind)
  /-- The parameter with the properties has no type. -/
  | noPropertyType (kind : Kind)
  /-- The type of the properties is a name inside a namespace. -/
  | qualifiedType (kind : Kind)
  /-- The type of the properties is not an object type of the file. -/
  | unresolvedType (kind : Kind) (name : Text)
  /-- The type of the properties is no object type. -/
  | unusableType (kind : Kind) (description : Text)
  /-- A member of the properties cannot have a name. -/
  | unnamedProperty
  /-- The name of a member is computed. -/
  | unclearProperty
deriving DecidableEq

/-- The wording of a fault. -/
def Fault.message : Fault → Text
  | manyWidgets file =>
    "Multiple @widget declarations in " ++ file ++
      ", only the default export can be declared a widget"
  | wrongDeclaration kind => kind.wrongDeclaration
  | noId kind =>
    "Unable to determine " ++ kind.label ++ " id, no explicit id provided and " ++
      "unable to determine " ++ kind.declarationLabel ++ " name"
  | noPropertyType kind => "No type specified for " ++ kind.label ++ " props"
  | qualifiedType kind =>
    "Unable to determine " ++ kind.label ++
      " props type (qualified type references not supported)"
  | unresolvedType kind name =>
    "Unable to resolve " ++ kind.label ++ " props type " ++ name ++
      ", only object types declared in the same file are supported"
  | unusableType kind description =>
    "Unable to determine " ++ kind.label ++ " props type from " ++ description
  | unnamedProperty => "Property has no name"
  | unclearProperty => "Unable to determine property id"

/-- A fault and where it was found. -/
structure SourceError where
  /-- What is wrong. -/
  fault : Fault
  /-- The path of the file. -/
  file : Text
  /-- The position of the node at fault. -/
  position : Source.Position
deriving DecidableEq

/-- The wording of an error: location and fault. -/
def SourceError.message (e : SourceError) : Text :=
  e.file ++ "(" ++ Text.ofNat e.position.line ++ "," ++ Text.ofNat e.position.column ++ "): " ++
    e.fault.message

/-- Why a file cannot be scanned. -/
inductive ScanError
  /-- A declaration has a fault. -/
  | declaration (error : SourceError)
  /-- The name of a property is a literal without a value. -/
  | literal (error : LiteralError)
deriving DecidableEq

/-- A fault at a node of a file. -/
def ScanError.at (file : Source.File) (f : SyntaxTree.Focus) (fault : Fault) : ScanError :=
  .declaration ⟨fault, file.path, file.positionOf f⟩

end PluginManifest.Item
