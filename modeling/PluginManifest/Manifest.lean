import PluginManifest.Json.Writer
import PluginManifest.Project.Document
import PluginManifest.Project.Scan

/-! # Manifests

A manifest gives the name and the description of a package and lists its items.  It is written
as JSON in UTF-8; the directories of its path are made when they are missing. -/

namespace PluginManifest.Manifest

open Project

/-- The description of a package in the file of a path. -/
def readPackage (fs : FileSystem) (path : Path) : Except DocumentError Value :=
  readDocument fs path fun t => (Json.read t).mapError .json

/-- Items as a value, in the order of their ids. -/
def itemList (items : Keyed Item.Descriptor) : Value :=
  .list ((Keyed.values items).map Item.Descriptor.toValue)

/-- The manifest of a package and its items.  What the package does not tell is empty. -/
def fieldsOf (package : Fields) (catalog : Catalog) (includeGateways : Bool) : Fields :=
  let about (key : Text) : Value := (package.find key).orElse (.text [])
  let gateways : Fields :=
    if includeGateways then [("paymentGateways", itemList catalog.paymentGateways)] else []
  ("name", about "name") :: ("description", about "description") ::
    ("widgets", itemList catalog.widgets) :: gateways

/-- Why a manifest cannot be saved. -/
inductive SaveError
  /-- The file cannot be written. -/
  | file (error : FileError)
  /-- The manifest has no text. -/
  | text (error : Json.WriteError)
  /-- The text cannot be encoded. -/
  | encoding
deriving DecidableEq, Repr

/-- Writes a text to a file.  The file is emptied first, and stays empty when the text cannot be
encoded. -/
def writeText (fs : FileSystem) (path : Path) (text : Text) :
    FileSystem × Except SaveError Unit :=
  match fs.truncate path with
  | .error e => (fs, .error (.file e))
  | .ok (fs, loc) =>
    match Utf8.encode? text with
    | some bytes => (fs.put loc (.file bytes), .ok ())
    | none => (fs, .error .encoding)

/-- Saves a manifest under a path: first the directories are made, then the text is formed, then
the file is written. -/
def save (fs : FileSystem) (manifest : Fields) (path : Path) :
    FileSystem × Except SaveError Unit :=
  match fs.ensureDirectories path.parent with
  | (fs, .error e) => (fs, .error (.file e))
  | (fs, .ok ()) =>
    match Json.write? (.map manifest) with
    | .error e => (fs, .error (.text e))
    | .ok text => writeText fs path text

end PluginManifest.Manifest
