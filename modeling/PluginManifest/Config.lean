import PluginManifest.Project.Document
import PluginManifest.Project.Scan
import PluginManifest.Value.Merge

/-! # Configuration

The configuration of a project is its configuration file laid over the defaults.  The options of
a scan are what the section `scan` says. -/

namespace PluginManifest.Config

open Project

/-- The configuration of a project that has no configuration file. -/
def defaults : Fields :=
  [("scan", .map
      [("source_root", .text "src"), ("patterns", .list (defaultPatterns.map .text)),
       ("exclude", .list []), ("default_version", .null)]),
   ("manifest", .map
      [("output", .text "dist/manifest.json"), ("include_payment_gateways", .bool true)])]

/-- What a configuration takes of the value of a section: of a table the rows under texts, because
nothing else is looked up there. -/
def setting : Value → Value
  | .table rows => .map (Value.textRows rows)
  | v => v

/-- What a configuration file sets. -/
def settings (file : Value) : Except ShapeError Fields := do
  let fields ← file.fields
  .ok (fields.map fun (key, v) => (key, setting v))

/-- The defaults with the values of a configuration file laid over them. -/
def ofFile (file : Value) : Except DocumentError Fields :=
  ((settings file).mapError .shape).map (Fields.merge defaults)

/-- The configuration in the file of a path, whose text `read` gives the value of; an empty path names
no file. -/
def load (read : Text → Except Yaml.Error Value) (fs : FileSystem) (path : Text) :
    Except DocumentError Fields := do
  if path.isEmpty then .ok defaults
  else
    let file ← readDocument fs (Path.ofText path) fun t => (read t).mapError .yaml
    ofFile file

/-- The items of a field, or other ones when it is not set. -/
def itemsOr (fields : Fields) (key : Text) (other : List Value) :
    Except ShapeError (List Value) :=
  let v := fields.find key
  if v.isSet then v.items else .ok other

/-- The section of a configuration; a section that is not there is empty. -/
def sectionOf (config : Fields) (key : Text) : Except ShapeError Fields :=
  match Keyed.get? config key with
  | some v => v.fields
  | none => .ok []

/-- The options of a scan.  The configured default version counts when it is set, otherwise the
given one does. -/
def options (config : Fields) (version : Value) : Except ShapeError Options := do
  let scan ← sectionOf config "scan"
  let patterns ← itemsOr scan "patterns" (defaultPatterns.map .text)
  let exclude ← itemsOr scan "exclude" []
  .ok
    { patterns := patterns
      exclude := exclude
      defaultVersion := ((scan.find "default_version").orElse version).present? }

end PluginManifest.Config
