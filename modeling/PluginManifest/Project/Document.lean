import PluginManifest.Json.Reader
import PluginManifest.Project.FileSystem
import PluginManifest.Value.Shape
import PluginManifest.Yaml.Document

/-! # Documents in files

A document is read from a file as UTF-8 text in which every line ends with a line feed. -/

namespace PluginManifest.Project

/-- Why a document cannot be read. -/
inductive DocumentError
  /-- The file cannot be read. -/
  | file (error : FileError)
  /-- The bytes are no UTF-8 text. -/
  | encoding
  /-- The text is no JSON document. -/
  | json (error : JsonError)
  /-- The text is no YAML document. -/
  | yaml (error : Yaml.Error)
  /-- The document does not have the shape that its use asks for. -/
  | shape (error : ShapeError)
deriving DecidableEq, Repr

/-- A text in which all line ends are line feeds: a carriage return, alone or before a line feed,
becomes one. -/
def unifyLines : Text → Text
  | [] => []
  | c :: rest =>
    if c = '\r' then
      match rest with
      | d :: more => if d = '\n' then '\n' :: unifyLines more else '\n' :: unifyLines (d :: more)
      | [] => ['\n']
    else c :: unifyLines rest

/-- The text of a file. -/
def readText (fs : FileSystem) (path : Path) : Except DocumentError Text := do
  let bytes ← (fs.read path).mapError .file
  match Utf8.decode? bytes with
  | some t => .ok (unifyLines t)
  | none => .error .encoding

/-- The document in a file; a file that is not there, and a document that says nothing, count as
an empty map. -/
def readDocument (fs : FileSystem) (path : Path) (read : Text → Except DocumentError Value) :
    Except DocumentError Value := do
  if fs.present path then
    let v ← read (← readText fs path)
    .ok (v.orElse (.map []))
  else .ok (.map [])

end PluginManifest.Project
