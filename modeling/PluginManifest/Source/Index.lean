import PluginManifest.Path.Basic
import PluginManifest.Source.Outline
import PluginManifest.TypeScript.Parser

/-! # The index of source files

Files are indexed under the normal form of their path, so that every spelling of a path finds
the same file.  A file that is added again takes the place of the old one. -/

namespace PluginManifest.Source

/-- What gives the syntax tree of the bytes of a source in a dialect. -/
abbrev Parser := TypeScript.Dialect → Bytes → SyntaxTree.Node

/-- Source files under the normal forms of their paths. -/
structure Index where
  /-- The files in the order in which their paths were first added. -/
  files : Keyed File

namespace Index

/-- The index without files. -/
def empty : Index := ⟨[]⟩

/-- The key under which a path is indexed. -/
def key (path : Text) : Text := Path.normalize path

/-- The dialect of a file, told by the ending of its path. -/
def dialect (path : Text) : TypeScript.Dialect :=
  if Text.endsWith path ".tsx" then .markup else .plain

/-- The file with the given path and bytes. -/
def read (parse : Parser) (path : Text) (text : Bytes) : File :=
  let key := key path
  { path := key, text := text, root := parse (dialect key) text }

/-- The index with one more file, stored under its own path. -/
def insert (index : Index) (file : File) : Index := ⟨Keyed.put file.path file index.files⟩

/-- The index with the file of a path and its bytes. -/
def add {ε : Type} (parse : Parser) (index : Index) (path : Text) (text : Bytes) :
    Report ε Index :=
  let file := read parse path text
  ⟨[.indexed file.path text.length], .ok (index.insert file)⟩

/-- The file that a path finds. -/
def get? (index : Index) (path : Text) : Option File := Keyed.get? index.files (key path)

/-- The outline of the file that a path finds. -/
def outline {ε : Type} (index : Index) (path : Text) : Report ε (Option Outline) :=
  match index.get? path with
  | none => ⟨[.parsing path, .missing path], .ok none⟩
  | some file =>
    ⟨.parsing path :: (Outline.aliases file).map (·.event file), .ok (some (Outline.ofFile file))⟩

end Index

end PluginManifest.Source
