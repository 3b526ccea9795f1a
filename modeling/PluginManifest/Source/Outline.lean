import PluginManifest.Doc.Parser
import PluginManifest.Keyed
import PluginManifest.Report
import PluginManifest.Source.File

/-! # What a file declares

The outline of a file lists its documented declarations, one entry for each comment, and its
aliases of object types by name. -/

namespace PluginManifest.Source

open SyntaxTree

/-- A documentation comment and the declaration that it documents. -/
structure Documented where
  /-- The declaration. -/
  focus : Focus
  /-- The kind of the declaration. -/
  kind : Kind
  /-- The content of the comment. -/
  comment : Doc.Comment

/-- The documented declarations and the object types of a file. -/
structure Outline where
  /-- The file. -/
  file : File
  /-- The documented declarations in the order of the text. -/
  documented : List Documented
  /-- The object types that have a name. -/
  shapes : Keyed Focus

namespace Outline

/-- The comments on a declaration.  A comment that is not closed says nothing. -/
def commentsOn (file : File) (f : Focus) (kind : Kind) : List Documented :=
  (file.docRanges f kind).filterMap fun r =>
    match Doc.parse (Utf8.decodeLossy (Trivia.slice file.text r.pos r.stop)) with
    | [] => none
    | comment :: _ => some ⟨f, kind, comment⟩

/-- What an alias declaration gives a name to. -/
structure Alias where
  /-- The name. -/
  name : Text
  /-- The type that is named. -/
  type : Focus

/-- The alias that a node declares. -/
def alias? (file : File) (f : Focus) (kind : Kind) : Option Alias :=
  if kind = .typeAliasDeclaration then
    match f.child? "name", f.child? "value" with
    | some name, some value => some ⟨name.text file.text, value⟩
    | _, _ => none
  else none

/-- The aliases of a file in the order of the text. -/
def aliases (file : File) : List Alias :=
  file.declarations.filterMap fun (f, kind) => alias? file f kind

/-- The alias names an object type. -/
def Alias.isShape (file : File) (a : Alias) : Bool := a.type.kind file.text = .typeLiteral

/-- What is reported of an alias. -/
def Alias.event (file : File) (a : Alias) : Event :=
  if a.isShape file then .aliasFound a.name else .aliasSkipped a.name (a.type.describe file.text)

/-- The outline of a file. -/
def ofFile (file : File) : Outline where
  file := file
  documented := file.declarations.flatMap fun (f, kind) => commentsOn file f kind
  shapes := Keyed.ofPairs (((aliases file).filter (·.isShape file)).map fun a => (a.name, a.type))

/-- The first comment on exactly this node. -/
def commentFor? (outline : Outline) (node : Node) : Option Documented :=
  outline.documented.find? (·.focus.node.key = node.key)

/-- The tags of the first comment on a node. -/
def tagsFor (outline : Outline) (node : Node) : List Doc.Tag :=
  match outline.commentFor? node with
  | some d => d.comment.tags
  | none => []

end Outline

end PluginManifest.Source
