import PluginManifest.Text.CodePoint

/-! # Documentation comments

A block comment is read as a description and a list of tags.  A tag is looked up by its name;
the first one counts. -/

namespace PluginManifest.Doc

/-- An annotation `@name {type} value description`. -/
structure Tag where
  /-- The word after the at sign. -/
  name : Text
  /-- The content of the braces before the value. -/
  type : Text
  /-- The first word, quoted text or bracketed name after the tag's name. -/
  value : Text
  /-- The rest of the line and the lines that continue it. -/
  description : Text
deriving DecidableEq

/-- The content of one documentation comment. -/
structure Comment where
  /-- The free text before the first tag. -/
  description : Text
  /-- The tags in order. -/
  tags : List Tag
deriving DecidableEq

/-- Some tag of the comment has one of the names. -/
def Comment.hasTag (comment : Comment) (names : List Text) : Bool :=
  comment.tags.any fun tag => names.contains tag.name

namespace Tag

/-- The first tag with the given name. -/
def find? (tags : List Tag) (name : Text) : Option Tag := tags.find? (·.name = name)

/-- The value of the first tag with the given name. -/
def valueOf? (tags : List Tag) (name : Text) : Option Text := (find? tags name).map (·.value)

/-- The value of a tag and its description, with a space between them. -/
def fullText (tag : Tag) : Text :=
  if tag.description.isEmpty then tag.value else tag.value ++ " " ++ tag.description

/-- The full text of the first tag with the given name. -/
def fullTextOf? (tags : List Tag) (name : Text) : Option Text := (find? tags name).map fullText

end Tag

end PluginManifest.Doc
