import PluginManifest.SyntaxTree.Kind

/-! # Source files

A source file is its bytes and its syntax tree.  Offsets are byte offsets; a position is a line
and a column, both counted from one, the column in code points. -/

namespace PluginManifest.Source

open SyntaxTree

/-- A source file and its syntax tree. -/
structure File where
  /-- The path under which the file is known. -/
  path : Text
  /-- The bytes of the file. -/
  text : Bytes
  /-- The root of its syntax tree. -/
  root : Node

/-- A line and a column, counted from one. -/
structure Position where
  /-- The number of the line. -/
  line : Nat
  /-- The number of the code point on its line. -/
  column : Nat
deriving DecidableEq, Repr

/-- The position after the given bytes. -/
def Position.after (before : Bytes) : Position :=
  let column := (Utf8.decodeLossy (before.reverse.takeWhile (· != 0x0A)).reverse).length
  ⟨before.count 0x0A + 1, column + 1⟩

namespace File

/-- The ends of the tokens: the leaves that are neither comments nor empty. -/
def tokenEnds (file : File) : List Nat :=
  (file.root.leaves.filter fun n => !n.isComment && n.start < n.stop).map (·.stop)

/-- The end of the last token at or before an offset, or the start of the file. -/
def fullStart (file : File) (offset : Nat) : Nat :=
  (file.tokenEnds.filter (· ≤ offset)).foldl max 0

/-- The position of an offset. -/
def position (file : File) (offset : Nat) : Position := Position.after (file.text.take offset)

/-- The position of a node, or of the outermost wrapper that owns it. -/
def positionOf (file : File) (f : Focus) : Position := file.position f.declaration.node.start

/-- The location of a node: file, line and column. -/
def location (file : File) (f : Focus) : Text :=
  let p := file.positionOf f
  file.path ++ "(" ++ Text.ofNat p.line ++ "," ++ Text.ofNat p.column ++ ")"

/-- The documentation comments of a declaration: those in the trivia before it or before the
wrapper that owns it. -/
def docRanges (file : File) (f : Focus) (kind : Kind) : List Trivia.CommentRange :=
  let pos := file.fullStart f.declaration.node.start
  let trailing := if kind.takesTrailingComments then Trivia.comments file.text pos true else []
  (trailing ++ Trivia.comments file.text pos false).filter (·.isDoc file.text)

/-- The declarations of a file in the order of the text. -/
def declarations (file : File) : List (Focus × Kind) :=
  ((Focus.walk file.root).map fun f => (f, f.kind file.text)).filter (·.2.isDeclaration)

end File

end PluginManifest.Source
