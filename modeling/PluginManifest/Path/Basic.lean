import PluginManifest.Text.CodePoint

/-! # Paths

A path is a root and a list of components.  Empty components and those that are a single dot
say nothing and are dropped when a path is read, so that different spellings of one path are
equal. -/

namespace PluginManifest

/-- Where the components of a path start. -/
inductive PathRoot
  /-- At the working directory. -/
  | relative
  /-- At the root directory. -/
  | absolute
  /-- At the special root written with exactly two slashes. -/
  | double
deriving DecidableEq, Repr

/-- A path in normal form. -/
structure Path where
  /-- Where the components start. -/
  root : PathRoot
  /-- The components in order. -/
  parts : List Text
deriving DecidableEq

namespace Path

/-- The component says something: it is neither empty nor a single dot. -/
def counts (part : Text) : Bool := !part.isEmpty && part ≠ "."

/-- The root of a written path. -/
def rootOf (t : Text) : PathRoot :=
  match (t.takeWhile fun c : CodePoint => c = '/').length with
  | 0 => .relative
  | 2 => .double
  | _ => .absolute

/-- The path that a text writes. -/
def ofText (t : Text) : Path := ⟨rootOf t, (Text.splitOn '/' t).filter counts⟩

/-- How a root is written. -/
def rootText : PathRoot → Text
  | .relative => []
  | .absolute => "/"
  | .double => "//"

/-- The text of a path in normal form; the empty relative path is a dot. -/
def toText (p : Path) : Text :=
  match p.root, p.parts with
  | .relative, [] => "."
  | root, parts => rootText root ++ Text.join "/" parts

/-- The path with further components. -/
def append (p : Path) (parts : List Text) : Path := { p with parts := p.parts ++ parts }

/-- The path without its last component. -/
def parent (p : Path) : Path := { p with parts := p.parts.dropLast }

/-- One spelling for all texts that write the same path. -/
def normalize (t : Text) : Text := (ofText t).toText

end Path

end PluginManifest
