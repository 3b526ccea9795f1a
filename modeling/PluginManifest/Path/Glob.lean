import PluginManifest.Path.Basic
import PluginManifest.Path.Wildcard
import PluginManifest.Value.Table

/-! # Patterns for paths

A glob describes paths below a directory component by component.  A component is a name, a
wildcard pattern for one name, or `**` for any number of directories. -/

namespace PluginManifest

/-- One component of a glob. -/
inductive GlobPart
  /-- This name. -/
  | name (n : Text)
  /-- Any name that a wildcard pattern describes. -/
  | wild (pattern : Text)
  /-- Any number of directories. -/
  | anyDepth
deriving DecidableEq

/-- A pattern for paths below a directory. -/
structure Glob where
  /-- The first component. -/
  first : GlobPart
  /-- The components after it. -/
  rest : List GlobPart
  /-- Only directories are described: the pattern ends in a slash. -/
  directoriesOnly : Bool

/-- Why a value is no glob. -/
inductive GlobError
  /-- It says nothing: an empty text or another empty value. -/
  | empty
  /-- It starts at the root directory. -/
  | absolute
  /-- `**` is only a part of a component. -/
  | partialDepth
  /-- It has no component that says something. -/
  | noComponent
  /-- It has no component that says something and ends in a slash. -/
  | onlySlash
  /-- It is no text. -/
  | notText
  /-- It is a list that holds a slash, or a table that holds one in the same way. -/
  | slashInList
  /-- It is a map, or a table that holds nothing under the number zero. -/
  | mapping
deriving DecidableEq, Repr

namespace Glob

/-- The component that a text writes. -/
def partOf (t : Text) : Except GlobError GlobPart :=
  if t = "**" then .ok .anyDepth
  else if (Text.breakOn? "**" t).isSome then .error .partialDepth
  else if t.any fun c : CodePoint => c = '*' || c = '?' || c = '[' then .ok (.wild t)
  else .ok (.name t)

/-- The glob that a text writes. -/
def ofText (t : Text) : Except GlobError Glob :=
  let path := Path.ofText t
  if t.isEmpty then .error .empty
  else if path.root ≠ .relative then .error .absolute
  else
    let slash := t.getLast? = some '/'
    match path.parts with
    | [] => .error (if slash then .onlySlash else .noComponent)
    | part :: parts => do
      let first ← partOf part
      let rest ← parts.mapM partOf
      .ok ⟨first, rest, slash⟩

/-- The value is the text of a single slash. -/
def isSlash : Value → Bool
  | .text t => t = "/"
  | _ => false

/-- The glob that a value writes. -/
def ofValue : Value → Except GlobError Glob
  | .text t => ofText t
  | v =>
    if !v.isSet then .error .empty
    else match v with
      | .map _ => .error .mapping
      | .list items => .error (if items.any isSlash then .slashInList else .notText)
      | .table rows =>
        match rows.find? (·.1.isKey (.int 0)) with
        | none => .error .mapping
        | some first =>
          .error (if isSlash first.2 || rows.any (isSlash ·.1) then .slashInList else .notText)
      | _ => .error .notText

end Glob

end PluginManifest
