import PluginManifest.Path.Glob
import PluginManifest.Project.FileSystem
import PluginManifest.Report
import PluginManifest.Value.Shape

/-! # Discovery of source files

The source files of a project are the regular files below its source root that one of the
patterns finds and no exclusion describes.  They are listed in the order of their components,
each once. -/

namespace PluginManifest.Project

/-- Why the source files cannot be listed. -/
inductive DiscoveryError
  /-- A pattern is no glob. -/
  | pattern (error : GlobError)
  /-- An exclusion is no text. -/
  | exclusion
deriving DecidableEq, Repr

/-- What decides which files are scanned. -/
structure Selection where
  /-- The globs of the files. -/
  patterns : List Value
  /-- The wildcard patterns of the paths that are left out. -/
  exclude : List Value

/-- The patterns of source files. -/
def defaultPatterns : List Text := ["**/*.ts", "**/*.tsx"]

/-! ### Finding -/

/-- The names in the directory that a path leads to. -/
def namesAt (fs : FileSystem) (path : Path) : List Text :=
  match fs.locate path with
  | .ok loc => (fs.namesIn loc).map FileName.text
  | .error _ => []

/-- The directory that a path leads to and those below it. -/
def directoriesAt (fs : FileSystem) (path : Path) : List Path :=
  match fs.locate path with
  | .ok loc => (fs.directoriesBelow loc).map fun names => path.append (names.map FileName.text)
  | .error _ => []

/-- The paths below a directory that match the components of a glob.  All components but the
last match directories, and with `directories` the last one too. -/
def find (fs : FileSystem) (directories : Bool) : List GlobPart → Path → List Path
  | [], path => [path]
  | part :: rest, path =>
    let fits (p : Path) : Bool :=
      if rest.isEmpty && !directories then fs.present p else fs.isDirectory p
    match part with
    | .name n =>
      let p := path.append [n]
      if fits p then find fs directories rest p else []
    | .wild pattern =>
      ((namesAt fs path).filter (Wildcard.describes pattern)).flatMap fun n =>
        let p := path.append [n]
        if fits p then find fs directories rest p else []
    | .anyDepth => (directoriesAt fs path).flatMap (find fs directories rest)

/-- The paths below a directory that a glob describes. -/
def pathsMatching (fs : FileSystem) (root : Path) (glob : Glob) : List Path :=
  if fs.isDirectory root then find fs glob.directoriesOnly (glob.first :: glob.rest) root else []

/-- One of the exclusions describes a path. -/
def isExcluded (path : Text) : List Value → Except DiscoveryError Bool
  | [] => .ok false
  | .text pattern :: rest =>
    if Wildcard.describes pattern path then .ok true else isExcluded path rest
  | _ :: _ => .error .exclusion

/-- The paths that no exclusion describes. -/
def keepIncluded (exclude : List Value) : List Path → Except DiscoveryError (List Path)
  | [] => .ok []
  | path :: rest => do
    let out ← isExcluded path.toText exclude
    let kept ← keepIncluded exclude rest
    .ok (if out then kept else path :: kept)

/-- The regular files that a pattern finds and no exclusion describes. -/
def filesOf (fs : FileSystem) (root : Path) (exclude : List Value) (pattern : Value) :
    Except DiscoveryError (List Path) := do
  let glob ← (Glob.ofValue pattern).mapError .pattern
  keepIncluded exclude ((pathsMatching fs root glob).filter fs.isFile)

/-! ### Order -/

/-- The order of paths: by their components, each compared by code points. -/
def before : List Text → List Text → Bool
  | _, [] => false
  | [], _ :: _ => true
  | a :: as, b :: bs => Text.before a b || (a == b && before as bs)

/-- A path put into its place in a sorted list, unless it is there already. -/
def insertPath (path : Path) : List Path → List Path
  | [] => [path]
  | p :: rest =>
    if before path.parts p.parts then path :: p :: rest
    else if path.parts = p.parts then p :: rest
    else p :: insertPath path rest

/-- Paths in order, each once. -/
def sortPaths (paths : List Path) : List Path := paths.foldr insertPath []

/-- The source files below a root. -/
def sourcePaths (fs : FileSystem) (root : Path) (selection : Selection) :
    Except DiscoveryError (List Path) := do
  let found ← selection.patterns.mapM (filesOf fs root selection.exclude)
  .ok (sortPaths found.flatten)

/-- The source files below a root, reported. -/
def discover (fs : FileSystem) (root : Path) (selection : Selection) :
    Report DiscoveryError (List Path) := do
  let paths ← Report.ofExcept (sourcePaths fs root selection)
  Report.emit (.discovered paths.length root.toText)
  pure paths

end PluginManifest.Project
