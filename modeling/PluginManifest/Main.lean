import PluginManifest.Command.Run

/-! # The command line program

Reads the files below the working directory and those that the command is pointed to elsewhere, runs
the command on them, prints what it prints, and writes the files that it made or changed. -/

open PluginManifest

/-- How the command is called. -/
def usage : String :=
  "usage: generate-manifest [-h] [--config CONFIG] [--source-root SOURCE_ROOT] " ++
    "[--output OUTPUT] [--package-json PACKAGE_JSON] [--default-version DEFAULT_VERSION] [-v]"

/-- A text as it is printed; surrogates are replaced. -/
def printed (t : Text) : String :=
  String.ofList (t.map fun c => c.toChar?.getD '\uFFFD')

/-- The files with what is on the disk under a path, and with all that is below it. -/
def readBelow (files : FileSystem) (path : String) : IO FileSystem := do
  let top ← IO.FS.realPath path
  if !(← top.pathExists) then return files
  if !(← top.isDir) then
    return files.add top.toString (.file (← IO.FS.readBinFile top).toList)
  let mut files := files.add top.toString .directory
  for path in ← top.walkDir do
    if ← path.isDir then files := files.add path.toString .directory
    else files := files.add path.toString (.file (← IO.FS.readBinFile path).toList)
  return files

/-- The files that a run with the given arguments looks at. -/
def readProject (argv : List Text) : IO FileSystem := do
  let here ← IO.FS.realPath "."
  let mut files := (← readBelow FileSystem.root here.toString).enter (Path.ofText here.toString)
  let .ok args := Command.parse argv | return files
  for given in [args.config, args.packageJson, args.sourceRoot, args.output] do
    if let some path := given then files ← readBelow files (printed path)
  let .ok plan := Command.plan .standard files args | return files
  readBelow files (printed plan.root.toText)

/-- Writes the entries that differ from those before. -/
def writeProject (before after : FileSystem) : IO Unit := do
  for (location, entry) in after.entries do
    if before.get? location ≠ some entry then
      let path := printed (Path.toText ⟨.absolute, location.map FileName.text⟩)
      match entry with
      | .directory => IO.FS.createDirAll path
      | .file content => IO.FS.writeBinFile path (ByteArray.mk content.toArray)

/-- Runs the command on the working directory. -/
def main (argv : List String) : IO UInt32 := do
  let arguments := argv.map Text.ofString
  let before ← readProject arguments
  let outcome := Command.run .standard before arguments
  IO.print (printed (Command.linesText outcome.output))
  IO.eprint (printed (Command.linesText outcome.errors))
  writeProject before outcome.files
  match outcome.ending with
  | .exit code => return code.toUInt32
  | .notStarted code =>
    if code = 0 then IO.println usage else IO.eprintln usage
    return code.toUInt32
  | .failed _ =>
    IO.eprintln "The manifest could not be generated."
    return 1
