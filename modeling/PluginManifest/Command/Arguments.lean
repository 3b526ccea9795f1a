import PluginManifest.Text.Digit

/-! # Command line arguments

Options are written `--name value` or `--name=value`; a long name may be cut short as long as it
stays unambiguous.  Short flags can be joined: `-vh` is `-v -h`.  Arguments are first told apart
as options and words; an ambiguous option is a fault wherever it stands.  Then they are taken in
order, so that a call for help ends the reading before a later fault.  Words that belong to no
option, and options that are not known, are faults in the end. -/

namespace PluginManifest.Command

/-- The options of the command. -/
inductive OptionName
  | help
  | config
  | sourceRoot
  | output
  | packageJson
  | defaultVersion
  | verbose
deriving DecidableEq, Repr

namespace OptionName

/-- How an option is written, and what it is. -/
def spellings : List (Text × OptionName) :=
  [("-h", help), ("--help", help), ("--config", config), ("--source-root", sourceRoot),
   ("--output", output), ("--package-json", packageJson), ("--default-version", defaultVersion),
   ("-v", verbose), ("--verbose", verbose)]

/-- The option with a spelling. -/
def ofText? (t : Text) : Option OptionName := spellings.lookup t

/-- The option takes a value. -/
def takesValue : OptionName → Bool
  | help | verbose => false
  | _ => true

end OptionName

/-- What the command line asks for. -/
structure Arguments where
  /-- The path of the configuration file. -/
  config : Option Text := none
  /-- The directory that is scanned. -/
  sourceRoot : Option Text := none
  /-- The path of the manifest. -/
  output : Option Text := none
  /-- The path of the description of the package. -/
  packageJson : Text := "package.json"
  /-- The version of items that give none. -/
  defaultVersion : Option Text := none
  /-- All events are reported. -/
  verbose : Bool := false
deriving DecidableEq

/-- Why the command does not start. -/
inductive ArgumentError
  /-- Help was asked for. -/
  | help
  /-- The arguments are not understood. -/
  | usage
deriving DecidableEq, Repr

/-! ### Telling options from words -/

/-- An argument, told apart. -/
inductive Argument
  /-- An option, and the value that is written with it behind an equals sign. -/
  | option (name : OptionName) (value : Option Text)
  /-- A short option, and what is written directly behind it. -/
  | short (name : OptionName) (more : Text)
  /-- It looks like an option and is none. -/
  | unknown
  /-- A word. -/
  | word (t : Text)
  /-- The mark that ends the options. -/
  | separator

/-- The text before and after the first equals sign. -/
def splitValue (t : Text) : Text × Option Text :=
  match Text.breakOn? "=" t with
  | some (name, value) => (name, some value)
  | none => (t, none)

/-- A negative number: digits, or digits after a point, behind a minus sign. -/
def isNegativeNumber (t : Text) : Bool :=
  match Text.dropStart? "-" t with
  | none => false
  | some rest =>
    let isNumber (ds : Text) : Bool := !ds.isEmpty && ds.all (·.decimal?.isSome)
    match Text.breakOn? "." rest with
    | none => isNumber rest
    | some (whole, fraction) => whole.all (·.decimal?.isSome) && isNumber fraction

/-- The options that a text may stand for: those that it starts, or a short one with more
behind it. -/
def candidates (t : Text) : List Argument :=
  if Text.startsWith t "--" then
    let (start, value) := splitValue t
    OptionName.spellings.filterMap fun (spelling, name) =>
      if Text.startsWith spelling start then some (.option name value) else none
  else
    OptionName.spellings.filterMap fun (spelling, name) =>
      if spelling = t.take 2 then some (.short name (t.drop 2)) else none

/-- An argument that is told apart on its own. -/
def classify (t : Text) : Except ArgumentError Argument :=
  if !Text.startsWith t "-" || t = "-" then .ok (.word t)
  else
    match OptionName.ofText? t with
    | some name => .ok (.option name none)
    | none =>
      let (start, value) := splitValue t
      match OptionName.ofText? start, value with
      | some name, some v => .ok (.option name (some v))
      | _, _ =>
        match candidates t with
        | [one] => .ok one
        | [] =>
          if isNegativeNumber t || t.contains ' ' then .ok (.word t) else .ok .unknown
        | _ => .error .usage

/-- The arguments told apart; behind the mark that ends the options all are words. -/
def classifyAll : List Text → Except ArgumentError (List Argument)
  | [] => .ok []
  | t :: rest =>
    if t = "--" then .ok (.separator :: rest.map .word)
    else do
      let a ← classify t
      let as ← classifyAll rest
      .ok (a :: as)

/-! ### Taking options -/

/-- The arguments with the value of an option. -/
def Arguments.set (args : Arguments) (value : Text) : OptionName → Arguments
  | .config => { args with config := some value }
  | .sourceRoot => { args with sourceRoot := some value }
  | .output => { args with output := some value }
  | .packageJson => { args with packageJson := value }
  | .defaultVersion => { args with defaultVersion := some value }
  | .help | .verbose => args

/-- The arguments after a flag. -/
def Arguments.flag (args : Arguments) : OptionName → Except ArgumentError Arguments
  | .help => .error .help
  | .verbose => .ok { args with verbose := true }
  | _ => .ok args

/-- The flags that are written behind a short one, and whether something else comes after them.
A value cannot come after a flag. -/
def joinedFlags : Text → Except ArgumentError (List OptionName × Bool)
  | [] => .ok ([], false)
  | c :: rest =>
    if c = '-' || c = '=' then .error .usage
    else
      match OptionName.ofText? [CodePoint.ofChar '-', c] with
      | none => .ok ([], true)
      | some name => (joinedFlags rest).map fun (names, stray) => (name :: names, stray)

/-- The arguments after all of some flags. -/
def Arguments.flags (args : Arguments) : List OptionName → Except ArgumentError Arguments
  | [] => .ok args
  | name :: rest => do
    let args ← args.flag name
    args.flags rest

/-- Takes the arguments in order; `stray` tells that one of them belongs to no option. -/
def take (args : Arguments) (stray : Bool) : List Argument → Except ArgumentError Arguments
  | [] => if stray then .error .usage else .ok args
  | .option name (some v) :: rest =>
    if name.takesValue then take (args.set v name) stray rest else .error .usage
  | .option name none :: rest =>
    if name.takesValue then
      match rest with
      | .word w :: rest => take (args.set w name) stray rest
      | _ => .error .usage
    else do
      let args ← args.flag name
      take args stray rest
  | .short name more :: rest =>
    if name.takesValue then take (args.set more name) stray rest
    else do
      let (names, left) ← joinedFlags more
      let args ← args.flags (name :: names)
      take args (stray || left) rest
  | _ :: rest => take args true rest

/-- What a command line asks for. -/
def parse (argv : List Text) : Except ArgumentError Arguments := do
  let arguments ← classifyAll argv
  take {} false arguments

end PluginManifest.Command
