import PluginManifest.Command.Arguments
import PluginManifest.Config
import PluginManifest.Manifest

/-! # Running the command

The command reads the configuration and the description of the package, scans the sources, and
saves the manifest.  It ends with one of these codes:

* `0`: the manifest was saved;
* `1`: a source file has a fault;
* `2`: no widget was found, or the arguments were not understood;
* `3`: two widgets share an id.

Any other failure ends it without a code of its own. -/

namespace PluginManifest.Command

open Project

/-- A failure that the command has no code for. -/
inductive RunError
  /-- A document cannot be read. -/
  | document (error : DocumentError)
  /-- A value does not have the shape that its use asks for. -/
  | shape (error : ShapeError)
  /-- The sources cannot be scanned. -/
  | scan (error : ScanFailure)
  /-- The manifest cannot be saved. -/
  | save (error : Manifest.SaveError)
deriving DecidableEq

/-- How a run ends. -/
inductive Ending
  /-- The command did not start: the arguments are faulty or ask for help. -/
  | notStarted (code : Nat)
  /-- The command ended with a code. -/
  | exit (code : Nat)
  /-- The command failed. -/
  | failed (error : RunError)
deriving DecidableEq

/-- What a run prints and leaves behind. -/
structure Outcome where
  /-- The lines on the standard output. -/
  output : List Text
  /-- The lines on the error output. -/
  errors : List Text
  /-- The files afterwards. -/
  files : FileSystem
  /-- How it ended. -/
  ending : Ending

/-- The text of printed lines. -/
def linesText (lines : List Text) : Text := lines.flatMap (· ++ "\n")

/-- How source files and configuration files are read. -/
structure Readers where
  /-- The syntax tree of a source. -/
  parse : Source.Parser
  /-- The value of the text of a configuration file. -/
  config : Text → Except Yaml.Error Value

/-- The readers of the program. -/
def Readers.standard : Readers := ⟨TypeScript.parse, Yaml.read⟩

/-! ### Before the scan -/

/-- What a run works with. -/
structure Plan where
  /-- The configuration. -/
  config : Fields
  /-- The description of the package. -/
  package : Fields
  /-- The options of the scan. -/
  options : Options
  /-- The directory that is scanned. -/
  root : Path

/-- The default version: the one on the command line, unless it is empty. -/
def overrideVersion (args : Arguments) (options : Options) : Options :=
  match args.defaultVersion with
  | none => options
  | some v => if v.isEmpty then options else { options with defaultVersion := some (.text v) }

/-- The path on the command line, or the one of a field. -/
def pathOr (given : Option Text) (fields : Fields) (key : Text) : Except RunError Path :=
  match given with
  | some t => .ok (Path.ofText t)
  | none => ((fields.find key).asText.mapError .shape).map Path.ofText

/-- What a run works with, from its arguments and files. -/
def plan (readers : Readers) (fs : FileSystem) (args : Arguments) : Except RunError Plan := do
  let config ← (Config.load readers.config fs (args.config.getD [])).mapError .document
  let description ← (Manifest.readPackage fs (Path.ofText args.packageJson)).mapError .document
  let package ← description.fields.mapError .shape
  let options ← (Config.options config (package.find "version")).mapError .shape
  let scan ← (Config.sectionOf config "scan").mapError .shape
  let root ← pathOr args.sourceRoot scan "source_root"
  .ok ⟨config, package, overrideVersion args options, root⟩

/-! ### After the scan -/

/-- The lines that tell of the items. -/
def itemLines (catalog : Catalog) : List Text :=
  let line (kind : Item.Kind) (item : Item.Descriptor) : Text :=
    "Detected " ++ kind.label ++ " " ++ item.id ++ " (" ++ item.name ++ ")"
  (Keyed.values catalog.widgets).map (line .widget) ++
    (Keyed.values catalog.paymentGateways).map (line .paymentGateway)

/-- The warning about two payment gateways with one id. -/
def gatewayWarning (c : Collision) : Event := .duplicateGateway c.id c.file c.previousFile

/-- The collisions before the first one of widgets, and that one. -/
def splitCollisions : List Collision → List Collision × Option Collision
  | [] => ([], none)
  | c :: rest =>
    match c.kind with
    | .widget => ([], some c)
    | .paymentGateway =>
      let (before, first) := splitCollisions rest
      (c :: before, first)

/-- The lines of the events that are shown: all of them, or only warnings. -/
def logLines (verbose : Bool) (events : List Event) : List Text :=
  (events.filter fun e => verbose || e.level = .warning).map Event.line

/-- The path of the manifest, and whether it lists payment gateways. -/
def manifestPlan (args : Arguments) (config : Fields) : Except RunError (Path × Bool) := do
  let fields ← (Config.sectionOf config "manifest").mapError .shape
  let path ← pathOr args.output fields "output"
  .ok (path, ((Keyed.get? fields "include_payment_gateways").getD (.bool true)).isSet)

/-- Saves the manifest; the lines are those that were printed before. -/
def finish (fs : FileSystem) (args : Arguments) (plan : Plan) (catalog : Catalog)
    (output errors : List Text) : Outcome :=
  match manifestPlan args plan.config with
  | .error e => ⟨output, errors, fs, .failed e⟩
  | .ok (path, gateways) =>
    match Manifest.save fs (Manifest.fieldsOf plan.package catalog gateways) path with
    | (fs, .error e) => ⟨output, errors, fs, .failed (.save e)⟩
    | (fs, .ok ()) => ⟨output ++ ["Manifest generated at " ++ path.toText], errors, fs, .exit 0⟩

/-- Goes on with the items of the sources. -/
def conclude (fs : FileSystem) (args : Arguments) (plan : Plan) (catalog : Catalog)
    (log : List Event) : Outcome :=
  if catalog.widgets.isEmpty then
    ⟨["No widgets detected, aborting"], logLines args.verbose log, fs, .exit 2⟩
  else
    let output := itemLines catalog
    let (before, duplicate) := splitCollisions catalog.collisions
    let errors := logLines args.verbose (log ++ before.map gatewayWarning)
    match duplicate with
    | some c =>
      let message : Text :=
        "Duplicate widget id " ++ c.id ++ ", each widget must have a unique id!"
      ⟨output, errors ++ [message], fs, .exit 3⟩
    | none => finish fs args plan catalog output errors

/-- Runs the command with its arguments. -/
def runWith (readers : Readers) (fs : FileSystem) (args : Arguments) : Outcome :=
  match plan readers fs args with
  | .error e => ⟨[], [], fs, .failed e⟩
  | .ok plan =>
    let report := Project.scan readers.parse fs plan.root plan.options
    match report.result with
    | .ok catalog => conclude fs args plan catalog report.log
    | .error (.source (.declaration e)) =>
      ⟨[], logLines args.verbose report.log ++ ["Error: " ++ e.message], fs, .exit 1⟩
    | .error e => ⟨[], logLines args.verbose report.log, fs, .failed (.scan e)⟩

/-- Runs the command on a command line. -/
def run (readers : Readers) (fs : FileSystem) (argv : List Text) : Outcome :=
  match parse argv with
  | .ok args => runWith readers fs args
  | .error .help => ⟨[], [], fs, .notStarted 0⟩
  | .error .usage => ⟨[], [], fs, .notStarted 2⟩

end PluginManifest.Command
