import PluginManifest.Item.Scan

/-! # Sessions

A session is one index of source files and a number of scanners under their names.  A scanner
looks its file up once, when it is first asked for items, and keeps what it found; the default
version is taken at each question. -/

namespace PluginManifest

open Source Item

/-- A scanner of one file. -/
structure FileScanner where
  /-- The path of the file as it was given. -/
  path : Text
  /-- The version of items that give none. -/
  defaultVersion : DefaultVersion
  /-- What the file declares, once it was looked up; the file may have been missing. -/
  looked : Option (Option Outline)

namespace FileScanner

/-- The scanner after it has looked up its file. -/
def look (scanner : FileScanner) (index : Index) : FileScanner :=
  match scanner.looked with
  | some _ => scanner
  | none => { scanner with looked := some ((index.get? scanner.path).map Outline.ofFile) }

/-- What the file of a scanner declares. -/
def outline? (scanner : FileScanner) : Option Outline := scanner.looked.join

/-- The widget of the file. -/
def widget (scanner : FileScanner) : Except ScanError (Option Descriptor) :=
  (widgetOf? scanner.path scanner.defaultVersion scanner.outline?).result

/-- The payment gateways of the file. -/
def paymentGateways (scanner : FileScanner) : Except ScanError (List Descriptor) :=
  (gatewaysOf? scanner.path scanner.defaultVersion scanner.outline?).result

end FileScanner

/-- An index and scanners under their names. -/
structure Session where
  /-- The index. -/
  index : Index
  /-- The scanners. -/
  scanners : Keyed FileScanner

namespace Session

/-- What a session is asked to do. -/
inductive Step
  /-- Adds a source file. -/
  | add (path : Text) (text : Bytes)
  /-- Looks for a source file. -/
  | find (path : Text)
  /-- Makes a scanner for a file, in place of an old one with its name. -/
  | scanner (name path : Text) (version : DefaultVersion)
  /-- Sets the default version of a scanner. -/
  | setVersion (name : Text) (version : DefaultVersion)
  /-- Asks a scanner for the widget of its file. -/
  | widget (name : Text)
  /-- Asks a scanner for the payment gateways of its file. -/
  | paymentGateways (name : Text)

/-- What a session answers. -/
inductive Answer
  /-- The key of the file that was added, and all keys. -/
  | added (key : Text) (keys : List Text)
  /-- The file that a path finds. -/
  | found (file : Option File)
  /-- The default version of a scanner. -/
  | version (version : DefaultVersion)
  /-- The widget of a file, or why it cannot be told. -/
  | widget (result : Except ScanError (Option Descriptor))
  /-- The payment gateways of a file, or why they cannot be told. -/
  | paymentGateways (result : Except ScanError (List Descriptor))
  /-- There is no scanner of this name. -/
  | unknown (name : Text)

/-- The session without files and scanners. -/
def empty : Session := ⟨Index.empty, []⟩

/-- The session with a scanner under a name. -/
def put (session : Session) (name : Text) (scanner : FileScanner) : Session :=
  { session with scanners := Keyed.put name scanner session.scanners }

/-- Asks a scanner that has looked up its file. -/
def ask (session : Session) (name : Text) (answer : FileScanner → Answer) : Session × Answer :=
  match Keyed.get? session.scanners name with
  | none => (session, .unknown name)
  | some scanner =>
    let scanner := scanner.look session.index
    (session.put name scanner, answer scanner)

/-- The session after a step, and its answer. -/
def step (parse : Parser) (session : Session) : Step → Session × Answer
  | .add path text =>
    let file := Index.read parse path text
    let index := session.index.insert file
    ({ session with index := index }, .added file.path (Keyed.keys index.files))
  | .find path => (session, .found (session.index.get? path))
  | .scanner name path version => (session.put name ⟨path, version, none⟩, .version version)
  | .setVersion name version =>
    match Keyed.get? session.scanners name with
    | none => (session, .unknown name)
    | some scanner =>
      (session.put name { scanner with defaultVersion := version }, .version version)
  | .widget name => session.ask name fun scanner => .widget scanner.widget
  | .paymentGateways name => session.ask name fun scanner => .paymentGateways scanner.paymentGateways

/-- The answers to the steps of a session in order. -/
def run (parse : Parser) (session : Session) : List Step → List Answer
  | [] => []
  | s :: rest =>
    let (session, answer) := session.step parse s
    answer :: session.run parse rest

end Session

end PluginManifest
