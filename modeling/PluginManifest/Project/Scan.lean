import PluginManifest.Item.Scan
import PluginManifest.Project.Discovery

/-! # Scanning a project

All source files are read into one index, and then each file is scanned for its widget and its
payment gateways.  The first fault ends the scan.  Items are listed under their ids; an item
takes the place of an earlier one with its id, and each such collision is recorded. -/

namespace PluginManifest.Project

open Item Source

/-- Why a project cannot be scanned. -/
inductive ScanFailure
  /-- The source files cannot be listed. -/
  | discovery (error : DiscoveryError)
  /-- A source file cannot be read. -/
  | unreadable (error : FileError)
  /-- A source file has a fault. -/
  | source (error : ScanError)
deriving DecidableEq

/-- What a scan looks at, and the version of items that give none. -/
structure Options extends Selection where
  /-- The version of items that give none. -/
  defaultVersion : DefaultVersion

/-- An item that took the place of an earlier one with its id. -/
structure Collision where
  /-- The kind of both items. -/
  kind : Item.Kind
  /-- The id of both items. -/
  id : Text
  /-- The file of the earlier item. -/
  previousFile : Text
  /-- The file of the later item. -/
  file : Text
deriving DecidableEq

/-- An item and the file that declares it. -/
structure Found where
  /-- The file. -/
  file : Text
  /-- The item. -/
  item : Descriptor

/-- The items of a project under their ids. -/
structure Catalog where
  /-- The widgets. -/
  widgets : Keyed Descriptor
  /-- The payment gateways. -/
  paymentGateways : Keyed Descriptor
  /-- The collisions, those of widgets first. -/
  collisions : List Collision

/-! ### Items under their ids -/

/-- The items so far under their ids, with the file of each and the collisions. -/
structure Ledger where
  /-- The last item of each id and its file. -/
  entries : Keyed Found
  /-- The collisions in order. -/
  collisions : List Collision

/-- The ledger with one more item. -/
def Ledger.record (kind : Item.Kind) (ledger : Ledger) (found : Found) : Ledger where
  entries := Keyed.put found.item.id found ledger.entries
  collisions :=
    match Keyed.get? ledger.entries found.item.id with
    | some previous =>
      ledger.collisions ++ [⟨kind, found.item.id, previous.file, found.file⟩]
    | none => ledger.collisions

/-- The items of a kind under their ids. -/
def Ledger.ofItems (kind : Item.Kind) (items : List Found) : Ledger :=
  items.foldl (Ledger.record kind) ⟨[], []⟩

/-- The items under their ids. -/
def Ledger.items (ledger : Ledger) : Keyed Descriptor :=
  ledger.entries.map fun (id, found) => (id, found.item)

/-- The name of a kind in records of collisions. -/
def kindName : Item.Kind → Text := Item.Kind.idTag

/-- What is reported of a collision. -/
def Collision.event (c : Collision) : Event :=
  .replaced (kindName c.kind) c.id c.file c.previousFile

/-! ### Scanning -/

/-- The index with the files of the given paths. -/
def indexFiles (parse : Parser) (fs : FileSystem) :
    Index → List Path → Report ScanFailure Index
  | index, [] => pure index
  | index, path :: rest => do
    let text ← Report.ofExcept ((fs.read path).mapError .unreadable)
    let index ← index.add parse path.toText text
    indexFiles parse fs index rest

/-- The items of a file: its widget and its payment gateways. -/
structure FileItems where
  /-- The widget. -/
  widget : Option Descriptor
  /-- The payment gateways. -/
  paymentGateways : List Descriptor

/-- The items of one file of an index. -/
def scanFile (index : Index) (default : DefaultVersion) (file : Text) :
    Report ScanError FileItems := do
  let outline ← index.outline file
  let widget ← widgetOf? file default outline
  let gateways ← gatewaysOf? file default outline
  pure ⟨widget, gateways⟩

/-- Items with their file. -/
def FileItems.found (file : Text) (items : FileItems) : List Found × List Found :=
  (items.widget.toList.map (⟨file, ·⟩), items.paymentGateways.map (⟨file, ·⟩))

/-- The catalog of the items that were found in the files of a project. -/
def Catalog.ofItems (widgets gateways : List Found) : Report ScanFailure Catalog :=
  let widgets := Ledger.ofItems .widget widgets
  let gateways := Ledger.ofItems .paymentGateway gateways
  let collisions := widgets.collisions ++ gateways.collisions
  ⟨collisions.map Collision.event, .ok ⟨widgets.items, gateways.items, collisions⟩⟩

/-- The items of a project. -/
def scan (parse : Parser) (fs : FileSystem) (root : Path) (options : Options) :
    Report ScanFailure Catalog := do
  let paths ← (discover fs root options.toSelection).mapError .discovery
  let index ← indexFiles parse fs Index.empty paths
  let files := paths.map Path.toText
  let items ← (Report.forEach (scanFile index options.defaultVersion) files).mapError .source
  let found := (files.zip items).map fun (file, items) => items.found file
  Catalog.ofItems (found.flatMap (·.1)) (found.flatMap (·.2))

end PluginManifest.Project
