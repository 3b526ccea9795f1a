import PluginManifest.Proofs.Independence
import PluginManifest.Proofs.Ledger

/-! # What a catalog lists

Ids, names and property types fall back on something that is not empty, so whatever is declared can
be listed (`complete_of_itemOf`).  A widget tells the path under which its file was scanned, a payment
gateway tells none.  Each file has at most one widget and no file is discovered twice; so a catalog
keeps the widgets of a project apart by their ids and also by their locations (`sound_of_scan`). -/

namespace PluginManifest

/-! ### What an item tells -/

namespace Item

open Source SyntaxTree

/-- The item can be listed: it has an id and a name, and each of its properties has a type. -/
structure Descriptor.Complete (d : Descriptor) : Prop where
  id : d.id ≠ []
  name : d.name ≠ []
  types : ∀ p ∈ d.properties, p.type ≠ []

theorem ne_nil_of_nonEmpty? {t : Option Text} {u : Text} (h : nonEmpty? t = some u) : u ≠ [] := by
  have hfilter : u.isEmpty = false := by
    simpa using (Option.filter_eq_some_iff.mp h).2
  rintro rfl
  cases hfilter

theorem getD_nonEmpty?_ne_nil (t : Option Text) {u : Text} (h : u ≠ []) :
    (nonEmpty? t).getD u ≠ [] := by
  cases ht : nonEmpty? t with
  | none => exact h
  | some v => exact ne_nil_of_nonEmpty? ht

theorem ne_nil_of_primitiveType? {kind : SyntaxTree.Kind} {type : Text}
    (h : primitiveType? kind = some type) : type ≠ [] := by
  unfold primitiveType? at h
  split at h
  · cases h; decide
  · cases h; decide
  · cases h; decide
  · cases h

theorem ne_nil_of_inferType {file : File} {name type : Text} {member : Focus}
    (h : (inferType file name member : Report ScanError Text).result = .ok type) : type ≠ [] := by
  unfold inferType at h
  rw [Report.result_bind] at h
  obtain ⟨base, -, h⟩ := bind_eq_ok_iff.mp h
  split at h
  · rename_i hprimitive
    cases h
    obtain ⟨t, -, ht⟩ := Option.bind_eq_some_iff.mp hprimitive
    exact ne_nil_of_primitiveType? ht
  · cases h
    decide

section items

variable {outline : Outline} {kind : Kind} {path : Text} {default : DefaultVersion}

theorem ne_nil_of_propertyOf {member : Focus} {p : Property}
    (h : (propertyOf outline member).result = .ok p) : p.type ≠ [] := by
  unfold propertyOf at h
  rw [Report.result_bind] at h
  obtain ⟨name, -, h⟩ := bind_eq_ok_iff.mp h
  dsimp only at h
  split at h
  · rename_i htag
    cases h
    exact ne_nil_of_nonEmpty? htag
  · rw [Report.result_bind] at h
    obtain ⟨type, htype, h⟩ := bind_eq_ok_iff.mp h
    cases h
    exact ne_nil_of_inferType htype

theorem ne_nil_of_propertiesOf {shape : Focus} {properties : List Property}
    (h : (propertiesOf outline shape).result = .ok properties) :
    ∀ p ∈ properties, p.type ≠ [] := by
  intro p hp
  unfold propertiesOf at h
  rw [Report.result_forEach] at h
  obtain ⟨member, -, hmember⟩ := exists_of_mem_mapM h hp
  exact ne_nil_of_propertyOf hmember

theorem ne_nil_of_itemProperties {f : Focus} {properties : List Property}
    (h : (itemProperties kind outline f).result = .ok properties) :
    ∀ p ∈ properties, p.type ≠ [] := by
  unfold itemProperties at h
  split at h
  · cases h
    simp
  · rw [Report.result_bind] at h
    obtain ⟨shape?, -, h⟩ := bind_eq_ok_iff.mp h
    cases shape? with
    | none =>
        cases h
        simp
    | some shape => exact ne_nil_of_propertiesOf h

theorem ne_nil_of_itemId? {d : Documented} {id : Text} (h : itemId? kind outline d = some id) :
    id ≠ [] := by
  unfold itemId? at h
  cases htag : nonEmpty? (Doc.Tag.valueOf? d.comment.tags kind.idTag) with
  | some given =>
      rw [htag] at h
      cases h
      exact ne_nil_of_nonEmpty? htag
  | none =>
      rw [htag] at h
      exact ne_nil_of_nonEmpty? h

/-- An item can be listed, and tells its file if its kind records that. -/
theorem complete_of_itemOf {d : Documented} {item : Descriptor}
    (h : (itemOf kind path default outline d).result = .ok item) :
    item.Complete ∧ item.sourceLocation = if kind.recordsSource then some path else none := by
  unfold itemOf at h
  by_cases hkind : d.kind ≠ kind.declarationKind
  · rw [if_pos hkind] at h
    cases h
  · rw [if_neg hkind] at h
    cases hid : itemId? kind outline d with
    | none =>
        rw [hid] at h
        cases h
    | some id =>
        simp only [hid, Report.result_bind] at h
        obtain ⟨properties, hproperties, h⟩ := bind_eq_ok_iff.mp h
        cases h
        have hne := ne_nil_of_itemId? hid
        exact ⟨⟨hne, getD_nonEmpty?_ne_nil _ hne, ne_nil_of_itemProperties hproperties⟩, rfl⟩

theorem complete_of_widgetOf {item : Descriptor}
    (h : (widgetOf path default outline).result = .ok (some item)) :
    item.Complete ∧ item.sourceLocation = some path := by
  unfold widgetOf at h
  split at h
  · cases h
  · rw [Report.result_bind, Report.result_emit, ok_bind, Report.result_bind] at h
    obtain ⟨found, hfound, h⟩ := bind_eq_ok_iff.mp h
    cases h
    exact complete_of_itemOf hfound
  · cases h

theorem complete_of_gatewaysOf {items : List Descriptor}
    (h : (gatewaysOf path default outline).result = .ok items) :
    ∀ item ∈ items, item.Complete ∧ item.sourceLocation = none := by
  unfold gatewaysOf at h
  split at h
  · cases h
    simp
  · rw [Report.result_bind, Report.result_emit, ok_bind, Report.result_forEach] at h
    intro item hitem
    obtain ⟨d, -, hd⟩ := exists_of_mem_mapM h hitem
    exact complete_of_itemOf hd

end items

end Item

open Item Source

/-- The items of a scanner's file can be listed; its widget tells the path of the scanner. -/
theorem FileScanner.complete_of_items {scanner : FileScanner} {index : Index}
    {items : Project.FileItems} (h : scanner.items index = .ok items) :
    (∀ w ∈ items.widget, w.Complete ∧ w.sourceLocation = some scanner.path) ∧
      ∀ g ∈ items.paymentGateways, g.Complete ∧ g.sourceLocation = none := by
  have hpath : (scanner.look index).path = scanner.path := by
    unfold FileScanner.look
    split
    · rfl
    · rfl
  simp only [FileScanner.items, FileScanner.look_look] at h
  obtain ⟨widget, hwidget, h⟩ := bind_eq_ok_iff.mp h
  obtain ⟨gateways, hgateways, h⟩ := bind_eq_ok_iff.mp h
  cases h
  unfold FileScanner.widget at hwidget
  unfold FileScanner.paymentGateways at hgateways
  cases houtline : (scanner.look index).outline? with
  | none =>
      rw [houtline] at hwidget hgateways
      cases hwidget
      cases hgateways
      simp
  | some outline =>
      rw [houtline] at hwidget hgateways
      refine ⟨?_, complete_of_gatewaysOf hgateways⟩
      rintro w rfl
      rw [← hpath]
      exact complete_of_widgetOf hwidget

/-! ### What is listed -/

namespace Project

/-- The entries of a ledger stand under their ids, each id once, and are some of the items. -/
structure Ledger.Lists (items : List Found) (ledger : Ledger) : Prop where
  nodup : (Keyed.keys ledger.entries).Nodup
  found : ∀ entry ∈ ledger.entries, entry.2.item.id = entry.1 ∧ entry.2 ∈ items

theorem Ledger.Lists.record {items : List Found} {ledger : Ledger} (h : ledger.Lists items)
    (kind : Item.Kind) (found : Found) : (ledger.record kind found).Lists (items ++ [found]) := by
  refine ⟨Keyed.nodup_keys_put h.nodup _ _, ?_⟩
  intro entry hentry
  rcases Keyed.mem_put hentry with rfl | hold
  · exact ⟨rfl, by simp⟩
  · obtain ⟨hid, hmem⟩ := h.found entry hold
    exact ⟨hid, List.mem_append_left _ hmem⟩

theorem Ledger.lists_ofItems (kind : Item.Kind) (items : List Found) :
    (Ledger.ofItems kind items).Lists items := by
  induction items using List.reverseRecOn with
  | nil => exact ⟨List.nodup_nil, by simp [Ledger.ofItems]⟩
  | append_singleton items found ih =>
      have e : Ledger.ofItems kind (items ++ [found]) =
          (Ledger.ofItems kind items).record kind found := by
        simp [Ledger.ofItems]
      rw [e]
      exact ih.record kind found

theorem Ledger.Lists.nodup_items {items : List Found} {ledger : Ledger} (h : ledger.Lists items) :
    ledger.items.Nodup := by
  have hkeys : (Keyed.keys ledger.items).Nodup := by
    have e : Keyed.keys ledger.items = Keyed.keys ledger.entries := Keyed.keys_mapValues _ _
    rw [e]
    exact h.nodup
  exact List.Nodup.of_map Prod.fst hkeys

theorem Ledger.Lists.of_mem_items {items : List Found} {ledger : Ledger} (h : ledger.Lists items)
    {entry : Text × Descriptor} (hentry : entry ∈ ledger.items) :
    entry.2.id = entry.1 ∧ ∃ found ∈ items, found.item = entry.2 := by
  obtain ⟨⟨id, found⟩, hmem, rfl⟩ := List.mem_map.mp hentry
  obtain ⟨hid, hfound⟩ := h.found _ hmem
  exact ⟨hid, found, hfound, rfl⟩

/-! ### From files to the catalog -/

theorem exists_of_mem_widgetsIn {byFile : List (Path × FileItems)} {found : Found}
    (h : found ∈ widgetsIn byFile) : ∃ file ∈ byFile, file.2.widget = some found.item := by
  obtain ⟨file, hfile, hmem⟩ := List.mem_flatMap.mp h
  obtain ⟨w, hw, rfl⟩ := List.mem_map.mp hmem
  exact ⟨file, hfile, Option.mem_toList.mp hw⟩

theorem exists_of_mem_gatewaysIn {byFile : List (Path × FileItems)} {found : Found}
    (h : found ∈ gatewaysIn byFile) : ∃ file ∈ byFile, found.item ∈ file.2.paymentGateways := by
  obtain ⟨file, hfile, hmem⟩ := List.mem_flatMap.mp h
  obtain ⟨g, hg, rfl⟩ := List.mem_map.mp hmem
  exact ⟨file, hfile, hg⟩

/-- A widget of the catalog stands under its id and is the widget of one of the files. -/
theorem of_mem_widgets {byFile : List (Path × FileItems)} {entry : Text × Descriptor}
    (h : entry ∈ (catalogOf byFile).widgets) :
    entry.2.id = entry.1 ∧ ∃ file ∈ byFile, file.2.widget = some entry.2 := by
  obtain ⟨hid, found, hfound, hitem⟩ := (Ledger.lists_ofItems _ _).of_mem_items h
  rw [← hitem]
  exact ⟨hitem ▸ hid, exists_of_mem_widgetsIn hfound⟩

theorem of_mem_paymentGateways {byFile : List (Path × FileItems)} {entry : Text × Descriptor}
    (h : entry ∈ (catalogOf byFile).paymentGateways) :
    entry.2.id = entry.1 ∧ ∃ file ∈ byFile, entry.2 ∈ file.2.paymentGateways := by
  obtain ⟨hid, found, hfound, hitem⟩ := (Ledger.lists_ofItems _ _).of_mem_items h
  rw [← hitem]
  exact ⟨hitem ▸ hid, exists_of_mem_gatewaysIn hfound⟩

/-- The items of a project's files are those that each file has alone. -/
theorem itemsAlone_of_mem {parse : Parser} {fs : FileSystem} {root : Path} {options : Options}
    {byFile : List (Path × FileItems)} (h : itemsByFile parse fs root options = .ok byFile)
    (hnormal : ∀ p ∈ byFile.map Prod.fst, p.Normal) : ∀ file ∈ byFile,
      itemsAlone parse options.defaultVersion file.1.toText (fs.contentAt file.1) = .ok file.2 := by
  rw [itemsByFile_eq (sourcePaths_of_itemsByFile h) hnormal] at h
  obtain ⟨items, hitems, hzip⟩ := map_eq_ok_iff.mp h
  have hall := mapM_eq_ok_iff.mp (mapError_eq_ok_iff.mp hitems)
  intro file hfile
  rw [← hzip] at hfile
  exact (List.forall₂_iff_zip.mp hall).2 hfile

/-- Different widgets of a catalog tell different paths, as each file has one widget. -/
theorem nodup_locations {byFile : List (Path × FileItems)}
    (hnodup : (byFile.map Prod.fst).Nodup) (hnormal : ∀ p ∈ byFile.map Prod.fst, p.Normal)
    (hlocated : ∀ file ∈ byFile, ∀ w ∈ file.2.widget, w.sourceLocation = some file.1.toText) :
    ((catalogOf byFile).widgets.map fun entry => entry.2.sourceLocation).Nodup := by
  refine List.Nodup.map_on ?_ (Ledger.lists_ofItems _ _).nodup_items
  intro a ha b hb hsame
  obtain ⟨hida, filea, hfilea, hwa⟩ := of_mem_widgets ha
  obtain ⟨hidb, fileb, hfileb, hwb⟩ := of_mem_widgets hb
  rw [hlocated filea hfilea a.2 hwa, hlocated fileb hfileb b.2 hwb] at hsame
  have hpath : filea.1 = fileb.1 :=
    Path.eq_of_toText_eq (hnormal _ (List.mem_map_of_mem hfilea))
      (hnormal _ (List.mem_map_of_mem hfileb)) (Option.some.inj hsame)
  have hfile : filea = fileb := List.inj_on_of_nodup_map hnodup hfilea hfileb hpath
  have hitem : a.2 = b.2 := by
    rw [hfile, hwb] at hwa
    exact (Option.some.inj hwa).symm
  have hid : a.1 = b.1 := by rw [← hida, ← hidb, hitem]
  exact Prod.ext hid hitem

/-- What holds of the catalog of a project with the source files `paths`. -/
structure Catalog.Sound (parse : Parser) (fs : FileSystem) (options : Options) (paths : List Path)
    (catalog : Catalog) : Prop where
  /-- Every item stands under its id. -/
  keyed : ∀ entry ∈ catalog.widgets ++ catalog.paymentGateways, entry.2.id = entry.1
  /-- Every item has an id, a name, and a type for each property. -/
  complete : ∀ entry ∈ catalog.widgets ++ catalog.paymentGateways, entry.2.Complete
  /-- Every widget is the widget of a source file, and tells the path of that file. -/
  located : ∀ entry ∈ catalog.widgets, ∃ p ∈ paths, entry.2.sourceLocation = some p.toText ∧
    ∃ items, itemsAlone parse options.defaultVersion p.toText (fs.contentAt p) = .ok items ∧
      items.widget = some entry.2
  /-- No two widgets tell the same path. -/
  apart : (catalog.widgets.map fun entry => entry.2.sourceLocation).Nodup
  /-- Payment gateways tell no path. -/
  unlocated : ∀ entry ∈ catalog.paymentGateways, entry.2.sourceLocation = none

/-- **A scan that succeeds lists items that can be told apart.** -/
theorem Catalog.sound_of_scan (parse : Parser) {fs : FileSystem} (source : Text)
    (options : Options) {catalog : Catalog}
    (h : (scan parse fs (Path.ofText source) options).result = .ok catalog) :
    ∃ paths, sourcePaths fs (Path.ofText source) options.toSelection = .ok paths ∧
      catalog.Sound parse fs options paths := by
  rw [scan_result] at h
  obtain ⟨byFile, hbyFile, rfl⟩ := map_eq_ok_iff.mp h
  have hpaths := sourcePaths_of_itemsByFile hbyFile
  have hnormal := normal_of_sourcePaths (Path.normal_ofText source) hpaths
  have halone := itemsAlone_of_mem hbyFile hnormal
  have hfacts := fun file hfile => FileScanner.complete_of_items (halone file hfile)
  refine ⟨byFile.map Prod.fst, hpaths, ?_, ?_, ?_, ?_, ?_⟩
  · intro entry hentry
    rcases List.mem_append.mp hentry with hw | hg
    · exact (of_mem_widgets hw).1
    · exact (of_mem_paymentGateways hg).1
  · intro entry hentry
    rcases List.mem_append.mp hentry with hw | hg
    · obtain ⟨-, file, hfile, hwidget⟩ := of_mem_widgets hw
      exact ((hfacts file hfile).1 entry.2 hwidget).1
    · obtain ⟨-, file, hfile, hgateway⟩ := of_mem_paymentGateways hg
      exact ((hfacts file hfile).2 entry.2 hgateway).1
  · intro entry hentry
    obtain ⟨-, file, hfile, hwidget⟩ := of_mem_widgets hentry
    exact ⟨file.1, List.mem_map_of_mem hfile, ((hfacts file hfile).1 entry.2 hwidget).2, file.2,
      halone file hfile, hwidget⟩
  · exact nodup_locations (nodup_of_sourcePaths hpaths) hnormal
      fun file hfile w hw => ((hfacts file hfile).1 w hw).2
  · intro entry hentry
    obtain ⟨-, file, hfile, hgateway⟩ := of_mem_paymentGateways hentry
    exact ((hfacts file hfile).2 entry.2 hgateway).2

/-- Two files that use one id, a third one with an id and a type that are given and empty, and a
payment gateway. -/
def emptyTags : FileSystem := FileSystem.ofEntries
  [("/shop/src/a.ts", .file (TypeScript.bytesOf "/** @widget Card */ function A() \x7b\x7d")),
    ("/shop/src/b.ts", .file (TypeScript.bytesOf "/** @widget Card */ function B() \x7b\x7d")),
    ("/shop/src/c.ts", .file (TypeScript.bytesOf
      "/** @widget \"\" */ function C(p: \x7b /** @propertyType */ x: number \x7d) \x7b\x7d")),
    ("/shop/src/d.ts", .file (TypeScript.bytesOf "/** @paymentGateway */ class Pay \x7b\x7d"))]

theorem Catalog.sound_of_scan_emptyTags :
    let options : Options := ⟨⟨defaultPatterns.map .text, []⟩, none⟩
    let widgets : List (Text × Option Text) :=
      [("Card", some (Text.ofString "/shop/src/b.ts")), ("C", some (Text.ofString "/shop/src/c.ts"))]
    ∃ catalog paths,
      (scan TypeScript.parse emptyTags (Path.ofText "/shop/src") options).result = .ok catalog ∧
      catalog.widgets.map (fun entry => (entry.1, entry.2.sourceLocation)) = widgets ∧
      sourcePaths emptyTags (Path.ofText "/shop/src") options.toSelection = .ok paths ∧
      catalog.Sound TypeScript.parse emptyTags options paths := by
  intro options widgets
  have hscan : (scan TypeScript.parse emptyTags (Path.ofText "/shop/src") options).result.map
      (fun catalog => catalog.widgets.map fun entry => (entry.1, entry.2.sourceLocation)) =
      .ok widgets := by
    decide +kernel
  obtain ⟨catalog, hcatalog, hwidgets⟩ := map_eq_ok_iff.mp hscan
  obtain ⟨paths, hpaths, hsound⟩ :=
    Catalog.sound_of_scan TypeScript.parse "/shop/src" options hcatalog
  exact ⟨catalog, paths, hcatalog, hwidgets, hpaths, hsound⟩

end Project

end PluginManifest
