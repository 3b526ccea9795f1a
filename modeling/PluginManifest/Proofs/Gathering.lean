import PluginManifest.Project.Scan
import PluginManifest.Proofs.Report

/-! # The items of a project, file by file

A scan lists the source files, reads them into one index, asks the index for the items of each
file, and lists the items under their ids.  `itemsByFile` is the scan up to the last step, without
its events, and `scan_result` says that listing the items of `itemsByFile` is all that a scan does
besides. -/

namespace PluginManifest.Project

open Item Source

/-- The source files of a project in order, with the items of each. -/
def itemsByFile (parse : Parser) (fs : FileSystem) (root : Path) (options : Options) :
    Except ScanFailure (List (Path × FileItems)) := do
  let paths ← (sourcePaths fs root options.toSelection).mapError .discovery
  let index ← (indexFiles parse fs Index.empty paths).result
  let items ← (paths.mapM fun path =>
    (scanFile index options.defaultVersion path.toText).result).mapError .source
  .ok (paths.zip items)

/-- The widgets of some files, in the order of the files. -/
def widgetsIn (byFile : List (Path × FileItems)) : List Found :=
  byFile.flatMap fun (path, items) => (items.found path.toText).1

/-- The payment gateways of some files, in the order of the files. -/
def gatewaysIn (byFile : List (Path × FileItems)) : List Found :=
  byFile.flatMap fun (path, items) => (items.found path.toText).2

/-- The catalog of widgets and payment gateways. -/
def Catalog.listing (widgets gateways : List Found) : Catalog where
  widgets := (Ledger.ofItems .widget widgets).items
  paymentGateways := (Ledger.ofItems .paymentGateway gateways).items
  collisions := (Ledger.ofItems .widget widgets).collisions ++
    (Ledger.ofItems .paymentGateway gateways).collisions

theorem Catalog.result_ofItems (widgets gateways : List Found) :
    (Catalog.ofItems widgets gateways).result = .ok (Catalog.listing widgets gateways) := rfl

theorem result_discover (fs : FileSystem) (root : Path) (selection : Selection) :
    (discover fs root selection).result = sourcePaths fs root selection := by
  simp only [discover, Report.result_bind, Report.result_ofExcept, Report.result_emit,
    Report.result_pure, ok_bind]
  cases sourcePaths fs root selection with
  | ok paths => rfl
  | error e => rfl

/-- The catalog of the items of some files. -/
def catalogOf (byFile : List (Path × FileItems)) : Catalog :=
  Catalog.listing (widgetsIn byFile) (gatewaysIn byFile)

/-- A scan lists the items that it finds file by file. -/
theorem scan_result (parse : Parser) (fs : FileSystem) (root : Path) (options : Options) :
    (scan parse fs root options).result = (itemsByFile parse fs root options).map catalogOf := by
  simp only [scan, itemsByFile, Report.result_bind, Report.result_mapError, result_discover,
    Report.result_forEach, Catalog.result_ofItems]
  cases (sourcePaths fs root options.toSelection).mapError ScanFailure.discovery with
  | error e => rfl
  | ok paths =>
      simp only [ok_bind]
      cases (indexFiles parse fs Index.empty paths).result with
      | error e => rfl
      | ok index =>
          simp only [ok_bind, List.mapM_map, Function.comp_def]
          cases (paths.mapM fun path =>
              (scanFile index options.defaultVersion path.toText).result).mapError
              ScanFailure.source with
          | error e => rfl
          | ok items =>
              simp only [ok_bind, Except.map, List.zip_map_left, List.map_map, List.flatMap_map,
                catalogOf, widgetsIn, gatewaysIn]
              rfl

/-- The files with items are the source files. -/
theorem sourcePaths_of_itemsByFile {parse : Parser} {fs : FileSystem} {root : Path}
    {options : Options} {byFile : List (Path × FileItems)}
    (h : itemsByFile parse fs root options = .ok byFile) :
    sourcePaths fs root options.toSelection = .ok (byFile.map Prod.fst) := by
  obtain ⟨paths, hpaths, h⟩ := bind_eq_ok_iff.mp h
  obtain ⟨index, -, h⟩ := bind_eq_ok_iff.mp h
  obtain ⟨items, hitems, h⟩ := bind_eq_ok_iff.mp h
  cases h
  have hlength := (mapM_eq_ok_iff.mp (mapError_eq_ok_iff.mp hitems)).length_eq
  rw [List.map_fst_zip (Nat.le_of_eq hlength)]
  exact mapError_eq_ok_iff.mp hpaths

end PluginManifest.Project
