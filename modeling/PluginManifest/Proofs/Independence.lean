import PluginManifest.Session
import PluginManifest.Proofs.Discovery
import PluginManifest.Proofs.Gathering
import PluginManifest.Proofs.Keyed

/-! # Files are scanned independently

A scan reads all source files into one index, under the normal forms of their paths.  Discovered
paths are in normal form and different from each other, so none takes the place of another one, and
each is found with its own bytes (`finds_indexAll`).  The items of a file follow from what the index
finds under its path (`FileScanner.items_congr`).  Hence a scan gives what asking a scanner for each
file alone gives, and the first file that fails decides how it fails (`scan_file_by_file`). -/

namespace PluginManifest

open Source Item

/-! ### One file -/

theorem Source.Index.get?_insert (index : Index) (file : File) (path : Text) :
    (index.insert file).get? path =
      if Index.key path = file.path then some file else index.get? path :=
  Keyed.get?_put file.path file index.files (Index.key path)

namespace FileScanner

/-- The widget of a file and then its payment gateways, as a scanner tells them. -/
def items (scanner : FileScanner) (index : Index) : Except ScanError Project.FileItems := do
  let asked := scanner.look index
  let widget ← asked.widget
  let gateways ← (asked.look index).paymentGateways
  .ok ⟨widget, gateways⟩

/-- A scanner looks its file up once. -/
theorem look_look (scanner : FileScanner) (index index' : Index) :
    (scanner.look index).look index' = scanner.look index := by
  cases h : scanner.looked with
  | none => simp [look, h]
  | some outline => simp [look, h]

/-- Only the scanner's own file matters. -/
theorem items_congr (scanner : FileScanner) {index index' : Index}
    (h : index.get? scanner.path = index'.get? scanner.path) :
    scanner.items index = scanner.items index' := by
  have hlook : scanner.look index = scanner.look index' := by
    unfold look
    rw [h]
  simp only [items, look_look, hlook]

/-- A fault in the widget is told before one in a payment gateway. -/
theorem items_of_widget_error {scanner : FileScanner} {index : Index} {e : ScanError}
    (h : (scanner.look index).widget = .error e) : scanner.items index = .error e := by
  simp only [items, h, error_bind]

end FileScanner

namespace Project

/-- The items that a fresh scanner tells of a file of an index. -/
theorem scanFile_result (index : Index) (default : DefaultVersion) (file : Text) :
    (scanFile index default file).result = (FileScanner.mk file default none).items index := by
  simp only [scanFile, FileScanner.items, FileScanner.look_look, Report.result_bind,
    Report.result_pure]
  cases h : index.get? file with
  | none => simp [Index.outline, FileScanner.look, FileScanner.widget, FileScanner.paymentGateways,
      FileScanner.outline?, h]
  | some found => simp [Index.outline, FileScanner.look, FileScanner.widget,
      FileScanner.paymentGateways, FileScanner.outline?, h]

variable {parse : Parser}

/-- The items of a file over an index that holds only that file. -/
def itemsAlone (parse : Parser) (default : DefaultVersion) (file : Text) (text : Bytes) :
    Except ScanError FileItems :=
  (FileScanner.mk file default none).items (Index.empty.insert (Index.read parse file text))

/-! ### The shared index -/

/-- The index with the files of the given paths and their bytes. -/
def indexAll (parse : Parser) (text : Path → Bytes) (paths : List Path) (index : Index) : Index :=
  paths.foldl (fun index path => index.insert (Index.read parse path.toText (text path))) index

/-- If all files can be read, indexing them succeeds. -/
theorem indexFiles_result {fs : FileSystem} {text : Path → Bytes} {paths : List Path}
    (h : ∀ p ∈ paths, fs.read p = .ok (text p)) (index : Index) :
    (indexFiles parse fs index paths).result = .ok (indexAll parse text paths index) := by
  induction paths generalizing index with
  | nil => rfl
  | cons p rest ih =>
      obtain ⟨hp, hrest⟩ := List.forall_mem_cons.mp h
      simp only [indexFiles, Report.result_bind, Report.result_ofExcept, hp]
      exact ih hrest (index.insert (Index.read parse p.toText (text p)))

/-- An index finds the file of a path under the text of the path. -/
def Finds (parse : Parser) (text : Path → Bytes) (index : Index) (p : Path) : Prop :=
  index.get? p.toText = some (Index.read parse p.toText (text p))

/-- A file that was indexed is found. -/
theorem finds_insert_self (text : Path → Bytes) (index : Index) (p : Path) :
    Finds parse text (index.insert (Index.read parse p.toText (text p))) p := by
  unfold Finds
  rw [Index.get?_insert]
  exact if_pos rfl

/-- Indexing another file, or the same one again, loses no file of a normal path. -/
theorem Finds.insert {text : Path → Bytes} {index : Index} {p q : Path} (hp : p.Normal)
    (hq : q.Normal) (h : Finds parse text index p) :
    Finds parse text (index.insert (Index.read parse q.toText (text q))) p := by
  by_cases hpq : p = q
  · subst hpq
    exact finds_insert_self text index p
  · -- Texts of normal paths are their own keys, so equal keys would make the paths equal.
    have hkey : ¬ Index.key p.toText = (Index.read parse q.toText (text q)).path := by
      show ¬ Path.normalize p.toText = Path.normalize q.toText
      rw [Path.normalize_toText hp, Path.normalize_toText hq]
      exact fun e => hpq (Path.eq_of_toText_eq hp hq e)
    unfold Finds
    rw [Index.get?_insert, if_neg hkey]
    exact h

theorem Finds.indexAll {text : Path → Bytes} {paths : List Path} (hpaths : ∀ q ∈ paths, q.Normal)
    {index : Index} {p : Path} (hp : p.Normal) (h : Finds parse text index p) :
    Finds parse text (indexAll parse text paths index) p := by
  induction paths generalizing index with
  | nil => exact h
  | cons q rest ih =>
      obtain ⟨hq, hrest⟩ := List.forall_mem_cons.mp hpaths
      exact ih hrest (h.insert hp hq)

/-- Every file that went into the index is found in it. -/
theorem finds_indexAll {text : Path → Bytes} {paths : List Path} (hpaths : ∀ q ∈ paths, q.Normal)
    (index : Index) : ∀ p ∈ paths, Finds parse text (indexAll parse text paths index) p := by
  induction paths generalizing index with
  | nil => exact fun _ hp => absurd hp List.not_mem_nil
  | cons q rest ih =>
      obtain ⟨hq, hrest⟩ := List.forall_mem_cons.mp hpaths
      refine List.forall_mem_cons.mpr ⟨?_, ih hrest _⟩
      exact (finds_insert_self text index q).indexAll hrest hq

/-- A file of the shared index has the items that it has alone. -/
theorem Finds.scanFile_result {text : Path → Bytes} {index : Index} {p : Path}
    (h : Finds parse text index p) (default : DefaultVersion) :
    (scanFile index default p.toText).result = itemsAlone parse default p.toText (text p) := by
  rw [Project.scanFile_result]
  refine FileScanner.items_congr _ ?_
  exact h.trans (finds_insert_self text Index.empty p).symm

/-! ### A whole scan -/

/-- The items of a project's files are those that each file has alone, up to the first failure. -/
theorem itemsByFile_eq {fs : FileSystem} {root : Path} {options : Options} {paths : List Path}
    (hpaths : sourcePaths fs root options.toSelection = .ok paths)
    (hnormal : ∀ p ∈ paths, p.Normal) :
    itemsByFile parse fs root options =
      ((paths.mapM fun p => itemsAlone parse options.defaultVersion p.toText (fs.contentAt p)).mapError
        ScanFailure.source).map paths.zip := by
  have hread : ∀ p ∈ paths, fs.read p = .ok (fs.contentAt p) :=
    fun p hp => FileSystem.read_of_isFile (isFile_of_sourcePaths hpaths p hp)
  have halone : (paths.mapM fun p =>
      (scanFile (indexAll parse fs.contentAt paths Index.empty) options.defaultVersion p.toText).result) =
      paths.mapM fun p => itemsAlone parse options.defaultVersion p.toText (fs.contentAt p) :=
    mapM_congr fun p hp => (finds_indexAll hnormal Index.empty p hp).scanFile_result _
  rw [itemsByFile, hpaths]
  simp only [Except.mapError, ok_bind, indexFiles_result hread, halone]
  cases paths.mapM fun p => itemsAlone parse options.defaultVersion p.toText (fs.contentAt p) with
  | error e => rfl
  | ok items => rfl

/-- What a scan of the files `paths` gives, told by what each of them gives alone. -/
structure FileByFile (parse : Parser) (fs : FileSystem) (root : Path) (options : Options)
    (paths : List Path) : Prop where
  /-- Every file can be read, the shared index finds it with its own bytes, and its items there
  are those that it has alone. -/
  indexed : ∃ index, (indexFiles parse fs Index.empty paths).result = .ok index ∧
    ∀ p ∈ paths, fs.read p = .ok (fs.contentAt p) ∧
      index.get? p.toText = some (Index.read parse p.toText (fs.contentAt p)) ∧
      (scanFile index options.defaultVersion p.toText).result =
        itemsAlone parse options.defaultVersion p.toText (fs.contentAt p)
  /-- The scan succeeds exactly when every file has its items. -/
  succeeds_iff : (∃ catalog, (scan parse fs root options).result = .ok catalog) ↔
    ∀ p ∈ paths, ∃ items,
      itemsAlone parse options.defaultVersion p.toText (fs.contentAt p) = .ok items
  /-- Then it lists the items of the files in the order of the files. -/
  lists : ∀ items, List.Forall₂ (fun p items =>
      itemsAlone parse options.defaultVersion p.toText (fs.contentAt p) = .ok items) paths items →
    itemsByFile parse fs root options = .ok (paths.zip items) ∧
      (scan parse fs root options).result = .ok (catalogOf (paths.zip items))
  /-- Otherwise it fails as the first file does that fails. -/
  fails_iff : ∀ failure, (scan parse fs root options).result = .error failure ↔
    ∃ before p after e, paths = before ++ p :: after ∧
      (∀ q ∈ before, ∃ items,
        itemsAlone parse options.defaultVersion q.toText (fs.contentAt q) = .ok items) ∧
      itemsAlone parse options.defaultVersion p.toText (fs.contentAt p) = .error e ∧
      failure = .source e
  /-- A file that has a fault in its widget fails with that fault. -/
  widget_first : ∀ p ∈ paths, ∀ e,
    ((FileScanner.mk p.toText options.defaultVersion none).look
      (Index.empty.insert (Index.read parse p.toText (fs.contentAt p)))).widget = .error e →
    itemsAlone parse options.defaultVersion p.toText (fs.contentAt p) = .error e

/-- **Files are scanned independently, and the first failure decides.** -/
theorem scan_file_by_file (parse : Parser) {fs : FileSystem} (source : Text) (options : Options)
    {paths : List Path}
    (hpaths : sourcePaths fs (Path.ofText source) options.toSelection = .ok paths) :
    FileByFile parse fs (Path.ofText source) options paths := by
  have hnormal := normal_of_sourcePaths (Path.normal_ofText source) hpaths
  have hread : ∀ p ∈ paths, fs.read p = .ok (fs.contentAt p) :=
    fun p hp => FileSystem.read_of_isFile (isFile_of_sourcePaths hpaths p hp)
  have hitems : itemsByFile parse fs (Path.ofText source) options = _ :=
    itemsByFile_eq hpaths hnormal
  have hscan := scan_result parse fs (Path.ofText source) options
  rw [hitems] at hscan
  refine ⟨?_, ?_, ?_, ?_, ?_⟩
  · refine ⟨indexAll parse fs.contentAt paths Index.empty, indexFiles_result hread _, ?_⟩
    intro p hp
    have hfinds : Finds parse fs.contentAt (indexAll parse fs.contentAt paths Index.empty) p :=
      finds_indexAll hnormal Index.empty p hp
    exact ⟨hread p hp, hfinds, hfinds.scanFile_result _⟩
  · rw [hscan, ← exists_mapM_eq_ok_iff]
    simp only [map_eq_ok_iff, mapError_eq_ok_iff]
    constructor
    · rintro ⟨-, -, ⟨items, h, -⟩, -⟩
      exact ⟨items, h⟩
    · rintro ⟨items, h⟩
      exact ⟨_, _, ⟨items, h, rfl⟩, rfl⟩
  · intro items h
    rw [← mapM_eq_ok_iff] at h
    rw [hscan, hitems, h]
    exact ⟨rfl, rfl⟩
  · intro failure
    rw [hscan, map_eq_error_iff, map_eq_error_iff, mapError_eq_error_iff]
    simp only [mapM_eq_error_iff]
    constructor
    · rintro ⟨e, ⟨before, p, after, hsplit, hbefore, hp⟩, rfl⟩
      exact ⟨before, p, after, e, hsplit, hbefore, hp, rfl⟩
    · rintro ⟨before, p, after, e, hsplit, hbefore, hp, rfl⟩
      exact ⟨e, ⟨before, p, after, hsplit, hbefore, hp⟩, rfl⟩
  · exact fun p hp e h => FileScanner.items_of_widget_error h

/-- Two files, of which the first one in order was given last, beside the working directory. -/
def twoFiles : FileSystem :=
  (FileSystem.ofEntries
    [("/work/src/b/late.tsx", .file (TypeScript.bytesOf "/** @widget Late */ export function Late() {}")),
      ("/work/src/a.ts", .file (TypeScript.bytesOf "/** @paymentGateway */ class Pay {}")),
      ("/work/tools", .directory)]).enter (Path.ofText "/work/tools")

theorem scan_file_by_file_twoFiles :
    let options : Options := ⟨⟨defaultPatterns.map .text, []⟩, none⟩
    let inside : List Path := [⟨.absolute, ["work", "src", "a.ts"]⟩,
      ⟨.absolute, ["work", "src", "b", "late.tsx"]⟩]
    let beside : List Path := [⟨.relative, ["..", "src", "a.ts"]⟩,
      ⟨.relative, ["..", "src", "b", "late.tsx"]⟩]
    (sourcePaths twoFiles (Path.ofText "/work/./src") options.toSelection = .ok inside ∧
      FileByFile TypeScript.parse twoFiles (Path.ofText "/work/./src") options inside) ∧
    sourcePaths twoFiles (Path.ofText "..//src") options.toSelection = .ok beside ∧
      FileByFile TypeScript.parse twoFiles (Path.ofText "..//src") options beside := by
  have hinside : sourcePaths twoFiles (Path.ofText "/work/./src") ⟨defaultPatterns.map .text, []⟩ =
      .ok [⟨.absolute, ["work", "src", "a.ts"]⟩, ⟨.absolute, ["work", "src", "b", "late.tsx"]⟩] := by
    decide +kernel
  have hbeside : sourcePaths twoFiles (Path.ofText "..//src") ⟨defaultPatterns.map .text, []⟩ =
      .ok [⟨.relative, ["..", "src", "a.ts"]⟩,
        ⟨.relative, ["..", "src", "b", "late.tsx"]⟩] := by
    decide +kernel
  exact ⟨⟨hinside, scan_file_by_file TypeScript.parse "/work/./src" _ hinside⟩,
    hbeside, scan_file_by_file TypeScript.parse "..//src" _ hbeside⟩

end Project

end PluginManifest
