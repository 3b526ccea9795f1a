import PluginManifest.Command.Run
import PluginManifest.Proofs.SharedIds

/-! # What the exit code of a run tells

A run whose files have the documented types (`Documented`) and whose sources fail with faults of
declarations only ends with a code, or fails when it saves the manifest.  `Classified` says what
each code tells of the source files: `1` of a fault, `2` of no widget in any file, `3` of two
files that use one id, and `0` of a manifest that was saved. -/

namespace PluginManifest.Command

open Project

/-! ### Before the scan -/

/-- The configuration and the description of the package can be read, and what a run needs of them
has the documented types. -/
structure Documented (readers : Readers) (fs : FileSystem) (args : Arguments)
    (config package scan manifest : Fields) : Prop where
  config_read : Config.load readers.config fs (args.config.getD []) = .ok config
  package_read : Manifest.readPackage fs (Path.ofText args.packageJson) = .ok (.map package)
  scan_section : Keyed.get? config "scan" = some (.map scan)
  source_root : ∃ t, scan.find "source_root" = .text t
  patterns : ∃ ts : List Text, scan.find "patterns" = .list (ts.map .text)
  exclude : ∃ ts : List Text, scan.find "exclude" = .list (ts.map .text)
  manifest_section : Keyed.get? config "manifest" = some (.map manifest)
  output : ∃ t, manifest.find "output" = .text t

variable {readers : Readers} {fs : FileSystem} {args : Arguments}
  {config package scan manifest : Fields}

theorem exists_pathOr {fields : Fields} {key : Text} (given : Option Text)
    (h : ∃ t, fields.find key = .text t) : ∃ path, pathOr given fields key = .ok path := by
  obtain ⟨t, ht⟩ := h
  cases given with
  | some g => exact ⟨Path.ofText g, rfl⟩
  | none => exact ⟨Path.ofText t, by rw [pathOr, ht]; rfl⟩

theorem sectionOf_eq {key : Text} {fields : Fields}
    (h : Keyed.get? config key = some (.map fields)) :
    Config.sectionOf config key = .ok fields := by
  rw [Config.sectionOf, h]
  rfl

theorem exists_itemsOr {fields : Fields} {key : Text} (other : List Value)
    (h : ∃ ts : List Text, fields.find key = .list (ts.map .text)) :
    ∃ items, Config.itemsOr fields key other = .ok items := by
  obtain ⟨ts, hts⟩ := h
  rw [Config.itemsOr, hts]
  split
  · exact ⟨_, rfl⟩
  · exact ⟨_, rfl⟩

/-- With documented files a run comes to the scan. -/
theorem Documented.exists_plan (h : Documented readers fs args config package scan manifest) :
    ∃ plan, Command.plan readers fs args = .ok plan ∧ plan.config = config := by
  obtain ⟨root, hroot⟩ := exists_pathOr args.sourceRoot h.source_root
  obtain ⟨patterns, hpatterns⟩ := exists_itemsOr (defaultPatterns.map .text) h.patterns
  obtain ⟨exclude, hexclude⟩ := exists_itemsOr [] h.exclude
  have hoptions : ∃ options, Config.options config (package.find "version") = .ok options := by
    rw [Config.options, sectionOf_eq h.scan_section]
    simp only [ok_bind, hpatterns, hexclude]
    exact ⟨_, rfl⟩
  obtain ⟨options, hoptions⟩ := hoptions
  refine ⟨⟨config, package, overrideVersion args options, root⟩, ?_, rfl⟩
  rw [Command.plan, h.config_read, h.package_read]
  simp only [Except.mapError, ok_bind, Value.fields, hoptions, sectionOf_eq h.scan_section, hroot]

/-- With documented files the manifest has its path. -/
theorem Documented.exists_manifestPlan (h : Documented readers fs args config package scan manifest) :
    ∃ path gateways, manifestPlan args config = .ok (path, gateways) := by
  obtain ⟨path, hpath⟩ := exists_pathOr args.output h.output
  rw [manifestPlan, sectionOf_eq h.manifest_section]
  simp only [Except.mapError, ok_bind, hpath]
  exact ⟨path, _, rfl⟩

/-! ### After the scan -/

theorem splitCollisions_of_gateways {collisions : List Collision}
    (h : ∀ c ∈ collisions, c.kind = .paymentGateway) :
    splitCollisions collisions = (collisions, none) := by
  induction collisions with
  | nil => rfl
  | cons c rest ih =>
      obtain ⟨hc, hrest⟩ := List.forall_mem_cons.mp h
      rw [splitCollisions, hc]
      simp only [ih hrest]

theorem splitCollisions_of_widget {c : Collision} (h : c.kind = .widget) (rest : List Collision) :
    splitCollisions (c :: rest) = ([], some c) := by
  rw [splitCollisions, h]

section conclude

variable {plan : Plan} {log : List Event} {byFile : List (Path × FileItems)}

/-- The catalog has no widgets exactly when no file has one. -/
theorem isEmpty_widgets_iff :
    (catalogOf byFile).widgets.isEmpty = true ↔ ∀ file ∈ byFile, file.2.widget = none := by
  have haccounted := (Ledger.holds_ofItems .widget (widgetsIn byFile)).accounted
  rw [← widgetsIn_eq_nil_iff, List.isEmpty_iff]
  constructor
  · intro h
    have hkeys := haccounted.keys
    rw [show (Ledger.ofItems .widget (widgetsIn byFile)).items = [] from h] at hkeys
    rw [List.eq_nil_iff_forall_not_mem]
    intro found hfound
    have hmem := List.mem_eraseDups.mpr (List.mem_map_of_mem (f := (·.item.id)) hfound)
    rw [← hkeys] at hmem
    exact absurd hmem List.not_mem_nil
  · intro h
    show (Ledger.ofItems .widget (widgetsIn byFile)).items = []
    rw [h]
    rfl

/-- Without a widget a run ends with code `2`. -/
theorem conclude_of_no_widget (h : ∀ file ∈ byFile, file.2.widget = none) :
    conclude fs args plan (catalogOf byFile) log =
      ⟨["No widgets detected, aborting"], logLines args.verbose log, fs, .exit 2⟩ := by
  rw [conclude, if_pos (isEmpty_widgets_iff.mpr h)]

/-- With a repeated id a run tells of the first one and ends with code `3`. -/
theorem conclude_of_firstRepeat {id : Text} (h : FirstRepeat byFile id) :
    conclude fs args plan (catalogOf byFile) log =
      ⟨itemLines (catalogOf byFile), logLines args.verbose log ++
        [("Duplicate widget id " : Text) ++ id ++ ", each widget must have a unique id!"], fs,
        .exit 3⟩ := by
  obtain ⟨c, rest, hcollisions, hkind, rfl⟩ := exists_collisions_cons_of_firstRepeat h
  have hwidget : ¬ (catalogOf byFile).widgets.isEmpty = true := by
    obtain ⟨before, path, items, after, rfl, -, ⟨widget, hw, -⟩, -⟩ := h
    intro hempty
    have hnone := isEmpty_widgets_iff.mp hempty (path, items) (by simp)
    rw [Option.mem_def.mp hw] at hnone
    cases hnone
  have hsplit : splitCollisions (catalogOf byFile).collisions = ([], some c) := by
    rw [catalogOf, Catalog.listing, hcollisions, List.cons_append]
    exact splitCollisions_of_widget hkind _
  rw [conclude, if_neg hwidget, hsplit]
  simp

/-- With different ids a run goes on to save the manifest. -/
theorem conclude_of_nodup (h : (widgetIds byFile).Nodup)
    (hwidget : ∃ file ∈ byFile, file.2.widget ≠ none) :
    conclude fs args plan (catalogOf byFile) log =
      finish fs args plan (catalogOf byFile) (itemLines (catalogOf byFile))
        (logLines args.verbose (log ++ (catalogOf byFile).collisions.map gatewayWarning)) := by
  have hsome : ¬ (catalogOf byFile).widgets.isEmpty = true := by
    intro hempty
    obtain ⟨file, hfile, hne⟩ := hwidget
    exact hne (isEmpty_widgets_iff.mp hempty file hfile)
  have hnone := ((Ledger.holds_ofItems .widget (widgetsIn byFile)).accounted.none_iff).mpr h
  have hsplit : splitCollisions (catalogOf byFile).collisions =
      ((catalogOf byFile).collisions, none) := by
    apply splitCollisions_of_gateways
    rw [catalogOf, Catalog.listing, hnone, List.nil_append]
    exact kind_of_mem_collisions (Ledger.holds_ofItems .paymentGateway _).accounted
  rw [conclude, if_neg hsome, hsplit]

end conclude

/-- What is left to say of a run once its manifest has a path: saving decides. -/
theorem finish_eq {plan : Plan} {catalog : Catalog} {output errors : List Text} {path : Path}
    {gateways : Bool} (h : manifestPlan args plan.config = .ok (path, gateways)) :
    let saved := Manifest.save fs (Manifest.fieldsOf plan.package catalog gateways) path
    (finish fs args plan catalog output errors).files = saved.1 ∧
      (finish fs args plan catalog output errors).ending =
        match saved.2 with
        | .ok () => .exit 0
        | .error e => .failed (.save e) := by
  simp only [finish, h]
  cases Manifest.save fs (Manifest.fieldsOf plan.package catalog gateways) path with
  | mk after result =>
      cases result with
      | ok u => exact ⟨rfl, rfl⟩
      | error e => exact ⟨rfl, rfl⟩

/-! ### What an outcome tells -/

/-- What the outcome of a run tells of the items of the source files. -/
structure Judged (fs : FileSystem) (args : Arguments) (plan : Plan)
    (byFile : List (Path × FileItems)) (outcome : Outcome) : Prop where
  /-- These are the source files in order. -/
  files : sourcePaths fs plan.root plan.options.toSelection = .ok (byFile.map Prod.fst)
  /-- Code `2` tells that no file has a widget. -/
  none_iff : outcome.ending = .exit 2 ↔ ∀ file ∈ byFile, file.2.widget = none
  /-- Code `3` tells that two files have widgets with one id. -/
  shared_iff : outcome.ending = .exit 3 ↔ SharedId byFile
  /-- The id that is told then is the one of the first file that repeats an id. -/
  reported : outcome.ending = .exit 3 → ∃ id, FirstRepeat byFile id ∧ outcome.errors.getLast? =
    some (("Duplicate widget id " : Text) ++ id ++ ", each widget must have a unique id!")
  /-- Otherwise saving the manifest decides, whatever payment gateways there are. -/
  saved : (∃ file ∈ byFile, file.2.widget ≠ none) → ¬ SharedId byFile →
    ∃ path gateways, manifestPlan args plan.config = .ok (path, gateways) ∧
      let saved :=
        Manifest.save fs (Manifest.fieldsOf plan.package (catalogOf byFile) gateways) path
      outcome.files = saved.1 ∧
        outcome.ending = match saved.2 with
          | .ok () => .exit 0
          | .error e => .failed (.save e)

/-- What the outcome of a run tells of its scan. -/
structure Classified (readers : Readers) (fs : FileSystem) (args : Arguments) (plan : Plan)
    (outcome : Outcome) : Prop where
  /-- Code `1` tells that the scan failed. -/
  fault_iff : outcome.ending = .exit 1 ↔
    ∃ e, (Project.scan readers.parse fs plan.root plan.options).result = .error e
  /-- The other codes tell of the items. -/
  judged : ∀ byFile, itemsByFile readers.parse fs plan.root plan.options = .ok byFile →
    Judged fs args plan byFile outcome
  /-- A run that ends with code `1`, `2` or `3` leaves the files as they were. -/
  unchanged : ∀ code, code = 1 ∨ code = 2 ∨ code = 3 → outcome.ending = .exit code →
    outcome.files = fs

section judged

variable {plan : Plan} {byFile : List (Path × FileItems)} {outcome : Outcome} {path : Path}
  {gateways : Bool} {log : List Event}

theorem not_sharedId_of_no_widget (h : ∀ file ∈ byFile, file.2.widget = none) :
    ¬ SharedId byFile := by
  rintro ⟨file, hfile, -, -, -, widget, hw, -⟩
  rw [h file hfile] at hw
  cases hw

theorem Judged.of_no_widget
    (hfiles : sourcePaths fs plan.root plan.options.toSelection = .ok (byFile.map Prod.fst))
    (h : ∀ file ∈ byFile, file.2.widget = none) (hending : outcome.ending = .exit 2) :
    Judged fs args plan byFile outcome := by
  refine ⟨hfiles, ⟨fun _ => h, fun _ => hending⟩, ?_, ?_, ?_⟩
  · rw [hending]
    exact ⟨fun e => (by cases e), fun hs => absurd hs (not_sharedId_of_no_widget h)⟩
  · rw [hending]
    exact fun e => by cases e
  · rintro ⟨file, hfile, hne⟩ -
    exact absurd (h file hfile) hne

theorem Judged.of_sharedId
    (hfiles : sourcePaths fs plan.root plan.options.toSelection = .ok (byFile.map Prod.fst))
    (h : SharedId byFile) (hending : outcome.ending = .exit 3)
    (hreported : ∃ id, FirstRepeat byFile id ∧ outcome.errors.getLast? =
      some (("Duplicate widget id " : Text) ++ id ++ ", each widget must have a unique id!")) :
    Judged fs args plan byFile outcome := by
  refine ⟨hfiles, ?_, ⟨fun _ => h, fun _ => hending⟩, fun _ => hreported, ?_⟩
  · rw [hending]
    exact ⟨fun e => (by cases e), fun hnone => absurd h (not_sharedId_of_no_widget hnone)⟩
  · exact fun _ hno => absurd h hno

theorem Judged.of_saved
    (hfiles : sourcePaths fs plan.root plan.options.toSelection = .ok (byFile.map Prod.fst))
    (hwidget : ∃ file ∈ byFile, file.2.widget ≠ none) (hno : ¬ SharedId byFile)
    (hmanifest : manifestPlan args plan.config = .ok (path, gateways))
    {saved : FileSystem × Except Manifest.SaveError Unit}
    (hsaved : Manifest.save fs (Manifest.fieldsOf plan.package (catalogOf byFile) gateways) path =
      saved)
    (hafter : outcome.files = saved.1)
    (hending : outcome.ending = match saved.2 with
      | .ok () => .exit 0
      | .error e => .failed (.save e)) : Judged fs args plan byFile outcome := by
  have hcode : ∀ code, code ≠ 0 → outcome.ending ≠ .exit code := by
    intro code hne
    rw [hending]
    cases saved.2 with
    | ok u => exact fun e => hne (Ending.exit.inj e).symm
    | error e => exact fun e => by cases e
  refine ⟨hfiles, ?_, ?_, ?_, ?_⟩
  · obtain ⟨file, hfile, hne⟩ := hwidget
    exact ⟨fun e => absurd e (hcode 2 (by decide)), fun hnone => absurd (hnone file hfile) hne⟩
  · exact ⟨fun e => absurd e (hcode 3 (by decide)), fun hs => absurd hs hno⟩
  · exact fun e => absurd e (hcode 3 (by decide))
  · intro _ _
    refine ⟨path, gateways, hmanifest, ?_⟩
    rw [hsaved]
    exact ⟨hafter, hending⟩

/-- The items of the source files decide how a run goes on after the scan. -/
theorem judged_conclude (hitems : itemsByFile readers.parse fs plan.root plan.options = .ok byFile)
    (hmanifest : manifestPlan args plan.config = .ok (path, gateways)) :
    Judged fs args plan byFile (conclude fs args plan (catalogOf byFile) log) := by
  have hfiles := sourcePaths_of_itemsByFile hitems
  have hshared : SharedId byFile ↔ ¬ (widgetIds byFile).Nodup :=
    sharedId_iff (nodup_of_sourcePaths hfiles)
  by_cases hnone : ∀ file ∈ byFile, file.2.widget = none
  · exact .of_no_widget hfiles hnone (by rw [conclude_of_no_widget hnone])
  · have hwidget : ∃ file ∈ byFile, file.2.widget ≠ none := by
      push Not at hnone
      exact hnone
    by_cases hnodup : (widgetIds byFile).Nodup
    · obtain ⟨hafter, hending⟩ := finish_eq hmanifest
      rw [conclude_of_nodup hnodup hwidget]
      exact .of_saved hfiles hwidget (fun hs => hshared.mp hs hnodup) hmanifest rfl hafter hending
    · obtain ⟨id, hrepeat⟩ := exists_firstRepeat hnodup
      rw [conclude_of_firstRepeat hrepeat]
      exact .of_sharedId hfiles (hshared.mpr hnodup) rfl
        ⟨id, hrepeat, List.getLast?_concat⟩

end judged

/-! ### Codes and files -/

/-- Saving the manifest ends a run with code `0` or none. -/
theorem code_of_ending_finish {plan : Plan} {catalog : Catalog} {output errors : List Text}
    {code : Nat} (h : (finish fs args plan catalog output errors).ending = .exit code) :
    code = 0 := by
  unfold finish at h
  split at h
  · cases h
  · split at h
    · cases h
    · exact (Ending.exit.inj h).symm

/-- After the scan a run ends with code `2` or `3` and its files as they were, or it goes on to save
the manifest. -/
theorem conclude_cases (fs : FileSystem) (args : Arguments) (plan : Plan) (catalog : Catalog)
    (log : List Event) :
    (∃ output errors code, (code = 2 ∨ code = 3) ∧
      conclude fs args plan catalog log = ⟨output, errors, fs, .exit code⟩) ∨
    ∃ output errors,
      conclude fs args plan catalog log = finish fs args plan catalog output errors := by
  unfold conclude
  split
  · exact .inl ⟨_, _, 2, .inl rfl, rfl⟩
  · cases splitCollisions catalog.collisions with
    | mk before duplicate =>
        cases duplicate with
        | some c => exact .inl ⟨_, _, 3, .inr rfl, rfl⟩
        | none => exact .inr ⟨_, _, rfl⟩

theorem code_of_ending_conclude {plan : Plan} {catalog : Catalog} {log : List Event} {code : Nat}
    (h : (conclude fs args plan catalog log).ending = .exit code) :
    code = 0 ∨ (code = 2 ∨ code = 3) ∧ (conclude fs args plan catalog log).files = fs := by
  obtain ⟨output, errors, c, hc, he⟩ | ⟨output, errors, he⟩ :=
    conclude_cases fs args plan catalog log
  · rw [he] at h ⊢
    obtain rfl : c = code := Ending.exit.inj h
    exact .inr ⟨hc, rfl⟩
  · rw [he] at h
    exact .inl (code_of_ending_finish h)

/-! ### Whole runs -/

theorem run_of_parse {argv : List Text} (h : parse argv = .ok args) :
    run readers fs argv = runWith readers fs args := by
  rw [run, h]

theorem runWith_of_catalog {plan : Plan} {catalog : Catalog}
    (hplan : Command.plan readers fs args = .ok plan)
    (h : (Project.scan readers.parse fs plan.root plan.options).result = .ok catalog) :
    runWith readers fs args =
      conclude fs args plan catalog (Project.scan readers.parse fs plan.root plan.options).log := by
  simp only [runWith, hplan, h]

theorem runWith_of_fault {plan : Plan} {fault : Item.SourceError}
    (hplan : Command.plan readers fs args = .ok plan)
    (h : (Project.scan readers.parse fs plan.root plan.options).result = .error (.source (.declaration fault))) :
    (runWith readers fs args).ending = .exit 1 ∧ (runWith readers fs args).files = fs := by
  simp only [runWith, hplan, h, and_self]

/-- **The exit code classifies what was found.** -/
theorem exit_code_classifies (readers : Readers) {argv : List Text} (hargs : parse argv = .ok args)
    (hdocumented : Documented readers fs args config package scan manifest)
    (hfaults : ∀ plan, Command.plan readers fs args = .ok plan →
      ∀ e, (Project.scan readers.parse fs plan.root plan.options).result = .error e →
        ∃ fault, e = .source (.declaration fault)) :
    ∃ plan, Command.plan readers fs args = .ok plan ∧ Classified readers fs args plan (run readers fs argv) := by
  obtain ⟨plan, hplan, rfl⟩ := hdocumented.exists_plan
  obtain ⟨path, gateways, hmanifest⟩ := hdocumented.exists_manifestPlan
  refine ⟨plan, hplan, ?_⟩
  have hscan := scan_result readers.parse fs plan.root plan.options
  rw [run_of_parse hargs]
  cases hitems : itemsByFile readers.parse fs plan.root plan.options with
  | error e =>
      rw [hitems] at hscan
      obtain ⟨fault, rfl⟩ := hfaults plan hplan e hscan
      obtain ⟨hending, hfiles⟩ := runWith_of_fault hplan hscan
      refine ⟨⟨fun _ => ⟨_, hscan⟩, fun _ => hending⟩, ?_, fun _ _ _ => hfiles⟩
      intro byFile h
      rw [hitems] at h
      cases h
  | ok byFile =>
      rw [hitems] at hscan
      rw [runWith_of_catalog hplan hscan]
      refine ⟨⟨?_, ?_⟩, ?_, ?_⟩
      · intro h
        obtain h | ⟨h, -⟩ := code_of_ending_conclude h
        · omega
        · omega
      · rintro ⟨e, he⟩
        rw [hscan] at he
        cases he
      · intro other h
        rw [hitems] at h
        cases h
        exact judged_conclude hitems hmanifest
      · intro code hcode h
        obtain rfl | ⟨-, hfiles⟩ := code_of_ending_conclude h
        · omega
        · exact hfiles

/-- Two files beside the working directory that declare the same widget. -/
def sameCard : FileSystem :=
  (FileSystem.ofEntries
    [("/work/lib/b.ts", .file (TypeScript.bytesOf "/** @widget */ function Card() {}")),
      ("/work/lib/a.ts", .file (TypeScript.bytesOf "/** @widget */ function Card() {}")),
      ("/work/app", .directory)]).enter (Path.ofText "/work/app")

theorem exit_code_classifies_sameCard :
    let args : Arguments := { sourceRoot := some "../lib", output := some "/work/manifest.json" }
    let argv : List Text := ["--source-root", "../lib", "--output=/work/manifest.json"]
    parse argv = .ok args ∧ (run .standard sameCard argv).ending = .exit 3 ∧
      ∃ plan, Command.plan .standard sameCard args = .ok plan ∧
        Classified .standard sameCard args plan (run .standard sameCard argv) := by
  intro args argv
  have hargs : parse argv = .ok args := by decide +kernel
  have hrun : (runWith .standard sameCard args).ending = .exit 3 := by decide +kernel
  have hpackage : ¬ sameCard.present (Path.ofText "package.json") = true := by decide +kernel
  have hread : Manifest.readPackage sameCard (Path.ofText "package.json") = .ok (.map []) := by
    rw [Manifest.readPackage, readDocument, if_neg hpackage]
  have hdocumented : Documented .standard sameCard args Config.defaults [] _ _ :=
    ⟨rfl, hread, rfl, ⟨_, rfl⟩, ⟨defaultPatterns, rfl⟩, ⟨[], rfl⟩, rfl, ⟨_, rfl⟩⟩
  refine ⟨hargs, (congrArg Outcome.ending (run_of_parse hargs)).trans hrun,
    exit_code_classifies .standard hargs hdocumented ?_⟩
  intro plan hplan e he
  simp only [runWith, hplan, he] at hrun
  cases e with
  | discovery error => cases hrun
  | unreadable error => cases hrun
  | source error =>
      cases error with
      | declaration fault => exact ⟨fault, rfl⟩
      | literal error => cases hrun

end PluginManifest.Command
