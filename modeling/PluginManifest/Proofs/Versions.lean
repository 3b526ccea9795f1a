import PluginManifest.Proofs.CatalogFacts
import PluginManifest.Proofs.DeclarationOrder
import PluginManifest.Proofs.ExitCode
import PluginManifest.Proofs.ManifestReading
import PluginManifest.Proofs.Merging

/-! # The versions in a manifest

An item's own comment gives its version, else the command line does, else the configuration, else
the description of the package (`chosenVersion`).  On the way from the comment to the manifest a version
is missing in different ways: a tag or an argument that is empty, a value that is not set, a field
that is not there.  `exists_of_plan` says what a run takes for items that give no version,
`version_of_itemOf` what becomes of it in an item, and `exists_of_exit_zero` that the items are
written as they were scanned. -/

namespace PluginManifest

open Item Source Project

/-! ### One item -/

/-- The version of an item, from the value of the version tag in its comment, the argument of the
command line, the configured version and the version of the package. -/
def chosenVersion (tag argument : Text) (configured package : Value) : Value :=
  if tag ≠ [] then .text tag
  else if argument ≠ [] then .text argument
  else if configured.isSet then configured
  else package

theorem Value.present?_eq_none_iff {v : Value} : v.present? = none ↔ v = .null := by
  cases v with
  | null => simp [Value.present?]
  | _ => simp [Value.present?]

/-- The value of the first version tag of a comment; an item without the tag gives no value. -/
def versionTagValue (kind : Item.Kind) (comment : Doc.Comment) : Text :=
  ((comment.tags.find? (·.name = kind.versionTag)).map Doc.Tag.value).getD []

theorem itemVersion_eq {kind : Item.Kind} {comment : Doc.Comment} (argument : Text)
    (configured package : Value) :
    itemVersion kind comment.tags (chosenVersion [] argument configured package).present? =
      (chosenVersion (versionTagValue kind comment) argument configured package).present? := by
  have htag : Doc.Tag.valueOf? comment.tags kind.versionTag =
      (comment.tags.find? (·.name = kind.versionTag)).map Doc.Tag.value := rfl
  unfold itemVersion versionTagValue
  rw [htag]
  -- A tag that is not there and one without a value both leave the version to the default.
  cases (comment.tags.find? (·.name = kind.versionTag)).map Doc.Tag.value with
  | none => rfl
  | some t =>
      cases t with
      | nil => rfl
      | cons c t => rfl

theorem version_of_itemOf {kind : Item.Kind} {path : Text} {default : DefaultVersion}
    {outline : Outline} {d : Documented} {item : Descriptor}
    (h : (itemOf kind path default outline d).result = .ok item) :
    item.version = itemVersion kind d.comment.tags default := by
  unfold itemOf at h
  by_cases hkind : d.kind ≠ kind.declarationKind
  · rw [if_pos hkind] at h
    cases h
  · rw [if_neg hkind] at h
    split at h
    · cases h
    · rw [Report.result_bind] at h
      obtain ⟨properties, -, h⟩ := bind_eq_ok_iff.mp h
      cases h
      rfl

theorem get?_version_fields (d : Descriptor) : Keyed.get? d.fields "version" = d.version := by
  obtain ⟨id, name, description, version, location, properties⟩ := d
  cases version with
  | some v => rfl
  | none =>
      cases location with
      | some path => rfl
      | none => rfl

/-! ### The items of a file -/

/-- What a source file declares, read by itself. -/
def outlineAt (parse : Parser) (fs : FileSystem) (p : Path) : Outline :=
  .ofFile (Index.read parse p.toText (fs.contentAt p))

/-- An item is what a declaration of a source file gives that is marked as an item of its kind. -/
def DeclaredBy (parse : Parser) (fs : FileSystem) (kind : Item.Kind) (default : DefaultVersion)
    (p : Path) (d : Documented) (item : Descriptor) : Prop :=
  d ∈ marked kind (outlineAt parse fs p) ∧
    (itemOf kind p.toText default (outlineAt parse fs p) d).result = .ok item

section files

variable {parse : Parser} {fs : FileSystem} {default : DefaultVersion} {p : Path}
  {items : FileItems}

/-- The items of a file are those of its outline. -/
theorem of_itemsAlone (h : itemsAlone parse default p.toText (fs.contentAt p) = .ok items) :
    (widgetOf p.toText default (outlineAt parse fs p)).result = .ok items.widget ∧
      (gatewaysOf p.toText default (outlineAt parse fs p)).result = .ok items.paymentGateways := by
  simp only [itemsAlone, FileScanner.items, FileScanner.look_look] at h
  obtain ⟨widget, hwidget, h⟩ := bind_eq_ok_iff.mp h
  obtain ⟨gateways, hgateways, h⟩ := bind_eq_ok_iff.mp h
  cases h
  exact ⟨(widget_look_insert _ _ _ _ _).symm.trans hwidget,
    (paymentGateways_look_insert _ _ _ _ _).symm.trans hgateways⟩

theorem exists_declaredBy_of_widget
    (h : itemsAlone parse default p.toText (fs.contentAt p) = .ok items) {item : Descriptor}
    (hitem : items.widget = some item) : ∃ d, DeclaredBy parse fs .widget default p d item := by
  obtain ⟨hwidget, -⟩ := of_itemsAlone h
  rw [hitem, result_widgetOf] at hwidget
  split at hwidget
  · cases hwidget
  · rename_i d hmarked
    obtain ⟨found, hfound, heq⟩ := map_eq_ok_iff.mp hwidget
    cases heq
    exact ⟨d, by rw [hmarked]; exact List.mem_singleton_self d, hfound⟩
  · cases hwidget

theorem exists_declaredBy_of_gateway
    (h : itemsAlone parse default p.toText (fs.contentAt p) = .ok items) {item : Descriptor}
    (hitem : item ∈ items.paymentGateways) :
    ∃ d, DeclaredBy parse fs .paymentGateway default p d item := by
  obtain ⟨-, hgateways⟩ := of_itemsAlone h
  rw [result_gatewaysOf] at hgateways
  obtain ⟨d, hd, hfound⟩ := exists_of_mem_mapM hgateways hitem
  exact ⟨d, hd, hfound⟩

end files

/-! ### What a run works with -/

namespace Command

variable {readers : Readers} {fs : FileSystem} {args : Arguments} {argv : List Text}

/-- What a configuration holds for items that give no version. -/
def configuredVersion (config : Fields) : Value :=
  ((Value.map config).at? ["scan", "default_version"]).getD .null

theorem configuredVersion_eq {config scan : Fields}
    (hconfig : ∀ f ∈ config, ∀ rows, f.2 ≠ .table rows)
    (h : Config.sectionOf config "scan" = .ok scan) :
    configuredVersion config = scan.find "default_version" := by
  unfold configuredVersion Fields.find
  rw [Value.at?_cons]
  unfold Config.sectionOf at h
  cases hsection : Keyed.get? config "scan" with
  | none =>
      rw [hsection] at h
      cases h
      rfl
  | some v =>
      rw [hsection] at h
      cases v with
      | map fields =>
          cases h
          rw [Option.bind_some, Value.at?_cons]
          simp
      | table rows => exact absurd rfl (hconfig _ (Keyed.mem_of_get? hsection) rows)
      | _ => cases h

/-- The description of a package is a map if it has fields. -/
theorem eq_map_of_readPackage {path : Path} {description : Value} {package : Fields}
    (h : Manifest.readPackage fs path = .ok description) (hfields : description.fields = .ok package) :
    description = .map package := by
  unfold Manifest.readPackage readDocument at h
  split_ifs at h
  · obtain ⟨text, -, h⟩ := bind_eq_ok_iff.mp h
    obtain ⟨v, hv, h⟩ := bind_eq_ok_iff.mp h
    cases h
    unfold Value.orElse at hfields ⊢
    split_ifs at hfields ⊢
    · exact Json.eq_map_of_read (mapError_eq_ok_iff.mp hv) hfields
    · cases hfields
      rfl
  · cases h
    cases hfields
    rfl

/-- What a run takes for items that give no version. -/
theorem exists_of_plan {plan : Plan} (h : Command.plan readers fs args = .ok plan) :
    Config.load readers.config fs (args.config.getD []) = .ok plan.config ∧
      Manifest.readPackage fs (Path.ofText args.packageJson) = .ok (.map plan.package) ∧
      (∃ source, plan.root = Path.ofText source) ∧
      plan.options.defaultVersion = (chosenVersion [] (args.defaultVersion.getD [])
        (configuredVersion plan.config) (plan.package.find "version")).present? := by
  obtain ⟨config, hconfig, h⟩ := bind_eq_ok_iff.mp h
  obtain ⟨description, hdescription, h⟩ := bind_eq_ok_iff.mp h
  obtain ⟨package, hpackage, h⟩ := bind_eq_ok_iff.mp h
  obtain ⟨options, hoptions, h⟩ := bind_eq_ok_iff.mp h
  obtain ⟨scan, hscan, h⟩ := bind_eq_ok_iff.mp h
  obtain ⟨root, hroot, h⟩ := bind_eq_ok_iff.mp h
  cases h
  rw [mapError_eq_ok_iff] at hconfig hdescription hpackage hoptions hscan
  refine ⟨hconfig, ?_, ?_, ?_⟩
  · rw [hdescription, eq_map_of_readPackage hdescription hpackage]
  · unfold pathOr at hroot
    split at hroot
    · cases hroot
      exact ⟨_, rfl⟩
    · obtain ⟨t, -, rfl⟩ := map_eq_ok_iff.mp hroot
      exact ⟨t, rfl⟩
  · obtain ⟨scan', hscan', hoptions⟩ := bind_eq_ok_iff.mp hoptions
    obtain ⟨patterns, -, hoptions⟩ := bind_eq_ok_iff.mp hoptions
    obtain ⟨exclude, -, hoptions⟩ := bind_eq_ok_iff.mp hoptions
    cases hoptions
    rw [configuredVersion_eq (Config.ne_table_of_load hconfig) hscan']
    -- The argument replaces the default version unless it is missing or empty.
    unfold overrideVersion
    cases args.defaultVersion with
    | none => rfl
    | some t =>
        cases t with
        | nil => rfl
        | cons c t => rfl

/-- After the scan a run ends with code `0` when there are widgets and the manifest is saved. -/
theorem exists_of_conclude {plan : Plan} {catalog : Catalog} {log : List Event}
    (h : (conclude fs args plan catalog log).ending = .exit 0) : catalog.widgets ≠ [] ∧
      ∃ path gateways, manifestPlan args plan.config = .ok (path, gateways) ∧
        let saved := Manifest.save fs (Manifest.fieldsOf plan.package catalog gateways) path
        saved.2 = .ok () ∧ (conclude fs args plan catalog log).files = saved.1 := by
  have hne : catalog.widgets ≠ [] := by
    intro hempty
    rw [conclude, hempty] at h
    cases h
  refine ⟨hne, ?_⟩
  obtain ⟨output, errors, code, hcode, he⟩ | ⟨output, errors, he⟩ :=
    conclude_cases fs args plan catalog log
  · rw [he] at h
    have hzero : code = 0 := Ending.exit.inj h
    omega
  · rw [he] at h ⊢
    cases hmanifest : manifestPlan args plan.config with
    | error e =>
        rw [finish, hmanifest] at h
        cases h
    | ok target =>
        obtain ⟨path, gateways⟩ := target
        obtain ⟨hfiles, hending⟩ := finish_eq hmanifest
        refine ⟨path, gateways, rfl, ?_, hfiles⟩
        rw [hending] at h
        split at h
        · assumption
        · cases h

/-- A run that ends with code `0` has scanned items, some of them widgets, and saved a manifest of
them. -/
theorem exists_of_exit_zero (h : (run readers fs argv).ending = .exit 0) :
    ∃ args plan byFile path gateways, parse argv = .ok args ∧ Command.plan readers fs args = .ok plan ∧
      itemsByFile readers.parse fs plan.root plan.options = .ok byFile ∧ (catalogOf byFile).widgets ≠ [] ∧
      manifestPlan args plan.config = .ok (path, gateways) ∧
      let saved :=
        Manifest.save fs (Manifest.fieldsOf plan.package (catalogOf byFile) gateways) path
      saved.2 = .ok () ∧ (run readers fs argv).files = saved.1 := by
  cases hargs : parse argv with
  | error e =>
      rw [run, hargs] at h
      cases e with
      | help => cases h
      | usage => cases h
  | ok args =>
      rw [run_of_parse hargs] at h ⊢
      cases hplan : Command.plan readers fs args with
      | error e =>
          rw [runWith, hplan] at h
          cases h
      | ok plan =>
          have hscan := scan_result readers.parse fs plan.root plan.options
          cases hitems : itemsByFile readers.parse fs plan.root plan.options with
          | error e =>
              have hfailed : (Project.scan readers.parse fs plan.root plan.options).result = .error e := by
                rw [hscan, hitems]
                rfl
              simp only [runWith, hplan, hfailed] at h
              split at h
              · rename_i hcatalog
                cases hcatalog
              · cases h
              · cases h
          | ok byFile =>
              have hcatalog : (Project.scan readers.parse fs plan.root plan.options).result =
                  .ok (catalogOf byFile) := by
                rw [hscan, hitems]
                rfl
              rw [runWith_of_catalog hplan hcatalog] at h ⊢
              obtain ⟨hne, path, gateways, hmanifest, hsaved, hfiles⟩ := exists_of_conclude h
              exact ⟨args, plan, byFile, path, gateways, rfl, hplan, hitems, hne, hmanifest, hsaved,
                hfiles⟩

/-! ### The items of a manifest -/

/-- The key under which a manifest lists the items of a kind. -/
def listKey : Item.Kind → Text
  | .widget => "widgets"
  | .paymentGateway => "paymentGateways"

/-- An item of a manifest comes from a declaration of a source file.  Its version is the one that is
chosen for the comment of this declaration, and it has no version if there is none to choose. -/
def Versioned (readers : Readers) (fs : FileSystem) (args : Arguments) (plan : Plan)
    (paths : List Path) (kind : Item.Kind) (item : Value) : Prop :=
  ∃ p ∈ paths, ∃ d descriptor,
    DeclaredBy readers.parse fs kind plan.options.defaultVersion p d descriptor ∧
    item = .map descriptor.fields ∧
    let version := chosenVersion (versionTagValue kind d.comment) (args.defaultVersion.getD [])
      (configuredVersion plan.config) (plan.package.find "version")
    Keyed.get? descriptor.fields "version" = version.present? ∧
      (Text.ofString "version" ∉ Keyed.keys descriptor.fields ↔ version = .null)

theorem versioned_of_declaredBy {plan : Plan} {paths : List Path} {kind : Item.Kind} {p : Path}
    {d : Source.Documented} {descriptor : Descriptor} (hplan : Command.plan readers fs args = .ok plan)
    (hp : p ∈ paths)
    (h : DeclaredBy readers.parse fs kind plan.options.defaultVersion p d descriptor) :
    Versioned readers fs args plan paths kind descriptor.toValue := by
  obtain ⟨-, -, -, hdefault⟩ := exists_of_plan hplan
  have hversion : Keyed.get? descriptor.fields "version" =
      (chosenVersion (versionTagValue kind d.comment) (args.defaultVersion.getD [])
        (configuredVersion plan.config) (plan.package.find "version")).present? := by
    rw [get?_version_fields, version_of_itemOf h.2, hdefault, itemVersion_eq]
  refine ⟨p, hp, d, descriptor, h, rfl, hversion, ?_⟩
  rw [← Keyed.get?_eq_none_iff, hversion]
  exact Value.present?_eq_none_iff

/-- A run has saved a manifest that lists widgets, and every item that it lists has the version that
is chosen for it. -/
structure SavedVersions (readers : Readers) (fs : FileSystem) (args : Arguments) (plan : Plan)
    (outcome : Outcome) : Prop where
  config_read : Config.load readers.config fs (args.config.getD []) = .ok plan.config
  package_read : Manifest.readPackage fs (Path.ofText args.packageJson) = .ok (.map plan.package)
  saved : ∃ paths path gateways manifest bytes,
    sourcePaths fs plan.root plan.options.toSelection = .ok paths ∧
    manifestPlan args plan.config = .ok (path, gateways) ∧
    Utf8.encode? (Json.write (.map manifest)) = some bytes ∧ outcome.files.read path = .ok bytes ∧
    (∃ widgets, Keyed.get? manifest "widgets" = some (.list widgets) ∧ widgets ≠ []) ∧
    ∀ kind items, Keyed.get? manifest (listKey kind) = some (.list items) →
      ∀ item ∈ items, Versioned readers fs args plan paths kind item

/-- **Versions follow the order of precedence, from the tag to the manifest.**  Of every run that
succeeds the saved manifest gives each item the version of its own comment, else that of the command
line, else the configured one, else that of the package. -/
theorem versions_by_precedence (readers : Readers) {fs : FileSystem} {argv : List Text}
    (h : (run readers fs argv).ending = .exit 0) :
    ∃ args plan, parse argv = .ok args ∧ Command.plan readers fs args = .ok plan ∧
      SavedVersions readers fs args plan (run readers fs argv) := by
  obtain ⟨args, plan, byFile, path, gateways, hargs, hplan, hitems, hne, hmanifest, hsaved,
    hfiles⟩ := exists_of_exit_zero h
  obtain ⟨hconfig, hpackage, ⟨source, hroot⟩, -⟩ := exists_of_plan hplan
  obtain ⟨dirs, opened, loc, bytes, -, hopened, hbytes, hafter⟩ :=
    Manifest.exists_of_save_eq_ok hsaved
  have hpaths := sourcePaths_of_itemsByFile hitems
  have hnormal : ∀ p ∈ byFile.map Prod.fst, p.Normal :=
    normal_of_sourcePaths (hroot ▸ Path.normal_ofText source) hpaths
  have halone := itemsAlone_of_mem hitems hnormal
  have hwidgets :
      Keyed.get? (Manifest.fieldsOf plan.package (catalogOf byFile) gateways) "widgets" =
        some (.list ((Keyed.values (catalogOf byFile).widgets).map Descriptor.toValue)) := rfl
  have hread : (run readers fs argv).files.read path = .ok bytes := by
    rw [hfiles, hafter]
    exact FileSystem.read_put_of_opened hopened bytes
  refine ⟨args, plan, hargs, hplan, hconfig, hpackage, byFile.map Prod.fst, path, gateways, _,
    bytes, hpaths, hmanifest, hbytes, hread, ⟨_, hwidgets, by simpa [Keyed.values] using hne⟩, ?_⟩
  intro kind items hlisted item hitem
  cases kind with
  | widget =>
      cases hwidgets.symm.trans hlisted
      obtain ⟨descriptor, hdescriptor, rfl⟩ := List.mem_map.mp hitem
      obtain ⟨entry, hentry, rfl⟩ := List.mem_map.mp hdescriptor
      obtain ⟨-, file, hfile, hwidget⟩ := of_mem_widgets hentry
      obtain ⟨d, hd⟩ := exists_declaredBy_of_widget (halone file hfile) hwidget
      exact versioned_of_declaredBy hplan (List.mem_map_of_mem hfile) hd
  | paymentGateway =>
      cases gateways with
      | false => cases hlisted
      | true =>
          cases hlisted
          obtain ⟨descriptor, hdescriptor, rfl⟩ := List.mem_map.mp hitem
          obtain ⟨entry, hentry, rfl⟩ := List.mem_map.mp hdescriptor
          obtain ⟨-, file, hfile, hgateway⟩ := of_mem_paymentGateways hentry
          obtain ⟨d, hd⟩ := exists_declaredBy_of_gateway (halone file hfile) hgateway
          exact versioned_of_declaredBy hplan (List.mem_map_of_mem hfile) hd

/-- A widget that gives its version, and a payment gateway whose version is given and empty.  The
configured version is empty as well, and the one of the package is no text. -/
def emptyVersions : FileSystem :=
  (FileSystem.ofEntries
    [("/work/src/a.ts", .file (TypeScript.bytesOf
        "/** @widget\n * @widgetVersion 2.0 */ function A() \x7b\x7d")),
      ("/work/src/b.ts", .file (TypeScript.bytesOf
        "/** @paymentGateway\n * @paymentGatewayVersion \"\" */ class B \x7b\x7d")),
      ("/etc/project.yml", .file (TypeScript.bytesOf
        "scan:\n  source_root: /work/src\n  default_version: ''\n")),
      ("/work/app/package.json", .file (TypeScript.bytesOf "\x7b\"version\": 0\x7d"))]).enter
    (Path.ofText "/work/app")

theorem versions_by_precedence_emptyVersions :
    let argv : List Text :=
      ["--config", "/etc/project.yml", "--default-version=", "--output", "../dist/manifest.json"]
    (run .standard emptyVersions argv).ending = .exit 0 ∧
      ∃ args plan, parse argv = .ok args ∧ Command.plan .standard emptyVersions args = .ok plan ∧
        SavedVersions .standard emptyVersions args plan (run .standard emptyVersions argv) := by
  intro argv
  have hrun : (run .standard emptyVersions argv).ending = .exit 0 := by decide +kernel
  exact ⟨hrun, versions_by_precedence .standard hrun⟩

/-- The same project with a date as the configured version. -/
def datedVersion : FileSystem :=
  emptyVersions.add "/etc/project.yml" (.file (TypeScript.bytesOf
    "scan:\n  source_root: /work/src\n  default_version: 2024-01-01\n"))

/-- A date is no version that can be saved. -/
example : (run .standard datedVersion ["--config", "/etc/project.yml"]).ending =
    .failed (.save (.text .noForm)) := by
  decide +kernel

end Command

end PluginManifest
