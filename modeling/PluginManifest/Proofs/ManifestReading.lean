import PluginManifest.Proofs.JsonReading
import PluginManifest.Proofs.Saving
import PluginManifest.Proofs.Utf8Encoding

/-! # Saved manifests are read back

A manifest of texts is a plain value (`plain_fieldsOf`), so its document is read back; the bytes that
are saved decode to the document, and no line end of it changes on the way (`readPackage_save`).  The
items are told by their values (`Descriptor.ofValue?_toValue`), so they can be read off the document:
`saved_reads_back` joins the two. -/

namespace PluginManifest

/-! ### Texts that can be encoded -/

namespace Value

/-- No text of the value holds a surrogate. -/
def Encodable (v : Value) : Prop := ∀ t ∈ v.texts, t.NoSurrogate

instance (v : Value) : Decidable v.Encodable := inferInstanceAs (Decidable (∀ t ∈ v.texts, _))

theorem mem_itemTexts {items : List Value} {t : Text} :
    t ∈ itemTexts items ↔ ∃ v ∈ items, t ∈ v.texts := by
  induction items with
  | nil => simp [itemTexts]
  | cons v vs ih => simp [itemTexts, ih]

theorem mem_fieldTexts {fields : List (Text × Value)} {t : Text} :
    t ∈ fieldTexts fields ↔ ∃ f ∈ fields, t = f.1 ∨ t ∈ f.2.texts := by
  induction fields with
  | nil => simp [fieldTexts]
  | cons f fields ih =>
      obtain ⟨key, v⟩ := f
      simp [fieldTexts, ih, or_assoc]

@[simp] theorem encodable_null : Encodable .null := by simp [Encodable, texts]

@[simp] theorem encodable_bool (b : Bool) : Encodable (.bool b) := by simp [Encodable, texts]

@[simp] theorem encodable_text {t : Text} : Encodable (.text t) ↔ t.NoSurrogate := by
  simp [Encodable, texts]

@[simp] theorem encodable_list {items : List Value} :
    Encodable (.list items) ↔ ∀ v ∈ items, v.Encodable := by
  simp only [Encodable, texts, mem_itemTexts]
  exact ⟨fun h v hv t ht => h t ⟨v, hv, ht⟩, fun h t ⟨v, hv, ht⟩ => h v hv t ht⟩

@[simp] theorem encodable_map {fields : List (Text × Value)} :
    Encodable (.map fields) ↔ ∀ f ∈ fields, f.1.NoSurrogate ∧ f.2.Encodable := by
  simp only [Encodable, texts, mem_fieldTexts]
  constructor
  · exact fun h f hf => ⟨h _ ⟨f, hf, .inl rfl⟩, fun t ht => h t ⟨f, hf, .inr ht⟩⟩
  · rintro h t ⟨f, hf, rfl | ht⟩
    · exact (h f hf).1
    · exact (h f hf).2 t ht

/-- The value is a text, or there is none. -/
def IsTextOrAbsent (v : Value) : Prop := v = .null ∨ ∃ t, v = .text t

theorem IsTextOrAbsent.plain_orElse {v : Value} (h : v.IsTextOrAbsent) :
    (v.orElse (.text [])).Plain := by
  rcases h with rfl | ⟨t, rfl⟩
  · exact .text []
  · unfold orElse
    split_ifs
    · exact .text t
    · exact .text []

theorem IsTextOrAbsent.encodable_orElse {v : Value} (h : v.IsTextOrAbsent) :
    (v.orElse (.text [])).Encodable ↔ v.Encodable := by
  rcases h with rfl | ⟨t, rfl⟩
  · simp [orElse, isSet]
  · cases t with
    | nil => simp [orElse, isSet]
    | cons c t => simp [orElse, isSet]

end Value

/-! ### Items and their values -/

namespace Item

/-- The items of a list, read one by one. -/
def listed? {α : Type} (read : Value → Option α) : Value → Option (List α)
  | .list items => items.mapM read
  | _ => none

theorem listed?_map {α : Type} {read : Value → Option α} {write : α → Value} {items : List α}
    (h : ∀ x ∈ items, read (write x) = some x) :
    listed? read (.list (items.map write)) = some items := by
  rw [listed?, mapM_map_eq_some h, List.map_id']

/-- The truth value that a value is. -/
def flag? : Value → Option Bool
  | .bool b => some b
  | _ => none

namespace Property

/-- The strings of a property. -/
def strings (p : Property) : List Text := [p.name, p.displayName, p.type]

/-- The property that a value tells of. -/
def ofValue? (v : Value) : Option Property := do
  let fields ← v.map?
  let name ← (fields.find "name").text?
  let displayName ← (fields.find "displayName").text?
  let type ← (fields.find "type").text?
  let optional ← flag? (fields.find "optional")
  some ⟨name, displayName, type, optional⟩

theorem ofValue?_toValue (p : Property) : ofValue? p.toValue = some p := rfl

theorem plain_toValue (p : Property) : p.toValue.Plain := by
  refine .map ?_ ?_
  · have hkeys : Keyed.keys ([("name", .text p.name), ("displayName", .text p.displayName),
        ("type", .text p.type), ("optional", .bool p.optional)] : Fields) =
        ["name", "displayName", "type", "optional"] := rfl
    rw [hkeys]
    decide
  · simp only [List.forall_mem_cons, List.not_mem_nil, false_implies, implies_true, and_true]
    exact ⟨.text _, .text _, .text _, .bool _⟩

theorem encodable_toValue {p : Property} (h : ∀ t ∈ p.strings, t.NoSurrogate) :
    p.toValue.Encodable := by
  simpa [toValue, strings] using h

end Property

namespace Descriptor

/-- The strings of an item; a version that is no text has none. -/
def strings (d : Descriptor) : List Text :=
  [d.id, d.name, d.description] ++ (d.version.bind Value.text?).toList ++ d.sourceLocation.toList ++
    d.properties.flatMap Property.strings

/-- The item that a value tells of. -/
def ofValue? (v : Value) : Option Descriptor := do
  let fields ← v.map?
  let id ← (fields.find "id").text?
  let name ← (fields.find "name").text?
  let description ← (fields.find "description").text?
  let properties ← listed? Property.ofValue? (fields.find "properties")
  some ⟨id, name, description, Keyed.get? fields "version",
    (Keyed.get? fields "sourceLocation").bind Value.text?, properties⟩

/-- An item is told by its value, what is absent and what is empty included. -/
theorem ofValue?_toValue (d : Descriptor) : ofValue? d.toValue = some d := by
  obtain ⟨id, name, description, version, location, properties⟩ := d
  have hproperties : listed? Property.ofValue? (.list (properties.map Property.toValue)) =
      some properties := listed?_map fun p _ => p.ofValue?_toValue
  have hread (v : Option Value) (l : Option Text) :
      ((listed? Property.ofValue? (.list (properties.map Property.toValue))).bind fun ps =>
        some (Descriptor.mk id name description v l ps)) =
        some ⟨id, name, description, v, l, properties⟩ := by
    rw [hproperties]
    rfl
  cases version with
  | none =>
      cases location with
      | none => exact hread none none
      | some l => exact hread none (some l)
  | some v =>
      cases location with
      | none => exact hread (some v) none
      | some l => exact hread (some v) (some l)

theorem nodup_keys_fields (d : Descriptor) : (Keyed.keys d.fields).Nodup := by
  have hall : (["id", "name", "description", "version", "sourceLocation", "properties"].map
      Text.ofString).Nodup := by decide
  have hsub : ∀ (key : Text) (o : Option Value),
      (Keyed.keys (optionalField key o)).Sublist [key] := by
    intro key o
    cases o with
    | none => exact List.nil_sublist _
    | some v => exact List.Sublist.refl _
  refine hall.sublist ?_
  simp only [fields, Keyed.keys, List.map_cons, List.map_append, List.map_nil,
    List.cons_sublist_cons]
  exact (hsub "version" _).append ((hsub "sourceLocation" _).append (List.Sublist.refl _))

theorem mem_optionalField {key : Text} {o : Option Value} {f : Text × Value} :
    f ∈ optionalField key o ↔ ∃ v ∈ o, f = (key, v) := by
  cases o with
  | none => simp [optionalField]
  | some v => simp [optionalField]

/-- The item is written without numbers if its version is. -/
theorem plain_toValue {d : Descriptor} (h : ∀ v ∈ d.version, ∃ t, v = .text t) :
    d.toValue.Plain := by
  refine .map d.nodup_keys_fields ?_
  intro f hf
  simp only [fields, List.mem_cons, List.mem_append, mem_optionalField, List.not_mem_nil,
    or_false] at hf
  rcases hf with rfl | rfl | rfl | ⟨v, hv, rfl⟩ | ⟨v, hv, rfl⟩ | rfl
  · exact .text _
  · exact .text _
  · exact .text _
  · obtain ⟨t, rfl⟩ := h v hv
    exact .text t
  · obtain ⟨t, -, rfl⟩ := Option.map_eq_some_iff.mp hv
    exact .text t
  · refine .list fun v hv => ?_
    obtain ⟨p, -, rfl⟩ := List.mem_map.mp hv
    exact p.plain_toValue

/-- What is told of the item are texts that can be encoded. -/
structure Encodable (d : Descriptor) : Prop where
  version : ∀ v ∈ d.version, ∃ t, v = .text t
  strings : ∀ t ∈ d.strings, t.NoSurrogate

theorem encodable_toValue {d : Descriptor} (h : d.Encodable) : d.toValue.Encodable := by
  have hstrings := h.strings
  simp only [Descriptor.strings, List.mem_append, List.mem_cons, List.not_mem_nil, or_false,
    Option.mem_toList, List.mem_flatMap, or_imp, forall_and, forall_eq] at hstrings
  obtain ⟨⟨⟨⟨hid, hname, hdescription⟩, hversion⟩, hlocation⟩, hproperties⟩ := hstrings
  rw [toValue, Value.encodable_map]
  intro f hf
  simp only [fields, List.mem_cons, List.mem_append, mem_optionalField, List.not_mem_nil,
    or_false] at hf
  rcases hf with rfl | rfl | rfl | ⟨v, hv, rfl⟩ | ⟨v, hv, rfl⟩ | rfl
  · exact ⟨Text.noSurrogate_ofString _, Value.encodable_text.mpr hid⟩
  · exact ⟨Text.noSurrogate_ofString _, Value.encodable_text.mpr hname⟩
  · exact ⟨Text.noSurrogate_ofString _, Value.encodable_text.mpr hdescription⟩
  · obtain ⟨t, rfl⟩ := h.version v hv
    refine ⟨Text.noSurrogate_ofString _, Value.encodable_text.mpr (hversion t ?_)⟩
    rw [Option.mem_def.mp hv]
    rfl
  · obtain ⟨t, ht, rfl⟩ := Option.map_eq_some_iff.mp hv
    exact ⟨Text.noSurrogate_ofString _, Value.encodable_text.mpr (hlocation t ht)⟩
  · refine ⟨Text.noSurrogate_ofString _, Value.encodable_list.mpr fun v hv => ?_⟩
    obtain ⟨p, hp, rfl⟩ := List.mem_map.mp hv
    exact Property.encodable_toValue fun t ht => hproperties t ⟨p, hp, ht⟩

end Descriptor

end Item

/-! ### Files -/

namespace FileSystem

variable {fs : FileSystem} {path : Path}

theorem present_of_read {content : Bytes} (h : fs.read path = .ok content) :
    fs.present path = true := by
  obtain ⟨loc, hloc, hget⟩ := read_eq_ok_iff.mp h
  rw [present, entry?, hloc]
  dsimp only
  rw [hget]
  rfl

/-- What is written to an opened file is read from it. -/
theorem read_put_of_opened {opened : FileSystem} {loc : Location}
    (h : fs.truncate path = .ok (opened, loc)) (bytes : Bytes) :
    (opened.put loc (.file bytes)).read path = .ok bytes := by
  obtain ⟨hlocate, hget⟩ := locate_truncate h
  have hadmits := admits_of_file hget bytes
  exact read_eq_ok_iff.mpr ⟨loc, locate_put hadmits hlocate, by rw [get?_put hadmits, if_pos rfl]⟩

end FileSystem

namespace Project

/-- A text without carriage returns has its lines ended already. -/
theorem unifyLines_eq_self {t : Text} (h : Json.NoReturn t) : unifyLines t = t := by
  induction t with
  | nil => rfl
  | cons c t ih =>
      rw [Json.NoReturn, List.mem_cons, not_or] at h
      rw [unifyLines.eq_def]
      dsimp only
      rw [if_neg (Ne.symm h.1), ih h.2]

/-- What is told of the items are texts that can be encoded. -/
def Catalog.Encodable (catalog : Catalog) : Prop :=
  ∀ d ∈ Keyed.values catalog.widgets ++ Keyed.values catalog.paymentGateways,
    Item.Descriptor.Encodable d

end Project

/-! ### Manifests -/

namespace Manifest

open FileSystem Item Project

section saving

variable {fs : FileSystem} {manifest : Fields} {path : Path}

theorem holdsSurrogate_iff : HoldsSurrogate manifest ↔ ¬ (Value.map manifest).Encodable := by
  simp only [HoldsSurrogate, Value.Encodable, not_forall, exists_prop]

/-- A manifest is saved where a file can be opened and the text can be formed and encoded. -/
theorem save_eq_ok_iff (hplain : (Value.map manifest).Plain) : (save fs manifest path).2 = .ok () ↔
    (save fs [] path).2 = .ok () ∧ (Value.map manifest).Encodable := by
  have hwritable := Json.fault?_of_plain hplain
  rw [save_nil_eq_ok_iff]
  constructor
  · intro h
    obtain ⟨dirs, opened, loc, bytes, hdirs, hopened, hbytes, -⟩ := exists_of_save_eq_ok h
    refine ⟨⟨dirs, opened, loc, hdirs, hopened⟩, ?_⟩
    by_contra hheld
    rw [← holdsSurrogate_iff, ← encode?_write_eq_none_iff, hbytes] at hheld
    cases hheld
  · rintro ⟨⟨dirs, opened, loc, hdirs, hopened⟩, hencodable⟩
    rw [save_of_opened hdirs hopened hwritable]
    cases hbytes : Utf8.encode? (Json.write (.map manifest)) with
    | some bytes => rfl
    | none => exact absurd hencodable (holdsSurrogate_iff.mp (encode?_write_eq_none_iff.mp hbytes))

/-- The text of a saved manifest is its document. -/
theorem readText_save (hplain : (Value.map manifest).Plain)
    (h : (save fs manifest path).2 = .ok ()) :
    (save fs manifest path).1.present path = true ∧
      readText (save fs manifest path).1 path = .ok (Json.write (.map manifest)) := by
  obtain ⟨dirs, opened, loc, bytes, -, hopened, hbytes, hfiles⟩ := exists_of_save_eq_ok h
  have hread : (save fs manifest path).1.read path = .ok bytes := by
    rw [hfiles]
    exact read_put_of_opened hopened bytes
  refine ⟨present_of_read hread, ?_⟩
  rw [readText, hread]
  dsimp only [Except.mapError]
  rw [ok_bind, Utf8.decode?_encode? hbytes]
  dsimp only
  rw [Json.write, unifyLines_eq_self (Json.noReturn_writeAt hplain 0)]

/-- A saved manifest is read back. -/
theorem readPackage_save (hplain : (Value.map manifest).Plain) (hne : manifest ≠ [])
    (h : (save fs manifest path).2 = .ok ()) :
    readPackage (save fs manifest path).1 path = .ok (.map manifest) := by
  obtain ⟨hpresent, htext⟩ := readText_save hplain h
  have hset : (Value.map manifest).isSet = true := by simpa [Value.isSet] using hne
  rw [readPackage, readDocument, if_pos hpresent, htext, ok_bind, Json.read_write hplain]
  dsimp only [Except.mapError]
  rw [ok_bind, Value.orElse, if_pos hset]

end saving

/-! ### Manifests of texts -/

section texts

variable {package : Fields} {catalog : Catalog}

theorem plain_itemList {items : Keyed Descriptor} (h : ∀ d ∈ Keyed.values items, d.Encodable) :
    (itemList items).Plain := by
  refine .list fun v hv => ?_
  obtain ⟨d, hd, rfl⟩ := List.mem_map.mp hv
  exact Descriptor.plain_toValue (h d hd).version

theorem encodable_itemList {items : Keyed Descriptor} (h : ∀ d ∈ Keyed.values items, d.Encodable) :
    (itemList items).Encodable := by
  refine Value.encodable_list.mpr fun v hv => ?_
  obtain ⟨d, hd, rfl⟩ := List.mem_map.mp hv
  exact Descriptor.encodable_toValue (h d hd)

/-- The name and the description of the package are texts, or there are none. -/
def IsTextual (package : Fields) : Prop :=
  (package.find "name").IsTextOrAbsent ∧ (package.find "description").IsTextOrAbsent

theorem mem_fieldsOf {includeGateways : Bool} {f : Text × Value} :
    f ∈ fieldsOf package catalog includeGateways ↔
      f = ⟨"name", (package.find "name").orElse (.text [])⟩ ∨
      f = ⟨"description", (package.find "description").orElse (.text [])⟩ ∨
      f = ⟨"widgets", itemList catalog.widgets⟩ ∨
      includeGateways = true ∧ f = ⟨"paymentGateways", itemList catalog.paymentGateways⟩ := by
  cases includeGateways with
  | false => simp [fieldsOf]
  | true => simp [fieldsOf]

theorem nodup_keys_fieldsOf (package : Fields) (catalog : Catalog) (includeGateways : Bool) :
    (Keyed.keys (fieldsOf package catalog includeGateways)).Nodup := by
  cases includeGateways with
  | false =>
      have hkeys : Keyed.keys (fieldsOf package catalog false) =
          ["name", "description", "widgets"].map Text.ofString := rfl
      rw [hkeys]
      decide
  | true =>
      have hkeys : Keyed.keys (fieldsOf package catalog true) =
          ["name", "description", "widgets", "paymentGateways"].map Text.ofString := rfl
      rw [hkeys]
      decide

/-- A manifest of texts is plain. -/
theorem plain_fieldsOf (hpackage : IsTextual package) (hcatalog : catalog.Encodable)
    (includeGateways : Bool) : (Value.map (fieldsOf package catalog includeGateways)).Plain := by
  obtain ⟨hwidgets, hgateways⟩ := List.forall_mem_append.mp hcatalog
  refine .map (nodup_keys_fieldsOf package catalog includeGateways) ?_
  intro f hf
  rcases mem_fieldsOf.mp hf with rfl | rfl | rfl | ⟨-, rfl⟩
  · exact hpackage.1.plain_orElse
  · exact hpackage.2.plain_orElse
  · exact plain_itemList hwidgets
  · exact plain_itemList hgateways

/-- A manifest of texts can be encoded if the name and the description of the package can. -/
theorem encodable_fieldsOf_iff (hpackage : IsTextual package) (hcatalog : catalog.Encodable)
    (includeGateways : Bool) : (Value.map (fieldsOf package catalog includeGateways)).Encodable ↔
      (package.find "name").Encodable ∧ (package.find "description").Encodable := by
  obtain ⟨hwidgets, hgateways⟩ := List.forall_mem_append.mp hcatalog
  rw [Value.encodable_map, ← hpackage.1.encodable_orElse, ← hpackage.2.encodable_orElse]
  constructor
  · intro h
    exact ⟨(h _ (mem_fieldsOf.mpr (.inl rfl))).2, (h _ (mem_fieldsOf.mpr (.inr (.inl rfl)))).2⟩
  · rintro ⟨hname, hdescription⟩ f hf
    rcases mem_fieldsOf.mp hf with rfl | rfl | rfl | ⟨-, rfl⟩
    · exact ⟨Text.noSurrogate_ofString _, hname⟩
    · exact ⟨Text.noSurrogate_ofString _, hdescription⟩
    · exact ⟨Text.noSurrogate_ofString _, encodable_itemList hwidgets⟩
    · exact ⟨Text.noSurrogate_ofString _, encodable_itemList hgateways⟩

/-- The items that a document lists under a key. -/
def listedIn (document key : Text) : Option (List Descriptor) :=
  match Json.read document with
  | .ok (.map fields) => listed? Descriptor.ofValue? (Fields.find fields key)
  | _ => none

theorem listedIn_write {fields : Fields} (h : (Value.map fields).Plain) (key : Text) :
    listedIn (Json.write (.map fields)) key = listed? Descriptor.ofValue? (fields.find key) := by
  rw [listedIn, Json.read_write h]

theorem listed?_itemList (items : Keyed Descriptor) :
    listed? Descriptor.ofValue? (itemList items) = some (Keyed.values items) :=
  listed?_map fun d _ => d.ofValue?_toValue

end texts

/-- **A saved manifest of texts is read back, and the items can be told from its text.**  It is saved
wherever a file can be opened, unless the package's name or description holds a surrogate. -/
theorem saved_reads_back {package : Fields} {catalog : Catalog} (hpackage : IsTextual package)
    (hcatalog : catalog.Encodable) (includeGateways : Bool) :
    (∀ fs path, (save fs (fieldsOf package catalog includeGateways) path).2 = .ok () ↔
      (save fs [] path).2 = .ok () ∧
        (package.find "name").Encodable ∧ (package.find "description").Encodable) ∧
    (∀ fs path, (save fs (fieldsOf package catalog includeGateways) path).2 = .ok () →
      readText (save fs (fieldsOf package catalog includeGateways) path).1 path =
        .ok (Json.write (.map (fieldsOf package catalog includeGateways))) ∧
      readPackage (save fs (fieldsOf package catalog includeGateways) path).1 path =
        .ok (.map (fieldsOf package catalog includeGateways))) ∧
    listedIn (Json.write (.map (fieldsOf package catalog includeGateways))) "widgets" =
      some (Keyed.values catalog.widgets) ∧
    listedIn (Json.write (.map (fieldsOf package catalog includeGateways))) "paymentGateways" =
      (if includeGateways then some (Keyed.values catalog.paymentGateways) else none) ∧
    ∀ (package' : Fields) (catalog' : Catalog) (includeGateways' : Bool), IsTextual package' →
      catalog'.Encodable → Keyed.values catalog.widgets ≠ Keyed.values catalog'.widgets →
      Json.write (.map (fieldsOf package catalog includeGateways)) ≠
        Json.write (.map (fieldsOf package' catalog' includeGateways')) := by
  have hplain := plain_fieldsOf hpackage hcatalog includeGateways
  have hwidgets : ∀ (p : Fields) (c : Catalog) (i : Bool), IsTextual p → c.Encodable →
      listedIn (Json.write (.map (fieldsOf p c i))) "widgets" = some (Keyed.values c.widgets) := by
    intro p c i hp hc
    rw [listedIn_write (plain_fieldsOf hp hc i)]
    exact listed?_itemList c.widgets
  refine ⟨?_, ?_, hwidgets package catalog includeGateways hpackage hcatalog, ?_, ?_⟩
  · intro fs path
    rw [save_eq_ok_iff hplain, encodable_fieldsOf_iff hpackage hcatalog]
  · intro fs path h
    exact ⟨(readText_save hplain h).2, readPackage_save hplain (List.cons_ne_nil _ _) h⟩
  · rw [listedIn_write hplain]
    cases includeGateways with
    | false => rfl
    | true => exact listed?_itemList catalog.paymentGateways
  · intro package' catalog' includeGateways' hpackage' hcatalog' hne heq
    have h := hwidgets package catalog includeGateways hpackage hcatalog
    rw [heq, hwidgets package' catalog' includeGateways' hpackage' hcatalog'] at h
    exact hne (Option.some.inj h).symm

/-- A package with a name that needs escapes and without a description. -/
def quotedPackage : Fields := [("name", .text "a \"b\" \\ c")]

/-- A widget with line ends, control characters and a character beyond the first plane, and one with
an empty version and no location. -/
def quotedCatalog (location : Option Text) : Catalog where
  widgets :=
    [("w", ⟨"w", "end\r\nsep\u2028 😀", "\x01\t", none, location, [⟨"p", "P", "'a' | \"b\"", true⟩]⟩),
      ("v", ⟨"v", "V", [], some (.text []), none, []⟩)]
  paymentGateways := []
  collisions := []

theorem saved_reads_back_quoted :
    IsTextual quotedPackage ∧ (quotedCatalog none).Encodable ∧ (quotedCatalog (some [])).Encodable ∧
    (save .root (fieldsOf quotedPackage (quotedCatalog none) true) (Path.ofText "dist/a.json")).2 =
      .ok () ∧
    readPackage
        (save .root (fieldsOf quotedPackage (quotedCatalog none) true) (Path.ofText "dist/a.json")).1
        (Path.ofText "dist/a.json") =
      .ok (.map (fieldsOf quotedPackage (quotedCatalog none) true)) ∧
    Json.write (.map (fieldsOf quotedPackage (quotedCatalog none) true)) ≠
      Json.write (.map (fieldsOf quotedPackage (quotedCatalog (some [])) true)) := by
  have hpackage : IsTextual quotedPackage := ⟨.inr ⟨_, rfl⟩, .inl rfl⟩
  have hcatalog : ∀ location, (∀ t ∈ location, t = []) → (quotedCatalog location).Encodable := by
    intro location hlocation d hd
    simp only [quotedCatalog, Keyed.values, List.map_cons, List.map_nil, List.append_nil,
      List.mem_cons, List.not_mem_nil, or_false] at hd
    rcases hd with rfl | rfl
    · refine ⟨fun v hv => (by cases hv), ?_⟩
      cases location with
      | none => decide
      | some t =>
          rw [hlocation t rfl]
          decide
    · refine ⟨fun v hv => ?_, by decide⟩
      cases hv
      exact ⟨[], rfl⟩
  have hempty : (save .root [] (Path.ofText "dist/a.json")).2 = .ok () := by decide +kernel
  obtain ⟨hsaves, hreads, -, -, htexts⟩ :=
    saved_reads_back hpackage (hcatalog none (by simp)) true
  have hsaved := (hsaves .root (Path.ofText "dist/a.json")).mpr
    ⟨hempty, by decide, Value.encodable_null⟩
  refine ⟨hpackage, hcatalog none (by simp), hcatalog (some []) (by simp), hsaved,
    (hreads _ _ hsaved).2, htexts _ _ true hpackage (hcatalog (some []) (by simp)) ?_⟩
  intro h
  have := congrArg (List.map Descriptor.sourceLocation) h
  exact absurd this (by decide)

end Manifest

end PluginManifest
