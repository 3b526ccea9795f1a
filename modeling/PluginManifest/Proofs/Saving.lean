import PluginManifest.Command.Run
import PluginManifest.Proofs.Surrogates
import PluginManifest.Proofs.Tree

/-! # What a failed save leaves behind

Saving makes directories, forms the text, opens the file and encodes the text, in this order.  The
directories are only added (`FileSystem.Grows`), so a failure before the file is opened leaves it as it
was.  A failure to encode comes after the file was emptied: `intact_save_iff` says that this is the
only one that does not leave the file intact, and that it happens exactly for manifests that hold a
surrogate and could be saved otherwise. -/

namespace PluginManifest

/-! ### Paths -/

namespace FileSystem

variable {fs before after : FileSystem} {path : Path} {loc : Location}

/-- Where directories stay directories, a path goes on to lead where it led. -/
theorem follow_of_directories
    (h : ∀ l, before.get? l = some .directory → after.get? l = some .directory) :
    ∀ {way : List Step} {here : Location}, before.follow here way = .ok loc →
      after.follow here way = .ok loc := by
  intro way
  induction way with
  | nil => exact fun hf => hf
  | cons step way ih =>
      intro here hf
      cases hhere : before.get? here with
      | none =>
          rw [follow, hhere] at hf
          cases hf
      | some entry =>
          cases entry with
          | file content =>
              rw [follow, hhere] at hf
              cases hf
          | directory =>
              rw [follow, hhere] at hf
              rw [follow, h here hhere]
              exact ih hf

theorem locate_of_directories
    (h : ∀ l, before.get? l = some .directory → after.get? l = some .directory)
    (hworking : after.working = before.working) (hl : before.locate path = .ok loc) :
    after.locate path = .ok loc := by
  obtain ⟨way, hway, hloc⟩ := locate_eq_ok_iff.mp hl
  refine locate_eq_ok_iff.mpr ⟨way, hway, ?_⟩
  rw [start_congr hworking]
  exact follow_of_directories h hloc

/-- An entry that is put where it is admitted stands in no path's way. -/
theorem locate_put {entry : Entry} {l : Location} (h : fs.Admits loc entry)
    (hl : fs.locate path = .ok l) : (fs.put loc entry).locate path = .ok l := by
  refine locate_of_directories (fun k hk => ?_) (working_put fs loc entry) hl
  rw [get?_put h]
  split_ifs with hkl
  · rw [h.kept (hkl ▸ hk)]
  · exact hk

/-! ### Directories are only added -/

/-- Nothing was removed or changed, and all that is new are directories. -/
structure Grows (before after : FileSystem) : Prop where
  working : after.working = before.working
  kept : ∀ loc entry, before.get? loc = some entry → after.get? loc = some entry
  files : ∀ loc content, after.get? loc = some (.file content) →
    before.get? loc = some (.file content)

theorem Grows.refl (fs : FileSystem) : Grows fs fs := ⟨rfl, fun _ _ h => h, fun _ _ h => h⟩

theorem Grows.trans {first second third : FileSystem} (h : Grows first second)
    (h' : Grows second third) : Grows first third :=
  ⟨h'.working.trans h.working, fun loc entry he => h'.kept loc entry (h.kept loc entry he),
    fun loc content hc => h.files loc content (h'.files loc content hc)⟩

theorem grows_put_directory (hnone : fs.get? loc = none)
    (hparent : fs.get? loc.dropLast = some .directory) : Grows fs (fs.put loc .directory) := by
  have hadmits := admits_of_none hnone hparent .directory
  refine ⟨working_put fs loc .directory, ?_, ?_⟩
  · intro l entry hl
    have hne : l ≠ loc := by
      rintro rfl
      rw [hnone] at hl
      cases hl
    rw [get?_put hadmits, if_neg hne, hl]
  · intro l content hl
    rw [get?_put hadmits] at hl
    split_ifs at hl
    · cases hl
    · exact hl

theorem grows_makeDirectory (h : before.makeDirectory path = .ok after) : Grows before after := by
  unfold makeDirectory at h
  obtain ⟨loc, -, h⟩ := bind_eq_ok_iff.mp h
  split at h
  · cases h
  · rename_i hnone
    split at h
    · rename_i hparent
      cases h
      exact grows_put_directory hnone hparent
    · cases h
    · cases h

theorem grows_ensureDirectory (h : before.ensureDirectory path = .ok after) :
    Grows before after := by
  unfold ensureDirectory at h
  split at h
  · rename_i hmade
    cases h
    exact grows_makeDirectory hmade
  · cases h
  · split_ifs at h
    cases h
    exact .refl _

/-- Directories are added one after another, also when one of them cannot be made. -/
theorem grows_ensureNames (fs : FileSystem) (root : PathRoot) (names : List Text) :
    Grows fs (fs.ensureNames root names).1 := by
  induction names with
  | nil => exact .refl fs
  | cons name names ih =>
      unfold ensureNames
      dsimp only
      cases hmade : fs.ensureDirectory ⟨root, (name :: names).reverse⟩ with
      | ok made => exact grows_ensureDirectory hmade
      | error e =>
          cases e with
          | notFound =>
              -- The directories before it are made first, and then it is tried again.
              dsimp only
              generalize fs.ensureNames root names = rest at ih
              obtain ⟨fs', outcome⟩ := rest
              cases outcome with
              | error e => exact ih
              | ok u =>
                  dsimp only
                  cases hmade : fs'.ensureDirectory ⟨root, (name :: names).reverse⟩ with
                  | ok made => exact ih.trans (grows_ensureDirectory hmade)
                  | error e => exact ih
          | _ => exact .refl fs

theorem Grows.read_eq_ok (h : Grows before after) {content : Bytes}
    (hr : before.read path = .ok content) : after.read path = .ok content := by
  obtain ⟨loc, hl, hg⟩ := read_eq_ok_iff.mp hr
  have hdirs : ∀ l, before.get? l = some .directory → after.get? l = some .directory :=
    fun l => h.kept l .directory
  exact read_eq_ok_iff.mpr ⟨loc, locate_of_directories hdirs h.working hl, h.kept loc _ hg⟩

/-! ### Opening a file -/

/-- A file that is opened is emptied, and its path leads to it. -/
theorem truncate_eq_ok (h : before.truncate path = .ok (after, loc)) :
    before.locate path = .ok loc ∧ before.Admits loc (.file []) ∧
      after = before.put loc (.file []) := by
  unfold truncate at h
  obtain ⟨l, hl, h⟩ := bind_eq_ok_iff.mp h
  split at h
  · cases h
  · rename_i hg
    cases h
    exact ⟨hl, admits_of_file hg [], rfl⟩
  · rename_i hg
    split at h
    · rename_i hparent
      cases h
      exact ⟨hl, admits_of_none hg hparent _, rfl⟩
    · cases h
    · cases h

theorem locate_truncate (h : before.truncate path = .ok (after, loc)) :
    after.locate path = .ok loc ∧ after.get? loc = some (.file []) := by
  obtain ⟨hl, hadmits, rfl⟩ := truncate_eq_ok h
  exact ⟨locate_put hadmits hl, by rw [get?_put hadmits, if_pos rfl]⟩

/-- The file of a path is as it was: one that was there has the same bytes, and none was made.  The
directories on the way to it may be new. -/
structure Intact (before after : FileSystem) (path : Path) : Prop where
  kept : ∀ content, before.read path = .ok content → after.read path = .ok content
  absent : ∀ loc content, after.locate path = .ok loc → after.get? loc = some (.file content) →
    before.get? loc = some (.file content)

theorem Grows.intact (h : Grows before after) (path : Path) : Intact before after path :=
  ⟨fun _ => h.read_eq_ok, fun loc content _ => h.files loc content⟩

end FileSystem

/-! ### Saving -/

namespace Manifest

open FileSystem

section

variable {fs dirs opened : FileSystem} {manifest : Fields} {path : Path} {loc : Location}

/-- A text of the manifest holds a surrogate. -/
def HoldsSurrogate (manifest : Fields) : Prop := ∃ t ∈ (Value.map manifest).texts, ¬ t.NoSurrogate

theorem encode?_write_eq_none_iff :
    Utf8.encode? (Json.write (.map manifest)) = none ↔ HoldsSurrogate manifest := by
  rw [Utf8.encode?_eq_none_iff, Json.noSurrogate_write, HoldsSurrogate]
  simp only [not_forall, exists_prop]

/-- Where a file can be opened, only the text decides. -/
theorem save_of_opened (hdirs : fs.ensureDirectories path.parent = (dirs, .ok ()))
    (hopened : dirs.truncate path = .ok (opened, loc))
    (hwritable : Json.fault? (.map manifest) = none) :
    save fs manifest path =
      match Utf8.encode? (Json.write (.map manifest)) with
      | some bytes => (opened.put loc (.file bytes), .ok ())
      | none => (opened, .error .encoding) := by
  cases hbytes : Utf8.encode? (Json.write (.map manifest)) with
  | none => simp [save, hdirs, Json.write?, hwritable, writeText, hopened, hbytes]
  | some bytes => simp [save, hdirs, Json.write?, hwritable, writeText, hopened, hbytes]

/-- The ways that a save can go, and what is there in the end. -/
inductive Saves (fs : FileSystem) (manifest : Fields) (path : Path) :
    FileSystem × Except SaveError Unit → Prop
  /-- A directory cannot be made. -/
  | noDirectory {dirs : FileSystem} {e : FileError} :
      fs.ensureDirectories path.parent = (dirs, .error e) →
      Saves fs manifest path (dirs, .error (.file e))
  /-- The text cannot be formed. -/
  | noText {dirs : FileSystem} {e : Json.WriteError} :
      fs.ensureDirectories path.parent = (dirs, .ok ()) →
      Json.fault? (.map manifest) = some e → Saves fs manifest path (dirs, .error (.text e))
  /-- The file cannot be opened. -/
  | notOpened {dirs : FileSystem} {e : FileError} :
      fs.ensureDirectories path.parent = (dirs, .ok ()) → dirs.truncate path = .error e →
      Saves fs manifest path (dirs, .error (.file e))
  /-- The text cannot be encoded. -/
  | notEncoded {dirs opened : FileSystem} {loc : Location} :
      fs.ensureDirectories path.parent = (dirs, .ok ()) →
      Json.fault? (.map manifest) = none → dirs.truncate path = .ok (opened, loc) →
      HoldsSurrogate manifest → Saves fs manifest path (opened, .error .encoding)
  /-- The file is written. -/
  | written {dirs opened : FileSystem} {loc : Location} {bytes : Bytes} :
      fs.ensureDirectories path.parent = (dirs, .ok ()) →
      Json.fault? (.map manifest) = none → dirs.truncate path = .ok (opened, loc) →
      Utf8.encode? (Json.write (.map manifest)) = some bytes →
      Saves fs manifest path (opened.put loc (.file bytes), .ok ())

theorem saves_save (fs : FileSystem) (manifest : Fields) (path : Path) :
    Saves fs manifest path (save fs manifest path) := by
  cases hdirs : fs.ensureDirectories path.parent with
  | mk dirs outcome =>
      cases outcome with
      | error e => simpa [save, hdirs] using .noDirectory hdirs
      | ok u =>
          cases hwritable : Json.fault? (.map manifest) with
          | some e => simpa [save, hdirs, Json.write?, hwritable] using .noText hdirs hwritable
          | none =>
              cases hopened : dirs.truncate path with
              | error e =>
                  simpa [save, hdirs, Json.write?, hwritable, writeText, hopened] using
                    .notOpened hdirs hopened
              | ok file =>
                  obtain ⟨opened, loc⟩ := file
                  rw [save_of_opened hdirs hopened hwritable]
                  cases hbytes : Utf8.encode? (Json.write (.map manifest)) with
                  | none =>
                      have hheld := encode?_write_eq_none_iff.mp hbytes
                      exact .notEncoded hdirs hwritable hopened hheld
                  | some bytes => exact .written hdirs hwritable hopened hbytes

/-- A save that succeeds has written the bytes of the text to the file that it opened. -/
theorem exists_of_save_eq_ok (h : (save fs manifest path).2 = .ok ()) : ∃ dirs opened loc bytes,
    fs.ensureDirectories path.parent = (dirs, .ok ()) ∧ dirs.truncate path = .ok (opened, loc) ∧
      Utf8.encode? (Json.write (.map manifest)) = some bytes ∧
      (save fs manifest path).1 = opened.put loc (.file bytes) := by
  have hsaves := saves_save fs manifest path
  generalize save fs manifest path = saved at h hsaves
  cases hsaves with
  | noDirectory _ => cases h
  | noText _ _ => cases h
  | notOpened _ _ => cases h
  | notEncoded _ _ _ _ => cases h
  | written hdirs _ hopened hbytes => exact ⟨_, _, _, _, hdirs, hopened, hbytes, rfl⟩

/-- The empty manifest can be saved exactly where a file can be opened. -/
theorem save_nil_eq_ok_iff : (save fs [] path).2 = .ok () ↔ ∃ dirs opened loc,
    fs.ensureDirectories path.parent = (dirs, .ok ()) ∧ dirs.truncate path = .ok (opened, loc) := by
  constructor
  · intro h
    obtain ⟨dirs, opened, loc, -, hdirs, hopened, -, -⟩ := exists_of_save_eq_ok h
    exact ⟨dirs, opened, loc, hdirs, hopened⟩
  · rintro ⟨dirs, opened, loc, hdirs, hopened⟩
    rw [save_of_opened hdirs hopened rfl]
    rfl

/-- A manifest fails to be encoded exactly when it holds a surrogate and nothing fails before. -/
theorem save_eq_encoding_iff : (save fs manifest path).2 = .error .encoding ↔
    (save fs [] path).2 = .ok () ∧ Json.fault? (.map manifest) = none ∧
      HoldsSurrogate manifest := by
  rw [save_nil_eq_ok_iff]
  constructor
  · intro h
    have hsaves := saves_save fs manifest path
    generalize save fs manifest path = saved at h hsaves
    cases hsaves with
    | noDirectory _ => cases h
    | noText _ _ => cases h
    | notOpened _ _ => cases h
    | notEncoded hdirs hwritable hopened hheld =>
        exact ⟨⟨_, _, _, hdirs, hopened⟩, hwritable, hheld⟩
    | written _ _ _ _ => cases h
  · rintro ⟨⟨dirs, opened, loc, hdirs, hopened⟩, hwritable, hheld⟩
    rw [save_of_opened hdirs hopened hwritable, encode?_write_eq_none_iff.mpr hheld]

/-- An emptied file is intact only if it was empty. -/
theorem intact_truncate_iff (hgrows : Grows fs dirs)
    (hopened : dirs.truncate path = .ok (opened, loc)) :
    Intact fs opened path ↔ dirs.read path = .ok [] := by
  obtain ⟨hloc, hempty⟩ := locate_truncate hopened
  obtain ⟨hdirs, -, -⟩ := truncate_eq_ok hopened
  constructor
  · intro h
    exact read_eq_ok_iff.mpr ⟨loc, hdirs, hgrows.kept loc _ (h.absent loc [] hloc hempty)⟩
  · intro hread
    obtain ⟨l, hl, hget⟩ := read_eq_ok_iff.mp hread
    obtain rfl : l = loc := Except.ok.inj (hl.symm.trans hdirs)
    constructor
    · intro content hbefore
      have hsame := hgrows.read_eq_ok hbefore
      rw [hread] at hsame
      cases hsame
      exact read_eq_ok_iff.mpr ⟨l, hloc, hempty⟩
    · intro k content hk hcontent
      obtain rfl : k = l := Except.ok.inj (hk.symm.trans hloc)
      rw [hempty] at hcontent
      cases hcontent
      exact hgrows.files k [] hget

end

/-- **A failed save leaves the file at its path intact unless the text cannot be encoded.**  Then
the file is empty, so it is intact only if it was empty before. -/
theorem intact_save_iff (fs : FileSystem) (manifest : Fields) (path : Path) :
    (∀ e, (save fs manifest path).2 = .error e →
      (Intact fs (save fs manifest path).1 path ↔
        (e = .encoding → (fs.ensureDirectories path.parent).1.read path = .ok [])) ∧
      (e = .encoding → (save fs manifest path).1.read path = .ok [])) ∧
    ((save fs manifest path).2 = .error .encoding ↔
      (save fs [] path).2 = .ok () ∧ Json.fault? (.map manifest) = none ∧
        HoldsSurrogate manifest) := by
  refine ⟨?_, save_eq_encoding_iff⟩
  intro e h
  have hgrows : Grows fs (fs.ensureDirectories path.parent).1 := grows_ensureNames _ _ _
  have hsaves := saves_save fs manifest path
  generalize save fs manifest path = saved at h hsaves
  cases hsaves with
  | noDirectory hdirs =>
      cases h
      rw [hdirs] at hgrows
      simpa using hgrows.intact path
  | noText hdirs _ =>
      cases h
      rw [hdirs] at hgrows
      simpa using hgrows.intact path
  | notOpened hdirs _ =>
      cases h
      rw [hdirs] at hgrows
      simpa using hgrows.intact path
  | notEncoded hdirs _ hopened _ =>
      cases h
      rw [hdirs] at hgrows ⊢
      refine ⟨?_, fun _ => read_eq_ok_iff.mpr ⟨_, locate_truncate hopened⟩⟩
      simpa using intact_truncate_iff hgrows hopened
  | written _ _ _ _ => cases h

/-- A widget whose property is named by an escape that stands for half a character, and an older
manifest. -/
def halfCharacter : FileSystem := FileSystem.ofEntries
  [("src/a.ts", .file (TypeScript.bytesOf
      "/** @widget */ function W(p: \x7b'\\ud83d': string\x7d) \x7b\x7d")),
    ("dist/manifest.json", .file (TypeScript.bytesOf "\x7b\x7d"))]

/-- A failed run empties the manifest that was there. -/
theorem failed_save_empties :
    halfCharacter.read (Path.ofText "dist/manifest.json") = .ok [0x7B, 0x7D] ∧
      (Command.run .standard halfCharacter []).ending = .failed (.save .encoding) ∧
      (Command.run .standard halfCharacter []).files.read (Path.ofText "dist/manifest.json") =
        .ok [] := by
  decide +kernel

end Manifest

end PluginManifest
