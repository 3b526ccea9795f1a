import PluginManifest.Project.FileSystem
import PluginManifest.Proofs.FileName
import PluginManifest.Proofs.Report

/-! # Paths in a file system

An entry that is put where it is admitted is found there, and nothing else changes (`get?_put`).  The
names of files are components of paths that lead from a directory to its entries (`locate_append`), and
a path that leads to a regular file can be read (`read_of_isFile`). -/

namespace PluginManifest.FileSystem

variable {fs : FileSystem} {path : Path} {loc here : Location}

/-! ### Entries -/

/-- An entry that is put at a location is found there, and nothing else changes. -/
theorem get?_put {entry : Entry} (h : fs.Admits loc entry) (l : Location) :
    (fs.put loc entry).get? l = if l = loc then some entry else fs.get? l := by
  rw [put, dif_pos h]
  exact Entries.get?_put h.named entry fs.entries l

theorem working_put (fs : FileSystem) (loc : Location) (entry : Entry) :
    (fs.put loc entry).working = fs.working := by
  unfold put
  split_ifs
  · rfl
  · rfl

theorem lookup_eq_some_iff {entries : Entries} (h : (entries.map Prod.fst).Nodup) {entry : Entry} :
    entries.lookup loc = some entry ↔ (loc, entry) ∈ entries := by
  induction entries with
  | nil => simp
  | cons first rest ih =>
      obtain ⟨l, e⟩ := first
      obtain ⟨hnew, hrest⟩ := List.nodup_cons.mp h
      rw [Entries.lookup_cons_eq, List.mem_cons, Prod.mk.injEq]
      by_cases hl : loc = l
      · subst hl
        have hnot : (loc, entry) ∉ rest := fun hmem => hnew (List.mem_map.mpr ⟨_, hmem, rfl⟩)
        simp [hnot, eq_comm]
      · rw [if_neg hl, ih hrest]
        simp [hl]

/-- Behind the root directory the entries are what is found. -/
theorem get?_eq_some_iff (hloc : loc ≠ []) {entry : Entry} :
    fs.get? loc = some entry ↔ (loc, entry) ∈ fs.entries := by
  cases loc with
  | nil => exact absurd rfl hloc
  | cons name names => exact lookup_eq_some_iff fs.distinct

/-- A file is admitted where a file is. -/
theorem admits_of_file {old : Bytes} (h : fs.get? loc = some (.file old)) (content : Bytes) :
    fs.Admits loc (.file content) := by
  have hloc : loc ≠ [] := by
    rintro rfl
    cases h
  have hmem := (get?_eq_some_iff hloc).mp h
  refine ⟨hloc, (fs.placed _ hmem).2, fun hdir => ?_⟩
  rw [h] at hdir
  cases hdir

/-- Every entry is admitted in a directory where there is none. -/
theorem admits_of_none (h : fs.get? loc = none) (hparent : fs.get? loc.dropLast = some .directory)
    (entry : Entry) : fs.Admits loc entry := by
  refine ⟨?_, hparent, fun hdir => ?_⟩
  · rintro rfl
    cases h
  · rw [h] at hdir
    cases hdir

/-! ### Steps -/

theorem ofBytes?_bytes (name : FileName) : Step.ofBytes? name.bytes = some (.into name) := by
  rw [Step.ofBytes?, if_neg name.allowed.2.2.1, dif_pos name.allowed]

theorem mapM_encode?_text (names : List FileName) :
    (names.map FileName.text).mapM FileName.encode? = some (names.map FileName.bytes) :=
  mapM_map_eq_some fun name _ => FileName.encode?_text name

theorem mapM_ofBytes?_bytes (names : List FileName) :
    (names.map FileName.bytes).mapM Step.ofBytes? = some (names.map .into) :=
  mapM_map_eq_some fun name _ => ofBytes?_bytes name

/-- Names at the end of a path are steps to entries of these names. -/
theorem steps_append {before : List Step} (h : steps path = .ok before) (names : List FileName) :
    steps (path.append (names.map FileName.text)) = .ok (before ++ names.map .into) := by
  unfold steps at h ⊢
  dsimp only [Path.append]
  rw [List.mapM_append, mapM_encode?_text]
  cases hcodes : path.parts.mapM FileName.encode? with
  | none =>
      rw [hcodes] at h
      cases h
  | some codes =>
      rw [hcodes] at h
      dsimp only at h
      cases hsteps : codes.mapM Step.ofBytes? with
      | none =>
          rw [hsteps] at h
          cases h
      | some given =>
          rw [hsteps] at h
          cases h
          have hall : (codes ++ names.map FileName.bytes).mapM Step.ofBytes? =
              some (before ++ names.map .into) := by
            rw [List.mapM_append, hsteps, mapM_ofBytes?_bytes]
            rfl
          dsimp only [bind, Option.bind, pure]
          rw [hall]

/-! ### Following steps -/

theorem locate_eq_ok_iff : fs.locate path = .ok loc ↔
    ∃ way, steps path = .ok way ∧ fs.follow (fs.start path.root) way = .ok loc := bind_eq_ok_iff

/-- A way that goes on is followed from where its first part leads. -/
theorem follow_append {way : List Step} (h : fs.follow here way = .ok loc) (more : List Step) :
    fs.follow here (way ++ more) = fs.follow loc more := by
  induction way generalizing here with
  | nil =>
      cases h
      rfl
  | cons step way ih =>
      rw [List.cons_append, follow]
      rw [follow] at h
      split at h
      · cases h
      · cases h
      · exact ih h

/-- Names behind a path are followed from where the path leads. -/
theorem locate_append (h : fs.locate path = .ok here) (names : List FileName) :
    fs.locate (path.append (names.map FileName.text)) = fs.follow here (names.map .into) := by
  obtain ⟨way, hway, hhere⟩ := locate_eq_ok_iff.mp h
  rw [locate, steps_append hway, ok_bind]
  exact follow_append hhere _

/-! ### Reading -/

theorem read_eq_ok_iff {content : Bytes} : fs.read path = .ok content ↔
    ∃ loc, fs.locate path = .ok loc ∧ fs.get? loc = some (.file content) := by
  unfold read
  rw [bind_eq_ok_iff]
  refine exists_congr fun loc => and_congr_right fun _ => ?_
  cases hg : fs.get? loc with
  | none => simp
  | some entry =>
      cases entry with
      | file bytes => simp
      | directory => simp

/-- The bytes of the regular file that a path leads to; nothing where there is none. -/
def contentAt (fs : FileSystem) (path : Path) : Bytes :=
  match fs.read path with
  | .ok content => content
  | .error _ => []

/-- A path that leads to a regular file can be read. -/
theorem read_of_isFile (h : fs.isFile path = true) : fs.read path = .ok (fs.contentAt path) := by
  have hread : ∃ content, fs.read path = .ok content := by
    unfold isFile entry? at h
    cases hl : fs.locate path with
    | error e => simp [hl] at h
    | ok loc =>
        cases hg : fs.get? loc with
        | none => simp [hl, hg] at h
        | some entry =>
            cases entry with
            | directory => simp [hl, hg] at h
            | file content => exact ⟨content, read_eq_ok_iff.mpr ⟨loc, hl, hg⟩⟩
  obtain ⟨content, hcontent⟩ := hread
  rw [contentAt, hcontent]

end PluginManifest.FileSystem
