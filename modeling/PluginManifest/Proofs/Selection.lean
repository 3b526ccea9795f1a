import PluginManifest.Proofs.Discovery
import PluginManifest.Proofs.Gathering
import PluginManifest.Proofs.Tree
import Mathlib.Data.List.Sort

/-! # The list of source files is canonical

Discovery goes through the patterns and puts what each of them finds into one sorted list.  With
patterns that can be read it always gives a list, and the members of this list are told by the
selection alone (`exists_discovered`).  A strictly increasing list is told by its members
(`eq_of_mem_iff`), so neither the order nor the repetition of patterns and exclusions matters, nor
does the order in which the file system lists its entries (`mem_find_perm`).

With the default patterns the list holds all regular files below the root whose names end in the
way of a source file (`mem_pathsMatching_anyDepth`, `describes_star`). -/

namespace PluginManifest

/-! ### Names that end in a text -/

namespace Wildcard

/-- Any text and then what the other elements describe. -/
theorem matchAll_many (ws : List Wildcard) (t : Text) :
    matchAll (.many :: ws) t = true ↔
      ∃ before after, t = before ++ after ∧ matchAll ws after = true := by
  induction t with
  | nil =>
      rw [matchAll]
      constructor
      · exact fun h => ⟨[], [], rfl, h⟩
      · rintro ⟨before, after, h, hafter⟩
        obtain ⟨-, rfl⟩ := List.append_eq_nil_iff.mp h.symm
        exact hafter
  | cons c t ih =>
      rw [matchAll, Bool.or_eq_true, ih]
      constructor
      · rintro (h | ⟨before, after, rfl, h⟩)
        · exact ⟨[], c :: t, rfl, h⟩
        · exact ⟨c :: before, after, rfl, h⟩
      · rintro ⟨before, after, ht, h⟩
        cases before with
        | nil =>
            rw [List.nil_append] at ht
            exact .inl (ht ▸ h)
        | cons d before =>
            obtain ⟨rfl, rfl⟩ := List.cons.inj ht
            exact .inr ⟨before, after, rfl, h⟩

theorem matchAll_literals (s t : Text) : matchAll (s.map .literal) t = true ↔ t = s := by
  induction s generalizing t with
  | nil =>
      rw [List.map_nil, matchAll, List.isEmpty_iff]
  | cons c s ih =>
      cases t with
      | nil => simp [matchAll]
      | cons d t => simp [matchAll, admits, ih]

/-- A star before characters that stand for themselves describes the texts that end in them. -/
theorem describes_star {pattern ending : Text}
    (h : read pattern = .many :: ending.map .literal) (t : Text) :
    describes pattern t = true ↔ ending <:+ t := by
  rw [describes, h, matchAll_many]
  simp only [matchAll_literals]
  constructor
  · rintro ⟨before, after, rfl, rfl⟩
    exact List.suffix_append before after
  · rintro ⟨before, rfl⟩
    exact ⟨before, ending, rfl, rfl⟩

end Wildcard

namespace Project

variable {fs fs' : FileSystem} {root p : Path}

/-! ### Sorted lists -/

theorem mem_insertPath_of_mem (path : Path) {paths : List Path} (h : p ∈ paths) :
    p ∈ insertPath path paths := by
  induction paths with
  | nil => cases h
  | cons q rest ih =>
      unfold insertPath
      split_ifs
      · exact List.mem_cons_of_mem _ h
      · exact h
      · rcases List.mem_cons.mp h with rfl | h
        · exact List.mem_cons_self
        · exact List.mem_cons_of_mem _ (ih h)

/-- A path is told by its components among paths of one root. -/
theorem mem_insertPath_self {path : Path} {paths : List Path}
    (h : ∀ q ∈ paths, q.root = path.root) : path ∈ insertPath path paths := by
  induction paths with
  | nil => exact List.mem_singleton_self path
  | cons q rest ih =>
      obtain ⟨hq, hrest⟩ := List.forall_mem_cons.mp h
      unfold insertPath
      split_ifs with hlt heq
      · exact List.mem_cons_self
      · -- Only here a path is dropped, for one that has its components and its root.
        have hpath : path = q := by
          cases path
          cases q
          cases hq
          cases heq
          rfl
        rw [← hpath]
        exact List.mem_cons_self
      · exact List.mem_cons_of_mem _ (ih hrest)

/-- Sorting paths of one root keeps all of them. -/
theorem mem_sortPaths_iff {r : PathRoot} {paths : List Path} (h : ∀ q ∈ paths, q.root = r) :
    p ∈ sortPaths paths ↔ p ∈ paths := by
  refine ⟨mem_of_mem_sortPaths, ?_⟩
  induction paths with
  | nil => exact fun hp => hp
  | cons q rest ih =>
      obtain ⟨hq, hrest⟩ := List.forall_mem_cons.mp h
      intro hp
      rcases List.mem_cons.mp hp with rfl | hp
      · refine mem_insertPath_self fun q' hq' => ?_
        rw [hrest q' (mem_of_mem_sortPaths hq'), hq]
      · exact mem_insertPath_of_mem q (ih hrest hp)

/-- A strictly increasing list of paths is told by its members. -/
theorem eq_of_mem_iff {paths others : List Path}
    (hpaths : paths.Pairwise fun p q => ranks p.parts < ranks q.parts)
    (hothers : others.Pairwise fun p q => ranks p.parts < ranks q.parts)
    (h : ∀ p, p ∈ paths ↔ p ∈ others) : paths = others := by
  have hirrefl : Std.Irrefl fun p q : Path => ranks p.parts < ranks q.parts :=
    ⟨fun p => lt_irrefl _⟩
  have hantisymm : Std.Antisymm fun p q : Path => ranks p.parts < ranks q.parts :=
    ⟨fun p q hpq hqp => absurd hpq (lt_asymm hqp)⟩
  exact List.Pairwise.eq_of_mem_iff hpaths hothers h

/-! ### What is found -/

theorem root_of_mem_find {directories : Bool} {parts : List GlobPart} :
    ∀ path : Path, p ∈ find fs directories parts path → p.root = path.root := by
  induction parts with
  | nil =>
      intro path hp
      rw [find, List.mem_singleton] at hp
      rw [hp]
  | cons part rest ih =>
      intro path hp
      cases part with
      | name n =>
          simp only [find, List.mem_ite_nil_right] at hp
          exact ih (path.append [n]) hp.2
      | wild pattern =>
          simp only [find, List.mem_flatMap, List.mem_ite_nil_right] at hp
          obtain ⟨n, -, -, hp⟩ := hp
          exact ih (path.append [n]) hp
      | anyDepth =>
          simp only [find, List.mem_flatMap] at hp
          obtain ⟨q, hq, hp⟩ := hp
          unfold directoriesAt at hq
          split at hq
          · obtain ⟨names, -, rfl⟩ := List.mem_map.mp hq
            exact ih (path.append (names.map FileName.text)) hp
          · cases hq

theorem root_of_mem_pathsMatching {glob : Glob} (h : p ∈ pathsMatching fs root glob) :
    p.root = root.root := by
  unfold pathsMatching at h
  split_ifs at h
  · exact root_of_mem_find root h
  · cases h

/-- What a glob finds does not depend on the order in which the entries are listed. -/
theorem mem_find_perm (hperm : fs'.entries.Perm fs.entries) (hworking : fs'.working = fs.working)
    {directories : Bool} {parts : List GlobPart} :
    ∀ path : Path, p ∈ find fs' directories parts path ↔ p ∈ find fs directories parts path := by
  -- Lists of names and directories may come in another order, so only members can be compared.
  have hget := FileSystem.get?_perm hperm
  have hfits : ∀ q, fs'.present q = fs.present q ∧ fs'.isDirectory q = fs.isDirectory q :=
    fun q => ⟨FileSystem.present_congr hget hworking q,
      FileSystem.isDirectory_congr hget hworking q⟩
  induction parts with
  | nil => exact fun path => Iff.rfl
  | cons part rest ih =>
      intro path
      cases part with
      | name n => simp only [find, List.mem_ite_nil_right, hfits, ih]
      | wild pattern =>
          have hnames : ∀ n, n ∈ namesAt fs' path ↔ n ∈ namesAt fs path := by
            intro n
            unfold namesAt
            rw [FileSystem.locate_congr hget hworking]
            split
            · simp only [List.mem_map, FileSystem.mem_namesIn_iff, hperm.mem_iff]
            · exact Iff.rfl
          simp only [find, List.mem_flatMap, List.mem_filter, List.mem_ite_nil_right, hfits, ih,
            hnames]
      | anyDepth =>
          have hdirs : ∀ q, q ∈ directoriesAt fs' path ↔ q ∈ directoriesAt fs path := by
            intro q
            unfold directoriesAt
            rw [FileSystem.locate_congr hget hworking]
            split
            · simp only [List.mem_map, FileSystem.mem_directoriesBelow_iff, hperm.mem_iff]
            · exact Iff.rfl
          simp only [find, List.mem_flatMap, ih, hdirs]

/-! ### Selected files -/

/-- A regular file that one of the patterns yields and no exclusion describes. -/
structure Selects (fs : FileSystem) (root : Path) (patterns exclude : List Text) (p : Path) :
    Prop where
  isFile : fs.isFile p = true
  yielded : ∃ pattern ∈ patterns, ∃ glob, Glob.ofText pattern = .ok glob ∧
    p ∈ pathsMatching fs root glob
  included : ∀ pattern ∈ exclude, Wildcard.describes pattern p.toText = false

theorem Selects.of_subset {patterns more exclude : List Text}
    (h : Selects fs root patterns exclude p) (hsub : patterns ⊆ more) :
    Selects fs root more exclude p := by
  obtain ⟨pattern, hpattern, hyield⟩ := h.yielded
  exact ⟨h.isFile, ⟨pattern, hsub hpattern, hyield⟩, h.included⟩

theorem isExcluded_texts (t : Text) (exclude : List Text) :
    isExcluded t (exclude.map .text) = .ok (exclude.any (Wildcard.describes · t)) := by
  induction exclude with
  | nil => rfl
  | cons pattern rest ih =>
      rw [List.map_cons, isExcluded, ih, List.any_cons]
      cases Wildcard.describes pattern t with
      | true => rfl
      | false => rfl

theorem keepIncluded_texts (exclude : List Text) (paths : List Path) :
    keepIncluded (exclude.map .text) paths =
      .ok (paths.filter fun p => !exclude.any (Wildcard.describes · p.toText)) := by
  induction paths with
  | nil => rfl
  | cons p rest ih =>
      rw [keepIncluded, isExcluded_texts, ok_bind, ih, ok_bind, List.filter_cons]
      cases exclude.any (Wildcard.describes · p.toText) with
      | true => rfl
      | false => rfl

/-- What one pattern selects. -/
theorem exists_filesOf {exclude : List Text} {pattern : Text} {glob : Glob}
    (hglob : Glob.ofText pattern = .ok glob) : ∃ paths,
      filesOf fs root (exclude.map .text) (.text pattern) = .ok paths ∧
        ∀ p, p ∈ paths ↔ Selects fs root [pattern] exclude p := by
  have hvalue : Glob.ofValue (.text pattern) = .ok glob := hglob
  refine ⟨_, bind_eq_ok_iff.mpr ⟨glob, mapError_eq_ok_iff.mpr hvalue, keepIncluded_texts _ _⟩, ?_⟩
  intro p
  simp only [List.mem_filter, Bool.not_eq_true', List.any_eq_false, Bool.not_eq_true]
  constructor
  · rintro ⟨⟨hp, hfile⟩, hout⟩
    exact ⟨hfile, ⟨pattern, List.mem_singleton_self _, glob, hglob, hp⟩, hout⟩
  · rintro ⟨hfile, ⟨other, hother, glob', hglob', hp⟩, hout⟩
    rw [List.mem_singleton.mp hother, hglob] at hglob'
    cases hglob'
    exact ⟨⟨hp, hfile⟩, hout⟩

/-- With patterns that can be read discovery gives a strictly increasing list of exactly the
selected files. -/
theorem exists_discovered (fs : FileSystem) (root : Path) {patterns : List Text}
    (h : ∀ pattern ∈ patterns, ∃ glob, Glob.ofText pattern = .ok glob) (exclude : List Text) :
    ∃ paths, (discover fs root ⟨patterns.map .text, exclude.map .text⟩).result = .ok paths ∧
      paths.Pairwise (fun p q => ranks p.parts < ranks q.parts) ∧
      ∀ p, p ∈ paths ↔ Selects fs root patterns exclude p := by
  have hfiles : ∀ pattern ∈ patterns, ∃ paths,
      filesOf fs root (exclude.map .text) (.text pattern) = .ok paths ∧
        ∀ p, p ∈ paths ↔ Selects fs root [pattern] exclude p := by
    intro pattern hpattern
    obtain ⟨glob, hglob⟩ := h pattern hpattern
    exact exists_filesOf hglob
  obtain ⟨found, hfound⟩ : ∃ found,
      (patterns.map Value.text).mapM (filesOf fs root (exclude.map .text)) = .ok found := by
    rw [exists_mapM_eq_ok_iff, List.forall_mem_map]
    intro pattern hpattern
    obtain ⟨paths, hpaths, -⟩ := hfiles pattern hpattern
    exact ⟨paths, hpaths⟩
  have hmem : ∀ p, p ∈ found.flatten ↔ Selects fs root patterns exclude p := by
    intro p
    rw [List.mem_flatten]
    constructor
    · rintro ⟨paths, hpaths, hp⟩
      obtain ⟨v, hv, hfile⟩ := exists_of_mem_mapM hfound hpaths
      obtain ⟨pattern, hpattern, rfl⟩ := List.mem_map.mp hv
      obtain ⟨paths', hpaths', hselects⟩ := hfiles pattern hpattern
      rw [hfile] at hpaths'
      cases hpaths'
      exact ((hselects p).mp hp).of_subset (by simpa using hpattern)
    · rintro ⟨hfile, ⟨pattern, hpattern, hyield⟩, hout⟩
      obtain ⟨paths, hpaths, hselects⟩ := hfiles pattern hpattern
      refine ⟨paths, mem_of_mapM hfound (List.mem_map_of_mem hpattern) hpaths, ?_⟩
      exact (hselects p).mpr ⟨hfile, ⟨pattern, List.mem_singleton_self _, hyield⟩, hout⟩
  have hroot : ∀ q ∈ found.flatten, q.root = root.root := by
    intro q hq
    obtain ⟨pattern, -, glob, -, hq⟩ := ((hmem q).mp hq).yielded
    exact root_of_mem_pathsMatching hq
  refine ⟨sortPaths found.flatten, ?_, sortPaths_pairwise _, fun p => ?_⟩
  · rw [result_discover]
    exact bind_eq_ok_iff.mpr ⟨found, hfound, rfl⟩
  · rw [mem_sortPaths_iff hroot, hmem]

/-- A strictly increasing list of the selected files is the one that discovery gives. -/
theorem result_discover_of_selects {patterns exclude : List Text} {paths : List Path}
    (h : ∀ pattern ∈ patterns, ∃ glob, Glob.ofText pattern = .ok glob)
    (hpaths : paths.Pairwise fun p q => ranks p.parts < ranks q.parts)
    (hselects : ∀ p, Selects fs root patterns exclude p ↔ p ∈ paths) :
    (discover fs root ⟨patterns.map .text, exclude.map .text⟩).result = .ok paths := by
  obtain ⟨found, hfound, hincreasing, hselected⟩ := exists_discovered fs root h exclude
  have hsame : found = paths :=
    eq_of_mem_iff hincreasing hpaths fun p => (hselected p).trans (hselects p)
  rw [hfound, hsame]

theorem Selects.congr {patterns patterns' exclude exclude' : List Text}
    (hpatterns : ∀ t, t ∈ patterns' ↔ t ∈ patterns) (hexclude : ∀ t, t ∈ exclude' ↔ t ∈ exclude) :
    Selects fs root patterns' exclude' p ↔ Selects fs root patterns exclude p := by
  constructor
  · exact fun h => ⟨h.isFile, by simpa only [hpatterns] using h.yielded,
      by simpa only [hexclude] using h.included⟩
  · exact fun h => ⟨h.isFile, by simpa only [hpatterns] using h.yielded,
      by simpa only [hexclude] using h.included⟩

theorem selects_cons_iff {patterns exclude : List Text} {pattern : Text} :
    Selects fs root patterns (pattern :: exclude) p ↔
      Selects fs root patterns exclude p ∧ Wildcard.describes pattern p.toText = false := by
  constructor
  · intro h
    obtain ⟨hout, hincluded⟩ := List.forall_mem_cons.mp h.included
    exact ⟨⟨h.isFile, h.yielded, hincluded⟩, hout⟩
  · rintro ⟨h, hout⟩
    exact ⟨h.isFile, h.yielded, List.forall_mem_cons.mpr ⟨hout, h.included⟩⟩

theorem Selects.perm (hperm : fs'.entries.Perm fs.entries) (hworking : fs'.working = fs.working)
    {patterns exclude : List Text} :
    Selects fs' root patterns exclude p ↔ Selects fs root patterns exclude p := by
  have hget := FileSystem.get?_perm hperm
  have hpaths : ∀ glob, p ∈ pathsMatching fs' root glob ↔ p ∈ pathsMatching fs root glob := by
    intro glob
    unfold pathsMatching
    simp only [FileSystem.isDirectory_congr hget hworking, List.mem_ite_nil_right,
      mem_find_perm hperm hworking]
  have hfile : fs'.isFile p = fs.isFile p := FileSystem.isFile_congr hget hworking p
  constructor
  · exact fun h => ⟨hfile ▸ h.isFile, by simpa only [hpaths] using h.yielded, h.included⟩
  · exact fun h => ⟨hfile ▸ h.isFile, by simpa only [hpaths] using h.yielded, h.included⟩

/-! ### The default patterns -/

/-- A path leads from the root through directories to a regular file of this name. -/
def FileBelow (fs : FileSystem) (root : Path) (name : FileName) (p : Path) : Prop :=
  ∃ here dirs content, fs.locate root = .ok here ∧
    (here ++ (dirs ++ [name]), .file content) ∈ fs.entries ∧
    p = root.append ((dirs ++ [name]).map FileName.text)

theorem append_append_names (root : Path) (dirs : List FileName) (name : FileName) :
    (root.append (dirs.map FileName.text)).append [name.text] =
      root.append ((dirs ++ [name]).map FileName.text) := by
  simp [Path.append]

/-- A pattern for names at any depth finds every file below the root that has such a name. -/
theorem mem_pathsMatching_anyDepth {pattern : Text} :
    fs.isFile p = true ∧ p ∈ pathsMatching fs root ⟨.anyDepth, [.wild pattern], false⟩ ↔
      ∃ name, FileBelow fs root name p ∧ Wildcard.describes pattern name.text = true := by
  constructor
  · rintro ⟨hfile, hp⟩
    simp only [pathsMatching, find, List.mem_ite_nil_right, List.mem_flatMap, List.mem_filter,
      List.mem_singleton] at hp
    obtain ⟨-, q, hq, t, ⟨hname, hdescribes⟩, -, rfl⟩ := hp
    unfold directoriesAt at hq
    split at hq
    · rename_i here hroot
      obtain ⟨dirs, hdirs, rfl⟩ := List.mem_map.mp hq
      rw [namesAt, FileSystem.locate_directory hroot hdirs] at hname
      obtain ⟨name, hin, rfl⟩ : ∃ name ∈ fs.namesIn (here ++ dirs), name.text = t :=
        List.mem_map.mp hname
      obtain ⟨entry, hmem⟩ := FileSystem.mem_namesIn_iff.mp hin
      rw [List.append_assoc] at hmem
      rw [append_append_names] at hfile ⊢
      have hentry := FileSystem.entry?_of_mem hroot (by simp) hmem
      rw [FileSystem.isFile, hentry] at hfile
      cases entry with
      | file content => exact ⟨name, ⟨here, dirs, content, hroot, hmem, rfl⟩, hdescribes⟩
      | directory => cases hfile
    · cases hq
  · rintro ⟨name, ⟨here, dirs, content, hroot, hmem, rfl⟩, hdescribes⟩
    have hentry := FileSystem.entry?_of_mem hroot (by simp) hmem
    have hfile : fs.isFile (root.append ((dirs ++ [name]).map FileName.text)) = true := by
      rw [FileSystem.isFile, hentry]
    have hdirectory : fs.isDirectory root = true := by
      simp [FileSystem.isDirectory, FileSystem.entry?, hroot,
        FileSystem.get?_of_append (by simp) hmem]
    rw [← List.append_assoc] at hmem
    have hdirs := FileSystem.mem_directoriesBelow hmem
    refine ⟨hfile, ?_⟩
    rw [pathsMatching, if_pos hdirectory, ← append_append_names]
    simp only [find, List.mem_flatMap]
    refine ⟨root.append (dirs.map FileName.text), ?_, name.text,
      List.mem_filter.mpr ⟨?_, hdescribes⟩, ?_⟩
    · rw [directoriesAt, hroot]
      exact List.mem_map.mpr ⟨dirs, hdirs, rfl⟩
    · rw [namesAt, FileSystem.locate_directory hroot hdirs]
      exact List.mem_map_of_mem (FileSystem.mem_namesIn_iff.mpr ⟨_, hmem⟩)
    · have hpresent :
          fs.present ((root.append (dirs.map FileName.text)).append [name.text]) = true := by
        rw [append_append_names, FileSystem.present, hentry]
        rfl
      simp [hpresent]

/-- The default patterns select the files below the root whose names end in the way of a source
file. -/
theorem selects_default_iff {exclude : List Text} :
    Selects fs root defaultPatterns exclude p ↔
      (∃ name, FileBelow fs root name p ∧
        (Text.ofString ".ts" <:+ name.text ∨ Text.ofString ".tsx" <:+ name.text)) ∧
      ∀ pattern ∈ exclude, Wildcard.describes pattern p.toText = false := by
  have hts : Glob.ofText "**/*.ts" = .ok ⟨.anyDepth, [.wild "*.ts"], false⟩ := rfl
  have htsx : Glob.ofText "**/*.tsx" = .ok ⟨.anyDepth, [.wild "*.tsx"], false⟩ := rfl
  have hstar : Wildcard.read "*.ts" = .many :: (Text.ofString ".ts").map .literal := rfl
  have hstarx : Wildcard.read "*.tsx" = .many :: (Text.ofString ".tsx").map .literal := rfl
  have hyield : (fs.isFile p = true ∧ ∃ pattern ∈ defaultPatterns, ∃ glob,
      Glob.ofText pattern = .ok glob ∧ p ∈ pathsMatching fs root glob) ↔
      ∃ name, FileBelow fs root name p ∧
        (Text.ofString ".ts" <:+ name.text ∨ Text.ofString ".tsx" <:+ name.text) := by
    simp only [defaultPatterns, List.mem_cons, List.not_mem_nil, or_false, exists_eq_or_imp,
      exists_eq_left, hts, htsx, Except.ok.injEq, exists_eq_left', and_or_left,
      mem_pathsMatching_anyDepth, exists_or, Wildcard.describes_star hstar,
      Wildcard.describes_star hstarx]
  constructor
  · exact fun h => ⟨hyield.mp ⟨h.isFile, h.yielded⟩, h.included⟩
  · rintro ⟨hbelow, hout⟩
    obtain ⟨hfile, hyielded⟩ := hyield.mpr hbelow
    exact ⟨hfile, hyielded, hout⟩

/-! ### The canonical list -/

/-- The list of source files is told by the files and by what is selected. -/
structure Canonical (fs : FileSystem) (root : Path) (patterns exclude : List Text)
    (paths : List Path) : Prop where
  /-- The components are strictly increasing. -/
  increasing : paths.Pairwise fun p q => ranks p.parts < ranks q.parts
  /-- No file is listed twice. -/
  distinct : (paths.map Path.toText).Nodup
  /-- The members are the selected files. -/
  selected : ∀ p, p ∈ paths ↔ Selects fs root patterns exclude p
  /-- Order and repetition of patterns and exclusions do not matter. -/
  setwise : ∀ patterns' exclude' : List Text, (∀ t, t ∈ patterns' ↔ t ∈ patterns) →
    (∀ t, t ∈ exclude' ↔ t ∈ exclude) →
    (discover fs root ⟨patterns'.map .text, exclude'.map .text⟩).result = .ok paths
  /-- The order in which the file system lists its entries does not matter. -/
  relisted : ∀ fs' : FileSystem, fs'.entries.Perm fs.entries → fs'.working = fs.working →
    (discover fs' root ⟨patterns.map .text, exclude.map .text⟩).result = .ok paths
  /-- One more exclusion takes out what it describes. -/
  fewer : ∀ pattern : Text,
    (discover fs root ⟨patterns.map .text, (pattern :: exclude).map .text⟩).result =
      .ok (paths.filter fun p => !Wildcard.describes pattern p.toText)
  /-- The default patterns select by the endings of names, at any depth. -/
  default : patterns = defaultPatterns → ∀ p, p ∈ paths ↔
    (∃ name, FileBelow fs root name p ∧
      (Text.ofString ".ts" <:+ name.text ∨ Text.ofString ".tsx" <:+ name.text)) ∧
    ∀ pattern ∈ exclude, Wildcard.describes pattern p.toText = false

/-- **Discovery gives one canonical list.**  Below every source root and with all patterns that can be
read it lists exactly the selected files, each once and in the order of their components; whatever
else the list could depend on leaves it as it is. -/
theorem discovered_canonical (fs : FileSystem) (source : Text) {patterns : List Text}
    (hpatterns : ∀ pattern ∈ patterns, ∃ glob, Glob.ofText pattern = .ok glob)
    (exclude : List Text) : ∃ paths,
      (discover fs (Path.ofText source) ⟨patterns.map .text, exclude.map .text⟩).result =
        .ok paths ∧
      Canonical fs (Path.ofText source) patterns exclude paths := by
  obtain ⟨paths, hpaths, hincreasing, hselected⟩ :=
    exists_discovered fs (Path.ofText source) hpatterns exclude
  refine ⟨paths, hpaths, hincreasing, ?_, hselected, ?_, ?_, ?_, ?_⟩
  · rw [result_discover] at hpaths
    have hnormal := normal_of_sourcePaths (Path.normal_ofText source) hpaths
    refine (nodup_of_sourcePaths hpaths).map_on ?_
    exact fun p hp q hq e => Path.eq_of_toText_eq (hnormal p hp) (hnormal q hq) e
  · intro patterns' exclude' hp he
    have hpatterns' : ∀ pattern ∈ patterns', ∃ glob, Glob.ofText pattern = .ok glob :=
      fun pattern hpattern => hpatterns pattern ((hp pattern).mp hpattern)
    refine result_discover_of_selects hpatterns' hincreasing fun p => ?_
    rw [hselected, Selects.congr hp he]
  · intro fs' hperm hworking
    refine result_discover_of_selects hpatterns hincreasing fun p => ?_
    rw [hselected, Selects.perm hperm hworking]
  · intro pattern
    refine result_discover_of_selects hpatterns (hincreasing.filter _) fun p => ?_
    rw [List.mem_filter, hselected, selects_cons_iff, Bool.not_eq_true']
  · rintro rfl p
    rw [hselected, selects_default_iff]

/-- Files that several patterns find, one of them under a directory whose name starts its own
name, one beside the source root, and a directory with the name of a source file. -/
def overlappingFinds : FileSystem :=
  (FileSystem.ofEntries
    [("/work/src/a.ts", .file []), ("/work/src/a/b.ts", .file []), ("/work/src/a/c.tsx", .file []),
      ("/work/src/a/d.json", .file []), ("/work/src/e.ts", .directory),
      ("/work/top.ts", .file [])]).enter (Path.ofText "/work/src")

theorem discovered_canonical_overlapping :
    let patterns : List Text := ["**/*.tsx", "a/*", "**/*.ts"]
    let inside : List Text := ["/work/src/a/b.ts", "/work/src/a/d.json", "/work/src/a.ts"]
    let beside : List Text := ["../top.ts"]
    (∀ pattern ∈ patterns, ∃ glob, Glob.ofText pattern = .ok glob) ∧
    (∃ paths, (discover overlappingFinds (Path.ofText "/work/src")
        ⟨patterns.map .text, [Text.ofString "*/c.*"].map .text⟩).result = .ok paths ∧
      paths.map Path.toText = inside ∧
      Canonical overlappingFinds (Path.ofText "/work/src") patterns ["*/c.*"] paths) ∧
    (∃ glob, Glob.ofText "../*.ts" = .ok glob) ∧
    ∃ paths, (discover overlappingFinds (Path.ofText ".")
        ⟨[Text.ofString "../*.ts"].map .text, [].map .text⟩).result = .ok paths ∧
      paths.map Path.toText = beside ∧
      Canonical overlappingFinds (Path.ofText ".") ["../*.ts"] [] paths := by
  intro patterns inside beside
  have hpatterns : ∀ pattern ∈ patterns, ∃ glob, Glob.ofText pattern = .ok glob := by
    simp only [patterns, List.forall_mem_cons]
    exact ⟨⟨_, rfl⟩, ⟨_, rfl⟩, ⟨_, rfl⟩, by simp⟩
  have hglob : ∃ glob, Glob.ofText "../*.ts" = .ok glob := ⟨_, rfl⟩
  have hinside : (discover overlappingFinds (Path.ofText "/work/src")
      ⟨patterns.map .text, [Text.ofString "*/c.*"].map .text⟩).result.map (List.map Path.toText) =
      .ok inside := by
    decide +kernel
  have hbeside : (discover overlappingFinds (Path.ofText ".")
      ⟨[Text.ofString "../*.ts"].map .text, [].map .text⟩).result.map (List.map Path.toText) =
      .ok beside := by
    decide +kernel
  obtain ⟨paths, hpaths, hcanonical⟩ :=
    discovered_canonical overlappingFinds "/work/src" hpatterns ["*/c.*"]
  obtain ⟨others, hothers, hcanonical'⟩ := discovered_canonical overlappingFinds "."
    (List.forall_mem_singleton.mpr hglob) []
  rw [hpaths] at hinside
  rw [hothers] at hbeside
  exact ⟨hpatterns, ⟨paths, hpaths, Except.ok.inj hinside, hcanonical⟩, hglob, others, hothers,
    Except.ok.inj hbeside, hcanonical'⟩

end Project

end PluginManifest
