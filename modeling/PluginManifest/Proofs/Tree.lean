import PluginManifest.Proofs.FileSystem
import Mathlib.Data.List.Induction

/-! # Directory trees

A file system is told by its entries and its working directory: what is found at a location does not
depend on the order in which the entries are listed (`get?_perm`), and so neither does what a path leads
to (`entry?_congr`).  What a look at a directory gives are the entries behind its location
(`mem_namesIn_iff`, `mem_directoriesBelow_iff`), and since every entry stands in a directory, the names
behind a directory lead to its entries (`locate_of_mem`). -/

namespace PluginManifest.FileSystem

variable {fs fs' : FileSystem}

/-! ### The order of the entries -/

/-- What is found at a location does not depend on the order of the entries. -/
theorem get?_perm (hperm : fs'.entries.Perm fs.entries) (loc : Location) :
    fs'.get? loc = fs.get? loc := by
  by_cases hloc : loc = []
  · rw [hloc]
    rfl
  · apply Option.ext
    intro entry
    rw [get?_eq_some_iff hloc, get?_eq_some_iff hloc, hperm.mem_iff]

section congr

variable (h : ∀ loc, fs'.get? loc = fs.get? loc) (hworking : fs'.working = fs.working)

include h in
theorem follow_congr (here : Location) (way : List Step) :
    fs'.follow here way = fs.follow here way := by
  induction way generalizing here with
  | nil => rfl
  | cons step way ih =>
      rw [follow, follow, h here]
      simp only [ih]

include hworking in
theorem start_congr (root : PathRoot) : fs'.start root = fs.start root := by
  cases root with
  | relative => exact hworking
  | absolute => rfl
  | double => rfl

include h hworking

theorem locate_congr (path : Path) : fs'.locate path = fs.locate path := by
  unfold locate
  rw [start_congr hworking]
  simp only [follow_congr h]

/-- What a path leads to is told by what is found at the locations. -/
theorem entry?_congr (path : Path) : fs'.entry? path = fs.entry? path := by
  unfold entry?
  rw [locate_congr h hworking]
  simp only [h]

theorem isFile_congr (path : Path) : fs'.isFile path = fs.isFile path := by
  unfold isFile
  rw [entry?_congr h hworking]

theorem isDirectory_congr (path : Path) : fs'.isDirectory path = fs.isDirectory path := by
  unfold isDirectory
  rw [entry?_congr h hworking]

theorem present_congr (path : Path) : fs'.present path = fs.present path := by
  unfold present
  rw [entry?_congr h hworking]

end congr

/-! ### Looks at a directory -/

theorem nameIn?_eq_some_iff {dir loc : Location} {name : FileName} :
    nameIn? dir loc = some name ↔ loc = dir ++ [name] := by
  unfold nameIn?
  cases hlast : loc.getLast? with
  | none =>
      rw [List.getLast?_eq_none_iff] at hlast
      simp [hlast]
  | some last =>
      obtain ⟨init, rfl⟩ := List.getLast?_eq_some_iff.mp hlast
      rw [List.dropLast_concat, Option.ite_none_right_eq_some, Option.some.injEq]
      constructor
      · rintro ⟨rfl, rfl⟩
        rfl
      · intro e
        exact ⟨List.append_inj_left' e rfl, List.singleton_inj.mp (List.append_inj_right' e rfl)⟩

/-- The names in a directory are those of the entries right behind its location. -/
theorem mem_namesIn_iff {dir : Location} {name : FileName} :
    name ∈ fs.namesIn dir ↔ ∃ entry, (dir ++ [name], entry) ∈ fs.entries := by
  unfold namesIn
  simp only [List.mem_filterMap, nameIn?_eq_some_iff, Prod.exists]
  constructor
  · rintro ⟨loc, entry, hmem, rfl⟩
    exact ⟨entry, hmem⟩
  · rintro ⟨entry, hmem⟩
    exact ⟨_, entry, hmem, rfl⟩

theorem below?_eq_some_iff : ∀ {dir loc : Location} {names : List FileName},
    below? dir loc = some names ↔ loc = dir ++ names
  | [], loc, names => by simp [below?]
  | a :: dir, [], names => by simp [below?]
  | a :: dir, b :: loc, names => by
      unfold below?
      by_cases hab : a = b
      · rw [if_pos hab, below?_eq_some_iff]
        simp [hab]
      · rw [if_neg hab]
        simp [Ne.symm hab]

/-- The directories below a location are itself and those behind it. -/
theorem mem_directoriesBelow_iff {dir : Location} {names : List FileName} :
    names ∈ fs.directoriesBelow dir ↔
      names = [] ∨ names ≠ [] ∧ (dir ++ names, .directory) ∈ fs.entries := by
  unfold directoriesBelow
  rw [List.mem_cons, List.mem_filterMap]
  refine or_congr_right ⟨?_, ?_⟩
  · rintro ⟨⟨loc, entry⟩, hmem, hnames⟩
    dsimp only at hnames
    split at hnames
    · rename_i name rest hbelow
      cases hnames
      rw [← below?_eq_some_iff.mp hbelow]
      exact ⟨List.cons_ne_nil _ _, hmem⟩
    · cases hnames
  · rintro ⟨hne, hmem⟩
    obtain ⟨name, rest, rfl⟩ := List.exists_cons_of_ne_nil hne
    have hbelow : below? dir (dir ++ name :: rest) = some (name :: rest) :=
      below?_eq_some_iff.mpr rfl
    exact ⟨_, hmem, by simp only [hbelow]⟩

/-! ### Paths below a directory -/

/-- All that an entry stands behind are directories. -/
theorem get?_of_append {loc : Location} :
    ∀ {names : List FileName} {entry : Entry}, names ≠ [] → (loc ++ names, entry) ∈ fs.entries →
      fs.get? loc = some .directory := by
  intro names
  induction names using List.reverseRecOn with
  | nil => exact fun hne => absurd rfl hne
  | append_singleton names name ih =>
      intro entry _ hmem
      -- What stands before the last name is a directory, and an entry again unless it is `loc`.
      have hparent : fs.get? (loc ++ names) = some .directory := by
        have hdrop := (fs.placed _ hmem).2
        rwa [← List.append_assoc, List.dropLast_concat] at hdrop
      by_cases hnames : names = []
      · rwa [hnames, List.append_nil] at hparent
      · have hne : loc ++ names ≠ [] := by simp [hnames]
        exact ih hnames ((get?_eq_some_iff hne).mp hparent)

/-- The names behind a location lead to the entry behind it. -/
theorem follow_of_mem {entry : Entry} :
    ∀ {names : List FileName} {here : Location}, (here ++ names, entry) ∈ fs.entries →
      fs.follow here (names.map .into) = .ok (here ++ names) := by
  intro names
  induction names with
  | nil =>
      intro here _
      rw [List.append_nil]
      rfl
  | cons name names ih =>
      intro here hmem
      have hhere : fs.get? here = some .directory := get?_of_append (List.cons_ne_nil name names) hmem
      rw [List.append_cons] at hmem ⊢
      rw [List.map_cons, follow, hhere]
      exact ih hmem

section below

variable {root : Path} {here : Location} (hroot : fs.locate root = .ok here)
include hroot

/-- Below a directory a path leads along the names that follow. -/
theorem locate_of_mem {names : List FileName} {entry : Entry}
    (hmem : (here ++ names, entry) ∈ fs.entries) :
    fs.locate (root.append (names.map FileName.text)) = .ok (here ++ names) := by
  rw [locate_append hroot]
  exact follow_of_mem hmem

/-- A path below a directory leads to the entry behind it. -/
theorem entry?_of_mem {names : List FileName} (hne : names ≠ []) {entry : Entry}
    (hmem : (here ++ names, entry) ∈ fs.entries) :
    fs.entry? (root.append (names.map FileName.text)) = some entry := by
  unfold entry?
  rw [locate_of_mem hroot hmem]
  exact (get?_eq_some_iff (by simp [hne])).mpr hmem

/-- The directories that are found below a directory are where their names lead. -/
theorem locate_directory {names : List FileName} (hnames : names ∈ fs.directoriesBelow here) :
    fs.locate (root.append (names.map FileName.text)) = .ok (here ++ names) := by
  rcases mem_directoriesBelow_iff.mp hnames with rfl | ⟨-, hmem⟩
  · simpa [Path.append] using hroot
  · exact locate_of_mem hroot hmem

end below

/-- The directory of an entry below a location is found below it. -/
theorem mem_directoriesBelow {here : Location} {dirs : List FileName} {name : FileName}
    {entry : Entry} (hmem : (here ++ dirs ++ [name], entry) ∈ fs.entries) :
    dirs ∈ fs.directoriesBelow here := by
  rw [mem_directoriesBelow_iff]
  by_cases hnil : dirs = []
  · exact .inl hnil
  · have hparent := get?_of_append (List.cons_ne_nil name []) hmem
    exact .inr ⟨hnil, (get?_eq_some_iff (by simp [hnil])).mp hparent⟩

end PluginManifest.FileSystem
