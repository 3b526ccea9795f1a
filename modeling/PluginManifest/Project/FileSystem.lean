import PluginManifest.Path.Basic
import PluginManifest.Path.FileName

/-! # Files and directories

A `FileSystem` holds files and directories, each under its location: the names on the way to it from
the root directory.  One of the directories is the working directory, at which relative paths start.  A
path is followed name by name, and `..` leads back to the directory before; the same location can
therefore have many paths.

Each location holds one entry, and every entry stands in a directory.  `put` keeps both: an entry is
only put into a directory that is there, and no file takes the place of a directory.

Operations that change files give back the files also when they fail, because a failure does not
undo what was done before it. -/

namespace PluginManifest

/-- Why an operation on a file fails. -/
inductive FileError
  /-- There is nothing under the path. -/
  | notFound
  /-- There is something under the path already. -/
  | exists
  /-- The path leads to a directory. -/
  | isDirectory
  /-- The path goes on behind a file. -/
  | notDirectory
  /-- A name holds a character that names cannot hold. -/
  | badName
  /-- A name cannot be encoded. -/
  | unencodableName
deriving DecidableEq, Repr

/-- The names on the way from the root directory to an entry. -/
abbrev Location := List FileName

/-- What is found at a location. -/
inductive Entry
  /-- A regular file and its bytes. -/
  | file (content : Bytes)
  /-- A directory. -/
  | directory
deriving DecidableEq

/-! ### Entries -/

/-- Entries under their locations. -/
abbrev Entries := List (Location × Entry)

namespace Entries

/-- What is found at a location; the root directory is always there. -/
def get? (entries : Entries) : Location → Option Entry
  | [] => some .directory
  | loc => entries.lookup loc

/-- The entries with one more, in place of an old one at its location. -/
def put (loc : Location) (entry : Entry) : Entries → Entries
  | [] => [(loc, entry)]
  | (l, e) :: rest => if l = loc then (l, entry) :: rest else (l, e) :: put loc entry rest

variable {loc l : Location} {entry : Entry} {entries : Entries}

theorem lookup_cons_eq (k : Location) (entry : Entry) (entries : Entries) (l : Location) :
    ((k, entry) :: entries).lookup l = if l = k then some entry else entries.lookup l := by
  by_cases h : l = k
  · subst h
    rw [List.lookup_cons_self, if_pos rfl]
  · rw [List.lookup_cons, beq_false_of_ne h, if_neg h]

theorem lookup_put (loc : Location) (entry : Entry) (entries : Entries) (l : Location) :
    (put loc entry entries).lookup l = if l = loc then some entry else entries.lookup l := by
  induction entries with
  | nil => exact lookup_cons_eq loc entry [] l
  | cons first rest ih =>
      obtain ⟨k, old⟩ := first
      unfold put
      by_cases hk : k = loc
      · subst hk
        rw [if_pos rfl, lookup_cons_eq, lookup_cons_eq]
        by_cases h : l = k
        · rw [if_pos h, if_pos h]
        · rw [if_neg h, if_neg h, if_neg h]
      · rw [if_neg hk, lookup_cons_eq, lookup_cons_eq, ih]
        by_cases h : l = k
        · rw [if_pos h, if_pos h, if_neg (by rwa [h])]
        · rw [if_neg h, if_neg h]

/-- An entry that is put at a location is found there, and nothing else changes. -/
theorem get?_put (hloc : loc ≠ []) (entry : Entry) (entries : Entries) (l : Location) :
    (put loc entry entries).get? l = if l = loc then some entry else entries.get? l := by
  cases l with
  | nil => rw [if_neg hloc.symm]; rfl
  | cons name names => exact lookup_put loc entry entries (name :: names)

theorem mem_put {e : Location × Entry} (h : e ∈ put loc entry entries) :
    e.1 = loc ∨ e ∈ entries := by
  induction entries with
  | nil =>
      rw [put, List.mem_singleton] at h
      exact .inl (by rw [h])
  | cons first rest ih =>
      obtain ⟨l, old⟩ := first
      unfold put at h
      by_cases hl : l = loc
      · rw [if_pos hl] at h
        rcases List.mem_cons.mp h with rfl | h
        · exact .inl hl
        · exact .inr (List.mem_cons_of_mem _ h)
      · rw [if_neg hl] at h
        rcases List.mem_cons.mp h with rfl | h
        · exact .inr List.mem_cons_self
        · exact (ih h).imp id (List.mem_cons_of_mem _)

/-- An entry takes the place of the old one at its location. -/
theorem nodup_put (h : (entries.map Prod.fst).Nodup) :
    ((put loc entry entries).map Prod.fst).Nodup := by
  induction entries with
  | nil => exact List.nodup_cons.mpr ⟨List.not_mem_nil, List.nodup_nil⟩
  | cons first rest ih =>
      obtain ⟨l, old⟩ := first
      obtain ⟨hnew, hrest⟩ := List.nodup_cons.mp h
      unfold put
      by_cases hl : l = loc
      · rw [if_pos hl]
        exact List.nodup_cons.mpr ⟨hnew, hrest⟩
      · rw [if_neg hl]
        refine List.nodup_cons.mpr ⟨?_, ih hrest⟩
        intro hmem
        obtain ⟨e, he, heq⟩ := List.mem_map.mp hmem
        rcases mem_put he with hloc | hold
        · exact hl (heq.symm.trans hloc)
        · exact hnew (List.mem_map.mpr ⟨e, hold, heq⟩)

end Entries

/-- Files and directories, and the directory at which relative paths start. -/
structure FileSystem where
  /-- The entries under their locations. -/
  entries : Entries
  /-- The location of the working directory. -/
  working : Location
  /-- A location holds one entry. -/
  distinct : (entries.map Prod.fst).Nodup
  /-- An entry stands in a directory. -/
  placed : ∀ e ∈ entries, e.1 ≠ [] ∧ entries.get? e.1.dropLast = some .directory
  /-- The working directory is there. -/
  working_there : entries.get? working = some .directory

namespace FileSystem

/-- The root directory alone. -/
def root : FileSystem where
  entries := []
  working := []
  distinct := List.nodup_nil
  placed := fun _ h => absurd h List.not_mem_nil
  working_there := rfl

/-- What is found at a location. -/
def get? (fs : FileSystem) (loc : Location) : Option Entry := fs.entries.get? loc

/-- The entry can be put at the location: into a directory, and only a directory in place of a
directory. -/
structure Admits (fs : FileSystem) (loc : Location) (entry : Entry) : Prop where
  /-- The root directory stays as it is. -/
  named : loc ≠ []
  /-- There is a directory for the entry. -/
  parent : fs.get? loc.dropLast = some .directory
  /-- A directory stays a directory. -/
  kept : fs.get? loc = some .directory → entry = .directory

instance (fs : FileSystem) (loc : Location) (entry : Entry) : Decidable (fs.Admits loc entry) :=
  decidable_of_iff (loc ≠ [] ∧ fs.get? loc.dropLast = some .directory ∧
      (fs.get? loc = some .directory → entry = .directory))
    ⟨fun h => ⟨h.1, h.2.1, h.2.2⟩, fun h => ⟨h.named, h.parent, h.kept⟩⟩

section put

variable {fs : FileSystem} {loc : Location} {entry : Entry}

/-- A directory is still there when an entry is put. -/
theorem Admits.get?_directory (h : fs.Admits loc entry) {l : Location}
    (hl : fs.get? l = some .directory) :
    (fs.entries.put loc entry).get? l = some .directory := by
  rw [Entries.get?_put h.named]
  by_cases heq : l = loc
  · rw [if_pos heq, h.kept (heq ▸ hl)]
  · rw [if_neg heq]
    exact hl

theorem Admits.placed (h : fs.Admits loc entry) : ∀ e ∈ fs.entries.put loc entry,
    e.1 ≠ [] ∧ (fs.entries.put loc entry).get? e.1.dropLast = some .directory := by
  intro e he
  rcases Entries.mem_put he with hloc | hold
  · rw [hloc]
    exact ⟨h.named, h.get?_directory h.parent⟩
  · obtain ⟨hne, hparent⟩ := fs.placed e hold
    exact ⟨hne, h.get?_directory hparent⟩

end put

/-- The files with an entry at a location, if it can be put there. -/
def put (fs : FileSystem) (loc : Location) (entry : Entry) : FileSystem :=
  if h : fs.Admits loc entry then
    { entries := fs.entries.put loc entry
      working := fs.working
      distinct := Entries.nodup_put fs.distinct
      placed := h.placed
      working_there := h.get?_directory fs.working_there }
  else fs

/-! ### Paths -/

/-- One step on the way of a path. -/
inductive Step
  /-- Back to the directory before. -/
  | back
  /-- To the entry of this name. -/
  | into (name : FileName)

/-- The step that the bytes of a component tell. -/
def Step.ofBytes? (bytes : Bytes) : Option Step :=
  if bytes = [0x2E, 0x2E] then some .back
  else if h : FileName.Allowed bytes then some (.into ⟨bytes, h⟩)
  else none

/-- The steps of a path.  All its components have to be encoded before their bytes are looked at. -/
def steps (path : Path) : Except FileError (List Step) :=
  match path.parts.mapM FileName.encode? with
  | none => .error .unencodableName
  | some names =>
    match names.mapM Step.ofBytes? with
    | none => .error .badName
    | some steps => .ok steps

/-- Where a step leads from a directory; the root directory is its own directory before. -/
def Step.from (here : Location) : Step → Location
  | .back => here.dropLast
  | .into name => here ++ [name]

/-- The location that steps lead to from a directory.  All places on the way have to be directories. -/
def follow (fs : FileSystem) : Location → List Step → Except FileError Location
  | here, [] => .ok here
  | here, step :: rest =>
    match fs.get? here with
    | none => .error .notFound
    | some (.file _) => .error .notDirectory
    | some .directory => fs.follow (step.from here) rest

/-- The directory at which a path starts. -/
def start (fs : FileSystem) : PathRoot → Location
  | .relative => fs.working
  | .absolute | .double => []

/-- The location of a path. -/
def locate (fs : FileSystem) (path : Path) : Except FileError Location := do
  fs.follow (fs.start path.root) (← steps path)

/-- What a path leads to. -/
def entry? (fs : FileSystem) (path : Path) : Option Entry :=
  match fs.locate path with
  | .ok loc => fs.get? loc
  | .error _ => none

/-- A path leads to something. -/
def present (fs : FileSystem) (path : Path) : Bool := (fs.entry? path).isSome

/-- A path leads to a regular file. -/
def isFile (fs : FileSystem) (path : Path) : Bool :=
  match fs.entry? path with
  | some (.file _) => true
  | _ => false

/-- A path leads to a directory. -/
def isDirectory (fs : FileSystem) (path : Path) : Bool := fs.entry? path = some .directory

/-- The bytes of the file that a path leads to. -/
def read (fs : FileSystem) (path : Path) : Except FileError Bytes := do
  let loc ← fs.locate path
  match fs.get? loc with
  | some (.file content) => .ok content
  | some .directory => .error .isDirectory
  | none => .error .notFound

/-! ### Directories -/

/-- The name of an entry in the directory `dir`. -/
def nameIn? (dir loc : Location) : Option FileName :=
  match loc.getLast? with
  | some name => if loc.dropLast = dir then some name else none
  | none => none

/-- The names in a directory. -/
def namesIn (fs : FileSystem) (dir : Location) : List FileName :=
  fs.entries.filterMap fun (loc, _) => nameIn? dir loc

/-- The names on the way from `dir` to a location below it. -/
def below? : Location → Location → Option (List FileName)
  | [], loc => some loc
  | _ :: _, [] => none
  | a :: dir, b :: loc => if a = b then below? dir loc else none

/-- The ways from a directory to all directories below it, itself included. -/
def directoriesBelow (fs : FileSystem) (dir : Location) : List (List FileName) :=
  [] :: fs.entries.filterMap fun (loc, entry) =>
    match entry, below? dir loc with
    | .directory, some (name :: names) => some (name :: names)
    | _, _ => none

/-! ### Changes -/

/-- Makes a directory whose parent is there. -/
def makeDirectory (fs : FileSystem) (path : Path) : Except FileError FileSystem := do
  let loc ← fs.locate path
  match fs.get? loc with
  | some _ => .error .exists
  | none =>
    match fs.get? loc.dropLast with
    | some .directory => .ok (fs.put loc .directory)
    | some (.file _) => .error .notDirectory
    | none => .error .notFound

/-- Makes a directory, or finds it there. -/
def ensureDirectory (fs : FileSystem) (path : Path) : Except FileError FileSystem :=
  match fs.makeDirectory path with
  | .ok fs => .ok fs
  | .error .notFound => .error .notFound
  | .error e => if fs.isDirectory path then .ok fs else .error e

/-- Makes a directory and those before it that are missing.  The names come last name first. -/
def ensureNames (fs : FileSystem) (root : PathRoot) :
    List Text → FileSystem × Except FileError Unit
  | [] => (fs, .ok ())
  | name :: names =>
    let path : Path := ⟨root, (name :: names).reverse⟩
    match fs.ensureDirectory path with
    | .ok fs => (fs, .ok ())
    | .error .notFound =>
      match fs.ensureNames root names with
      | (fs, .error e) => (fs, .error e)
      | (fs, .ok ()) =>
        match fs.ensureDirectory path with
        | .ok fs => (fs, .ok ())
        | .error e => (fs, .error e)
    | .error e => (fs, .error e)

/-- Makes the directory of a path and those before it that are missing. -/
def ensureDirectories (fs : FileSystem) (path : Path) : FileSystem × Except FileError Unit :=
  fs.ensureNames path.root path.parts.reverse

/-- Opens a file for writing: afterwards it is there and empty. -/
def truncate (fs : FileSystem) (path : Path) : Except FileError (FileSystem × Location) := do
  let loc ← fs.locate path
  match fs.get? loc with
  | some .directory => .error .isDirectory
  | some (.file _) => .ok (fs.put loc (.file []), loc)
  | none =>
    match fs.get? loc.dropLast with
    | some .directory => .ok (fs.put loc (.file []), loc)
    | some (.file _) => .error .notDirectory
    | none => .error .notFound

/-! ### Given files -/

/-- The files with the directory of a path as the working directory, if the path leads to one. -/
def enter (fs : FileSystem) (path : Path) : FileSystem :=
  match fs.locate path with
  | .ok loc =>
    if h : fs.get? loc = some .directory then { fs with working := loc, working_there := h } else fs
  | .error _ => fs

/-- The files with an entry where steps lead from `here`, and with the directories on the way. -/
def addFrom (fs : FileSystem) (here : Location) : List Step → Entry → FileSystem
  | [], _ => fs
  | [step], entry => fs.put (step.from here) entry
  | step :: rest, entry =>
    let next := step.from here
    addFrom (if (fs.get? next).isSome then fs else fs.put next .directory) next rest entry

/-- The files with an entry under a path and the directories on the way to it. -/
def add (fs : FileSystem) (path : Text) (entry : Entry) : FileSystem :=
  match steps (Path.ofText path) with
  | .ok steps => fs.addFrom (fs.start (Path.ofText path).root) steps entry
  | .error _ => fs

/-- The files with further entries under the given paths. -/
def addAll (fs : FileSystem) (entries : List (Text × Entry)) : FileSystem :=
  entries.foldl (fun fs (path, entry) => fs.add path entry) fs

/-- The files and directories under the given paths. -/
def ofEntries (entries : List (Text × Entry)) : FileSystem := root.addAll entries

/-- The regular files and their bytes. -/
def files (fs : FileSystem) : List (Location × Bytes) :=
  fs.entries.filterMap fun (loc, entry) =>
    match entry with
    | .file content => some (loc, content)
    | .directory => none

end FileSystem

end PluginManifest
