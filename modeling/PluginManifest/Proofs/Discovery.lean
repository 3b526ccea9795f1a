import PluginManifest.Project.Discovery
import PluginManifest.Proofs.FileSystem
import PluginManifest.Proofs.Report
import Mathlib.Data.List.Lex
import Mathlib.Order.Defs.LinearOrder

/-! # The files that are discovered

The order of paths is the lexicographic order of their components' code points (`before_iff`), so a
sorted list of paths is strictly increasing and holds no path twice (`sortPaths_pairwise`,
`nodup_of_sourcePaths`).  Every discovered path leads to a regular file (`isFile_of_sourcePaths`) and
consists of names (`normal_of_sourcePaths`). -/

namespace PluginManifest.Project

/-! ### The order of paths -/

/-- The code points of the components. -/
def ranks (parts : List Text) : List (List ℕ) := parts.map fun part => part.map CodePoint.val

theorem textBefore_iff (a b : Text) :
    Text.before a b = true ↔ a.map CodePoint.val < b.map CodePoint.val := by
  induction a generalizing b with
  | nil =>
      cases b with
      | nil => simp [Text.before]
      | cons d b => simp [Text.before]
  | cons c a ih =>
      cases b with
      | nil => simp [Text.before]
      | cons d b =>
          have hval : c = d ↔ c.val = d.val :=
            ⟨fun h => by rw [h], fun h => by cases c; cases d; cases h; rfl⟩
          simp only [Text.before, List.map_cons, List.cons_lt_cons_iff, Bool.or_eq_true,
            Bool.and_eq_true, decide_eq_true_eq, beq_iff_eq, ih, hval]

theorem rank_injective : Function.Injective (List.map CodePoint.val) := by
  apply List.map_injective_iff.mpr
  intro c d h
  cases c; cases d; cases h; rfl

theorem ranks_injective : Function.Injective ranks :=
  List.map_injective_iff.mpr rank_injective

/-- The order of paths is that of their components, each compared by code points. -/
theorem before_iff (as bs : List Text) : before as bs = true ↔ ranks as < ranks bs := by
  induction as generalizing bs with
  | nil =>
      cases bs with
      | nil => simp [before, ranks]
      | cons b bs => simp [before, ranks]
  | cons a as ih =>
      cases bs with
      | nil => simp [before, ranks]
      | cons b bs =>
          simp only [ranks] at ih ⊢
          simp only [before, List.map_cons, List.cons_lt_cons_iff, Bool.or_eq_true,
            Bool.and_eq_true, beq_iff_eq, ih, textBefore_iff, rank_injective.eq_iff]

/-! ### Sorting -/

theorem mem_insertPath {path p : Path} {paths : List Path} (h : p ∈ insertPath path paths) :
    p = path ∨ p ∈ paths := by
  induction paths with
  | nil => exact .inl (List.mem_singleton.mp h)
  | cons q rest ih =>
      unfold insertPath at h
      split_ifs at h
      · exact List.mem_cons.mp h
      · exact .inr h
      · rcases List.mem_cons.mp h with rfl | h
        · exact .inr List.mem_cons_self
        · exact (ih h).imp id (List.mem_cons_of_mem _)

theorem mem_of_mem_sortPaths {p : Path} {paths : List Path} (h : p ∈ sortPaths paths) :
    p ∈ paths := by
  induction paths with
  | nil => cases h
  | cons q rest ih =>
      rcases mem_insertPath h with rfl | h
      · exact List.mem_cons_self
      · exact List.mem_cons_of_mem _ (ih h)

/-- A path put into its place keeps the order strict. -/
theorem insertPath_pairwise (path : Path) {paths : List Path}
    (h : paths.Pairwise fun p q => ranks p.parts < ranks q.parts) :
    (insertPath path paths).Pairwise fun p q => ranks p.parts < ranks q.parts := by
  induction paths with
  | nil => exact List.pairwise_singleton _ _
  | cons q rest ih =>
      obtain ⟨hq, hrest⟩ := List.pairwise_cons.mp h
      unfold insertPath
      split_ifs with hlt heq
      · rw [before_iff] at hlt
        refine List.pairwise_cons.mpr ⟨?_, h⟩
        intro p hp
        rcases List.mem_cons.mp hp with rfl | hp
        · exact hlt
        · exact lt_trans hlt (hq p hp)
      · exact h
      · refine List.pairwise_cons.mpr ⟨?_, ih hrest⟩
        intro p hp
        rcases mem_insertPath hp with rfl | hp
        · rw [before_iff, not_lt] at hlt
          exact lt_of_le_of_ne hlt fun e => heq (ranks_injective e).symm
        · exact hq p hp

theorem sortPaths_pairwise (paths : List Path) :
    (sortPaths paths).Pairwise fun p q => ranks p.parts < ranks q.parts := by
  induction paths with
  | nil => exact .nil
  | cons p rest ih => exact insertPath_pairwise p ih

/-! ### Finding -/

theorem mem_of_mem_keepIncluded {exclude : List Value} :
    ∀ {paths kept : List Path}, keepIncluded exclude paths = .ok kept → ∀ p ∈ kept, p ∈ paths
  | [], kept, h => by
      cases h
      exact fun _ hp => hp
  | path :: rest, kept, h => by
      obtain ⟨out, -, h⟩ := bind_eq_ok_iff.mp h
      obtain ⟨kept', hkept, h⟩ := bind_eq_ok_iff.mp h
      cases h
      intro p hp
      cases out with
      | true => exact List.mem_cons_of_mem _ (mem_of_mem_keepIncluded hkept p hp)
      | false =>
          rcases List.mem_cons.mp hp with rfl | hp
          · exact List.mem_cons_self
          · exact List.mem_cons_of_mem _ (mem_of_mem_keepIncluded hkept p hp)

/-- The names that a component of a glob writes are names. -/
def NamesOnly (part : GlobPart) : Prop := ∀ n, part = .name n → Path.IsName n

theorem namesOnly_of_partOf {t : Text} {part : GlobPart} (ht : Path.IsName t)
    (h : Glob.partOf t = .ok part) : NamesOnly part := by
  rintro n rfl
  unfold Glob.partOf at h
  split_ifs at h
  · cases h
  · cases h
  · cases h
    exact ht

theorem namesOnly_of_ofValue {v : Value} {glob : Glob} (h : Glob.ofValue v = .ok glob) :
    ∀ part ∈ glob.first :: glob.rest, NamesOnly part := by
  unfold Glob.ofValue at h
  split at h
  · rename_i t
    have hnormal := Path.normal_ofText t
    simp only [Glob.ofText] at h
    split at h
    · cases h
    split at h
    · cases h
    split at h
    · cases h
    · rename_i part parts hparts
      have hnames : ∀ p ∈ part :: parts, Path.IsName p := hparts ▸ hnormal
      obtain ⟨hpart, hrest⟩ := List.forall_mem_cons.mp hnames
      obtain ⟨first, hfirst, h⟩ := bind_eq_ok_iff.mp h
      obtain ⟨rest, hmap, h⟩ := bind_eq_ok_iff.mp h
      cases h
      refine List.forall_mem_cons.mpr ⟨namesOnly_of_partOf hpart hfirst, ?_⟩
      intro p hp
      obtain ⟨t', ht', hp⟩ := exists_of_mem_mapM hmap hp
      exact namesOnly_of_partOf (hrest t' ht') hp
  · -- Only texts write globs.
    split_ifs at h
    split at h
    · cases h
    · cases h
    · split at h
      · cases h
      · cases h
    · cases h

/-- Below a path of names only paths of names are found. -/
theorem normal_of_mem_find {fs : FileSystem} {directories : Bool}
    {parts : List GlobPart} (hparts : ∀ part ∈ parts, NamesOnly part) :
    ∀ {path : Path}, path.Normal → ∀ p ∈ find fs directories parts path, p.Normal := by
  induction parts with
  | nil =>
      intro path hpath p hp
      rw [find, List.mem_singleton] at hp
      rw [hp]
      exact hpath
  | cons part rest ih =>
      obtain ⟨hpart, hrest⟩ := List.forall_mem_cons.mp hparts
      intro path hpath p hp
      cases part with
      | name n =>
          simp only [find, List.mem_ite_nil_right] at hp
          exact ih hrest (hpath.append (by simpa using hpart n rfl)) p hp.2
      | wild pattern =>
          simp only [find, List.mem_flatMap, List.mem_filter, List.mem_ite_nil_right] at hp
          obtain ⟨n, ⟨hn, -⟩, -, hp⟩ := hp
          refine ih hrest (hpath.append ?_) p hp
          unfold namesAt at hn
          split at hn
          · obtain ⟨name, -, rfl⟩ := List.mem_map.mp hn
            simpa using name.isName_text
          · cases hn
      | anyDepth =>
          simp only [find, List.mem_flatMap] at hp
          obtain ⟨q, hq, hp⟩ := hp
          refine ih hrest ?_ p hp
          unfold directoriesAt at hq
          split at hq
          · obtain ⟨names, -, rfl⟩ := List.mem_map.mp hq
            exact hpath.append (List.forall_mem_map.mpr fun name _ => name.isName_text)
          · cases hq

/-! ### Source files -/

theorem mem_filesOf {fs : FileSystem} {root : Path} {exclude : List Value} {pattern : Value}
    {paths : List Path} (h : filesOf fs root exclude pattern = .ok paths) {p : Path}
    (hp : p ∈ paths) : ∃ glob, Glob.ofValue pattern = .ok glob ∧ fs.isFile p = true ∧
      p ∈ pathsMatching fs root glob := by
  obtain ⟨glob, hglob, h⟩ := bind_eq_ok_iff.mp h
  obtain ⟨hm, hf⟩ := List.mem_filter.mp (mem_of_mem_keepIncluded h p hp)
  exact ⟨glob, mapError_eq_ok_iff.mp hglob, hf, hm⟩

theorem mem_sourcePaths {fs : FileSystem} {root : Path} {selection : Selection} {paths : List Path}
    (h : sourcePaths fs root selection = .ok paths) {p : Path} (hp : p ∈ paths) :
    ∃ pattern glob, Glob.ofValue pattern = .ok glob ∧ fs.isFile p = true ∧
      p ∈ pathsMatching fs root glob := by
  obtain ⟨found, hfound, h⟩ := bind_eq_ok_iff.mp h
  cases h
  obtain ⟨ps, hps, hp⟩ := List.mem_flatten.mp (mem_of_mem_sortPaths hp)
  obtain ⟨pattern, -, hpattern⟩ := exists_of_mem_mapM hfound hps
  exact ⟨pattern, mem_filesOf hpattern hp⟩

/-- A discovered path leads to a regular file. -/
theorem isFile_of_sourcePaths {fs : FileSystem} {root : Path} {selection : Selection}
    {paths : List Path} (h : sourcePaths fs root selection = .ok paths) :
    ∀ p ∈ paths, fs.isFile p = true := by
  intro p hp
  obtain ⟨-, -, -, hf, -⟩ := mem_sourcePaths h hp
  exact hf

/-- A discovered path consists of names. -/
theorem normal_of_sourcePaths {fs : FileSystem} {root : Path} (hroot : root.Normal)
    {selection : Selection} {paths : List Path} (h : sourcePaths fs root selection = .ok paths) :
    ∀ p ∈ paths, p.Normal := by
  intro p hp
  obtain ⟨pattern, glob, hglob, -, hm⟩ := mem_sourcePaths h hp
  unfold pathsMatching at hm
  split_ifs at hm
  · exact normal_of_mem_find (namesOnly_of_ofValue hglob) hroot p hm
  · cases hm

/-- No path is discovered twice. -/
theorem nodup_of_sourcePaths {fs : FileSystem} {root : Path} {selection : Selection}
    {paths : List Path} (h : sourcePaths fs root selection = .ok paths) : paths.Nodup := by
  obtain ⟨found, -, h⟩ := bind_eq_ok_iff.mp h
  cases h
  refine (sortPaths_pairwise found.flatten).imp ?_
  intro p q hlt e
  rw [e] at hlt
  exact lt_irrefl _ hlt

end PluginManifest.Project
